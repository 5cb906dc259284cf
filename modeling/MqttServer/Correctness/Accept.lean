import MqttServer.Codec.Wire
import MqttServer.Correctness.RoundTrip

/-!
# `Correctness.Accept` — which files `restore` accepts

`store` writes chunks of any length; `restore` reads each chunk into a static buffer of one megabyte and gives up on
a longer one. Besides, `store` does not look at what `fflush` and `fclose` return, and a file that was cut off inside a
chunk is given up on too. Nothing else can go wrong: a record that is there as a whole is unpacked, and the cursors of
a stored message are in order. So the file is accepted exactly when it ends between two chunks and each record up to
there fits (`restore_accepts_iff`). The retained messages of all topics make one record.
-/

namespace MqttServer

open Lib Exec

variable {env env' : Env} {mp : MsgPack} {b b' b₁ : Broker}

/-! ## Records that can be read -/

/-- The messages of a record have their cursors in order. -/
def Record.Valid : Record → Prop
  | .msg tmp => tmp.Valid
  | .retains map => ∀ e ∈ map, e.2.Valid
  | _ => True

theorem MbufTmp.ofBuf_valid (buf : Buf) : (MbufTmp.ofBuf buf).Valid :=
  ⟨buf.2.ordered, buf.2.inside, buf.2.sized⟩

theorem records_valid : ∀ r ∈ records env b, r.Valid := by
  intro r hr
  unfold records at hr
  rcases List.mem_cons.mp hr with rfl | hr
  · trivial
  rcases List.mem_append.mp hr with hr | hr
  · obtain ⟨tmp, htmp, rfl⟩ := List.mem_map.mp hr
    obtain ⟨-, m, -, rfl⟩ := mem_storedMsgs.mp htmp
    exact MbufTmp.ofBuf_valid _
  rcases List.mem_append.mp hr with hr | hr
  · obtain ⟨info, -, rfl⟩ := List.mem_map.mp hr
    trivial
  · split at hr
    · cases hr
    · rw [List.mem_singleton.mp hr]
      rintro ⟨t, tmp⟩ he
      obtain ⟨m, -, -, rfl⟩ := mem_retainMap.mp he
      exact MbufTmp.ofBuf_valid _

theorem restoreMbuf_total {tmp : MbufTmp} (h : tmp.Valid) (db : Bool) :
    ∃ m b', restoreMbuf tmp db b = .ok (m, b') := by
  unfold restoreMbuf
  unfold MbufTmp.Valid at h
  rw [get_bind, if_pos h]
  exact ⟨_, _, rfl⟩

theorem restoreRetains_total (map : List (ByteStr × MbufTmp)) :
    ∀ b : Broker, (∀ e ∈ map, e.2.Valid) → ∃ b', restoreRetains map b = .ok ((), b') := by
  induction map with
  | nil => exact fun b _ => ⟨b, rfl⟩
  | cons e map ih =>
      intro b h
      obtain ⟨t, tmp⟩ := e
      obtain ⟨m, b₁, hm⟩ := restoreMbuf_total (b := b) (h (t, tmp) List.mem_cons_self) false
      obtain ⟨b', hb'⟩ := ih
        { b₁ with sess := { b₁.sess with topicMgr := b₁.sess.topicMgr.setRetainMsg t (some m) } }
        fun e he => h e (List.mem_cons_of_mem _ he)
      refine ⟨b', ?_⟩
      unfold restoreRetains
      rw [bind_ok]
      exact ⟨m, b₁, hm, hb'⟩

/-- **A whole record is read.** -/
theorem restoreChunk_total {r : Record} (env : Env) (mp : MsgPack) (h : r.Valid) (st : RestoreState) (b : Broker) :
    ∃ st' b', restoreChunk env mp r.type st (r.pack mp) b = .ok (st', b') := by
  cases r with
  | info i =>
      unfold restoreChunk restoreDbInfo unpackOr
      simp only [Record.type, Record.pack, mp.info.unpack_pack]
      exact ⟨_, _, rfl⟩
  | msg tmp =>
      obtain ⟨m, b₁, hm⟩ := restoreMbuf_total (b := b) h (decide (tmp.msgId ≠ 0))
      unfold restoreChunk restoreDbMsg unpackOr
      simp only [Record.type, Record.pack, mp.mbuf.unpack_pack, pure_bind]
      rw [bind_apply, hm]
      simp only
      split
      · exact ⟨_, _, rfl⟩
      · exact ⟨_, _, rfl⟩
  | client i => exact ⟨_, _, restoreClientInfo_eq (mp.client.unpack_pack i)⟩
  | retains map =>
      obtain ⟨b', hb'⟩ := restoreRetains_total map b h
      unfold restoreChunk restoreRetainMsg unpackOr
      simp only [Record.type, Record.pack, mp.retain.unpack_pack, pure_bind]
      rw [bind_apply, hb']
      exact ⟨_, _, rfl⟩

theorem restoreRecords_total (env : Env) (mp : MsgPack) (rs : List Record) :
    ∀ (st : RestoreState) (b : Broker), (∀ r ∈ rs, r.Valid) → ∃ st' b', restoreRecords env mp rs st b = .ok (st', b') := by
  induction rs with
  | nil => exact fun st b _ => ⟨st, b, rfl⟩
  | cons r rs ih =>
      intro st b h
      obtain ⟨st₁, b₁, hc⟩ := restoreChunk_total env mp (h r List.mem_cons_self) st b
      obtain ⟨st', b', h'⟩ := ih st₁ b₁ fun r' hr' => h r' (List.mem_cons_of_mem _ hr')
      refine ⟨st', b', ?_⟩
      unfold restoreRecords
      rw [bind_ok]
      exact ⟨st₁, b₁, hc, h'⟩

/-! ## Records that fit -/

/-- The packed record is not longer than the buffer of `restore`. -/
def Record.Fits (mp : MsgPack) (r : Record) : Prop := (r.pack mp).length ≤ maxChunkLen

theorem Record.Fits.stored {r : Record} (h : r.Fits mp) :
    chunkLen (r.pack mp) ≤ maxChunkLen ∧ r.stored mp = (r.type, r.pack mp) := by
  have hlen : chunkLen (r.pack mp) = (r.pack mp).length := by
    unfold Record.Fits maxChunkLen at h
    unfold chunkLen
    exact Nat.mod_eq_of_lt (by omega)
  refine ⟨by rw [hlen]; exact h, ?_⟩
  unfold Record.stored
  rw [hlen, List.take_length]

theorem restoreChunks_fits (rs : List Record) : ∀ (st : RestoreState) (b : Broker), (∀ r ∈ rs, r.Fits mp) →
    restoreChunks env mp (rs.map (Record.stored mp)) st b = restoreRecords env mp rs st b := by
  induction rs with
  | nil => exact fun _ _ _ => rfl
  | cons r rs ih =>
      intro st b h
      rw [List.map_cons]
      unfold restoreChunks restoreRecords
      rw [(h r List.mem_cons_self).stored.2, bind_apply, bind_apply]
      cases restoreChunk env mp r.type st (r.pack mp) b with
      | error e => rfl
      | ok p => exact ih p.1 p.2 fun r' hr' => h r' (List.mem_cons_of_mem _ hr')

/-- **A file of records is accepted exactly when each of them fits.** -/
theorem restore_fileOf_iff {rs : List Record} (hvalid : ∀ r ∈ rs, r.Valid) :
    (∃ b', restore env mp (some (fileOf mp rs)) b = .ok (0, b')) ↔ ∀ r ∈ rs, r.Fits mp := by
  constructor
  · rintro ⟨b', h⟩ r hr
    obtain ⟨st, b₁, dbFile, hloop, -⟩ := restore_some h
    obtain ⟨cs, hreads, hcs⟩ := restoreLoop_reads _ _ _ _ hloop
    obtain ⟨rfl, hlens⟩ := (reads_fileOf rs).mp hreads
    -- what was read was whole, so the length in the file is the length of the record
    have hwhole := (restoreChunks_records rs _ _ hcs).1 r hr
    have hlen := length_take_chunkLen (r.pack mp)
    rw [hwhole] at hlen
    unfold Record.Fits
    rw [hlen]
    exact hlens r hr
  · intro hfits
    obtain ⟨st', b', h⟩ := restoreRecords_total env mp rs {} b hvalid
    rw [← restoreChunks_fits rs {} b hfits] at h
    have hreads : Reads (fileOf mp rs) (rs.map (Record.stored mp)) :=
      (reads_fileOf rs).mpr ⟨rfl, fun r hr => (hfits r hr).stored.1⟩
    obtain ⟨dbFile, hrestore⟩ := restore_of_loop (hreads.restoreLoop (Nat.lt_succ_self _) h)
    exact ⟨_, hrestore⟩

/-- An initial part of it is accepted when it ends behind a record. -/
theorem restore_prefix_iff {rs : List Record} {file : ByteStr} (hvalid : ∀ r ∈ rs, r.Valid) (hpart : file <+: fileOf mp rs) :
    (∃ b', restore env mp (some file) b = .ok (0, b')) ↔
      ∃ n, file = fileOf mp (rs.take n) ∧ ∀ r ∈ rs.take n, r.Fits mp := by
  have htake : ∀ n, ∀ r ∈ rs.take n, r.Valid := fun n r hr => hvalid r (List.mem_of_mem_take hr)
  constructor
  · rintro ⟨b', h⟩
    obtain ⟨n, -, -, -, rfl, -, -⟩ := restore_part hpart h
    exact ⟨n, rfl, (restore_fileOf_iff (htake n)).mp ⟨b', h⟩⟩
  · rintro ⟨n, rfl, hfits⟩
    exact (restore_fileOf_iff (htake n)).mpr hfits

/-- Every record of the broker fits: the counters, each message of the table, each persistent session, and the map
    of all retained messages. -/
def RecordsFit (env : Env) (mp : MsgPack) (b : Broker) : Prop := ∀ r ∈ records env b, r.Fits mp

/-- **`restore` accepts what `store` has written exactly when** the disk has got whole records of it, and each of them
    fits. -/
theorem restore_accepts_iff {now : Nat} (hs : store env mp true b = .ok (0, b₁)) :
    (∃ b₂, restore env' mp b₁.file { file := b₁.file, now } = .ok (0, b₂)) ↔
      ∃ n, (written env mp b).out = fileOf mp ((records env b).take n) ∧ ∀ r ∈ (records env b).take n, r.Fits mp := by
  have hfile := store_force_written hs
  rw [hfile]
  exact restore_prefix_iff records_valid written_prefix

/-- When the disk has the whole file, every record of it has to fit. -/
theorem restore_accepts_whole {now : Nat} (hs : store env mp true b = .ok (0, b₁))
    (hall : (written env mp b).out = fileOf mp (records env b)) :
    (∃ b₂, restore env' mp b₁.file { file := b₁.file, now } = .ok (0, b₂)) ↔ RecordsFit env mp b := by
  have hfile := store_force_written hs
  rw [hfile, hall]
  exact restore_fileOf_iff records_valid

instance (r : Record) : Decidable (r.Fits mp) := Nat.decLe _ _

instance : Decidable (RecordsFit env mp b) := List.decidableBAll _ _

/-- A subscriber that is away, with one message pending, and the same message retained. -/
theorem restore_accepts_subscriber : ∃ (m : Machine) (b₁ : Broker), Reach Env.calm packing m ∧
    store Env.calm packing true m.broker = .ok (0, b₁) ∧ (records Env.calm m.broker).length = 4 ∧
    ∃ b₂, restore Env.calm packing b₁.file { file := b₁.file, now := 9 } = .ok (0, b₂) := by
  have hrun : (Machine.initial.play Env.calm packing
      (Move.alone 1 .accept ++ Move.alone 2 .accept ++ Move.alone 3 (.input 0 (connectPacket 65 0)) ++
        Move.alone 4 (.input 0 (subscribePacket 116)) ++ Move.alone 5 (.input 1 (connectPacket 66 2)) ++
        Move.alone 6 (.input 1 (retainPacket 116 9)))).any
      (fun m => decide ((roundTrip Env.calm packing 9 m.broker).isSome ∧ (records Env.calm m.broker).length = 4 ∧
        RecordsFit Env.calm packing m.broker)) = true := by
    decide +kernel
  obtain ⟨m, hm, htrip, hlen, hfit⟩ := Machine.exists_reach hrun
  obtain ⟨b₂, hb₂⟩ := Option.isSome_iff_exists.mp htrip
  obtain ⟨b₁, hs, -⟩ := roundTrip_some hb₂
  refine ⟨m, b₁, hm, hs, hlen, (restore_accepts_iff hs).mpr ⟨(records Env.calm m.broker).length, ?_, ?_⟩⟩
  · rw [List.take_length, written_calm]
  · rwa [List.take_length]

/-! ## A broker that `restore` does not accept

A parent broker passes on retained messages of many topics. None of them is long, and each of them is stored; the
record of all of them is longer than a megabyte. -/

/-- The first retained message of a topic that nobody subscribes to. -/
theorem publishTopic_first {t : ByteStr} {m : MbufId} {msg : Publish} (hnew : b.sess.topicMgr.lookup t = none)
    (hret : msg.header.retainFlag = true) (hpay : msg.payload.length > 0) :
    publishTopic env t m msg b = .ok ((), { b with
      sess := { b.sess with topicMgr := (b.sess.topicMgr.ensure t).setRetainMsg t (some b.nextBuf) }
      bufs := Function.update b.bufs b.nextBuf (retainCopy b.now (b.bufs m)), nextBuf := b.nextBuf + 1
      log := b.log ++ [.publish t m (b.bufs m).msgId] }) := by
  unfold publishTopic updateRetain newBuf
  simp only [get_bind, set_bind, hret, hpay, if_true, hnew, Option.isNone_none]
  rfl

theorem retainCopy_unread_length (now : Nat) (buf : Buf) : (retainCopy now buf).unread.length = buf.unread.length := by
  have hsize : buf.unread.length < 2 ^ 32 := by
    rw [buf.length_unread, Mbuf.length_eq buf.2]
    have h₁ := buf.2.inside
    have h₂ := buf.2.sized
    omega
  unfold retainCopy
  simp only [Buf.tag_unread]
  cases hu : buf.unread with
  | nil => rw [Buf.make_unread (Nat.le_refl _) (by decide)]
  | cons h rest =>
      rw [hu] at hsize
      have hlen : (UInt8.ofNat (h.toNat / 2 * 2 + 1) :: rest).length ≤ (h :: rest).length := Nat.le_of_eq rfl
      simp only
      rw [Buf.make_unread hlen hsize]
      rfl

/-- A topic, and the retained message for it. -/
def stockTopic (i : Nat) : ByteStr := List.replicate (i + 1) 97

def stockMsg (i : Nat) : Publish :=
  { header := { msgType := .publish, qos := 1, retainFlag := true }, topicName := stockTopic i, msgId := 7
    payload := List.replicate 3700 0 }

def stockPacket (i : Nat) : ByteStr := wirePacket (stockMsg i).header (stockMsg i).body

theorem stockPacket_length (i : Nat) (hi : i < 300) :
    3700 ≤ (stockPacket i).length ∧ (stockPacket i).length ≤ 4096 := by
  have hbody : (stockMsg i).body.length = i + 1 + 2 + 2 + 3700 := by
    rw [(stockMsg i).body_length]
    show (List.replicate (i + 1) (97 : UInt8)).length + 2 + 2 + (List.replicate 3700 (0 : UInt8)).length = _
    rw [List.length_replicate, List.length_replicate]
  unfold stockPacket
  rw [wirePacket_mqttLength (by omega), mqttLength, hbody]
  have hdigits : lengthBytes (i + 1 + 2 + 2 + 3700) ≤ 2 := by
    unfold lengthBytes
    split_ifs <;> omega
  omega

theorem stockPacket_decode (i : Nat) (hi : i < 300) : ∃ msg, Publish.decode.decode (stockPacket i) = some msg ∧
    msg.header.retainFlag = true ∧ msg.topicName = stockTopic i ∧ msg.payload.length > 0 := by
  have hbody : (stockMsg i).body.length < 16384 := by
    rw [(stockMsg i).body_length]
    show (List.replicate (i + 1) (97 : UInt8)).length + 2 + 2 + (List.replicate 3700 (0 : UInt8)).length < _
    rw [List.length_replicate, List.length_replicate]
    omega
  have hwire := Publish.decode_wire (m := stockMsg i) (by show 1 ≤ 3; decide) (by show 7 < 65536; decide) hbody
  rw [Option.map_eq_some_iff] at hwire
  obtain ⟨msg, hmsg, hfields⟩ := hwire
  have hheader : msg.header = (stockMsg i).header := congrArg Prod.fst hfields
  have htopic : msg.topicName = stockTopic i := congrArg (fun x => x.2.1) hfields
  have hpayload : msg.payload = List.replicate 3700 0 := congrArg (fun x => x.2.2.2) hfields
  refine ⟨msg, hmsg, by rw [hheader]; rfl, htopic, ?_⟩
  rw [hpayload, List.length_replicate]
  decide

/-- The first `n` of these topics have their message, and there is nothing else. -/
structure Stocked (n : Nat) (b : Broker) : Prop where
  deque : b.notifyDeque = []
  opened : b.notifyOpen = true
  registered : b.store.registered = []
  msgDb : b.store.msgDb = ∅
  registry : b.sess.registry = ∅
  nodes : ∀ t ∈ b.sess.topicMgr, t.length ≤ n
  retained : ∀ i < n, (b.sess.topicMgr.retainMsg (stockTopic i)).isSome
  long : ∀ t m, b.sess.topicMgr.retainMsg t = some m → m < b.nextBuf ∧ 3700 ≤ (b.bufs m).unread.length

theorem Stocked.empty : Stocked 0 {} where
  deque := rfl
  opened := rfl
  registered := rfl
  msgDb := rfl
  registry := rfl
  nodes := fun _ h => by cases h
  retained := fun _ h => by cases h
  long := fun _ _ h => by cases h

theorem collect_unregistered (h : b.store.registered = []) : b.collect = b := by
  have hstore : { b.store with registered := [] } = b.store := by rw [← h]
  unfold Broker.collect
  simp only [h, List.filter_nil, List.foldl_nil]
  rw [hstore]

/-- The parent broker passes on a message. -/
theorem bridgePublish_decoded {buf : ByteStr} {msg : Publish} (hdec : Publish.decode.decode buf = some msg)
    (ho : b.notifyOpen = true) :
    bridgePublish buf b = .ok ((), { b with
      bufs := Function.update b.bufs b.nextBuf ((Buf.make buf.length b.now buf).tag msg.msgId .publish false)
      nextBuf := b.nextBuf + 1, notifyDeque := b.notifyDeque ++ [b.nextBuf] }) := by
  unfold bridgePublish notify newBuf
  simp only [hdec, get_bind, bind_assoc, set_bind, pure_bind, modify_apply, ho, if_true]

/-- The notifier publishes the only message there is. -/
theorem handleNotify_first {m : MbufId} {msg : Publish} (hq : b.notifyDeque = [m])
    (htype : (b.bufs m).1.msgType = .publish) (hdec : Publish.decode.decode (b.bufs m).unread = some msg)
    (hmode : env.mqttBridge = false) (hnew : b.sess.topicMgr.lookup msg.topicName = none)
    (hret : msg.header.retainFlag = true) (hpay : msg.payload.length > 0) :
    handleNotify env b = .ok ((), { b with
      notifyDeque := []
      sess := { b.sess with
                topicMgr := (b.sess.topicMgr.ensure msg.topicName).setRetainMsg msg.topicName (some b.nextBuf) }
      bufs := Function.update b.bufs b.nextBuf (retainCopy b.now (b.bufs m)), nextBuf := b.nextBuf + 1
      log := b.log ++ [.publish msg.topicName m (b.bufs m).msgId] }) := by
  have hpublish : publishTopic env msg.topicName m msg { b with notifyDeque := [] } = .ok _ :=
    publishTopic_first hnew hret hpay
  unfold handleNotify
  rw [get_bind, hq]
  unfold notifyLoop publishNotified
  simp only [bind_assoc, modify_bind, get_bind, htype, if_true, hdec, hmode, Bool.false_eq_true, if_false]
  rw [bind_apply, hpublish]
  rfl

theorem stockTopic_injective {i j : Nat} (h : stockTopic i = stockTopic j) : i = j := by
  have hlen := congrArg List.length h
  unfold stockTopic at hlen
  rw [List.length_replicate, List.length_replicate] at hlen
  omega

/-- The broker after the notifier has published the message of one more topic. -/
def Broker.stock (b : Broker) (t : ByteStr) (buf : Buf) : Broker :=
  { b with
    sess := { b.sess with topicMgr := (b.sess.topicMgr.ensure t).setRetainMsg t (some (b.nextBuf + 1)) }
    bufs := Function.update (Function.update b.bufs b.nextBuf buf) (b.nextBuf + 1) (retainCopy b.now buf)
    nextBuf := b.nextBuf + 2, notifyDeque := [], busy := [], log := b.log ++ [.publish t b.nextBuf buf.msgId] }

theorem Stocked.stock {n : Nat} {buf : Buf} (h : Stocked n b) (hlen : 3700 ≤ buf.unread.length) :
    Stocked (n + 1) (b.stock (stockTopic n) buf) := by
  have hnode : stockTopic n ∈ b.sess.topicMgr.ensure (stockTopic n) := by
    unfold TopicMgr.ensure
    split
    · exact (AList.mem_insert _).mpr (Or.inl rfl)
    · exact AList.lookup_isSome.mp (by simp [*])
  have hretain : ∀ t, (b.stock (stockTopic n) buf).sess.topicMgr.retainMsg t =
      if t = stockTopic n then some (b.nextBuf + 1) else b.sess.topicMgr.retainMsg t := by
    intro t
    show ((b.sess.topicMgr.ensure _).setRetainMsg _ _).retainMsg t = _
    rw [retainMsg_setRetainMsg, retainMsg_ensure]
    simp only [hnode, and_true]
  refine ⟨rfl, h.opened, h.registered, h.msgDb, h.registry, fun t ht => ?_, fun i hi => ?_, fun t m hm => ?_⟩
  · rw [Broker.stock, mem_setRetainMsg] at ht
    unfold TopicMgr.ensure at ht
    split at ht
    · rcases (AList.mem_insert _).mp ht with rfl | ht
      · rw [stockTopic, List.length_replicate]
      · exact Nat.le_succ_of_le (h.nodes t ht)
    · exact Nat.le_succ_of_le (h.nodes t ht)
  · rw [hretain]
    split
    · rfl
    · rename_i hne
      refine h.retained i (Nat.lt_of_le_of_ne (Nat.le_of_lt_succ hi) ?_)
      rintro rfl
      exact hne rfl
  · rw [hretain] at hm
    split at hm
    · cases hm
      refine ⟨Nat.lt_succ_self _, ?_⟩
      show 3700 ≤ (Function.update (Function.update b.bufs b.nextBuf buf) (b.nextBuf + 1) (retainCopy b.now buf)
        (b.nextBuf + 1)).unread.length
      rw [Function.update_self, retainCopy_unread_length]
      exact hlen
    · obtain ⟨hlt, hm⟩ := h.long t m hm
      refine ⟨Nat.lt_succ_of_lt (Nat.lt_succ_of_lt hlt), ?_⟩
      show 3700 ≤ (Function.update (Function.update b.bufs b.nextBuf buf) (b.nextBuf + 1) _ m).unread.length
      rw [Function.update_of_ne (Nat.ne_of_lt (Nat.lt_succ_of_lt hlt)), Function.update_of_ne (Nat.ne_of_lt hlt)]
      exact hm

/-- One more topic. -/
theorem Stocked.feed {n : Nat} (hn : n < 300) (h : Reach Env.calm packing ⟨b, []⟩) (hst : Stocked n b) :
    ∃ b', Reach Env.calm packing ⟨b', []⟩ ∧ Stocked (n + 1) b' := by
  obtain ⟨msg, hdec, hret, htopic, hpay⟩ := stockPacket_decode n hn
  obtain ⟨hlong, hshort⟩ := stockPacket_length n hn
  have hcollect : ∀ b' : Broker, b'.store = b.store → b'.collect = b' := by
    intro b' hs
    refine collect_unregistered ?_
    rw [hs]
    exact hst.registered
  -- the message waits in the queue
  let buf := (Buf.make (stockPacket n).length b.now (stockPacket n)).tag msg.msgId .publish false
  let b₁ : Broker := { b with bufs := Function.update b.bufs b.nextBuf buf, nextBuf := b.nextBuf + 1
                              notifyDeque := b.notifyDeque ++ [b.nextBuf] }
  have hstep₁ : Machine.step Env.calm packing ⟨b, []⟩ (.bridge (stockPacket n)) = .ok ⟨b₁, []⟩ := by
    have hbridge : bridgePublish (stockPacket n) b = .ok ((), b₁) := bridgePublish_decoded hdec hst.opened
    unfold Machine.step
    simp only [hbridge]
    rw [hcollect b₁ rfl]
  have hfree : Machine.Enabled ⟨b, []⟩ (.bridge (stockPacket n)) := trivial
  have hreach₁ : Reach Env.calm packing ⟨b₁, []⟩ := .step h hfree hstep₁
  -- the notifier is called
  have hwait : Machine.Enabled ⟨b₁, []⟩ (.wait b.now [.notify]) :=
    ⟨rfl, Nat.le_refl _, List.nodup_nil, fun _ h => by cases h⟩
  have hreach₂ : Reach Env.calm packing ⟨b₁, [.notify]⟩ := .step hreach₁ hwait rfl
  have hbuf : b₁.bufs b.nextBuf = buf := Function.update_self _ _ _
  have hunread : buf.unread = stockPacket n := by
    rw [Buf.tag_unread, Buf.make_unread (Nat.le_refl _) (by omega)]
  have hdeque : b₁.notifyDeque = [b.nextBuf] := by
    show b.notifyDeque ++ [b.nextBuf] = [b.nextBuf]
    rw [hst.deque]
    rfl
  have hnew : b₁.sess.topicMgr.lookup msg.topicName = none := by
    refine AList.lookup_eq_none.mpr fun hin => ?_
    have hlen := hst.nodes _ hin
    rw [htopic, stockTopic, List.length_replicate] at hlen
    omega
  have hstep₂ : Machine.step Env.calm packing ⟨b₁, [.notify]⟩ .next = .ok ⟨b.stock (stockTopic n) buf, []⟩ := by
    have hnotify : handleNotify Env.calm { b₁ with busy := [] } = .ok ((), b.stock (stockTopic n) buf) := by
      have hfirst : handleNotify Env.calm { b₁ with busy := [] } = .ok _ :=
        handleNotify_first hdeque (by rw [hbuf]; rfl) (by rw [hbuf, hunread]; exact hdec) rfl hnew hret hpay
      rw [hfirst, hbuf, htopic]
      rfl
    unfold Machine.step runEvent
    simp only [List.filterMap_cons, List.filterMap_nil, Ready.conn?, hnotify]
    rw [hcollect (b.stock (stockTopic n) buf) rfl]
  have hnext : Machine.Enabled ⟨b₁, [.notify]⟩ .next := fun h => by cases h
  have hreach₃ : Reach Env.calm packing ⟨b.stock (stockTopic n) buf, []⟩ := .step hreach₂ hnext hstep₂
  exact ⟨_, hreach₃, hst.stock (by rw [hunread]; exact hlong)⟩

theorem exists_stocked (n : Nat) : n ≤ 300 → ∃ b, Reach Env.calm packing ⟨b, []⟩ ∧ Stocked n b := by
  induction n with
  | zero => exact fun _ => ⟨{}, .start .empty, Stocked.empty⟩
  | succ n ih =>
      intro hn
      obtain ⟨b, hreach, hst⟩ := ih (Nat.le_of_succ_le hn)
      exact hst.feed hn hreach

/-- Without sessions `store` returns. -/
theorem store_no_sessions (h : b.sess.registry = ∅) : ∃ r b', store env mp true b = .ok (r, b') := by
  have hclients : ∀ b' : Broker, b'.sess = b.sess → writing.Resp (storeClientInfo env mp) b' := by
    intro b' hs
    have hnil : env.order (b'.sess.registry.entries.map Sigma.snd) = [] := by
      rw [hs, h]
      exact (env.order_perm _).eq_nil
    unfold storeClientInfo Frame.Resp
    rw [get_bind, hnil]
    exact writing.refl _
  have hresp : writing.Resp (storeAll env mp) (flushStat b) := by
    unfold storeAll
    refine Frame.resp_bind closeFile_writing fun _ b₀ h₀ => ?_
    obtain ⟨_, _, _, rfl⟩ := Frame.resp_ok closeFile_writing h₀
    refine errorReturn_resp openFile_writing fun _ b₁ h₁ => ?_
    obtain ⟨_, _, _, rfl⟩ := Frame.resp_ok openFile_writing h₁
    refine errorReturn_resp ?_ fun _ _ _ => finishFile_writing
    unfold storeChunks
    refine errorReturn_resp storeDbInfo_writing fun _ b₂ h₂ => ?_
    obtain ⟨_, _, _, rfl⟩ := Frame.resp_ok storeDbInfo_writing h₂
    refine errorReturn_resp storeDbMsg_writing fun _ b₃ h₃ => ?_
    obtain ⟨_, _, _, rfl⟩ := Frame.resp_ok storeDbMsg_writing h₃
    refine errorReturn_resp (hclients _ rfl) fun _ _ _ => ?_
    exact errorReturn_resp storeRetainMsg_writing fun _ _ _ => Frame.resp_pure _
  unfold Frame.Resp at hresp
  cases hs : storeAll env mp (flushStat b) with
  | ok p => exact ⟨p.1, p.2, hs⟩
  | error e =>
      rw [hs] at hresp
      exact hresp.elim

/-- Packed messages are not shorter than their data. -/
theorem packed_retains_length (map : List (ByteStr × MbufTmp)) :
    (map.map fun e => e.2.data.length).sum ≤ (packing.retain.pack map).length := by
  have hbin : ∀ data : ByteStr, data.length ≤ (Packing.bin.enc data).length := by
    intro data
    show data.length ≤ (_ ++ data.flatMap Codec.byte.enc).length
    rw [List.length_append, List.length_flatMap]
    have hones : (data.map fun v => (Codec.byte.enc v).length).sum = data.length := by
      induction data with
      | nil => rfl
      | cons v data ih =>
          rw [List.map_cons, List.sum_cons, ih, List.length_cons, Nat.add_comm]
          rfl
    rw [hones]
    exact Nat.le_add_left _ _
  have hentry : ∀ e : ByteStr × MbufTmp, e.2.data.length ≤ ((Packing.raw.pair Packing.mbuf).enc e).length := by
    intro e
    show e.2.data.length ≤ (Packing.raw.enc e.1 ++ ([0x96] ++ (Packing.bin.enc e.2.data ++ _))).length
    have h := hbin e.2.data
    simp only [List.length_append]
    omega
  show _ ≤ (_ ++ map.flatMap (Packing.raw.pair Packing.mbuf).enc).length
  rw [List.length_append, List.length_flatMap]
  refine Nat.le_trans (List.sum_le_sum fun e _ => hentry e) (Nat.le_add_left _ _)

/-- Three hundred of these messages are too much. -/
theorem Stocked.too_long (h : Stocked 300 b) : ¬ RecordsFit Env.calm packing b := by
  intro hfit
  have hkeys : ∀ i < 300, stockTopic i ∈ (retainMap Env.calm b).map Prod.fst := by
    intro i hi
    obtain ⟨m, hm⟩ := Option.isSome_iff_exists.mp (h.retained i hi)
    have hlen := (h.long _ m hm).2
    rw [(b.bufs m).length_unread] at hlen
    exact List.mem_map.mpr ⟨(stockTopic i, _), mem_retainMap.mpr ⟨m, hm, by omega, rfl⟩, rfl⟩
  have hcount : 300 ≤ (retainMap Env.calm b).length := by
    have hnodup : ((List.range 300).map stockTopic).Nodup :=
      List.nodup_range.map_on fun i _ j _ he => stockTopic_injective he
    have hsub : (List.range 300).map stockTopic ⊆ (retainMap Env.calm b).map Prod.fst := by
      intro t ht
      obtain ⟨i, hi, rfl⟩ := List.mem_map.mp ht
      exact hkeys i (List.mem_range.mp hi)
    have hle := (List.subperm_of_subset hnodup hsub).length_le
    rwa [List.length_map, List.length_map, List.length_range] at hle
  have hsum : (retainMap Env.calm b).length * 3700 ≤ ((retainMap Env.calm b).map fun e => e.2.data.length).sum := by
    rw [← smul_eq_mul, ← List.length_map (f := fun e : ByteStr × MbufTmp => e.2.data.length)]
    refine List.card_nsmul_le_sum _ _ fun n hn => ?_
    obtain ⟨⟨t, tmp⟩, he, rfl⟩ := List.mem_map.mp hn
    obtain ⟨m, hm, -, rfl⟩ := mem_retainMap.mp he
    have hlen := (h.long t m hm).2
    have h₁ := (b.bufs m).2.inside
    rw [(b.bufs m).length_unread, Mbuf.length_eq (b.bufs m).2] at hlen
    show 3700 ≤ (b.bufs m).1.data.length
    omega
  have hne : retainMap Env.calm b ≠ [] := fun hnil => by
    rw [hnil] at hcount
    cases hcount
  have hin : Record.retains (retainMap Env.calm b) ∈ records Env.calm b := by
    unfold records
    rw [if_neg hne]
    simp
  have hlong := hfit _ hin
  have hpack : _ ≤ ((Record.retains (retainMap Env.calm b)).pack packing).length := packed_retains_length _
  unfold Record.Fits maxChunkLen at hlong
  omega

/-- **A stored broker that is not restored.** -/
theorem restore_rejects : ∃ (m : Machine) (b₁ : Broker), Reach Env.calm packing m ∧
    store Env.calm packing true m.broker = .ok (0, b₁) ∧ ¬ ∃ b₂, restore Env.calm packing b₁.file { file := b₁.file, now := 9 } = .ok (0, b₂) := by
  obtain ⟨b, hreach, hst⟩ := exists_stocked 300 (Nat.le_refl _)
  have hreturns : ∃ r b₁, store Env.calm packing true b = .ok (r, b₁) := store_no_sessions hst.registry
  obtain ⟨r, b₁, hs⟩ := hreturns
  -- every write is accepted, so `store` returns 0
  have hwrites : storeAll Env.calm packing (flushStat b) = .ok (r, b₁) := hs
  obtain rfl : r = 0 := ((storeAll_writes hwrites).2 rfl).2.2.mpr (completed_calm _ _)
  exact ⟨⟨b, []⟩, b₁, hreach, hs, fun haccepted => hst.too_long ((restore_accepts_whole hs written_calm).mp haccepted)⟩

end MqttServer
