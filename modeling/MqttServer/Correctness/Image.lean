import MqttServer.Correctness.Writes

/-!
# `Correctness.Image` — the file as a list of records

`restore` that returns `0` on an initial part of the file of a list of records has read the first ones of them back, each of
them whole (`restore_part`): a record that is cut by the 32-bit length of its chunk cannot be unpacked. What a list of
records makes of an empty broker is said here phase by phase: messages, sessions, retained messages.
-/

namespace MqttServer

open Lib Exec

variable {env : Env} {mp : MsgPack} {b b' : Broker}

/-! ## Reading chunks -/

/-- What `restore` reads when it gets to the end of a file: its chunks, with their types and data. -/
inductive Reads : ByteStr → List (ChunkType × ByteStr) → Prop where
  | done : Reads [] []
  | chunk {type : ChunkType} {len data rest : ByteStr} {cs : List (ChunkType × ByteStr)} (hlen : len.length = 4)
      (hdata : data.length = readLe32 len) (hmax : data.length ≤ maxChunkLen) (h : Reads rest cs) :
      Reads (0xEE :: type.value :: (len ++ (data ++ rest))) ((type, data) :: cs)

/-- The chunks of a file, one after the other. -/
def restoreChunks (env : Env) (mp : MsgPack) : List (ChunkType × ByteStr) → RestoreState → BrokerM RestoreState
  | [], st => pure st
  | c :: cs, st => do
      let st ← restoreChunk env mp c.1 st c.2
      restoreChunks env mp cs st

/-- **What `restore` reads**, whatever it returns: the chunks of an initial part of the file. When it returns `0` this is
    the whole file. -/
theorem restoreLoop_part {r : Int} {st' : RestoreState} (fuel : Nat) : ∀ (st : RestoreState) (file : ByteStr) (b : Broker),
    restoreLoop env mp fuel st file b = .ok ((r, st'), b') →
      ∃ part cs, part <+: file ∧ (r = 0 → part = file) ∧ Reads part cs ∧
        restoreChunks env mp cs st b = .ok (st', b') := by
  induction fuel with
  | zero =>
      intro st file b h
      cases h
      exact ⟨[], [], List.nil_prefix, (fun h => by cases h), .done, rfl⟩
  | succ fuel ih =>
      intro st file b h
      rcases restoreLoop_cases h with ⟨rfl, -, rfl, rfl⟩ | ⟨rfl, rfl, rfl⟩ |
        ⟨type, len, data, rest, st₁, b₁, hlen, hdata, hmax, rfl, hc, h⟩
      · exact ⟨[], [], List.nil_prefix, fun _ => rfl, .done, rfl⟩
      · exact ⟨[], [], List.nil_prefix, (fun h => by cases h), .done, rfl⟩
      · obtain ⟨part, cs, hpart, hwhole, hreads, hcs⟩ := ih st₁ rest b₁ h
        refine ⟨_, (type, data) :: cs, ?_, ?_, .chunk hlen hdata hmax hreads, ?_⟩
        · simp only [List.cons_prefix_cons, true_and, List.prefix_append_right_inj]
          exact hpart
        · intro hr
          rw [hwhole hr]
        · unfold restoreChunks
          rw [bind_ok]
          exact ⟨st₁, b₁, hc, hcs⟩

/-- **Reading to the end** is reading the chunks. -/
theorem restoreLoop_reads {st' : RestoreState} (fuel : Nat) (st : RestoreState) (file : ByteStr) (b : Broker)
    (h : restoreLoop env mp fuel st file b = .ok ((0, st'), b')) :
    ∃ cs, Reads file cs ∧ restoreChunks env mp cs st b = .ok (st', b') := by
  obtain ⟨part, cs, -, hwhole, hreads, hcs⟩ := restoreLoop_part fuel st file b h
  obtain rfl := hwhole rfl
  exact ⟨cs, hreads, hcs⟩

/-- Chunks that can all be handled are read to the end. -/
theorem Reads.restoreLoop {file : ByteStr} {cs : List (ChunkType × ByteStr)} (h : Reads file cs) :
    ∀ {fuel : Nat} {st st' : RestoreState} {b : Broker}, file.length < fuel →
      restoreChunks env mp cs st b = .ok (st', b') →
        MqttServer.restoreLoop env mp fuel st file b = .ok ((0, st'), b') := by
  induction h with
  | done =>
      intro fuel st st' b hfuel hcs
      cases hcs
      cases fuel with
      | zero => cases hfuel
      | succ fuel => rfl
  | @chunk type len data rest cs hlen hdata hmax h ih =>
      intro fuel st st' b hfuel hcs
      unfold restoreChunks at hcs
      rw [bind_ok] at hcs
      obtain ⟨st₁, b₁, hc, hcs⟩ := hcs
      cases fuel with
      | zero => cases hfuel
      | succ fuel =>
          have hread : readLe32 (len ++ (data ++ rest)) = data.length := by
            rw [hdata]
            match len, hlen with
            | [_, _, _, _], _ => rfl
          have hdrop : (len ++ (data ++ rest)).drop 4 = data ++ rest := List.drop_left' hlen
          have hroom : ¬ ((len ++ (data ++ rest)).length < 4 ∨ data.length > maxChunkLen ∨
              (data ++ rest).length < data.length) := by
            rw [List.length_append, List.length_append]
            omega
          unfold MqttServer.restoreLoop
          simp only [ne_eq, not_true_eq_false, if_false, hread, hdrop, if_neg hroom, ChunkType.ofValue_value,
            List.take_left, List.drop_left]
          rw [bind_ok]
          refine ⟨st₁, b₁, hc, ih ?_ hcs⟩
          simp only [List.length_cons, List.length_append] at hfuel
          omega

/-! ## Reading records -/

/-- The records of a file, one after the other. -/
def restoreRecords (env : Env) (mp : MsgPack) : List Record → RestoreState → BrokerM RestoreState
  | [], st => pure st
  | r :: rs, st => do
      let st ← restoreChunk env mp r.type st (r.pack mp)
      restoreRecords env mp rs st

theorem Packer.unpack_take {α : Type} (p : Packer α) {a : α} {n : Nat} (h : (p.unpack ((p.pack a).take n)).isSome) :
    (p.pack a).take n = p.pack a := by
  by_cases hn : n < (p.pack a).length
  · rw [p.unpack_prefix a n hn] at h
    cases h
  · exact List.take_of_length_le (Nat.le_of_not_lt hn)

theorem unpackOr_bind_ok {α β : Type} {p : Packer α} {buf : ByteStr} {f : α → BrokerM β} {x : β × Broker}
    (h : (unpackOr p buf >>= f) b = .ok x) : ∃ a, p.unpack buf = some a ∧ f a b = .ok x := by
  rw [bind_ok] at h
  obtain ⟨a, b₁, hp, h⟩ := h
  obtain ⟨hu, rfl⟩ := unpackOr_ok hp
  exact ⟨a, hu, h⟩

/-- A record that could be read was not cut. -/
theorem take_pack_of_restoreChunk {r : Record} {n : Nat} {st : RestoreState} {x : RestoreState × Broker}
    (h : restoreChunk env mp r.type st ((r.pack mp).take n) b = .ok x) : (r.pack mp).take n = r.pack mp := by
  cases r with
  | info i =>
      unfold restoreChunk restoreDbInfo at h
      simp only [Record.type, bind_assoc] at h
      obtain ⟨a, hu, -⟩ := unpackOr_bind_ok h
      exact mp.info.unpack_take (Option.isSome_of_eq_some hu)
  | msg tmp =>
      obtain ⟨a, hu, -⟩ := unpackOr_bind_ok h
      exact mp.mbuf.unpack_take (Option.isSome_of_eq_some hu)
  | client i =>
      obtain ⟨a, hu, -⟩ := unpackOr_bind_ok h
      exact mp.client.unpack_take (Option.isSome_of_eq_some hu)
  | retains map =>
      unfold restoreChunk restoreRetainMsg at h
      simp only [Record.type, bind_assoc] at h
      obtain ⟨a, hu, -⟩ := unpackOr_bind_ok h
      exact mp.retain.unpack_take (Option.isSome_of_eq_some hu)

/-- The chunk of a record as the file has it. -/
def Record.stored (mp : MsgPack) (r : Record) : ChunkType × ByteStr :=
  (r.type, (r.pack mp).take (chunkLen (r.pack mp)))

theorem fileOf_cons (r : Record) (rs : List Record) : fileOf mp (r :: rs) =
    0xEE :: r.type.value :: (le32 (chunkLen (r.pack mp)) ++ ((r.pack mp).take (chunkLen (r.pack mp)) ++ fileOf mp rs)) := by
  simp only [fileOf, List.flatMap_cons, chunk, List.cons_append, List.append_assoc]

theorem readLe32_chunkLen (data : ByteStr) : readLe32 (le32 (chunkLen data)) = chunkLen data := by
  have h := readLe32_le32 (chunkLen_lt data) []
  rwa [List.append_nil] at h

theorem ChunkType.value_injective {type type' : ChunkType} (h : type.value = type'.value) : type = type' := by
  have hv := congrArg ChunkType.ofValue h
  rw [ChunkType.ofValue_value, ChunkType.ofValue_value] at hv
  exact Option.some.inj hv

/-- What can be read of an initial part of a written file are the chunks of its first records. -/
theorem Reads.of_part {part : ByteStr} {cs : List (ChunkType × ByteStr)} (h : Reads part cs) :
    ∀ {rs : List Record}, part <+: fileOf mp rs → ∃ n, cs = (rs.take n).map (Record.stored mp) ∧
      part = fileOf mp (rs.take n) ∧ ∀ r ∈ rs.take n, chunkLen (r.pack mp) ≤ maxChunkLen := by
  induction h with
  | done => exact fun _ => ⟨0, rfl, rfl, fun _ hr => by cases hr⟩
  | @chunk type len data rest cs hlen hdata hmax h ih =>
      intro rs hpart
      cases rs with
      | nil =>
          rw [fileOf, List.flatMap_nil, List.prefix_nil] at hpart
          cases hpart
      | cons r rs =>
          rw [fileOf_cons, List.cons_prefix_cons, List.cons_prefix_cons] at hpart
          obtain ⟨-, htype, t, hrest⟩ := hpart
          rw [List.append_assoc, List.append_assoc] at hrest
          -- the length decides where the data ends
          obtain ⟨rfl, hbehind⟩ := List.append_inj hrest hlen
          rw [readLe32_chunkLen] at hdata
          obtain ⟨rfl, htail⟩ := List.append_inj hbehind (hdata.trans (length_take_chunkLen _).symm)
          obtain ⟨n, rfl, hfile, hfit⟩ := ih ⟨t, htail⟩
          refine ⟨n + 1, ?_, ?_, ?_⟩
          · rw [List.take_succ_cons, List.map_cons, Record.stored, ChunkType.value_injective htype]
          · rw [List.take_succ_cons, fileOf_cons, ChunkType.value_injective htype, hfile]
          · intro r' hr'
            rw [List.take_succ_cons] at hr'
            rcases List.mem_cons.mp hr' with rfl | hr'
            · rw [← hdata]
              exact hmax
            · exact hfit r' hr'

/-- The chunks of a written file are those of its records, and none is longer than `restore` takes. -/
theorem reads_fileOf (rs : List Record) {cs : List (ChunkType × ByteStr)} : Reads (fileOf mp rs) cs ↔
    cs = rs.map (Record.stored mp) ∧ ∀ r ∈ rs, chunkLen (r.pack mp) ≤ maxChunkLen := by
  constructor
  · intro h
    obtain ⟨n, hcs, hfile, hfit⟩ := h.of_part (List.prefix_refl _)
    have hall : rs.take n = rs := by
      have happ : fileOf mp (rs.take n) ++ fileOf mp (rs.drop n) = fileOf mp rs := by
        rw [← fileOf_append, List.take_append_drop]
      rw [← hfile, List.append_right_eq_self] at happ
      cases hdrop : rs.drop n with
      | nil =>
          rw [List.drop_eq_nil_iff] at hdrop
          exact List.take_of_length_le hdrop
      | cons r rs' =>
          rw [hdrop, fileOf_cons] at happ
          cases happ
    rw [hall] at hcs hfit
    exact ⟨hcs, hfit⟩
  · rintro ⟨rfl, hfit⟩
    induction rs with
    | nil => exact .done
    | cons r rs ih =>
        rw [fileOf_cons]
        refine .chunk rfl ?_ ?_ (ih fun r' hr' => hfit r' (List.mem_cons_of_mem _ hr'))
        · rw [length_take_chunkLen, readLe32_chunkLen]
        · rw [length_take_chunkLen]
          exact hfit r List.mem_cons_self

/-- Records that were read were whole. -/
theorem restoreChunks_records {st' : RestoreState} (rs : List Record) : ∀ (st : RestoreState) (b : Broker),
    restoreChunks env mp (rs.map (Record.stored mp)) st b = .ok (st', b') →
      (∀ r ∈ rs, (r.pack mp).take (chunkLen (r.pack mp)) = r.pack mp) ∧
        restoreRecords env mp rs st b = .ok (st', b') := by
  induction rs with
  | nil =>
      intro st b h
      exact ⟨(fun _ h => by cases h), h⟩
  | cons r rs ih =>
      intro st b h
      rw [List.map_cons] at h
      unfold restoreChunks at h
      rw [bind_ok] at h
      obtain ⟨st₁, b₁, hc, h⟩ := h
      have hwhole := take_pack_of_restoreChunk hc
      have hc' : restoreChunk env mp r.type st (r.pack mp) b = .ok (st₁, b₁) := by
        rw [← hwhole]
        exact hc
      obtain ⟨hrest, h'⟩ := ih st₁ b₁ h
      refine ⟨fun r' hr' => ?_, ?_⟩
      · rcases List.mem_cons.mp hr' with rfl | hr'
        · exact hwhole
        · exact hrest r' hr'
      · unfold restoreRecords
        rw [bind_ok]
        exact ⟨st₁, b₁, hc', h'⟩

/-- **What `restore` reads** when it returns `0`, also when only a part of a file has got to the disk: the first records
    of the file, and nothing behind them. -/
theorem restore_part {rs : List Record} {file : ByteStr} (hpart : file <+: fileOf mp rs)
    (h : restore env mp (some file) b = .ok (0, b')) : ∃ n st b₁ dbFile, file = fileOf mp (rs.take n) ∧
      restoreRecords env mp (rs.take n) {} b = .ok (st, b₁) ∧ b' = { st.clear b₁ with dbFile } := by
  obtain ⟨st, b₁, dbFile, hloop, rfl⟩ := restore_some h
  obtain ⟨cs, hreads, hcs⟩ := restoreLoop_reads _ _ _ _ hloop
  obtain ⟨n, rfl, hfile, -⟩ := hreads.of_part hpart
  exact ⟨n, st, b₁, dbFile, hfile, (restoreChunks_records _ _ _ hcs).2, rfl⟩

theorem restoreRecords_append {st' : RestoreState} (rs : List Record) {rs' : List Record} :
    ∀ {st : RestoreState} {b : Broker}, restoreRecords env mp (rs ++ rs') st b = .ok (st', b') →
      ∃ st₁ b₁, restoreRecords env mp rs st b = .ok (st₁, b₁) ∧
        restoreRecords env mp rs' st₁ b₁ = .ok (st', b') := by
  induction rs with
  | nil => exact fun h => ⟨_, _, rfl, h⟩
  | cons r rs ih =>
      intro st b h
      rw [List.cons_append] at h
      unfold restoreRecords at h
      rw [bind_ok] at h
      obtain ⟨st₁, b₁, hc, h⟩ := h
      obtain ⟨st₂, b₂, h₁, h₂⟩ := ih h
      refine ⟨st₂, b₂, ?_, h₂⟩
      unfold restoreRecords
      rw [bind_ok]
      exact ⟨st₁, b₁, hc, h₁⟩

/-! ## Messages -/

/-- The bytes `restore_mbuf` copies. -/
def MbufTmp.unread (tmp : MbufTmp) : ByteStr :=
  (tmp.data.drop tmp.readPos).take (tmp.writePos - tmp.readPos)

theorem MbufTmp.unread_ofBuf (buf : Buf) : (MbufTmp.ofBuf buf).unread = buf.unread := by
  show (buf.1.data.drop buf.1.readPos).take (buf.1.writePos - buf.1.readPos) = buf.1.unread
  unfold Mbuf.unread
  rw [Mbuf.length_eq buf.2]

/-- The messages read so far, as `m_tmp_msg_db` finds them. -/
structure Loaded (ms : List MbufTmp) (st : RestoreState) (b : Broker) : Prop where
  sound : ∀ id r, st.tmpMsgDb.lookup id = some r → r < b.nextBuf ∧ id ≠ 0 ∧ (b.bufs r).msgId = id ∧
    ∃ tmp ∈ ms, tmp.msgId = id ∧ (b.bufs r).unread = tmp.unread
  complete : ∀ tmp ∈ ms, tmp.msgId ≠ 0 → ∃ r, st.tmpMsgDb.lookup tmp.msgId = some r

namespace Loaded

variable {ms : List MbufTmp} {st st' : RestoreState}

/-- The record of one more message. -/
theorem snoc {tmp : MbufTmp} (hl : Loaded ms st b)
    (h : restoreDbMsg mp st (mp.mbuf.pack tmp) b = .ok (st', b')) :
    Loaded (ms ++ [tmp]) st' b' ∧ st'.contexts = st.contexts ∧ b'.sess = b.sess ∧
      b'.store.lastMsgId = b.store.lastMsgId := by
  obtain ⟨tmp', new, hu, hid, hun, hbufs, hnext, hsess, hlast, hdb⟩ := restoreDbMsg_eq h
  rw [mp.mbuf.unpack_pack tmp] at hu
  cases hu
  have hkeep : ∀ id r, st.tmpMsgDb.lookup id = some r → r < b'.nextBuf ∧ id ≠ 0 ∧
      (b'.bufs r).msgId = id ∧ ∃ x ∈ ms ++ [tmp], x.msgId = id ∧ (b'.bufs r).unread = x.unread := by
    intro id r hr
    obtain ⟨hlt, hne, hid, x, hx, heq, hunr⟩ := hl.sound id r hr
    rw [hnext, hbufs, Function.update_of_ne (Nat.ne_of_lt hlt)]
    exact ⟨Nat.lt_succ_of_lt hlt, hne, hid, x, List.mem_append_left _ hx, heq, hunr⟩
  rcases hdb with ⟨hz, rfl, -⟩ | ⟨hne, rfl, -⟩
  · refine ⟨⟨hkeep, fun x hx hn => ?_⟩, rfl, hsess, hlast⟩
    rcases List.mem_append.mp hx with hx | hx
    · exact hl.complete x hx hn
    · rw [List.mem_singleton.mp hx] at hn
      exact absurd hz hn
  · refine ⟨⟨fun id r hr => ?_, fun x hx hn => ?_⟩, rfl, hsess, hlast⟩
    · simp only at hr
      by_cases hi : id = tmp.msgId
      · subst hi
        rw [AList.lookup_insert] at hr
        cases hr
        rw [hnext, hbufs, Function.update_self]
        exact ⟨Nat.lt_succ_self _, hne, hid, tmp, List.mem_append_right _ (List.mem_singleton.mpr rfl),
          rfl, hun⟩
      · rw [AList.lookup_insert_ne hi] at hr
        exact hkeep id r hr
    · simp only
      by_cases hi : x.msgId = tmp.msgId
      · rw [hi]
        exact ⟨_, AList.lookup_insert _⟩
      · rw [AList.lookup_insert_ne hi]
        rcases List.mem_append.mp hx with hx | hx
        · exact hl.complete x hx hn
        · exact absurd (congrArg MbufTmp.msgId (List.mem_singleton.mp hx)) hi

end Loaded

theorem restoreMsgs_ok {st' : RestoreState} (ms : List MbufTmp) :
    ∀ (done : List MbufTmp) (st : RestoreState) (b : Broker),
      restoreRecords env mp (ms.map .msg) st b = .ok (st', b') → Loaded done st b →
        Loaded (done ++ ms) st' b' ∧ st'.contexts = st.contexts ∧ b'.sess = b.sess ∧
          b'.store.lastMsgId = b.store.lastMsgId := by
  induction ms with
  | nil =>
      intro done st b h hl
      cases h
      rw [List.append_nil]
      exact ⟨hl, rfl, rfl, rfl⟩
  | cons tmp ms ih =>
      intro done st b h hl
      rw [List.map_cons] at h
      unfold restoreRecords at h
      rw [bind_ok] at h
      obtain ⟨st₁, b₁, hc, h⟩ := h
      obtain ⟨hl₁, hctx, hsess, hlast⟩ := hl.snoc hc
      obtain ⟨hl', hctx', hsess', hlast'⟩ := ih _ st₁ b₁ h hl₁
      rw [List.append_assoc] at hl'
      exact ⟨hl', hctx'.trans hctx, hsess'.trans hsess, hlast'.trans hlast⟩

/-! ## Sessions -/

theorem mem_addClientContext {mgr : TopicMgr} {t t' : ByteStr} {c : CtxId} :
    t' ∈ mgr.addClientContext t c ↔ t' = t ∨ t' ∈ mgr := by
  unfold TopicMgr.addClientContext
  cases h : mgr.lookup t with
  | none => exact AList.mem_insert mgr
  | some node => exact AList.mem_insert mgr

/-- The topics of a session get a node, and no retained message. -/
theorem addTopics_nodes (c : CtxId) (ts : List ByteStr) (t : ByteStr) :
    ∀ mgr : TopicMgr, (t ∈ addTopics mgr c ts ↔ t ∈ mgr ∨ t ∈ ts) ∧
      (addTopics mgr c ts).retainMsg t = mgr.retainMsg t := by
  unfold addTopics
  induction ts with
  | nil => exact fun mgr => ⟨by simp, rfl⟩
  | cons t' ts ih =>
      intro mgr
      obtain ⟨hmem, hret⟩ := ih (mgr.addClientContext t' c)
      rw [List.foldl_cons, hmem, hret, mem_addClientContext, retainMsg_addClientContext, List.mem_cons]
      exact ⟨by tauto, rfl⟩

/-- The context a stored session gets. -/
def ClientInfo.context (info : ClientInfo) (db : AList (fun _ : Nat => MbufId)) : ClientContext :=
  { info.toContext with sendMsgQueue := info.sendMsgIds.filterMap fun id => db.lookup id }

/-- What some sessions do to the tables. -/
structure Resumed (infos : List ClientInfo) (st st' : RestoreState) (b b' : Broker) : Prop where
  db : st'.tmpMsgDb = st.tmpMsgDb
  bufs : b'.bufs = b.bufs
  nextBuf : b'.nextBuf = b.nextBuf
  store : b'.store = b.store
  tables : Restored st'.contexts b'.sess
  kept : ∀ id c, b.sess.registry.findClientContext id = some c →
    b'.sess.registry.findClientContext id = some c ∧ b'.sess.ctxs c = b.sess.ctxs c
  only : ∀ id c, b'.sess.registry.findClientContext id = some c →
    b.sess.registry.findClientContext id = some c ∨ ∃ info ∈ infos, info.clientId = id
  nodes : ∀ t, t ∈ b'.sess.topicMgr ↔
    t ∈ b.sess.topicMgr ∨ ∃ info ∈ infos, t ∈ info.subcribeTopics.map Topic.topicName
  retained : ∀ t, b'.sess.topicMgr.retainMsg t = b.sess.topicMgr.retainMsg t
  sessions : (infos.map ClientInfo.clientId).Nodup →
    (∀ info ∈ infos, b.sess.registry.findClientContext info.clientId = none) →
    ∀ info ∈ infos, ∃ c, b'.sess.registry.findClientContext info.clientId = some c ∧
      b'.sess.ctxs c = info.context st.tmpMsgDb

theorem find_addClientContext {r : Registry} {id id' : ByteStr} {c : CtxId} :
    (r.addClientContext id c).findClientContext id' =
      if id' = id ∧ r.findClientContext id = none then some c else r.findClientContext id' := by
  unfold Registry.addClientContext Registry.findClientContext
  cases h : r.lookup id with
  | some c' => simp
  | none =>
      by_cases hid : id' = id
      · subst hid
        simp [AList.lookup_insert]
      · simp [hid, AList.lookup_insert_ne hid]

theorem restoreClients_ok {st' : RestoreState} (infos : List ClientInfo) :
    ∀ (st : RestoreState) (b : Broker), restoreRecords env mp (infos.map .client) st b = .ok (st', b') →
      Restored st.contexts b.sess → Resumed infos st st' b b' := by
  -- on the records, in the order of the file
  induction infos with
  | nil =>
      intro st b h hr
      cases h
      exact ⟨rfl, rfl, rfl, rfl, hr, fun _ _ h => ⟨h, rfl⟩, fun _ _ h => Or.inl h, fun t => by simp, fun _ => rfl,
        fun _ _ _ h => by cases h⟩
  | cons info infos ih =>
      intro st b h hr
      rw [List.map_cons] at h
      unfold restoreRecords at h
      rw [bind_ok] at h
      obtain ⟨st₁, b₁, hc, h⟩ := h
      have heq : restoreChunk env mp (Record.client info).type st ((Record.client info).pack mp) b = _ :=
        restoreClientInfo_eq (mp.client.unpack_pack info)
      rw [heq] at hc
      cases hc
      have hr₁ := hr.addStored info (info.sendMsgIds.filterMap fun id => st.tmpMsgDb.lookup id)
      have hrest := ih _ _ h hr₁
      -- of two records with one name the first stays
      have hfind : ∀ id, (b.sess.registry.addClientContext info.clientId (.stored st.contexts)).findClientContext id =
          if id = info.clientId ∧ b.sess.registry.findClientContext info.clientId = none then
            some (.stored st.contexts) else b.sess.registry.findClientContext id := fun _ => find_addClientContext
      constructor
      case db => exact hrest.db
      case bufs => exact hrest.bufs
      case nextBuf => exact hrest.nextBuf
      case store => exact hrest.store
      case tables => exact hrest.tables
      case kept =>
        intro id c hid
        have hne : ¬ (id = info.clientId ∧ b.sess.registry.findClientContext info.clientId = none) := by
          rintro ⟨rfl, hn⟩
          rw [hid] at hn
          cases hn
        obtain ⟨-, i, hi, rfl⟩ := hr.key id c hid
        have h₁ := hrest.kept id (.stored i) ((hfind id).trans ((if_neg hne).trans hid))
        refine ⟨h₁.1, h₁.2.trans (Function.update_of_ne ?_ _ _)⟩
        intro he
        cases he
        exact Nat.lt_irrefl _ hi
      case only =>
        intro id c hid
        rcases hrest.only id c hid with hid | ⟨x, hx, he⟩
        · have hid' := (hfind id).symm.trans hid
          split at hid'
          · rename_i he
            exact Or.inr ⟨info, List.mem_cons_self, he.1.symm⟩
          · exact Or.inl hid'
        · exact Or.inr ⟨x, List.mem_cons_of_mem _ hx, he⟩
      case nodes =>
        intro t
        rw [hrest.nodes t]
        show t ∈ addTopics b.sess.topicMgr _ _ ∨ _ ↔ _
        rw [(addTopics_nodes _ _ t b.sess.topicMgr).1]
        simp only [List.mem_cons, exists_eq_or_imp]
        tauto
      case retained =>
        intro t
        exact (hrest.retained t).trans (addTopics_nodes _ _ t b.sess.topicMgr).2
      case sessions =>
        intro hnd hnew info' hinfo
        rw [List.map_cons, List.nodup_cons] at hnd
        rcases List.mem_cons.mp hinfo with rfl | hinfo
        · have hid : (b.sess.registry.addClientContext info'.clientId (.stored st.contexts)).findClientContext
              info'.clientId = some (.stored st.contexts) :=
            (hfind _).trans (if_pos ⟨rfl, hnew info' List.mem_cons_self⟩)
          have h₁ := hrest.kept _ _ hid
          exact ⟨_, h₁.1, h₁.2.trans (Function.update_self _ _ _)⟩
        · refine hrest.sessions hnd.2 ?_ info' hinfo
          intro x hx
          have hne : ¬ (x.clientId = info.clientId ∧ b.sess.registry.findClientContext info.clientId = none) := by
            rintro ⟨he, -⟩
            exact hnd.1 (he ▸ List.mem_map_of_mem hx)
          exact (hfind _).trans ((if_neg hne).trans (hnew x (List.mem_cons_of_mem _ hx)))

/-! ## Retained messages of a restored broker -/

theorem mem_setRetainMsg {mgr : TopicMgr} {t t' : ByteStr} {m : Option MbufId} :
    t' ∈ mgr.setRetainMsg t m ↔ t' ∈ mgr := by
  unfold TopicMgr.setRetainMsg
  cases h : mgr.lookup t with
  | none => exact Iff.rfl
  | some node =>
      have hm : t ∈ mgr := AList.lookup_isSome.mp (by rw [h]; rfl)
      simp only [AList.mem_insert]
      constructor
      · rintro (rfl | h')
        · exact hm
        · exact h'
      · exact Or.inr

/-- What some retained messages do: the topics that have a node take theirs. -/
structure Retained (map : List (ByteStr × MbufTmp)) (b b' : Broker) : Prop where
  old : ∀ m < b.nextBuf, b'.bufs m = b.bufs m
  nextBuf : b.nextBuf ≤ b'.nextBuf
  registry : b'.sess.registry = b.sess.registry
  ctxs : b'.sess.ctxs = b.sess.ctxs
  clients : ∀ t, b'.sess.topicMgr.clients t = b.sess.topicMgr.clients t
  lastMsgId : b'.store.lastMsgId = b.store.lastMsgId
  others : ∀ t, t ∉ map.map Prod.fst ∨ t ∉ b.sess.topicMgr →
    b'.sess.topicMgr.retainMsg t = b.sess.topicMgr.retainMsg t
  taken : (map.map Prod.fst).Nodup → ∀ t tmp, (t, tmp) ∈ map → t ∈ b.sess.topicMgr →
    ∃ r < b'.nextBuf, b'.sess.topicMgr.retainMsg t = some r ∧ (b'.bufs r).msgId = tmp.msgId ∧
      (b'.bufs r).unread = tmp.unread

/-- The end of `restore` changes none of this. -/
theorem Retained.cleared {map : List (ByteStr × MbufTmp)} (h : Retained map b b') (st : RestoreState)
    (dbFile : Option ByteStr) : Retained map b { st.clear b' with dbFile } := by
  obtain ⟨msgDb, registered, he⟩ := clear_eq st b'
  rw [he]
  exact ⟨h.old, h.nextBuf, h.registry, h.ctxs, h.clients, h.lastMsgId, h.others, h.taken⟩

theorem restoreRetains_retained {u : Unit} (map : List (ByteStr × MbufTmp)) :
    ∀ b : Broker, restoreRetains map b = .ok (u, b') → Retained map b b' := by
  -- on the pairs of the map: a later pair has another name and leaves this one alone
  induction map with
  | nil =>
      intro b h
      cases h
      exact ⟨fun _ _ => rfl, Nat.le_refl _, rfl, rfl, fun _ => rfl, rfl, fun _ _ => rfl,
        fun _ _ _ h => by cases h⟩
  | cons e map ih =>
      intro b h
      obtain ⟨t₀, tmp₀⟩ := e
      unfold restoreRetains at h
      rw [bind_ok] at h
      obtain ⟨m, b₁, hm, h⟩ := h
      obtain ⟨rfl, new, hid, hun, rfl⟩ := restoreMbuf_eq hm
      rw [modify_bind] at h
      have hrest := ih _ h
      have hret : ∀ t, (b.sess.topicMgr.setRetainMsg t₀ (some b.nextBuf)).retainMsg t =
          if t = t₀ ∧ t₀ ∈ b.sess.topicMgr then some b.nextBuf else b.sess.topicMgr.retainMsg t :=
        fun t => retainMsg_setRetainMsg _ _ _ _
      constructor
      case old =>
        intro m hlt
        rw [hrest.old m (Nat.lt_succ_of_lt hlt)]
        exact Function.update_of_ne (Nat.ne_of_lt hlt) _ _
      case nextBuf => exact Nat.le_trans (Nat.le_succ _) hrest.nextBuf
      case registry => exact hrest.registry
      case ctxs => exact hrest.ctxs
      case clients => exact fun t => (hrest.clients t).trans (TopicMgr.clients_setRetainMsg _ _ _ _)
      case lastMsgId => exact hrest.lastMsgId
      case others =>
        intro t ht
        have hrest' := hrest.others t <| by
          rw [List.map_cons, List.mem_cons] at ht
          rcases ht with ht | ht
          · exact Or.inl fun h => ht (Or.inr h)
          · exact Or.inr fun h => ht (mem_setRetainMsg.mp h)
        refine hrest'.trans ((hret t).trans (if_neg ?_))
        rintro ⟨rfl, hmem⟩
        rcases ht with ht | ht
        · exact ht List.mem_cons_self
        · exact ht hmem
      case taken =>
        intro hnd t tmp hmem hnode
        rw [List.map_cons, List.nodup_cons] at hnd
        rcases List.mem_cons.mp hmem with he | hmem
        · cases he
          have hrest' := hrest.others t₀ (Or.inl hnd.1)
          have hold := hrest.old b.nextBuf (Nat.lt_succ_self _)
          refine ⟨b.nextBuf, Nat.lt_of_lt_of_le (Nat.lt_succ_self _) hrest.nextBuf,
            hrest'.trans ((hret t₀).trans (if_pos ⟨rfl, hnode⟩)), ?_, ?_⟩
          · rw [hold]
            simp only [Function.update_self]
            exact hid
          · rw [hold]
            simp only [Function.update_self]
            exact hun
        · exact hrest.taken hnd.2 t tmp hmem (mem_setRetainMsg.mpr hnode)

end MqttServer
