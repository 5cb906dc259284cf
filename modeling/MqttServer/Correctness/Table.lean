import MqttServer.Correctness.Flush

/-!
# `Correctness.Table` — the message table and the live messages

`CMsgMemStore` maps ids to buffers. A publish takes the next id and registers its buffer under it, the destructor of a
buffer removes the entry with its id, and `restore` sets the counter and registers the messages of the file under the
ids they had. Nothing compares an id with the ids in use, so that the table is exact rests on the order of these
operations: an HTTP publish before `restore` takes an id which a message of the file may have too.

A run goes through several lives of the process, with the file on disk between them. When `restore` meets no message in
use that its file takes the id of, and the counter does not run over, the table is exact in every state (`table_exact`).
-/

namespace MqttServer

open Lib Exec

variable {env : Env} {mp : MsgPack} {b b' : Broker} {m : MbufId} {r : Int}

/-! ## Operations on the table -/

/-- The table, the disk and the ids of the buffers are the same. -/
structure SameTable (b b' : Broker) : Prop where
  store : b'.store = b.store
  disk : SameDisk b b'
  nextBuf : b.nextBuf ≤ b'.nextBuf
  ids : ∀ m < b.nextBuf, (b'.bufs m).msgId = (b.bufs m).msgId

/-- The file when the process ends. Of a buffer that was not written out, some more may still get to the disk. -/
def Broker.left (b : Broker) (n : Nat) : Option ByteStr :=
  match b.dbFile with
  | none => b.file
  | some _ => some (b.stream.release n).out

/-- The operations. `restart` ends the process and starts a new one, to which only the file is left; `other` is
    everything the broker does besides. -/
inductive TableOp where
  | publish | destroy | store | restore | restart | other
deriving DecidableEq, Repr

/-- One operation. -/
inductive TableStep (env : Env) (mp : MsgPack) (b : Broker) : TableOp → Broker → Prop where
  | publish {type : MsgType} {size : Nat} {bytes : Nat → ByteStr} {m : MbufId} {b' : Broker}
      (h : registBuf type size bytes b = .ok (m, b')) : TableStep env mp b .publish b'
  | destroy (m : MbufId) : TableStep env mp b .destroy (b.destroy m)
  | store {force : Bool} {r : Int} {b' : Broker} (h : MqttServer.store env mp force b = .ok (r, b')) :
      TableStep env mp b .store b'
  | restore {r : Int} {b' : Broker} (h : MqttServer.restore env mp b.file b = .ok (r, b')) :
      TableStep env mp b .restore b'
  | restart (n : Nat) : TableStep env mp b .restart { file := b.left n, nfiles := b.nfiles }
  | other {b' : Broker} (h : SameTable b b') : TableStep env mp b .other b'

/-- The states of runs from an empty table and an empty disk, every operation of which meets a condition on the state
    before it. -/
inductive TableRuns (env : Env) (mp : MsgPack) (P : Broker → TableOp → Prop) : Broker → Prop where
  | start : TableRuns env mp P {}
  | step {b b' : Broker} {op : TableOp} (h : TableRuns env mp P b) (hs : TableStep env mp b op b') (hP : P b op) :
      TableRuns env mp P b'

/-- **The table is exact**: an id stands for a buffer just when this is a live buffer registered under it, and the id
    `next_msg_id` returns next stands for none. -/
def TableExact (b : Broker) : Prop :=
  (∀ id m, b.store.msgDb.lookup id = some m ↔ m ∈ b.store.registered ∧ (b.bufs m).msgId = id) ∧
    b.store.msgDb.lookup ((b.store.lastMsgId + 1) % 2 ^ 64) = none

/-! ## What keeps it exact -/

/-- A chunk of a file leaves a message id alone: it does not set the counter below it, and is not a message with
    it. -/
def Spares (mp : MsgPack) (id : Nat) : ChunkType × ByteStr → Prop
  | (.globalInfo, buf) => ∀ info ∈ mp.info.unpack buf, id ≤ info.lastMsgId
  | (.dbMsg, buf) => ∀ tmp ∈ mp.mbuf.unpack buf, tmp.msgId ≠ id
  | (.clientMsg, _) => True
  | (.topicInfo, _) => True

/-- What `restore` can read of the file leaves the ids of the registered messages alone. -/
def FileSpares (mp : MsgPack) (b : Broker) : Prop :=
  ∀ part cs, part <+: b.file.getD [] → Reads part cs → ∀ m ∈ b.store.registered, ∀ c ∈ cs,
    Spares mp (b.bufs m).msgId c

/-- The counter does not run over, and `restore` spares the messages that are there. -/
def Orderly (mp : MsgPack) (b : Broker) : TableOp → Prop
  | .publish => b.store.lastMsgId + 1 < 2 ^ 64
  | .restore => FileSpares mp b
  | _ => True

/-! ## The invariant -/

/-- The table is exact, and every id in it has been handed out. -/
structure TableOk (b : Broker) : Prop where
  exact : ∀ id m, b.store.msgDb.lookup id = some m ↔ m ∈ b.store.registered ∧ (b.bufs m).msgId = id
  ids : ∀ m ∈ b.store.registered, m < b.nextBuf ∧ (b.bufs m).msgId ≠ 0 ∧ (b.bufs m).msgId ≤ b.store.lastMsgId
  counter : b.store.lastMsgId < 2 ^ 64

namespace TableOk

theorem empty {file : Option ByteStr} {nfiles : Nat} : TableOk { file, nfiles } where
  exact _ _ := ⟨(fun h => by cases h), (fun h => by cases h.1)⟩
  ids _ h := by cases h
  counter := Nat.two_pow_pos 64

/-- The ids in use are not zero and at most the last one. -/
theorem tableExact (h : TableOk b) : TableExact b := by
  refine ⟨h.exact, ?_⟩
  rw [Option.eq_none_iff_forall_not_mem]
  intro m hm
  obtain ⟨hreg, hid⟩ := (h.exact _ m).mp hm
  obtain ⟨-, hne, hle⟩ := h.ids m hreg
  have hlt := h.counter
  by_cases hover : b.store.lastMsgId + 1 < 2 ^ 64
  · rw [Nat.mod_eq_of_lt hover] at hid
    omega
  · have hmod : (b.store.lastMsgId + 1) % 2 ^ 64 = 0 := by omega
    exact hne (hid.trans hmod)

theorem same (h : TableOk b) (hst : b'.store = b.store) (hnext : b.nextBuf ≤ b'.nextBuf)
    (hids : ∀ m < b.nextBuf, (b'.bufs m).msgId = (b.bufs m).msgId) : TableOk b' where
  exact id m := by
    rw [hst, h.exact]
    refine and_congr_right fun hm => ?_
    rw [hids m (h.ids m hm).1]
  ids m hm := by
    rw [hst] at hm ⊢
    obtain ⟨hlt, hid⟩ := h.ids m hm
    rw [hids m hlt]
    exact ⟨Nat.lt_of_lt_of_le hlt hnext, hid⟩
  counter := by
    rw [hst]
    exact h.counter

/-- A new buffer under an id nobody has. -/
theorem insert (h : TableOk b) {buf : Buf} {id : Nat} (hbuf : buf.msgId = id) (hne : id ≠ 0)
    (hfree : ∀ m ∈ b.store.registered, (b.bufs m).msgId ≠ id) (hle : id ≤ b'.store.lastMsgId)
    (hlast : b.store.lastMsgId ≤ b'.store.lastMsgId) (hcounter : b'.store.lastMsgId < 2 ^ 64)
    (hnext : b'.nextBuf = b.nextBuf + 1) (hbufs : b'.bufs = Function.update b.bufs b.nextBuf buf)
    (hdb : b'.store.msgDb = b.store.msgDb.insert id b.nextBuf)
    (hreg : b'.store.registered = b.nextBuf :: b.store.registered) : TableOk b' := by
  have hold : ∀ m ∈ b.store.registered, b'.bufs m = b.bufs m := by
    intro m hm
    rw [hbufs, Function.update_of_ne (Nat.ne_of_lt (h.ids m hm).1)]
  have hnew : (b'.bufs b.nextBuf).msgId = id := by
    rw [hbufs, Function.update_self, hbuf]
  constructor
  case exact =>
    intro id' m
    rw [hdb, hreg, List.mem_cons]
    by_cases hid : id' = id
    · subst hid
      rw [AList.lookup_insert]
      constructor
      · intro hm
        cases hm
        exact ⟨Or.inl rfl, hnew⟩
      · rintro ⟨rfl | hm, hid⟩
        · rfl
        · rw [hold m hm] at hid
          exact absurd hid (hfree m hm)
    · rw [AList.lookup_insert_ne hid, h.exact]
      constructor
      · rintro ⟨hm, hid⟩
        exact ⟨Or.inr hm, by rw [hold m hm, hid]⟩
      · rintro ⟨rfl | hm, hid'⟩
        · exact absurd (hid'.symm.trans hnew) hid
        · rw [hold m hm] at hid'
          exact ⟨hm, hid'⟩
  case ids =>
    intro m hm
    rw [hreg] at hm
    rw [hnext]
    rcases List.mem_cons.mp hm with rfl | hm
    · rw [hnew]
      exact ⟨Nat.lt_succ_self _, hne, hle⟩
    · obtain ⟨hlt, hz, hold'⟩ := h.ids m hm
      rw [hold m hm]
      exact ⟨Nat.lt_succ_of_lt hlt, hz, Nat.le_trans hold' hlast⟩
  case counter => exact hcounter

theorem publish (h : TableOk b) {type : MsgType} {size : Nat} {bytes : Nat → ByteStr}
    (hp : registBuf type size bytes b = .ok (m, b')) (hlt : b.store.lastMsgId + 1 < 2 ^ 64) : TableOk b' := by
  unfold registBuf at hp
  rw [get_bind, bind_ok, Nat.mod_eq_of_lt hlt] at hp
  obtain ⟨m', b₁, hn, hp⟩ := hp
  obtain ⟨rfl, rfl⟩ := newBuf_ok hn
  have hne : b.store.lastMsgId + 1 ≠ 0 := Nat.succ_ne_zero _
  simp only [hne, if_false] at hp
  cases hp
  refine h.insert (Buf.tag_msgId _ _ type true) hne (fun m hm => ?_) (Nat.le_refl _) (Nat.le_succ _) hlt rfl rfl rfl rfl
  exact Nat.ne_of_lt (Nat.lt_succ_of_le (h.ids m hm).2.2)

theorem destroy (h : TableOk b) (m : MbufId) : TableOk (b.destroy m) := by
  unfold Broker.destroy
  split
  · rename_i hm
    constructor
    case exact =>
      intro id m'
      show (b.store.msgDb.erase (b.bufs m).msgId).lookup id = some m' ↔
        m' ∈ b.store.registered.filter (· ≠ m) ∧ (b.bufs m').msgId = id
      rw [List.mem_filter, decide_eq_true_eq]
      by_cases hid : id = (b.bufs m).msgId
      · subst hid
        rw [AList.lookup_erase]
        constructor
        · intro hn
          cases hn
        · -- the id stands for one buffer only, the one that goes
          rintro ⟨⟨hm', hne⟩, hid⟩
          have hlook := (h.exact _ m').mpr ⟨hm', hid⟩
          rw [(h.exact _ m).mpr ⟨hm, rfl⟩] at hlook
          cases hlook
          exact absurd rfl hne
      · rw [AList.lookup_erase_ne hid, h.exact]
        constructor
        · rintro ⟨hm', rfl⟩
          refine ⟨⟨hm', ?_⟩, rfl⟩
          rintro rfl
          exact hid rfl
        · rintro ⟨⟨hm', -⟩, hid'⟩
          exact ⟨hm', hid'⟩
    case ids => exact fun m' hm' => h.ids m' (List.mem_of_mem_filter hm')
    case counter => exact h.counter
  · exact h

theorem letGo (h : TableOk b) (m : MbufId) : TableOk (b.letGo m) := by
  unfold Broker.letGo
  split
  · exact h
  · exact h.destroy m

theorem overwrite (h : TableOk b) (st : RestoreState) (id : Nat) : TableOk (st.overwrite id b) := by
  unfold RestoreState.overwrite
  split
  · exact h
  · exact h.letGo _

/-- The end of `restore`. -/
theorem clear (h : TableOk b) (st : RestoreState) : TableOk (st.clear b) := by
  have hall : ∀ (ms : List MbufId) (b : Broker), TableOk b → TableOk (ms.foldl Broker.letGo b) := by
    intro ms
    induction ms with
    | nil => exact fun _ h => h
    | cons m ms ih => exact fun b h => ih _ (h.letGo m)
  exact (hall _ b h).same rfl (Nat.le_refl _) fun _ _ => rfl

end TableOk

/-- What is let go of was registered. -/
theorem registered_overwrite {st : RestoreState} {id : Nat} (hm : m ∈ (st.overwrite id b).store.registered) :
    m ∈ b.store.registered := by
  unfold RestoreState.overwrite Broker.letGo Broker.destroy at hm
  split at hm
  · exact hm
  · split at hm
    · exact hm
    · split at hm
      · exact List.mem_of_mem_filter hm
      · exact hm

/-! ## Files that were stored -/

/-- The id of the message a record holds. -/
def Record.msgId : Record → Option Nat
  | .msg tmp => some tmp.msgId
  | _ => none

/-- Records that leave the counter alone, whose messages have different ids up to `n`. -/
structure SoundTail (n : Nat) (rs : List Record) : Prop where
  noInfo : ∀ r ∈ rs, r.type ≠ .globalInfo
  distinct : (rs.filterMap Record.msgId).Nodup
  bounded : ∀ id ∈ rs.filterMap Record.msgId, id ≤ n

theorem SoundTail.take {n : Nat} {rs : List Record} (h : SoundTail n rs) (k : Nat) : SoundTail n (rs.take k) where
  noInfo r hr := h.noInfo r (List.mem_of_mem_take hr)
  distinct := h.distinct.sublist ((List.take_sublist k rs).filterMap _)
  bounded id hid := h.bounded id (((List.take_sublist k rs).filterMap _).subset hid)

theorem SoundTail.drop {n : Nat} {r : Record} {rs : List Record} (h : SoundTail n (r :: rs)) : SoundTail n rs where
  noInfo r' hr := h.noInfo r' (List.mem_cons_of_mem _ hr)
  distinct := h.distinct.sublist ((List.sublist_cons_self r rs).filterMap _)
  bounded id hid := h.bounded id (((List.sublist_cons_self r rs).filterMap _).subset hid)

/-- The records of a file that was stored when the table was exact: the counter comes first. -/
def SoundRecords (rs : List Record) : Prop :=
  ∃ info tail, rs = .info info :: tail ∧ info.lastMsgId < 2 ^ 64 ∧ SoundTail info.lastMsgId tail

/-- The disk has an initial part of a file with such records, also when everything in the buffer gets there. -/
def SoundDisk (mp : MsgPack) (b : Broker) : Prop := ∃ rs, SoundRecords rs ∧ b.stream.whole <+: fileOf mp rs

theorem SoundDisk.empty : SoundDisk mp {} :=
  ⟨[.info { lastMsgId := 0, lastUpdateTime := 0 }], ⟨_, [], rfl, Nat.two_pow_pos 64, (fun _ h => by cases h), List.nodup_nil,
    fun _ h => by cases h⟩, List.nil_prefix⟩

theorem SoundDisk.of_prefix (h : SoundDisk mp b) (hpre : b'.stream.whole <+: b.stream.whole) : SoundDisk mp b' := by
  obtain ⟨rs, hrs, hwhole⟩ := h
  exact ⟨rs, hrs, hpre.trans hwhole⟩

theorem SoundDisk.same (h : SoundDisk mp b) (hfile : b'.file = b.file) (hdb : b'.dbFile = b.dbFile) : SoundDisk mp b' := by
  refine h.of_prefix ?_
  unfold Broker.stream
  rw [hfile, hdb]

/-- The file is closed, or the process ends. -/
theorem SoundDisk.left (h : SoundDisk mp b) {n : Nat} (hfile : b'.file = b.left n) (hdb : b'.dbFile = none) :
    SoundDisk mp b' := by
  refine h.of_prefix ?_
  have hleft : (b.left n).getD [] <+: b.stream.whole := by
    unfold Broker.left
    cases hb : b.dbFile with
    | none => exact b.stream.out_prefix_whole
    | some held =>
        have hout := (b.stream.release n).out_prefix_whole
        rwa [Stream.whole_release] at hout
  unfold Broker.stream Stream.whole at hleft ⊢
  simp only [hfile, hdb, Option.getD_none, List.append_nil]
  exact hleft

theorem closed_left (env : Env) (b : Broker) : ∃ n, b.closed env = b.left n := by
  unfold Broker.closed Broker.left
  cases b.dbFile with
  | none => exact ⟨0, rfl⟩
  | some held =>
      cases env.fclose b.nfiles with
      | none => exact ⟨_, rfl⟩
      | some n => exact ⟨n, rfl⟩

theorem filterMap_msgId_msgs (ms : List MbufTmp) : (ms.map Record.msg).filterMap Record.msgId = ms.map (·.msgId) := by
  induction ms with
  | nil => rfl
  | cons tmp ms ih =>
      rw [List.map_cons, List.map_cons, List.filterMap_cons, ih]
      rfl

theorem filterMap_msgId_others {rs : List Record} (h : ∀ r ∈ rs, r.msgId = none) : rs.filterMap Record.msgId = [] :=
  List.filterMap_eq_nil_iff.mpr h

/-- The ids of the messages to be stored are the keys of the table. -/
theorem TableOk.storedMsgs_perm (h : TableOk b) :
    ((storedMsgs env b).map (·.msgId)).Perm b.store.msgDb.keys := by
  have hkey : ∀ e ∈ b.store.msgDb.entries, (b.bufs e.2).msgId = e.1 := by
    rintro ⟨id, m⟩ he
    exact ((h.exact id m).mp (AList.mem_lookup_iff.mpr he)).2
  unfold storedMsgs
  rw [List.map_map]
  refine ((env.order_perm _).map _).trans ?_
  rw [List.map_map]
  exact List.Perm.of_eq (List.map_congr_left hkey)

theorem TableOk.soundRecords (h : TableOk b) : SoundRecords (records env b) := by
  have hothers : ∀ r ∈ (storedInfos env b).map Record.client ++
      (if retainMap env b = [] then [] else [Record.retains (retainMap env b)]),
      r.msgId = none ∧ r.type ≠ .globalInfo := by
    intro r hr
    rcases List.mem_append.mp hr with hr | hr
    · obtain ⟨info, -, rfl⟩ := List.mem_map.mp hr
      exact ⟨rfl, fun he => by cases he⟩
    · split at hr
      · cases hr
      · rw [List.mem_singleton] at hr
        subst hr
        exact ⟨rfl, fun he => by cases he⟩
  refine ⟨_, _, rfl, h.counter, ?_⟩
  constructor
  case noInfo =>
    intro r hr
    rcases List.mem_append.mp hr with hr | hr
    · obtain ⟨tmp, -, rfl⟩ := List.mem_map.mp hr
      exact fun he => by cases he
    · exact (hothers r hr).2
  all_goals
    rw [List.filterMap_append, filterMap_msgId_msgs, filterMap_msgId_others fun r hr => (hothers r hr).1,
      List.append_nil]
  case distinct => exact h.storedMsgs_perm.nodup_iff.mpr b.store.msgDb.keys_nodup
  case bounded =>
    intro id hid
    rw [h.storedMsgs_perm.mem_iff, ← AList.mem_keys] at hid
    obtain ⟨m, hm⟩ := Option.isSome_iff_exists.mp (AList.lookup_isSome.mpr hid)
    obtain ⟨hreg, rfl⟩ := (h.exact id m).mp hm
    exact (h.ids m hreg).2.2

/-! ## Restoring -/

theorem restoreRetains_store {u : Unit} (map : List (ByteStr × MbufTmp)) :
    ∀ b : Broker, restoreRetains map b = .ok (u, b') → b'.store = b.store := by
  induction map with
  | nil =>
      intro b h
      cases h
      rfl
  | cons e map ih =>
      intro b h
      unfold restoreRetains at h
      rw [bind_ok] at h
      obtain ⟨m, b₁, hm, h⟩ := h
      obtain ⟨-, -, rfl⟩ := restoreMbuf_new hm
      rw [modify_bind] at h
      have hrest := ih _ h
      exact hrest

/-- The messages of a file whose ids are free. -/
theorem TableOk.restoreTail {st' : RestoreState} (rs : List Record) : ∀ (st : RestoreState) (b : Broker), TableOk b →
    SoundTail b.store.lastMsgId rs →
    (∀ m ∈ b.store.registered, ∀ id ∈ rs.filterMap Record.msgId, (b.bufs m).msgId ≠ id) →
    restoreRecords env mp rs st b = .ok (st', b') → TableOk b' := by
  induction rs with
  | nil =>
      intro st b hok _ _ h
      cases h
      exact hok
  | cons r rs ih =>
      intro st b hok htail hfree h
      unfold restoreRecords at h
      rw [bind_ok] at h
      obtain ⟨st₁, b₁, hc, h⟩ := h
      have hnext : SoundTail b.store.lastMsgId rs := htail.drop
      -- a record that is no message does not change the table
      have hkeep : r.msgId = none → b₁.store = b.store → b.nextBuf ≤ b₁.nextBuf →
          (∀ m < b.nextBuf, b₁.bufs m = b.bufs m) → TableOk b' := by
        intro hnone hst hle hold
        refine ih st₁ b₁ (hok.same hst hle fun m hm => by rw [hold m hm]) (by rwa [hst]) (fun m hm id hid => ?_) h
        rw [hst] at hm
        rw [hold m (hok.ids m hm).1]
        refine hfree m hm id ?_
        rwa [List.filterMap_cons_none hnone]
      cases r with
      | info i => exact absurd rfl (htail.noInfo _ List.mem_cons_self)
      | msg tmp =>
          have hids : (Record.msg tmp :: rs).filterMap Record.msgId = tmp.msgId :: rs.filterMap Record.msgId := rfl
          have hdistinct := htail.distinct
          rw [hids, List.nodup_cons] at hdistinct
          rw [hids] at hfree
          obtain ⟨tmp', new, hu, hid, -, hbufs, hnb, -, hlast, hdb⟩ := restoreDbMsg_eq hc
          rw [Record.pack, mp.mbuf.unpack_pack tmp] at hu
          cases hu
          have hold : ∀ m ∈ b.store.registered, b₁.bufs m = b.bufs m := by
            intro m hm
            rw [hbufs, Function.update_of_ne (Nat.ne_of_lt (hok.ids m hm).1)]
          rcases hdb with ⟨hz, -, hst⟩ | ⟨hne, -, hb₁⟩
          · have hok₁ : TableOk b₁ := by
              refine hok.same hst (by rw [hnb]; exact Nat.le_succ _) fun m hm => ?_
              rw [hbufs, Function.update_of_ne (Nat.ne_of_lt hm)]
            refine ih st₁ b₁ hok₁ (by rwa [hlast]) (fun m hm id hid => ?_) h
            rw [hst] at hm
            rw [hold m hm]
            exact hfree m hm id (List.mem_cons_of_mem _ hid)
          · have hle : tmp.msgId ≤ b.store.lastMsgId := htail.bounded _ (by rw [hids]; exact List.mem_cons_self)
            have hloaded : TableOk (b.loaded tmp.msgId new) :=
              hok.insert hid hne (fun m hm => hfree m hm _ List.mem_cons_self) hle (Nat.le_refl _) hok.counter rfl rfl
                rfl rfl
            have hok₁ : TableOk b₁ := by
              rw [hb₁]
              exact hloaded.overwrite st _
            refine ih st₁ b₁ hok₁ (by rwa [hlast]) (fun m hm id hid' => ?_) h
            rw [hb₁] at hm
            rcases List.mem_cons.mp (registered_overwrite hm) with rfl | hm
            · rw [hbufs, Function.update_self, hid]
              rintro rfl
              exact hdistinct.1 hid'
            · rw [hold m hm]
              exact hfree m hm id (List.mem_cons_of_mem _ hid')
      | client i =>
          have hclient : restoreClientInfo env mp st (mp.client.pack i) b = .ok (st₁, b₁) := hc
          rw [restoreClientInfo_eq (mp.client.unpack_pack i)] at hclient
          cases hclient
          exact hkeep rfl rfl (Nat.le_refl _) fun _ _ => rfl
      | retains map =>
          unfold restoreChunk restoreRetainMsg at hc
          simp only [Record.type, bind_assoc] at hc
          obtain ⟨map', -, hc⟩ := unpackOr_bind_ok hc
          rw [bind_ok] at hc
          obtain ⟨_, b₂, hm, hc⟩ := hc
          cases hc
          have hret := restoreRetains_retained map' b hm
          exact hkeep rfl (restoreRetains_store map' b hm) hret.nextBuf hret.old

/-- **`restore`** of a file that spares the messages in use. -/
theorem TableOk.restore (h : TableOk b) (hdisk : SoundDisk mp b) (hspare : FileSpares mp b)
    (hr : MqttServer.restore env mp b.file b = .ok (r, b')) : TableOk b' := by
  cases hfile : b.file with
  | none =>
      rw [hfile] at hr
      cases hr
      exact h
  | some f =>
      rw [hfile] at hr
      obtain ⟨st', b₁, dbFile, hloop, rfl⟩ := restore_some hr
      refine TableOk.same (b := st'.clear b₁) (TableOk.clear ?_ st') rfl (Nat.le_refl _) fun _ _ => rfl
      obtain ⟨part, cs, hpart, -, hreads, hcs⟩ := restoreLoop_part _ _ _ _ hloop
      obtain ⟨rs, ⟨info, tail, rfl, hlt, htail⟩, hwhole⟩ := hdisk
      have hinit : f <+: b.stream.whole := by
        unfold Broker.stream Stream.whole
        rw [hfile]
        exact List.prefix_append _ _
      obtain ⟨n, rfl, -, -⟩ := hreads.of_part (hpart.trans (hinit.trans hwhole))
      obtain ⟨hwhole, hrs⟩ := restoreChunks_records _ _ _ hcs
      have hspare' := hspare part _ (by rw [hfile]; exact hpart) hreads
      -- no record of the file has the identifier of a message that is held
      have hids : ∀ m ∈ b.store.registered, ∀ x ∈ (Record.info info :: tail).take n,
          Spares mp (b.bufs m).msgId (x.type, x.pack mp) := by
        intro m hm x hx
        have hx' := hspare' m hm _ (List.mem_map_of_mem hx)
        rwa [Record.stored, hwhole x hx] at hx'
      cases n with
      -- the file ends inside its first record
      | zero =>
          cases hrs
          exact h
      | succ n =>
          rw [List.take_succ_cons] at hrs hids
          unfold restoreRecords at hrs
          rw [bind_ok] at hrs
          obtain ⟨st₁, b₁, hc, hrs⟩ := hrs
          unfold restoreChunk restoreDbInfo at hc
          simp only [Record.type, Record.pack, bind_assoc] at hc
          obtain ⟨info', hu, hc⟩ := unpackOr_bind_ok hc
          rw [mp.info.unpack_pack] at hu
          cases hu
          cases hc
          have hok₁ : TableOk { b with store := { b.store with lastMsgId := info.lastMsgId
                                                               lastUpdateTime := info.lastUpdateTime } } := by
            refine ⟨h.exact, fun m hm => ?_, hlt⟩
            obtain ⟨hold, hne, -⟩ := h.ids m hm
            exact ⟨hold, hne, hids m hm _ List.mem_cons_self info (mp.info.unpack_pack info)⟩
          refine TableOk.restoreTail _ _ _ hok₁ (htail.take n) (fun m hm id hid => ?_) hrs
          obtain ⟨x, hx, hxid⟩ := List.mem_filterMap.mp hid
          cases x with
          | msg tmp =>
              cases hxid
              exact (hids m hm _ (List.mem_cons_of_mem _ hx) tmp (mp.mbuf.unpack_pack tmp)).symm
          | info i => cases hxid
          | client i => cases hxid
          | retains map => cases hxid

/-! ## Storing -/

/-- Storing leaves the buffers and the table alone. -/
def untabled : Frame Broker Fault where
  rel b b' := b'.bufs = b.bufs ∧ b'.nextBuf = b.nextBuf ∧ b'.store = b.store
  flt _ _ := True
  refl _ := ⟨rfl, rfl, rfl⟩
  trans h h' := ⟨h'.1.trans h.1, h'.2.1.trans h.2.1, h'.2.2.trans h.2.2⟩
  extend _ _ := trivial

theorem untabled_of_writing {α : Type} {x : BrokerM α} (h : writing.Resp x b) : untabled.Resp x b := by
  refine Frame.Resp.mono ?_ (fun _ _ => trivial) h
  rintro b' ⟨file, dbFile, n, rfl⟩
  exact ⟨rfl, rfl, rfl⟩

theorem checkIdle_untabled {c : CtxId} : untabled.Resp (checkIdle env c) b := by
  refine Frame.resp_of_cases (fun u b' h => ?_) fun _ _ => trivial
  unfold checkIdle at h
  rw [get_bind] at h
  cases hlink : (b.sess.ctxs c).mqttConnection with
  | none =>
      simp only [hlink] at h
      cases h
      exact ⟨rfl, rfl, rfl⟩
  | some k =>
      simp only [hlink] at h
      rw [touch_bind_ok] at h
      obtain ⟨-, h⟩ := h
      split at h
      · unfold handleClose at h
        rw [touch_bind_ok, modify_bind, get_bind] at h
        obtain ⟨-, h⟩ := h
        cases hc : b.sess.contextOf k with
        | none =>
            simp only [hc] at h
            cases h
        | some c =>
            simp only [hc] at h
            cases h
            exact ⟨rfl, rfl, rfl⟩
      · cases h
        exact ⟨rfl, rfl, rfl⟩

theorem store_untabled {force : Bool} : untabled.Resp (store env mp force) b := by
  have hall : ∀ b : Broker, untabled.Resp (storeAll env mp) b := fun _ =>
    storeAll_frame (fun _ _ _ => untabled_of_writing) fun _ _ _ => checkIdle_untabled
  unfold store
  refine Frame.resp_modify_bind ⟨rfl, rfl, rfl⟩ ?_
  refine Frame.resp_get_bind ?_
  split
  · exact hall _
  · split
    · exact Frame.resp_pure _
    · exact Frame.resp_set_bind ⟨rfl, rfl, rfl⟩ (hall _)

/-- **`store`** leaves a part of a sound file. -/
theorem TableOk.store (h : TableOk b) (hdisk : SoundDisk mp b) {force : Bool}
    (hs : MqttServer.store env mp force b = .ok (r, b')) : TableOk b' ∧ SoundDisk mp b' := by
  obtain ⟨hbufs, hnext, hst⟩ := Frame.resp_ok store_untabled hs
  refine ⟨h.same hst (Nat.le_of_eq hnext.symm) fun m _ => by rw [hbufs], ?_⟩
  rcases store_cases hs with ⟨-, -, hsame⟩ | ⟨-, last, hall⟩
  · exact hdisk.same hsame.file hsame.dbFile
  · obtain ⟨hrefused, hopened⟩ := storeAll_writes hall
    cases hopen : env.fopen b.nfiles with
    | true =>
        obtain ⟨hfile, hdb, -⟩ := hopened hopen
        have hinit : (written env mp b).whole <+: fileOf mp (records env b) := written_whole_initial
        refine ⟨records env b, h.soundRecords, List.IsPrefix.trans ?_ hinit⟩
        unfold Broker.stream Stream.whole
        rw [hfile]
        rcases hdb with hdb | hdb
        · rw [hdb]
          exact (List.append_nil _).symm ▸ List.prefix_append _ _
        · rw [hdb]
          exact List.prefix_refl _
    | false =>
        -- what was in the buffer of the old file may still get out
        obtain ⟨-, hfile, hdb⟩ := hrefused hopen
        obtain ⟨n, hn⟩ := closed_left env b
        exact hdisk.left (hfile.trans hn) hdb

/-! ## Runs -/

/-- `restore` does not touch the file. -/
theorem restore_disk {file : Option ByteStr} (h : restore env mp file b = .ok (r, b')) :
    b'.file = b.file ∧ (b'.dbFile = b.dbFile ∨ b'.dbFile.getD [] = []) := by
  constructor
  · obtain ⟨-, hfile⟩ := restore_invariant (I := fun _ b₁ => b₁.file = b.file)
      (fun _ _ _ _ hl hfile => hl.file_eq.trans hfile) rfl h
    exact hfile
  · cases file with
    | none =>
        cases h
        exact Or.inl rfl
    | some bytes =>
        cases bytes with
        | nil =>
            cases h
            exact Or.inr rfl
        | cons x bytes =>
            unfold restore at h
            rw [bind_ok] at h
            obtain ⟨⟨res, st⟩, b₁, -, h⟩ := h
            cases h
            exact Or.inr rfl

/-- **One operation.** -/
theorem TableStep.keeps {op : TableOp} (hs : TableStep env mp b op b') (ho : Orderly mp b op) (h : TableOk b)
    (hdisk : SoundDisk mp b) : TableOk b' ∧ SoundDisk mp b' := by
  cases hs with
  | publish hp =>
      refine ⟨h.publish hp ho, ?_⟩
      cases hp
      exact hdisk.same rfl rfl
  | destroy m =>
      refine ⟨h.destroy m, ?_⟩
      obtain ⟨msgDb, registered, he⟩ := destroy_eq b m
      rw [he]
      exact hdisk.same rfl rfl
  | store hs => exact h.store hdisk hs
  | restore hr =>
      refine ⟨h.restore hdisk ho hr, ?_⟩
      obtain ⟨hfile, hdb | hdb⟩ := restore_disk hr
      · exact hdisk.same hfile hdb
      · refine hdisk.of_prefix ?_
        unfold Broker.stream Stream.whole
        simp only [hfile, hdb, List.append_nil]
        exact List.prefix_append _ _
  | restart n => exact ⟨.empty, hdisk.left (n := n) rfl rfl⟩
  | other ht => exact ⟨h.same ht.store ht.nextBuf ht.ids, hdisk.same ht.disk.file ht.disk.dbFile⟩

/-- **The table holds the live registered messages**, in every state of every orderly run. -/
theorem table_exact (h : TableRuns env mp (Orderly mp) b) : TableExact b := by
  have hinv : TableOk b ∧ SoundDisk mp b := by
    induction h with
    | start => exact ⟨.empty, .empty⟩
    | step _ hs ho ih => exact hs.keeps ho ih.1 ih.2
  exact hinv.1.tableExact

/-! ## The broker works on the table in this way -/

/-- No buffer is registered twice. -/
def Distinct (b : Broker) : Prop := b.store.registered.Nodup ∧ ∀ m ∈ b.store.registered, m < b.nextBuf

namespace Distinct

theorem same (h : Distinct b) (hst : b'.store = b.store) (hnext : b.nextBuf ≤ b'.nextBuf) : Distinct b' := by
  unfold Distinct
  rw [hst]
  exact ⟨h.1, fun m hm => Nat.lt_of_lt_of_le (h.2 m hm) hnext⟩

theorem insert (h : Distinct b) (hnext : b'.nextBuf = b.nextBuf + 1)
    (hreg : b'.store.registered = b.nextBuf :: b.store.registered) : Distinct b' := by
  unfold Distinct
  rw [hreg, hnext]
  refine ⟨List.nodup_cons.mpr ⟨fun hm => Nat.lt_irrefl _ (h.2 _ hm), h.1⟩, fun m hm => ?_⟩
  rcases List.mem_cons.mp hm with rfl | hm
  · exact Nat.lt_succ_self _
  · exact Nat.lt_succ_of_lt (h.2 m hm)

theorem destroy (h : Distinct b) (m : MbufId) : Distinct (b.destroy m) := by
  unfold Broker.destroy
  split
  · exact ⟨h.1.filter _, fun m' hm' => h.2 m' (List.mem_of_mem_filter hm')⟩
  · exact h

theorem load {st st' : RestoreState} (hl : Load st b st' b') (h : Distinct b) : Distinct b' := by
  cases hl with
  | info info => exact h
  | client info => exact h
  | unnamed tmp => exact h.same rfl (Nat.le_succ _)
  | retain t tmp => exact h.same rfl (Nat.le_succ _)
  | msg tmp => exact h.insert rfl rfl
  | destroy m => exact h.destroy m
  | file dbFile => exact h

theorem step {op : TableOp} (hs : TableStep env mp b op b') (h : Distinct b) : Distinct b' := by
  cases hs with
  | publish hp =>
      by_cases hid : (b.store.lastMsgId + 1) % 2 ^ 64 = 0
      · cases hp
        refine ⟨?_, ?_⟩
        · simp only [hid, if_true]
          exact h.1
        · simp only [hid, if_true]
          exact fun m hm => Nat.lt_succ_of_lt (h.2 m hm)
      · cases hp
        refine h.insert rfl ?_
        simp only [hid, if_false]
  | destroy m => exact h.destroy m
  | store hs =>
      obtain ⟨-, hnext, hst⟩ := Frame.resp_ok store_untabled hs
      exact h.same hst (Nat.le_of_eq hnext.symm)
  | restore hr =>
      obtain ⟨-, h'⟩ := restore_invariant (I := fun _ b => Distinct b) (fun _ _ _ _ => load) h hr
      exact h'
  | restart _ => exact ⟨List.nodup_nil, fun _ hm => by cases hm⟩
  | other ht => exact h.same ht.store ht.nextBuf

end Distinct

theorem TableRuns.distinct {P : Broker → TableOp → Prop} (h : TableRuns env mp P b) : Distinct b := by
  induction h with
  | start => exact ⟨List.nodup_nil, fun _ hm => by cases hm⟩
  | step _ hs _ ih => exact ih.step hs

theorem foldl_destroy (ds : List MbufId) : ∀ b : Broker, ds.Nodup → (∀ m ∈ ds, m ∈ b.store.registered) →
    ds.foldl Broker.destroy b =
      { b with store := { b.store with
                          msgDb := ds.foldl (fun db m => db.erase (b.bufs m).msgId) b.store.msgDb
                          registered := b.store.registered.filter (· ∉ ds) } } := by
  induction ds with
  | nil =>
      intro b _ _
      simp only [List.foldl_nil, List.not_mem_nil, not_false_eq_true, decide_true, List.filter_true]
  | cons d ds ih =>
      intro b hnd hreg
      rw [List.nodup_cons] at hnd
      have hd : b.destroy d = { b with store := { b.store with
                                                  msgDb := b.store.msgDb.erase (b.bufs d).msgId
                                                  registered := b.store.registered.filter (· ≠ d) } } :=
        if_pos (hreg d List.mem_cons_self)
      rw [List.foldl_cons, List.foldl_cons, ih _ hnd.2, hd]
      · simp only [List.filter_filter, List.mem_cons, not_or, Bool.decide_and, Bool.and_comm]
      · intro m hm
        rw [hd]
        refine List.mem_filter.mpr ⟨hreg m (List.mem_cons_of_mem _ hm), ?_⟩
        rw [decide_eq_true_eq]
        rintro rfl
        exact hnd.1 hm

/-- The buffers that went out of use during an event are destroyed one after the other. -/
theorem collect_eq_destroy (h : b.store.registered.Nodup) :
    b.collect = (b.store.registered.filter fun m => !b.referenced m).foldl Broker.destroy b := by
  rw [foldl_destroy _ b (h.filter _) fun m hm => List.mem_of_mem_filter hm]
  unfold Broker.collect
  have hleft : ∀ m ∈ b.store.registered, b.referenced m =
      decide (m ∉ b.store.registered.filter fun m => !b.referenced m) := by
    intro m hm
    cases hr : b.referenced m with
    | true => simp [hr]
    | false => simp [hr, hm]
  simp only [List.filter_congr hleft]

theorem TableRuns.destroys (ds : List MbufId) : ∀ b : Broker, TableRuns env mp (fun _ _ => True) b →
    TableRuns env mp (fun _ _ => True) (ds.foldl Broker.destroy b) := by
  induction ds with
  | nil => exact fun _ h => h
  | cons d ds ih => exact fun b h => ih _ (.step h (.destroy d) trivial)

/-- An elementary change that does not write is an operation on the table, or none. -/
theorem Prim.tableRuns {sc : Scope} (hp : Prim env sc b b') (hsc : ¬ sc.file)
    (h : TableRuns env mp (fun _ _ => True) b) : TableRuns env mp (fun _ _ => True) b' := by
  have hother : SameTable b b' → TableRuns env mp (fun _ _ => True) b' := fun ht => .step h (.other ht) trivial
  have hnew : ∀ buf : Buf, ∀ m < b.nextBuf, (Function.update b.bufs b.nextBuf buf m).msgId = (b.bufs m).msgId := by
    intro buf m hm
    rw [Function.update_of_ne (Nat.ne_of_lt hm)]
  cases hp with
  | regist hr => exact .step h (.publish hr) trivial
  | file _ _ _ _ hf => exact absurd hf hsc
  | collect =>
      rw [collect_eq_destroy h.distinct.1]
      exact TableRuns.destroys _ b h
  | answer size bytes => exact hother ⟨rfl, ⟨rfl, rfl, rfl, rfl⟩, Nat.le_succ _, hnew _⟩
  | bridged buf id => exact hother ⟨rfl, ⟨rfl, rfl, rfl, rfl⟩, Nat.le_succ _, hnew _⟩
  | retain t m slot => exact hother ⟨rfl, ⟨rfl, rfl, rfl, rfl⟩, Nat.le_succ _, hnew _⟩
  | put k m => exact hother ⟨rfl, ⟨rfl, rfl, rfl, rfl⟩, Nat.le_refl _, fun m' _ => EventHandler.put_msgId m'⟩
  | output k => exact hother ⟨rfl, ⟨rfl, rfl, rfl, rfl⟩, Nat.le_refl _, fun m' _ => EventHandler.handleOutput_msgId m'⟩
  | _ => exact hother ⟨rfl, ⟨rfl, rfl, rfl, rfl⟩, Nat.le_refl _, fun _ _ => rfl⟩

/-- **Every run of the broker** is a run of operations on the table. -/
theorem TableRuns.runs {b₀ : Broker} {s : Machine} (h₀ : TableRuns env mp (fun _ _ => True) b₀)
    (h : Runs env mp b₀ s) : TableRuns env mp (fun _ _ => True) s.broker := by
  induction h with
  | start => exact h₀
  | @step s s' mv _ _ hs ih =>
      by_cases hflush : s.Flushes mv
      · obtain ⟨es, busy, r, b₁, hstore, rfl⟩ := Machine.step_flush hs hflush
        have hbusy : TableRuns env mp (fun _ _ => True) { s.broker with busy } :=
          .step ih (.other ⟨rfl, ⟨rfl, rfl, rfl, rfl⟩, Nat.le_refl _, fun _ _ => rfl⟩) trivial
        have hstored : TableRuns env mp (fun _ _ => True) b₁ := .step hbusy (.store hstore) trivial
        show TableRuns env mp (fun _ _ => True) b₁.collect
        rw [collect_eq_destroy hstored.distinct.1]
        exact TableRuns.destroys _ b₁ hstored
      · exact (Machine.step_traffic hs hflush).invariant (fun _ _ hp h => hp.tableRuns (fun hf => hf) h) ih

/-! ## Two lives -/

/-- The state an operation leaves. -/
def after {α : Type} (x : BrokerM α) (b : Broker) : Broker :=
  match x b with
  | .ok (_, b') => b'
  | .error (_, b') => b'

theorem after_ok {α : Type} {x : BrokerM α} (h : (x b).toBool = true) : ∃ a, x b = .ok (a, after x b) := by
  unfold after
  cases hx : x b with
  | ok p => exact ⟨p.1, rfl⟩
  | error e =>
      rw [hx] at h
      cases h

namespace TableRuns

variable {P Q : Broker → TableOp → Prop}

theorem mono (hPQ : ∀ b op, P b op → Q b op) (h : TableRuns env mp P b) : TableRuns env mp Q b := by
  induction h with
  | start => exact .start
  | step _ hs hP ih => exact .step ih hs (hPQ _ _ hP)

theorem publish (h : TableRuns env mp P b) {type : MsgType} {size : Nat} {bytes : Nat → ByteStr} (hP : P b .publish)
    (hok : (registBuf type size bytes b).toBool = true) :
    TableRuns env mp P (after (registBuf type size bytes) b) := by
  obtain ⟨m, hm⟩ := after_ok hok
  exact .step h (.publish hm) hP

theorem store (h : TableRuns env mp P b) {force : Bool} (hP : P b .store)
    (hok : (MqttServer.store env mp force b).toBool = true) :
    TableRuns env mp P (after (MqttServer.store env mp force) b) := by
  obtain ⟨r, hr⟩ := after_ok hok
  exact .step h (.store hr) hP

theorem restore (h : TableRuns env mp P b) (hP : P b .restore)
    (hok : (MqttServer.restore env mp b.file b).toBool = true) :
    TableRuns env mp P (after (MqttServer.restore env mp b.file) b) := by
  obtain ⟨r, hr⟩ := after_ok hok
  exact .step h (.restore hr) hP

end TableRuns

/-- A message of another thread. -/
def httpMessage : BrokerM MbufId := registBuf .publish 8 fun _ => publishPacket 116 1

/-- A persistent session to which the first message is to be sent. -/
def waiting (b : Broker) : Broker :=
  { b with sess := { b.sess with
                     registry := b.sess.registry.addClientContext [65] (.conn 0)
                     ctxs := Function.update b.sess.ctxs (.conn 0)
                       { ClientContext.create none false with clientId := [65], sendMsgQueue := [0] } } }

theorem waiting_same (b : Broker) : SameTable b (waiting b) :=
  ⟨rfl, ⟨rfl, rfl, rfl, rfl⟩, Nat.le_refl _, fun _ _ => rfl⟩

/-- The broker is stored, and the process ends and is started again. -/
def nextLife (b : Broker) : Broker :=
  { file := (after (store Env.calm packing true) b).left 0, nfiles := (after (store Env.calm packing true) b).nfiles }

theorem TableRuns.nextLife {P : Broker → TableOp → Prop} (h : TableRuns Env.calm packing P b) (hs : P b .store)
    (hr : ∀ b, P b .restart) (hok : (MqttServer.store Env.calm packing true b).toBool = true) :
    TableRuns Env.calm packing P (nextLife b) :=
  .step (h.store hs hok) (.restart 0) (hr _)

/-- A message is queued, and there is a second life of the process. -/
def secondLife : Broker := nextLife (waiting (after httpMessage {}))

theorem secondLife_orderly : TableRuns Env.calm packing (Orderly packing) secondLife := by
  have hpublish : TableRuns Env.calm packing (Orderly packing) (after httpMessage {}) :=
    TableRuns.start.publish (show (0 : Nat) + 1 < 2 ^ 64 by decide) (by decide +kernel)
  have hwaiting : TableRuns Env.calm packing (Orderly packing) (waiting (after httpMessage {})) :=
    .step hpublish (.other (waiting_same _)) trivial
  exact hwaiting.nextLife trivial (fun _ => trivial) (by decide +kernel)

/-- The message of the file is there again, and there is a new one. -/
theorem table_exact_restored : ∃ b, TableRuns Env.calm packing (Orderly packing) b ∧
    b.store.msgDb.lookup 1 = some 0 ∧ b.store.msgDb.lookup 2 = some 1 ∧ TableExact b := by
  have hempty : FileSpares packing secondLife := fun _ _ _ _ m hm => by cases hm
  have hrestore : TableRuns Env.calm packing (Orderly packing)
      (after (restore Env.calm packing secondLife.file) secondLife) :=
    secondLife_orderly.restore hempty (by decide +kernel)
  have hcounter : (after (restore Env.calm packing secondLife.file) secondLife).store.lastMsgId + 1 < 2 ^ 64 := by
    decide +kernel
  have hpublish : TableRuns Env.calm packing (Orderly packing)
      (after httpMessage (after (restore Env.calm packing secondLife.file) secondLife)) :=
    hrestore.publish hcounter (by decide +kernel)
  exact ⟨_, hpublish, by decide +kernel, by decide +kernel, table_exact hpublish⟩

/-- A client with a persistent session has one message pending when the process ends. -/
def pendingLife : Broker := ((Machine.initial.play Env.calm packing subscribed).map Machine.broker).getD {}

theorem pendingLife_runs : TableRuns Env.calm packing (fun _ _ => True) (nextLife pendingLife) := by
  have hplay : (Machine.initial.play Env.calm packing subscribed).isSome = true := by decide +kernel
  obtain ⟨m, hm⟩ := Option.isSome_iff_exists.mp hplay
  have hlife : TableRuns Env.calm packing (fun _ _ => True) pendingLife := by
    unfold pendingLife
    rw [hm]
    exact TableRuns.runs .start (Machine.play_runs subscribed .start hm)
  exact hlife.nextLife trivial (fun _ => trivial) (by decide +kernel)

/-- **Two messages with one id.** A message of another thread comes before `restore`, and its buffer is there until the
    request ends. It has the id of the message in the file, which takes its entry; when it is destroyed, it takes the entry
    away from the other one. -/
theorem table_not_exact : ∃ b b', TableRuns Env.calm packing (fun _ _ => True) b ∧
    (∃ m ∈ b.store.registered, b.store.msgDb.lookup (b.bufs m).msgId ≠ some m) ∧ ¬ TableExact b ∧
    TableRuns Env.calm packing (fun _ _ => True) b' ∧ b'.referenced 1 = true ∧ 1 ∈ b'.store.registered ∧
    b'.store.msgDb.lookup (b'.bufs 1).msgId = none ∧ ¬ TableExact b' := by
  have hhttp : TableRuns Env.calm packing (fun _ _ => True) (after httpMessage (nextLife pendingLife)) :=
    pendingLife_runs.publish trivial (by decide +kernel)
  obtain ⟨b, hruns, ⟨hreg, hlook⟩, hheld, hreg', hlook'⟩ : ∃ b, TableRuns Env.calm packing (fun _ _ => True) b ∧
      (0 ∈ b.store.registered ∧ b.store.msgDb.lookup (b.bufs 0).msgId = some 1) ∧
      (b.destroy 0).referenced 1 = true ∧ 1 ∈ (b.destroy 0).store.registered ∧
      (b.destroy 0).store.msgDb.lookup ((b.destroy 0).bufs 1).msgId = none :=
    ⟨_, hhttp.restore trivial (by decide +kernel), by decide +kernel, by decide +kernel, by decide +kernel,
      by decide +kernel⟩
  have hlost : b.store.msgDb.lookup (b.bufs 0).msgId ≠ some 0 := by
    rw [hlook]
    decide
  refine ⟨b, b.destroy 0, hruns, ⟨0, hreg, hlost⟩, fun hexact => hlost ?_, .step hruns (.destroy 0) trivial, hheld, hreg',
    hlook', fun hexact => ?_⟩
  · exact (hexact.1 _ 0).mpr ⟨hreg, rfl⟩
  · rw [(hexact.1 _ 1).mpr ⟨hreg', rfl⟩] at hlook'
    cases hlook'

end MqttServer
