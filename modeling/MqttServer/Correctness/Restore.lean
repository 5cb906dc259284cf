import MqttServer.Correctness.Links

/-!
# `Correctness.Restore` — what a restored broker looks like

The restored sessions are offline, so nothing is sent while a file is read: each record changes the tables in
one go (`restoreClientInfo_eq`). Whatever the file contains, the tables that come out of it agree with each
other (`Restored`), and a broker starts with its links in order.
-/

namespace MqttServer

open Lib Exec

variable {env : Env} {mp : MsgPack} {b b' : Broker} {c c' : CtxId} {t : ByteStr}

/-! ## Records -/

/-- Put a context into the subscriber sets of some topics. -/
def addTopics (mgr : TopicMgr) (c : CtxId) (ts : List ByteStr) : TopicMgr :=
  ts.foldl (fun mgr t => mgr.addClientContext t c) mgr

@[simp] theorem mem_clients_addTopics {mgr : TopicMgr} {ts : List ByteStr} :
    c' ∈ (addTopics mgr c ts).clients t ↔ c' ∈ mgr.clients t ∨ (t ∈ ts ∧ c' = c) := by
  unfold addTopics
  induction ts generalizing mgr with
  | nil => simp
  | cons t' ts ih =>
      rw [List.foldl_cons, ih, TopicMgr.mem_clients_add, List.mem_cons, or_assoc, ← or_and_right]

/-- The tables after the record of one session. -/
def Sess.addStored (s : Sess) (c : CtxId) (info : ClientInfo) (queue : List MbufId) : Sess :=
  { s with
    ctxs := Function.update s.ctxs c { info.toContext with sendMsgQueue := queue }
    registry := s.registry.addClientContext info.clientId c
    topicMgr := addTopics s.topicMgr c (info.subcribeTopics.map Topic.topicName) }

/-- The times after the record of one session. -/
def Broker.addTimes (b : Broker) (c : CtxId) (info : ClientInfo) : CtxId → ContextTimes :=
  Function.update b.times c
    { remoteAddr := info.remoteAddr, accept := info.acceptTime, connect := info.connectTime
      lastPub := info.lastPubTime, lastMsg := info.lastMsgTime, lastPubMsgId := info.lastPubMsgId }

theorem subscribe_offline {s : Sess} (h : (s.ctxs c).mqttConnection = none) :
    s.subscribe t c = { s with topicMgr := s.topicMgr.addClientContext t c } := by
  unfold Sess.subscribe
  rw [h]
  split
  · cases ‹none = some _›
  · rfl

theorem addClientContext_offline (h : (b.sess.ctxs c).mqttConnection = none) :
    addClientContext env t c b =
      .ok (0, { b with sess := { b.sess with topicMgr := b.sess.topicMgr.addClientContext t c } }) := by
  unfold addClientContext
  rw [get_bind, h]
  cases b.sess.topicMgr.retainMsg t with
  | none =>
      simp only [set_bind, pure_apply]
      rw [subscribe_offline h]
  | some m =>
      simp only [set_bind, pure_apply]
      rw [subscribe_offline h]

theorem restoreTopics_eq (ts : List ByteStr) :
    ∀ b : Broker, (b.sess.ctxs c).mqttConnection = none →
      restoreTopics env c ts b =
        .ok ((), { b with sess := { b.sess with topicMgr := addTopics b.sess.topicMgr c ts } }) := by
  induction ts with
  | nil => exact fun _ _ => rfl
  | cons t ts ih =>
      intro b h
      unfold restoreTopics
      rw [bind_apply, addClientContext_offline h]
      exact ih _ h

/-- **The record of a session** changes the tables in one go. -/
theorem restoreClientInfo_eq {st : RestoreState} {buf : ByteStr} {info : ClientInfo}
    (h : mp.client.unpack buf = some info) :
    restoreClientInfo env mp st buf b = .ok ({ st with contexts := st.contexts + 1 },
      { b with
        sess := b.sess.addStored (.stored st.contexts) info
          (info.sendMsgIds.filterMap fun id => st.tmpMsgDb.lookup id)
        times := b.addTimes (.stored st.contexts) info }) := by
  unfold restoreClientInfo unpackOr
  rw [h]
  simp only [bind_apply, pure_apply, modify_apply]
  rw [restoreTopics_eq]
  · simp only [Sess.addStored, Sess.modifyContext, Broker.addTimes, Function.update_self,
      Function.update_idem]
  · simp only [Function.update_self]
    rfl

/-! ## The tables of a restored broker -/

/-- The tables after `n` sessions have been read. -/
structure Restored (n : Nat) (s : Sess) : Prop where
  nextConn : s.nextConn = 0
  conns : ∀ k, s.conns k = none
  offline : ∀ c, (s.ctxs c).mqttConnection = none
  key : ∀ clientId c, s.registry.findClientContext clientId = some c →
    (s.ctxs c).clientId = clientId ∧ ∃ i < n, c = .stored i
  blank : ∀ c, (∀ i < n, c ≠ .stored i) → s.ctxs c = ClientContext.create none false
  agree : ∀ c t, c ∈ s.topicMgr.clients t ↔ t ∈ (s.ctxs c).topicNames

namespace Restored

variable {n : Nat} {s : Sess}

theorem empty : Restored 0 Sess.empty where
  nextConn := rfl
  conns := fun _ => rfl
  offline := fun _ => rfl
  key := by
    intro id c h
    cases h
  blank := fun _ _ => rfl
  agree := by
    intro c t
    constructor
    · intro h
      exact absurd h (USet.not_mem_empty c)
    · intro h
      cases h

theorem addStored (h : Restored n s) (info : ClientInfo) (queue : List MbufId) :
    Restored (n + 1) (s.addStored (.stored n) info queue) := by
  have hblank : s.ctxs (.stored n) = ClientContext.create none false := by
    refine h.blank _ fun i hi he => ?_
    cases he
    exact Nat.lt_irrefl _ hi
  have hself : (s.addStored (.stored n) info queue).ctxs (.stored n) =
      { info.toContext with sendMsgQueue := queue } := Function.update_self _ _ _
  have hctx : ∀ c, c ≠ .stored n → (s.addStored (.stored n) info queue).ctxs c = s.ctxs c :=
    fun c hc => Function.update_of_ne hc _ _
  constructor
  case nextConn => exact h.nextConn
  case conns => exact h.conns
  case offline =>
    intro c
    by_cases hc : c = .stored n
    · subst hc
      rw [hself]
      rfl
    · rw [hctx c hc]
      exact h.offline c
  case key =>
    intro id c hf
    have hold : ∀ c, s.registry.findClientContext id = some c →
        ((s.addStored (.stored n) info queue).ctxs c).clientId = id ∧ ∃ i < n + 1, c = .stored i := by
      intro c hf
      obtain ⟨hid, i, hi, rfl⟩ := h.key id c hf
      refine ⟨?_, i, Nat.lt_succ_of_lt hi, rfl⟩
      rw [hctx, hid]
      intro he
      cases he
      exact Nat.lt_irrefl _ hi
    cases hl : s.registry.lookup info.clientId with
    | some _ =>
        apply hold
        simpa [Sess.addStored, Registry.addClientContext, Registry.findClientContext, hl] using hf
    | none =>
        have hf' : AList.lookup id (s.registry.insert info.clientId (.stored n)) = some c := by
          simpa [Sess.addStored, Registry.addClientContext, Registry.findClientContext, hl] using hf
        by_cases hid : id = info.clientId
        · subst hid
          rw [AList.lookup_insert] at hf'
          cases hf'
          rw [hself]
          exact ⟨rfl, n, Nat.lt_succ_self n, rfl⟩
        · rw [AList.lookup_insert_ne hid] at hf'
          exact hold c hf'
  case blank =>
    intro c hc
    rw [hctx c (hc n (Nat.lt_succ_self n))]
    exact h.blank c fun i hi => hc i (Nat.lt_succ_of_lt hi)
  case agree =>
    intro c t
    show c ∈ (addTopics s.topicMgr (.stored n) _).clients t ↔ _
    rw [mem_clients_addTopics, h.agree]
    by_cases hc : c = .stored n
    · subst hc
      rw [hself, hblank]
      simp [ClientContext.topicNames, ClientContext.create, ClientInfo.toContext]
    · rw [hctx c hc]
      simp [hc]

/-- Retained messages play no part. -/
theorem topics (h : Restored n s) {mgr : TopicMgr} (hm : ∀ t, mgr.clients t = s.topicMgr.clients t) :
    Restored n { s with topicMgr := mgr } := by
  refine ⟨h.nextConn, h.conns, h.offline, h.key, h.blank, ?_⟩
  intro c t
  rw [hm]
  exact h.agree c t

/-- A broker starts with its links in order. -/
theorem links (h : Restored n s) : Links [] s := by
  have hof : ∀ k, s.contextOf k = none := fun k => by
    unfold Sess.contextOf
    rw [h.conns]
    rfl
  have hdead : ∀ k, ¬ s.Alive k := fun k => by
    unfold Sess.Alive
    rw [h.conns]
    exact Bool.false_ne_true
  constructor
  case key => exact fun id c hf => (h.key id c hf).1
  case registered =>
    intro id c hf
    obtain ⟨-, i, -, rfl⟩ := h.key id c hf
    exact Or.inl ⟨i, rfl⟩
  case subscribed =>
    intro t c hc
    by_contra hn
    rw [h.agree, h.blank c fun i _ he => hn (Or.inl ⟨i, he⟩)] at hc
    cases hc
  case linked =>
    intro c k _ hk
    rw [h.offline] at hk
    cases hk
  case owner =>
    intro k c hc
    rw [hof] at hc
    cases hc
  case fresh =>
    intro k c _ hc
    rw [hof] at hc
    cases hc
  case bound => exact fun k _ ha => absurd ha (hdead k)
  case creator =>
    rintro k (⟨i, he⟩ | hn)
    · cases he
    · cases hn
  case future => exact fun k _ => ⟨hdead k, connected_nil⟩

end Restored

/-! ## Any file -/

/-- The buffer made of a record. -/
def MbufTmp.buffer (tmp : MbufTmp) (now : Nat) (memDb : Bool) : Buf :=
  (Buf.make (tmp.writePos - tmp.readPos) now
    ((tmp.data.drop tmp.readPos).take (tmp.writePos - tmp.readPos))).tag tmp.msgId .data memDb

/-- The cursors of a record lie in its data. -/
def MbufTmp.Valid (tmp : MbufTmp) : Prop :=
  tmp.readPos ≤ tmp.writePos ∧ tmp.writePos ≤ tmp.data.length ∧ tmp.data.length < 2 ^ 32

/-- **What reading a file can do**, record by record; a message that nothing points at any more is destroyed. -/
inductive Load (st : RestoreState) (b : Broker) : RestoreState → Broker → Prop where
  | info (info : DbInfo) : Load st b st
      { b with store := { b.store with lastMsgId := info.lastMsgId, lastUpdateTime := info.lastUpdateTime } }
  | unnamed (tmp : MbufTmp) (h : tmp.Valid) (hid : tmp.msgId = 0) : Load st b st
      { b with bufs := Function.update b.bufs b.nextBuf (tmp.buffer b.now false), nextBuf := b.nextBuf + 1 }
  | msg (tmp : MbufTmp) (h : tmp.Valid) (hid : tmp.msgId ≠ 0) :
      Load st b { st with tmpMsgDb := st.tmpMsgDb.insert tmp.msgId b.nextBuf }
        { b with
          bufs := Function.update b.bufs b.nextBuf (tmp.buffer b.now true), nextBuf := b.nextBuf + 1
          store := { b.store with
                     msgDb := b.store.msgDb.insert tmp.msgId b.nextBuf
                     lastUpdateTime := b.now
                     registered := b.nextBuf :: b.store.registered } }
  | client (info : ClientInfo) : Load st b { st with contexts := st.contexts + 1 }
      { b with
        sess := b.sess.addStored (.stored st.contexts) info
          (info.sendMsgIds.filterMap fun id => st.tmpMsgDb.lookup id)
        times := b.addTimes (.stored st.contexts) info }
  | retain (t : ByteStr) (tmp : MbufTmp) (h : tmp.Valid) : Load st b st
      { b with
        bufs := Function.update b.bufs b.nextBuf (tmp.buffer b.now false), nextBuf := b.nextBuf + 1
        sess := { b.sess with topicMgr := b.sess.topicMgr.setRetainMsg t (some b.nextBuf) } }
  | destroy (m : MbufId) (h : b.referenced m = false) : Load st b st (b.destroy m)
  | file (dbFile : Option ByteStr) : Load st b st { b with dbFile }

/-- What every record keeps, a sequence of them keeps. -/
def Loads (st : RestoreState) (b : Broker) (st' : RestoreState) (b' : Broker) : Prop :=
  ∀ I : RestoreState → Broker → Prop, (∀ st b st' b', Load st b st' b' → I st b → I st' b') → I st b → I st' b'

theorem Loads.single {st st' : RestoreState} (h : Load st b st' b') : Loads st b st' b' :=
  fun _ hstep => hstep _ _ _ _ h

theorem Loads.trans {st st₁ st' : RestoreState} {b₁ : Broker} (h : Loads st b st₁ b₁) (h' : Loads st₁ b₁ st' b') :
    Loads st b st' b' :=
  fun I hstep hi => h' I hstep (h I hstep hi)

theorem Loads.refl (st : RestoreState) (b : Broker) : Loads st b st b := fun _ _ hi => hi

theorem letGo_loads (st : RestoreState) (m : MbufId) : Loads st b st (b.letGo m) := by
  unfold Broker.letGo
  split
  · exact .refl st b
  · rename_i h
    exact .single (.destroy m (Bool.eq_false_iff.mpr h))

theorem overwrite_loads (st st' : RestoreState) (id : Nat) : Loads st' b st' (st.overwrite id b) := by
  unfold RestoreState.overwrite
  split
  · exact .refl st' b
  · exact letGo_loads st' _

theorem clear_loads (st : RestoreState) : Loads st b st (st.clear b) := by
  have hall : ∀ (ms : List MbufId) (b : Broker), Loads st b st (ms.foldl Broker.letGo b) := by
    intro ms
    induction ms with
    | nil => exact fun b => .refl st b
    | cons m ms ih => exact fun b => (letGo_loads st m).trans (ih _)
  exact (hall _ b).trans (.single (.file none))

@[simp] theorem Broker.destroy_sess (b : Broker) (m : MbufId) : (b.destroy m).sess = b.sess := by
  unfold destroy
  split <;> rfl

@[simp] theorem Broker.destroy_log (b : Broker) (m : MbufId) : (b.destroy m).log = b.log := by
  unfold destroy
  split <;> rfl

/-- A destructor changes the message table only. -/
theorem destroy_eq (b : Broker) (m : MbufId) : ∃ msgDb registered,
    b.destroy m = { b with store := { b.store with msgDb, registered } } := by
  unfold Broker.destroy
  split
  · exact ⟨_, _, rfl⟩
  · exact ⟨_, _, rfl⟩

theorem letGo_eq (b : Broker) (m : MbufId) : ∃ msgDb registered,
    b.letGo m = { b with store := { b.store with msgDb, registered } } := by
  unfold Broker.letGo
  split
  · exact ⟨_, _, rfl⟩
  · exact destroy_eq b m

theorem overwrite_eq (st : RestoreState) (id : Nat) (b : Broker) : ∃ msgDb registered,
    st.overwrite id b = { b with store := { b.store with msgDb, registered } } := by
  unfold RestoreState.overwrite
  split
  · exact ⟨_, _, rfl⟩
  · exact letGo_eq b _

theorem clear_eq (st : RestoreState) (b : Broker) : ∃ msgDb registered,
    st.clear b = { b with store := { b.store with msgDb, registered }, dbFile := none } := by
  have hall : ∀ (ms : List MbufId) (b : Broker), ∃ msgDb registered,
      ms.foldl Broker.letGo b = { b with store := { b.store with msgDb, registered } } := by
    intro ms
    induction ms with
    | nil => exact fun b => ⟨_, _, rfl⟩
    | cons m ms ih =>
        intro b
        obtain ⟨db, reg, he⟩ := letGo_eq b m
        obtain ⟨db', reg', he'⟩ := ih (b.letGo m)
        rw [he] at he'
        rw [List.foldl_cons, he, he']
        exact ⟨db', reg', rfl⟩
  obtain ⟨db, reg, he⟩ := hall (st.tmpMsgDb.entries.map Sigma.snd) b
  unfold RestoreState.clear
  rw [he]
  exact ⟨db, reg, rfl⟩

theorem restoreMbuf_new {tmp : MbufTmp} {db : Bool} {m : MbufId} (h : restoreMbuf tmp db b = .ok (m, b')) :
    tmp.Valid ∧ m = b.nextBuf ∧
      b' = { b with bufs := Function.update b.bufs b.nextBuf (tmp.buffer b.now db), nextBuf := b.nextBuf + 1 } := by
  unfold restoreMbuf at h
  rw [get_bind] at h
  split at h
  · rename_i hin
    obtain ⟨rfl, rfl⟩ := newBuf_ok h
    exact ⟨hin, rfl, rfl⟩
  · cases h

theorem unpackOr_ok {α : Type} {p : Packer α} {buf : ByteStr} {a : α}
    (h : unpackOr p buf b = .ok (a, b')) : p.unpack buf = some a ∧ b' = b := by
  unfold unpackOr at h
  cases hu : p.unpack buf with
  | none =>
      rw [hu] at h
      cases h
  | some a' =>
      rw [hu] at h
      cases h
      exact ⟨rfl, rfl⟩

theorem restoreRetains_loads {st : RestoreState} {u : Unit} (es : List (ByteStr × MbufTmp)) :
    ∀ b : Broker, restoreRetains es b = .ok (u, b') → Loads st b st b' := by
  induction es with
  | nil =>
      intro b h
      cases h
      exact fun _ _ hi => hi
  | cons e es ih =>
      intro b h
      obtain ⟨t, tmp⟩ := e
      unfold restoreRetains at h
      rw [bind_ok] at h
      obtain ⟨m, b₁, hm, h⟩ := h
      obtain ⟨hv, rfl, rfl⟩ := restoreMbuf_new hm
      rw [modify_bind] at h
      exact .trans (.single (.retain t tmp hv)) (ih _ h)

theorem restoreDbMsg_loads {st st' : RestoreState} {buf : ByteStr} (h : restoreDbMsg mp st buf b = .ok (st', b')) :
    Loads st b st' b' := by
  unfold restoreDbMsg at h
  rw [bind_ok] at h
  obtain ⟨tmp, b₁, hu, h⟩ := h
  obtain ⟨-, rfl⟩ := unpackOr_ok hu
  rw [bind_ok] at h
  obtain ⟨m, b₂, hm, h⟩ := h
  obtain ⟨hv, rfl, rfl⟩ := restoreMbuf_new hm
  by_cases hz : tmp.msgId = 0
  · have hdb : (decide (tmp.msgId ≠ 0)) = false := by simp [hz]
    rw [if_neg (by simpa using hz)] at h
    cases h
    rw [hdb]
    exact .single (.unnamed tmp hv hz)
  · have hdb : (decide (tmp.msgId ≠ 0)) = true := by simp [hz]
    rw [if_pos hz, modify_bind, modify_bind] at h
    cases h
    rw [hdb]
    exact .trans (.single (.msg tmp hv hz)) (overwrite_loads st _ _)

/-- **One chunk**, whatever it contains. -/
theorem restoreChunk_loads {type : ChunkType} {st st' : RestoreState} {buf : ByteStr}
    (h : restoreChunk env mp type st buf b = .ok (st', b')) : Loads st b st' b' := by
  cases type with
  | globalInfo =>
      unfold restoreChunk restoreDbInfo at h
      simp only [bind_assoc] at h
      rw [bind_ok] at h
      obtain ⟨info, b₁, hu, h⟩ := h
      obtain ⟨-, rfl⟩ := unpackOr_ok hu
      cases h
      exact .single (.info info)
  | dbMsg =>
      exact restoreDbMsg_loads h
  | clientMsg =>
      unfold restoreChunk at h
      simp only at h
      cases hu : mp.client.unpack buf with
      | none =>
          unfold restoreClientInfo unpackOr at h
          rw [hu] at h
          cases h
      | some info =>
          rw [restoreClientInfo_eq hu] at h
          cases h
          exact .single (.client info)
  | topicInfo =>
      unfold restoreChunk restoreRetainMsg at h
      simp only [bind_assoc] at h
      rw [bind_ok] at h
      obtain ⟨map, b₁, hu, h⟩ := h
      obtain ⟨-, rfl⟩ := unpackOr_ok hu
      rw [bind_ok] at h
      obtain ⟨_, b₂, hm, h⟩ := h
      cases h
      exact restoreRetains_loads map _ hm

theorem ChunkType.value_of_ofValue {v : UInt8} {type : ChunkType} (h : ChunkType.ofValue v = some type) :
    v = type.value := by
  unfold ChunkType.ofValue at h
  split at h
  · cases h
    rfl
  · cases h
    rfl
  · cases h
    rfl
  · cases h
    rfl
  · cases h

/-- **One round of the loop**: the end of the file, an error, or a whole chunk. -/
theorem restoreLoop_cases {fuel : Nat} {st st' : RestoreState} {file : ByteStr} {r : Int}
    (h : restoreLoop env mp (fuel + 1) st file b = .ok ((r, st'), b')) :
    (file = [] ∧ r = 0 ∧ st' = st ∧ b' = b) ∨ (r = -1 ∧ st' = st ∧ b' = b) ∨
      ∃ (type : ChunkType) (len data rest : ByteStr) (st₁ : RestoreState) (b₁ : Broker), len.length = 4 ∧
        data.length = readLe32 len ∧ data.length ≤ maxChunkLen ∧
        file = 0xEE :: type.value :: (len ++ (data ++ rest)) ∧
        restoreChunk env mp type st data b = .ok (st₁, b₁) ∧ restoreLoop env mp fuel st₁ rest b₁ = .ok ((r, st'), b') := by
  unfold restoreLoop at h
  cases file with
  | nil =>
      cases h
      exact Or.inl ⟨rfl, rfl, rfl, rfl⟩
  | cons tag rest =>
      refine Or.inr ?_
      simp only at h
      split at h
      · cases h
        exact Or.inl ⟨rfl, rfl, rfl⟩
      · rename_i htag
        cases rest with
        | nil =>
            cases h
            exact Or.inl ⟨rfl, rfl, rfl⟩
        | cons type rest =>
            simp only at h
            split at h
            · cases h
              exact Or.inl ⟨rfl, rfl, rfl⟩
            · rename_i hroom
              rw [not_or, not_or, Nat.not_lt, Nat.not_lt, Nat.not_lt] at hroom
              obtain ⟨hfour, hmax, hall⟩ := hroom
              cases ht : ChunkType.ofValue type with
              | none =>
                  rw [ht] at h
                  cases h
                  exact Or.inl ⟨rfl, rfl, rfl⟩
              | some type' =>
                  rw [ht] at h
                  simp only at h
                  rw [bind_ok] at h
                  obtain ⟨st₁, b₁, hc, h⟩ := h
                  refine Or.inr ⟨type', rest.take 4, (rest.drop 4).take (readLe32 rest), _, st₁, b₁, ?_, ?_, ?_, ?_, hc, h⟩
                  · rw [List.length_take]
                    omega
                  · rw [List.length_take, Nat.min_eq_left hall]
                    match rest, hfour with
                    | _ :: _ :: _ :: _ :: _, _ => rfl
                  · rw [List.length_take]
                    exact Nat.le_trans (Nat.min_le_left _ _) hmax
                  · rw [not_not.mp htag, ChunkType.value_of_ofValue ht, List.take_append_drop, List.take_append_drop]

theorem restoreLoop_loads {r : Int} {st' : RestoreState} (fuel : Nat) : ∀ (st : RestoreState) (file : ByteStr) (b : Broker),
    restoreLoop env mp fuel st file b = .ok ((r, st'), b') → Loads st b st' b' := by
  induction fuel with
  | zero =>
      intro st file b h
      cases h
      exact .refl _ _
  | succ fuel ih =>
      intro st file b h
      rcases restoreLoop_cases h with ⟨-, -, rfl, rfl⟩ | ⟨-, rfl, rfl⟩ |
        ⟨type, len, data, rest, st₁, b₁, -, -, -, -, hc, h⟩
      · exact .refl _ _
      · exact .refl _ _
      · exact (restoreChunk_loads hc).trans (ih st₁ rest b₁ h)

/-- `restore` of a file is the loop over its bytes, and then the end; only whether the file is closed depends on whether
    there are any. -/
theorem restore_some {file : ByteStr} {r : Int} (h : restore env mp (some file) b = .ok (r, b')) :
    ∃ st b₁ dbFile, restoreLoop env mp (file.length + 1) {} file b = .ok ((r, st), b₁) ∧
      b' = { st.clear b₁ with dbFile } := by
  cases file with
  | nil =>
      cases h
      exact ⟨{}, b, some [], rfl, rfl⟩
  | cons x file =>
      unfold restore at h
      rw [bind_ok] at h
      obtain ⟨⟨r', st⟩, b₁, hloop, h⟩ := h
      cases h
      exact ⟨st, b₁, none, hloop, rfl⟩

theorem restore_of_loop {file : ByteStr} {r : Int} {st : RestoreState}
    (h : restoreLoop env mp (file.length + 1) {} file b = .ok ((r, st), b')) :
    ∃ dbFile, restore env mp (some file) b = .ok (r, { st.clear b' with dbFile }) := by
  cases file with
  | nil =>
      cases h
      exact ⟨some [], rfl⟩
  | cons x file =>
      refine ⟨none, ?_⟩
      unfold restore
      simp only
      rw [bind_apply, h]
      rfl

/-- **Reading a file.** What every record keeps holds of the broker that has read a file, also of one it could not
    read to the end. -/
theorem restore_invariant {I : RestoreState → Broker → Prop} {file : Option ByteStr} {r : Int}
    (hload : ∀ st b st' b', Load st b st' b' → I st b → I st' b') (hi : I {} b)
    (h : restore env mp file b = .ok (r, b')) : ∃ st', I st' b' := by
  cases file with
  | none =>
      cases h
      exact ⟨{}, hi⟩
  | some bytes =>
      obtain ⟨st, b₁, dbFile, hl, rfl⟩ := restore_some h
      have hclear := (restoreLoop_loads _ _ _ _ hl).trans (clear_loads st)
      exact ⟨st, hload _ _ _ _ (.file dbFile) (hclear I hload hi)⟩

/-- Buffers and counters are not part of the tables. -/
theorem Load.restored {st st' : RestoreState} (h : Load st b st' b') (hr : Restored st.contexts b.sess) :
    Restored st'.contexts b'.sess ∧ b'.log = b.log := by
  cases h with
  | client info => exact ⟨hr.addStored info _, rfl⟩
  | retain t tmp => exact ⟨hr.topics fun t' => TopicMgr.clients_setRetainMsg _ _ _ _, rfl⟩
  | destroy m =>
      rw [Broker.destroy_sess, Broker.destroy_log]
      exact ⟨hr, rfl⟩
  | _ => exact ⟨hr, rfl⟩

/-- **A broker that starts** has the tables of a restored one, and no history. -/
theorem Started.tables (h : Started env mp b) : (∃ n, Restored n b.sess) ∧ b.log = [] := by
  cases h with
  | empty => exact ⟨⟨0, Restored.empty⟩, rfl⟩
  | restored file now b h =>
      obtain ⟨st, hr, hl⟩ := restore_invariant (I := fun st b => Restored st.contexts b.sess ∧ b.log = [])
        (fun _ _ _ _ h hi => ⟨(h.restored hi.1).1, (h.restored hi.1).2.trans hi.2⟩) ⟨Restored.empty, rfl⟩ h
      exact ⟨⟨_, hr⟩, hl⟩

/-! ## Invariants of runs -/

/-- **The invariant rule for brokers.** A fact about the tables and the trace that holds of restored tables,
    and that runs of the session machine keep under a condition on the trace, holds in every state in which
    the trace meets the condition. -/
theorem Reach.invariant {I : List Act → Sess → Prop} {G : List Act → Prop}
    (hpre : ∀ l l', G (l ++ l') → G l) (hstart : ∀ n s, Restored n s → I [] s)
    (hrun : ∀ log s ls s', G (log ++ ls) → I log s → Micros s ls s' → Steps s ls s' → I (log ++ ls) s')
    {m : Machine} (h : Reach env mp m) : G m.broker.log → I m.broker.log m.broker.sess := by
  induction h with
  | start hs =>
      intro _
      obtain ⟨⟨n, hr⟩, hl⟩ := hs.tables
      show I _ _
      rw [hl]
      exact hstart n _ hr
  | step _ _ hs ih =>
      intro hgood
      obtain ⟨-, -, ls, hlog, hm, hst, -⟩ := Machine.step_worked hs
      rw [hlog] at hgood ⊢
      exact hrun _ _ _ _ hgood (ih (hpre _ _ hgood)) hm hst

/-- The links of a running broker. -/
theorem Reach.links {m : Machine} (h : Reach env mp m) (hone : OneConnect m.broker.log) :
    Links (connects m.broker.log) m.broker.sess :=
  Reach.invariant (I := fun log s => Links (connects log) s) (fun _ _ => OneConnect.of_append)
    (fun _ _ hr => hr.links) (fun _ _ _ _ hone h hm _ => h.micros hone hm) h hone

end MqttServer
