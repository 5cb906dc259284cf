import MqttServer.Correctness.Identifiers

/-!
# `Correctness.Quiet` — what a connection was sent and has not acknowledged

What was accepted for a connection and not acknowledged on it stands in the pending queue of its session, in this order, and is
all of it as long as nothing was refused. The invariant (`Owed`) also knows of messages that are still to be sent, in the
middle of an operation. Most of what the broker does changes neither side: it closes, writes, replies, takes back
subscriptions, stores (`Quiet`).
-/

namespace MqttServer

open Lib Exec

variable {env : Env} {mp : MsgPack} {b b' b₁ : Broker} {k k' : ConnId} {c : CtxId} {m : MbufId} {t : ByteStr}

/-! ## Sent and acknowledged -/

namespace Act

/-- The message of a `put` on the connection that was not refused. -/
def sentOn (k : ConnId) : Act → Option MbufId
  | .put k' m r => if k' = k ∧ r ≠ -1 then some m else none
  | _ => none

/-- A PUBACK of the connection. -/
def acknowledges (k : ConnId) : Act → Bool
  | .puback k' _ _ _ => k' = k
  | _ => false

/-- A label that says nothing about messages: no CONNECT, no PUBACK, and a `put` of a buffer without an identifier only. -/
structure Silent (b : Broker) (a : Act) : Prop where
  connect : a.connect? = none
  puback : ∀ k, a.acknowledges k = false
  put : ∀ k m r, a = .put k m r → m < b.nextBuf ∧ (b.bufs m).packetId = 0

/-- A silent label without a `put`. -/
structure Plain (a : Act) : Prop where
  connect : a.connect? = none
  puback : ∀ k, a.acknowledges k = false
  put : a.noPut

end Act

namespace Broker

/-- The messages accepted for a connection, in order. A reply has no identifier. -/
def sent (b : Broker) (k : ConnId) : List MbufId :=
  (b.log.filterMap (Act.sentOn k)).filter fun m => (b.bufs m).packetId ≠ 0

/-- The number of its PUBACKs. -/
def acks (b : Broker) (k : ConnId) : Nat := b.log.countP (Act.acknowledges k)

/-- What was sent and not acknowledged. -/
def unacked (b : Broker) (k : ConnId) : List MbufId := (b.sent k).drop (b.acks k)

/-- A message was refused. -/
def Refused (b : Broker) (k : ConnId) : Prop := ∃ m, .put k m (-1) ∈ b.log ∧ (b.bufs m).packetId ≠ 0

end Broker

/-- Every buffer that was put exists. -/
def Bounded (b : Broker) : Prop := ∀ k m r, .put k m r ∈ b.log → m < b.nextBuf

/-- **The invariant**, with the messages that are still to be sent on each connection. -/
structure Owed (todo : ConnId → List MbufId) (b : Broker) : Prop where
  links : Links (connects b.log) b.sess
  bounded : Bounded b
  unconnected : ∀ k, ¬ Connected (connects b.log) k → b.sent k = []
  within : ∀ k, b.acks k ≤ (b.sent k).length
  queue : ∀ k c, Connected (connects b.log) k → b.sess.contextOf k = some c →
    List.Sublist (b.unacked k ++ todo k) (b.sess.ctxs c).sendMsgQueue ∧
      (¬ b.Refused k → (b.sess.ctxs c).sendMsgQueue = b.unacked k ++ todo k)

/-- Nothing is left to be sent. -/
def settled : ConnId → List MbufId := fun _ => []

/-- Messages are left to be sent on one connection. -/
def offering (k : ConnId) (ms : List MbufId) : ConnId → List MbufId := Function.update settled k ms

@[simp] theorem offering_self (ms : List MbufId) : offering k ms k = ms := Function.update_self _ _ _

theorem offering_of_ne (h : k' ≠ k) (ms : List MbufId) : offering k ms k' = [] := Function.update_of_ne h _ _

@[simp] theorem offering_nil : offering k [] = settled := Function.update_eq_self k settled

/-! ## Labels -/

theorem mem_sentOn {log : List Act} (h : m ∈ log.filterMap (Act.sentOn k)) : ∃ r, .put k m r ∈ log ∧ r ≠ -1 := by
  obtain ⟨a, ha, hm⟩ := List.mem_filterMap.mp h
  cases a with
  | put k' m' r =>
      unfold Act.sentOn at hm
      simp only at hm
      split at hm
      · rename_i hcond
        cases hm
        exact ⟨r, hcond.1 ▸ ha, hcond.2⟩
      · cases hm
  | _ => cases hm

/-- The messages of some more labels. -/
theorem Bounded.sent_append (hb : Bounded b) (hs : SameMessages b b') {ls : List Act} (hlog : b'.log = b.log ++ ls) (k : ConnId) :
    b'.sent k = b.sent k ++ (ls.filterMap (Act.sentOn k)).filter fun m => (b'.bufs m).packetId ≠ 0 := by
  unfold Broker.sent
  rw [hlog, List.filterMap_append, List.filter_append]
  congr 1
  apply List.filter_congr
  intro m hm
  obtain ⟨r, hput, -⟩ := mem_sentOn hm
  rw [hs.packetId (hb k m r hput)]

theorem sent_silent {ls : List Act} (h : ∀ a ∈ ls, a.Silent b) (k : ConnId) :
    (ls.filterMap (Act.sentOn k)).filter (fun m => (b.bufs m).packetId ≠ 0) = [] := by
  rw [List.filter_eq_nil_iff]
  intro m hm
  obtain ⟨r, hput, -⟩ := mem_sentOn hm
  simp [((h _ hput).put k m r rfl).2]

theorem Broker.acks_append {ls : List Act} (hlog : b'.log = b.log ++ ls) (k : ConnId) :
    b'.acks k = b.acks k + ls.countP (Act.acknowledges k) := by
  unfold Broker.acks
  rw [hlog, List.countP_append]

theorem acks_silent {ls : List Act} (h : ∀ a ∈ ls, a.Silent b) (k : ConnId) : ls.countP (Act.acknowledges k) = 0 := by
  rw [List.countP_eq_zero]
  intro a ha
  rw [(h a ha).puback k]
  exact Bool.false_ne_true

theorem connects_silent {ls : List Act} (h : ∀ a ∈ ls, a.Silent b) : connects ls = [] :=
  List.filterMap_eq_nil_iff.mpr fun a ha => (h a ha).connect

theorem Act.Silent.mono {a : Act} (h : a.Silent b) (hs : SameMessages b b') : a.Silent b' where
  connect := h.connect
  puback := h.puback
  put k m r he := by
    obtain ⟨hlt, hid⟩ := h.put k m r he
    exact ⟨hlt.trans_le hs.grown, by rw [hs.packetId hlt, hid]⟩

theorem Act.Plain.silent {a : Act} (h : a.Plain) (b : Broker) : a.Silent b :=
  ⟨h.connect, h.puback, fun k m r he => absurd he (h.put k m r)⟩

/-! ## Steps that change neither side -/

/-- A connection with a CONNECT has a session. -/
theorem Links.named_of_connected {cs : List (ConnId × CtxId)} {s : Sess} (h : Links cs s) (hk : Connected cs k)
    (hc : s.contextOf k = some c) : Named cs c := by
  obtain ⟨c', hc', hn⟩ := h.bound k hk (Sess.alive_of_contextOf hc)
  rw [hc] at hc'
  cases hc'
  exact hn

/-- The connection of a session has a CONNECT. -/
theorem Links.connected_of_named {cs : List (ConnId × CtxId)} {s : Sess} (h : Links cs s) (hn : Named cs c)
    (hc : s.contextOf k = some c) : Connected cs k := by
  by_contra hno
  exact h.not_named hno hc hn

/-- A connection without a context has no CONNECT. -/
theorem Links.not_connected {cs : List (ConnId × CtxId)} {s : Sess} (h : Links cs s) (ha : s.Alive k)
    (hnone : s.contextOf k = none) : ¬ Connected cs k := by
  intro hk
  obtain ⟨c, hc, -⟩ := h.bound k hk ha
  rw [hnone] at hc
  cases hc

/-- No message is queued, sent or acknowledged, and no CONNECT is handled. -/
structure Quiet (b b' : Broker) : Prop extends SameMessages b b' where
  labels : ∃ ls, b'.log = b.log ++ ls ∧ ∀ a ∈ ls, a.Silent b'
  links : Links (connects b'.log) b'.sess
  sessions : ∀ k c, Connected (connects b.log) k → b'.sess.contextOf k = some c → b.sess.contextOf k = some c
  queues : ∀ c, Named (connects b.log) c → (b'.sess.ctxs c).sendMsgQueue = (b.sess.ctxs c).sendMsgQueue

theorem Quiet.connects (h : Quiet b b') : connects b'.log = connects b.log := by
  obtain ⟨ls, hlog, hls⟩ := h.labels
  rw [hlog]
  exact connects_quiet (connects_silent hls)

theorem Quiet.refl (h : Links (MqttServer.connects b.log) b.sess) : Quiet b b where
  toSameMessages := .refl b
  labels := ⟨[], (List.append_nil _).symm, fun _ h => by cases h⟩
  links := h
  sessions _ _ _ hc := hc
  queues _ _ := rfl

theorem Quiet.trans (h : Quiet b b₁) (h' : Quiet b₁ b') : Quiet b b' where
  toSameMessages := h.toSameMessages.trans h'.toSameMessages
  labels := by
    obtain ⟨ls, hlog, hls⟩ := h.labels
    obtain ⟨ls', hlog', hls'⟩ := h'.labels
    refine ⟨ls ++ ls', by rw [hlog', hlog, List.append_assoc], fun a ha => ?_⟩
    rcases List.mem_append.mp ha with ha | ha
    · exact (hls a ha).mono h'.toSameMessages
    · exact hls' a ha
  links := h'.links
  sessions k c hk hc := by
    rw [← h.connects] at hk
    have hc₁ := h'.sessions k c hk hc
    rw [h.connects] at hk
    exact h.sessions k c hk hc₁
  queues c hn := by
    have hq := h.queues c hn
    rw [← h.connects] at hn
    exact (h'.queues c hn).trans hq

/-- **Quiet steps** keep the invariant. -/
theorem Owed.quiet {todo : ConnId → List MbufId} (h : Owed todo b) (hq : Quiet b b') : Owed todo b' := by
  obtain ⟨ls, hlog, hls⟩ := hq.labels
  have hsent : ∀ k, b'.sent k = b.sent k := fun k => by
    rw [h.bounded.sent_append hq.toSameMessages hlog, sent_silent hls, List.append_nil]
  have hacks : ∀ k, b'.acks k = b.acks k := fun k => by
    rw [Broker.acks_append hlog, acks_silent hls, Nat.add_zero]
  have hunacked : ∀ k, b'.unacked k = b.unacked k := fun k => by
    unfold Broker.unacked
    rw [hsent, hacks]
  refine ⟨hq.links, fun k m r hm => ?_, fun k hk => ?_, fun k => ?_, fun k c hk hc => ?_⟩
  · rw [hlog] at hm
    rcases List.mem_append.mp hm with hm | hm
    · exact (h.bounded k m r hm).trans_le hq.grown
    · exact ((hls _ hm).put k m r rfl).1
  · rw [hq.connects] at hk
    rw [hsent, h.unconnected k hk]
  · rw [hsent, hacks]
    exact h.within k
  · rw [hq.connects] at hk
    have hc₀ := hq.sessions k c hk hc
    obtain ⟨hsub, heq⟩ := h.queue k c hk hc₀
    rw [hunacked, hq.queues c (h.links.named_of_connected hk hc₀)]
    refine ⟨hsub, fun hr => heq fun hr₀ => hr ?_⟩
    obtain ⟨m, hm, hid⟩ := hr₀
    refine ⟨m, ?_, by rwa [hq.packetId (h.bounded k m _ hm)]⟩
    rw [hlog]
    exact List.mem_append_left _ hm

/-- The frame of these steps, in tables whose links are in order. -/
def quieting : Frame Broker Fault where
  rel b b' := Links (connects b.log) b.sess → Quiet b b'
  flt _ _ := True
  refl _ h := .refl h
  trans h h' hl := (h hl).trans (h' (h hl).links)
  extend _ _ := trivial

theorem quieting_fault {α : Type} {f : Fault} : quieting.Resp (fault f : BrokerM α) b := trivial

/-- A change of tables, trace and clocks. -/
theorem quiet_of_tables (ls : List Act) (hbufs : b'.bufs = b.bufs) (hn : b'.nextBuf = b.nextBuf)
    (hlog : b'.log = b.log ++ ls) (hls : ∀ a ∈ ls, a.Plain)
    (h : Links (connects b.log) b.sess → Links (connects b.log) b'.sess ∧
      (∀ k c, Connected (connects b.log) k → b'.sess.contextOf k = some c → b.sess.contextOf k = some c) ∧
      ∀ c, Named (connects b.log) c → (b'.sess.ctxs c).sendMsgQueue = (b.sess.ctxs c).sendMsgQueue) : quieting.rel b b' := by
  intro hl
  obtain ⟨hl', hc, hq⟩ := h hl
  have hconn : connects b'.log = connects b.log := by
    rw [hlog]
    exact connects_quiet (connects_silent fun a ha => (hls a ha).silent b)
  refine { toSameMessages := .of_same hn fun m => ?_, labels := ⟨ls, hlog, fun a ha => (hls a ha).silent b'⟩
           links := ?_, sessions := hc, queues := hq }
  · rw [hbufs]
    exact ⟨rfl, rfl⟩
  · rw [hconn]
    exact hl'

/-- Nothing of all this changes. -/
theorem quiet_of_same (hbufs : b'.bufs = b.bufs) (hn : b'.nextBuf = b.nextBuf) (hs : b'.sess = b.sess)
    (hlog : b'.log = b.log) : quieting.rel b b' := by
  refine quiet_of_tables [] hbufs hn (by rw [hlog, List.append_nil]) (fun _ h => by cases h) ?_
  rw [hs]
  exact fun hl => ⟨hl, fun _ _ _ hc => hc, fun _ _ => rfl⟩

/-- A label without a `put`. -/
theorem plain_of {a : Act} (hc : a.connect? = none) (hp : ∀ k, a.acknowledges k = false) (ha : a.noPut) :
    ∀ x ∈ [a], x.Plain := by
  intro x hx
  rw [List.mem_singleton.mp hx]
  exact ⟨hc, hp, ha⟩

theorem quiet_newBuf {x : Buf} : quieting.rel b (b.withBuf x) := fun hl =>
  { toSameMessages := .of_new rfl rfl, labels := ⟨[], (List.append_nil _).symm, fun _ h => by cases h⟩
    links := hl, sessions := fun _ _ _ hc => hc, queues := fun _ _ => rfl }

theorem touch_quiet : quieting.Resp (touch k) b := by
  unfold touch
  refine Frame.resp_get_bind ?_
  split
  · exact Frame.resp_pure _
  · exact quieting_fault

theorem handleClose_quiet {cause : Cause} : quieting.Resp (handleClose k cause) b := by
  unfold handleClose
  refine Frame.resp_bind touch_quiet fun _ b₁ _ => ?_
  refine Frame.resp_modify_bind (quiet_of_same rfl rfl rfl rfl) (Frame.resp_get_bind ?_)
  cases hc : b₁.sess.contextOf k with
  | none => exact quieting_fault
  | some c =>
      refine Frame.resp_set_bind ?_ (Frame.resp_modify (quiet_of_same rfl rfl rfl rfl))
      refine quiet_of_tables _ rfl rfl rfl (plain_of rfl (fun _ => rfl) fun _ _ _ h => by cases h) fun hl =>
        ⟨hl.close hc, fun k' c' _ hc' => ?_, fun c' _ => ?_⟩
      · have hc'' : (b₁.sess.close k c).contextOf k' = some c' := hc'
        rw [Sess.close_contextOf] at hc''
        split at hc''
        · cases hc''
        · exact hc''
      · show ((b₁.sess.close k c).ctxs c').sendMsgQueue = _
        rw [Sess.close_ctxs]
        split
        · rename_i he
          rw [he]
          rfl
        · rfl

theorem clientContext_quiet : quieting.Resp (clientContext env k) b := by
  unfold clientContext
  refine Frame.resp_bind touch_quiet fun _ b₁ ht => ?_
  obtain ⟨rfl, ha⟩ := touch_ok.mp ht
  refine Frame.resp_get_bind ?_
  cases hnone : b₁.sess.contextOf k with
  | some c => exact Frame.resp_pure _
  | none =>
      refine Frame.resp_set_bind ?_ (Frame.resp_pure _)
      refine quiet_of_tables _ rfl rfl rfl (plain_of rfl (fun _ => rfl) fun _ _ _ h => by cases h) fun hl =>
        ⟨hl.newContext ha hnone, fun k' c' hk' hc' => ?_, fun c' hn => ?_⟩
      · have hc'' : (b₁.sess.newContext k (env.cleanGarbage k)).contextOf k' = some c' := hc'
        rw [Sess.newContext_contextOf] at hc''
        split at hc''
        · -- a connection with a CONNECT has a context
          rename_i he
          exact absurd (he ▸ hk') (hl.not_connected ha hnone)
        · exact hc''
      · -- the new context is no session
        show ((b₁.sess.newContext k (env.cleanGarbage k)).ctxs c').sendMsgQueue = _
        rw [Sess.newContext_ctxs, if_neg]
        rintro rfl
        exact hl.not_connected ha hnone (hl.creator k hn)

theorem closeOnError_quiet {closing : Bool} : quieting.Resp (closeOnError k closing) b := by
  unfold closeOnError
  split
  · exact handleClose_quiet
  · exact Frame.resp_pure _

/-- A `put` of a buffer without an identifier. -/
theorem put_quiet (hlt : m < b.nextBuf) (hid : (b.bufs m).packetId = 0) : quieting.Resp (put env k m) b := by
  unfold put
  refine Frame.resp_bind touch_quiet fun _ b₁ ht => ?_
  obtain ⟨rfl, -⟩ := touch_ok.mp ht
  refine Frame.resp_get_bind (Frame.resp_set_bind (fun hl => ?_) ?_)
  · have hsame : SameBufs b₁.bufs ((b₁.handlers k).put b₁.bufs m (env.write k (b₁.nwrites k))).bufs := EventHandler.put_same
    refine { toSameMessages := .of_same rfl hsame, labels := ⟨[.put k m _], rfl, fun a ha => ?_⟩
             links := ?_, sessions := fun _ _ _ hc => hc, queues := fun _ _ => rfl }
    · rw [List.mem_singleton.mp ha]
      refine ⟨rfl, fun _ => rfl, fun k' m' r' he => ?_⟩
      cases he
      refine ⟨hlt, ?_⟩
      unfold Buf.packetId at hid ⊢
      rwa [(hsame m).2]
    · show Links (connects (b₁.log ++ [.put k m _])) b₁.sess
      rwa [connects_quiet rfl]
  · exact Frame.resp_bind closeOnError_quiet fun _ _ _ => Frame.resp_pure _

theorem handleOutput_quiet : quieting.Resp (handleOutput env k) b := by
  unfold handleOutput
  refine Frame.resp_bind touch_quiet fun _ b₁ _ => Frame.resp_get_bind (Frame.resp_set_bind (fun hl => ?_) ?_)
  · exact { toSameMessages := .of_same rfl EventHandler.handleOutput_same
            labels := ⟨[], (List.append_nil _).symm, fun _ h => by cases h⟩, links := hl
            sessions := fun _ _ _ hc => hc, queues := fun _ _ => rfl }
  · exact Frame.resp_bind closeOnError_quiet fun _ _ _ => Frame.resp_bind touch_quiet fun _ _ _ => Frame.resp_pure _

/-- A new buffer has no identifier. -/
theorem Buf.make_packetId (size time : Nat) (bytes : ByteStr) : (Buf.make size time bytes).packetId = 0 := by
  have hcopy : ((Mbuf.create size time).copy bytes).msgId = 0 := by
    unfold Mbuf.copy
    split <;> rfl
  unfold Buf.packetId Buf.msgId Buf.make
  split
  · exact congrArg (· % 65536) hcopy
  · rfl

theorem reply_quiet {size : Nat} {bytes : Option ByteStr} : quieting.Resp (reply env k size bytes) b := by
  unfold reply
  refine Frame.resp_get_bind ?_
  cases bytes with
  | none => exact Frame.resp_set_bind quiet_newBuf (Frame.resp_pure _)
  | some bytes =>
      refine Frame.resp_bind (Frame.resp_set_bind quiet_newBuf (Frame.resp_pure _)) fun m b₁ h₁ => ?_
      obtain ⟨rfl, rfl⟩ := newBuf_ok h₁
      refine put_quiet (Nat.lt_succ_self _) ?_
      have hself : Function.update b.bufs b.nextBuf (Buf.make size b.now bytes) b.nextBuf = Buf.make size b.now bytes :=
        Function.update_self _ _ _
      show (Function.update b.bufs b.nextBuf (Buf.make size b.now bytes) b.nextBuf).packetId = 0
      rw [hself]
      exact Buf.make_packetId _ _ _

/-- A change of one context that keeps its links and its queue. -/
theorem quiet_modifyContext {f : ClientContext → ClientContext} {a : Act} (ha : ∀ x ∈ [a], x.Plain)
    (hf : ∀ x, (f x).sendMsgQueue = x.sendMsgQueue)
    (hl : Links (connects b.log) b.sess → Links (connects b.log) (b.sess.modifyContext c f)) :
    quieting.rel b (b.act (b.sess.modifyContext c f) a) := by
  refine quiet_of_tables [a] rfl rfl rfl ha fun h => ⟨hl h, fun _ _ _ hc' => hc', fun c' _ => ?_⟩
  show ((b.sess.modifyContext c f).ctxs c').sendMsgQueue = _
  rw [Sess.modifyContext_ctxs]
  split
  · rename_i he
    rw [he]
    exact hf _
  · rfl

/-- A change of the topic table that adds no context without a session. -/
theorem quiet_topics {mgr : TopicMgr} (ls : List Act) (hls : ∀ a ∈ ls, a.Plain) {b' : Broker} (hbufs : b'.bufs = b.bufs)
    (hn : b'.nextBuf = b.nextBuf) (hs : b'.sess = { b.sess with topicMgr := mgr }) (hlog : b'.log = b.log ++ ls)
    (hsub : Links (connects b.log) b.sess → ∀ t c, c ∈ mgr.clients t → Named (connects b.log) c) : quieting.rel b b' := by
  refine quiet_of_tables ls hbufs hn hlog hls fun hl => ?_
  rw [hs]
  exact ⟨hl.topics (hsub hl), fun _ _ _ hc => hc, fun _ _ => rfl⟩

theorem unsubscribeLoop_quiet (ts : List ByteStr) : ∀ b : Broker, quieting.Resp (unsubscribeLoop env k ts) b := by
  induction ts with
  | nil => exact fun _ => Frame.resp_pure _
  | cons t ts ih =>
      intro b
      unfold unsubscribeLoop
      refine Frame.resp_bind clientContext_quiet fun c b₁ _ => Frame.resp_modify_bind ?_ (ih _)
      refine quiet_topics _ (plain_of rfl (fun _ => rfl) fun _ _ _ h => by cases h) rfl rfl rfl rfl ?_
      exact fun hl t' c' hm => hl.subscribed t' c' (TopicMgr.mem_clients_del.mp hm).1

theorem handleUnsubscribeMsg_quiet {buf : ByteStr} : quieting.Resp (handleUnsubscribeMsg env k buf) b := by
  unfold handleUnsubscribeMsg
  refine Frame.resp_bind clientContext_quiet fun _ _ _ => Frame.resp_get_bind ?_
  split
  · exact Frame.resp_pure _
  · split
    · exact Frame.resp_pure _
    · exact Frame.resp_bind (unsubscribeLoop_quiet _ _) fun _ _ _ => reply_quiet

theorem handleDisconnectMsg_quiet : quieting.Resp (handleDisconnectMsg env k) b := by
  unfold handleDisconnectMsg
  refine Frame.resp_bind clientContext_quiet fun c b₁ _ => Frame.resp_modify_bind ?_ ?_
  · refine quiet_modifyContext (f := (·.disconnect)) (plain_of rfl (fun _ => rfl) fun _ _ _ h => by cases h) (fun _ => rfl) ?_
    exact fun hl => hl.modify ⟨rfl, rfl⟩ (Or.inr fun hi => ⟨by simp [ClientContext.disconnect], hi.2⟩)
  · exact Frame.resp_modify_bind (quiet_of_same rfl rfl rfl rfl) (Frame.resp_pure _)

/-! ### Ticks -/

theorem quiet_of_writing {α : Type} {x : BrokerM α} (h : writing.Resp x b) : quieting.Resp x b := by
  refine Frame.Resp.mono ?_ (fun _ _ => trivial) h
  rintro b' ⟨file, dbFile, n, rfl⟩
  exact quiet_of_same rfl rfl rfl rfl

theorem checkIdle_quiet : quieting.Resp (checkIdle env c) b := by
  unfold checkIdle
  refine Frame.resp_get_bind ?_
  split
  · exact Frame.resp_pure _
  · refine Frame.resp_bind touch_quiet fun _ _ _ => ?_
    split
    · exact handleClose_quiet
    · exact Frame.resp_pure _

theorem store_quiet {force : Bool} : quieting.Resp (store env mp force) b := by
  have hall : ∀ b : Broker, quieting.Resp (storeAll env mp) b := fun _ =>
    storeAll_frame (fun _ _ _ => quiet_of_writing) fun _ _ _ => checkIdle_quiet
  unfold store
  refine Frame.resp_modify_bind (quiet_of_same rfl rfl rfl rfl) (Frame.resp_get_bind ?_)
  split
  · exact hall _
  · split
    · exact Frame.resp_pure _
    · exact Frame.resp_set_bind (quiet_of_same rfl rfl rfl rfl) (hall _)

end MqttServer
