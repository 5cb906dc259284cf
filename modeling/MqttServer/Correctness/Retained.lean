import MqttServer.Correctness.Broadcast
import MqttServer.Correctness.Subscribing

/-!
# `Correctness.Retained` — the retained messages

What `CSubscriberMgr` keeps for the topics is a map from topics to packets: a publish with the retain flag sets its topic
to the packet or, without a payload, clears it, and nothing else changes the map. The map is spread over topic nodes, which
a publish or a subscription may have created, and over buffers whose cursors are shared with all the queues; as long as
every write takes a whole buffer no cursor moves. A SUBSCRIBE then delivers the packet for each topic that it lists
(`retained_runs`).
-/

namespace MqttServer

open Lib Exec

variable {env : Env} {b b' b₁ : Broker} {k : ConnId} {c : CtxId} {m : MbufId} {t : ByteStr}

/-! ## Complete writes -/

/-- Every `::write` takes all it is given, as far as one call can. -/
def Env.Complete (env : Env) : Prop := ∀ k n, ∃ len, maxRwCount ≤ len ∧ (env.write k n).out = .wrote len

/-- No buffer is longer than what one `::write` can take. -/
def Broker.Short (b : Broker) : Prop := ∀ m, (b.bufs m).1.length ≤ maxRwCount

theorem Env.Complete.taken (h : env.Complete) (k : ConnId) (n : Nat) {len : Nat} (hlen : len ≤ maxRwCount) :
    (env.write k n).taken len = len := by
  obtain ⟨count, hcount, hout⟩ := h k n
  unfold WriteCall.taken
  rw [hout]
  show min (min count len) maxRwCount = len
  rw [Nat.min_eq_right (hlen.trans hcount), Nat.min_eq_left hlen]

theorem Env.Complete.nonFatal (h : env.Complete) (k : ConnId) (n : Nat) : (env.write k n).NonFatal := by
  obtain ⟨count, -, hout⟩ := h k n
  intro e he
  rw [hout] at he
  cases he

theorem Env.Complete.takes (h : env.Complete) (b : Broker) (k : ConnId) : b.Takes env k := fun _ => h.nonFatal _ _

/-- A complete write leaves the buffer as it is. -/
theorem Env.Complete.send (h : env.Complete) {buf : Buf} (hlen : buf.1.length ≤ maxRwCount) (k : ConnId) (n : Nat) :
    (EventHandler.send buf (env.write k n)).buf = buf := by
  have hsend := EventHandler.send_buf buf (env.write k n)
  rw [if_neg] at hsend
  · exact hsend
  · rw [h.taken k n hlen]
    exact fun hx => Nat.lt_irrefl _ hx.2

theorem Env.Complete.nonblkSend (h : env.Complete) (hs : b.Short) (e : EventHandler) (m : MbufId) (k : ConnId) (n : Nat) :
    (EventHandler.nonblkSend b.bufs e m (env.write k n)).bufs = b.bufs := by
  have hbufs := (nonblkSend_eq b.bufs e m (h.nonFatal k n)).2.1
  rw [h.send (hs m) k n, Function.update_eq_self] at hbufs
  exact hbufs

theorem Env.Complete.put (h : env.Complete) (hs : b.Short) (e : EventHandler) (m : MbufId) (k : ConnId) (n : Nat) :
    (e.put b.bufs m (env.write k n)).bufs = b.bufs := by
  unfold EventHandler.put
  split
  · exact h.nonblkSend hs e m k n
  · split <;> rfl

theorem Env.Complete.handleOutput (h : env.Complete) (hs : b.Short) (e : EventHandler) (k : ConnId) (n : Nat) :
    (e.handleOutput b.bufs (env.write k n)).bufs = b.bufs := by
  unfold EventHandler.handleOutput
  split
  · rfl
  · exact h.nonblkSend hs _ _ k n

/-! ## What does not touch the retained messages -/

/-- The buffers that exist are as before, and new ones are not too long either. -/
structure Kept (b b' : Broker) : Prop where
  short : b'.Short
  grown : b.nextBuf ≤ b'.nextBuf
  bufs : ∀ m, m < b.nextBuf → b'.bufs m = b.bufs m

theorem Kept.refl (hs : b.Short) : Kept b b where
  short := hs
  grown := Nat.le_refl _
  bufs _ _ := rfl

theorem Kept.trans (h : Kept b b₁) (h₁ : Kept b₁ b') : Kept b b' where
  short := h₁.short
  grown := h.grown.trans h₁.grown
  bufs m hm := (h₁.bufs m (hm.trans_le h.grown)).trans (h.bufs m hm)

/-- Nor is any retained message changed. -/
structure Retaining (b b' : Broker) : Prop extends Kept b b' where
  retain : ∀ t, b'.sess.topicMgr.retainMsg t = b.sess.topicMgr.retainMsg t

/-- The frame of what keeps buffers and retained messages, when no buffer is too long for a write. -/
def retaining : Frame Broker Fault where
  rel b b' := b.Short → Retaining b b'
  flt _ _ := True
  refl _ hs := { toKept := .refl hs, retain := fun _ => rfl }
  trans h h' hs :=
    { toKept := (h hs).toKept.trans (h' (h hs).short).toKept
      retain := fun t => ((h' (h hs).short).retain t).trans ((h hs).retain t) }
  extend _ _ := trivial

theorem retaining_fault {α : Type} {f : Fault} : retaining.Resp (fault f : BrokerM α) b := trivial

/-- A change of the tables that keeps the retained messages. -/
theorem retaining_of_same (hbufs : b'.bufs = b.bufs) (hnext : b'.nextBuf = b.nextBuf)
    (hr : ∀ t, b'.sess.topicMgr.retainMsg t = b.sess.topicMgr.retainMsg t) : retaining.rel b b' := by
  intro hs
  refine { short := fun m => ?_, grown := Nat.le_of_eq hnext.symm, bufs := fun m _ => ?_, retain := hr }
  · rw [hbufs]
    exact hs m
  · rw [hbufs]

theorem retaining_withBuf {buf : Buf} (hlen : buf.1.length ≤ maxRwCount) : retaining.rel b (b.withBuf buf) := by
  intro hs
  refine { short := fun m => ?_, grown := Nat.le_succ _, bufs := fun m hm => ?_, retain := fun _ => rfl }
  · show (Function.update b.bufs b.nextBuf buf m).1.length ≤ maxRwCount
    by_cases hm : m = b.nextBuf
    · rw [hm, Function.update_self]
      exact hlen
    · rw [Function.update_of_ne hm]
      exact hs m
  · exact Function.update_of_ne (Nat.ne_of_lt hm) _ _

theorem touch_retaining : retaining.Resp (touch k) b := by
  unfold touch
  refine Frame.resp_get_bind ?_
  split
  · exact Frame.resp_pure _
  · exact retaining_fault

theorem handleClose_retaining {cause : Cause} : retaining.Resp (handleClose k cause) b := by
  unfold handleClose
  refine Frame.resp_bind touch_retaining fun _ b₁ _ => ?_
  refine Frame.resp_modify_bind (retaining_of_same rfl rfl fun _ => rfl) (Frame.resp_get_bind ?_)
  cases b₁.sess.contextOf k with
  | none => exact retaining_fault
  | some c =>
      refine Frame.resp_set_bind (retaining_of_same rfl rfl fun t => retainMsg_close b₁.sess k c t) ?_
      exact Frame.resp_modify (retaining_of_same rfl rfl fun _ => rfl)

theorem clientContext_retaining : retaining.Resp (clientContext env k) b := by
  unfold clientContext
  refine Frame.resp_bind touch_retaining fun _ b₁ _ => Frame.resp_get_bind ?_
  cases b₁.sess.contextOf k with
  | some c => exact Frame.resp_pure _
  | none => exact Frame.resp_set_bind (retaining_of_same rfl rfl fun _ => rfl) (Frame.resp_pure _)

theorem closeOnError_retaining {closing : Bool} : retaining.Resp (closeOnError k closing) b := by
  unfold closeOnError
  split
  · exact handleClose_retaining
  · exact Frame.resp_pure _

theorem newBuf_retaining {buf : Buf} (hlen : buf.1.length ≤ maxRwCount) : retaining.Resp (newBuf buf) b :=
  Frame.resp_get_bind (Frame.resp_set_bind (retaining_withBuf hlen) (Frame.resp_pure _))

/-- A buffer is not longer than it was made. -/
theorem Buf.make_length_le (size time : Nat) (bytes : ByteStr) : (Buf.make size time bytes).1.length ≤ size := by
  unfold Buf.make
  split
  · rename_i hfit
    have hlen := Mbuf.unread_length (@Mbuf.copy_wf (Mbuf.create size time) bytes (Mbuf.create_wf hfit.2)
      (by simpa [Mbuf.create] using hfit.1))
    rw [Mbuf.create_copy_unread hfit.2 hfit.1] at hlen
    exact hlen ▸ hfit.1
  · have hlen : (Mbuf.create 0 time).length = 0 := Mbuf.length_eq (Mbuf.create_wf (by decide))
    show (Mbuf.create 0 time).length ≤ size
    rw [hlen]
    exact Nat.zero_le size

/-! ## Packets -/

theorem bindSession_retaining {msg : Connect} : retaining.Resp (bindSession env k msg) b := by
  unfold bindSession
  refine Frame.resp_get_bind ?_
  cases b.sess.registry.findClientContext msg.clientId with
  | none =>
      refine Frame.resp_bind clientContext_retaining fun _ _ _ => ?_
      exact Frame.resp_modify (retaining_of_same rfl rfl fun _ => rfl)
  | some c =>
      have hclose : retaining.Resp (closeLast (b.sess.ctxs c).mqttConnection) b := by
        unfold closeLast
        split
        · exact handleClose_retaining
        · exact Frame.resp_pure _
      refine Frame.resp_bind hclose fun _ _ _ => Frame.resp_bind touch_retaining fun _ _ _ => ?_
      exact Frame.resp_modify (retaining_of_same rfl rfl fun _ => rfl)

theorem openSession_retaining {msg : Connect} : retaining.Resp (openSession env k msg) b := by
  unfold openSession
  split
  · exact Frame.resp_pure _
  · refine Frame.resp_bind bindSession_retaining fun _ _ _ => Frame.resp_bind clientContext_retaining fun _ _ _ => ?_
    exact Frame.resp_modify (retaining_of_same rfl rfl fun _ => rfl)

theorem handlePubackMsg_retaining {buf : ByteStr} : retaining.Resp (handlePubackMsg env k buf) b := by
  unfold handlePubackMsg
  split
  · exact Frame.resp_pure _
  · refine Frame.resp_bind clientContext_retaining fun _ _ _ => Frame.resp_get_bind ?_
    refine Frame.resp_set_bind (retaining_of_same rfl rfl fun _ => rfl) ?_
    split
    · exact Frame.resp_pure _
    · refine Frame.resp_modify_bind (retaining_of_same rfl rfl fun _ => rfl) ?_
      exact Frame.resp_modify_bind (retaining_of_same rfl rfl fun _ => rfl) (Frame.resp_pure _)

theorem unsubscribeLoop_retaining (ts : List ByteStr) : ∀ b : Broker, retaining.Resp (unsubscribeLoop env k ts) b := by
  induction ts with
  | nil => exact fun _ => Frame.resp_pure _
  | cons t ts ih =>
      intro b
      unfold unsubscribeLoop
      refine Frame.resp_bind clientContext_retaining fun _ b₁ _ => Frame.resp_modify_bind ?_ (ih _)
      exact retaining_of_same rfl rfl fun t' => retainMsg_delClientContext b₁.sess.topicMgr t t' _

section Writing

variable (henv : env.Complete)
include henv

theorem put_retaining : retaining.Resp (put env k m) b := by
  unfold put
  refine Frame.resp_bind touch_retaining fun _ b₁ _ => Frame.resp_get_bind ?_
  refine Frame.resp_set_bind (fun hs => ?_) (Frame.resp_bind closeOnError_retaining fun _ _ _ => Frame.resp_pure _)
  exact retaining_of_same (henv.put hs _ m k _) rfl (fun _ => rfl) hs

theorem handleOutput_retaining : retaining.Resp (handleOutput env k) b := by
  unfold handleOutput
  refine Frame.resp_bind touch_retaining fun _ b₁ _ => Frame.resp_get_bind ?_
  refine Frame.resp_set_bind (fun hs => ?_) (Frame.resp_bind closeOnError_retaining fun _ _ _ => ?_)
  · exact retaining_of_same (henv.handleOutput hs _ k _) rfl (fun _ => rfl) hs
  · exact Frame.resp_bind touch_retaining fun _ _ _ => Frame.resp_pure _

theorem reply_retaining {size : Nat} {bytes : Option ByteStr} (hsize : size ≤ maxRwCount) :
    retaining.Resp (reply env k size bytes) b := by
  unfold reply
  refine Frame.resp_get_bind ?_
  have hnew : ∀ bytes, retaining.Resp (newBuf (Buf.make size b.now bytes)) b :=
    fun bytes => newBuf_retaining ((Buf.make_length_le _ _ _).trans hsize)
  cases bytes with
  | none => exact Frame.resp_bind (hnew _) fun _ _ _ => Frame.resp_pure _
  | some bytes => exact Frame.resp_bind (hnew _) fun _ _ _ => put_retaining henv

theorem addClientContext_retaining : retaining.Resp (addClientContext env t c) b := by
  have hkeep : ∀ t', (b.sess.subscribe t c).topicMgr.retainMsg t' = b.sess.topicMgr.retainMsg t' := by
    intro t'
    rw [Sess.subscribe_topicMgr]
    exact retainMsg_addClientContext _ _ _ _
  unfold addClientContext
  refine Frame.resp_get_bind ?_
  split
  · exact Frame.resp_set_bind (retaining_of_same rfl rfl hkeep) (put_retaining henv)
  · exact Frame.resp_set_bind (retaining_of_same rfl rfl hkeep) (Frame.resp_pure _)

theorem publishClient_retaining : retaining.Resp (publishClient env c m) b := by
  unfold publishClient
  refine Frame.resp_get_bind (Frame.resp_set_bind (retaining_of_same rfl rfl fun _ => rfl) ?_)
  split
  · exact Frame.resp_bind (put_retaining henv) fun _ _ _ => Frame.resp_modify (retaining_of_same rfl rfl fun _ => rfl)
  · exact Frame.resp_modify (retaining_of_same rfl rfl fun _ => rfl)

theorem publishLoop_retaining (cs : List CtxId) : ∀ b : Broker, retaining.Resp (publishLoop env t m cs) b := by
  induction cs with
  | nil => exact fun _ => Frame.resp_pure _
  | cons c cs ih =>
      intro b
      unfold publishLoop
      refine Frame.resp_get_bind ?_
      split
      · refine Frame.resp_bind (publishClient_retaining henv) fun _ b₁ _ => Frame.resp_get_bind ?_
        split
        · exact ih b₁
        · exact retaining_fault
      · exact ih b

theorem sendOffline_retaining (ms : List MbufId) :
    ∀ (res : Int) (b : Broker), retaining.Resp (sendOffline env k res ms) b := by
  induction ms with
  | nil => exact fun _ _ => Frame.resp_pure _
  | cons m ms ih =>
      intro res b
      unfold sendOffline
      refine Frame.resp_bind (put_retaining henv) fun r b₁ _ => ?_
      split
      · exact Frame.resp_pure _
      · exact ih r b₁

theorem subscribeLoop_retaining (ts : List ByteStr) : ∀ b : Broker, retaining.Resp (subscribeLoop env k ts) b := by
  induction ts with
  | nil => exact fun _ => Frame.resp_pure _
  | cons t ts ih =>
      intro b
      unfold subscribeLoop
      refine Frame.resp_bind clientContext_retaining fun _ _ _ => ?_
      exact Frame.resp_bind (addClientContext_retaining henv) fun _ b₁ _ => ih b₁

theorem handleConnectMsg_retaining {buf : ByteStr} : retaining.Resp (handleConnectMsg env k buf) b := by
  unfold handleConnectMsg
  split
  · exact Frame.resp_pure _
  · refine Frame.resp_bind openSession_retaining fun _ _ _ => ?_
    refine Frame.resp_bind (reply_retaining henv (by decide)) fun _ _ _ => ?_
    exact Frame.resp_bind clientContext_retaining fun _ _ _ => Frame.resp_get_bind (sendOffline_retaining henv _ _ _)

theorem handleSubscribeMsg_retaining {buf : ByteStr} : retaining.Resp (handleSubscribeMsg env k buf) b := by
  unfold handleSubscribeMsg
  refine Frame.resp_bind clientContext_retaining fun _ _ _ => Frame.resp_get_bind ?_
  split
  · exact Frame.resp_pure _
  · split
    · exact Frame.resp_pure _
    · refine Frame.resp_set_bind (retaining_of_same rfl rfl fun _ => rfl) ?_
      refine Frame.resp_bind (reply_retaining henv (by decide)) fun _ _ _ => ?_
      exact Frame.resp_bind (subscribeLoop_retaining henv _ _) fun _ _ _ => Frame.resp_pure _

theorem handleUnsubscribeMsg_retaining {buf : ByteStr} : retaining.Resp (handleUnsubscribeMsg env k buf) b := by
  unfold handleUnsubscribeMsg
  refine Frame.resp_bind clientContext_retaining fun _ _ _ => Frame.resp_get_bind ?_
  split
  · exact Frame.resp_pure _
  · split
    · exact Frame.resp_pure _
    · exact Frame.resp_bind (unsubscribeLoop_retaining _ _) fun _ _ _ => reply_retaining henv (by decide)

/-- Everything a connection can send but a PUBLISH. -/
theorem process_retaining {buf : ByteStr} (hne : packetType buf ≠ .publish) : retaining.Resp (process env k buf) b := by
  have hkeeping : ∀ {x : BrokerM Int}, retaining.Resp x b → retaining.Resp (keeping buf x) b :=
    fun h => Frame.resp_bind h fun _ _ _ => Frame.resp_pure _
  unfold process
  cases htype : packetType buf with
  | publish => exact absurd htype hne
  | connect => exact hkeeping (handleConnectMsg_retaining henv)
  | puback => exact hkeeping handlePubackMsg_retaining
  | subscribe => exact hkeeping (handleSubscribeMsg_retaining henv)
  | unsubscribe => exact hkeeping (handleUnsubscribeMsg_retaining henv)
  | pingreq => exact hkeeping (reply_retaining henv (by decide))
  | disconnect =>
      refine hkeeping (Frame.resp_bind ?_ fun _ _ _ => Frame.resp_pure _)
      unfold handleDisconnectMsg
      refine Frame.resp_bind clientContext_retaining fun _ _ _ => ?_
      refine Frame.resp_modify_bind (retaining_of_same rfl rfl fun _ => rfl) ?_
      exact Frame.resp_modify_bind (retaining_of_same rfl rfl fun _ => rfl) (Frame.resp_pure _)
  | _ => exact Frame.resp_pure _

end Writing

/-! ## Publishing -/

/-- A packet with the retain bit set. -/
def withRetain : ByteStr → ByteStr
  | [] => []
  | h :: rest => UInt8.ofNat (h.toNat / 2 * 2 + 1) :: rest

theorem retainCopy_unread (now : Nat) (buf : Buf) : (retainCopy now buf).unread = withRetain buf.unread := by
  have hsize : buf.unread.length < 2 ^ 32 := by
    rw [buf.length_unread]
    exact Nat.mod_lt _ (by decide)
  have hlen : (withRetain buf.unread).length = buf.unread.length := by
    cases buf.unread with
    | nil => rfl
    | cons h rest => rfl
  have hcopy : retainCopy now buf =
      (Buf.make buf.unread.length now (withRetain buf.unread)).tag buf.msgId .data false := by
    unfold retainCopy withRetain
    rfl
  rw [hcopy, Buf.tag_unread]
  exact Buf.make_unread (Nat.le_of_eq hlen) hsize

/-- No buffer is too long for a write, and what is retained has been allocated. -/
structure Broker.Settled (b : Broker) : Prop where
  short : b.Short
  allocated : ∀ t m, b.sess.topicMgr.retainMsg t = some m → m < b.nextBuf

theorem Retaining.settled (h : Retaining b b') (hs : b.Settled) : b'.Settled where
  short := h.short
  allocated t m hm := by
    rw [h.retain] at hm
    exact (hs.allocated t m hm).trans_le h.grown

theorem Retaining.retained (h : Retaining b b') (hs : b.Settled) (t : ByteStr) : b'.retained t = b.retained t := by
  unfold Broker.retained
  rw [h.retain]
  cases hm : b.sess.topicMgr.retainMsg t with
  | none => rfl
  | some m =>
      show some ((b'.bufs m).msgId, (b'.bufs m).unread) = some ((b.bufs m).msgId, (b.bufs m).unread)
      rw [h.bufs m (hs.allocated t m hm)]

/-- What a publish that sets the retain flag leaves in the slot of its topic. -/
def Broker.slot (b : Broker) (msg : Publish) : Option MbufId := if msg.payload.length > 0 then some b.nextBuf else none

/-- The retain part of `publish`. -/
theorem updateRetain_eq (t : ByteStr) (m : MbufId) (msg : Publish) (b : Broker) : updateRetain t m msg b =
    .ok ((), if msg.header.retainFlag then
      { b.withBuf (retainCopy b.now (b.bufs m)) with
        sess := { b.sess with topicMgr := b.sess.topicMgr.setRetainMsg t (b.slot msg) } }
      else b) := by
  unfold updateRetain
  rw [get_bind]
  split <;> rfl

theorem mem_ensure (mgr : TopicMgr) (t : ByteStr) : t ∈ mgr.ensure t := by
  unfold TopicMgr.ensure
  cases h : mgr.lookup t with
  | none => exact (AList.mem_insert _).mpr (Or.inl rfl)
  | some node => exact AList.lookup_isSome.mp (by rw [h]; rfl)

/-- **A publish** sets or clears the slot of its topic, whether the topic had a node or not. -/
theorem publishTopic_retains (henv : env.Complete) {msg : Publish} (hs : b.Short)
    (h : publishTopic env t m msg b = .ok ((), b')) : Kept b b' ∧
      (∀ t', b'.sess.topicMgr.retainMsg t' =
        if t' = t ∧ msg.header.retainFlag = true then b.slot msg else b.sess.topicMgr.retainMsg t') ∧
      (msg.header.retainFlag = true → b.nextBuf < b'.nextBuf ∧ b'.bufs b.nextBuf = retainCopy b.now (b.bufs m)) := by
  obtain ⟨b₁, hb₁, hret₁, hnext₁, hbufs₁⟩ : ∃ b₁ : Broker,
      b₁ = b.act { b.sess with topicMgr := b.sess.topicMgr.ensure t } (.publish t m (b.bufs m).msgId) ∧
      (∀ t', b₁.sess.topicMgr.retainMsg t' = b.sess.topicMgr.retainMsg t') ∧ b₁.nextBuf = b.nextBuf ∧ b₁.bufs = b.bufs :=
    ⟨_, rfl, fun t' => retainMsg_ensure _ _ _, rfl, rfl⟩
  have hin : t ∈ b₁.sess.topicMgr := hb₁ ▸ mem_ensure _ _
  have hnow : b₁.now = b.now := hb₁ ▸ rfl
  have hfirst : Kept b b₁ := (retaining_of_same hbufs₁ hnext₁ hret₁ hs).toKept
  unfold publishTopic at h
  rw [get_bind, set_bind, ← hb₁, bind_apply, updateRetain_eq] at h
  simp only at h
  -- behind the retain part only the fan-out is left
  have hrest : ∀ b₂ : Broker, (if (b.sess.topicMgr.lookup t).isNone then pure () else (do
      modify (·.startStat (b.bufs m).msgId)
      publishSet env t m
      modify (·.endStat (b.bufs m).msgId)) : BrokerM Unit) b₂ = .ok ((), b') → b₂.Short → Retaining b₂ b' := by
    intro b₂ hrun
    refine Frame.resp_ok (F := retaining) ?_ hrun
    split
    · exact Frame.resp_pure _
    · refine Frame.resp_modify_bind (retaining_of_same rfl rfl fun _ => rfl) ?_
      refine Frame.resp_bind (Frame.resp_get_bind (publishLoop_retaining henv _ _)) fun _ _ _ => ?_
      exact Frame.resp_modify (retaining_of_same rfl rfl fun _ => rfl)
  by_cases hflag : msg.header.retainFlag = true
  · rw [if_pos hflag] at h
    have hlen : (retainCopy b₁.now (b₁.bufs m)).1.length ≤ maxRwCount := by
      rw [← Buf.length_unread, retainCopy_unread_length, Buf.length_unread]
      exact hfirst.short m
    have hsecond : Kept b₁ (b₁.withBuf (retainCopy b₁.now (b₁.bufs m))) :=
      (retaining_withBuf hlen hfirst.short).toKept
    have hlast := hrest _ h hsecond.short
    have hkept : Kept b₁ b' := hsecond.trans ⟨hlast.short, hlast.grown, hlast.bufs⟩
    have hnew : b.nextBuf < b₁.nextBuf + 1 := hnext₁ ▸ Nat.lt_succ_self _
    refine ⟨hfirst.trans hkept, fun t' => ?_, fun _ => ⟨hnew.trans_le hlast.grown, ?_⟩⟩
    · have hslot := hlast.retain t'
      rw [retainMsg_setRetainMsg] at hslot
      have hsame : b₁.slot msg = b.slot msg := by
        unfold Broker.slot
        rw [hnext₁]
      rw [hslot, hret₁, hsame]
      by_cases ht : t' = t
      · rw [if_pos ⟨ht, hin⟩, if_pos ⟨ht, hflag⟩]
      · rw [if_neg fun hx => ht hx.1, if_neg fun hx => ht hx.1]
    · have hbuf := hlast.bufs b.nextBuf hnew
      rw [hbuf, hnow, hbufs₁, ← hnext₁]
      exact Function.update_self _ _ _
  · rw [if_neg hflag] at h
    have hlast := hrest _ h hfirst.short
    refine ⟨hfirst.trans hlast.toKept, fun t' => ?_, fun hx => absurd hx hflag⟩
    rw [hlast.retain, hret₁, if_neg fun hx => hflag hx.2]

/-! ## Runs -/

/-- A call of the subscriber manager, or what goes on around it: a connection is accepted, a message buffer is made, a
    packet that is not a PUBLISH is handled (CONNECT, SUBSCRIBE, UNSUBSCRIBE and the others), a connection can be written,
    or is closed. A PUBLISH packet is a new message and a `publish`. -/
inductive TopicOp where
  | accept
  | message (buf : Buf)
  | publish (t : ByteStr) (m : MbufId) (msg : Publish)
  | packet (k : ConnId) (pkt : ByteStr)
  | output (k : ConnId)
  | close (k : ConnId) (cause : Cause)

namespace TopicOp

/-- Carry it out. -/
def perform (env : Env) : TopicOp → BrokerM Unit
  | .accept => handleAccept env
  | .message buf => do
      let _ ← newBuf buf
      pure ()
  | .publish t m msg => publishTopic env t m msg
  | .packet k pkt => do
      let _ ← process env k pkt
      pure ()
  | .output k => do
      let _ ← handleOutput env k
      pure ()
  | .close k cause => handleClose k cause

/-- A message has been made before it is published, and fits one write. -/
def Valid (b : Broker) : TopicOp → Prop
  | .message buf => buf.1.length ≤ maxRwCount
  | .publish _ m _ => m < b.nextBuf
  | .packet _ pkt => packetType pkt ≠ .publish
  | .accept | .output _ | .close _ _ => True

instance (b : Broker) : (op : TopicOp) → Decidable (op.Valid b)
  | .message _ => inferInstanceAs (Decidable (_ ≤ _))
  | .publish _ _ _ => inferInstanceAs (Decidable (_ < _))
  | .packet _ _ => inferInstanceAs (Decidable (_ ≠ _))
  | .accept | .output _ | .close _ _ => inferInstanceAs (Decidable True)

/-- The message that is published to the topic with the retain flag, and whether it has a payload. -/
def retains (t : ByteStr) : TopicOp → Option (MbufId × Bool)
  | .publish t' m msg => if t = t' ∧ msg.header.retainFlag = true then some (m, decide (msg.payload.length > 0)) else none
  | _ => none

end TopicOp

/-- A sequence of calls. -/
inductive TopicRun (env : Env) : Broker → List TopicOp → Broker → Prop where
  | nil {b : Broker} : TopicRun env b [] b
  | cons {b b₁ b' : Broker} {op : TopicOp} {ops : List TopicOp} (hv : op.Valid b) (h : op.perform env b = .ok ((), b₁))
      (hrest : TopicRun env b₁ ops b') : TopicRun env b (op :: ops) b'

/-- Carry out a sequence. -/
def TopicOp.performAll (env : Env) : List TopicOp → Broker → Option Broker
  | [], b => some b
  | op :: ops, b => if op.Valid b then (op.perform env b).toOption.bind fun r => performAll env ops r.2 else none

theorem TopicRun.of_performAll (ops : List TopicOp) : ∀ b : Broker, TopicOp.performAll env ops b = some b' →
    TopicRun env b ops b' := by
  induction ops with
  | nil =>
      intro b h
      cases h
      exact .nil
  | cons op ops ih =>
      intro b h
      unfold TopicOp.performAll at h
      by_cases hv : op.Valid b
      · rw [if_pos hv] at h
        obtain ⟨⟨_, b₁⟩, hop, hrest⟩ := Option.bind_eq_some_iff.mp h
        exact .cons hv (ok_of_toOption hop) (ih b₁ hrest)
      · rw [if_neg hv] at h
        cases h

/-- The last retain-flagged publish to the topic. -/
def lastRetain (t : ByteStr) : List TopicOp → Option (MbufId × Bool)
  | [] => none
  | op :: ops => (lastRetain t ops).or (op.retains t)

/-- What is to be retained for a topic: the packet of the last publish with the retain bit set, or nothing when it had no
    payload; and what was retained before, when there was none. -/
def Broker.retainedAfter (b b' : Broker) (t : ByteStr) : Option (MbufId × Bool) → Option (Nat × ByteStr)
  | none => b.retained t
  | some (m, true) => some ((b'.bufs m).msgId, withRetain (b'.bufs m).unread)
  | some (_, false) => none

/-- **One call.** -/
theorem TopicOp.step (henv : env.Complete) {op : TopicOp} (hs : b.Settled) (hv : op.Valid b)
    (h : op.perform env b = .ok ((), b₁)) : b₁.Settled ∧ Kept b b₁ ∧
      (∀ t, b₁.retained t = b.retainedAfter b₁ t (op.retains t)) ∧
      ∀ t x, op.retains t = some x → x.1 < b.nextBuf := by
  -- only a publish can replace a retained message
  have hquiet : (∀ t, op.retains t = none) → retaining.Resp (op.perform env) b → b₁.Settled ∧ Kept b b₁ ∧
      (∀ t, b₁.retained t = b.retainedAfter b₁ t (op.retains t)) ∧ ∀ t x, op.retains t = some x → x.1 < b.nextBuf := by
    intro hnone hresp
    have hret : Retaining b b₁ := Frame.resp_ok hresp h hs.short
    refine ⟨hret.settled hs, hret.toKept, fun t => ?_, fun t x hx => ?_⟩
    · rw [hnone t]
      exact hret.retained hs t
    · rw [hnone t] at hx
      cases hx
  cases op with
  | accept => exact hquiet (fun _ => rfl) (Frame.resp_modify (retaining_of_same rfl rfl fun _ => rfl))
  | message buf =>
      exact hquiet (fun _ => rfl) (Frame.resp_bind (newBuf_retaining hv) fun _ _ _ => Frame.resp_pure _)
  | packet k pkt =>
      exact hquiet (fun _ => rfl) (Frame.resp_bind (process_retaining henv hv) fun _ _ _ => Frame.resp_pure _)
  | output k =>
      exact hquiet (fun _ => rfl) (Frame.resp_bind (handleOutput_retaining henv) fun _ _ _ => Frame.resp_pure _)
  | close k cause => exact hquiet (fun _ => rfl) handleClose_retaining
  | publish t m msg =>
      have hm : m < b.nextBuf := hv
      have hretains : ∀ t', TopicOp.retains t' (.publish t m msg) =
          if t' = t ∧ msg.header.retainFlag = true then some (m, decide (msg.payload.length > 0)) else none := fun _ => rfl
      obtain ⟨hkept, hslots, hcopy⟩ := publishTopic_retains henv hs.short h
      have hother : ∀ t', ¬ (t' = t ∧ msg.header.retainFlag = true) →
          b₁.sess.topicMgr.retainMsg t' = b.sess.topicMgr.retainMsg t' := fun t' ht => by rw [hslots, if_neg ht]
      refine ⟨⟨hkept.short, fun t' m' hm' => ?_⟩, hkept, fun t' => ?_, fun t' x hx => ?_⟩
      · by_cases ht : t' = t ∧ msg.header.retainFlag = true
        · rw [hslots, if_pos ht] at hm'
          unfold Broker.slot at hm'
          split at hm'
          · cases hm'
            exact (hcopy ht.2).1
          · cases hm'
        · rw [hother t' ht] at hm'
          exact (hs.allocated t' m' hm').trans_le hkept.grown
      · rw [hretains]
        by_cases ht : t' = t ∧ msg.header.retainFlag = true
        · rw [if_pos ht]
          unfold Broker.retained
          rw [hslots, if_pos ht]
          unfold Broker.slot
          by_cases hpay : msg.payload.length > 0
          · rw [if_pos hpay, decide_eq_true hpay]
            show some ((b₁.bufs b.nextBuf).msgId, (b₁.bufs b.nextBuf).unread) =
              some ((b₁.bufs m).msgId, withRetain (b₁.bufs m).unread)
            rw [(hcopy ht.2).2, retainCopy_unread, hkept.bufs m hm]
            rfl
          · -- an empty payload takes the retained message away
            rw [if_neg hpay, decide_eq_false hpay]
            rfl
        · rw [if_neg ht]
          show b₁.retained t' = b.retained t'
          unfold Broker.retained
          rw [hother t' ht]
          cases hr : b.sess.topicMgr.retainMsg t' with
          | none => rfl
          | some m' =>
              show some ((b₁.bufs m').msgId, (b₁.bufs m').unread) = some ((b.bufs m').msgId, (b.bufs m').unread)
              rw [hkept.bufs m' (hs.allocated t' m' hr)]
      · rw [hretains] at hx
        split at hx
        · cases hx
          exact hm
        · cases hx

/-- **Every run** leaves for each topic what its last retain-flagged publish says. -/
theorem TopicRun.retained {ops : List TopicOp} (henv : env.Complete) (h : TopicRun env b ops b') (hs : b.Settled) :
    b'.Settled ∧ Kept b b' ∧ ∀ t, b'.retained t = b.retainedAfter b' t (lastRetain t ops) := by
  induction h with
  | nil => exact ⟨hs, .refl hs.short, fun t => rfl⟩
  | @cons b b₁ b' op ops hv h hrest ih =>
      obtain ⟨hs₁, hkept, hstep, hold⟩ := TopicOp.step henv hs hv h
      obtain ⟨hs', hkept', hlater⟩ := ih hs₁
      refine ⟨hs', hkept.trans hkept', fun t => ?_⟩
      rw [hlater t]
      show b₁.retainedAfter b' t (lastRetain t ops) = b.retainedAfter b' t ((lastRetain t ops).or (op.retains t))
      cases hlast : lastRetain t ops with
      | some x =>
          obtain ⟨m, full⟩ := x
          cases full with
          | true => rfl
          | false => rfl
      | none =>
          -- nothing later, so it is this call that counts
          rw [Option.none_or]
          show b₁.retained t = _
          rw [hstep t]
          cases hop : op.retains t with
          | none => rfl
          | some x =>
              obtain ⟨m, full⟩ := x
              cases full with
              | false => rfl
              | true =>
                  have hm : m < b₁.nextBuf := (hold t _ hop).trans_le hkept.grown
                  show some ((b₁.bufs m).msgId, withRetain (b₁.bufs m).unread) =
                    some ((b'.bufs m).msgId, withRetain (b'.bufs m).unread)
                  rw [hkept'.bufs m hm]

/-! ## What a SUBSCRIBE delivers -/

/-- The messages put so far, in order. -/
def Broker.putLog (b : Broker) : List (ConnId × MbufId) := b.log.filterMap Act.put?

/-- A connected client on its connection. -/
structure Broker.Online (b : Broker) (k : ConnId) (c : CtxId) : Prop where
  context : b.sess.contextOf k = some c
  owner : (b.sess.ctxs c).mqttConnection = some k
  status : (b.sess.ctxs c).clientStatus = .connected

/-- The SUBSCRIBE returns. For each topic it lists that has a retained packet, in order, a message with that packet is
    appended to the pending queue of the client, and is put once, behind the SUBACK. -/
def Delivers (env : Env) (b : Broker) (k : ConnId) (c : CtxId) (pkt : ByteStr) (msg : Subscribe) : Prop :=
  ∃ res b' ms, handleSubscribeMsg env k pkt b = .ok (res, b') ∧
    (ms.map fun m => ((b'.bufs m).msgId, (b'.bufs m).unread)) = msg.topicsName.filterMap b.retained ∧
    (b'.sess.ctxs c).sendMsgQueue = (b.sess.ctxs c).sendMsgQueue ++ ms ∧
    b'.putLog = b.putLog ++ ((encodeSubAck 64 msg.msgId msg.topicsQos).toList.map fun _ => (k, b.nextBuf)) ++ ms.map fun m => (k, m)

theorem putLog_append (ls : List Act) (h : b'.log = b.log ++ ls) : b'.putLog = b.putLog ++ ls.filterMap Act.put? := by
  unfold Broker.putLog
  rw [h, List.filterMap_append]

/-- A complete `put` on a live connection. -/
theorem put_complete (henv : env.Complete) (ha : b.sess.Alive k) (m : MbufId) :
    ∃ r b₁, put env k m b = .ok (r, b₁) ∧ b₁.sess = b.sess ∧ b₁.putLog = b.putLog ++ [(k, m)] :=
  ⟨_, _, put_takes ha (henv.takes b k), rfl, putLog_append [.put k m _] rfl⟩

/-- One topic. -/
theorem addClientContext_delivers (henv : env.Complete) (ha : b.sess.Alive k) (hown : (b.sess.ctxs c).mqttConnection = some k)
    (t : ByteStr) : ∃ r b₁, addClientContext env t c b = .ok (r, b₁) ∧ b₁.sess = b.sess.subscribe t c ∧
      (b₁.sess.ctxs c).sendMsgQueue = (b.sess.ctxs c).sendMsgQueue ++ b.retainedFor [t] ∧
      b₁.putLog = b.putLog ++ (b.retainedFor [t]).map fun m => (k, m) := by
  unfold addClientContext
  rw [get_bind, hown]
  cases hret : b.sess.topicMgr.retainMsg t with
  | none =>
      have hnone : b.retainedFor [t] = [] := List.filterMap_cons_none hret
      have hsess : b.sess.subscribe t c = { b.sess with topicMgr := b.sess.topicMgr.addClientContext t c } := by
        unfold Sess.subscribe
        rw [hret]
      rw [hnone]
      refine ⟨0, { b with sess := b.sess.subscribe t c }, rfl, rfl, ?_, (List.append_nil _).symm⟩
      show ((b.sess.subscribe t c).ctxs c).sendMsgQueue = _
      rw [hsess, List.append_nil]
  | some m =>
      have hsome : b.retainedFor [t] = [m] := List.filterMap_cons_some hret
      have hsess : b.sess.subscribe t c =
          { b.sess with topicMgr := b.sess.topicMgr.addClientContext t c }.modifyContext c (·.addSendMsg m) := by
        unfold Sess.subscribe
        rw [hret, hown]
      obtain ⟨r, b₁, hput, hs, hlog⟩ := put_complete henv
        (b := b.act (b.sess.subscribe t c) (.retained c t m (b.bufs m).msgId)) (alive_subscribe.mpr ha) m
      have hstart : (b.act (b.sess.subscribe t c) (.retained c t m (b.bufs m).msgId)).putLog = b.putLog :=
        (putLog_append [.retained c t m _] rfl).trans (List.append_nil _)
      rw [hsome]
      refine ⟨r, b₁, hput, hs, ?_, ?_⟩
      · show (b₁.sess.ctxs c).sendMsgQueue = _
        rw [hs]
        show ((b.sess.subscribe t c).ctxs c).sendMsgQueue = _
        rw [hsess, Sess.modifyContext_ctxs, if_pos rfl]
        rfl
      · rw [hlog, hstart]
        rfl

/-- **The topic loop.** -/
theorem subscribeLoop_delivers (henv : env.Complete) (ts : List ByteStr) : ∀ b : Broker, b.sess.contextOf k = some c →
    (b.sess.ctxs c).mqttConnection = some k → ∃ b', subscribeLoop env k ts b = .ok ((), b') ∧
      (b'.sess.ctxs c).sendMsgQueue = (b.sess.ctxs c).sendMsgQueue ++ b.retainedFor ts ∧
      b'.putLog = b.putLog ++ (b.retainedFor ts).map fun m => (k, m) := by
  induction ts with
  | nil => exact fun b _ _ => ⟨b, rfl, (List.append_nil _).symm, (List.append_nil _).symm⟩
  | cons t ts ih =>
      intro b hc hown
      obtain ⟨r, b₁, hrun, hs, hqueue, hlog⟩ :=
        addClientContext_delivers henv (Sess.alive_of_contextOf hc) hown t
      have hc₁ : b₁.sess.contextOf k = some c := by
        rw [hs, Sess.subscribe_contextOf]
        exact hc
      have hown₁ : (b₁.sess.ctxs c).mqttConnection = some k := by
        obtain ⟨q, hq⟩ := b.sess.subscribe_ctxs t c c
        rw [hs, hq]
        exact hown
      obtain ⟨b', hloop, hqueue', hlog'⟩ := ih b₁ hc₁ hown₁
      have hsplit : b.retainedFor (t :: ts) = b.retainedFor [t] ++ b.retainedFor ts := List.filterMap_append (l := [t])
      refine ⟨b', ?_, ?_, ?_⟩
      · rw [subscribeLoop, bind_apply, clientContext_some hc]
        simp only
        rw [bind_apply, hrun]
        exact hloop
      · rw [hqueue', hqueue, retainedFor_subscribe ts hs, hsplit, List.append_assoc]
      · rw [hlog', hlog, retainedFor_subscribe ts hs, hsplit, List.map_append, List.append_assoc]

/-- The SUBACK, or nothing when it does not fit its buffer. -/
theorem reply_delivers (henv : env.Complete) (ha : b.sess.Alive k) (size : Nat) (bytes : Option ByteStr) :
    ∃ r b₁, reply env k size bytes b = .ok (r, b₁) ∧ b₁.sess = b.sess ∧
      b₁.putLog = b.putLog ++ bytes.toList.map fun _ => (k, b.nextBuf) := by
  cases bytes with
  | none => exact ⟨_, _, rfl, rfl, (List.append_nil _).symm⟩
  | some bytes => exact put_complete henv (b := b.withBuf (Buf.make size b.now bytes)) ha b.nextBuf

/-- **A SUBSCRIBE of an online client** delivers what is retained. -/
theorem handleSubscribeMsg_delivers (henv : env.Complete) (hs : b.Settled) {pkt : ByteStr} {msg : Subscribe}
    (hon : b.Online k c) (hd : Subscribe.decode.decode pkt = some msg) : Delivers env b k c pkt msg := by
  obtain ⟨b₀, hb₀, hsess₀, hret₀, hnext₀, hlog₀⟩ : ∃ b₀ : Broker,
      b₀ = b.act (b.sess.modifyContext c (·.addSubcribeTopics msg.subTopics)) (.subscribe k c msg.subTopics) ∧
      b₀.sess = b.sess.modifyContext c (·.addSubcribeTopics msg.subTopics) ∧
      (∀ ts, b₀.retainedFor ts = b.retainedFor ts) ∧ b₀.nextBuf = b.nextBuf ∧ b₀.putLog = b.putLog :=
    ⟨_, rfl, rfl, fun _ => rfl, rfl, (putLog_append [.subscribe k c msg.subTopics] rfl).trans (List.append_nil _)⟩
  have hctx₀ : b₀.sess.ctxs c = (b.sess.ctxs c).addSubcribeTopics msg.subTopics := by
    rw [hsess₀, Sess.modifyContext_ctxs, if_pos rfl]
  have hc₀ : b₀.sess.contextOf k = some c := by
    rw [hsess₀]
    exact hon.context
  obtain ⟨res, b₁, hreply, hsess₁, hlog₁⟩ := reply_delivers henv (Sess.alive_of_contextOf hc₀) 64
    (encodeSubAck 64 msg.msgId msg.topicsQos)
  have hret₁ : b₁.retainedFor msg.topicsName = b.retainedFor msg.topicsName := by
    rw [← hret₀]
    unfold Broker.retainedFor
    rw [hsess₁]
  obtain ⟨b', hloop, hqueue, hlog⟩ := subscribeLoop_delivers henv msg.topicsName b₁ (by rw [hsess₁]; exact hc₀)
    (by rw [hsess₁, hctx₀]; exact hon.owner)
  have hrun : handleSubscribeMsg env k pkt b = .ok (res, b') := by
    unfold handleSubscribeMsg
    rw [bind_apply, clientContext_some hon.context]
    simp only
    rw [get_bind, if_neg (not_not.mpr hon.status), hd]
    simp only
    rw [set_bind, ← hb₀, bind_apply, hreply]
    simp only
    rw [bind_apply, hloop]
    rfl
  have hkept : Retaining b b' := Frame.resp_ok (handleSubscribeMsg_retaining henv) hrun hs.short
  refine ⟨res, b', b.retainedFor msg.topicsName, hrun, ?_, ?_, ?_⟩
  · unfold Broker.retainedFor
    rw [List.map_filterMap]
    refine List.filterMap_congr fun t _ => ?_
    exact hkept.retained hs t ▸ (by unfold Broker.retained; rw [hkept.retain])
  · rw [hqueue, hret₁, hsess₁, hctx₀]
    rfl
  · rw [hlog, hlog₁, hlog₀, hret₁, hnext₀]

/-- **Retained messages.** Whatever is called, in whatever order: as long as every write is complete, what is retained for a
    topic is the packet of the last publish to it with the retain flag if that had a payload, and nothing otherwise; and a
    SUBSCRIBE of an online client delivers it. -/
theorem retained_runs {ops : List TopicOp} (henv : env.Complete) (hs : b.Settled) (h : TopicRun env b ops b') :
    (∀ t, b'.retained t = b.retainedAfter b' t (lastRetain t ops)) ∧
      ∀ k c pkt msg, b'.Online k c → Subscribe.decode.decode pkt = some msg → Delivers env b' k c pkt msg := by
  obtain ⟨hs', -, hret⟩ := h.retained henv hs
  exact ⟨hret, fun k c pkt msg hon hd => handleSubscribeMsg_delivers henv hs' hon hd⟩

/-- Sockets that take everything. -/
def Env.prompt : Env := { Env.calm with write := fun _ _ => { errnoBefore := .none, out := .wrote maxRwCount } }

/-- A broker that has just been started. -/
theorem settled_initial : ({} : Broker).Settled where
  short _ := (Buf.make_length_le 0 0 []).trans (Nat.zero_le _)
  allocated _ _ h := by cases h

/-- A message is published with the retain flag before its topic has a node, and delivered to a later subscriber. -/
theorem retained_first : ∃ b' msg, Subscribe.decode.decode (subscribePacket 116) = some msg ∧
    b'.retained [116] = some (7, [0x33, 6, 0, 1, 116, 0, 7, 9]) ∧
    Delivers Env.prompt b' 0 (.conn 0) (subscribePacket 116) msg := by
  obtain ⟨msg, hmsg⟩ : ∃ msg : Publish, msg = { header := { msgType := .publish, qos := 1, retainFlag := true }
                                                topicName := [116], msgId := 7, msgIdOffset := 5, payload := [9] } := ⟨_, rfl⟩
  obtain ⟨ops, hops⟩ : ∃ ops : List TopicOp, ops = [.accept, .packet 0 (connectPacket 65 0),
      .message ((Buf.make 8 0 [0x33, 6, 0, 1, 116, 0, 7, 9]).tag 7 .data true), .publish [116] 1 msg] := ⟨_, rfl⟩
  have hrun : (TopicOp.performAll Env.prompt ops {}).any (fun b' => decide (b'.sess.contextOf 0 = some (.conn 0) ∧
      (b'.sess.ctxs (.conn 0)).mqttConnection = some 0 ∧ (b'.sess.ctxs (.conn 0)).clientStatus = .connected ∧
      ({} : Broker).retainedAfter b' [116] (lastRetain [116] ops) = some (7, [0x33, 6, 0, 1, 116, 0, 7, 9]))) = true := by
    rw [hops, hmsg]
    decide +kernel
  have hd : Subscribe.decode.decode (subscribePacket 116) =
      some { msgId := 1, subTopics := [{ topicName := [116], qos := 0 }] } := by decide +kernel
  obtain ⟨b', hb', hfacts⟩ := (Option.any_eq_true _ _).mp hrun
  obtain ⟨hctx, hown, hst, hlast⟩ := of_decide_eq_true hfacts
  have hprompt : Env.prompt.Complete := fun _ _ => ⟨maxRwCount, Nat.le_refl _, rfl⟩
  obtain ⟨hret, hdel⟩ := retained_runs hprompt settled_initial (TopicRun.of_performAll ops _ hb')
  exact ⟨b', _, hd, (hret [116]).trans hlast, hdel 0 (.conn 0) _ _ ⟨hctx, hown, hst⟩ hd⟩

end MqttServer
