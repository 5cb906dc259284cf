import MqttServer.Correctness.Notify
import MqttServer.Correctness.PublishId

/-!
# `Correctness.Resting` — steps that queue nothing

Most of what the broker does leaves the messages alone: it closes, writes, acknowledges, takes over, stores. Messages may leave
a pending queue, in order; none is added, none is retained, no identifier is given out, and what is put on a connection is no
PUBLISH or carries its identifier (`Resting`). What is left are the three ways a message gets onto a pending queue.
-/

namespace MqttServer

open Lib Exec

variable {env : Env} {mp : MsgPack} {b b' b₁ : Broker} {k : ConnId} {c : CtxId} {m : MbufId} {t : ByteStr}

/-! ## Messages stay what they are -/

/-- The buffers hold the same messages, however much of them was read. -/
def SameBufs (bufs bufs' : Bufs) : Prop := ∀ m, (bufs' m).packet = (bufs m).packet ∧ (bufs' m).msgId = (bufs m).msgId

namespace EventHandler

variable {bufs : Bufs} {h : EventHandler} {w : WriteCall}

theorem send_same (x : Buf) (w : WriteCall) : (send x w).buf.packet = x.packet ∧ (send x w).buf.msgId = x.msgId := by
  unfold send
  dsimp only
  split
  · split <;> exact ⟨rfl, rfl⟩
  · split
    · exact ⟨rfl, rfl⟩
    · split
      · refine ⟨?_, Buf.skip_msgId x _ (w.taken_le x.1.length)⟩
        show ((x.1.readPtr (w.taken x.1.length)).data).take (x.1.readPtr (w.taken x.1.length)).writePos = _
        rw [Mbuf.readPtr_eq x.2 (w.taken_le x.1.length)]
        rfl
      · exact ⟨rfl, rfl⟩

theorem nonblkSend_same : SameBufs bufs (nonblkSend bufs h m w).bufs := by
  have hsame : SameBufs bufs (Function.update bufs m (send (bufs m) w).buf) := by
    intro m'
    by_cases he : m' = m
    · subst he
      rw [Function.update_self]
      exact send_same _ _
    · rw [Function.update_of_ne he]
      exact ⟨rfl, rfl⟩
  unfold nonblkSend
  dsimp only
  split
  · exact hsame
  · split <;> exact hsame

theorem put_same : SameBufs bufs (h.put bufs m w).bufs := by
  unfold put
  split
  · exact nonblkSend_same
  · split <;> exact fun _ => ⟨rfl, rfl⟩

theorem handleOutput_same : SameBufs bufs (h.handleOutput bufs w).bufs := by
  unfold handleOutput
  split
  · exact fun _ => ⟨rfl, rfl⟩
  · exact nonblkSend_same

end EventHandler

/-- The buffers that exist keep their messages. -/
structure SameMessages (b b' : Broker) : Prop where
  grown : b.nextBuf ≤ b'.nextBuf
  packet : ∀ m < b.nextBuf, (b'.bufs m).packet = (b.bufs m).packet
  msgId : ∀ m < b.nextBuf, (b'.bufs m).msgId = (b.bufs m).msgId

namespace SameMessages

theorem refl (b : Broker) : SameMessages b b := ⟨Nat.le_refl _, fun _ _ => rfl, fun _ _ => rfl⟩

theorem trans (h : SameMessages b b₁) (h' : SameMessages b₁ b') : SameMessages b b' where
  grown := h.grown.trans h'.grown
  packet m hm := (h'.packet m (hm.trans_le h.grown)).trans (h.packet m hm)
  msgId m hm := (h'.msgId m (hm.trans_le h.grown)).trans (h.msgId m hm)

theorem of_same (hn : b'.nextBuf = b.nextBuf) (hbufs : SameBufs b.bufs b'.bufs) : SameMessages b b' :=
  ⟨Nat.le_of_eq hn.symm, fun m _ => (hbufs m).1, fun m _ => (hbufs m).2⟩

theorem of_new {x : Buf} (hn : b'.nextBuf = b.nextBuf + 1) (hbufs : b'.bufs = Function.update b.bufs b.nextBuf x) :
    SameMessages b b' := by
  have hother : ∀ m < b.nextBuf, b'.bufs m = b.bufs m := by
    intro m hm
    rw [hbufs, Function.update_of_ne (Nat.ne_of_lt hm)]
  refine ⟨?_, fun m hm => ?_, fun m hm => ?_⟩
  · rw [hn]
    exact Nat.le_succ _
  · rw [hother m hm]
  · rw [hother m hm]

theorem packetId (h : SameMessages b b') (hm : m < b.nextBuf) : (b'.bufs m).packetId = (b.bufs m).packetId := by
  unfold Buf.packetId
  rw [h.msgId m hm]

theorem carries (h : SameMessages b b') (hm : m < b.nextBuf) (hc : (b.bufs m).Carries) : (b'.bufs m).Carries := by
  unfold Buf.Carries at hc ⊢
  rwa [h.packet m hm, h.packetId hm]

end SameMessages

/-- A buffer that may be put on a connection: if it is a PUBLISH, it carries its identifier. -/
def Sendable (b : Broker) (m : MbufId) : Prop :=
  m < b.nextBuf ∧ (packetType (b.bufs m).packet = .publish → (b.bufs m).Carries)

theorem Sendable.mono (h : Sendable b m) (hs : SameMessages b b') : Sendable b' m := by
  refine ⟨h.1.trans_le hs.grown, fun htype => hs.carries h.1 (h.2 ?_)⟩
  rwa [← hs.packet m h.1]

/-! ## Steps that queue nothing -/

/-- No message is queued, retained or taken from the notify queue, no identifier is given out, and what is put is
    sendable. -/
structure Resting (b b' : Broker) : Prop extends SameMessages b b' where
  queue : ∀ c, List.Sublist (b'.sess.ctxs c).sendMsgQueue (b.sess.ctxs c).sendMsgQueue
  retain : ∀ t, b'.sess.topicMgr.retainMsg t = b.sess.topicMgr.retainMsg t
  waiting : b'.notifyDeque = b.notifyDeque
  issued : b'.store.lastMsgId = b.store.lastMsgId
  puts : ∀ k m r, .put k m r ∈ b'.log → .put k m r ∈ b.log ∨ Sendable b' m

theorem Resting.refl (b : Broker) : Resting b b where
  toSameMessages := .refl b
  queue _ := List.Sublist.refl _
  retain _ := rfl
  waiting := rfl
  issued := rfl
  puts _ _ _ h := Or.inl h

theorem Resting.trans (h : Resting b b₁) (h' : Resting b₁ b') : Resting b b' where
  toSameMessages := h.toSameMessages.trans h'.toSameMessages
  queue c := (h'.queue c).trans (h.queue c)
  retain t := (h'.retain t).trans (h.retain t)
  waiting := h'.waiting.trans h.waiting
  issued := h'.issued.trans h.issued
  puts k m r hm := by
    rcases h'.puts k m r hm with hm | hm
    · exact (h.puts k m r hm).imp_right fun hs => hs.mono h'.toSameMessages
    · exact Or.inr hm

/-- The frame of these steps. -/
def resting : Frame Broker Fault where
  rel := Resting
  flt _ _ := True
  refl := Resting.refl
  trans := Resting.trans
  extend _ _ := trivial

theorem resting_fault {α : Type} {f : Fault} : resting.Resp (fault f : BrokerM α) b := trivial

/-- The trace without the puts. -/
def Act.noPut (a : Act) : Prop := ∀ k m r, a ≠ .put k m r

/-- A change of tables, trace and clocks. -/
theorem resting_of_tables (ls : List Act) (hbufs : b'.bufs = b.bufs) (hn : b'.nextBuf = b.nextBuf)
    (hq : ∀ c, List.Sublist (b'.sess.ctxs c).sendMsgQueue (b.sess.ctxs c).sendMsgQueue)
    (hr : ∀ t, b'.sess.topicMgr.retainMsg t = b.sess.topicMgr.retainMsg t) (hw : b'.notifyDeque = b.notifyDeque)
    (hi : b'.store.lastMsgId = b.store.lastMsgId) (hlog : b'.log = b.log ++ ls) (hls : ∀ a ∈ ls, a.noPut) : Resting b b' where
  toSameMessages := .of_same hn fun m => by
    rw [hbufs]
    exact ⟨rfl, rfl⟩
  queue := hq
  retain := hr
  waiting := hw
  issued := hi
  puts k m r hm := by
    rw [hlog] at hm
    rcases List.mem_append.mp hm with hm | hm
    · exact Or.inl hm
    · exact absurd rfl (hls _ hm k m r)

/-- Nothing of all this changes. -/
theorem resting_of_same (hbufs : b'.bufs = b.bufs) (hn : b'.nextBuf = b.nextBuf) (hs : b'.sess = b.sess)
    (hw : b'.notifyDeque = b.notifyDeque) (hi : b'.store.lastMsgId = b.store.lastMsgId) (hlog : b'.log = b.log) : Resting b b' := by
  refine resting_of_tables [] hbufs hn (fun c => ?_) (fun t => ?_) hw hi ?_ fun _ h => absurd h List.not_mem_nil
  · rw [hs]
  · rw [hs]
  · rw [hlog, List.append_nil]

/-- A change of the tables with a label. -/
theorem resting_act {sess : Sess} {a : Act} (ha : a.noPut)
    (hq : ∀ c, List.Sublist (sess.ctxs c).sendMsgQueue (b.sess.ctxs c).sendMsgQueue)
    (hr : ∀ t, sess.topicMgr.retainMsg t = b.sess.topicMgr.retainMsg t) : Resting b (b.act sess a) :=
  resting_of_tables [a] rfl rfl hq hr rfl rfl rfl fun _ h => List.mem_singleton.mp h ▸ ha

theorem resting_newBuf {x : Buf} : Resting b (b.withBuf x) where
  toSameMessages := .of_new rfl rfl
  queue _ := List.Sublist.refl _
  retain _ := rfl
  waiting := rfl
  issued := rfl
  puts _ _ _ h := Or.inl h

/-- A `put`, however it ends. -/
theorem resting_put {bufs : Bufs} {handlers : ConnId → EventHandler} {nwrites : ConnId → Nat} {r : Int} (hm : Sendable b m)
    (hsame : SameBufs b.bufs bufs) : Resting b { b with bufs, handlers, nwrites, log := b.log ++ [.put k m r] } := by
  have hmsgs : SameMessages b { b with bufs, handlers, nwrites, log := b.log ++ [.put k m r] } := .of_same rfl hsame
  refine { toSameMessages := hmsgs, queue := fun _ => List.Sublist.refl _, retain := fun _ => rfl, waiting := rfl
           issued := rfl, puts := fun k' m' r' hm' => ?_ }
  rcases List.mem_append.mp hm' with hm' | hm'
  · exact Or.inl hm'
  · cases List.mem_singleton.mp hm'
    exact Or.inr (hm.mono hmsgs)

theorem queue_modifyContext {s : Sess} {f : ClientContext → ClientContext}
    (hf : List.Sublist (f (s.ctxs c)).sendMsgQueue (s.ctxs c).sendMsgQueue) (c' : CtxId) :
    List.Sublist ((s.modifyContext c f).ctxs c').sendMsgQueue (s.ctxs c').sendMsgQueue := by
  rw [Sess.modifyContext_ctxs]
  by_cases he : c' = c
  · subst he
    rw [if_pos rfl]
    exact hf
  · rw [if_neg he]

theorem touch_resting : resting.Resp (touch k) b := by
  unfold touch
  refine Frame.resp_get_bind ?_
  split
  · exact Frame.resp_pure _
  · exact resting_fault

theorem handleClose_resting {cause : Cause} : resting.Resp (handleClose k cause) b := by
  unfold handleClose
  refine Frame.resp_bind touch_resting fun _ b₁ _ => ?_
  refine Frame.resp_modify_bind (resting_of_same rfl rfl rfl rfl rfl rfl) (Frame.resp_get_bind ?_)
  cases b₁.sess.contextOf k with
  | none => exact resting_fault
  | some c =>
      refine Frame.resp_set_bind (resting_act (fun _ _ _ h => by cases h) (fun c' => ?_) fun t => ?_)
        (Frame.resp_modify (resting_of_same rfl rfl rfl rfl rfl rfl))
      · rw [Sess.close_ctxs]
        split
        · rename_i he
          rw [he]
          exact List.Sublist.refl _
        · exact List.Sublist.refl _
      · exact retainMsg_close b₁.sess k c t

theorem clientContext_resting : resting.Resp (clientContext env k) b := by
  unfold clientContext
  refine Frame.resp_bind touch_resting fun _ b₁ _ => Frame.resp_get_bind ?_
  cases b₁.sess.contextOf k with
  | some c => exact Frame.resp_pure _
  | none =>
      refine Frame.resp_set_bind (resting_act (fun _ _ _ h => by cases h) (fun c' => ?_) fun _ => rfl) (Frame.resp_pure _)
      rw [Sess.newContext_ctxs]
      split
      · exact List.nil_sublist _
      · exact List.Sublist.refl _

theorem closeOnError_resting {closing : Bool} : resting.Resp (closeOnError k closing) b := by
  unfold closeOnError
  split
  · exact handleClose_resting
  · exact Frame.resp_pure _

theorem put_resting (hm : Sendable b m) : resting.Resp (put env k m) b := by
  unfold put
  refine Frame.resp_bind touch_resting fun _ b₁ ht => ?_
  obtain ⟨rfl, -⟩ := touch_ok.mp ht
  refine Frame.resp_get_bind (Frame.resp_set_bind (resting_put hm EventHandler.put_same) ?_)
  exact Frame.resp_bind closeOnError_resting fun _ _ _ => Frame.resp_pure _

theorem handleOutput_resting : resting.Resp (handleOutput env k) b := by
  unfold handleOutput
  refine Frame.resp_bind touch_resting fun _ b₁ _ => Frame.resp_get_bind (Frame.resp_set_bind ?_ ?_)
  · exact { toSameMessages := .of_same rfl EventHandler.handleOutput_same, queue := fun _ => List.Sublist.refl _
            retain := fun _ => rfl, waiting := rfl, issued := rfl, puts := fun _ _ _ h => Or.inl h }
  · exact Frame.resp_bind closeOnError_resting fun _ _ _ => Frame.resp_bind touch_resting fun _ _ _ => Frame.resp_pure _

/-- A reply is no PUBLISH. -/
theorem reply_resting {size : Nat} {bytes : Option ByteStr} (h : NoPublish bytes) : resting.Resp (reply env k size bytes) b := by
  unfold reply
  refine Frame.resp_get_bind ?_
  cases bytes with
  | none => exact Frame.resp_set_bind resting_newBuf (Frame.resp_pure _)
  | some bytes =>
      have hput : Sendable (b.withBuf (Buf.make size b.now bytes)) b.nextBuf := by
        refine ⟨Nat.lt_succ_self _, fun htype => absurd ?_ (@NoPublish.make size b.now bytes h)⟩
        have hself : (b.withBuf (Buf.make size b.now bytes)).bufs b.nextBuf = Buf.make size b.now bytes :=
          Function.update_self _ _ _
        rwa [hself] at htype
      exact Frame.resp_bind (Frame.resp_set_bind resting_newBuf (Frame.resp_pure _)) fun m b₁ h₁ => by
        obtain ⟨rfl, rfl⟩ := newBuf_ok h₁
        exact put_resting hput

/-! ### Packets that queue nothing -/

theorem bindSession_resting {msg : Connect} : resting.Resp (bindSession env k msg) b := by
  unfold bindSession
  refine Frame.resp_get_bind ?_
  cases b.sess.registry.findClientContext msg.clientId with
  | none =>
      refine Frame.resp_bind clientContext_resting fun _ _ _ => Frame.resp_modify ?_
      refine resting_act (fun _ _ _ h => by cases h) (fun c' => ?_) fun _ => rfl
      exact queue_modifyContext (f := (·.init msg)) (List.Sublist.refl _) c'
  | some c =>
      have hclose : resting.Resp (closeLast (b.sess.ctxs c).mqttConnection) b := by
        unfold closeLast
        split
        · exact handleClose_resting
        · exact Frame.resp_pure _
      refine Frame.resp_bind hclose fun _ _ _ => Frame.resp_bind touch_resting fun _ _ _ => Frame.resp_modify ?_
      refine resting_act (fun _ _ _ h => by cases h) (fun c' => ?_) fun _ => rfl
      exact queue_modifyContext (f := fun x => { x.init msg with mqttConnection := some k }) (List.Sublist.refl _) c'

theorem openSession_resting {msg : Connect} : resting.Resp (openSession env k msg) b := by
  unfold openSession
  split
  · exact Frame.resp_pure _
  · refine Frame.resp_bind bindSession_resting fun _ _ _ => Frame.resp_bind clientContext_resting fun _ _ _ => ?_
    exact Frame.resp_modify (resting_of_same rfl rfl rfl rfl rfl rfl)

theorem sendOffline_resting (ms : List MbufId) :
    ∀ (res : Int) (b : Broker), (∀ m ∈ ms, Sendable b m) → resting.Resp (sendOffline env k res ms) b := by
  induction ms with
  | nil => exact fun _ _ _ => Frame.resp_pure _
  | cons m ms ih =>
      intro res b hms
      have hput : resting.Resp (put env k m) b := put_resting (hms m List.mem_cons_self)
      unfold sendOffline
      refine Frame.resp_bind hput fun r b₁ hp => ?_
      have hrest : Resting b b₁ := Frame.resp_ok hput hp
      split
      · exact Frame.resp_pure _
      · exact ih r b₁ fun m' hm' => (hms m' (List.mem_cons_of_mem _ hm')).mono hrest.toSameMessages

/-- The message is on a pending queue. -/
def Pending (b : Broker) (m : MbufId) : Prop := ∃ c, m ∈ (b.sess.ctxs c).sendMsgQueue

theorem Resting.pending (h : Resting b b') (hm : Pending b' m) : Pending b m := by
  obtain ⟨c, hc⟩ := hm
  exact ⟨c, (h.queue c).subset hc⟩

theorem handleConnectMsg_resting {buf : ByteStr} (hp : ∀ m, Pending b m → Sendable b m) :
    resting.Resp (handleConnectMsg env k buf) b := by
  unfold handleConnectMsg
  split
  · exact Frame.resp_pure _
  · rename_i msg _
    refine Frame.resp_bind openSession_resting fun _ b₁ h₁ => ?_
    have hreply : resting.Resp (reply env k 32 (encodeConnAck 32 (connAckCode msg))) b₁ :=
      reply_resting (noPublish_connAck (connAckCode msg))
    refine Frame.resp_bind hreply fun r b₂ h₂ => Frame.resp_bind clientContext_resting fun c b₃ h₃ => ?_
    have hall : Resting b b₃ := ((Frame.resp_ok openSession_resting h₁ : Resting b b₁).trans (Frame.resp_ok hreply h₂)).trans
      (Frame.resp_ok clientContext_resting h₃)
    exact Frame.resp_get_bind (sendOffline_resting _ _ _ fun m hm => (hp m (hall.pending ⟨c, hm⟩)).mono hall.toSameMessages)

theorem handlePubackMsg_resting {buf : ByteStr} : resting.Resp (handlePubackMsg env k buf) b := by
  unfold handlePubackMsg
  split
  · exact Frame.resp_pure _
  · refine Frame.resp_bind clientContext_resting fun c b₁ _ => Frame.resp_get_bind (Frame.resp_set_bind ?_ ?_)
    · refine resting_act (fun _ _ _ h => by cases h) (fun c' => queue_modifyContext ?_ c') fun _ => rfl
      unfold ClientContext.ackMsg
      split
      · exact List.tail_sublist _
      · exact List.Sublist.refl _
    · split
      · exact Frame.resp_pure _
      · refine Frame.resp_modify_bind (resting_of_same rfl rfl rfl rfl rfl rfl) ?_
        exact Frame.resp_modify_bind (resting_of_same rfl rfl rfl rfl rfl rfl) (Frame.resp_pure _)

theorem unsubscribeLoop_resting (ts : List ByteStr) : ∀ b : Broker, resting.Resp (unsubscribeLoop env k ts) b := by
  induction ts with
  | nil => exact fun _ => Frame.resp_pure _
  | cons t ts ih =>
      intro b
      unfold unsubscribeLoop
      refine Frame.resp_bind clientContext_resting fun c b₁ _ => Frame.resp_modify_bind ?_ (ih _)
      refine resting_act (fun _ _ _ h => by cases h) (fun _ => List.Sublist.refl _) fun t' => ?_
      exact retainMsg_delClientContext b₁.sess.topicMgr t t' c

theorem handleUnsubscribeMsg_resting {buf : ByteStr} : resting.Resp (handleUnsubscribeMsg env k buf) b := by
  unfold handleUnsubscribeMsg
  refine Frame.resp_bind clientContext_resting fun _ _ _ => Frame.resp_get_bind ?_
  split
  · exact Frame.resp_pure _
  · split
    · exact Frame.resp_pure _
    · exact Frame.resp_bind (unsubscribeLoop_resting _ _) fun _ _ _ => reply_resting (noPublish_unsubAck _)

theorem handleDisconnectMsg_resting : resting.Resp (handleDisconnectMsg env k) b := by
  unfold handleDisconnectMsg
  refine Frame.resp_bind clientContext_resting fun _ _ _ => Frame.resp_modify_bind ?_ ?_
  · exact resting_act (fun _ _ _ h => by cases h) (fun c' => queue_modifyContext (f := (·.disconnect)) (List.Sublist.refl _) c')
      fun _ => rfl
  · exact Frame.resp_modify_bind (resting_of_same rfl rfl rfl rfl rfl rfl) (Frame.resp_pure _)

/-! ### Ticks -/

theorem resting_of_writing {α : Type} {x : BrokerM α} (h : writing.Resp x b) : resting.Resp x b := by
  refine Frame.Resp.mono ?_ (fun _ _ => trivial) h
  rintro b' ⟨file, dbFile, n, rfl⟩
  exact resting_of_same rfl rfl rfl rfl rfl rfl

theorem checkIdle_resting : resting.Resp (checkIdle env c) b := by
  unfold checkIdle
  refine Frame.resp_get_bind ?_
  split
  · exact Frame.resp_pure _
  · refine Frame.resp_bind touch_resting fun _ _ _ => ?_
    split
    · exact handleClose_resting
    · exact Frame.resp_pure _

theorem store_resting {force : Bool} : resting.Resp (store env mp force) b := by
  have hall : ∀ b : Broker, resting.Resp (storeAll env mp) b := fun _ =>
    storeAll_frame (fun _ _ _ => resting_of_writing) fun _ _ _ => checkIdle_resting
  unfold store
  refine Frame.resp_modify_bind (resting_of_same rfl rfl rfl rfl rfl rfl) (Frame.resp_get_bind ?_)
  split
  · exact hall _
  · split
    · exact Frame.resp_pure _
    · exact Frame.resp_set_bind (resting_of_same rfl rfl rfl rfl rfl rfl) (hall _)

end MqttServer
