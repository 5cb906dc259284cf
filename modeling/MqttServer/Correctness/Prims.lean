import MqttServer.Correctness.Restore

/-!
# `Correctness.Prims` — the elementary changes of the whole state

`Correctness.Refine` follows the tables and the trace. The rest of the state (buffers, queues of connections,
the message table, clocks) changes in a few ways only: `Prim` lists them, every handler is a sequence of them,
whether it returns or stops in a fault, and a fact that each of them keeps holds in every state of every run.

A change says where its message comes from: what is put on a queue has been published, or was held by the tables,
or is a buffer made for this purpose right before.
-/

namespace MqttServer

open Lib Exec

variable {env : Env} {mp : MsgPack} {b b' : Broker} {k : ConnId} {m : MbufId} {α : Type}

/-! ## Messages the tables hold -/

/-- The message is on a pending queue, or retained. -/
def Holds (s : Sess) (m : MbufId) : Prop :=
  (∃ c, m ∈ (s.ctxs c).sendMsgQueue) ∨ ∃ t, s.topicMgr.retainMsg t = some m

/-- Nothing new on the queues, nothing new retained. -/
theorem Holds.mono {s s' : Sess} (hq : ∀ c, (s'.ctxs c).sendMsgQueue ⊆ (s.ctxs c).sendMsgQueue)
    (hr : ∀ t, s'.topicMgr.retainMsg t = s.topicMgr.retainMsg t) : ∀ m, Holds s' m → Holds s m := by
  rintro m (⟨c, hc⟩ | ⟨t, ht⟩)
  · exact Or.inl ⟨c, hq c hc⟩
  · exact Or.inr ⟨t, by rw [← hr]; exact ht⟩

namespace Sess

variable {s : Sess} {c : CtxId} {t : ByteStr}

theorem holds_modifyContext {f : ClientContext → ClientContext}
    (hf : (f (s.ctxs c)).sendMsgQueue ⊆ (s.ctxs c).sendMsgQueue) :
    ∀ m, Holds (s.modifyContext c f) m → Holds s m := by
  refine Holds.mono (fun c' => ?_) fun _ => rfl
  rw [modifyContext_ctxs]
  by_cases he : c' = c
  · subst he
    rw [if_pos rfl]
    exact hf
  · rw [if_neg he]
    exact fun _ h => h

theorem holds_close : ∀ m, Holds (s.close k c) m ↔ Holds s m := by
  have hq : ∀ c', ((s.close k c).ctxs c').sendMsgQueue = (s.ctxs c').sendMsgQueue := by
    intro c'
    rw [close_ctxs]
    split
    · rename_i he
      rw [he]
      rfl
    · rfl
  intro m
  unfold Holds
  simp only [hq, retainMsg_close]

theorem holds_newContext {clean : Bool} : ∀ m, Holds (s.newContext k clean) m → Holds s m := by
  refine Holds.mono (fun c' => ?_) fun _ => rfl
  rw [newContext_ctxs]
  split
  · exact List.nil_subset _
  · exact fun _ h => h

theorem holds_resume {msg : Connect} : ∀ m, Holds (s.resume k c msg) m → Holds s m := by
  refine Holds.mono (fun c' => ?_) fun _ => rfl
  rw [resume_ctxs]
  split
  · rename_i he
    rw [he]
    exact fun _ h => h
  · exact fun _ h => h

theorem holds_register {msg : Connect} : ∀ m, Holds (s.register c msg) m → Holds s m := by
  refine Holds.mono (fun c' => ?_) fun _ => rfl
  rw [register_ctxs]
  split
  · rename_i he
    rw [he]
    exact fun _ h => h
  · exact fun _ h => h

theorem holds_unsubscribe : ∀ m, Holds (s.unsubscribe t c) m → Holds s m :=
  Holds.mono (fun _ _ h => h) fun t' => retainMsg_delClientContext s.topicMgr t t' c

theorem holds_ensure : ∀ m, Holds { s with topicMgr := s.topicMgr.ensure t } m → Holds s m :=
  Holds.mono (fun _ _ h => h) fun t' => retainMsg_ensure s.topicMgr t t'

/-- A subscription adds at most the retained message, which was held already. -/
theorem holds_subscribe : ∀ m, Holds (s.subscribe t c) m → Holds s m := by
  have hadd : ∀ m, Holds { s with topicMgr := s.topicMgr.addClientContext t c } m → Holds s m :=
    Holds.mono (fun _ _ h => h) fun t' => retainMsg_addClientContext s.topicMgr t t' c
  intro m hm
  unfold subscribe at hm
  simp only at hm
  split at hm
  · rename_i m' _ hret _
    rcases hm with ⟨c', hc'⟩ | ⟨t', ht'⟩
    · rw [modifyContext_ctxs] at hc'
      split at hc'
      · rename_i he
        subst he
        rcases List.mem_append.mp hc' with hc' | hc'
        · exact Or.inl ⟨c', hc'⟩
        · rw [List.mem_singleton.mp hc']
          exact Or.inr ⟨t, hret⟩
      · exact Or.inl ⟨c', hc'⟩
    · exact hadd m (Or.inr ⟨t', ht'⟩)
  · exact hadd m hm

end Sess

/-! ## Where a message comes from -/

/-- The message a label says is published. -/
def Act.message : Act → Option MbufId
  | .publish _ m _ => some m
  | .publishAll m _ => some m
  | _ => none

/-- The trace says that the message was published. -/
def Published (b : Broker) (m : MbufId) : Prop := ∃ a ∈ b.log, a.message = some m

/-- The buffer allocated last, not a message from another thread, and nothing of it is sent. -/
def Newest (b : Broker) (m : MbufId) : Prop :=
  m + 1 = b.nextBuf ∧ (b.bufs m).1.msgType = .data ∧ (b.bufs m).1.readPos = 0

/-- What a sequence of changes may do beyond the handlers of packets: publish messages taken from the notify
    queue, change that queue, write the db file. -/
structure Scope where
  pub : MbufId → Prop := fun _ => False
  queue : Prop := False
  file : Prop := False

/-- Everything. -/
def Scope.all : Scope := { pub := fun _ => True, queue := True, file := True }

/-- One change of the state. -/
inductive Prim (env : Env) (sc : Scope) (b : Broker) : Broker → Prop where
  | tables (sess : Sess) (ls : List Act) (hq : ∀ m, Holds sess m → Holds b.sess m)
      (hl : ∀ a ∈ ls, a.message = none) : Prim env sc b { b with sess, log := b.log ++ ls }
  | publish (sess : Sess) (a : Act) (m : MbufId) (ha : a.message = some m) (hm : sc.pub m ∨ Newest b m)
      (hq : ∀ m, Holds sess m → Holds b.sess m) : Prim env sc b { b with sess, log := b.log ++ [a] }
  | pend (c : CtxId) (m : MbufId) (hm : Published b m) :
      Prim env sc b { b with sess := b.sess.modifyContext c (·.addSendMsg m) }
  | retain (t : ByteStr) (m : MbufId) (slot : Option MbufId) (hm : sc.pub m ∨ Newest b m)
      (hs : slot = none ∨ slot = some b.nextBuf) :
      Prim env sc b { b with
        bufs := Function.update b.bufs b.nextBuf (retainCopy b.now (b.bufs m)), nextBuf := b.nextBuf + 1
        sess := { b.sess with topicMgr := b.sess.topicMgr.setRetainMsg t slot } }
  | answer (size : Nat) (bytes : ByteStr) :
      Prim env sc b { b with
        bufs := Function.update b.bufs b.nextBuf (Buf.make size b.now bytes), nextBuf := b.nextBuf + 1 }
  | regist {type : MsgType} {size : Nat} {bytes : Nat → ByteStr} {m : MbufId} {b' : Broker}
      (h : registBuf type size bytes b = .ok (m, b')) : Prim env sc b b'
  | bridged (buf : ByteStr) (id : Nat) :
      Prim env sc b { b with
        bufs := Function.update b.bufs b.nextBuf ((Buf.make buf.length b.now buf).tag id .publish false)
        nextBuf := b.nextBuf + 1 }
  | mask (k : ConnId) :
      Prim env sc b { b with handlers :=
                               Function.update b.handlers k { b.handlers k with currentEventMask := 0 } }
  | put (k : ConnId) (m : MbufId) (hm : Published b m ∨ Holds b.sess m ∨ Newest b m) :
      Prim env sc b { b with
        bufs := ((b.handlers k).put b.bufs m (env.write k (b.nwrites k))).bufs
        handlers := Function.update b.handlers k
          ((b.handlers k).put b.bufs m (env.write k (b.nwrites k))).handler
        nwrites := Function.update b.nwrites k
          (if (b.handlers k).sendMsgQueue.isEmpty then b.nwrites k + 1 else b.nwrites k)
        log := b.log ++ [Act.put k m ((b.handlers k).put b.bufs m (env.write k (b.nwrites k))).res] }
  | output (k : ConnId) :
      Prim env sc b { b with
        bufs := ((b.handlers k).handleOutput b.bufs (env.write k (b.nwrites k))).bufs
        handlers := Function.update b.handlers k
          ((b.handlers k).handleOutput b.bufs (env.write k (b.nwrites k))).handler
        nwrites := Function.update b.nwrites k
          (if (b.handlers k).sendMsgQueue.isEmpty then b.nwrites k else b.nwrites k + 1) }
  | accept : Prim env sc b { b.act b.sess.accept (.accept b.sess.nextConn) with
        handlers := Function.update b.handlers b.sess.nextConn EventHandler.opened
        recv := Function.update b.recv b.sess.nextConn
          { mem := env.recvGarbage b.sess.nextConn, curBufPos := 0 }
        acceptTime := Function.update b.acceptTime b.sess.nextConn b.now }
  | received (recv : ConnId → RecvBuffer) : Prim env sc b { b with recv }
  | stamps (lastMsgTime : ConnId → Nat) (times : CtxId → ContextTimes) (stat : Nat → MsgStat) :
      Prim env sc b { b with lastMsgTime, times, stat }
  | notified (notifyDeque : List MbufId) (notifyOpen : Bool) (h : sc.queue) :
      Prim env sc b { b with notifyDeque, notifyOpen }
  | file (file dbFile : Option ByteStr) (nfiles lastDbUpdateTime : Nat) (h : sc.file) :
      Prim env sc b { b with file, dbFile, nfiles, lastDbUpdateTime }
  | wait (now : Nat) (busy : List ConnId) : Prim env sc b { b with now, busy }
  | collect : Prim env sc b b.collect

/-- A sequence of changes. -/
def Prims (env : Env) (sc : Scope) : Broker → Broker → Prop := Relation.ReflTransGen (Prim env sc)

variable {sc : Scope}

/-- The trace only grows. -/
theorem Prim.log (h : Prim env sc b b') : ∃ ls, b'.log = b.log ++ ls := by
  cases h with
  | tables sess ls => exact ⟨ls, rfl⟩
  | publish sess a => exact ⟨[a], rfl⟩
  | put k m => exact ⟨_, rfl⟩
  | accept => exact ⟨_, rfl⟩
  | regist h =>
      cases h
      exact ⟨[], (List.append_nil _).symm⟩
  | _ => exact ⟨[], (List.append_nil _).symm⟩

namespace Prims

theorem single (h : Prim env sc b b') : Prims env sc b b' := Relation.ReflTransGen.single h

theorem invariant {I : Broker → Prop} (hstep : ∀ b b', Prim env sc b b' → I b → I b') (h : Prims env sc b b')
    (hi : I b) : I b' := by
  unfold Prims at h
  induction h with
  | refl => exact hi
  | tail _ hp ih => exact hstep _ _ hp ih

theorem published (h : Prims env sc b b') (hm : Published b m) : Published b' m := by
  refine h.invariant (I := fun b => Published b m) (fun b b' hp hm => ?_) hm
  obtain ⟨ls, hlog⟩ := hp.log
  obtain ⟨a, ha, ham⟩ := hm
  refine ⟨a, ?_, ham⟩
  rw [hlog]
  exact List.mem_append_left _ ha

end Prims

/-- The frame of all changes: also a run that stops in a fault is a sequence of them. -/
def prims (env : Env) (sc : Scope) : Frame Broker Fault where
  rel := Prims env sc
  flt b e := Prims env sc b e.2
  refl _ := .refl
  trans h h' := Relation.ReflTransGen.trans h h'
  extend h h' := Relation.ReflTransGen.trans h h'

/-! ## Rules for single changes -/

theorem prims_fault {f : Fault} : (prims env sc).Resp (fault f : BrokerM α) b := Frame.resp_fault .refl

theorem prims_set_bind {f : PUnit → BrokerM α} (h : Prim env sc b b') (hf : (prims env sc).Resp (f ⟨⟩) b') :
    (prims env sc).Resp (set b' >>= f) b :=
  Frame.resp_set_bind (.single h) hf

theorem prims_modify {g : Broker → Broker} (h : Prim env sc b (g b)) :
    (prims env sc).Resp (modify g : BrokerM PUnit) b :=
  Frame.resp_modify (.single h)

theorem prims_modify_bind {g : Broker → Broker} {f : PUnit → BrokerM α} (h : Prim env sc b (g b))
    (hf : (prims env sc).Resp (f ⟨⟩) (g b)) : (prims env sc).Resp (modify g >>= f) b :=
  Frame.resp_modify_bind (.single h) hf

theorem touch_prims : (prims env sc).Resp (touch k) b := by
  unfold touch
  refine Frame.resp_get_bind ?_
  split
  · exact Frame.resp_pure _
  · exact prims_fault

/-- A change of the tables alone. -/
theorem prim_sess {sess : Sess} (hq : ∀ m, Holds sess m → Holds b.sess m) : Prim env sc b { b with sess } := by
  have h : Prim env sc b { b with sess, log := b.log ++ [] } := .tables sess [] hq fun _ h => by cases h
  rwa [List.append_nil] at h

/-- A change of the tables with a label that publishes nothing. -/
theorem prim_act {sess : Sess} {a : Act} (hq : ∀ m, Holds sess m → Holds b.sess m) (ha : a.message = none) :
    Prim env sc b (b.act sess a) := by
  refine .tables sess [a] hq fun a' ha' => ?_
  rw [List.mem_singleton.mp ha']
  exact ha

/-! ## Closing and output -/

theorem handleClose_prims {cause : Cause} : (prims env sc).Resp (handleClose k cause) b := by
  unfold handleClose
  refine Frame.resp_bind touch_prims fun _ b₁ _ => ?_
  refine prims_modify_bind (.mask k) ?_
  refine Frame.resp_get_bind ?_
  cases b₁.sess.contextOf k with
  | none => exact prims_fault
  | some c => exact prims_set_bind (prim_act (fun m => (Sess.holds_close m).mp) rfl) (prims_modify (.stamps _ _ _))

theorem clientContext_prims : (prims env sc).Resp (clientContext env k) b := by
  unfold clientContext
  refine Frame.resp_bind touch_prims fun _ b₁ _ => ?_
  refine Frame.resp_get_bind ?_
  cases b₁.sess.contextOf k with
  | some c => exact Frame.resp_pure _
  | none => exact prims_set_bind (prim_act Sess.holds_newContext rfl) (Frame.resp_pure _)

theorem closeOnError_prims {closing : Bool} : (prims env sc).Resp (closeOnError k closing) b := by
  unfold closeOnError
  split
  · exact handleClose_prims
  · exact Frame.resp_pure _

theorem put_prims (hm : Published b m ∨ Holds b.sess m ∨ Newest b m) : (prims env sc).Resp (put env k m) b := by
  unfold put
  refine Frame.resp_bind touch_prims fun _ b₁ ht => ?_
  obtain ⟨rfl, -⟩ := touch_ok.mp ht
  refine Frame.resp_get_bind ?_
  refine prims_set_bind (.put k m hm) ?_
  exact Frame.resp_bind closeOnError_prims fun _ _ _ => Frame.resp_pure _

/-- A `put` leaves the messages the tables hold where they are. -/
theorem put_holds {r : Int} {m' : MbufId} (h : put env k m b = .ok (r, b')) (hm : Holds b.sess m') :
    Holds b'.sess m' := by
  obtain ⟨-, -, ⟨hs, -⟩ | ⟨c, -, hs, -⟩⟩ := put_ok h
  · rwa [hs]
  · rw [hs]
    exact (Sess.holds_close m').mpr hm

theorem handleOutput_prims : (prims env sc).Resp (handleOutput env k) b := by
  unfold handleOutput
  refine Frame.resp_bind touch_prims fun _ b₁ _ => ?_
  refine Frame.resp_get_bind ?_
  refine prims_set_bind (.output k) ?_
  refine Frame.resp_bind closeOnError_prims fun _ _ _ => ?_
  exact Frame.resp_bind touch_prims fun _ _ _ => Frame.resp_pure _

@[simp] theorem Buf.make_msgType (size time : Nat) (bytes : ByteStr) : (Buf.make size time bytes).1.msgType = .data := by
  unfold Buf.make
  split
  · unfold Mbuf.copy
    split <;> rfl
  · rfl

@[simp] theorem Buf.make_readPos (size time : Nat) (bytes : ByteStr) : (Buf.make size time bytes).1.readPos = 0 := by
  unfold Buf.make
  split
  · unfold Mbuf.copy
    split <;> rfl
  · rfl

theorem newBuf_make_prims {size : Nat} {bytes : ByteStr} :
    (prims env sc).Resp (newBuf (Buf.make size b.now bytes)) b :=
  prims_set_bind (.answer size bytes) (Frame.resp_pure _)

theorem reply_prims {size : Nat} {bytes : Option ByteStr} : (prims env sc).Resp (reply env k size bytes) b := by
  unfold reply
  refine Frame.resp_get_bind ?_
  cases bytes with
  | none => exact Frame.resp_bind newBuf_make_prims fun _ _ _ => Frame.resp_pure _
  | some bytes =>
      refine Frame.resp_bind newBuf_make_prims fun m b₁ hn => put_prims (Or.inr (Or.inr ?_))
      obtain ⟨rfl, rfl⟩ := newBuf_ok hn
      refine ⟨rfl, ?_, ?_⟩
      · simp
      · simp

/-! ## Topics -/

theorem addClientContext_prims {t : ByteStr} {c : CtxId} : (prims env sc).Resp (addClientContext env t c) b := by
  unfold addClientContext
  refine Frame.resp_get_bind ?_
  split
  · rename_i m k' hret _
    refine prims_set_bind (prim_act Sess.holds_subscribe rfl) (put_prims (Or.inr (Or.inl (Or.inr ⟨t, ?_⟩))))
    show (b.sess.subscribe t c).topicMgr.retainMsg t = some m
    rw [Sess.subscribe_topicMgr, retainMsg_addClientContext]
    exact hret
  · exact prims_set_bind (prim_sess Sess.holds_subscribe) (Frame.resp_pure _)

theorem publishClient_prims {c : CtxId} (hm : Published b m) : (prims env sc).Resp (publishClient env c m) b := by
  unfold publishClient
  refine Frame.resp_get_bind ?_
  refine prims_set_bind (.pend c m hm) ?_
  split
  · exact Frame.resp_bind (put_prims (Or.inl hm)) fun _ _ _ => prims_modify (.stamps _ _ _)
  · exact prims_modify (.stamps _ _ _)

theorem publishLoop_prims {t : ByteStr} (cs : List CtxId) :
    ∀ b : Broker, Published b m → (prims env sc).Resp (publishLoop env t m cs) b := by
  induction cs with
  | nil => exact fun _ _ => Frame.resp_pure _
  | cons c cs ih =>
      intro b hm
      unfold publishLoop
      refine Frame.resp_get_bind ?_
      split
      · refine Frame.resp_bind (publishClient_prims hm) fun _ b₁ hp => ?_
        have hprims : Prims env sc b b₁ := Frame.resp_ok (publishClient_prims hm) hp
        refine Frame.resp_get_bind ?_
        split
        · exact ih b₁ (hprims.published hm)
        · exact prims_fault
      · exact ih b hm

theorem publishSet_prims {t : ByteStr} (hm : Published b m) : (prims env sc).Resp (publishSet env t m) b :=
  Frame.resp_get_bind (publishLoop_prims _ b hm)

theorem updateRetain_prims {t : ByteStr} {msg : Publish} (hm : sc.pub m ∨ Newest b m) :
    (prims env sc).Resp (updateRetain t m msg) b := by
  unfold updateRetain
  refine Frame.resp_get_bind ?_
  split
  · -- the new buffer and the slot are one change
    have hretain : Prim env sc b _ :=
      .retain t m (if msg.payload.length > 0 then some b.nextBuf else none) hm (by split <;> simp)
    exact Frame.resp_of_cases (fun _ _ h => by cases h; exact .single hretain) fun _ h => by cases h
  · exact Frame.resp_pure _

theorem publishTopic_prims {t : ByteStr} {msg : Publish} (hm : sc.pub m ∨ Newest b m) :
    (prims env sc).Resp (publishTopic env t m msg) b := by
  unfold publishTopic
  refine Frame.resp_get_bind ?_
  refine prims_set_bind (.publish _ _ m rfl hm Sess.holds_ensure) ?_
  have hresp : (prims env sc).Resp (updateRetain t m msg)
      (b.act { b.sess with topicMgr := b.sess.topicMgr.ensure t } (.publish t m (b.bufs m).msgId)) :=
    updateRetain_prims hm
  refine Frame.resp_bind hresp fun _ b₁ hr => ?_
  have hprims : Prims env sc _ b₁ := Frame.resp_ok hresp hr
  have hpub : Published b₁ m :=
    hprims.published ⟨_, List.mem_append_right _ (List.mem_singleton.mpr rfl), rfl⟩
  split
  · exact Frame.resp_pure _
  · refine prims_modify_bind (.stamps _ _ _) ?_
    exact Frame.resp_bind (publishSet_prims hpub) fun _ _ _ => prims_modify (.stamps _ _ _)

theorem publishTopics_prims (ts : List ByteStr) :
    ∀ b : Broker, Published b m → (prims env sc).Resp (publishTopics env m ts) b := by
  induction ts with
  | nil => exact fun _ _ => Frame.resp_pure _
  | cons t ts ih =>
      intro b hm
      refine Frame.resp_bind (publishSet_prims hm) fun _ b₁ hp => ih b₁ ?_
      have hprims : Prims env sc b b₁ := Frame.resp_ok (publishSet_prims hm) hp
      exact hprims.published hm

theorem publishAll_prims (hm : sc.pub m ∨ Newest b m) : (prims env sc).Resp (publishAll env m) b := by
  unfold publishAll
  refine Frame.resp_get_bind ?_
  refine prims_set_bind (.publish _ _ m rfl hm fun _ h => h) ?_
  refine prims_modify_bind (.stamps _ _ _) ?_
  refine Frame.resp_bind (publishTopics_prims _ _ ?_) fun _ _ _ => prims_modify (.stamps _ _ _)
  exact ⟨_, List.mem_append_right _ (List.mem_singleton.mpr rfl), rfl⟩

/-! ## Packets -/

theorem bindSession_prims {msg : Connect} : (prims env sc).Resp (bindSession env k msg) b := by
  unfold bindSession
  refine Frame.resp_get_bind ?_
  cases b.sess.registry.findClientContext msg.clientId with
  | none => exact Frame.resp_bind clientContext_prims fun _ _ _ => prims_modify (prim_act Sess.holds_register rfl)
  | some c =>
      have hclose : (prims env sc).Resp (closeLast (b.sess.ctxs c).mqttConnection) b := by
        unfold closeLast
        split
        · exact handleClose_prims
        · exact Frame.resp_pure _
      refine Frame.resp_bind hclose fun _ _ _ => ?_
      exact Frame.resp_bind touch_prims fun _ _ _ => prims_modify (prim_act Sess.holds_resume rfl)

theorem openSession_prims {msg : Connect} : (prims env sc).Resp (openSession env k msg) b := by
  unfold openSession
  split
  · exact Frame.resp_pure _
  · refine Frame.resp_bind bindSession_prims fun _ _ _ => ?_
    exact Frame.resp_bind clientContext_prims fun _ _ _ => prims_modify (.stamps _ _ _)

theorem sendOffline_prims (ms : List MbufId) :
    ∀ (res : Int) (b : Broker), (∀ m ∈ ms, Holds b.sess m) → (prims env sc).Resp (sendOffline env k res ms) b := by
  induction ms with
  | nil => exact fun _ _ _ => Frame.resp_pure _
  | cons m ms ih =>
      intro res b hms
      unfold sendOffline
      refine Frame.resp_bind (put_prims (Or.inr (Or.inl (hms m List.mem_cons_self)))) fun r b₁ hp => ?_
      split
      · exact Frame.resp_pure _
      · exact ih r b₁ fun m' hm' => put_holds hp (hms m' (List.mem_cons_of_mem _ hm'))

theorem handleConnectMsg_prims {buf : ByteStr} : (prims env sc).Resp (handleConnectMsg env k buf) b := by
  unfold handleConnectMsg
  split
  · exact Frame.resp_pure _
  · refine Frame.resp_bind openSession_prims fun _ _ _ => ?_
    refine Frame.resp_bind reply_prims fun _ _ _ => ?_
    refine Frame.resp_bind clientContext_prims fun c _ _ => ?_
    exact Frame.resp_get_bind (sendOffline_prims _ _ _ fun m hm => Or.inl ⟨c, hm⟩)

theorem registBuf_prims {type : MsgType} {size : Nat} {bytes : Nat → ByteStr} :
    (prims env sc).Resp (registBuf type size bytes) b :=
  Frame.resp_of_cases (fun _ _ h => .single (.regist h)) (fun _ h => by cases h)

theorem registBuf_newest {size : Nat} {bytes : Nat → ByteStr} (h : registBuf .data size bytes b = .ok (m, b')) :
    Newest b' m := by
  cases h
  refine ⟨rfl, ?_, ?_⟩
  · simp [Buf.tag]
  · simp [Buf.tag]

theorem handlePublishMsg_prims {buf : ByteStr} : (prims env sc).Resp (handlePublishMsg env k buf) b := by
  unfold handlePublishMsg
  refine Frame.resp_bind clientContext_prims fun _ _ _ => ?_
  refine Frame.resp_get_bind ?_
  split
  · exact Frame.resp_pure _
  · split
    · exact Frame.resp_pure _
    · refine Frame.resp_bind reply_prims fun _ _ _ => ?_
      refine Frame.resp_bind touch_prims fun _ _ _ => ?_
      refine Frame.resp_bind registBuf_prims fun m _ hm => ?_
      refine Frame.resp_get_bind ?_
      exact Frame.resp_bind (publishTopic_prims (Or.inr (registBuf_newest hm))) fun _ _ _ => Frame.resp_pure _

theorem handlePubackMsg_prims {buf : ByteStr} : (prims env sc).Resp (handlePubackMsg env k buf) b := by
  unfold handlePubackMsg
  split
  · exact Frame.resp_pure _
  · refine Frame.resp_bind clientContext_prims fun _ _ _ => ?_
    refine Frame.resp_get_bind ?_
    refine prims_set_bind (prim_act (Sess.holds_modifyContext ?_) rfl) ?_
    · unfold ClientContext.ackMsg
      split
      · exact List.tail_subset _
      · exact fun _ h => h
    split
    · exact Frame.resp_pure _
    · refine prims_modify_bind (.stamps _ _ _) ?_
      exact prims_modify_bind (.stamps _ _ _) (Frame.resp_pure _)

theorem subscribeLoop_prims (ts : List ByteStr) :
    ∀ b : Broker, (prims env sc).Resp (subscribeLoop env k ts) b := by
  induction ts with
  | nil => exact fun _ => Frame.resp_pure _
  | cons t ts ih =>
      intro b
      unfold subscribeLoop
      refine Frame.resp_bind clientContext_prims fun _ _ _ => ?_
      exact Frame.resp_bind addClientContext_prims fun _ b₁ _ => ih b₁

theorem handleSubscribeMsg_prims {buf : ByteStr} : (prims env sc).Resp (handleSubscribeMsg env k buf) b := by
  unfold handleSubscribeMsg
  refine Frame.resp_bind clientContext_prims fun _ _ _ => ?_
  refine Frame.resp_get_bind ?_
  split
  · exact Frame.resp_pure _
  · split
    · exact Frame.resp_pure _
    · refine prims_set_bind (prim_act (Sess.holds_modifyContext fun _ h => h) rfl) ?_
      refine Frame.resp_bind reply_prims fun _ _ _ => ?_
      exact Frame.resp_bind (subscribeLoop_prims _ _) fun _ _ _ => Frame.resp_pure _

theorem unsubscribeLoop_prims (ts : List ByteStr) :
    ∀ b : Broker, (prims env sc).Resp (unsubscribeLoop env k ts) b := by
  induction ts with
  | nil => exact fun _ => Frame.resp_pure _
  | cons t ts ih =>
      intro b
      unfold unsubscribeLoop
      refine Frame.resp_bind clientContext_prims fun _ _ _ => ?_
      exact prims_modify_bind (prim_act Sess.holds_unsubscribe rfl) (ih _)

theorem handleUnsubscribeMsg_prims {buf : ByteStr} :
    (prims env sc).Resp (handleUnsubscribeMsg env k buf) b := by
  unfold handleUnsubscribeMsg
  refine Frame.resp_bind clientContext_prims fun _ _ _ => ?_
  refine Frame.resp_get_bind ?_
  split
  · exact Frame.resp_pure _
  · split
    · exact Frame.resp_pure _
    · exact Frame.resp_bind (unsubscribeLoop_prims _ _) fun _ _ _ => reply_prims

theorem handleDisconnectMsg_prims : (prims env sc).Resp (handleDisconnectMsg env k) b := by
  unfold handleDisconnectMsg
  refine Frame.resp_bind clientContext_prims fun _ _ _ => ?_
  refine prims_modify_bind (prim_act (Sess.holds_modifyContext fun _ h => h) rfl) ?_
  exact prims_modify_bind (.stamps _ _ _) (Frame.resp_pure _)

theorem keeping_prims {buf : ByteStr} {x : BrokerM Int} (h : (prims env sc).Resp x b) :
    (prims env sc).Resp (keeping buf x) b :=
  Frame.resp_bind h fun _ _ _ => Frame.resp_pure _

theorem process_prims {buf : ByteStr} : (prims env sc).Resp (process env k buf) b := by
  unfold process
  cases packetType buf with
  | connect => exact keeping_prims handleConnectMsg_prims
  | publish => exact handlePublishMsg_prims
  | puback => exact keeping_prims handlePubackMsg_prims
  | subscribe => exact keeping_prims handleSubscribeMsg_prims
  | unsubscribe => exact keeping_prims handleUnsubscribeMsg_prims
  | pingreq => exact keeping_prims reply_prims
  | disconnect =>
      exact keeping_prims (Frame.resp_bind handleDisconnectMsg_prims fun _ _ _ => Frame.resp_pure _)
  | _ => exact Frame.resp_pure _

/-! ## Events -/

theorem handleInput_prims {out : ReadOut} : (prims env sc).Resp (handleInput env k out) b := by
  unfold handleInput
  refine Frame.resp_bind touch_prims fun _ _ _ => ?_
  refine Frame.resp_get_bind ?_
  split
  · exact Frame.resp_pure _
  · exact Frame.resp_pure _
  · dsimp only
    split
    · exact Frame.resp_pure _
    · refine Frame.resp_bind (prims_modify (.stamps _ _ _)) fun _ _ _ => ?_
      refine Frame.resp_bind (processLoop_resp (fun _ => touch_prims) (fun _ _ => process_prims) _ _ _ _ _)
        fun recv _ _ => ?_
      cases recv with
      | none => exact Frame.resp_pure _
      | some recv => exact prims_modify_bind (.received _) (Frame.resp_pure _)

theorem runConn_prims {hup : Bool} {input : Option ReadOut} {output : Bool} :
    (prims env sc).Resp (runConn env k hup input output) b := by
  unfold runConn
  refine Frame.resp_bind touch_prims fun _ b₁ _ => ?_
  split
  · exact handleClose_prims
  · have hinput : (prims env sc).Resp (runInput env k input) b₁ := by
      unfold runInput
      split
      · exact handleInput_prims
      · exact Frame.resp_pure _
    refine Frame.resp_bind hinput fun _ _ _ => ?_
    split
    · exact handleClose_prims
    · split
      · exact Frame.resp_bind handleOutput_prims fun _ _ _ => Frame.resp_pure _
      · exact Frame.resp_pure _

theorem notifyLoop_prims (hpub : ∀ m, sc.pub m) (hq : sc.queue) (ms : List MbufId) :
    ∀ b : Broker, (prims env sc).Resp (notifyLoop env ms) b := by
  induction ms with
  | nil => exact fun _ => Frame.resp_pure _
  | cons m ms ih =>
      intro b
      unfold notifyLoop
      refine prims_modify_bind (.notified _ _ hq) ?_
      refine Frame.resp_get_bind ?_
      split
      · split
        · exact Frame.resp_pure _
        · refine Frame.resp_bind ?_ fun _ b₁ _ => ih b₁
          unfold publishNotified
          split
          · exact publishAll_prims (Or.inl (hpub m))
          · exact publishTopic_prims (Or.inl (hpub m))
      · exact ih _

theorem handleNotify_prims (hpub : ∀ m, sc.pub m) (hq : sc.queue) : (prims env sc).Resp (handleNotify env) b := by
  unfold handleNotify
  refine Frame.resp_get_bind ?_
  refine Frame.resp_bind (notifyLoop_prims hpub hq _ _) fun _ _ _ => ?_
  split
  · exact prims_modify (.notified _ _ hq)
  · exact Frame.resp_pure _

theorem prims_of_writing {x : BrokerM α} (hf : sc.file) (h : writing.Resp x b) : (prims env sc).Resp x b := by
  refine Frame.Resp.mono ?_ ?_ h
  · rintro b' ⟨file, dbFile, n, rfl⟩
    exact .single (.file file dbFile n b.lastDbUpdateTime hf)
  · exact fun _ h => h.elim

theorem checkIdle_prims {c : CtxId} : (prims env sc).Resp (checkIdle env c) b := by
  unfold checkIdle
  refine Frame.resp_get_bind ?_
  split
  · exact Frame.resp_pure _
  · refine Frame.resp_bind touch_prims fun _ _ _ => ?_
    split
    · exact handleClose_prims
    · exact Frame.resp_pure _

theorem storeAll_prims (hf : sc.file) : (prims env sc).Resp (storeAll env mp) b :=
  storeAll_frame (fun _ _ _ => prims_of_writing hf) fun _ _ _ => checkIdle_prims

theorem store_prims (hf : sc.file) {force : Bool} : (prims env sc).Resp (store env mp force) b := by
  unfold store
  refine prims_modify_bind (.stamps _ _ _) ?_
  refine Frame.resp_get_bind ?_
  split
  · exact storeAll_prims hf
  · split
    · exact Frame.resp_pure _
    · exact prims_set_bind (.file _ _ _ _ hf) (storeAll_prims hf)

theorem notify_prims (hq : sc.queue) : (prims env sc).Resp (notify m) b := by
  refine Frame.resp_modify ?_
  split
  · exact .single (.notified _ _ hq)
  · exact .refl

theorem notifyMqttPublish_prims (hq : sc.queue) {header : FixedHeader} {topic msg : ByteStr} :
    (prims env sc).Resp (notifyMqttPublish header topic msg) b := by
  unfold notifyMqttPublish
  refine Frame.resp_get_bind ?_
  dsimp only
  split
  · exact Frame.resp_bind registBuf_prims fun _ _ _ => Frame.resp_pure _
  · exact Frame.resp_bind registBuf_prims fun _ _ _ => notify_prims hq

theorem bridgePublish_prims (hq : sc.queue) {buf : ByteStr} : (prims env sc).Resp (bridgePublish buf) b := by
  unfold bridgePublish
  split
  · exact Frame.resp_pure _
  · refine Frame.resp_get_bind ?_
    refine Frame.resp_bind ?_ fun _ _ _ => notify_prims hq
    exact prims_set_bind (.bridged buf _) (Frame.resp_pure _)

/-- An event that is not the notify event. -/
theorem runEvent_prims (hf : sc.file) {e : Ready} (he : e ≠ .notify) :
    (prims env sc).Resp (runEvent env mp e) b := by
  unfold runEvent
  cases e with
  | accept => exact prims_modify .accept
  | conn k hup input output => exact runConn_prims
  | notify => exact absurd rfl he
  | timer => exact Frame.resp_bind (store_prims hf) fun _ _ _ => Frame.resp_pure _

/-! ## Runs -/

/-- **Every move is a sequence of elementary changes.** -/
theorem Machine.step_prims {m m' : Machine} {mv : Move} (h : m.step env mp mv = .ok m') :
    Prims env .all m.broker m'.broker := by
  cases mv with
  | wait now batch =>
      cases h
      exact .single (.wait now _)
  | next =>
      unfold Machine.step at h
      cases hb : m.batch with
      | nil =>
          simp only [hb] at h
          cases h
          exact .refl
      | cons e es =>
          simp only [hb] at h
          split at h
          · rename_i he
            cases h
            have hresp : ∀ b, (prims env .all).Resp (runEvent env mp e) b := by
              intro b
              cases e with
              | notify => exact handleNotify_prims (fun _ => trivial) trivial
              | accept => exact runEvent_prims trivial (fun h => by cases h)
              | conn k hup input output => exact runEvent_prims trivial (fun h => by cases h)
              | timer => exact runEvent_prims trivial (fun h => by cases h)
            have hrun : Prims env .all _ _ := Frame.resp_ok (hresp _) he
            exact .trans (.single (.wait m.broker.now _)) (.trans hrun (.single .collect))
          · cases h
  | http header topic msg =>
      unfold Machine.step at h
      simp only at h
      split at h
      · rename_i he
        cases h
        have hresp : (prims env .all).Resp (notifyMqttPublish header topic msg) m.broker := notifyMqttPublish_prims trivial
        exact .trans (Frame.resp_ok hresp he) (.single .collect)
      · cases h
  | bridge buf =>
      unfold Machine.step at h
      simp only at h
      split at h
      · rename_i he
        cases h
        have hresp : (prims env .all).Resp (bridgePublish buf) m.broker := bridgePublish_prims trivial
        exact .trans (Frame.resp_ok hresp he) (.single .collect)
      · cases h

/-- **The invariant rule.** A fact about the state that holds of a broker that starts, and that every
    elementary change keeps, holds in every state of every run. -/
theorem Reach.prims_invariant {I : Broker → Prop} (hstart : ∀ b, Started env mp b → I b)
    (hstep : ∀ b b', Prim env .all b b' → I b → I b') {m : Machine} (h : Reach env mp m) : I m.broker := by
  induction h with
  | start hs => exact hstart _ hs
  | step _ _ hs ih => exact (Machine.step_prims hs).invariant hstep ih

end MqttServer
