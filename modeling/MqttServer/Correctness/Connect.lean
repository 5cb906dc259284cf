import MqttServer.Correctness.Admission
import MqttServer.Correctness.Closing
import MqttServer.Correctness.Pending

/-!
# `Correctness.Connect` — what a CONNECT does to the tables

`handle_connect_msg` opens a session in one of six ways (`Opened`), sends the CONNACK and offers the pending queue of
the session; how that ends is the fate of these buffers on the connection (`handleConnectMsg_ends`). The session gets
the context of its client id as it is: `clean_session` only marks it for the next close, so a clean session inherits
the subscriptions and the queue of an earlier one.
-/

namespace MqttServer

open Lib Exec

variable {env : Env} {mp : MsgPack} {b b' b₁ : Broker} {k : ConnId} {c : CtxId} {s s' : Sess} {msg : Connect}

/-! ## Opening a session -/

/-- The context a CONNECT works on, and the tables it leaves before anything is sent. -/
inductive Opened (env : Env) (k : ConnId) (msg : Connect) (s : Sess) : CtxId → Sess → Prop where
  | nobody {c : CtxId} (hid : msg.clientId = []) (hc : s.contextOf k = some c) : Opened env k msg s c s
  | nobodyNew (hid : msg.clientId = []) (hc : s.contextOf k = none) :
      Opened env k msg s (.conn k) (s.newContext k (env.cleanGarbage k))
  | resumed {c : CtxId} (hid : msg.clientId ≠ []) (hf : s.registry.findClientContext msg.clientId = some c)
      (hl : (s.ctxs c).mqttConnection = none) : Opened env k msg s c (s.resume k c msg)
  | taken {c c' : CtxId} {last : ConnId} (hid : msg.clientId ≠ [])
      (hf : s.registry.findClientContext msg.clientId = some c) (hl : (s.ctxs c).mqttConnection = some last)
      (hne : last ≠ k) (hc' : s.contextOf last = some c') :
      Opened env k msg s c ((s.close last c').resume k c msg)
  | fresh {c : CtxId} (hid : msg.clientId ≠ []) (hf : s.registry.findClientContext msg.clientId = none)
      (hc : s.contextOf k = some c) : Opened env k msg s c (s.register c msg)
  | freshNew (hid : msg.clientId ≠ []) (hf : s.registry.findClientContext msg.clientId = none)
      (hc : s.contextOf k = none) :
      Opened env k msg s (.conn k) ((s.newContext k (env.cleanGarbage k)).register (.conn k) msg)

/-- The connection of the known session, if there is one, is another one and has a context. -/
def Sess.Openable (s : Sess) (k : ConnId) (clientId : ByteStr) : Prop :=
  ∀ c last, s.registry.findClientContext clientId = some c → (s.ctxs c).mqttConnection = some last →
    last ≠ k ∧ s.contextOf last ≠ none

/-- The output of the connection and the buffers are as before. -/
structure Unmoved (k : ConnId) (b b' : Broker) : Prop where
  handler : b'.handlers k = b.handlers k
  nwrites : b'.nwrites k = b.nwrites k
  bufs : b'.bufs = b.bufs
  nextBuf : b'.nextBuf = b.nextBuf
  now : b'.now = b.now

theorem Opened.contextOf (h : Opened env k msg s c s') : s'.contextOf k = some c := by
  cases h with
  | nobody _ hc => exact hc
  | nobodyNew _ _ => rw [Sess.newContext_contextOf, if_pos rfl]
  | resumed _ _ _ => rw [Sess.resume_contextOf, if_pos rfl]
  | taken _ _ _ _ _ => rw [Sess.resume_contextOf, if_pos rfl]
  | fresh _ _ hc => exact hc
  | freshNew _ _ _ =>
      show (s.newContext k (env.cleanGarbage k)).contextOf k = _
      rw [Sess.newContext_contextOf, if_pos rfl]

/-- `client_context()` of a live connection. -/
theorem clientContext_total (env : Env) (ha : b.sess.Alive k) : ∃ c b', clientContext env k b = .ok (c, b') := by
  unfold clientContext
  rw [bind_apply, touch_alive ha]
  simp only
  rw [get_bind]
  cases hc : b.sess.contextOf k with
  | some c => exact ⟨c, b, rfl⟩
  | none => exact ⟨.conn k, _, rfl⟩

/-- Binding a session. -/
theorem bindSession_opened {u : Unit} (hid : msg.clientId ≠ []) (h : bindSession env k msg b = .ok (u, b')) :
    Unmoved k b b' ∧ b.sess.Openable k msg.clientId ∧ ∃ c, Opened env k msg b.sess c b'.sess := by
  unfold bindSession at h
  rw [get_bind] at h
  cases hf : b.sess.registry.findClientContext msg.clientId with
  | none =>
      have hopen : b.sess.Openable k msg.clientId := by
        intro c last hc
        rw [hf] at hc
        cases hc
      simp only [hf] at h
      rw [bind_ok] at h
      obtain ⟨c, b₁, hc, h⟩ := h
      obtain ⟨hctx, hb⟩ := clientContext_ok hc
      cases h
      rcases hb with rfl | ⟨hnone, ha, rfl⟩
      · exact ⟨⟨rfl, rfl, rfl, rfl, rfl⟩, hopen, c, .fresh hid hf hctx⟩
      · have hself : (b.sess.newContext k (env.cleanGarbage k)).contextOf k = some c := hctx
        rw [Sess.newContext_contextOf, if_pos rfl] at hself
        cases hself
        exact ⟨⟨rfl, rfl, rfl, rfl, rfl⟩, hopen, _, .freshNew hid hf hnone⟩
  | some c =>
      simp only [hf] at h
      rw [bind_ok] at h
      obtain ⟨_, b₁, hc, h⟩ := h
      rw [touch_bind_ok] at h
      obtain ⟨ha, h⟩ := h
      cases h
      cases hl : (b.sess.ctxs c).mqttConnection with
      | none =>
          rw [hl] at hc
          cases hc
          refine ⟨⟨rfl, rfl, rfl, rfl, rfl⟩, fun c' last hc' hlast => ?_, c, .resumed hid hf hl⟩
          rw [hf] at hc'
          cases hc'
          rw [hl] at hlast
          cases hlast
      | some last =>
          rw [hl] at hc
          have hclose : handleClose last .takeover b = .ok ((), b₁) := hc
          obtain ⟨c', hc', hs, -⟩ := handleClose_ok hclose
          rw [handleClose_total .takeover hc'] at hclose
          cases hclose
          -- a takeover from `k` itself closes `k`, and the next access fails
          have hne : last ≠ k := by
            rintro rfl
            exact (Sess.alive_close.mp ha).1 rfl
          refine ⟨⟨?_, rfl, rfl, rfl, rfl⟩, fun d last' hd hlast => ?_, c, ?_⟩
          · exact Function.update_of_ne hne.symm _ _
          · rw [hf] at hd
            cases hd
            rw [hl] at hlast
            cases hlast
            exact ⟨hne, by rw [hc']; exact Option.some_ne_none c'⟩
          · exact .taken hid hf hl hne hc'

theorem bindSession_total (env : Env) (ha : b.sess.Alive k) (ho : b.sess.Openable k msg.clientId) :
    ∃ b', bindSession env k msg b = .ok ((), b') := by
  unfold bindSession
  rw [get_bind]
  cases hf : b.sess.registry.findClientContext msg.clientId with
  | none =>
      obtain ⟨c, b₁, hc⟩ := clientContext_total env ha
      simp only
      rw [bind_apply, hc]
      exact ⟨_, rfl⟩
  | some c =>
      simp only
      cases hl : (b.sess.ctxs c).mqttConnection with
      | none =>
          refine ⟨b.act (b.sess.resume k c msg) (.connect k msg (connAckCode msg) c), ?_⟩
          have hnone : closeLast none b = .ok ((), b) := rfl
          rw [bind_apply, hnone]
          simp only
          rw [bind_apply, touch_alive ha]
          rfl
      | some last =>
          obtain ⟨hne, hctx⟩ := ho c last hf hl
          obtain ⟨c', hc'⟩ := Option.ne_none_iff_exists'.mp hctx
          have halive : (b.sess.close last c').Alive k := Sess.alive_close.mpr ⟨hne.symm, ha⟩
          have hclose : closeLast (some last) b = .ok ((), b.afterClose last c' .takeover) :=
            handleClose_total .takeover hc'
          have htouch : touch k (b.afterClose last c' .takeover) = .ok ((), b.afterClose last c' .takeover) :=
            touch_alive halive
          rw [bind_apply, hclose]
          simp only
          rw [bind_apply, htouch]
          exact ⟨_, rfl⟩

/-- `client_context()` of a connection that has a context. -/
theorem clientContext_some (hc : b.sess.contextOf k = some c) : clientContext env k b = .ok (c, b) := by
  unfold clientContext
  rw [bind_apply, touch_alive (Sess.alive_of_contextOf hc)]
  simp only
  rw [get_bind]
  simp only [hc]
  rfl

/-- The session part returns exactly when the old connection can be closed. -/
theorem openSession_total (env : Env) (ha : b.sess.Alive k) (ho : msg.clientId ≠ [] → b.sess.Openable k msg.clientId) :
    ∃ b', openSession env k msg b = .ok ((), b') := by
  unfold openSession
  by_cases hid : msg.clientId = []
  · rw [if_pos hid]
    exact ⟨b, rfl⟩
  · rw [if_neg hid]
    obtain ⟨b₁, hbind⟩ := bindSession_total env ha (ho hid)
    obtain ⟨-, -, c, hopened⟩ := bindSession_opened hid hbind
    rw [bind_apply, hbind]
    unfold stampConnect
    simp only
    rw [bind_apply, clientContext_some hopened.contextOf]
    exact ⟨_, rfl⟩

theorem openSession_ok {u : Unit} (h : openSession env k msg b = .ok (u, b')) :
    Unmoved k b b' ∧ (msg.clientId ≠ [] → b.sess.Openable k msg.clientId) ∧
      ((msg.clientId = [] ∧ b' = b) ∨ (msg.clientId ≠ [] ∧ ∃ c, Opened env k msg b.sess c b'.sess)) := by
  unfold openSession at h
  by_cases hid : msg.clientId = []
  · rw [if_pos hid] at h
    cases h
    exact ⟨⟨rfl, rfl, rfl, rfl, rfl⟩, fun hne => absurd hid hne, Or.inl ⟨hid, rfl⟩⟩
  · rw [if_neg hid, bind_ok] at h
    obtain ⟨_, b₁, hbind, h⟩ := h
    obtain ⟨hsame, hopen, c, hopened⟩ := bindSession_opened hid hbind
    unfold stampConnect at h
    rw [bind_apply, clientContext_some hopened.contextOf] at h
    cases h
    exact ⟨⟨hsame.handler, hsame.nwrites, hsame.bufs, hsame.nextBuf, hsame.now⟩, fun _ => hopen,
      Or.inr ⟨hid, c, hopened⟩⟩

/-! ## The CONNACK and the pending queue -/

/-- The broker with a CONNACK in a new buffer. -/
def Broker.answering (b : Broker) (code : ConnAckCode) : Broker :=
  { b with
    bufs := Function.update b.bufs b.nextBuf (Buf.make 32 b.now ((encodeConnAck 32 code).getD []))
    nextBuf := b.nextBuf + 1 }

theorem reply_answering {code : ConnAckCode} : reply env k 32 (encodeConnAck 32 code) b =
    put env k b.nextBuf (b.answering code) := by
  have he : ∃ bytes, encodeConnAck 32 code = some bytes := by
    cases code <;> exact ⟨_, rfl⟩
  obtain ⟨bytes, he⟩ := he
  unfold reply Broker.answering
  rw [get_bind, he]
  rfl

/-- How `handle_connect_msg` ends, after the session is opened: what it leaves of the tables and the time stamps. -/
def Ends (k : ConnId) (c : CtxId) (b₁ : Broker) (res : Int) (b' : Broker) : Fate → Prop
  | .taken => (b'.sess = b₁.sess ∧ b'.times = b₁.times) ∧ res ≠ -1
  | .full => (b'.sess = b₁.sess ∧ b'.times = b₁.times) ∧ res = -1
  | .lost => (b'.sess = b₁.sess.close k c ∧ b'.times = b₁.closedTimes c) ∧ res = -1

/-- The rest of `handle_connect_msg`, once the session is open. -/
def serve (env : Env) (k : ConnId) (code : ConnAckCode) : BrokerM Int := do
  let res ← reply env k 32 (encodeConnAck 32 code)
  let c ← clientContext env k
  let b ← get
  sendOffline env k res (b.sess.ctxs c).sendMsgQueue

theorem handleConnectMsg_eq {pkt : ByteStr} (hd : Connect.decode.decode pkt = some msg) :
    handleConnectMsg env k pkt = (openSession env k msg >>= fun _ => serve env k (connAckCode msg)) := by
  unfold handleConnectMsg serve
  rw [hd]

/-- After a CONNACK that was refused the pending queue is refused too. -/
theorem fate_refused {m : MbufId} (ht : b.Takes env k)
    (hres : ((b.handlers k).put b.bufs m (env.write k (b.nwrites k))).res = -1) (m' : MbufId) (ms : List MbufId) :
    (b.afterPut env k m).fate env k (m' :: ms) = .full := by
  obtain ⟨hfull, hsame⟩ := EventHandler.put_full ht hres
  have hqueue : (b.afterPut env k m).handlers k = b.handlers k := by
    show Function.update b.handlers k _ k = _
    rw [Function.update_self, hsame]
  unfold Broker.fate
  rw [hqueue, List.map_cons]
  cases hl : (b.handlers k).sendMsgQueue.length with
  | zero =>
      rw [hl] at hfull
      exact absurd hfull (by decide)
  | succ q =>
      rw [hl] at hfull
      rw [MqttServer.fate, if_pos hfull]

/-- Sending to a connection with a context. -/
theorem serve_ends (code : ConnAckCode) (hc : b.sess.contextOf k = some c) (ht : b.Takes env k) :
    ∃ res b', serve env k code b = .ok (res, b') ∧
      Ends k c b res b' ((b.answering code).fate env k (b.nextBuf :: (b.sess.ctxs c).sendMsgQueue)) := by
  have ha : (b.answering code).sess.Alive k := Sess.alive_of_contextOf hc
  have ht' : (b.answering code).Takes env k := ht
  have hc' : ((b.answering code).afterPut env k b.nextBuf).sess.contextOf k = some c := hc
  unfold serve
  rw [bind_apply, reply_answering, put_takes ha ht']
  simp only
  rw [bind_apply, clientContext_some hc']
  simp only
  rw [get_bind, Broker.fate_cons, if_pos ht']
  obtain ⟨res, b', hrun, hend⟩ := sendOffline_fate env (b.sess.ctxs c).sendMsgQueue
    (((b.answering code).handlers k).put (b.answering code).bufs b.nextBuf
      (env.write k ((b.answering code).nwrites k))).res _ hc'
  refine ⟨res, b', hrun, ?_⟩
  by_cases hres : (((b.answering code).handlers k).put (b.answering code).bufs b.nextBuf
      (env.write k ((b.answering code).nwrites k))).res = -1
  · rw [if_pos hres]
    cases hq : (b.sess.ctxs c).sendMsgQueue with
    | nil =>
        rw [hq] at hend
        exact ⟨hend.1, (hend.2.1 rfl).trans hres⟩
    | cons m' ms =>
        rw [hq, fate_refused ht' hres] at hend
        exact hend
  · rw [if_neg hres]
    cases hf : ((b.answering code).afterPut env k b.nextBuf).fate env k (b.sess.ctxs c).sendMsgQueue with
    | full =>
        simp only [hf] at hend
        exact hend
    | lost =>
        simp only [hf] at hend
        exact hend
    | taken =>
        simp only [hf] at hend
        refine ⟨hend.1, ?_⟩
        by_cases hq : (b.sess.ctxs c).sendMsgQueue = []
        · rw [hend.2.1 hq]
          exact hres
        · exact hend.2.2 hq

/-- Sending to a connection that gets its context afterwards. -/
theorem serve_ends_new (code : ConnAckCode) (ha : b.sess.Alive k) (hc : b.sess.contextOf k = none) (ht : b.Takes env k) :
    ∃ res b', serve env k code b = .ok (res, b') ∧
      Ends k (.conn k) { b with sess := b.sess.newContext k (env.cleanGarbage k) } res b'
        ((b.answering code).fate env k [b.nextBuf]) := by
  have ht' : (b.answering code).Takes env k := ht
  have hnew : clientContext env k ((b.answering code).afterPut env k b.nextBuf) =
      .ok (.conn k, ((b.answering code).afterPut env k b.nextBuf).act
        (b.sess.newContext k (env.cleanGarbage k)) (.context k)) := by
    have halive : ((b.answering code).afterPut env k b.nextBuf).sess.Alive k := ha
    have hnone : ((b.answering code).afterPut env k b.nextBuf).sess.contextOf k = none := hc
    unfold clientContext
    rw [bind_apply, touch_alive halive]
    simp only
    rw [get_bind]
    simp only [hnone]
    rfl
  have hqueue : ((b.sess.newContext k (env.cleanGarbage k)).ctxs (.conn k)).sendMsgQueue = [] := by
    rw [Sess.newContext_ctxs, if_pos rfl]
    rfl
  unfold serve
  rw [bind_apply, reply_answering, put_takes (b := b.answering code) ha ht']
  simp only
  rw [bind_apply, hnew]
  simp only
  rw [get_bind, Broker.fate_cons, if_pos ht']
  refine ⟨_, ((b.answering code).afterPut env k b.nextBuf).act (b.sess.newContext k (env.cleanGarbage k)) (.context k),
    by rw [show (((b.answering code).afterPut env k b.nextBuf).act (b.sess.newContext k (env.cleanGarbage k))
      (.context k)).sess = b.sess.newContext k (env.cleanGarbage k) from rfl, hqueue]; rfl, ?_⟩
  by_cases hres : (((b.answering code).handlers k).put (b.answering code).bufs b.nextBuf
      (env.write k ((b.answering code).nwrites k))).res = -1
  · rw [if_pos hres]
    exact ⟨⟨rfl, rfl⟩, hres⟩
  · rw [if_neg hres]
    exact ⟨⟨rfl, rfl⟩, hres⟩

/-- Nothing is returned unless the connection takes the CONNACK. -/
theorem serve_takes {code : ConnAckCode} {res : Int} (h : serve env k code b = .ok (res, b')) : b.Takes env k := by
  unfold serve at h
  rw [bind_ok] at h
  obtain ⟨r, b₂, hreply, h⟩ := h
  rw [bind_ok] at h
  obtain ⟨c, b₃, hc, -⟩ := h
  rw [reply_answering] at hreply
  have ha : b₂.sess.Alive k := by
    unfold clientContext at hc
    rw [touch_bind_ok] at hc
    exact hc.1
  have ht : (b.answering code).Takes env k := takes_of_alive hreply ha
  exact ht

theorem Unmoved.takes (h : Unmoved k b b') : b'.Takes env k ↔ b.Takes env k := by
  unfold Broker.Takes
  rw [h.handler, h.nwrites]

theorem Unmoved.fate (h : Unmoved k b b') (code : ConnAckCode) (ms : List MbufId) :
    (b'.answering code).fate env k (b'.nextBuf :: ms) = (b.answering code).fate env k (b.nextBuf :: ms) := by
  show MqttServer.fate (env.write k) (b'.handlers k).sendMsgQueue.length (b'.nwrites k)
    ((b'.nextBuf :: ms).map fun m => (Function.update b'.bufs b'.nextBuf _ m).1.length) = _
  rw [h.handler, h.nwrites, h.nextBuf, h.bufs, h.now]
  rfl

/-- The time stamps after a CONNECT on `k` has got this context. -/
def Broker.stamped (env : Env) (b : Broker) (k : ConnId) (c : CtxId) : CtxId → ContextTimes :=
  Function.update b.times c
    { b.times c with accept := b.acceptTime k, connect := b.now, remoteAddr := env.peerAddr k }

/-- What opening does to the time stamps, when it closes no other connection. -/
structure Stamps (env : Env) (k : ConnId) (msg : Connect) (b b₁ : Broker) : Prop where
  now : b₁.now = b.now
  nobody : msg.clientId = [] → b₁.times = b.times
  resumed : ∀ c, msg.clientId ≠ [] → b.sess.registry.findClientContext msg.clientId = some c →
    (b.sess.ctxs c).mqttConnection = none → b₁.times = b.stamped env k c

theorem openSession_stamps {u : Unit} (h : openSession env k msg b = .ok (u, b')) : Stamps env k msg b b' := by
  have hnow := (openSession_ok h).1.now
  unfold openSession at h
  by_cases hid : msg.clientId = []
  · rw [if_pos hid] at h
    cases h
    exact ⟨rfl, fun _ => rfl, fun _ hne => absurd hid hne⟩
  · refine ⟨hnow, fun hnil => absurd hnil hid, fun c _ hf hl => ?_⟩
    rw [if_neg hid, bind_ok] at h
    obtain ⟨_, b₁, hbind, h⟩ := h
    unfold bindSession at hbind
    rw [get_bind] at hbind
    simp only [hf, hl] at hbind
    have hnone : closeLast none b = .ok ((), b) := rfl
    rw [bind_apply, hnone] at hbind
    simp only at hbind
    rw [touch_bind_ok] at hbind
    obtain ⟨-, hbind⟩ := hbind
    cases hbind
    have hctx : (b.sess.resume k c msg).contextOf k = some c := by
      rw [Sess.resume_contextOf, if_pos rfl]
    unfold stampConnect at h
    rw [bind_apply, clientContext_some (b := b.act (b.sess.resume k c msg) _) hctx] at h
    cases h
    rfl

/-- **What `handle_connect_msg` does**, for a packet that can be decoded: it returns exactly when the old connection of
    the session can be closed and the new one takes the CONNACK. -/
theorem handleConnectMsg_ends {pkt : ByteStr} (hd : Connect.decode.decode pkt = some msg) (ha : b.sess.Alive k)
    (ho : msg.clientId ≠ [] → b.sess.Openable k msg.clientId) (ht : b.Takes env k) :
    ∃ c b₁ res b', handleConnectMsg env k pkt b = .ok (res, b') ∧ Opened env k msg b.sess c b₁.sess ∧
      Stamps env k msg b b₁ ∧
      Ends k c b₁ res b' ((b.answering (connAckCode msg)).fate env k (b.nextBuf :: (b₁.sess.ctxs c).sendMsgQueue)) := by
  obtain ⟨b₁, hopen⟩ := openSession_total env ha ho
  obtain ⟨hsame, -, hcase⟩ := openSession_ok hopen
  have hstamps := openSession_stamps hopen
  have ht₁ : b₁.Takes env k := hsame.takes.mpr ht
  rw [handleConnectMsg_eq hd, bind_apply, hopen]
  simp only
  have hserve : ∀ c, Opened env k msg b.sess c b₁.sess → ∃ c b₂ res b', serve env k (connAckCode msg) b₁ = .ok (res, b') ∧
      Opened env k msg b.sess c b₂.sess ∧ Stamps env k msg b b₂ ∧
      Ends k c b₂ res b' ((b.answering (connAckCode msg)).fate env k (b.nextBuf :: (b₂.sess.ctxs c).sendMsgQueue)) := by
    intro c hc
    obtain ⟨res, b', hrun, hend⟩ := serve_ends (connAckCode msg) hc.contextOf ht₁
    rw [hsame.fate] at hend
    exact ⟨c, b₁, res, b', hrun, hc, hstamps, hend⟩
  rcases hcase with ⟨hid, rfl⟩ | ⟨hid, c, hc⟩
  · cases hc : b₁.sess.contextOf k with
    | some c => exact hserve c (.nobody hid hc)
    | none =>
        obtain ⟨res, b', hrun, hend⟩ := serve_ends_new (connAckCode msg) ha hc ht
        refine ⟨.conn k, { b₁ with sess := b₁.sess.newContext k (env.cleanGarbage k) }, res, b', hrun, .nobodyNew hid hc,
          ⟨rfl, fun _ => rfl, fun _ hne => absurd hid hne⟩, ?_⟩
        rw [Sess.newContext_ctxs, if_pos rfl]
        exact hend
  · exact hserve c hc

theorem handleConnectMsg_returns {pkt : ByteStr} {res : Int} (hd : Connect.decode.decode pkt = some msg)
    (h : handleConnectMsg env k pkt b = .ok (res, b')) :
    (msg.clientId ≠ [] → b.sess.Openable k msg.clientId) ∧ b.Takes env k := by
  rw [handleConnectMsg_eq hd, bind_ok] at h
  obtain ⟨_, b₁, hopen, h⟩ := h
  obtain ⟨hsame, ho, -⟩ := openSession_ok hopen
  exact ⟨ho, hsame.takes.mp (serve_takes h)⟩

/-- The loop touches the connection before each call. -/
theorem Calls.touched {σ ε : Type} {touch : Exec σ ε Unit} {process : Handler σ ε} {fuel len offset : Nat}
    {mem : Nat → UInt8} {s s' : σ} {pkt : ByteStr} (h : Calls touch process fuel mem len offset s pkt s') :
    ∃ s₀, touch s₀ = .ok ((), s') := by
  induction h with
  | now ht _ _ => exact ⟨_, ht⟩
  | later _ _ _ _ _ _ ih => exact ih

theorem Visit.alive {pkt : ByteStr} (h : Visit env mp k pkt b) : b.sess.Alive k := by
  obtain ⟨m, r, output, es, b₁, recv, -, -, -, -, hcalls⟩ := h
  obtain ⟨b₀, ht⟩ := hcalls.touched
  obtain ⟨rfl, ha⟩ := touch_ok.mp ht
  exact ha

/-! ## Clean sessions -/

/-- The context holds no subscription, no topic holds the context, and nothing is pending. -/
def Sess.Blank (s : Sess) (c : CtxId) : Prop :=
  (s.ctxs c).subcribeTopics = [] ∧ (s.ctxs c).sendMsgQueue = [] ∧ ∀ t, c ∉ s.topicMgr.clients t

/-- The context that a CONNECT with this client id finds: that of the client id or else that of the connection. -/
def Sess.target (s : Sess) (k : ConnId) (clientId : ByteStr) : Option CtxId :=
  match s.registry.findClientContext clientId with
  | some c => some c
  | none => s.contextOf k

/-- The connection was sent the CONNACK and nothing else. -/
def OnlyConnAck (env : Env) (k : ConnId) (code : ConnAckCode) (b b' : Broker) : Prop :=
  ∃ pre ack r post, b'.log = b.log ++ (pre ++ .put k ack r :: post) ∧ (∀ a ∈ pre ++ post, a.put? = none) ∧
    ∃ b₁ b₂, b₁.log = b.log ++ pre ∧ some (b₁.bufs ack).unread = encodeConnAck 32 code ∧ put env k ack b₁ = .ok (r, b₂)

/-- The CONNECT is handled, and the session of the connection starts with nothing. -/
def StartsFresh (env : Env) (k : ConnId) (pkt : ByteStr) (b : Broker) : Prop :=
  ∃ res b' c, handleConnectMsg env k pkt b = .ok (res, b') ∧ b'.sess.contextOf k = some c ∧ b'.sess.Blank c ∧
    OnlyConnAck env k .accepted b b'

/-- A session starts with what its context has: opening it neither takes anything from the context nor gives it
    anything. -/
theorem Opened.blank_iff {log : List Act} (h : Opened env k msg s c s') (hid : msg.clientId ≠ []) (hg : Gate log s)
    (ha : s.Alive k) : s'.Blank c ↔ ∀ c', s.target k msg.clientId = some c' → s.Blank c' := by
  have hsome : ∀ {c₀ : CtxId}, s.target k msg.clientId = some c₀ →
      ((∀ c', s.target k msg.clientId = some c' → s.Blank c') ↔ s.Blank c₀) := by
    intro c₀ ht
    refine ⟨fun hall => hall c₀ ht, fun hb c' hc' => ?_⟩
    rw [ht] at hc'
    cases hc'
    exact hb
  cases h with
  | nobody hnil _ => exact absurd hnil hid
  | nobodyNew hnil _ => exact absurd hnil hid
  | resumed _ hf _ =>
      have ht : s.target k msg.clientId = some c := by
        unfold Sess.target
        rw [hf]
      rw [hsome ht]
      unfold Sess.Blank
      rw [Sess.resume_ctxs, if_pos rfl]
      rfl
  | @taken _ c' last _ hf _ _ _ =>
      have ht : s.target k msg.clientId = some c := by
        unfold Sess.target
        rw [hf]
      rw [hsome ht]
      have hctx : (((s.close last c').resume k c msg).ctxs c).subcribeTopics = (s.ctxs c).subcribeTopics ∧
          (((s.close last c').resume k c msg).ctxs c).sendMsgQueue = (s.ctxs c).sendMsgQueue := by
        rw [Sess.resume_ctxs, if_pos rfl, Sess.close_ctxs]
        split
        · rename_i hcc
          rw [hcc]
          exact ⟨rfl, rfl⟩
        · exact ⟨rfl, rfl⟩
      -- the old connection is closed first, but without a topic list there is nothing it can give up
      have hsets : (s.ctxs c).subcribeTopics = [] → ∀ t, (c ∈ ((s.close last c').resume k c msg).topicMgr.clients t ↔
          c ∈ s.topicMgr.clients t) := by
        intro hnil t
        show c ∈ (s.close last c').topicMgr.clients t ↔ _
        rw [Sess.mem_clients_close]
        refine ⟨fun hx => hx.1, fun hx => ⟨hx, ?_⟩⟩
        rintro ⟨-, hlist, rfl⟩
        unfold ClientContext.topicNames at hlist
        rw [hnil] at hlist
        cases hlist
      unfold Sess.Blank
      rw [hctx.1, hctx.2]
      constructor
      · rintro ⟨hnil, hq, hno⟩
        exact ⟨hnil, hq, fun t hx => hno t ((hsets hnil t).mpr hx)⟩
      · rintro ⟨hnil, hq, hno⟩
        exact ⟨hnil, hq, fun t hx => hno t ((hsets hnil t).mp hx)⟩
  | fresh _ hf hc =>
      have ht : s.target k msg.clientId = some c := by
        unfold Sess.target
        rw [hf]
        exact hc
      rw [hsome ht]
      unfold Sess.Blank
      rw [Sess.register_ctxs, if_pos rfl]
      rfl
  | freshNew _ hf hc =>
      have ht : s.target k msg.clientId = none := by
        unfold Sess.target
        rw [hf]
        exact hc
      have hno : ∀ t, .conn k ∉ s.topicMgr.clients t := fun t hx => hg.subscribed t _ hx k rfl ⟨hc, Or.inl ha⟩
      rw [ht]
      refine ⟨(fun _ _ h => by cases h), fun _ => ?_⟩
      unfold Sess.Blank
      rw [Sess.register_ctxs, if_pos rfl, Sess.newContext_ctxs, if_pos rfl]
      exact ⟨rfl, rfl, hno⟩

/-- Opening a session sends nothing. -/
theorem openSession_quiet {u : Unit} (h : openSession env k msg b = .ok (u, b')) :
    ∃ pre, b'.log = b.log ++ pre ∧ ∀ a ∈ pre, a.put? = none := by
  unfold openSession at h
  by_cases hid : msg.clientId = []
  · rw [if_pos hid] at h
    cases h
    exact ⟨[], (List.append_nil _).symm, (fun _ ha => by cases ha)⟩
  · rw [if_neg hid, bind_ok] at h
    obtain ⟨_, b₁, hbind, h⟩ := h
    obtain ⟨pre, c, hlog, -, hpre, hctx⟩ := bindSession_ok hbind
    unfold stampConnect at h
    rw [bind_apply, clientContext_some hctx] at h
    cases h
    exact ⟨pre, hlog, hpre⟩

/-- With an empty queue the CONNACK is all there is to send. -/
theorem serve_blank (code : ConnAckCode) (hc : b.sess.contextOf k = some c) (hq : (b.sess.ctxs c).sendMsgQueue = [])
    (ht : b.Takes env k) :
    ∃ res b', serve env k code b = .ok (res, b') ∧ b'.sess = b.sess ∧ OnlyConnAck env k code b b' := by
  have ha : (b.answering code).sess.Alive k := Sess.alive_of_contextOf hc
  have ht' : (b.answering code).Takes env k := ht
  have hput := put_takes (m := b.nextBuf) ha ht'
  have hc' : ((b.answering code).afterPut env k b.nextBuf).sess.contextOf k = some c := hc
  have hq' : (((b.answering code).afterPut env k b.nextBuf).sess.ctxs c).sendMsgQueue = [] := hq
  refine ⟨(((b.answering code).handlers k).put (b.answering code).bufs b.nextBuf
      (env.write k ((b.answering code).nwrites k))).res, (b.answering code).afterPut env k b.nextBuf, ?_, rfl,
    [], b.nextBuf, _, [], rfl, (fun _ h => by cases h), b.answering code, _, (List.append_nil _).symm, ?_, hput⟩
  · unfold serve
    rw [bind_apply, reply_answering, hput]
    simp only
    rw [bind_apply, clientContext_some hc']
    simp only
    rw [get_bind, hq']
    rfl
  · show some (Function.update b.bufs b.nextBuf _ b.nextBuf).unread = _
    rw [Function.update_self]
    have hfit : ((encodeConnAck 32 code).getD []).length ≤ 32 := by cases code <;> decide
    rw [Buf.make_unread hfit (by decide)]
    cases code <;> rfl

/-- **A session inherits nothing exactly when there is nothing to inherit**, with `clean_session` or without: the old
    connection of the session can be closed, the new one takes the CONNACK, and the context that is found for the
    client id has no subscription, stands in no subscriber set and has nothing pending. -/
theorem startsFresh_iff {pkt : ByteStr} (hv : Visit env mp k pkt b) (hd : Connect.decode.decode pkt = some msg)
    (hacc : connAckCode msg = .accepted) :
    StartsFresh env k pkt b ↔ b.sess.Openable k msg.clientId ∧ b.Takes env k ∧
      ∀ c, b.sess.target k msg.clientId = some c → b.sess.Blank c := by
  have hid : msg.clientId ≠ [] := by
    intro he
    unfold connAckCode at hacc
    rw [if_pos he] at hacc
    cases hacc
  have ha := hv.alive
  constructor
  · rintro ⟨res, b', c, hrun, hctx, hblank, -⟩
    obtain ⟨ho, ht⟩ := handleConnectMsg_returns hd hrun
    refine ⟨ho hid, ht, ?_⟩
    obtain ⟨c₀, b₁, res', b'', hrun', hopened, -, hends⟩ := handleConnectMsg_ends hd ha ho ht
    rw [hrun] at hrun'
    cases hrun'
    -- the context is bound to `k` at the end, so the CONNACK has not closed the connection
    have hs : b'.sess = b₁.sess := by
      cases hf : (b.answering (connAckCode msg)).fate env k (b.nextBuf :: (b₁.sess.ctxs c₀).sendMsgQueue) with
      | taken =>
          rw [hf] at hends
          exact hends.1.1
      | full =>
          rw [hf] at hends
          exact hends.1.1
      | lost =>
          rw [hf] at hends
          rw [hends.1.1, Sess.close_contextOf, if_pos rfl] at hctx
          cases hctx
    rw [hs] at hctx hblank
    rw [hopened.contextOf] at hctx
    cases hctx
    exact (hopened.blank_iff hid hv.gate ha).mp hblank
  · rintro ⟨ho, ht, hblank⟩
    obtain ⟨b₁, hopen⟩ := openSession_total env ha fun _ => ho
    obtain ⟨hsame, -, ⟨hnil, -⟩ | ⟨-, c, hopened⟩⟩ := openSession_ok hopen
    · exact absurd hnil hid
    · have hb := (hopened.blank_iff hid hv.gate ha).mpr hblank
      obtain ⟨pre, hlog, hpre⟩ := openSession_quiet hopen
      -- a blank session has nothing pending: the CONNACK is all that is sent
      obtain ⟨res, b', hserve, hs, pre', ack, r, post, hlog', hputs, b₂, b₃, hlog₂, hack, hput⟩ :=
        serve_blank .accepted hopened.contextOf hb.2.1 (hsame.takes.mpr ht)
      refine ⟨res, b', c, ?_, by rw [hs]; exact hopened.contextOf, by rw [hs]; exact hb, pre ++ pre', ack, r, post, ?_, ?_,
        b₂, b₃, ?_, hack, hput⟩
      · rw [handleConnectMsg_eq hd, bind_apply, hopen, hacc]
        exact hserve
      · rw [hlog', hlog, List.append_assoc, List.append_assoc]
      · intro a hmem
        rw [List.append_assoc] at hmem
        rcases List.mem_append.mp hmem with hmem | hmem
        · exact hpre a hmem
        · exact hputs a hmem
      · rw [hlog₂, hlog, List.append_assoc]

/-- A CONNECT with `clean_session`. -/
theorem decode_clean : ∃ msg, Connect.decode.decode (connectPacket 65 2) = some msg ∧ connAckCode msg = .accepted ∧
    msg.cleanSession = true ∧ msg.clientId = [65] := by
  have hsome : (Connect.decode.decode (connectPacket 65 2)).any (fun msg => decide (connAckCode msg = .accepted ∧
      msg.cleanSession = true ∧ msg.clientId = [65])) = true := by
    decide +kernel
  obtain ⟨msg, hd, hmsg⟩ := (Option.any_eq_true _ _).mp hsome
  exact ⟨msg, hd, of_decide_eq_true hmsg⟩

/-- The first CONNECT of a client, with `clean_session`. -/
theorem startsFresh_first : ∃ b msg, Visit Env.calm packing 0 (connectPacket 65 2) b ∧
    Connect.decode.decode (connectPacket 65 2) = some msg ∧ connAckCode msg = .accepted ∧ msg.cleanSession = true ∧
    StartsFresh Env.calm 0 (connectPacket 65 2) b := by
  have hrun : (Machine.initial.play Env.calm packing (Move.alone 1 .accept)).any
      (fun m => decide (m.Hands 2 0 (connectPacket 65 2) ∧ m.broker.Takes Env.calm 0 ∧
        m.broker.sess.registry.findClientContext [65] = none ∧ m.broker.sess.contextOf 0 = none)) = true := by
    decide +kernel
  obtain ⟨m, hm, hands, htakes, hfind, hctx⟩ := Machine.exists_reach hrun
  obtain ⟨msg, hd, hacc, hclean, hid⟩ := decode_clean
  have hv := Visit.of_hands hm hands
  refine ⟨_, msg, hv, hd, hacc, hclean, (startsFresh_iff hv hd hacc).mpr ⟨?_, htakes, ?_⟩⟩
  · intro c last hc
    have hc' : m.broker.sess.registry.findClientContext msg.clientId = some c := hc
    rw [hid, hfind] at hc'
    cases hc'
  · intro c hc
    have hc' : m.broker.sess.target 0 msg.clientId = some c := hc
    unfold Sess.target at hc'
    rw [hid, hfind] at hc'
    simp only at hc'
    rw [hctx] at hc'
    cases hc'

/-- **A clean session that inherits a subscription.** The client subscribes in a session that lasts, hangs up, and
    comes back with `clean_session`. -/
theorem not_startsFresh_subscribed : ∃ b msg, Visit Env.calm packing 1 (connectPacket 65 2) b ∧
    Connect.decode.decode (connectPacket 65 2) = some msg ∧ connAckCode msg = .accepted ∧ msg.cleanSession = true ∧
    (handleConnectMsg Env.calm 1 (connectPacket 65 2) b).toBool = true ∧
    ¬ StartsFresh Env.calm 1 (connectPacket 65 2) b := by
  have hrun : (Machine.initial.play Env.calm packing (Move.alone 1 .accept ++ Move.alone 2 (.input 0 (connectPacket 65 0)) ++
      Move.alone 3 (.input 0 (subscribePacket 116)) ++ Move.alone 4 (.hangup 0) ++ Move.alone 5 .accept)).any
      (fun m => decide (m.Hands 6 1 (connectPacket 65 2) ∧
        (handleConnectMsg Env.calm 1 (connectPacket 65 2)
          ((m.reading 6 1 (connectPacket 65 2)).receiving 1)).toOption.any (fun p =>
            decide (p.2.sess.contextOf 1 = some (.conn 0) ∧ .conn 0 ∈ p.2.sess.topicMgr.clients [116])) = true)) = true := by
    decide +kernel
  obtain ⟨m, hm, hands, hafter⟩ := Machine.exists_reach hrun
  obtain ⟨msg, hd, hacc, hclean, -⟩ := decode_clean
  obtain ⟨⟨res, b'⟩, hp, hin⟩ := (Option.any_eq_true _ _).mp hafter
  obtain ⟨hctx, hsub⟩ := of_decide_eq_true hin
  have hok := ok_of_toOption hp
  refine ⟨_, msg, Visit.of_hands hm hands, hd, hacc, hclean, by rw [hok]; rfl, ?_⟩
  rintro ⟨res', b'', c, hrun', hctx', hblank, -⟩
  rw [hok] at hrun'
  cases hrun'
  rw [hctx] at hctx'
  cases hctx'
  exact hblank.2.2 [116] hsub

end MqttServer
