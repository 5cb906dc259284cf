import MqttServer.Correctness.Connect

/-!
# `Correctness.Refusal` — CONNECTs that are refused

The return code of a CONNECT is computed first and looked at by nobody but the encoder of the CONNACK: with a client id
the session is taken over, initialised or registered all the same, and the `-1` for a refusal is overwritten by the
result of the first `put`. So a refused CONNECT changes the tables or keeps the connection open, but for two corners of
the output: the queue is full, or the connection is lost in the middle of the pending messages. In the second one the
session is taken over and detached again, and only when it already carries the fields and the time stamps of this
CONNECT is it as before.
-/

namespace MqttServer

open Lib Exec

variable {env : Env} {mp : MsgPack} {b b' b₁ : Broker} {k : ConnId} {c : CtxId} {s s' : Sess} {msg : Connect}

/-- The registry, the topic table, every context that has been made and every other connection are as before. -/
structure TablesKept (k : ConnId) (s s' : Sess) : Prop where
  registry : s'.registry = s.registry
  topics : s'.topicMgr = s.topicMgr
  contexts : ∀ c, s.Made c → s'.ctxs c = s.ctxs c
  conns : ∀ k', k' ≠ k → s'.conns k' = s.conns k'

/-- The tables are as before, and so are the time stamps and the peer name of every context that has been made. -/
structure NoEffect (k : ConnId) (b b' : Broker) : Prop where
  tables : TablesKept k b.sess b'.sess
  times : ∀ c, b.sess.Made c → b'.times c = b.times c

/-- The CONNECT is handled, returns `-1` and has no effect. -/
def RefusedWell (env : Env) (k : ConnId) (pkt : ByteStr) (b : Broker) : Prop :=
  ∃ b', handleConnectMsg env k pkt b = .ok (-1, b') ∧ NoEffect k b b'

/-- The pending queue that a CONNECT without a client id offers. -/
def Sess.pendingOf (s : Sess) (k : ConnId) : List MbufId :=
  match s.contextOf k with
  | some c => (s.ctxs c).sendMsgQueue
  | none => []

/-- The session is offline, lasts, and is already what the CONNECT makes of it. -/
def Sess.Idle (s : Sess) (msg : Connect) (c : CtxId) : Prop :=
  s.registry.findClientContext msg.clientId = some c ∧ (s.ctxs c).mqttConnection = none ∧
    (s.ctxs c).init msg = s.ctxs c ∧ msg.cleanSession = false

/-- The stamps of the context are already those that a CONNECT on `k` makes now, and so is that of the close. -/
def Broker.Stamped (env : Env) (b : Broker) (k : ConnId) (c : CtxId) : Prop :=
  (b.times c).accept = b.acceptTime k ∧ (b.times c).connect = b.now ∧ (b.times c).close = b.now ∧
    (b.times c).remoteAddr = env.peerAddr k

theorem TablesKept.refl (k : ConnId) (s : Sess) : TablesKept k s s := ⟨rfl, rfl, fun _ _ => rfl, fun _ _ => rfl⟩

/-- A new context is no change to what exists. -/
theorem TablesKept.newContext {clean : Bool} (ha : s.Alive k) (hc : s.contextOf k = none) :
    TablesKept k s (s.newContext k clean) := by
  refine ⟨rfl, rfl, fun c hm => ?_, fun k' hk' => ?_⟩
  · rw [Sess.newContext_ctxs, if_neg]
    intro he
    exact hm k he ⟨hc, Or.inl ha⟩
  · exact Function.update_of_ne hk' _ _

/-- Closing a connection changes its context. -/
theorem not_tablesKept_close {log : List Act} (hg : Gate log s) (hc : s.contextOf k = some c) :
    ¬ TablesKept k s (s.close k c) := by
  intro h
  have hctx := h.contexts c (hg.made k c hc)
  rw [Sess.close_ctxs, if_pos rfl] at hctx
  have hlink := hg.owner k c hc
  rw [← hctx] at hlink
  cases hlink

/-- **Without a client id** nothing is opened: the CONNECT has an effect only when the connection is lost. -/
theorem refused_nobody {log : List Act} {res : Int} {f : Fate} (hid : msg.clientId = []) (hg : Gate log b.sess)
    (ha : b.sess.Alive k) (ho : Opened env k msg b.sess c b₁.sess) (hst : Stamps env k msg b b₁) (he : Ends k c b₁ res b' f)
    (hf : f = .lost → (b₁.sess.ctxs c).sendMsgQueue ≠ []) :
    res = -1 ∧ NoEffect k b b' ↔ f = .full := by
  have hkept : TablesKept k b.sess b₁.sess := by
    generalize b₁.sess = s' at ho
    cases ho with
    | nobody _ _ => exact .refl k b.sess
    | nobodyNew _ hc => exact .newContext ha hc
    | resumed hne _ _ => exact absurd hid hne
    | taken hne _ _ _ _ => exact absurd hid hne
    | fresh hne _ _ => exact absurd hid hne
    | freshNew hne _ _ => exact absurd hid hne
  cases f with
  | taken =>
      refine ⟨fun h => absurd h.1 he.2, fun h => by cases h⟩
  | full =>
      obtain ⟨⟨hsess, htimes⟩, hres⟩ := he
      refine ⟨fun _ => rfl, fun _ => ⟨hres, ?_, fun c _ => ?_⟩⟩
      · rw [hsess]
        exact hkept
      · rw [htimes, hst.nobody hid]
  | lost =>
      refine ⟨fun h => ?_, fun h => by cases h⟩
      exfalso
      have hno := h.2.tables
      rw [he.1.1] at hno
      have hpending := hf rfl
      generalize b₁.sess = s' at ho hno hpending
      cases ho with
      | nobody _ hc => exact not_tablesKept_close hg hc hno
      | nobodyNew _ hc =>
          refine hpending ?_
          rw [Sess.newContext_ctxs, if_pos rfl]
          rfl
      | resumed hne _ _ => exact hne hid
      | taken hne _ _ _ _ => exact hne hid
      | fresh hne _ _ => exact hne hid
      | freshNew hne _ _ => exact hne hid

/-- The contexts when a session that was offline is resumed and lost again. -/
theorem resume_close_ctxs (hl : (s.ctxs c).mqttConnection = none) (c' : CtxId) :
    ((s.resume k c msg).close k c).ctxs c' = if c' = c then (s.ctxs c).init msg else s.ctxs c' := by
  by_cases hc : c' = c
  · rw [hc, if_pos rfl, Sess.close_ctxs, if_pos rfl, Sess.resume_ctxs, if_pos rfl]
    show { (s.ctxs c).init msg with mqttConnection := none } = _
    rw [← hl]
    rfl
  · rw [if_neg hc, Sess.close_ctxs, if_neg hc, Sess.resume_ctxs, if_neg hc]

theorem resume_cleanSession : ((s.resume k c msg).ctxs c).cleanSession = msg.cleanSession := by
  rw [Sess.resume_ctxs, if_pos rfl]
  rfl

/-- A clean CONNECT takes its name out when the connection closes. -/
theorem resume_close_registry_ne (hf : s.registry.findClientContext msg.clientId = some c) (hclean : msg.cleanSession = true) :
    ((s.resume k c msg).close k c).registry ≠ s.registry := by
  intro hreg
  have hentry : ((s.resume k c msg).ctxs c).clientId = msg.clientId := by
    rw [Sess.resume_ctxs, if_pos rfl]
    rfl
  rw [Sess.close_registry, resume_cleanSession, if_pos hclean, hentry] at hreg
  have hdel : s.registry.delClientContext msg.clientId = s.registry := hreg
  have hfind : (s.registry.delClientContext msg.clientId).findClientContext msg.clientId = some c := by
    rw [hdel]
    exact hf
  exact (find_delClientContext.mp hfind).2 rfl

/-- What is left when a session that was offline is resumed and lost again. -/
theorem tablesKept_resume_close {log : List Act} (hg : Gate log s)
    (hf : s.registry.findClientContext msg.clientId = some c) (hl : (s.ctxs c).mqttConnection = none) :
    TablesKept k s ((s.resume k c msg).close k c) ↔ s.Idle msg c := by
  constructor
  · intro h
    refine ⟨hf, hl, ?_, ?_⟩
    · have hctx := h.contexts c (hg.registered _ c hf)
      rwa [resume_close_ctxs hl, if_pos rfl] at hctx
    · by_contra hc
      rw [Bool.not_eq_false] at hc
      exact resume_close_registry_ne hf hc h.registry
  · rintro ⟨-, -, hinit, hlasts⟩
    have hkeep : ¬ ((s.resume k c msg).ctxs c).cleanSession = true := by
      rw [resume_cleanSession, hlasts]
      exact Bool.false_ne_true
    constructor
    case registry =>
      rw [Sess.close_registry, if_neg hkeep]
      rfl
    case topics =>
      show ((s.resume k c msg).forget c).topicMgr = _
      unfold Sess.forget
      rw [if_neg hkeep]
      rfl
    case contexts =>
      intro c' _
      rw [resume_close_ctxs hl, hinit]
      split
      · case isTrue hc => rw [hc]
      · rfl
    case conns =>
      intro k' hk'
      rw [Sess.close_conns, if_neg hk']
      exact Function.update_of_ne hk' _ _

theorem addClientContext_ne {r : Registry} {id : ByteStr} (hf : r.findClientContext id = none) :
    r.addClientContext id c ≠ r := by
  intro he
  have hadd : (r.addClientContext id c).findClientContext id = some c := by
    unfold Registry.findClientContext at hf ⊢
    unfold Registry.addClientContext
    rw [hf]
    exact AList.lookup_insert r
  rw [he, hf] at hadd
  cases hadd

/-- With a client id the session is taken, initialised or registered, and that stays unless it is lost again. -/
theorem refused_tables {log : List Act} {res : Int} {f : Fate} (hid : msg.clientId ≠ []) (hg : Gate log s)
    (ho : Opened env k msg s c s') (hs : b₁.sess = s') (he : Ends k c b₁ res b' f)
    (hf : f = .lost → (s'.ctxs c).sendMsgQueue ≠ []) :
    res = -1 ∧ TablesKept k s b'.sess ↔ f = .lost ∧ s.Idle msg c := by
  -- unless the session is lost again the tables are those it was opened with
  have hkept : f ≠ .lost → b'.sess = s' := by
    intro hne
    cases f with
    | taken => exact he.1.1.trans hs
    | full => exact he.1.1.trans hs
    | lost => exact absurd rfl hne
  have hlost : f = .lost → b'.sess = s'.close k c ∧ res = -1 := by
    rintro rfl
    exact ⟨hs ▸ he.1.1, he.2⟩
  cases ho with
  | nobody hnil _ => exact absurd hnil hid
  | nobodyNew hnil _ => exact absurd hnil hid
  | resumed _ hfind hl =>
      by_cases hcase : f = .lost
      · obtain ⟨hs, hres⟩ := hlost hcase
        rw [hs, tablesKept_resume_close hg hfind hl]
        exact ⟨fun h => ⟨hcase, h.2⟩, fun h => ⟨hres, h.2⟩⟩
      · refine ⟨fun h => ?_, fun h => absurd h.1 hcase⟩
        have hctx := h.2.contexts c (hg.registered _ c hfind)
        rw [hkept hcase, Sess.resume_ctxs, if_pos rfl] at hctx
        rw [← hctx] at hl
        cases hl
  | @taken _ c' last _ hfind hl hne _ =>
      refine ⟨fun h => ?_, fun h => ?_⟩
      · exfalso
        have hctx := h.2.contexts c (hg.registered _ c hfind)
        rw [← hctx] at hl
        by_cases hcase : f = .lost
        · rw [(hlost hcase).1, Sess.close_ctxs, if_pos rfl] at hl
          cases hl
        · rw [hkept hcase, Sess.resume_ctxs, if_pos rfl] at hl
          exact hne (Option.some.inj hl).symm
      · have hnone := h.2.2.1
        rw [hl] at hnone
        cases hnone
  | fresh _ hfind hc =>
      refine ⟨fun h => ?_, fun h => ?_⟩
      · exfalso
        by_cases hcase : f = .lost
        · have hctx := h.2.contexts c (hg.made k c hc)
          have hlink := hg.owner k c hc
          rw [← hctx, (hlost hcase).1, Sess.close_ctxs, if_pos rfl] at hlink
          cases hlink
        · have hreg := h.2.registry
          rw [hkept hcase] at hreg
          exact addClientContext_ne hfind hreg
      · have hsome := h.2.1
        rw [hfind] at hsome
        cases hsome
  | freshNew _ hfind hc =>
      refine ⟨fun h => ?_, fun h => ?_⟩
      · exfalso
        by_cases hcase : f = .lost
        · refine hf hcase ?_
          rw [Sess.register_ctxs, if_pos rfl, Sess.newContext_ctxs, if_pos rfl]
          rfl
        · have hreg := h.2.registry
          rw [hkept hcase] at hreg
          exact addClientContext_ne hfind hreg
      · have hsome := h.2.1
        rw [hfind] at hsome
        cases hsome

/-- A session that is resumed and lost again has its time stamps set. -/
theorem times_resumed (hid : msg.clientId ≠ []) (hi : b.sess.Idle msg c) (hmade : b.sess.Made c)
    (hst : Stamps env k msg b b₁) (ht : b'.times = b₁.closedTimes c) :
    (∀ c', b.sess.Made c' → b'.times c' = b.times c') ↔ b.Stamped env k c := by
  have hctx : b'.times c = { b.times c with accept := b.acceptTime k, connect := b.now, remoteAddr := env.peerAddr k
                                            close := b.now } := by
    rw [ht]
    unfold Broker.closedTimes
    rw [Function.update_self, hst.resumed c hid hi.1 hi.2.1, hst.now]
    unfold Broker.stamped
    rw [Function.update_self]
  constructor
  · intro h
    have heq := (h c hmade).symm.trans hctx
    exact ⟨congrArg ContextTimes.accept heq, congrArg ContextTimes.connect heq, congrArg ContextTimes.close heq,
      congrArg ContextTimes.remoteAddr heq⟩
  · rintro ⟨haccept, hconnect, hclose, haddr⟩ c' _
    by_cases hc : c' = c
    · rw [hc, hctx]
      cases htimes : b.times c with
      | mk remoteAddr accept connect discon close lastPub lastMsg lastPubMsgId =>
          rw [htimes] at haccept hconnect hclose haddr
          simp only at haccept hconnect hclose haddr
          rw [haccept, hconnect, hclose, haddr]
    · rw [ht]
      unfold Broker.closedTimes
      rw [Function.update_of_ne hc, hst.resumed c hid hi.1 hi.2.1]
      exact Function.update_of_ne hc _ _

/-- **With a client id** the CONNECT has no effect when it is lost again, and what it has written was there before. -/
theorem refused_named {log : List Act} {res : Int} {f : Fate} (hid : msg.clientId ≠ []) (hg : Gate log b.sess)
    (ho : Opened env k msg b.sess c b₁.sess) (hst : Stamps env k msg b b₁) (he : Ends k c b₁ res b' f)
    (hf : f = .lost → (b₁.sess.ctxs c).sendMsgQueue ≠ []) :
    res = -1 ∧ NoEffect k b b' ↔ f = .lost ∧ b.sess.Idle msg c ∧ b.Stamped env k c := by
  have htables := refused_tables hid hg ho rfl he hf
  constructor
  · rintro ⟨hres, hno⟩
    obtain ⟨rfl, hidle⟩ := htables.mp ⟨hres, hno.tables⟩
    exact ⟨rfl, hidle, (times_resumed hid hidle (hg.registered _ c hidle.1) hst he.1.2).mp hno.times⟩
  · rintro ⟨rfl, hidle, hstamped⟩
    obtain ⟨hres, hkept⟩ := htables.mpr ⟨rfl, hidle⟩
    exact ⟨hres, hkept, (times_resumed hid hidle (hg.registered _ c hidle.1) hst he.1.2).mpr hstamped⟩

/-- A connection that takes the CONNACK is lost only with a message behind it. -/
theorem pending_of_lost {m : MbufId} {ms : List MbufId} (ht : b.Takes env k) (hf : b.fate env k (m :: ms) = .lost) :
    ms ≠ [] := by
  rintro rfl
  rw [Broker.fate_cons, if_pos ht] at hf
  split at hf
  · cases hf
  · cases hf

theorem Opened.queue (h : Opened env k msg s c s') (hid : msg.clientId = []) :
    (s'.ctxs c).sendMsgQueue = s.pendingOf k := by
  unfold Sess.pendingOf
  cases h with
  | nobody _ hc => rw [hc]
  | nobodyNew _ hc =>
      rw [hc, Sess.newContext_ctxs, if_pos rfl]
      rfl
  | resumed hne _ _ => exact absurd hid hne
  | taken hne _ _ _ _ => exact absurd hid hne
  | fresh hne _ _ => exact absurd hid hne
  | freshNew hne _ _ => exact absurd hid hne

theorem Opened.idle {c' : CtxId} (h : Opened env k msg s c s') (hid : msg.clientId ≠ []) (hi : s.Idle msg c') :
    c = c' ∧ (s'.ctxs c).sendMsgQueue = (s.ctxs c).sendMsgQueue := by
  obtain ⟨hf', hl', -⟩ := hi
  cases h with
  | nobody hnil _ => exact absurd hnil hid
  | nobodyNew hnil _ => exact absurd hnil hid
  | resumed _ hf _ =>
      rw [hf] at hf'
      cases hf'
      rw [Sess.resume_ctxs, if_pos rfl]
      exact ⟨rfl, rfl⟩
  | taken _ hf hl _ _ =>
      rw [hf] at hf'
      cases hf'
      rw [hl] at hl'
      cases hl'
  | fresh _ hf _ =>
      rw [hf] at hf'
      cases hf'
  | freshNew _ hf _ =>
      rw [hf] at hf'
      cases hf'

/-- **A CONNECT is turned away without effect exactly when** it has no client id and the output queue fills up under
    the CONNACK and what is pending, or when it resumes a session that is offline and just the same, with the same time
    stamps, and the connection is lost with a pending message. The code it is answered with makes no difference. -/
theorem refusedWell_iff {pkt : ByteStr} (hv : Visit env mp k pkt b) (hd : Connect.decode.decode pkt = some msg) :
    RefusedWell env k pkt b ↔
      (msg.clientId = [] ∧
        (b.answering (connAckCode msg)).fate env k (b.nextBuf :: b.sess.pendingOf k) = .full) ∨
      (msg.clientId ≠ [] ∧ b.Takes env k ∧ ∃ c, b.sess.Idle msg c ∧ b.Stamped env k c ∧
        (b.answering (connAckCode msg)).fate env k (b.nextBuf :: (b.sess.ctxs c).sendMsgQueue) = .lost) := by
  have ha := hv.alive
  have hg := hv.gate
  -- under these two conditions the handler returns, and the two lemmas above say when that is without effect
  have hreturn : (msg.clientId ≠ [] → b.sess.Openable k msg.clientId) → b.Takes env k →
      (RefusedWell env k pkt b ↔
        (msg.clientId = [] ∧ (b.answering (connAckCode msg)).fate env k (b.nextBuf :: b.sess.pendingOf k) = .full) ∨
        (msg.clientId ≠ [] ∧ ∃ c, b.sess.Idle msg c ∧ b.Stamped env k c ∧
          (b.answering (connAckCode msg)).fate env k (b.nextBuf :: (b.sess.ctxs c).sendMsgQueue) = .lost)) := by
    intro ho ht
    obtain ⟨c, b₁, res, b', hrun, hopened, hstamps, hends⟩ := handleConnectMsg_ends hd ha ho ht
    have hwell : RefusedWell env k pkt b ↔ res = -1 ∧ NoEffect k b b' := by
      constructor
      · rintro ⟨b'', hrun', heff⟩
        rw [hrun] at hrun'
        cases hrun'
        exact ⟨rfl, heff⟩
      · rintro ⟨rfl, heff⟩
        exact ⟨b', hrun, heff⟩
    have ht' : (b.answering (connAckCode msg)).Takes env k := ht
    rw [hwell]
    by_cases hid : msg.clientId = []
    · rw [refused_nobody hid hg ha hopened hstamps hends (pending_of_lost ht'), hopened.queue hid]
      exact ⟨fun hf => Or.inl ⟨hid, hf⟩, fun h => h.elim And.right fun h => absurd hid h.1⟩
    · rw [refused_named hid hg hopened hstamps hends (pending_of_lost ht')]
      constructor
      · rintro ⟨hf, hidle, hstamped⟩
        rw [(hopened.idle hid hidle).2] at hf
        exact Or.inr ⟨hid, c, hidle, hstamped, hf⟩
      · rintro (⟨hnil, -⟩ | ⟨-, c', hidle, hstamped, hf⟩)
        · exact absurd hnil hid
        · obtain ⟨rfl, hq⟩ := hopened.idle hid hidle
          rw [hq]
          exact ⟨hf, hidle, hstamped⟩
  constructor
  · intro h
    have hdone := h
    obtain ⟨b', hrun, -⟩ := hdone
    obtain ⟨ho, ht⟩ := handleConnectMsg_returns hd hrun
    rcases (hreturn ho ht).mp h with hfull | ⟨hid, hidle⟩
    · exact Or.inl hfull
    · exact Or.inr ⟨hid, ht, hidle⟩
  · rintro (⟨hid, hfull⟩ | ⟨hid, ht, c, hidle, hstamped, hlost⟩)
    · have ht : b.Takes env k := by
        by_contra hn
        have ht' : ¬ (b.answering (connAckCode msg)).Takes env k := hn
        rw [Broker.fate_cons, if_neg ht'] at hfull
        cases hfull
      exact (hreturn (fun hne => absurd hid hne) ht).mpr (Or.inl ⟨hid, hfull⟩)
    · have ho : b.sess.Openable k msg.clientId := by
        intro c' last hf hl
        rw [hidle.1] at hf
        cases hf
        rw [hidle.2.1] at hl
        cases hl
      exact (hreturn (fun _ => ho) ht).mpr (Or.inr ⟨hid, c, hidle, hstamped, hlost⟩)

/-- A socket that takes nothing. -/
def Env.stalled : Env := { Env.calm with write := fun _ _ => { errnoBefore := .none, out := .failed .again } }

/-- A CONNECT packet without a client id. -/
def namelessPacket : ByteStr := [0x10, 14, 0, 6, 0x4D, 0x51, 0x49, 0x73, 0x64, 0x70, 3, 2, 0, 60, 0, 0]

/-- A connection whose output queue is full is turned away without effect. -/
theorem refusedWell_full : ∃ b msg, Visit Env.stalled packing 0 namelessPacket b ∧
    Connect.decode.decode namelessPacket = some msg ∧ connAckCode msg = .badId ∧
    RefusedWell Env.stalled 0 namelessPacket b := by
  have hsome : (Connect.decode.decode namelessPacket).any (fun msg => decide (connAckCode msg = .badId ∧
      msg.clientId = [])) = true := by
    decide +kernel
  obtain ⟨msg, hd, hmsg⟩ := (Option.any_eq_true _ _).mp hsome
  obtain ⟨hcode, hid⟩ := of_decide_eq_true hmsg
  have hrun : (Machine.initial.play Env.stalled packing (Move.alone 1 .accept ++
      Move.alone 2 (.input 0 (List.replicate 50 [0xC0, 0]).flatten))).any
      (fun m => decide (m.Hands 3 0 namelessPacket ∧ (((m.reading 3 0 namelessPacket).receiving 0).answering .badId).fate
        Env.stalled 0 (m.broker.nextBuf :: m.broker.sess.pendingOf 0) = .full)) = true := by
    decide +kernel
  obtain ⟨m, hm, hands, hfull⟩ := Machine.exists_reach hrun
  have hv := Visit.of_hands hm hands
  refine ⟨_, msg, hv, hd, hcode, (refusedWell_iff hv hd).mpr (Or.inl ⟨hid, ?_⟩)⟩
  rw [hcode]
  exact hfull

/-- **A CONNECT of an unsupported version opens a session.** -/
theorem not_refusedWell_version : ∃ b msg, Visit Env.calm packing 0 (refusedPacket 65) b ∧
    Connect.decode.decode (refusedPacket 65) = some msg ∧ connAckCode msg = .badVersion ∧
    (handleConnectMsg Env.calm 0 (refusedPacket 65) b).toBool = true ∧ ¬ RefusedWell Env.calm 0 (refusedPacket 65) b := by
  have hsome : (Connect.decode.decode (refusedPacket 65)).any (fun msg => decide (connAckCode msg = .badVersion)) = true := by
    decide +kernel
  obtain ⟨msg, hd, hmsg⟩ := (Option.any_eq_true _ _).mp hsome
  have hcode := of_decide_eq_true hmsg
  have hrun : (Machine.initial.play Env.calm packing (Move.alone 1 .accept)).any
      (fun m => decide (m.Hands 2 0 (refusedPacket 65) ∧ m.broker.sess.registry.findClientContext [65] = none ∧
        (handleConnectMsg Env.calm 0 (refusedPacket 65)
          ((m.reading 2 0 (refusedPacket 65)).receiving 0)).toOption.any (fun p =>
            decide (p.2.sess.registry.findClientContext [65] = some (.conn 0))) = true)) = true := by
    decide +kernel
  obtain ⟨m, hm, hands, hbefore, hafter⟩ := Machine.exists_reach hrun
  obtain ⟨⟨res, b'⟩, hp, hin⟩ := (Option.any_eq_true _ _).mp hafter
  have hok := ok_of_toOption hp
  refine ⟨_, msg, Visit.of_hands hm hands, hd, hcode, by rw [hok]; rfl, ?_⟩
  rintro ⟨b'', hrun', heff⟩
  rw [hok] at hrun'
  cases hrun'
  have hreg := of_decide_eq_true hin
  have hsame : b'.sess.registry = m.broker.sess.registry := heff.tables.registry
  rw [hsame, hbefore] at hreg
  cases hreg

end MqttServer
