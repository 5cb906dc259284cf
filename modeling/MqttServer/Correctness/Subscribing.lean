import MqttServer.Codec.Mismatch
import MqttServer.Correctness.Forward

/-!
# `Correctness.Subscribing` — a SUBSCRIBE is not all or nothing

`handle_subscribe_msg` notes the topics in the session, puts a SUBACK, and enters the session into the subscriber sets, each
of these whatever became of the one before. The SUBACK has a buffer of 64 bytes, so one of more than 60 topics is not
encoded; a queue of 50 packets refuses it; and a write that fails hard closes the connection, after which the next topic
accesses a connection that is gone. What a SUBSCRIBE leaves behind is all of it or nothing exactly when the SUBACK is
accepted, or nothing of it is new, and the connection lasts (`allOrNothing_iff`).
-/

namespace MqttServer

open Lib Exec

variable {env : Env} {mp : MsgPack} {b b' : Broker} {k : ConnId} {c : CtxId} {m : MbufId} {s s' : Sess} {msg : Subscribe}

/-! ## The acknowledgement -/

/-- The SUBACK of a SUBSCRIBE: its `msg_id`, and a code for each topic. -/
def Subscribe.ack (msg : Subscribe) : ByteStr :=
  wirePacket { msgType := .suback } (SubAck.body { msgId := msg.msgId, subQos := msg.topicsQos })

theorem Subscribe.ack_length (msg : Subscribe) : msg.ack.length ≤ 64 ↔ msg.subTopics.length ≤ 60 := by
  have hbody : (SubAck.body { msgId := msg.msgId, subQos := msg.topicsQos }).length = msg.subTopics.length + 2 := by
    rw [SubAck.body_length]
    exact congrArg (· + 2) (List.length_map _)
  unfold Subscribe.ack
  rw [wirePacket_length, hbody]
  rcases Nat.lt_or_ge (msg.subTopics.length + 2) 128 with hlt | hge
  · have hone : (Pkt.lengthDigits 5 (msg.subTopics.length + 2)).length = 1 := by
      rw [Pkt.lengthDigits, if_neg (by omega)]
      rfl
    omega
  · omega

/-- **The SUBACK in its buffer of 64 bytes.** -/
theorem encodeSubAck_eq (hn : msg.subTopics.length < 2 ^ 31) : encodeSubAck 64 msg.msgId msg.topicsQos =
    if msg.subTopics.length ≤ 60 then some msg.ack else none := by
  have hbody : (SubAck.body { msgId := msg.msgId, subQos := msg.topicsQos }).length = msg.topicsQos.length + 2 :=
    SubAck.body_length _
  have hqos : msg.topicsQos.length = msg.subTopics.length := List.length_map _
  have hlen : (msg.topicsQos.length + 2) % 2 ^ 32 =
      (SubAck.body { msgId := msg.msgId, subQos := msg.topicsQos }).length := by
    rw [hbody]
    exact Nat.mod_eq_of_lt (by omega)
  have hroom : 6 ≤ (List.replicate 64 (0 : UInt8)).length := by decide
  have hfinish := finish_wirePacket (SubAck.body { msgId := msg.msgId, subQos := msg.topicsQos })
    (h := { msgType := .suback }) hroom ((Pkt.writeShort_emits _ msg.msgId).trans (writeCodes_emits msg.topicsQos _))
  have hsize : (wirePacket { msgType := .suback } (SubAck.body { msgId := msg.msgId, subQos := msg.topicsQos })).length ≤
      (List.replicate 64 (0 : UInt8)).length ↔ msg.subTopics.length ≤ 60 := by
    rw [List.length_replicate]
    exact msg.ack_length
  unfold encodeSubAck SubAck.encodeInto
  simp only [hlen]
  rw [hfinish]
  simp only [hsize]
  rfl

/-- The broker with the topics noted in the session and the SUBACK, if it was encoded, in a new buffer. -/
def Broker.acking (b : Broker) (k : ConnId) (c : CtxId) (msg : Subscribe) : Broker :=
  (b.act (b.sess.modifyContext c (·.addSubcribeTopics msg.subTopics)) (.subscribe k c msg.subTopics)).withBuf
    (Buf.make 64 b.now ((encodeSubAck 64 msg.msgId msg.topicsQos).getD []))

/-- What is put before the topics are entered. -/
def Broker.ackPuts (b : Broker) (msg : Subscribe) : List MbufId := if msg.subTopics.length ≤ 60 then [b.nextBuf] else []

/-- `handle_subscribe_msg` of a connected client. -/
theorem handleSubscribeMsg_eq {pkt : ByteStr} (hc : b.sess.contextOf k = some c)
    (hst : (b.sess.ctxs c).clientStatus = .connected) (hd : Subscribe.decode.decode pkt = some msg)
    (hn : msg.subTopics.length < 2 ^ 31) : handleSubscribeMsg env k pkt b =
      ((if msg.subTopics.length ≤ 60 then put env k b.nextBuf else pure (-1) : BrokerM Int) >>= fun res =>
        subscribeLoop env k msg.topicsName >>= fun _ => pure res) (b.acking k c msg) := by
  unfold handleSubscribeMsg
  rw [bind_apply, clientContext_some hc]
  simp only
  rw [get_bind, if_neg (not_not.mpr hst), hd]
  simp only
  rw [set_bind]
  unfold reply Broker.acking
  rw [encodeSubAck_eq hn]
  by_cases hfit : msg.subTopics.length ≤ 60
  · simp only [if_pos hfit]
    rfl
  · simp only [if_neg hfit]
    rfl

/-! ## The topic loop -/

/-- The retained messages a SUBSCRIBE of these topics puts. -/
def Broker.retainedFor (b : Broker) (ts : List ByteStr) : List MbufId := ts.filterMap b.sess.topicMgr.retainMsg

/-- The session is entered into the subscriber sets of some topics, and nothing else but pending queues changes. -/
structure Entered (c : CtxId) (ts : List ByteStr) (s s' : Sess) : Prop where
  conns : s'.conns = s.conns
  context : ∀ c', ∃ q, s'.ctxs c' = { s.ctxs c' with sendMsgQueue := q }
  clients : ∀ t c', c' ∈ s'.topicMgr.clients t ↔ c' ∈ s.topicMgr.clients t ∨ (t ∈ ts ∧ c' = c)

theorem Entered.nil : Entered c [] s s where
  conns := rfl
  context _ := ⟨_, rfl⟩
  clients t c' := by simp

theorem Entered.cons {t : ByteStr} {ts : List ByteStr} (h : Entered c ts (s.subscribe t c) s') : Entered c (t :: ts) s s' where
  conns := h.conns.trans Sess.subscribe_conns
  context c' := by
    obtain ⟨q, hq⟩ := h.context c'
    obtain ⟨q', hq'⟩ := s.subscribe_ctxs t c c'
    rw [hq'] at hq
    exact ⟨q, hq⟩
  clients t' c' := by
    rw [h.clients, Sess.subscribe_topicMgr, TopicMgr.mem_clients_add, List.mem_cons, or_assoc, or_and_right]

theorem retainedFor_subscribe {b₁ : Broker} {t : ByteStr} (ts : List ByteStr) (hs : b₁.sess = b.sess.subscribe t c) :
    b₁.retainedFor ts = b.retainedFor ts := by
  unfold Broker.retainedFor
  rw [hs, Sess.subscribe_topicMgr]
  refine List.filterMap_congr fun t' _ => ?_
  exact retainMsg_addClientContext _ _ _ _

/-- Nothing is lost on a connection whose queue is full: nothing is written. -/
theorem Broker.not_lost_full (ms : List MbufId) (hfull : maxMsgInBuffer ≤ (b.handlers k).sendMsgQueue.length) :
    b.fate env k ms ≠ .lost := by
  unfold Broker.fate
  obtain ⟨q, hq⟩ := Nat.exists_eq_add_of_le' (Nat.le_trans (show 1 ≤ maxMsgInBuffer by decide) hfull)
  rw [hq] at hfull ⊢
  cases ms with
  | nil => exact (fun h => by cases h)
  | cons m ms =>
      rw [List.map_cons, MqttServer.fate, if_pos hfull]
      exact (fun h => by cases h)

/-- A sequence of `put`s loses the connection with the first, or later. -/
theorem Broker.lost_cons (ms : List MbufId) : b.fate env k (m :: ms) = .lost ↔
    ¬ b.Takes env k ∨ (b.afterPut env k m).fate env k ms = .lost := by
  rw [Broker.fate_cons]
  by_cases ht : b.Takes env k
  · rw [if_pos ht]
    by_cases hres : ((b.handlers k).put b.bufs m (env.write k (b.nwrites k))).res = -1
    · obtain ⟨hfull, hsame⟩ := EventHandler.put_full ht hres
      have hqueue : (b.afterPut env k m).handlers k = b.handlers k := (Function.update_self _ _ _).trans hsame
      have hnot : (b.afterPut env k m).fate env k ms ≠ .lost := Broker.not_lost_full ms (by rw [hqueue]; exact hfull)
      rw [if_pos hres]
      exact ⟨(fun h => by cases h), fun h => h.elim (absurd ht) fun h => absurd h hnot⟩
    · rw [if_neg hres]
      exact ⟨Or.inr, fun h => h.resolve_left (not_not.mpr ht)⟩
  · rw [if_neg ht]
    exact ⟨fun _ => Or.inl ht, fun _ => rfl⟩

/-- One topic of the loop. -/
theorem addClientContext_owner (env : Env) (t : ByteStr) (hown : (b.sess.ctxs c).mqttConnection = some k) :
    ∃ b₁ : Broker, b₁.sess = b.sess.subscribe t c ∧ b₁.handlers = b.handlers ∧ b₁.nwrites = b.nwrites ∧ b₁.bufs = b.bufs ∧
      b.log <+: b₁.log ∧
      (b.sess.topicMgr.retainMsg t = none → addClientContext env t c b = .ok (0, b₁)) ∧
      ∀ m, b.sess.topicMgr.retainMsg t = some m → addClientContext env t c b = put env k m b₁ := by
  unfold addClientContext
  rw [get_bind]
  cases hret : b.sess.topicMgr.retainMsg t with
  | none =>
      refine ⟨{ b with sess := b.sess.subscribe t c }, rfl, rfl, rfl, rfl, List.prefix_refl _, fun _ => ?_, ?_⟩
      · rfl
      · exact fun _ h => by cases h
  | some m =>
      rw [hown]
      refine ⟨b.act (b.sess.subscribe t c) (.retained c t m (b.bufs m).msgId), rfl, rfl, rfl, rfl,
        List.prefix_append _ _, (fun h => by cases h), fun m' h => ?_⟩
      cases h
      rfl

/-- The context of a connection that is gone. -/
theorem clientContext_gone {x : CtxId × Broker} (hk : ¬ b.sess.Alive k) : clientContext env k b ≠ .ok x := by
  obtain ⟨c', b₁⟩ := x
  intro h
  obtain ⟨hctx, rfl | ⟨-, ha, -⟩⟩ := clientContext_ok h
  · exact hk (Sess.alive_of_contextOf hctx)
  · exact hk ha

/-- How a topic loop from `b` on ends: not at all when the connection is lost before the last topic; otherwise every topic is
    entered, and the session closed if the last retained message loses the connection. -/
def LoopEnds (env : Env) (k : ConnId) (c : CtxId) (ts : List ByteStr) (b : Broker)
    (run : Except (Fault × Broker) (Unit × Broker)) : Prop :=
  (b.fate env k (b.retainedFor ts.dropLast) = .lost → ∀ b', run ≠ .ok ((), b')) ∧
  (b.fate env k (b.retainedFor ts.dropLast) ≠ .lost → ∃ b' s₁, run = .ok ((), b') ∧ b.log <+: b'.log ∧
    Entered c ts b.sess s₁ ∧ b'.sess = if b.fate env k (b.retainedFor ts) = .lost then s₁.close k c else s₁)

/-- The loop goes on from a state in which the first topic is entered and the connection alive. -/
theorem LoopEnds.step {b₂ : Broker} {t : ByteStr} {ts : List ByteStr} {run : Except (Fault × Broker) (Unit × Broker)}
    (h : LoopEnds env k c ts b₂ run) (hs : b₂.sess = b.sess.subscribe t c) (hlog : b.log <+: b₂.log)
    (hlost : ∀ ts', b.fate env k (b.retainedFor (t :: ts')) = .lost ↔ b₂.fate env k (b₂.retainedFor ts') = .lost) :
    LoopEnds env k c (t :: ts) b run := by
  obtain ⟨hnot, hends⟩ := h
  have hlast : b.fate env k (b.retainedFor (t :: ts).dropLast) = .lost ↔
      b₂.fate env k (b₂.retainedFor ts.dropLast) = .lost := by
    cases ts with
    | nil => exact ⟨(fun h => by cases h), (fun h => by cases h)⟩
    | cons t' ts => exact hlost _
  refine ⟨fun h => hnot (hlast.mp h), fun h => ?_⟩
  obtain ⟨b', s₁, hloop, hlog', hent, hsess⟩ := hends fun hl => h (hlast.mpr hl)
  rw [hs] at hent
  refine ⟨b', s₁, hloop, hlog.trans hlog', hent.cons, ?_⟩
  simp only [hsess, hlost ts]

/-- **The topic loop** of a connection with a context. -/
theorem subscribeLoop_ends (env : Env) (ts : List ByteStr) : ∀ b : Broker, b.sess.contextOf k = some c →
    (b.sess.ctxs c).mqttConnection = some k → LoopEnds env k c ts b (subscribeLoop env k ts b) := by
  induction ts with
  | nil =>
      intro b _ _
      have htaken : b.fate env k (b.retainedFor []) ≠ .lost := (fun h => by cases h)
      refine ⟨fun h => absurd h htaken, fun _ => ⟨b, b.sess, rfl, List.prefix_refl _, Entered.nil, ?_⟩⟩
      rw [if_neg htaken]
  | cons t ts ih =>
      intro b hc hown
      obtain ⟨b₁, hs, hhand, hwrites, hbufs, hlog, hnone, hsome⟩ := addClientContext_owner env t hown
      have hc₁ : b₁.sess.contextOf k = some c := by
        rw [hs, Sess.subscribe_contextOf]
        exact hc
      have hown₁ : (b₁.sess.ctxs c).mqttConnection = some k := by
        obtain ⟨q, hq⟩ := b.sess.subscribe_ctxs t c c
        rw [hs, hq]
        exact hown
      have hfate : ∀ ms, b₁.fate env k ms = b.fate env k ms := by
        intro ms
        unfold Broker.fate
        rw [hhand, hwrites, hbufs]
      have hret : ∀ ts', b₁.retainedFor ts' = b.retainedFor ts' := fun ts' => retainedFor_subscribe ts' hs
      have hrun : subscribeLoop env k (t :: ts) b =
          (addClientContext env t c >>= fun _ => subscribeLoop env k ts) b := by
        rw [subscribeLoop, bind_apply, clientContext_some hc]
      rw [hrun, bind_apply]
      cases hm : b.sess.topicMgr.retainMsg t with
      | none =>
          rw [hnone hm]
          refine (ih b₁ hc₁ hown₁).step hs hlog fun ts' => ?_
          rw [hfate, hret, Broker.retainedFor, List.filterMap_cons_none hm]
          rfl
      | some m =>
          have hcons : ∀ ts', b.retainedFor (t :: ts') = m :: b.retainedFor ts' := by
            intro ts'
            exact List.filterMap_cons_some hm
          rw [hsome m hm]
          by_cases ht : b₁.Takes env k
          · -- the message is taken, and the loop goes on with the connection open
            rw [put_takes (Sess.alive_of_contextOf hc₁) ht]
            have hlog₂ : b.log <+: (b₁.afterPut env k m).log := hlog.trans (List.prefix_append _ _)
            have hkeep : ∀ ts', (b₁.afterPut env k m).retainedFor ts' = b₁.retainedFor ts' := fun _ => rfl
            refine (ih (b₁.afterPut env k m) hc₁ hown₁).step hs hlog₂ fun ts' => ?_
            rw [hcons, ← hfate, Broker.lost_cons, hkeep, hret]
            exact ⟨fun h => h.resolve_left (not_not.mpr ht), Or.inr⟩
          · -- the retained message loses the connection, and the next topic would access it
            have hlost : ∀ ts', b.fate env k (b.retainedFor (t :: ts')) = .lost := by
              intro ts'
              rw [hcons, ← hfate, Broker.lost_cons]
              exact Or.inl ht
            rw [put_loses ht hc₁]
            cases ts with
            | nil =>
                have hlog' : b₁.log <+: ((b₁.afterPut env k m).afterClose k c .lost).log :=
                  (List.prefix_append _ _).trans (List.prefix_append _ _)
                -- no topic follows, so nothing reads the closed connection
                refine ⟨(fun h => by cases h), fun _ => ⟨_, b₁.sess, rfl, hlog.trans hlog', ?_, ?_⟩⟩
                · rw [hs]
                  exact Entered.nil.cons
                · rw [if_pos (hlost [])]
                  rfl
            | cons t' ts =>
                refine ⟨fun _ b' hloop => ?_, fun h => absurd (hlost _) h⟩
                have hgone : ¬ ((b₁.afterPut env k m).afterClose k c .lost).sess.Alive k := by
                  show ¬ (b₁.sess.close k c).Alive k
                  rw [Sess.alive_close]
                  exact fun h => h.1 rfl
                simp only at hloop
                rw [subscribeLoop, bind_ok] at hloop
                obtain ⟨c', b₂, hctx, -⟩ := hloop
                exact clientContext_gone hgone hctx

/-! ## What is left behind -/

/-- Neither the topic list of the session nor a subscriber set has changed. -/
structure SameSubscriptions (c : CtxId) (s s' : Sess) : Prop where
  listed : (s'.ctxs c).subcribeTopics = (s.ctxs c).subcribeTopics
  entered : ∀ t c', c' ∈ s'.topicMgr.clients t ↔ c' ∈ s.topicMgr.clients t

theorem mem_addSubcribeTopics (topics : List Topic) : ∀ (x : ClientContext) (t : Topic),
    t ∈ (x.addSubcribeTopics topics).subcribeTopics ↔ t ∈ x.subcribeTopics ∨ t ∈ topics := by
  induction topics with
  | nil => simp [ClientContext.addSubcribeTopics]
  | cons t' topics ih =>
      intro x t
      have hstep : (x.addSubcribeTopics (t' :: topics)).subcribeTopics =
          ((x.addSubcribeTopics [t']).addSubcribeTopics topics).subcribeTopics := rfl
      have hone : t ∈ (x.addSubcribeTopics [t']).subcribeTopics ↔ t ∈ x.subcribeTopics ∨ t = t' := by
        show t ∈ (if t' ∈ x.subcribeTopics then x.subcribeTopics else x.subcribeTopics ++ [t']) ↔ _
        by_cases hin : t' ∈ x.subcribeTopics
        · rw [if_pos hin]
          exact ⟨Or.inl, fun h => h.elim id fun h => h ▸ hin⟩
        · rw [if_neg hin, List.mem_append, List.mem_singleton]
      rw [hstep, ih, hone, List.mem_cons, or_assoc]

/-- The list stays as it is when nothing of it is new. -/
theorem addSubcribeTopics_same (topics : List Topic) (x : ClientContext) :
    (x.addSubcribeTopics topics).subcribeTopics = x.subcribeTopics ↔ ∀ t ∈ topics, t ∈ x.subcribeTopics := by
  constructor
  · intro h t ht
    rw [← h, mem_addSubcribeTopics]
    exact Or.inr ht
  · intro h
    show topics.foldl (fun ts t => if t ∈ ts then ts else ts ++ [t]) x.subcribeTopics = x.subcribeTopics
    induction topics with
    | nil => rfl
    | cons t topics ih =>
        rw [List.foldl_cons, if_pos (h t List.mem_cons_self)]
        exact ih fun t' ht' => h t' (List.mem_cons_of_mem _ ht')

section Outcome

variable {topics : List Topic} {s₁ : Sess}

/-- The context of the session when its topics are noted and entered, and the connection is lost or not. -/
theorem Entered.outcome (k : ConnId) (lost : Prop) [Decidable lost]
    (h : Entered c (topics.map Topic.topicName) (s.modifyContext c (·.addSubcribeTopics topics)) s₁) :
    ((if lost then s₁.close k c else s₁).ctxs c).subcribeTopics = ((s.ctxs c).addSubcribeTopics topics).subcribeTopics ∧
    ∀ t c', c' ∈ (if lost then s₁.close k c else s₁).topicMgr.clients t ↔
      (c' ∈ s.topicMgr.clients t ∨ (t ∈ topics.map Topic.topicName ∧ c' = c)) ∧
      ¬ (lost ∧ (s.ctxs c).cleanSession = true ∧ t ∈ ((s.ctxs c).addSubcribeTopics topics).topicNames ∧ c' = c) := by
  obtain ⟨q, hq⟩ := h.context c
  rw [Sess.modifyContext_ctxs, if_pos rfl] at hq
  have hlist : (s₁.ctxs c).subcribeTopics = ((s.ctxs c).addSubcribeTopics topics).subcribeTopics := by rw [hq]
  have hclean : (s₁.ctxs c).cleanSession = (s.ctxs c).cleanSession := by
    rw [hq]
    rfl
  have hnames : (s₁.ctxs c).topicNames = ((s.ctxs c).addSubcribeTopics topics).topicNames := congrArg (List.map Topic.topicName) hlist
  by_cases hl : lost
  · rw [if_pos hl]
    refine ⟨?_, fun t c' => ?_⟩
    · rw [Sess.close_ctxs, if_pos rfl]
      exact hlist
    · rw [Sess.mem_clients_close, h.clients, Sess.modifyContext_topicMgr, hclean, hnames]
      simp only [hl, true_and]
  · rw [if_neg hl]
    refine ⟨hlist, fun t c' => ?_⟩
    rw [h.clients, Sess.modifyContext_topicMgr]
    exact ⟨fun h => ⟨h, fun hdrop => hl hdrop.1⟩, And.left⟩

/-- **Every topic is entered**, unless a clean session is lost. -/
theorem Entered.all_iff (k : ConnId) (lost : Prop) [Decidable lost]
    (h : Entered c (topics.map Topic.topicName) (s.modifyContext c (·.addSubcribeTopics topics)) s₁)
    (hlost : lost → topics ≠ []) :
    (∀ t ∈ topics.map Topic.topicName, c ∈ (if lost then s₁.close k c else s₁).topicMgr.clients t) ↔
      (lost → (s.ctxs c).cleanSession = false) := by
  obtain ⟨-, hclients⟩ := h.outcome k lost
  have hnamed : ∀ t ∈ topics.map Topic.topicName, t ∈ ((s.ctxs c).addSubcribeTopics topics).topicNames := by
    intro t ht
    obtain ⟨x, hx, rfl⟩ := List.mem_map.mp ht
    exact List.mem_map_of_mem ((mem_addSubcribeTopics topics _ x).mpr (Or.inr hx))
  constructor
  · intro hall hl
    obtain ⟨x, hx⟩ := List.exists_mem_of_ne_nil _ (hlost hl)
    have ht : x.topicName ∈ topics.map Topic.topicName := List.mem_map_of_mem hx
    by_contra hclean
    exact ((hclients _ c).mp (hall _ ht)).2 ⟨hl, Bool.eq_true_of_not_eq_false hclean, hnamed _ ht, rfl⟩
  · intro hclean t ht
    refine (hclients t c).mpr ⟨Or.inr ⟨ht, rfl⟩, fun hdrop => ?_⟩
    rw [hclean hdrop.1] at hdrop
    cases hdrop.2.1

/-- **Nothing has changed** exactly when every topic was listed, and the session was in the set of each of them, or in that
    of none of its topics when it is a clean session that is lost. -/
theorem Entered.untouched_iff (k : ConnId) (lost : Prop) [Decidable lost]
    (h : Entered c (topics.map Topic.topicName) (s.modifyContext c (·.addSubcribeTopics topics)) s₁) :
    SameSubscriptions c s (if lost then s₁.close k c else s₁) ↔
      (∀ t ∈ topics, t ∈ (s.ctxs c).subcribeTopics) ∧
      if lost ∧ (s.ctxs c).cleanSession = true then ∀ t ∈ (s.ctxs c).topicNames, c ∉ s.topicMgr.clients t
      else ∀ t ∈ topics.map Topic.topicName, c ∈ s.topicMgr.clients t := by
  obtain ⟨hlist, hclients⟩ := h.outcome k lost
  have hiff : SameSubscriptions c s (if lost then s₁.close k c else s₁) ↔
      ((s.ctxs c).addSubcribeTopics topics).subcribeTopics = (s.ctxs c).subcribeTopics ∧
      ∀ t c', c' ∈ (if lost then s₁.close k c else s₁).topicMgr.clients t ↔ c' ∈ s.topicMgr.clients t := by
    rw [← hlist]
    exact ⟨fun h => ⟨h.listed, h.entered⟩, fun h => ⟨h.1, h.2⟩⟩
  rw [hiff, ← addSubcribeTopics_same]
  refine and_congr_right fun hsame => ?_
  have hnames : ((s.ctxs c).addSubcribeTopics topics).topicNames = (s.ctxs c).topicNames := congrArg (List.map Topic.topicName) hsame
  have hnamed : ∀ t ∈ topics.map Topic.topicName, t ∈ (s.ctxs c).topicNames := by
    intro t ht
    obtain ⟨x, hx, rfl⟩ := List.mem_map.mp ht
    exact List.mem_map_of_mem ((addSubcribeTopics_same topics _).mp hsame x hx)
  rw [hnames] at hclients
  by_cases hdrop : lost ∧ (s.ctxs c).cleanSession = true
  · rw [if_pos hdrop]
    constructor
    · intro hall t ht hin
      exact ((hclients t c).mp ((hall t c).mpr hin)).2 ⟨hdrop.1, hdrop.2, ht, rfl⟩
    · intro hnot t c'
      rw [hclients]
      constructor
      · rintro ⟨hin | ⟨ht, rfl⟩, hkeep⟩
        · exact hin
        · exact absurd ⟨hdrop.1, hdrop.2, hnamed t ht, rfl⟩ hkeep
      · intro hin
        refine ⟨Or.inl hin, ?_⟩
        rintro ⟨-, -, ht, rfl⟩
        exact hnot t ht hin
  · rw [if_neg hdrop]
    constructor
    · intro hall t ht
      exact (hall t c).mp ((hclients t c).mpr ⟨Or.inr ⟨ht, rfl⟩, fun h => hdrop ⟨h.1, h.2.1⟩⟩)
    · intro hin t c'
      rw [hclients]
      constructor
      · rintro ⟨hold | ⟨ht, rfl⟩, -⟩
        · exact hold
        · exact hin t ht
      · exact fun hold => ⟨Or.inl hold, fun h => hdrop ⟨h.1, h.2.1⟩⟩

end Outcome

/-! ## All or nothing -/

/-- **All of it**: the SUBACK stands in a new buffer, the connection accepts it, and every topic is recorded in the session
    and in the topic table. -/
structure Subscribed (env : Env) (k : ConnId) (c : CtxId) (msg : Subscribe) (b b' : Broker) : Prop where
  encoded : ((b.acking k c msg).bufs b.nextBuf).unread = msg.ack
  acked : ∃ r b₂, put env k b.nextBuf (b.acking k c msg) = .ok (r, b₂) ∧ r ≠ -1 ∧ b₂.log <+: b'.log
  listed : ∀ t ∈ msg.subTopics, t ∈ (b'.sess.ctxs c).subcribeTopics
  entered : ∀ t ∈ msg.topicsName, c ∈ b'.sess.topicMgr.clients t

/-- The SUBSCRIBE is handled, and all of it is done, or it is refused and nothing is. -/
def AllOrNothing (env : Env) (k : ConnId) (c : CtxId) (pkt : ByteStr) (msg : Subscribe) (b : Broker) : Prop :=
  ∃ res b', handleSubscribeMsg env k pkt b = .ok (res, b') ∧
    (Subscribed env k c msg b b' ∨ res = -1 ∧ SameSubscriptions c b.sess b'.sess)

namespace Broker

/-- The SUBACK fits its buffer, and the connection accepts it. -/
def AckTaken (env : Env) (b : Broker) (k : ConnId) (c : CtxId) (msg : Subscribe) : Prop :=
  msg.subTopics.length ≤ 60 ∧ (b.acking k c msg).fate env k [b.nextBuf] = .taken

/-- The connection is lost with the SUBACK or a retained message of these topics. -/
def LostWith (env : Env) (b : Broker) (k : ConnId) (c : CtxId) (msg : Subscribe) (ts : List ByteStr) : Prop :=
  (b.acking k c msg).fate env k (b.ackPuts msg ++ b.retainedFor ts) = .lost

/-- The connection lasts until the last topic, and either the SUBACK is accepted, and no clean session is lost with the last
    topic; or it is not, and the session has all the topics already, or none of its topics when it is a clean session that
    is lost. -/
structure SubscribesWell (env : Env) (b : Broker) (k : ConnId) (c : CtxId) (msg : Subscribe) : Prop where
  lasting : msg.subTopics ≠ [] → ¬ b.LostWith env k c msg msg.topicsName.dropLast
  kept : b.AckTaken env k c msg → b.LostWith env k c msg msg.topicsName → (b.sess.ctxs c).cleanSession = false
  listed : ¬ b.AckTaken env k c msg → ∀ t ∈ msg.subTopics, t ∈ (b.sess.ctxs c).subcribeTopics
  entered : ¬ b.AckTaken env k c msg → ¬ (b.LostWith env k c msg msg.topicsName ∧ (b.sess.ctxs c).cleanSession = true) →
    ∀ t ∈ msg.topicsName, c ∈ b.sess.topicMgr.clients t
  absent : ¬ b.AckTaken env k c msg → b.LostWith env k c msg msg.topicsName → (b.sess.ctxs c).cleanSession = true →
    ∀ t ∈ (b.sess.ctxs c).topicNames, c ∉ b.sess.topicMgr.clients t

end Broker

/-- The handler from the topic loop on, in a state in which the connection is alive. -/
theorem allOrNothing_loop {pkt : ByteStr} {r : Int} {b₂ : Broker} (hc : b.sess.contextOf k = some c)
    (hown : (b.sess.ctxs c).mqttConnection = some k) (hs : b₂.sess = (b.acking k c msg).sess)
    (hrun : handleSubscribeMsg env k pkt b = (subscribeLoop env k msg.topicsName >>= fun _ => pure r) b₂)
    (hlost : ∀ ts, b.LostWith env k c msg ts ↔ b₂.fate env k (b.retainedFor ts) = .lost)
    (htaken : b.AckTaken env k c msg ↔ r ≠ -1) (hnot : r = -1 → ∀ b', ¬ Subscribed env k c msg b b')
    (hack : r ≠ -1 → ((b.acking k c msg).bufs b.nextBuf).unread = msg.ack ∧
      put env k b.nextBuf (b.acking k c msg) = .ok (r, b₂)) :
    AllOrNothing env k c pkt msg b ↔ b.SubscribesWell env k c msg := by
  have hctx : b₂.sess.ctxs c = (b.sess.ctxs c).addSubcribeTopics msg.subTopics := by
    rw [hs]
    show (b.sess.modifyContext c (·.addSubcribeTopics msg.subTopics)).ctxs c = _
    rw [Sess.modifyContext_ctxs, if_pos rfl]
  -- the SUBACK changes no topic: the loop sends what was retained before
  have hret : ∀ ts, b₂.retainedFor ts = b.retainedFor ts := by
    intro ts
    unfold Broker.retainedFor
    rw [hs]
    rfl
  obtain ⟨hstop, hend⟩ := subscribeLoop_ends env msg.topicsName b₂ (by rw [hs]; exact hc) (by rw [hctx]; exact hown)
  simp only [hret] at hstop hend
  by_cases hbefore : b.LostWith env k c msg msg.topicsName.dropLast
  · -- the loop runs into a connection that is gone
    have hne : msg.subTopics ≠ [] := by
      intro hnil
      rw [hlost, Subscribe.topicsName, hnil] at hbefore
      cases hbefore
    constructor
    · rintro ⟨res, b', hok, -⟩
      rw [hrun, bind_ok] at hok
      obtain ⟨_, b₃, hloop, -⟩ := hok
      exact absurd hloop (hstop ((hlost _).mp hbefore) b₃)
    · exact fun h => absurd hbefore (h.lasting hne)
  · obtain ⟨b', s₁, hloop, hlog, hent, hsess⟩ := hend fun h => hbefore ((hlost _).mpr h)
    have hdone : handleSubscribeMsg env k pkt b = .ok (r, b') := by
      rw [hrun, bind_apply, hloop]
      rfl
    have hreturn : AllOrNothing env k c pkt msg b ↔
        Subscribed env k c msg b b' ∨ r = -1 ∧ SameSubscriptions c b.sess b'.sess := by
      constructor
      · rintro ⟨res, b'', hok, h⟩
        rw [hdone] at hok
        cases hok
        exact h
      · exact fun h => ⟨r, b', hdone, h⟩
    rw [hs] at hent
    rw [hreturn]
    -- a refused SUBACK is not noticed by the code, and the loop runs all the same
    by_cases hr : r = -1
    · have hno : ¬ b.AckTaken env k c msg := fun h => htaken.mp h hr
      have hsame := hent.untouched_iff k (b₂.fate env k (b.retainedFor msg.topicsName) = .lost)
      rw [← hsess] at hsame
      rw [hsame]
      constructor
      · rintro (h | ⟨-, hlisted, hsets⟩)
        · exact absurd h (hnot hr b')
        · refine ⟨fun _ => hbefore, fun h => absurd h hno, fun _ => hlisted, fun _ hkeep => ?_, fun _ hl hclean => ?_⟩
          · rw [if_neg fun h => hkeep ⟨(hlost _).mpr h.1, h.2⟩] at hsets
            exact hsets
          · rw [if_pos ⟨(hlost _).mp hl, hclean⟩] at hsets
            exact hsets
      · intro h
        refine Or.inr ⟨hr, h.listed hno, ?_⟩
        split
        · rename_i hdrop
          exact h.absent hno ((hlost _).mpr hdrop.1) hdrop.2
        · rename_i hkeep
          exact h.entered hno fun h => hkeep ⟨(hlost _).mp h.1, h.2⟩
    · have hyes : b.AckTaken env k c msg := htaken.mpr hr
      obtain ⟨hbytes, hput⟩ := hack hr
      have hnonempty : b₂.fate env k (b.retainedFor msg.topicsName) = .lost → msg.subTopics ≠ [] := by
        intro hl hnil
        rw [Subscribe.topicsName, hnil] at hl
        cases hl
      have hall := hent.all_iff k _ hnonempty
      rw [← hsess] at hall
      constructor
      · rintro (h | ⟨h, -⟩)
        · refine ⟨fun _ => hbefore, fun _ hl => ?_, fun h => absurd hyes h, fun h => absurd hyes h, fun h => absurd hyes h⟩
          exact hall.mp h.entered ((hlost _).mp hl)
        · exact absurd h hr
      · intro h
        refine Or.inl ⟨hbytes, ⟨r, b₂, hput, hr, hlog⟩, fun t ht => ?_, hall.mpr fun hl => h.kept hyes ((hlost _).mpr hl)⟩
        rw [hsess, (hent.outcome k _).1, mem_addSubcribeTopics]
        exact Or.inr ht

/-- A packet has at least a byte for each topic. -/
theorem Subscribe.decode_topics {pkt : ByteStr} (h : Subscribe.decode.decode pkt = some msg) :
    msg.subTopics.length ≤ pkt.length := by
  have hread : ∀ (fuel : Nat) (p p' : Pkt) (ts : List Topic), readTopics fuel p = (some ts, p') → ts.length ≤ fuel := by
    intro fuel
    induction fuel with
    | zero =>
        intro p p' ts h
        cases h
        exact Nat.le_refl _
    | succ fuel ih =>
        intro p p' ts h
        unfold readTopics at h
        split at h
        · cases h
          exact Nat.zero_le _
        · split at h
          · cases h
            exact Nat.zero_le _
          · split at h
            · rename_i hrest
              cases h
              exact Nat.succ_le_succ (ih _ _ _ hrest)
            · cases h
  have hfull : Subscribe.decode (Pkt.ofBuf pkt) = (some msg, (Subscribe.decode (Pkt.ofBuf pkt)).2) := Prod.ext h rfl
  obtain ⟨⟨header, m⟩, p₁, hdec, hm⟩ := PktM.of_bind hfull
  cases hm
  obtain ⟨header', p₂, hheader, hrest⟩ := PktM.of_bind hdec
  obtain ⟨first, p₃, hfirst, hheader⟩ := PktM.of_bind hheader
  obtain ⟨⟨v, n⟩, p₄, hlength, hheader⟩ := PktM.of_bind hheader
  cases hheader
  split at hrest
  · cases hrest
  · obtain ⟨id, p₅, hid, hrest⟩ := PktM.of_bind hrest
    obtain ⟨ts, p₆, hts, hrest⟩ := PktM.of_bind hrest
    cases hrest
    -- no read changes the buffer
    have hbuf : p₅.buf = pkt := by
      rw [(PktM.readShort_takes hid).2.1, (PktM.readRemainLength_takes hlength).2]
      exact (PktM.readByte_takes hfirst).1
    have hle := hread _ _ _ _ hts
    rw [hbuf] at hle
    exact hle

/-- One `put` is accepted when it does not lose the connection and is not refused. -/
theorem Broker.fate_one : b.fate env k [m] = .taken ↔
    b.Takes env k ∧ ((b.handlers k).put b.bufs m (env.write k (b.nwrites k))).res ≠ -1 := by
  rw [Broker.fate_cons]
  by_cases ht : b.Takes env k
  · rw [if_pos ht]
    split
    · rename_i hres
      exact ⟨(fun h => by cases h), fun h => absurd hres h.2⟩
    · rename_i hres
      exact ⟨fun _ => ⟨ht, hres⟩, fun _ => rfl⟩
  · rw [if_neg ht]
    exact ⟨(fun h => by cases h), fun h => absurd h.1 ht⟩

section Cases

variable {pkt : ByteStr} (hc : b.sess.contextOf k = some c) (hst : (b.sess.ctxs c).clientStatus = .connected)
  (hd : Subscribe.decode.decode pkt = some msg) (hn : msg.subTopics.length < 2 ^ 31)
  (hown : (b.sess.ctxs c).mqttConnection = some k)

include hc hst hd hn

/-- The SUBACK loses the connection. -/
theorem allOrNothing_lost (hfit : msg.subTopics.length ≤ 60) (ht : ¬ (b.acking k c msg).Takes env k) :
    AllOrNothing env k c pkt msg b ↔ b.SubscribesWell env k c msg := by
  have hctx : (b.acking k c msg).sess.contextOf k = some c := hc
  have hput := put_loses (m := b.nextBuf) ht hctx
  have hlost : ∀ ts, b.LostWith env k c msg ts := by
    intro ts
    unfold Broker.LostWith Broker.ackPuts
    rw [if_pos hfit, List.singleton_append, Broker.lost_cons]
    exact Or.inl ht
  have hno : ¬ b.AckTaken env k c msg := fun h => ht (Broker.fate_one.mp h.2).1
  have hclosed : (((b.acking k c msg).afterPut env k b.nextBuf).afterClose k c .lost).sess =
      (b.acking k c msg).sess.close k c := rfl
  have hrun : handleSubscribeMsg env k pkt b = (subscribeLoop env k msg.topicsName >>= fun _ => pure (-1))
      (((b.acking k c msg).afterPut env k b.nextBuf).afterClose k c .lost) := by
    rw [handleSubscribeMsg_eq hc hst hd hn, if_pos hfit, bind_apply, hput]
  generalize ((b.acking k c msg).afterPut env k b.nextBuf).afterClose k c .lost = b₂ at hclosed hrun hput
  cases htopics : msg.subTopics with
  | cons t ts =>
      -- the next topic accesses the connection that is gone
      constructor
      · rintro ⟨res, b', hok, -⟩
        have hgone : ¬ b₂.sess.Alive k := by
          rw [hclosed, Sess.alive_close]
          exact fun h => h.1 rfl
        rw [hrun, Subscribe.topicsName, htopics, List.map_cons, subscribeLoop, bind_ok] at hok
        obtain ⟨_, b₃, hloop, -⟩ := hok
        rw [bind_ok] at hloop
        obtain ⟨c', b₄, hctx', -⟩ := hloop
        exact absurd hctx' (clientContext_gone hgone)
      · exact fun h => absurd (hlost _) (h.lasting (by rw [htopics]; exact List.cons_ne_nil _ _))
  | nil =>
      have hent : Entered c (([] : List Topic).map Topic.topicName) (b.sess.modifyContext c (·.addSubcribeTopics []))
          (b.sess.modifyContext c (·.addSubcribeTopics [])) := Entered.nil
      have hsame := hent.untouched_iff k True
      have hsess : b₂.sess = (b.sess.modifyContext c (·.addSubcribeTopics [])).close k c := by
        rw [hclosed, ← htopics]
        rfl
      rw [if_pos trivial, ← hsess] at hsame
      have hdone : handleSubscribeMsg env k pkt b = .ok (-1, b₂) := by
        rw [hrun, Subscribe.topicsName, htopics]
        rfl
      constructor
      · rintro ⟨res, b', hok, h⟩
        rw [hdone] at hok
        cases hok
        rcases h with ⟨-, ⟨r', b₃, hput', hr', -⟩, -, -⟩ | ⟨-, h⟩
        · rw [hput] at hput'
          cases hput'
          exact absurd rfl hr'
        · refine ⟨fun hne => absurd htopics hne, fun hyes => absurd hyes hno, fun _ t ht => ?_, fun _ _ t ht => ?_,
            fun _ _ hclean => ?_⟩
          · rw [htopics] at ht
            cases ht
          · rw [Subscribe.topicsName, htopics] at ht
            cases ht
          · have hsets := (hsame.mp h).2
            rw [if_pos ⟨trivial, hclean⟩] at hsets
            exact hsets
      · intro h
        refine ⟨-1, b₂, hdone, Or.inr ⟨rfl, hsame.mpr ⟨(fun t ht => by cases ht), ?_⟩⟩⟩
        split
        · rename_i hdrop
          exact h.absent hno (hlost _) hdrop.2
        · exact fun t ht => by cases ht

include hown

/-- The SUBACK is not encoded. -/
theorem allOrNothing_long (hlong : ¬ msg.subTopics.length ≤ 60) :
    AllOrNothing env k c pkt msg b ↔ b.SubscribesWell env k c msg := by
  have hrun : handleSubscribeMsg env k pkt b =
      (subscribeLoop env k msg.topicsName >>= fun _ => pure (-1)) (b.acking k c msg) := by
    rw [handleSubscribeMsg_eq hc hst hd hn, if_neg hlong]
    rfl
  refine allOrNothing_loop hc hown rfl hrun (fun ts => ?_) ⟨fun h => absurd h.1 hlong, fun h => absurd rfl h⟩ ?_
    fun h => absurd rfl h
  · unfold Broker.LostWith Broker.ackPuts
    rw [if_neg hlong, List.nil_append]
  · rintro - b' ⟨hbytes, -⟩
    have hbuf : (b.acking k c msg).bufs b.nextBuf =
        Buf.make 64 b.now ((encodeSubAck 64 msg.msgId msg.topicsQos).getD []) := Function.update_self _ _ _
    have hnil : (Buf.make 64 b.now []).unread = [] := Buf.make_unread (Nat.zero_le _) (by decide)
    rw [hbuf, encodeSubAck_eq hn, if_neg hlong] at hbytes
    have hack : msg.ack = [] := hbytes.symm.trans hnil
    cases hack

/-- The connection takes the SUBACK, or refuses it. -/
theorem allOrNothing_put (hfit : msg.subTopics.length ≤ 60) (ht : (b.acking k c msg).Takes env k) :
    AllOrNothing env k c pkt msg b ↔ b.SubscribesWell env k c msg := by
  have hctx : (b.acking k c msg).sess.contextOf k = some c := hc
  obtain ⟨r, hr, hput⟩ : ∃ r, r = (((b.acking k c msg).handlers k).put (b.acking k c msg).bufs b.nextBuf
      (env.write k ((b.acking k c msg).nwrites k))).res ∧
      put env k b.nextBuf (b.acking k c msg) = .ok (r, (b.acking k c msg).afterPut env k b.nextBuf) :=
    ⟨_, rfl, put_takes (Sess.alive_of_contextOf hctx) ht⟩
  have hrun : handleSubscribeMsg env k pkt b =
      (subscribeLoop env k msg.topicsName >>= fun _ => pure r) ((b.acking k c msg).afterPut env k b.nextBuf) := by
    rw [handleSubscribeMsg_eq hc hst hd hn, if_pos hfit, bind_apply, hput]
  have hsess : ((b.acking k c msg).afterPut env k b.nextBuf).sess = (b.acking k c msg).sess := rfl
  refine allOrNothing_loop hc hown hsess hrun (fun ts => ?_) ?_ ?_ fun _ => ⟨?_, hput⟩
  · unfold Broker.LostWith Broker.ackPuts
    rw [if_pos hfit, List.singleton_append, Broker.lost_cons]
    exact ⟨fun h => h.resolve_left (not_not.mpr ht), Or.inr⟩
  · unfold Broker.AckTaken
    rw [Broker.fate_one, hr]
    exact ⟨fun h => h.2.2, fun h => ⟨hfit, ht, h⟩⟩
  · rintro hno b' ⟨-, ⟨r', b₂, hput', hr', -⟩, -, -⟩
    rw [hput] at hput'
    cases hput'
    exact hr' hno
  · have hbuf : (b.acking k c msg).bufs b.nextBuf =
        Buf.make 64 b.now ((encodeSubAck 64 msg.msgId msg.topicsQos).getD []) := Function.update_self _ _ _
    rw [hbuf, encodeSubAck_eq hn, if_pos hfit]
    exact Buf.make_unread (msg.ack_length.mpr hfit) (by decide)

end Cases

/-- **When a SUBSCRIBE is all or nothing**, for every connected client of a running broker and every SUBSCRIBE that fits
    the receive buffer. -/
theorem allOrNothing_iff {pkt : ByteStr} (hv : Visit env mp k pkt b) (hlen : pkt.length ≤ maxBufSize)
    (hc : b.sess.contextOf k = some c) (hst : (b.sess.ctxs c).clientStatus = .connected)
    (hd : Subscribe.decode.decode pkt = some msg) :
    AllOrNothing env k c pkt msg b ↔ b.SubscribesWell env k c msg := by
  have hown := hv.gate.owner k c hc
  have hn : msg.subTopics.length < 2 ^ 31 :=
    Nat.lt_of_le_of_lt (Nat.le_trans (Subscribe.decode_topics hd) hlen) (by decide)
  by_cases hfit : msg.subTopics.length ≤ 60
  · by_cases ht : (b.acking k c msg).Takes env k
    · exact allOrNothing_put hc hst hd hn hown hfit ht
    · exact allOrNothing_lost hc hst hd hn hfit ht
  · exact allOrNothing_long hc hst hd hn hown hfit

/-! ## Runs -/

/-- A SUBSCRIBE of 61 topics, all of the name `t`. -/
def manyTopics : ByteStr := [0x82, 0xF6, 1, 0, 1] ++ (List.replicate 61 [0, 1, 116, 0]).flatten

/-- A client subscribes to one topic. -/
theorem allOrNothing_one : ∃ b msg, Visit Env.calm packing 0 (subscribePacket 116) b ∧
    b.sess.contextOf 0 = some (.conn 0) ∧ Subscribe.decode.decode (subscribePacket 116) = some msg ∧
    AllOrNothing Env.calm 0 (.conn 0) (subscribePacket 116) msg b := by
  obtain ⟨msg, hmsg⟩ : ∃ msg : Subscribe, msg = { msgId := 1, subTopics := [{ topicName := [116], qos := 0 }] } := ⟨_, rfl⟩
  have hd : Subscribe.decode.decode (subscribePacket 116) = some msg := by
    rw [hmsg]
    decide +kernel
  have hrun : (Machine.initial.play Env.calm packing
      (Move.alone 1 .accept ++ Move.alone 2 (.input 0 (connectPacket 65 0)))).any
      (fun m => decide (m.Hands 4 0 (subscribePacket 116) ∧
        ((m.reading 4 0 (subscribePacket 116)).receiving 0).sess.contextOf 0 = some (.conn 0) ∧
        (((m.reading 4 0 (subscribePacket 116)).receiving 0).sess.ctxs (.conn 0)).clientStatus = .connected ∧
        ((m.reading 4 0 (subscribePacket 116)).receiving 0).retainedFor [[116]] = [] ∧
        (((m.reading 4 0 (subscribePacket 116)).receiving 0).acking 0 (.conn 0)
          { msgId := 1, subTopics := [{ topicName := [116], qos := 0 }] }).fate Env.calm 0
            [((m.reading 4 0 (subscribePacket 116)).receiving 0).nextBuf] = .taken)) = true := by
    decide +kernel
  obtain ⟨m, hm, hands, hctx, hst, hret, hfate⟩ := Machine.exists_reach hrun
  have hv := Visit.of_hands hm hands
  generalize (m.reading 4 0 (subscribePacket 116)).receiving 0 = b at hv hctx hst hret hfate
  rw [← hmsg] at hfate
  have hfit : msg.subTopics.length ≤ 60 := by
    rw [hmsg]
    decide
  have hyes : b.AckTaken Env.calm 0 (.conn 0) msg := ⟨hfit, hfate⟩
  have hkept : ∀ ts, b.retainedFor ts = [] → ¬ b.LostWith Env.calm 0 (.conn 0) msg ts := by
    intro ts hnone
    unfold Broker.LostWith Broker.ackPuts
    rw [if_pos hfit, hnone, List.append_nil, hfate]
    decide
  have hnames : msg.topicsName = [[116]] := by
    rw [hmsg]
    rfl
  refine ⟨b, msg, hv, hctx, hd, (allOrNothing_iff hv (by decide) hctx hst hd).mpr ?_⟩
  refine ⟨fun _ => hkept _ ?_, fun _ h => absurd h (hkept _ ?_), fun h => absurd hyes h, fun h => absurd hyes h,
    fun h => absurd hyes h⟩
  · rw [hnames]
    rfl
  · rw [hnames]
    exact hret

/-- **A SUBSCRIBE of 61 topics is refused and carried out**: its SUBACK does not fit the buffer. -/
theorem not_allOrNothing_many : ∃ b msg, Visit Env.calm packing 0 manyTopics b ∧ manyTopics.length ≤ maxBufSize ∧
    b.sess.contextOf 0 = some (.conn 0) ∧ (b.sess.ctxs (.conn 0)).clientStatus = .connected ∧
    Subscribe.decode.decode manyTopics = some msg ∧ ¬ AllOrNothing Env.calm 0 (.conn 0) manyTopics msg b := by
  have hd : Subscribe.decode.decode manyTopics =
      some { msgId := 1, subTopics := List.replicate 61 { topicName := [116], qos := 0 } } := by decide +kernel
  have hrun : (Machine.initial.play Env.calm packing
      (Move.alone 1 .accept ++ Move.alone 2 (.input 0 (connectPacket 65 0)))).any
      (fun m => decide (m.batch.isEmpty = true ∧ m.broker.now ≤ 4 ∧ m.broker.sess.Alive 0 ∧
        0 < (Machine.reading.recv m 0 manyTopics).curBufPos ∧
        remainLength (RecvBuffer.shift (Machine.reading.recv m 0 manyTopics).mem 0)
          (Machine.reading.recv m 0 manyTopics).curBufPos = .length 246 2 ∧
        RecvBuffer.slice (Machine.reading.recv m 0 manyTopics).mem 0 249 = manyTopics ∧
        ((m.reading 4 0 manyTopics).receiving 0).sess.contextOf 0 = some (.conn 0) ∧
        (((m.reading 4 0 manyTopics).receiving 0).sess.ctxs (.conn 0)).clientStatus = .connected ∧
        (((m.reading 4 0 manyTopics).receiving 0).sess.ctxs (.conn 0)).subcribeTopics = [])) = true := by
    decide +kernel
  obtain ⟨m, hm, hbatch, hnow, halive, hlen, hr, hpkt, hctx, hst, hlist⟩ := Machine.exists_reach hrun
  have hv : Visit Env.calm packing 0 manyTopics ((m.reading 4 0 manyTopics).receiving 0) :=
    Visit.of_reading hm hbatch hnow halive hlen hr hpkt
  generalize (m.reading 4 0 manyTopics).receiving 0 = b at hv hctx hst hlist
  refine ⟨b, _, hv, by decide +kernel, hctx, hst, hd, fun hall => ?_⟩
  have hlong : ¬ (List.replicate 61 ({ topicName := [116], qos := 0 } : Topic)).length ≤ 60 := by decide
  -- nothing of it was known before
  have hwell := (allOrNothing_long hctx hst hd (by decide) (hv.gate.owner _ _ hctx) hlong).mp hall
  have hin := hwell.listed (fun h => hlong h.1) { topicName := [116], qos := 0 } List.mem_cons_self
  rw [hlist] at hin
  cases hin

end MqttServer
