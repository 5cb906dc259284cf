import MqttServer.Correctness.Output
import MqttServer.Correctness.Sessions

/-!
# `Correctness.FanOut` — publishing to a whole subscriber set

`publish` walks the subscriber set of a topic and puts the message to each subscriber in turn. A `put` that fails hard
closes the connection of the subscriber, and for a clean session the close erases the subscriber from the very set the
loop stands in. All other outcomes leave the set alone: sent, queued, refused by a full queue, or a hard error on a
session that lasts or does not list the topic.
-/

namespace MqttServer

open Lib Exec

variable {env : Env} {mp : MsgPack} {b b' b₁ : Broker} {k : ConnId} {c : CtxId} {m : MbufId} {t : ByteStr}

/-! ## Watching `publish` -/

section Noting

variable {α : Type} (note : Broker → CtxId → List α)

/-- The loop of `publish`, with what `note` sees at the beginning of each round. -/
def publishLoopNoting (env : Env) (t : ByteStr) (m : MbufId) : List CtxId → BrokerM (List α)
  | [] => pure []
  | c :: cs => do
      let b ← get
      if c ∈ b.sess.topicMgr.clients t then do
        publishClient env c m
        let b' ← get
        if c ∈ b'.sess.topicMgr.clients t then do
          let notes ← publishLoopNoting env t m cs
          pure (note b c ++ notes)
        else Exec.fault (.iterator c)
      else publishLoopNoting env t m cs

/-- `publish(str_topic_name, mbuf, publish_msg)`, watched. -/
def publishTopicNoting (env : Env) (t : ByteStr) (m : MbufId) (msg : Publish) : BrokerM (List α) := do
  let b ← get
  let id := (b.bufs m).msgId
  let noSubClient := (b.sess.topicMgr.lookup t).isNone
  set (b.act { b.sess with topicMgr := b.sess.topicMgr.ensure t } (.publish t m id))
  updateRetain t m msg
  if noSubClient then pure []
  else do
    modify (·.startStat id)
    let b ← get
    let notes ← publishLoopNoting note env t m (env.order (b.sess.topicMgr.clients t).toList)
    modify (·.endStat id)
    pure notes

theorem publishLoop_noting (cs : List CtxId) : ∀ b : Broker,
    (publishLoopNoting note env t m cs >>= fun _ => pure () : BrokerM Unit) b = publishLoop env t m cs b := by
  induction cs with
  | nil => exact fun _ => rfl
  | cons c cs ih =>
      intro b
      unfold publishLoopNoting publishLoop
      simp only [bind_assoc]
      rw [get_bind, get_bind]
      by_cases hc : c ∈ b.sess.topicMgr.clients t
      · rw [if_pos hc, if_pos hc]
        simp only [bind_assoc]
        rw [bind_apply, bind_apply]
        cases publishClient env c m b with
        | error e => rfl
        | ok p =>
            simp only
            rw [get_bind, get_bind]
            by_cases hc' : c ∈ p.2.sess.topicMgr.clients t
            · rw [if_pos hc', if_pos hc', ← ih p.2]
              simp only [bind_assoc]
              rfl
            · rw [if_neg hc', if_neg hc']
              rfl
      · rw [if_neg hc, if_neg hc]
        exact ih b

/-- Unwatched it is the `publish` of the handlers. -/
theorem publishTopic_noting (msg : Publish) (b : Broker) :
    (publishTopicNoting note env t m msg >>= fun _ => pure () : BrokerM Unit) b = publishTopic env t m msg b := by
  unfold publishTopicNoting publishTopic publishSet
  simp only [bind_assoc]
  rw [get_bind, get_bind, set_bind, set_bind, bind_apply, bind_apply]
  cases updateRetain t m msg (b.act { b.sess with topicMgr := b.sess.topicMgr.ensure t }
      (.publish t m (b.bufs m).msgId)) with
  | error e => rfl
  | ok p =>
      simp only
      by_cases hno : (b.sess.topicMgr.lookup t).isNone
      · rw [if_pos hno, if_pos hno]
        rfl
      · rw [if_neg hno, if_neg hno]
        simp only [bind_assoc]
        rw [modify_bind, modify_bind, get_bind, get_bind, bind_apply, bind_apply, ← publishLoop_noting note]
        rw [bind_apply]
        cases publishLoopNoting note env t m _ _ with
        | error e => rfl
        | ok q => rfl

end Noting

/-- The return value of `publish`, the number of its rounds; its callers only log it. -/
def publishTopicCount (env : Env) (t : ByteStr) (m : MbufId) (msg : Publish) : BrokerM Nat := do
  let rounds ← publishTopicNoting (fun _ c => [c]) env t m msg
  pure rounds.length

/-! ## One subscriber -/

/-- The connection of the subscriber, if it has one, is lost with the next `put`. -/
def Severed (env : Env) (b : Broker) (c : CtxId) : Prop :=
  ∃ k, (b.sess.ctxs c).mqttConnection = some k ∧ ¬ b.Takes env k

/-- A subscriber that is erased from the set of the topic when its connection is closed. -/
def Sess.Leaves (s : Sess) (t : ByteStr) (c : CtxId) : Prop :=
  (s.ctxs c).cleanSession = true ∧ t ∈ (s.ctxs c).topicNames

/-- The connections some contexts point at point back. -/
def Sess.WellLinked (s : Sess) (cs : List CtxId) : Prop :=
  ∀ c ∈ cs, ∀ k, (s.ctxs c).mqttConnection = some k → s.contextOf k = some c

/-- What one round of the loop leaves: the message is pending, and a connection that is lost is closed. The output of
    other connections is as before, and the buffer too unless a part of it was written. -/
structure Visited (env : Env) (c : CtxId) (m : MbufId) (b b₁ : Broker) : Prop where
  kept : ¬ Severed env b c → b₁.sess = b.sess.modifyContext c (·.addSendMsg m)
  lost : ∀ k, (b.sess.ctxs c).mqttConnection = some k → ¬ b.Takes env k →
    b₁.sess = (b.sess.modifyContext c (·.addSendMsg m)).close k c
  others : ∀ k, (b.sess.ctxs c).mqttConnection ≠ some k → b₁.handlers k = b.handlers k ∧ b₁.nwrites k = b.nwrites k
  moved : ∀ k, (b.sess.ctxs c).mqttConnection = some k → b.Moves env k m → (b₁.bufs m).1.length < (b.bufs m).1.length
  unmoved : (∀ k, (b.sess.ctxs c).mqttConnection = some k → ¬ b.Moves env k m) → b₁.bufs m = b.bufs m

/-- **One round of the loop** completes. -/
theorem publishClient_visited (env : Env) (m : MbufId)
    (hl : ∀ k, (b.sess.ctxs c).mqttConnection = some k → b.sess.contextOf k = some c) :
    ∃ b₁, publishClient env c m b = .ok ((), b₁) ∧ Visited env c m b b₁ := by
  unfold publishClient
  rw [get_bind, set_bind]
  cases hc : (b.sess.ctxs c).mqttConnection with
  | none =>
      refine ⟨_, rfl, ⟨fun _ => rfl, fun k hk => ?_, fun k _ => ⟨rfl, rfl⟩, fun k hk => ?_, fun _ => rfl⟩⟩
      · rw [hc] at hk
        cases hk
      · rw [hc] at hk
        cases hk
  | some k =>
      have hctx : ({ b with sess := b.sess.modifyContext c (·.addSendMsg m) } : Broker).sess.contextOf k = some c :=
        hl k hc
      obtain ⟨hmoved, hunmoved⟩ :=
        Broker.afterPut_buf env { b with sess := b.sess.modifyContext c (·.addSendMsg m) } k m
      simp only
      by_cases ht : b.Takes env k
      · have hput : put env k m { b with sess := b.sess.modifyContext c (·.addSendMsg m) } = _ :=
          put_takes (Sess.alive_of_contextOf hctx) ht
        rw [bind_apply, hput]
        refine ⟨_, rfl, ⟨fun _ => rfl, fun k' hk' hn => ?_, fun k' hk' => ?_, fun k' hk' hm => ?_, fun hm => ?_⟩⟩
        · rw [hc] at hk'
          cases hk'
          exact absurd ht hn
        · have hne : k' ≠ k := by
            rintro rfl
            exact hk' hc
          exact ⟨Function.update_of_ne hne _ _, Function.update_of_ne hne _ _⟩
        · rw [hc] at hk'
          cases hk'
          exact hmoved hm
        · exact hunmoved (hm k hc)
      · -- the message is not taken, and `put` closes the connection
        have hput : put env k m { b with sess := b.sess.modifyContext c (·.addSendMsg m) } = _ := put_loses ht hctx
        rw [bind_apply, hput]
        refine ⟨_, rfl, ⟨fun hn => absurd ⟨k, hc, ht⟩ hn, fun k' hk' _ => ?_, fun k' hk' => ?_, fun k' hk' hm => ?_,
          fun hm => ?_⟩⟩
        · rw [hc] at hk'
          cases hk'
          rfl
        · have hne : k' ≠ k := by
            rintro rfl
            exact hk' hc
          refine ⟨?_, Function.update_of_ne hne _ _⟩
          show Function.update (Function.update b.handlers k _) k _ k' = _
          rw [Function.update_of_ne hne, Function.update_of_ne hne]
        · rw [hc] at hk'
          cases hk'
          exact hmoved hm
        · exact hunmoved (hm k hc)

namespace Visited

/-- The two ways a round can end. -/
theorem cases (h : Visited env c m b b₁) : b₁.sess = b.sess.modifyContext c (·.addSendMsg m) ∧ ¬ Severed env b c ∨
    ∃ k, (b.sess.ctxs c).mqttConnection = some k ∧ ¬ b.Takes env k ∧
      b₁.sess = (b.sess.modifyContext c (·.addSendMsg m)).close k c := by
  by_cases hlost : Severed env b c
  · obtain ⟨k, hk, ht⟩ := hlost
    exact Or.inr ⟨k, hk, ht, h.lost k hk ht⟩
  · exact Or.inl ⟨h.kept hlost, hlost⟩

/-- The message is pending, and nothing else happens to any queue. -/
theorem queue (h : Visited env c m b b₁) (c' : CtxId) : (b₁.sess.ctxs c').sendMsgQueue =
    if c' = c then (b.sess.ctxs c).sendMsgQueue ++ [m] else (b.sess.ctxs c').sendMsgQueue := by
  rcases h.cases with ⟨hs, -⟩ | ⟨k, -, -, hs⟩
  · rw [hs, Sess.modifyContext_ctxs]
    split <;> rfl
  · rw [hs, Sess.close_ctxs]
    by_cases hc : c' = c
    · rw [if_pos hc, if_pos hc, Sess.modifyContext_ctxs, if_pos rfl]
      rfl
    · rw [if_neg hc, if_neg hc, Sess.modifyContext_ctxs, if_neg hc]

theorem other (h : Visited env c m b b₁) {c' : CtxId} (hne : c' ≠ c) : b₁.sess.ctxs c' = b.sess.ctxs c' := by
  rcases h.cases with ⟨hs, -⟩ | ⟨k, -, -, hs⟩
  · rw [hs, Sess.modifyContext_ctxs, if_neg hne]
  · rw [hs, Sess.close_ctxs, if_neg hne, Sess.modifyContext_ctxs, if_neg hne]

/-- The set of the topic loses the subscriber exactly when its connection is lost and it leaves the topic with it. -/
theorem clients (h : Visited env c m b b₁) (t : ByteStr) (c' : CtxId) : c' ∈ b₁.sess.topicMgr.clients t ↔
    c' ∈ b.sess.topicMgr.clients t ∧ ¬ (Severed env b c ∧ b.sess.Leaves t c ∧ c' = c) := by
  rcases h.cases with ⟨hs, hlost⟩ | ⟨k, hk, ht, hs⟩
  · rw [hs]
    exact ⟨fun hc => ⟨hc, fun hx => hlost hx.1⟩, fun hc => hc.1⟩
  · have hctx : ((b.sess.modifyContext c (·.addSendMsg m)).ctxs c) = (b.sess.ctxs c).addSendMsg m := by
      rw [Sess.modifyContext_ctxs, if_pos rfl]
    have hlost : Severed env b c := ⟨k, hk, ht⟩
    rw [hs, Sess.mem_clients_close, hctx]
    refine and_congr_right fun _ => not_congr ?_
    exact ⟨fun hx => ⟨hlost, ⟨hx.1, hx.2.1⟩, hx.2.2⟩, fun hx => ⟨hx.2.1.1, hx.2.1.2, hx.2.2⟩⟩

/-- Otherwise the set is as before. -/
theorem stays (h : Visited env c m b b₁) (hn : ¬ (Severed env b c ∧ b.sess.Leaves t c)) (c' : CtxId) :
    c' ∈ b₁.sess.topicMgr.clients t ↔ c' ∈ b.sess.topicMgr.clients t := by
  rw [h.clients]
  exact ⟨fun hc => hc.1, fun hc => ⟨hc, fun hx => hn ⟨hx.1, hx.2.1⟩⟩⟩

/-- The connections of the other subscribers are as before. -/
theorem wellLinked {cs : List CtxId} (h : Visited env c m b b₁) (hc : c ∉ cs) (hw : b.sess.WellLinked (c :: cs)) :
    b₁.sess.WellLinked cs ∧ ∀ c' ∈ cs, (Severed env b₁ c' ↔ Severed env b c') ∧ (b₁.sess.Leaves t c' ↔ b.sess.Leaves t c') := by
  have hne : ∀ c' ∈ cs, c' ≠ c := by
    rintro c' hc' rfl
    exact hc hc'
  have hapart : ∀ c' ∈ cs, ∀ k, (b.sess.ctxs c').mqttConnection = some k → (b.sess.ctxs c).mqttConnection ≠ some k := by
    intro c' hc' k hk hk'
    have hown := hw c' (List.mem_cons_of_mem c hc') k hk
    rw [hw c List.mem_cons_self k hk'] at hown
    exact hne c' hc' (Option.some.inj hown).symm
  refine ⟨fun c' hc' k hk => ?_, fun c' hc' => ⟨?_, ?_⟩⟩
  · rw [h.other (hne c' hc')] at hk
    have hold := hw c' (List.mem_cons_of_mem c hc') k hk
    rcases h.cases with ⟨hs, -⟩ | ⟨k', hk', -, hs⟩
    · rw [hs]
      exact hold
    · rw [hs, Sess.close_contextOf, if_neg]
      · exact hold
      · rintro rfl
        exact hapart c' hc' k hk hk'
  · unfold Severed
    rw [h.other (hne c' hc')]
    refine exists_congr fun k => and_congr_right fun hk => ?_
    obtain ⟨hhand, hwrites⟩ := h.others k (hapart c' hc' k hk)
    unfold Broker.Takes
    rw [hhand, hwrites]
  · unfold Sess.Leaves
    rw [h.other (hne c' hc')]

end Visited

/-! ## The loop -/

/-- Each context of the list has the message pending once more, and no other has. -/
def Appended (cs : List CtxId) (m : MbufId) (b b' : Broker) : Prop :=
  ∀ c, (b'.sess.ctxs c).sendMsgQueue =
    if c ∈ cs then (b.sess.ctxs c).sendMsgQueue ++ [m] else (b.sess.ctxs c).sendMsgQueue

/-- One round of the watched loop that goes on. -/
theorem publishLoopNoting_round {α : Type} {note : Broker → CtxId → List α} {cs : List CtxId}
    (hc : c ∈ b.sess.topicMgr.clients t) (hround : publishClient env c m b = .ok ((), b₁))
    (hc' : c ∈ b₁.sess.topicMgr.clients t) : publishLoopNoting note env t m (c :: cs) b =
      (publishLoopNoting note env t m cs >>= fun notes => pure (note b c ++ notes) : BrokerM (List α)) b₁ := by
  show (get >>= _ : BrokerM (List α)) b = _
  rw [get_bind, if_pos hc, bind_apply, hround]
  simp only
  rw [get_bind, if_pos hc']

/-- **The loop** goes through unless a subscriber that is lost leaves the topic. -/
theorem publishLoopNoting_total (cs : List CtxId) : ∀ b : Broker, cs.Nodup →
    (∀ c ∈ cs, c ∈ b.sess.topicMgr.clients t) → b.sess.WellLinked cs →
    (∀ c ∈ cs, Severed env b c → ¬ b.sess.Leaves t c) →
      ∃ b', publishLoopNoting (fun _ c => [c]) env t m cs b = .ok (cs, b') ∧ Appended cs m b b' ∧
        ∀ c, c ∈ b'.sess.topicMgr.clients t ↔ c ∈ b.sess.topicMgr.clients t := by
  induction cs with
  | nil =>
      intro b _ _ _ _
      exact ⟨b, rfl, fun c => (if_neg List.not_mem_nil).symm, fun _ => Iff.rfl⟩
  | cons c cs ih =>
      intro b hnd hmem hw hstay
      obtain ⟨hc, hnd⟩ := List.nodup_cons.mp hnd
      obtain ⟨b₁, hround, hpub⟩ := publishClient_visited env m fun k hk => hw c List.mem_cons_self k hk
      have hset := hpub.stays (t := t) fun hx => hstay c List.mem_cons_self hx.1 hx.2
      obtain ⟨hw₁, hsame⟩ := hpub.wellLinked (t := t) hc hw
      obtain ⟨b', hloop, happ, hset'⟩ := ih b₁ hnd
        (fun c' hc' => (hset c').mpr (hmem c' (List.mem_cons_of_mem c hc'))) hw₁ (fun c' hc' hlost hleaves =>
          hstay c' (List.mem_cons_of_mem c hc') ((hsame c' hc').1.mp hlost) ((hsame c' hc').2.mp hleaves))
      have hin := hmem c List.mem_cons_self
      refine ⟨b', ?_, fun c' => ?_, fun c' => (hset' c').trans (hset c')⟩
      · rw [publishLoopNoting_round hin hround ((hset c).mpr hin), bind_apply, hloop]
        rfl
      · rw [happ c', hpub.queue]
        by_cases hcc : c' = c
        · subst hcc
          rw [if_neg hc, if_pos rfl, if_pos List.mem_cons_self]
        · rw [if_neg hcc]
          simp only [List.mem_cons, hcc, false_or]

/-- A subscriber that is lost and leaves the topic stops the loop. -/
theorem publishLoopNoting_stops {α : Type} {note : Broker → CtxId → List α} (cs : List CtxId) :
    ∀ (b b' : Broker) (notes : List α), cs.Nodup →
    (∀ c ∈ cs, c ∈ b.sess.topicMgr.clients t) → b.sess.WellLinked cs →
    publishLoopNoting note env t m cs b = .ok (notes, b') → ∀ c ∈ cs, Severed env b c → ¬ b.sess.Leaves t c := by
  induction cs with
  | nil => exact fun _ _ _ _ _ _ _ c hc => absurd hc List.not_mem_nil
  | cons c cs ih =>
      intro b b' notes hnd hmem hw hrun
      obtain ⟨hc, hnd⟩ := List.nodup_cons.mp hnd
      obtain ⟨b₁, hround, hpub⟩ := publishClient_visited env m fun k hk => hw c List.mem_cons_self k hk
      -- the loop went on from this subscriber, so it is still there
      have hin : c ∈ b₁.sess.topicMgr.clients t := by
        unfold publishLoopNoting at hrun
        rw [get_bind, if_pos (hmem c List.mem_cons_self), bind_apply, hround] at hrun
        simp only at hrun
        rw [get_bind] at hrun
        by_contra hout
        rw [if_neg hout] at hrun
        cases hrun
      rw [publishLoopNoting_round (hmem c List.mem_cons_self) hround hin, bind_ok] at hrun
      obtain ⟨notes', b₂, hloop, -⟩ := hrun
      have hstay : ¬ (Severed env b c ∧ b.sess.Leaves t c) := fun hx => ((hpub.clients t c).mp hin).2 ⟨hx.1, hx.2, rfl⟩
      have hset := hpub.stays hstay
      obtain ⟨hw₁, hsame⟩ := hpub.wellLinked (t := t) hc hw
      have hrest := ih b₁ b₂ notes' hnd
        (fun c' hc' => (hset c').mpr (hmem c' (List.mem_cons_of_mem c hc'))) hw₁ hloop
      intro c' hc'
      rcases List.mem_cons.mp hc' with rfl | hc'
      · exact fun hlost hleaves => hstay ⟨hlost, hleaves⟩
      · exact fun hlost hleaves => hrest c' hc' ((hsame c' hc').1.mpr hlost) ((hsame c' hc').2.mpr hleaves)

/-! ## The whole of `publish` -/

/-- The parts of the state the loop depends on. -/
structure SameLinks (b b' : Broker) : Prop where
  ctxs : b'.sess.ctxs = b.sess.ctxs
  conns : b'.sess.conns = b.sess.conns
  clients : ∀ t, b'.sess.topicMgr.clients t = b.sess.topicMgr.clients t
  handlers : b'.handlers = b.handlers
  nwrites : b'.nwrites = b.nwrites

theorem SameLinks.wellLinked {cs : List CtxId} (h : SameLinks b b') : b'.sess.WellLinked cs ↔ b.sess.WellLinked cs := by
  unfold Sess.WellLinked Sess.contextOf
  rw [h.ctxs, h.conns]

theorem SameLinks.severed (h : SameLinks b b') : Severed env b' c ↔ Severed env b c := by
  unfold Severed Broker.Takes
  rw [h.ctxs, h.handlers, h.nwrites]

theorem SameLinks.leaves (h : SameLinks b b') : b'.sess.Leaves t c ↔ b.sess.Leaves t c := by
  unfold Sess.Leaves
  rw [h.ctxs]

/-- The start of `publish`: the node, the retained message and the statistics. The buffer is not touched. -/
theorem publishTopicNoting_eq {α : Type} (note : Broker → CtxId → List α) (env : Env) (t : ByteStr) (m : MbufId)
    (msg : Publish) (b : Broker) : ∃ b₁, SameLinks b b₁ ∧ (m ≠ b.nextBuf → b₁.bufs m = b.bufs m) ∧
    publishTopicNoting note env t m msg b =
      if (b.sess.topicMgr.lookup t).isNone then .ok ([], b₁)
      else (publishLoopNoting note env t m (env.order (b₁.sess.topicMgr.clients t).toList) >>= fun notes => do
        modify (·.endStat (b.bufs m).msgId)
        pure notes : BrokerM (List α)) b₁ := by
  obtain ⟨b₀, hrun, hsame, hbuf⟩ : ∃ b₀, updateRetain t m msg
      (b.act { b.sess with topicMgr := b.sess.topicMgr.ensure t } (.publish t m (b.bufs m).msgId)) = .ok ((), b₀) ∧
        SameLinks b b₀ ∧ (m ≠ b.nextBuf → b₀.bufs m = b.bufs m) := by
    unfold updateRetain
    rw [get_bind]
    split
    · refine ⟨_, rfl, ⟨rfl, rfl, fun t' => ?_, rfl, rfl⟩, fun hm => Function.update_of_ne hm _ _⟩
      show (TopicMgr.setRetainMsg (b.sess.topicMgr.ensure t) t _).clients t' = _
      rw [TopicMgr.clients_setRetainMsg, TopicMgr.clients_ensure]
    · exact ⟨_, rfl, ⟨rfl, rfl, fun t' => TopicMgr.clients_ensure _ _ _, rfl, rfl⟩, fun _ => rfl⟩
  unfold publishTopicNoting
  by_cases hno : (b.sess.topicMgr.lookup t).isNone
  · refine ⟨b₀, hsame, hbuf, ?_⟩
    rw [get_bind, set_bind, bind_apply, hrun, if_pos hno]
    simp only
    rw [if_pos hno]
    rfl
  · refine ⟨b₀.startStat (b.bufs m).msgId, ⟨hsame.ctxs, hsame.conns, hsame.clients, hsame.handlers, hsame.nwrites⟩,
      hbuf, ?_⟩
    rw [get_bind, set_bind, bind_apply, hrun, if_neg hno]
    simp only
    rw [if_neg hno, modify_bind, get_bind]

/-- `publish` reaches every subscriber: it returns their number, each has the message pending once more and nobody
    else has, and the set is as it was. -/
def FansOut (env : Env) (t : ByteStr) (m : MbufId) (msg : Publish) (b : Broker) : Prop :=
  ∃ b', publishTopicCount env t m msg b = .ok ((b.sess.topicMgr.clients t).toList.length, b') ∧
    Appended (b.sess.topicMgr.clients t).toList m b b' ∧
    ∀ c, c ∈ b'.sess.topicMgr.clients t ↔ c ∈ b.sess.topicMgr.clients t

/-- The list the loop goes through. -/
theorem mem_order (hsame : SameLinks b b₁) : c ∈ env.order (b₁.sess.topicMgr.clients t).toList ↔
    c ∈ b.sess.topicMgr.clients t := by
  rw [(env.order_perm _).mem_iff, ← USet.mem_def, hsame.clients]

/-- A `publish` that returns has lost no subscriber that leaves the topic. -/
theorem publishTopicNoting_stays {α : Type} {note : Broker → CtxId → List α} {msg : Publish} {notes : List α}
    (hw : b.sess.WellLinked (b.sess.topicMgr.clients t).toList)
    (h : publishTopicNoting note env t m msg b = .ok (notes, b')) :
    ∀ c ∈ b.sess.topicMgr.clients t, Severed env b c → ¬ b.sess.Leaves t c := by
  obtain ⟨b₁, hsame, -, heq⟩ := publishTopicNoting_eq note env t m msg b
  rw [heq] at h
  by_cases hno : (b.sess.topicMgr.lookup t).isNone
  · intro c hc
    rw [TopicMgr.clients, Option.isNone_iff_eq_none.mp hno] at hc
    exact absurd hc (USet.not_mem_empty c)
  · rw [if_neg hno, bind_ok] at h
    obtain ⟨notes', b₂, hloop, -⟩ := h
    have hperm := env.order_perm (b₁.sess.topicMgr.clients t).toList
    have hw₁ : b₁.sess.WellLinked (env.order (b₁.sess.topicMgr.clients t).toList) :=
      hsame.wellLinked.mpr fun c hc => hw c ((mem_order hsame).mp hc)
    intro c hc hlost hleaves
    exact publishLoopNoting_stops _ b₁ b₂ notes' (hperm.nodup_iff.mpr (b₁.sess.topicMgr.clients t).nodup)
      (fun c hc => hperm.mem_iff.mp hc) hw₁ hloop c ((mem_order hsame).mpr hc) (hsame.severed.mpr hlost)
      (hsame.leaves.mpr hleaves)

/-- **Fan-out is complete exactly when** no subscriber with a clean session that lists the topic is lost: its output
    queue is not empty, or its next write does not fail hard. -/
theorem fansOut_iff (msg : Publish) (hw : b.sess.WellLinked (b.sess.topicMgr.clients t).toList) :
    FansOut env t m msg b ↔ ∀ c ∈ b.sess.topicMgr.clients t, Severed env b c → ¬ b.sess.Leaves t c := by
  constructor
  · rintro ⟨b', hrun, -, -⟩
    unfold publishTopicCount at hrun
    rw [bind_ok] at hrun
    obtain ⟨rounds, b₂, hrun, -⟩ := hrun
    exact publishTopicNoting_stays hw hrun
  · intro hstay
    obtain ⟨b₁, hsame, -, heq⟩ := publishTopicNoting_eq (fun _ c => [c]) env t m msg b
    unfold FansOut publishTopicCount
    rw [bind_apply, heq]
    by_cases hno : (b.sess.topicMgr.lookup t).isNone
    · -- nobody has subscribed, and the loop is not reached
      have hempty : (b.sess.topicMgr.clients t).toList = [] := by
        simp only [TopicMgr.clients, Option.isNone_iff_eq_none.mp hno]
        rfl
      rw [if_pos hno, hempty]
      refine ⟨b₁, rfl, fun c => ?_, fun c => by rw [hsame.clients]⟩
      rw [if_neg List.not_mem_nil, hsame.ctxs]
    · rw [if_neg hno]
      have hperm := env.order_perm (b₁.sess.topicMgr.clients t).toList
      have hw₁ : b₁.sess.WellLinked (env.order (b₁.sess.topicMgr.clients t).toList) :=
        hsame.wellLinked.mpr fun c hc => hw c ((mem_order hsame).mp hc)
      obtain ⟨b₂, hloop, happ, hset⟩ := publishLoopNoting_total _ b₁
        (hperm.nodup_iff.mpr (b₁.sess.topicMgr.clients t).nodup) (fun c hc => hperm.mem_iff.mp hc) hw₁
        fun c hc hlost hleaves => hstay c ((mem_order hsame).mp hc) (hsame.severed.mp hlost) (hsame.leaves.mp hleaves)
      refine ⟨b₂.endStat (b.bufs m).msgId, ?_, fun c => ?_, fun c => ?_⟩
      · rw [bind_apply, hloop, ← hsame.clients, ← hperm.length_eq]
        rfl
      · show (b₂.sess.ctxs c).sendMsgQueue = _
        rw [happ c, hsame.ctxs]
        by_cases hc : c ∈ (b.sess.topicMgr.clients t).toList
        · rw [if_pos ((mem_order hsame).mpr hc), if_pos hc]
        · rw [if_neg fun h => hc ((mem_order hsame).mp h), if_neg hc]
      · show c ∈ b₂.sess.topicMgr.clients t ↔ _
        rw [hset, hsame.clients]

/-- In a run without a second CONNECT on a connection the links are in order. -/
theorem Reach.wellLinked {m : Machine} (h : Reach env mp m) (hone : OneConnect m.broker.log) (t : ByteStr) :
    m.broker.sess.WellLinked (m.broker.sess.topicMgr.clients t).toList := by
  intro c hc k hk
  have hl := h.links hone
  exact hl.linked c k (hl.subscribed t c hc) hk

/-- Sockets that take the replies to CONNECT and SUBSCRIBE and then fail. -/
def Env.breaking : Env :=
  { Env.calm with
    write := fun k n => if n < 2 then Env.calm.write k n else { errnoBefore := .none, out := .failed .other } }

/-- A session that lasts keeps its place when its connection is lost. -/
theorem fansOut_lasting : ∃ m : Machine, Reach Env.breaking packing m ∧
    .conn 0 ∈ m.broker.sess.topicMgr.clients [116] ∧ Severed Env.breaking m.broker (.conn 0) ∧
    ∀ (n : MbufId) (msg : Publish), FansOut Env.breaking [116] n msg m.broker := by
  have hrun : (Machine.initial.play Env.breaking packing (Move.alone 1 .accept ++
      Move.alone 2 (.input 0 (connectPacket 65 0)) ++ Move.alone 3 (.input 0 (subscribePacket 116)))).any
      (fun m => decide (OneConnect m.broker.log ∧ (m.broker.sess.topicMgr.clients [116]).toList = [.conn 0] ∧
        (m.broker.sess.ctxs (.conn 0)).mqttConnection = some 0 ∧ ¬ m.broker.Takes Env.breaking 0 ∧
        (m.broker.sess.ctxs (.conn 0)).cleanSession = false)) = true := by
    decide +kernel
  obtain ⟨m, hm, hone, hset, hlink, htakes, hlasts⟩ := Machine.exists_reach hrun
  refine ⟨m, hm, ?_, ⟨0, hlink, htakes⟩, fun n msg => (fansOut_iff msg (hm.wellLinked hone _)).mpr ?_⟩
  · rw [USet.mem_def, hset]
    exact List.mem_cons_self
  · intro c hc _ hleaves
    rw [USet.mem_def, hset] at hc
    rw [List.mem_singleton.mp hc] at hleaves
    have hclean := hleaves.1
    rw [hlasts] at hclean
    cases hclean

/-- **A clean session whose connection is lost** stops the fan-out. -/
theorem not_fansOut_clean : ∃ m : Machine, Reach Env.breaking packing m ∧ OneConnect m.broker.log ∧
    m.broker.sess.WellLinked (m.broker.sess.topicMgr.clients [116]).toList ∧
    (process Env.breaking 1 (publishPacket 116 1) m.broker).toBool = false ∧
    ∀ (n : MbufId) (msg : Publish), ¬ FansOut Env.breaking [116] n msg m.broker := by
  have hrun : (Machine.initial.play Env.breaking packing (Move.alone 1 .accept ++ Move.alone 2 .accept ++
      Move.alone 3 (.input 0 (connectPacket 65 2)) ++ Move.alone 4 (.input 0 (subscribePacket 116)) ++
      Move.alone 5 (.input 1 (connectPacket 66 2)))).any
      (fun m => decide (OneConnect m.broker.log ∧ (process Env.breaking 1 (publishPacket 116 1) m.broker).toBool = false ∧
        .conn 0 ∈ m.broker.sess.topicMgr.clients [116] ∧ (m.broker.sess.ctxs (.conn 0)).mqttConnection = some 0 ∧
        ¬ m.broker.Takes Env.breaking 0 ∧ (m.broker.sess.ctxs (.conn 0)).cleanSession = true ∧
        [116] ∈ (m.broker.sess.ctxs (.conn 0)).topicNames)) = true := by
    decide +kernel
  obtain ⟨m, hm, hone, hfault, hin, hlink, htakes, hclean, hlisted⟩ := Machine.exists_reach hrun
  refine ⟨m, hm, hone, hm.wellLinked hone _, hfault, ?_⟩
  rintro n msg ⟨b', hrun', -, -⟩
  unfold publishTopicCount at hrun'
  rw [bind_ok] at hrun'
  obtain ⟨rounds, b₂, hrun', -⟩ := hrun'
  exact publishTopicNoting_stays (hm.wellLinked hone _) hrun' _ hin ⟨0, hlink, htakes⟩ ⟨hclean, hlisted⟩

end MqttServer
