import MqttServer.Correctness.FanOut
import MqttServer.Correctness.Pending

/-!
# `Correctness.Broadcast` — publishing to all clients

`publish_all` walks the topics and in each of them the subscriber set, and puts the message to whomever it meets. A client
is met once for each topic it stands in, so it gets one copy for each (`broadcasts_iff`). What happens to one subscriber has
no influence on the others, and what is left of a walk for a subscriber follows from the state at its start: its turns, and
whether its connection is lost with the first.
-/

namespace MqttServer

open Lib Exec

variable {env : Env} {b b' b₁ : Broker} {k : ConnId} {c : CtxId} {m : MbufId} {t : ByteStr} {cs : List CtxId}
  {ts : List ByteStr}

/-! ## What a client gets -/

/-- How often the message was put on the connection. -/
def Broker.puts (b : Broker) (k : ConnId) (m : MbufId) : Nat := (b.log.filterMap Act.put?).count (k, m)

/-- The context stands in the subscriber set of a topic. -/
def Sess.Subscribes (s : Sess) (c : CtxId) : Prop := ∃ t, c ∈ s.topicMgr.clients t

/-- **The message reaches each client once.** `publish_all` returns; the message is appended once to the pending queue of
    each context that is subscribed to a topic and to no other, and it was put at most once on each connection. -/
def Broadcasts (env : Env) (m : MbufId) (b : Broker) : Prop :=
  ∃ b', publishAll env m b = .ok ((), b') ∧
    (∀ c, (b.sess.Subscribes c → (b'.sess.ctxs c).sendMsgQueue = (b.sess.ctxs c).sendMsgQueue ++ [m]) ∧
      (¬ b.sess.Subscribes c → (b'.sess.ctxs c).sendMsgQueue = (b.sess.ctxs c).sendMsgQueue)) ∧
    ∀ k, b'.puts k m ≤ b.puts k m + 1

/-- The topics of a walk in whose set the context stands. -/
def Broker.turns (b : Broker) (ts : List ByteStr) (c : CtxId) : List ByteStr := ts.filter fun t => c ∈ b.sess.topicMgr.clients t

/-- One turn, and a subscriber that is not lost in it with the set the loop stands in; or it is lost, and with it its place
    in the sets of all later turns. -/
def Once (env : Env) (b : Broker) (c : CtxId) : List ByteStr → Prop
  | [] => True
  | t :: ts => (Severed env b c → ¬ b.sess.Leaves t c) ∧ ∀ t' ∈ ts, Severed env b c ∧ b.sess.Leaves t' c

/-! ## Some rounds -/

/-- The connection of the context points back. -/
def Broker.Linked (b : Broker) (c : CtxId) : Prop := ∀ k, (b.sess.ctxs c).mqttConnection = some k → b.sess.contextOf k = some c

/-- What the rounds of some subscribers leave. -/
structure Rounds (env : Env) (m : MbufId) (cs : List CtxId) (b b' : Broker) : Prop where
  queue : Appended cs m b b'
  other : ∀ c, c ∉ cs → b'.sess.ctxs c = b.sess.ctxs c
  clients : ∀ t c, c ∈ b'.sess.topicMgr.clients t ↔
    c ∈ b.sess.topicMgr.clients t ∧ ¬ (c ∈ cs ∧ Severed env b c ∧ b.sess.Leaves t c)
  linked : ∀ c, b.Linked c → b'.Linked c
  severed : ∀ c, c ∉ cs → b.Linked c → (Severed env b' c ↔ Severed env b c)
  puts : ∀ k, b'.puts k m = b.puts k m + if ∃ c ∈ cs, (b.sess.ctxs c).mqttConnection = some k then 1 else 0

theorem Broker.puts_append (ls : List Act) (h : b'.log = b.log ++ ls) :
    b'.puts k m = b.puts k m + (ls.filterMap Act.put?).count (k, m) := by
  unfold Broker.puts
  rw [h, List.filterMap_append, List.count_append]

/-- One `put` for a subscriber that is online, and none for another. -/
theorem publishClient_puts (hl : b.Linked c) (h : publishClient env c m b = .ok ((), b₁)) (k : ConnId) :
    b₁.puts k m = b.puts k m + if (b.sess.ctxs c).mqttConnection = some k then 1 else 0 := by
  have hone : ∀ k₀ r, ([Act.put k₀ m r].filterMap Act.put?).count (k, m) = if some k₀ = some k then 1 else 0 := by
    intro k₀ r
    show [(k₀, m)].count (k, m) = _
    by_cases hk : k₀ = k
    · simp [hk]
    · simp [hk]
  unfold publishClient at h
  rw [get_bind, set_bind] at h
  cases hc : (b.sess.ctxs c).mqttConnection with
  | none =>
      simp only [hc] at h
      cases h
      rw [if_neg (fun he => by cases he)]
      rfl
  | some k₀ =>
      simp only [hc] at h
      have hctx : ({ b with sess := b.sess.modifyContext c (·.addSendMsg m) } : Broker).sess.contextOf k₀ = some c := hl k₀ hc
      by_cases ht : b.Takes env k₀
      · have hput : put env k₀ m { b with sess := b.sess.modifyContext c (·.addSendMsg m) } = _ :=
          put_takes (Sess.alive_of_contextOf hctx) ht
        rw [bind_apply, hput] at h
        cases h
        exact (Broker.puts_append [.put k₀ m _] rfl).trans (congrArg (b.puts k m + ·) (hone k₀ 0))
      · have hput : put env k₀ m { b with sess := b.sess.modifyContext c (·.addSendMsg m) } = _ := put_loses ht hctx
        rw [bind_apply, hput] at h
        cases h
        exact (Broker.puts_append _ (List.append_assoc b.log [.put k₀ m _] [.close k₀ c .lost _ _])).trans
          (congrArg (b.puts k m + ·) (hone k₀ 0))

/-- **One round.** -/
theorem publishClient_rounds (env : Env) (m : MbufId) (hl : b.Linked c) :
    ∃ b₁, publishClient env c m b = .ok ((), b₁) ∧ Rounds env m [c] b b₁ := by
  obtain ⟨b₁, hrun, hv⟩ := publishClient_visited env m hl
  have hpair : ∀ c', c' ≠ c → b.Linked c' → b.sess.WellLinked (c :: [c']) := by
    intro c' _ hl' x hx
    rcases List.mem_cons.mp hx with rfl | hx
    · exact hl
    · rw [List.mem_singleton.mp hx]
      exact hl'
  refine ⟨b₁, hrun, ⟨fun c' => ?_, fun c' hc' => hv.other fun he => hc' (List.mem_singleton.mpr he), fun t c' => ?_,
    fun c' hl' => ?_, fun c' hc' hl' => ?_, fun k => ?_⟩⟩
  · simp only [List.mem_singleton]
    rw [hv.queue c']
    by_cases hc : c' = c
    · rw [hc]
    · rw [if_neg hc, if_neg hc]
  · rw [hv.clients]
    refine and_congr_right fun _ => not_congr ?_
    rw [List.mem_singleton]
    constructor
    · rintro ⟨hs, hleaves, rfl⟩
      exact ⟨rfl, hs, hleaves⟩
    · rintro ⟨rfl, hs, hleaves⟩
      exact ⟨hs, hleaves, rfl⟩
  · by_cases hc : c' = c
    · subst hc
      rcases hv.cases with ⟨hs, -⟩ | ⟨k, -, -, hs⟩
      · unfold Broker.Linked
        rw [hs, Sess.modifyContext_ctxs, if_pos rfl]
        exact hl
      · intro k hk
        rw [hs, Sess.close_ctxs, if_pos rfl] at hk
        cases hk
    · obtain ⟨hw, -⟩ := hv.wellLinked (t := []) (fun he => hc (List.mem_singleton.mp he).symm) (hpair c' hc hl')
      exact hw c' (List.mem_singleton.mpr rfl)
  · have hne : c' ≠ c := fun he => hc' (List.mem_singleton.mpr he)
    obtain ⟨-, hsame⟩ := hv.wellLinked (t := []) (fun he => hne (List.mem_singleton.mp he).symm) (hpair c' hne hl')
    exact (hsame c' (List.mem_singleton.mpr rfl)).1
  · rw [publishClient_puts hl hrun k]
    simp only [List.mem_singleton, exists_eq_left]

theorem Rounds.refl (env : Env) (m : MbufId) (b : Broker) : Rounds env m [] b b where
  queue c := (if_neg List.not_mem_nil).symm
  other _ _ := rfl
  clients t c := ⟨fun h => ⟨h, fun hx => List.not_mem_nil hx.1⟩, fun h => h.1⟩
  linked _ h := h
  severed _ _ _ := Iff.rfl
  puts k := by simp

/-- **Rounds of different subscribers** have nothing to do with each other. -/
theorem Rounds.append {cs₁ : List CtxId} {b₂ : Broker} (h : Rounds env m cs b b₁) (h₁ : Rounds env m cs₁ b₁ b₂)
    (hdis : ∀ c ∈ cs, c ∉ cs₁) (hl : ∀ c ∈ cs, b.Linked c) (hl₁ : ∀ c ∈ cs₁, b.Linked c) : Rounds env m (cs ++ cs₁) b b₂ := by
  have hnot : ∀ c ∈ cs₁, c ∉ cs := fun c hc₁ hc => hdis c hc hc₁
  refine ⟨fun c => ?_, fun c hc => ?_, fun t c => ?_, fun c hc => h₁.linked c (h.linked c hc), fun c hc hlc => ?_, fun k => ?_⟩
  · rw [h₁.queue c, h.queue c]
    by_cases hc : c ∈ cs
    · rw [if_neg (hdis c hc), if_pos hc, if_pos (List.mem_append_left _ hc)]
    · by_cases hc₁ : c ∈ cs₁
      · rw [if_pos hc₁, if_neg hc, if_pos (List.mem_append_right _ hc₁)]
      · rw [if_neg hc₁, if_neg hc, if_neg fun hx => (List.mem_append.mp hx).elim hc hc₁]
  · rw [List.mem_append, not_or] at hc
    rw [h₁.other c hc.2, h.other c hc.1]
  · rw [h₁.clients, h.clients, and_assoc]
    refine and_congr_right fun _ => ?_
    by_cases hc₁ : c ∈ cs₁
    · have hc : c ∉ cs := hnot c hc₁
      have hleaves : b₁.sess.Leaves t c ↔ b.sess.Leaves t c := by
        unfold Sess.Leaves
        rw [h.other c hc]
      rw [h.severed c hc (hl₁ c hc₁), hleaves]
      simp [hc, hc₁]
    · simp [hc₁]
  · rw [List.mem_append, not_or] at hc
    rw [h₁.severed c hc.2 (h.linked c hlc), h.severed c hc.1 hlc]
  · rw [h₁.puts k, h.puts k, Nat.add_assoc]
    congr 1
    have hsame : (∃ c ∈ cs₁, (b₁.sess.ctxs c).mqttConnection = some k) ↔ ∃ c ∈ cs₁, (b.sess.ctxs c).mqttConnection = some k := by
      refine exists_congr fun c => and_congr_right fun hc₁ => ?_
      rw [h.other c (hnot c hc₁)]
    by_cases hk : ∃ c ∈ cs, (b.sess.ctxs c).mqttConnection = some k
    · -- the connection belongs to one context only
      obtain ⟨c, hc, hck⟩ := hk
      have hk₁ : ¬ ∃ c ∈ cs₁, (b₁.sess.ctxs c).mqttConnection = some k := by
        rw [hsame]
        rintro ⟨c₁, hc₁, hck₁⟩
        have hown := hl c hc k hck
        rw [hl₁ c₁ hc₁ k hck₁] at hown
        exact hdis c hc (Option.some.inj hown ▸ hc₁)
      rw [if_pos ⟨c, hc, hck⟩, if_neg hk₁, if_pos ⟨c, List.mem_append_left _ hc, hck⟩]
    · rw [if_neg hk, Nat.zero_add]
      refine if_congr ?_ rfl rfl
      rw [hsame]
      constructor
      · rintro ⟨c, hc, hck⟩
        exact ⟨c, List.mem_append_right _ hc, hck⟩
      · rintro ⟨c, hc, hck⟩
        exact ⟨c, (List.mem_append.mp hc).resolve_left fun hx => hk ⟨c, hx, hck⟩, hck⟩


/-! ## The loop over a set -/

/-- **The loop** goes through exactly when no subscriber that is lost leaves the topic, and serves everybody. -/
theorem publishLoop_rounds (env : Env) (t : ByteStr) (m : MbufId) (cs : List CtxId) : ∀ b : Broker, cs.Nodup →
    (∀ c ∈ cs, c ∈ b.sess.topicMgr.clients t) → (∀ c ∈ cs, b.Linked c) →
      ((∀ c ∈ cs, Severed env b c → ¬ b.sess.Leaves t c) → ∃ b', publishLoop env t m cs b = .ok ((), b')) ∧
      ∀ b', publishLoop env t m cs b = .ok ((), b') →
        (∀ c ∈ cs, Severed env b c → ¬ b.sess.Leaves t c) ∧ Rounds env m cs b b' := by
  induction cs with
  | nil =>
      refine fun b _ _ _ => ⟨fun _ => ⟨b, rfl⟩, fun b' h => ?_⟩
      cases h
      exact ⟨fun c hc => absurd hc List.not_mem_nil, Rounds.refl env m b⟩
  | cons c cs ih =>
      intro b hnd hmem hl
      obtain ⟨hc, hnd⟩ := List.nodup_cons.mp hnd
      have hmem₀ := hmem c List.mem_cons_self
      have hl₀ := hl c List.mem_cons_self
      obtain ⟨b₁, hround, hr⟩ := publishClient_rounds env m hl₀
      have hrun : publishLoop env t m (c :: cs) b =
          if c ∈ b₁.sess.topicMgr.clients t then publishLoop env t m cs b₁ else .error (.iterator c, b₁) := by
        show (get >>= _ : BrokerM Unit) b = _
        rw [get_bind, if_pos hmem₀, bind_apply, hround]
        simp only
        rw [get_bind]
        split <;> rfl
      have hne : ∀ c' ∈ cs, c' ∉ [c] := by
        intro c' hc' hx
        exact hc (List.mem_singleton.mp hx ▸ hc')
      -- the iterator is lost exactly when this client is taken out of the topic
      have hstays : c ∈ b₁.sess.topicMgr.clients t ↔ (Severed env b c → ¬ b.sess.Leaves t c) := by
        rw [hr.clients]
        constructor
        · exact fun h hs hleaves => h.2 ⟨List.mem_singleton.mpr rfl, hs, hleaves⟩
        · exact fun h => ⟨hmem₀, fun hx => h hx.2.1 hx.2.2⟩
      have hsame : ∀ c' ∈ cs, ((Severed env b₁ c' → ¬ b₁.sess.Leaves t c') ↔ (Severed env b c' → ¬ b.sess.Leaves t c')) := by
        intro c' hc'
        unfold Sess.Leaves
        rw [hr.severed c' (hne c' hc') (hl c' (List.mem_cons_of_mem c hc')), hr.other c' (hne c' hc')]
      obtain ⟨hgoes, hends⟩ := ih b₁ hnd
        (fun c' hc' => (hr.clients t c').mpr ⟨hmem c' (List.mem_cons_of_mem c hc'), fun hx => hne c' hc' hx.1⟩)
        (fun c' hc' => hr.linked c' (hl c' (List.mem_cons_of_mem c hc')))
      refine ⟨fun hstay => ?_, fun b' h => ?_⟩
      · rw [hrun, if_pos (hstays.mpr (hstay c List.mem_cons_self))]
        exact hgoes fun c' hc' => (hsame c' hc').mpr (hstay c' (List.mem_cons_of_mem c hc'))
      · rw [hrun] at h
        by_cases hin : c ∈ b₁.sess.topicMgr.clients t
        · rw [if_pos hin] at h
          obtain ⟨hstay, hrest⟩ := hends b' h
          refine ⟨fun c' hc' => ?_, hr.append hrest (fun c' hc' => ?_) (fun c' hc' => ?_)
            fun c' hc' => hl c' (List.mem_cons_of_mem c hc')⟩
          · rcases List.mem_cons.mp hc' with rfl | hc'
            · exact hstays.mp hin
            · exact (hsame c' hc').mp (hstay c' hc')
          · rw [List.mem_singleton.mp hc']
            exact hc
          · rw [List.mem_singleton.mp hc']
            exact hl₀
        · rw [if_neg hin] at h
          cases h

/-- Every subscriber of a topic is linked. -/
def Broker.AllLinked (b : Broker) : Prop := ∀ c, b.sess.Subscribes c → b.Linked c

theorem Rounds.allLinked (h : Rounds env m cs b b₁) (hl : b.AllLinked) : b₁.AllLinked := by
  rintro c ⟨t, hc⟩
  exact h.linked c (hl c ⟨t, ((h.clients t c).mp hc).1⟩)

/-- A round of `publish_all`. -/
theorem publishSet_rounds (env : Env) (m : MbufId) (t : ByteStr) (hl : b.AllLinked) :
    ∃ cs : List CtxId, (∀ c, c ∈ cs ↔ c ∈ b.sess.topicMgr.clients t) ∧
    ((∀ c ∈ cs, Severed env b c → ¬ b.sess.Leaves t c) → ∃ b', publishSet env t m b = .ok ((), b')) ∧
    ∀ b', publishSet env t m b = .ok ((), b') → (∀ c ∈ cs, Severed env b c → ¬ b.sess.Leaves t c) ∧ Rounds env m cs b b' := by
  have hperm := env.order_perm (b.sess.topicMgr.clients t).toList
  obtain ⟨hgoes, hends⟩ := publishLoop_rounds env t m _ b
    (hperm.nodup_iff.mpr (b.sess.topicMgr.clients t).nodup) (fun c hc => hperm.mem_iff.mp hc)
    (fun c hc => hl c ⟨t, hperm.mem_iff.mp hc⟩)
  exact ⟨_, fun c => hperm.mem_iff, hgoes, hends⟩

/-! ## The walk -/

theorem Rounds.turns_self (h : Rounds env m cs b b₁) (hc : c ∈ cs) :
    b₁.turns ts c = [] ↔ ∀ t ∈ b.turns ts c, Severed env b c ∧ b.sess.Leaves t c := by
  unfold Broker.turns
  rw [List.filter_eq_nil_iff]
  constructor
  · intro hnone t ht
    obtain ⟨ht, hin⟩ := List.mem_filter.mp ht
    by_contra hstay
    apply hnone t ht
    exact decide_eq_true ((h.clients t c).mpr ⟨of_decide_eq_true hin, fun hx => hstay hx.2⟩)
  · intro hall t ht hin
    obtain ⟨hin, hstay⟩ := (h.clients t c).mp (of_decide_eq_true hin)
    exact hstay ⟨hc, hall t (List.mem_filter.mpr ⟨ht, decide_eq_true hin⟩)⟩

theorem Rounds.turns_other (h : Rounds env m cs b b₁) (hc : c ∉ cs) : b₁.turns ts c = b.turns ts c := by
  unfold Broker.turns
  refine List.filter_congr fun t _ => decide_eq_decide.mpr ?_
  rw [h.clients]
  exact ⟨fun hx => hx.1, fun hx => ⟨hx, fun hy => hc hy.1⟩⟩

theorem Rounds.once_other (h : Rounds env m cs b b₁) (hc : c ∉ cs) (hl : b.Linked c) :
    Once env b₁ c ts ↔ Once env b c ts := by
  have hleaves : ∀ t, b₁.sess.Leaves t c ↔ b.sess.Leaves t c := by
    intro t
    unfold Sess.Leaves
    rw [h.other c hc]
  cases ts with
  | nil => exact Iff.rfl
  | cons t ts =>
      unfold Once
      simp only [h.severed c hc hl, hleaves]

theorem turns_cons (b : Broker) (t : ByteStr) (ts : List ByteStr) (c : CtxId) :
    b.turns (t :: ts) c = if c ∈ b.sess.topicMgr.clients t then t :: b.turns ts c else b.turns ts c := by
  unfold Broker.turns
  rw [List.filter_cons]
  simp only [decide_eq_true_eq]

/-- **A walk that meets everybody once** returns, and serves everybody whom it meets. -/
theorem publishTopics_once (env : Env) (m : MbufId) (ts : List ByteStr) : ∀ b : Broker, b.AllLinked →
    (∀ c, Once env b c (b.turns ts c)) →
    ∃ cs b', publishTopics env m ts b = .ok ((), b') ∧ Rounds env m cs b b' ∧ ∀ c, c ∈ cs ↔ b.turns ts c ≠ [] := by
  induction ts with
  | nil => exact fun b _ _ => ⟨[], b, rfl, Rounds.refl env m b, fun c => by simp [Broker.turns]⟩
  | cons t ts ih =>
      intro b hl honce
      obtain ⟨cs, hcs, hgoes, hends⟩ := publishSet_rounds env m t hl
      have hfirst : ∀ c ∈ cs, (Severed env b c → ¬ b.sess.Leaves t c) ∧ ∀ t' ∈ b.turns ts c, Severed env b c ∧ b.sess.Leaves t' c := by
        intro c hc
        have h := honce c
        rw [turns_cons, if_pos ((hcs c).mp hc)] at h
        exact h
      obtain ⟨b₁, hset⟩ := hgoes fun c hc => (hfirst c hc).1
      obtain ⟨-, hr⟩ := hends b₁ hset
      have hself : ∀ c ∈ cs, b₁.turns ts c = [] := fun c hc => (hr.turns_self hc).mpr (hfirst c hc).2
      have hother : ∀ c, c ∉ cs → b.turns (t :: ts) c = b₁.turns ts c := by
        intro c hc
        rw [turns_cons, if_neg fun hx => hc ((hcs c).mpr hx), hr.turns_other hc]
      have hlinked : ∀ c, b₁.turns ts c ≠ [] → b.Linked c := by
        intro c hne
        obtain ⟨t', ht'⟩ := List.exists_mem_of_ne_nil _ hne
        exact hl c ⟨t', ((hr.clients t' c).mp (of_decide_eq_true (List.mem_filter.mp ht').2)).1⟩
      obtain ⟨cs₁, b', hrest, hr₁, hcs₁⟩ := ih b₁ (hr.allLinked hl) fun c => by
        by_cases hc : c ∈ cs
        · rw [hself c hc]
          trivial
        · by_cases hne : b₁.turns ts c = []
          · rw [hne]
            trivial
          · rw [hr.once_other hc (hlinked c hne), ← hother c hc]
            exact honce c
      refine ⟨cs ++ cs₁, b', ?_, hr.append hr₁ (fun c hc hc₁ => (hcs₁ c).mp hc₁ (hself c hc))
        (fun c hc => hl c ⟨t, (hcs c).mp hc⟩) (fun c hc₁ => hlinked c ((hcs₁ c).mp hc₁)), fun c => ?_⟩
      · rw [publishTopics, bind_apply, hset]
        exact hrest
      · rw [List.mem_append, hcs₁]
        by_cases hc : c ∈ cs
        · refine iff_of_true (Or.inl hc) ?_
          rw [turns_cons, if_pos ((hcs c).mp hc)]
          exact List.cons_ne_nil _ _
        · rw [hother c hc]
          exact ⟨fun h => h.resolve_left hc, Or.inr⟩

/-- The number of pending messages. -/
def Broker.backlog (b : Broker) (c : CtxId) : Nat := (b.sess.ctxs c).sendMsgQueue.length

theorem Rounds.backlog (h : Rounds env m cs b b₁) (c : CtxId) :
    b₁.backlog c = b.backlog c + if c ∈ cs then 1 else 0 := by
  unfold Broker.backlog
  rw [h.queue c]
  by_cases hc : c ∈ cs
  · rw [if_pos hc, if_pos hc, List.length_append, List.length_singleton]
  · rw [if_neg hc, if_neg hc, Nat.add_zero]

/-- A walk that returns has met everybody who has a turn in it. -/
theorem publishTopics_backlog (ts : List ByteStr) : ∀ b b' : Broker, b.AllLinked → publishTopics env m ts b = .ok ((), b') →
    ∀ c, b.backlog c + (if b.turns ts c = [] then 0 else 1) ≤ b'.backlog c := by
  induction ts with
  | nil =>
      intro b b' _ h c
      cases h
      exact Nat.le_of_eq (Nat.add_zero _)
  | cons t ts ih =>
      intro b b' hl h c
      obtain ⟨cs, hcs, -, hends⟩ := publishSet_rounds env m t hl
      rw [publishTopics, bind_ok] at h
      obtain ⟨_, b₁, hset, hrest⟩ := h
      obtain ⟨-, hr⟩ := hends b₁ hset
      have hlater := ih b₁ b' (hr.allLinked hl) hrest c
      rw [hr.backlog c] at hlater
      by_cases hc : c ∈ cs
      · rw [if_pos hc] at hlater
        rw [turns_cons, if_pos ((hcs c).mp hc), if_neg (List.cons_ne_nil _ _)]
        exact (Nat.le_add_right _ _).trans hlater
      · rw [if_neg hc, Nat.add_zero, hr.turns_other hc] at hlater
        rw [turns_cons, if_neg fun hx => hc ((hcs c).mpr hx)]
        exact hlater

/-- **A walk that leaves nobody with two copies** meets everybody once. -/
theorem publishTopics_meets (ts : List ByteStr) : ∀ b b' : Broker, b.AllLinked → publishTopics env m ts b = .ok ((), b') →
    (∀ c, b'.backlog c ≤ b.backlog c + 1) → ∀ c, Once env b c (b.turns ts c) := by
  induction ts with
  | nil => exact fun _ _ _ _ _ _ => trivial
  | cons t ts ih =>
      intro b b' hl h hone c
      obtain ⟨cs, hcs, -, hends⟩ := publishSet_rounds env m t hl
      rw [publishTopics, bind_ok] at h
      obtain ⟨_, b₁, hset, hrest⟩ := h
      obtain ⟨hfirst, hr⟩ := hends b₁ hset
      have hl₁ := hr.allLinked hl
      by_cases hc : c ∈ cs
      · rw [turns_cons, if_pos ((hcs c).mp hc)]
        refine ⟨hfirst c hc, (hr.turns_self hc).mp ?_⟩
        -- another turn would leave a second copy
        by_contra hagain
        have hlater := publishTopics_backlog ts b₁ b' hl₁ hrest c
        rw [if_neg hagain, hr.backlog c, if_pos hc] at hlater
        exact Nat.not_succ_le_self _ (hlater.trans (hone c))
      · rw [turns_cons, if_neg fun hx => hc ((hcs c).mpr hx)]
        have hrest₁ := ih b₁ b' hl₁ hrest (fun c' => by
          refine (hone c').trans (Nat.add_le_add_right ?_ 1)
          rw [hr.backlog c']
          exact Nat.le_add_right _ _) c
        rw [hr.turns_other hc] at hrest₁
        by_cases hnone : b.turns ts c = []
        · rw [hnone]
          trivial
        · obtain ⟨t', ht'⟩ := List.exists_mem_of_ne_nil _ hnone
          exact (hr.once_other hc (hl c ⟨t', of_decide_eq_true (List.mem_filter.mp ht').2⟩)).mp hrest₁

/-! ## The whole of `publish_all` -/

/-- The state at the start of the walk. -/
def Broker.announced (b : Broker) (m : MbufId) : Broker :=
  ({ b with log := b.log ++ [.publishAll m (b.bufs m).msgId] } : Broker).startStat (b.bufs m).msgId

theorem publishAll_ok : publishAll env m b = .ok ((), b') ↔
    ∃ b₁, publishTopics env m (env.order b.sess.topicMgr.keys) (b.announced m) = .ok ((), b₁) ∧
      b' = b₁.endStat (b.bufs m).msgId := by
  unfold publishAll
  rw [get_bind, set_bind, modify_bind, bind_ok]
  constructor
  · rintro ⟨_, b₁, hrun, h⟩
    cases h
    exact ⟨b₁, hrun, rfl⟩
  · rintro ⟨b₁, hrun, rfl⟩
    exact ⟨(), b₁, hrun, rfl⟩

/-- Who is subscribed to a topic has a turn. -/
theorem subscribes_iff (env : Env) (b : Broker) (c : CtxId) :
    b.sess.Subscribes c ↔ b.turns (env.order b.sess.topicMgr.keys) c ≠ [] := by
  constructor
  · rintro ⟨t, hc⟩
    have hkey : t ∈ b.sess.topicMgr.keys := by
      refine AList.lookup_isSome.mp ?_
      cases hn : b.sess.topicMgr.lookup t with
      | some node => rfl
      | none =>
          rw [TopicMgr.clients, hn] at hc
          exact absurd hc (USet.not_mem_empty c)
    exact List.ne_nil_of_mem (List.mem_filter.mpr ⟨(env.order_perm _).mem_iff.mpr hkey, decide_eq_true hc⟩)
  · intro hne
    obtain ⟨t, ht⟩ := List.exists_mem_of_ne_nil _ hne
    exact ⟨t, of_decide_eq_true (List.mem_filter.mp ht).2⟩

theorem once_announced : Once env (b.announced m) c ts ↔ Once env b c ts := by
  cases ts with
  | nil => exact Iff.rfl
  | cons t ts => exact Iff.rfl

theorem Broadcasts.once (hl : b.AllLinked) (h : Broadcasts env m b) (c : CtxId) :
    Once env b c (b.turns (env.order b.sess.topicMgr.keys) c) := by
  obtain ⟨b', hrun, hqueue, -⟩ := h
  obtain ⟨b₁, hwalk, rfl⟩ := publishAll_ok.mp hrun
  refine once_announced.mp (publishTopics_meets _ (b.announced m) b₁ hl hwalk (fun c' => ?_) c)
  show (b₁.sess.ctxs c').sendMsgQueue.length ≤ (b.sess.ctxs c').sendMsgQueue.length + 1
  obtain ⟨hin, hout⟩ := hqueue c'
  by_cases hc : b.sess.Subscribes c'
  · have hq : (b₁.sess.ctxs c').sendMsgQueue = _ := hin hc
    rw [hq, List.length_append, List.length_singleton]
  · have hq : (b₁.sess.ctxs c').sendMsgQueue = _ := hout hc
    rw [hq]
    exact Nat.le_succ _

/-- **Each client gets the message once exactly when** the walk over the topics meets it once: it is subscribed to no
    second topic, unless its connection is lost with the first copy and the close takes it out of all the others. -/
theorem broadcasts_iff (m : MbufId) (hl : b.AllLinked) :
    Broadcasts env m b ↔ ∀ c, Once env b c (b.turns (env.order b.sess.topicMgr.keys) c) := by
  refine ⟨fun h => h.once hl, fun honce => ?_⟩
  obtain ⟨cs, b₁, hwalk, hr, hcs⟩ := publishTopics_once env m _ (b.announced m) hl
    fun c => once_announced.mpr (honce c)
  refine ⟨_, publishAll_ok.mpr ⟨b₁, hwalk, rfl⟩, fun c => ?_, fun k => ?_⟩
  · have hmet : c ∈ cs ↔ b.sess.Subscribes c := (hcs c).trans (subscribes_iff env b c).symm
    have hq : (b₁.sess.ctxs c).sendMsgQueue = _ := hr.queue c
    refine ⟨fun hc => ?_, fun hc => ?_⟩
    · show (b₁.sess.ctxs c).sendMsgQueue = _
      rw [hq, if_pos (hmet.mpr hc)]
      rfl
    · show (b₁.sess.ctxs c).sendMsgQueue = _
      rw [hq, if_neg fun hx => hc (hmet.mp hx)]
      rfl
  · have hstart : (b.announced m).puts k m = b.puts k m := Broker.puts_append (b := b) [.publishAll m _] rfl
    show b₁.puts k m ≤ _
    rw [hr.puts k, hstart]
    refine Nat.add_le_add_left ?_ _
    split
    · exact Nat.le_refl 1
    · exact Nat.zero_le 1

/-- The subscribers of a machine are linked. -/
theorem Reach.allLinked {mp : MsgPack} {mach : Machine} (h : Reach env mp mach) (hone : OneConnect mach.broker.log) :
    mach.broker.AllLinked :=
  fun c ⟨t, hc⟩ => h.wellLinked hone t c hc

/-- A broker in bridge mode. -/
def Env.bridged : Env := { Env.calm with mqttBridge := true }

/-- One topic and one subscriber. -/
theorem broadcasts_single : ∃ mach : Machine, Reach Env.bridged packing mach ∧ mach.broker.sess.Subscribes (.conn 0) ∧
    ∀ m, Broadcasts Env.bridged m mach.broker := by
  have hrun : (Machine.initial.play Env.bridged packing (Move.alone 1 .accept ++
      Move.alone 2 (.input 0 (connectPacket 65 0)) ++ Move.alone 3 (.input 0 (subscribePacket 116)))).any
      (fun mach => decide (OneConnect mach.broker.log ∧ mach.broker.sess.topicMgr.keys = [[116]] ∧
        (mach.broker.sess.topicMgr.clients [116]).toList = [.conn 0] ∧
        (mach.broker.sess.ctxs (.conn 0)).cleanSession = false)) = true := by
    decide +kernel
  obtain ⟨mach, hmach, hone, hkeys, hset, hlasts⟩ := Machine.exists_reach hrun
  refine ⟨mach, hmach, ⟨[116], ?_⟩, fun m => (broadcasts_iff m (hmach.allLinked hone)).mpr fun c => ?_⟩
  · rw [USet.mem_def, hset]
    exact List.mem_cons_self
  · rw [hkeys]
    show Once Env.bridged mach.broker c (mach.broker.turns [[116]] c)
    rw [turns_cons]
    by_cases hc : c ∈ mach.broker.sess.topicMgr.clients [116]
    · rw [if_pos hc]
      refine ⟨fun _ hleaves => ?_, fun t ht => absurd ht List.not_mem_nil⟩
      rw [USet.mem_def, hset] at hc
      rw [List.mem_singleton.mp hc] at hleaves
      have hclean := hleaves.1
      rw [hlasts] at hclean
      cases hclean
    · rw [if_neg hc]
      trivial

/-- **A client with two topics** gets two copies. -/
theorem not_broadcasts_twice : ∃ mach : Machine, Reach Env.bridged packing mach ∧ mach.broker.AllLinked ∧
    mach.broker.sess.Subscribes (.conn 0) ∧ ∀ m, ¬ Broadcasts Env.bridged m mach.broker := by
  have hrun : (Machine.initial.play Env.bridged packing (Move.alone 1 .accept ++
      Move.alone 2 (.input 0 (connectPacket 65 0)) ++ Move.alone 3 (.input 0 (subscribePacket 116)) ++
      Move.alone 4 (.input 0 (subscribePacket 117)))).any
      (fun mach => decide (OneConnect mach.broker.log ∧
        mach.broker.turns mach.broker.sess.topicMgr.keys (.conn 0) = [[117], [116]] ∧
        (mach.broker.sess.ctxs (.conn 0)).mqttConnection = some 0 ∧ mach.broker.Takes Env.bridged 0)) = true := by
    decide +kernel
  obtain ⟨mach, hmach, hone, hturns, hlink, htakes⟩ := Machine.exists_reach hrun
  have hl := hmach.allLinked hone
  have hwalk : mach.broker.turns (Env.bridged.order mach.broker.sess.topicMgr.keys) (.conn 0) = [[117], [116]] := hturns
  refine ⟨mach, hmach, hl, (subscribes_iff Env.bridged mach.broker _).mpr ?_, fun m h => ?_⟩
  · rw [hwalk]
    exact List.cons_ne_nil _ _
  · have honce := h.once hl (.conn 0)
    rw [hwalk] at honce
    obtain ⟨⟨k, hk, hlost⟩, -⟩ := honce.2 [116] List.mem_cons_self
    rw [hlink] at hk
    cases hk
    exact hlost htakes

end MqttServer
