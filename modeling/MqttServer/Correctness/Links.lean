import MqttServer.Correctness.Events

/-!
# `Correctness.Links` — contexts and connections point at each other

The links registry → context → connection → context. The invariant is proved for the session machine, step by
step, for runs in which no connection carries a second CONNECT; with one the links break (`links_broken`).

A context is *named* once a CONNECT was bound to it, or when it was restored. Only named contexts get into the
registry and into subscriber sets, and a connection whose CONNECT has not come yet has no context but one of
its own that nothing else points at.
-/

namespace MqttServer

open Lib Exec

/-! ## CONNECTs of a trace -/

/-- The connection of a CONNECT, and the context it was bound to. -/
def Act.connect? : Act → Option (ConnId × CtxId)
  | .connect k _ _ c => some (k, c)
  | _ => none

/-- All CONNECTs of a trace. -/
def connects (log : List Act) : List (ConnId × CtxId) := log.filterMap Act.connect?

/-- No connection carries a second CONNECT. -/
def OneConnect (log : List Act) : Prop := ((connects log).map Prod.fst).Nodup

instance (log : List Act) : Decidable (OneConnect log) := inferInstanceAs (Decidable (List.Nodup _))

@[simp] theorem connects_nil : connects [] = [] := rfl

@[simp] theorem connects_append (l l' : List Act) : connects (l ++ l') = connects l ++ connects l' :=
  List.filterMap_append

/-- Labels without a CONNECT. -/
theorem connects_quiet {l l' : List Act} (h : connects l' = []) : connects (l ++ l') = connects l := by
  rw [connects_append, h, List.append_nil]

theorem connects_cons_quiet {a : Act} {l : List Act} (ha : a.connect? = none) (h : connects l = []) :
    connects (a :: l) = [] := by
  unfold connects at h ⊢
  rw [List.filterMap_cons_none ha, h]

theorem OneConnect.of_append {l l' : List Act} (h : OneConnect (l ++ l')) : OneConnect l := by
  unfold OneConnect at h ⊢
  rw [connects_append, List.map_append] at h
  exact h.of_append_left

section Links

variable (cs : List (ConnId × CtxId))

/-- The connection has sent its CONNECT. -/
def Connected (k : ConnId) : Prop := k ∈ cs.map Prod.fst

/-- A session: restored, or bound to some CONNECT. -/
def Named (c : CtxId) : Prop := (∃ i, c = .stored i) ∨ c ∈ cs.map Prod.snd

end Links

variable {cs : List (ConnId × CtxId)} {s s' : Sess} {k k' : ConnId} {c c' : CtxId}

@[simp] theorem connected_nil : ¬ Connected [] k := by simp [Connected]

@[simp] theorem connected_snoc : Connected (cs ++ [(k, c)]) k' ↔ Connected cs k' ∨ k' = k := by
  simp [Connected]

@[simp] theorem named_snoc : Named (cs ++ [(k, c)]) c' ↔ Named cs c' ∨ c' = c := by
  simp [Named, or_assoc]

theorem not_connected_of_one {log : List Act} {msg : Connect} {code : ConnAckCode}
    (h : OneConnect (log ++ [.connect k msg code c])) : ¬ Connected (connects log) k := by
  unfold OneConnect at h
  rw [connects_append, List.map_append] at h
  intro hk
  exact List.disjoint_of_nodup_append h hk (by simp [connects, Act.connect?])

/-- The loops of PUBLISH and SUBSCRIBE carry no CONNECT. -/
theorem connects_send {m : MbufId} {ls : List Act} (h : Send c m s ls s') : connects ls = [] := by
  cases h with
  | offline _ => rfl
  | sent _ _ => rfl
  | lost _ _ => rfl

theorem connects_fanOut {t : ByteStr} {m : MbufId} {todo : List CtxId} {ls : List Act}
    (h : FanOut t m todo s ls s') : connects ls = [] := by
  induction h with
  | nil => rfl
  | skip _ _ ih => exact ih
  | visit _ hs _ _ ih => rw [connects_append, connects_send hs, ih, List.append_nil]

theorem connects_fanOuts {m : MbufId} {ts : List ByteStr} {ls : List Act} (h : FanOuts m ts s ls s') :
    connects ls = [] := by
  induction h with
  | nil => rfl
  | cons _ hf _ ih => rw [connects_append, connects_fanOut hf, ih, List.append_nil]

theorem connects_subLoop {ts : List ByteStr} {ls : List Act} (h : SubLoop c ts s ls s') :
    connects ls = [] := by
  induction h with
  | nil => rfl
  | quiet _ _ ih => exact ih
  | retained _ _ hs _ ih =>
      refine connects_cons_quiet rfl ?_
      rw [connects_append, connects_send hs, ih, List.append_nil]

theorem connects_puts {ls : List Act} (h : ∀ a ∈ ls, ∃ m r, a = .put k m r) : connects ls = [] := by
  refine List.filterMap_eq_nil_iff.mpr fun a ha => ?_
  obtain ⟨m, r, rfl⟩ := h a ha
  rfl

theorem connects_subscribe {topics : List Topic} {puts ls : List Act} {ts : List ByteStr}
    (hp : ∀ a ∈ puts, ∃ m r, a = .put k m r) (hl : SubLoop c ts s ls s') :
    connects (.subscribe k c topics :: (puts ++ ls)) = [] := by
  refine connects_cons_quiet rfl ?_
  rw [connects_append, connects_puts hp, connects_subLoop hl, List.append_nil]

/-! ## The invariant -/

/-- A context no client has used yet. -/
def ClientContext.Idle (x : ClientContext) : Prop :=
  x.clientStatus ≠ .connected ∧ x.clientId = [] ∧ x.subcribeTopics = [] ∧ x.sendMsgQueue = []

/-- The links between the tables, after the CONNECTs `cs`. -/
structure Links (cs : List (ConnId × CtxId)) (s : Sess) : Prop where
  key : ∀ clientId c, s.registry.findClientContext clientId = some c → (s.ctxs c).clientId = clientId
  registered : ∀ clientId c, s.registry.findClientContext clientId = some c → Named cs c
  subscribed : ∀ t c, c ∈ s.topicMgr.clients t → Named cs c
  linked : ∀ c k, Named cs c → (s.ctxs c).mqttConnection = some k → s.contextOf k = some c
  owner : ∀ k c, s.contextOf k = some c → (s.ctxs c).mqttConnection = some k
  fresh : ∀ k c, ¬ Connected cs k → s.contextOf k = some c → c = .conn k ∧ (s.ctxs c).Idle
  bound : ∀ k, Connected cs k → s.Alive k → ∃ c, s.contextOf k = some c ∧ Named cs c
  creator : ∀ k, Named cs (.conn k) → Connected cs k
  future : ∀ k, s.nextConn ≤ k → ¬ s.Alive k ∧ ¬ Connected cs k

namespace Links

/-- A context two connections point at is one connection's. -/
theorem contextOf_inj (h : Links cs s) (hk : s.contextOf k = some c) (hk' : s.contextOf k' = some c) :
    k = k' := by
  have ho := h.owner k c hk
  rw [h.owner k' c hk'] at ho
  exact (Option.some.inj ho).symm

/-- A connection without a CONNECT has no session. -/
theorem not_named (h : Links cs s) (hn : ¬ Connected cs k) (hc : s.contextOf k = some c) : ¬ Named cs c := by
  intro hc'
  obtain ⟨rfl, -⟩ := h.fresh k c hn hc
  exact hn (h.creator k hc')

/-- A context with the status of a session is one. -/
theorem named_of_status (h : Links cs s) (hc : s.contextOf k = some c)
    (hs : (s.ctxs c).clientStatus = .connected) : Named cs c := by
  by_cases hk : Connected cs k
  · obtain ⟨c', hc', hn⟩ := h.bound k hk (Sess.alive_of_contextOf hc)
    rw [hc] at hc'
    cases hc'
    exact hn
  · exact absurd hs (h.fresh k c hk hc).2.1

/-- The context a connection made for itself is nobody else's. -/
theorem contextOf_conn (h : Links cs s) (hc : s.contextOf k' = some (.conn k)) (ha : s.Alive k)
    (hk : s.contextOf k = none) : False := by
  by_cases hk' : Connected cs k'
  · obtain ⟨c, hc', hn⟩ := h.bound k' hk' (Sess.alive_of_contextOf hc)
    rw [hc] at hc'
    cases hc'
    obtain ⟨c, hc, -⟩ := h.bound k (h.creator k hn) ha
    rw [hk] at hc
    cases hc
  · obtain ⟨he, -⟩ := h.fresh k' _ hk' hc
    cases he
    rw [hk] at hc
    cases hc

/-- **Steps that leave the links alone.** -/
theorem frame (h : Links cs s) (hnext : s'.nextConn = s.nextConn) (hconns : s'.conns = s.conns)
    (hreg : s'.registry = s.registry)
    (hctx : ∀ c, (s'.ctxs c).mqttConnection = (s.ctxs c).mqttConnection ∧
      (s'.ctxs c).clientId = (s.ctxs c).clientId ∧ (Named cs c ∨ ((s.ctxs c).Idle → (s'.ctxs c).Idle)))
    (hsub : ∀ t c, c ∈ s'.topicMgr.clients t → Named cs c) : Links cs s' := by
  have hof : ∀ k, s'.contextOf k = s.contextOf k := fun k => by
    unfold Sess.contextOf
    rw [hconns]
  have halive : ∀ k, s'.Alive k ↔ s.Alive k := fun k => by
    unfold Sess.Alive
    rw [hconns]
  constructor
  case key =>
    intro id c hc
    rw [(hctx c).2.1]
    exact h.key id c (hreg ▸ hc)
  case registered => exact fun id c hc => h.registered id c (hreg ▸ hc)
  case subscribed => exact hsub
  case linked =>
    intro c k hn hk
    rw [hof]
    exact h.linked c k hn ((hctx c).1 ▸ hk)
  case owner =>
    intro k c hc
    rw [(hctx c).1]
    exact h.owner k c (hof k ▸ hc)
  case fresh =>
    intro k c hk hc
    rw [hof] at hc
    obtain ⟨he, hi⟩ := h.fresh k c hk hc
    rcases (hctx c).2.2 with hn | hi'
    · exact absurd hn (h.not_named hk hc)
    · exact ⟨he, hi' hi⟩
  case bound =>
    intro k hk ha
    rw [hof]
    exact h.bound k hk ((halive k).mp ha)
  case creator => exact h.creator
  case future =>
    intro k hk
    rw [halive]
    exact h.future k (hnext ▸ hk)

/-- A change of one context that keeps its links. -/
theorem modify (h : Links cs s) {f : ClientContext → ClientContext}
    (hf : (f (s.ctxs c)).mqttConnection = (s.ctxs c).mqttConnection ∧
      (f (s.ctxs c)).clientId = (s.ctxs c).clientId)
    (hi : Named cs c ∨ ((s.ctxs c).Idle → (f (s.ctxs c)).Idle)) : Links cs (s.modifyContext c f) := by
  refine h.frame rfl rfl rfl ?_ h.subscribed
  intro c'
  rw [Sess.modifyContext_ctxs]
  by_cases hc : c' = c
  · subst hc
    rw [if_pos rfl]
    exact ⟨hf.1, hf.2, hi⟩
  · rw [if_neg hc]
    exact ⟨rfl, rfl, Or.inr fun h => h⟩

/-- A change of the subscriber sets of named contexts. -/
theorem topics (h : Links cs s) {mgr : TopicMgr} (hsub : ∀ t c, c ∈ mgr.clients t → Named cs c) :
    Links cs { s with topicMgr := mgr } :=
  h.frame rfl rfl rfl (fun _ => ⟨rfl, rfl, Or.inr fun h => h⟩) hsub

theorem subscribe (h : Links cs s) (hn : Named cs c) (t : ByteStr) : Links cs (s.subscribe t c) := by
  have ht : Links cs { s with topicMgr := s.topicMgr.addClientContext t c } := by
    refine h.topics fun t' c' hc' => ?_
    rcases TopicMgr.mem_clients_add.mp hc' with hc' | ⟨-, rfl⟩
    · exact h.subscribed t' c' hc'
    · exact hn
  unfold Sess.subscribe
  split
  · exact ht.modify ⟨rfl, rfl⟩ (Or.inl hn)
  · exact ht

theorem accept (h : Links cs s) : Links cs s.accept := by
  have hnew : ¬ s.Alive s.nextConn := (h.future _ (Nat.le_refl _)).1
  have hof : ∀ k c, s.accept.contextOf k = some c → s.contextOf k = some c := by
    intro k c hc
    unfold Sess.contextOf at hc ⊢
    rw [Sess.accept_conns] at hc
    split at hc
    · cases hc
    · exact hc
  have hof' : ∀ k c, s.contextOf k = some c → s.accept.contextOf k = some c := by
    intro k c hc
    have hk : k ≠ s.nextConn := by
      rintro rfl
      exact hnew (Sess.alive_of_contextOf hc)
    unfold Sess.contextOf at hc ⊢
    rwa [Sess.accept_conns, if_neg hk]
  have halive : ∀ k, s.accept.Alive k → k = s.nextConn ∨ s.Alive k := by
    intro k ha
    unfold Sess.Alive at ha ⊢
    rw [Sess.accept_conns] at ha
    split at ha
    · exact Or.inl ‹_›
    · exact Or.inr ha
  constructor
  case key => exact h.key
  case registered => exact h.registered
  case subscribed => exact h.subscribed
  case linked => exact fun c k hn hk => hof' k c (h.linked c k hn hk)
  case owner => exact fun k c hc => h.owner k c (hof k c hc)
  case fresh => exact fun k c hk hc => h.fresh k c hk (hof k c hc)
  case bound =>
    intro k hk ha
    rcases halive k ha with rfl | ha
    · exact absurd hk (h.future _ (Nat.le_refl _)).2
    · obtain ⟨c, hc, hn⟩ := h.bound k hk ha
      exact ⟨c, hof' k c hc, hn⟩
  case creator => exact h.creator
  case future =>
    intro k hk
    have hk' : s.nextConn < k := hk
    refine ⟨fun ha => ?_, (h.future k (Nat.le_of_lt hk')).2⟩
    rcases halive k ha with rfl | ha
    · exact Nat.lt_irrefl _ hk'
    · exact (h.future k (Nat.le_of_lt hk')).1 ha

/-- `client_context()` on a connection without a context. -/
theorem newContext (h : Links cs s) {clean : Bool} (ha : s.Alive k) (hk : s.contextOf k = none) :
    Links cs (s.newContext k clean) := by
  -- a connection that has sent a CONNECT has a context already
  have hnc : ¬ Connected cs k := by
    intro hc
    obtain ⟨c, hc, -⟩ := h.bound k hc ha
    rw [hk] at hc
    cases hc
  have hnn : ¬ Named cs (.conn k) := fun hn => hnc (h.creator k hn)
  have hctx : ∀ c, c ≠ .conn k → (s.newContext k clean).ctxs c = s.ctxs c := fun c hc => by
    rw [Sess.newContext_ctxs, if_neg hc]
  have hself : (s.newContext k clean).ctxs (.conn k) = ClientContext.create (some k) clean := by
    rw [Sess.newContext_ctxs, if_pos rfl]
  -- no table names the new context
  have hne : ∀ c, Named cs c → c ≠ .conn k := fun c hn he => hnn (he ▸ hn)
  have hother : ∀ k' c', k' ≠ k → s.contextOf k' = some c' → c' ≠ .conn k :=
    fun k' c' _ hc' he => h.contextOf_conn (he ▸ hc') ha hk
  constructor
  case key =>
    intro id c hc
    rw [hctx c (hne c (h.registered id c hc))]
    exact h.key id c hc
  case registered => exact h.registered
  case subscribed => exact h.subscribed
  case linked =>
    intro c k' hn hk'
    rw [hctx c (hne c hn)] at hk'
    have hc := h.linked c k' hn hk'
    rw [Sess.newContext_contextOf, if_neg]
    · exact hc
    · rintro rfl
      rw [hk] at hc
      cases hc
  case owner =>
    intro k' c hc
    rw [Sess.newContext_contextOf] at hc
    by_cases hk' : k' = k
    · rw [if_pos hk'] at hc
      cases hc
      rw [hself, hk']
      rfl
    · rw [if_neg hk'] at hc
      rw [hctx c (hother k' c hk' hc)]
      exact h.owner k' c hc
  case fresh =>
    intro k' c hk'' hc
    rw [Sess.newContext_contextOf] at hc
    by_cases hk' : k' = k
    · rw [if_pos hk'] at hc
      cases hc
      rw [hself, hk']
      exact ⟨rfl, by simp [ClientContext.create], rfl, rfl, rfl⟩
    · rw [if_neg hk'] at hc
      rw [hctx c (hother k' c hk' hc)]
      exact h.fresh k' c hk'' hc
  case bound =>
    intro k' hc ha'
    obtain ⟨c, hc', hn⟩ := h.bound k' hc (alive_newContext ha ha')
    refine ⟨c, ?_, hn⟩
    rw [Sess.newContext_contextOf, if_neg]
    · exact hc'
    · rintro rfl
      exact hnc hc
  case creator => exact h.creator
  case future =>
    intro k' hk'
    obtain ⟨hd, hc⟩ := h.future k' hk'
    exact ⟨fun ha' => hd (alive_newContext ha ha'), hc⟩

/-- `handle_close`. -/
theorem close (h : Links cs s) (hc : s.contextOf k = some c) : Links cs (s.close k c) := by
  have hreg : ∀ id c', (s.close k c).registry.findClientContext id = some c' →
      s.registry.findClientContext id = some c' := by
    intro id c' hf
    rw [Sess.close_registry] at hf
    split at hf
    · by_cases hid : id = (s.ctxs c).clientId
      · subst hid
        unfold Registry.findClientContext Registry.delClientContext at hf
        rw [AList.lookup_erase] at hf
        cases hf
      · unfold Registry.findClientContext Registry.delClientContext at hf
        rwa [AList.lookup_erase_ne hid] at hf
    · exact hf
  have hid : ∀ c', ((s.close k c).ctxs c').clientId = (s.ctxs c').clientId := by
    intro c'
    rw [Sess.close_ctxs]
    split
    · rename_i he
      rw [he]
      rfl
    · rfl
  -- two connections never share a context, so nobody but `k` is detached
  have hother : ∀ k' c', k' ≠ k → s.contextOf k' = some c' → c' ≠ c := by
    rintro k' c' hk' hc' rfl
    exact hk' (h.contextOf_inj hc' hc)
  constructor
  case key =>
    intro id c' hf
    rw [hid]
    exact h.key id c' (hreg id c' hf)
  case registered => exact fun id c' hf => h.registered id c' (hreg id c' hf)
  case subscribed => exact fun t c' hm => h.subscribed t c' (Sess.mem_clients_close.mp hm).1
  case linked =>
    intro c' k' hn hk'
    rw [Sess.close_ctxs] at hk'
    by_cases he : c' = c
    · rw [if_pos he] at hk'
      cases hk'
    · rw [if_neg he] at hk'
      have hc' := h.linked c' k' hn hk'
      rw [Sess.close_contextOf, if_neg]
      · exact hc'
      · rintro rfl
        rw [hc] at hc'
        cases hc'
        exact he rfl
  case owner =>
    intro k' c' hc'
    rw [Sess.close_contextOf] at hc'
    by_cases hk' : k' = k
    · rw [if_pos hk'] at hc'
      cases hc'
    · rw [if_neg hk'] at hc'
      rw [Sess.close_ctxs, if_neg (hother k' c' hk' hc')]
      exact h.owner k' c' hc'
  case fresh =>
    intro k' c' hn hc'
    rw [Sess.close_contextOf] at hc'
    by_cases hk' : k' = k
    · rw [if_pos hk'] at hc'
      cases hc'
    · rw [if_neg hk'] at hc'
      rw [Sess.close_ctxs, if_neg (hother k' c' hk' hc')]
      exact h.fresh k' c' hn hc'
  case bound =>
    intro k' hk' ha
    obtain ⟨hne, ha⟩ := Sess.alive_close.mp ha
    obtain ⟨c', hc', hn⟩ := h.bound k' hk' ha
    refine ⟨c', ?_, hn⟩
    rw [Sess.close_contextOf, if_neg hne]
    exact hc'
  case creator => exact h.creator
  case future =>
    intro k' hk'
    rw [Sess.close_nextConn] at hk'
    obtain ⟨hd, hc'⟩ := h.future k' hk'
    exact ⟨fun ha => hd (Sess.alive_close.mp ha).2, hc'⟩

/-- A CONNECT that finds its session offline. -/
theorem resume (h : Links cs s) {msg : Connect} (hk : ¬ Connected cs k) (ha : s.Alive k) (hn : Named cs c)
    (hoff : (s.ctxs c).mqttConnection = none)
    (hid : ∀ id, s.registry.findClientContext id = some c → id = msg.clientId) :
    Links (cs ++ [(k, c)]) (s.resume k c msg) := by
  have hctx : ∀ c', c' ≠ c → (s.resume k c msg).ctxs c' = s.ctxs c' := fun c' hc' => by
    rw [Sess.resume_ctxs, if_neg hc']
  have hself : (s.resume k c msg).ctxs c = { (s.ctxs c).init msg with mqttConnection := some k } := by
    rw [Sess.resume_ctxs, if_pos rfl]
  -- the context was offline, so no connection has it
  have hother : ∀ k' c', s.contextOf k' = some c' → c' ≠ c := by
    rintro k' c' hc' rfl
    rw [h.owner k' c' hc'] at hoff
    cases hoff
  have hnamed : ∀ c', Named (cs ++ [(k, c)]) c' → Named cs c' := by
    intro c' hn'
    rcases named_snoc.mp hn' with hn' | rfl
    · exact hn'
    · exact hn
  constructor
  case key =>
    intro id c' hf
    by_cases he : c' = c
    · subst he
      rw [hself]
      exact (hid id hf).symm
    · rw [hctx c' he]
      exact h.key id c' hf
  case registered => exact fun id c' hf => named_snoc.mpr (Or.inl (h.registered id c' hf))
  case subscribed => exact fun t c' hm => named_snoc.mpr (Or.inl (h.subscribed t c' hm))
  case linked =>
    intro c' k' hn' hk'
    by_cases he : c' = c
    · subst he
      rw [hself] at hk'
      cases hk'
      rw [Sess.resume_contextOf, if_pos rfl]
    · rw [hctx c' he] at hk'
      have hc' := h.linked c' k' (hnamed c' hn') hk'
      rw [Sess.resume_contextOf, if_neg]
      · exact hc'
      · rintro rfl
        exact h.not_named hk hc' (hnamed c' hn')
  case owner =>
    intro k' c' hc'
    rw [Sess.resume_contextOf] at hc'
    by_cases hk' : k' = k
    · rw [if_pos hk'] at hc'
      cases hc'
      rw [hself, hk']
    · rw [if_neg hk'] at hc'
      rw [hctx c' (hother k' c' hc')]
      exact h.owner k' c' hc'
  case fresh =>
    intro k' c' hn' hc'
    have hk' : k' ≠ k := fun he => hn' (connected_snoc.mpr (Or.inr he))
    rw [Sess.resume_contextOf, if_neg hk'] at hc'
    rw [hctx c' (hother k' c' hc')]
    exact h.fresh k' c' (fun hk'' => hn' (connected_snoc.mpr (Or.inl hk''))) hc'
  case bound =>
    intro k' hk' ha'
    rw [Sess.resume_contextOf]
    by_cases he : k' = k
    · rw [if_pos he]
      exact ⟨c, rfl, named_snoc.mpr (Or.inr rfl)⟩
    · rw [if_neg he]
      have hk'' := (connected_snoc.mp hk').resolve_right he
      obtain ⟨c', hc', hn'⟩ := h.bound k' hk'' ((Sess.alive_resume.mp ha').resolve_left he)
      exact ⟨c', hc', named_snoc.mpr (Or.inl hn')⟩
  case creator => exact fun k' hn' => connected_snoc.mpr (Or.inl (h.creator k' (hnamed _ hn')))
  case future =>
    intro k' hk'
    have hne : k' ≠ k := by
      rintro rfl
      exact (h.future k' hk').1 ha
    obtain ⟨hd, hc⟩ := h.future k' hk'
    refine ⟨fun ha' => hd ((Sess.alive_resume.mp ha').resolve_left hne), fun hc' => ?_⟩
    exact hc ((connected_snoc.mp hc').resolve_right hne)

/-- A CONNECT with a client id that is not known. -/
theorem register (h : Links cs s) {msg : Connect} (hk : ¬ Connected cs k) (hc : s.contextOf k = some c)
    (hf : s.registry.findClientContext msg.clientId = none) :
    Links (cs ++ [(k, c)]) (s.register c msg) := by
  -- without a CONNECT a connection still has the context it was given first
  obtain ⟨rfl, -⟩ := h.fresh k c hk hc
  have hnn : ¬ Named cs (.conn k) := h.not_named hk hc
  have hctx : ∀ c', c' ≠ .conn k → (s.register (.conn k) msg).ctxs c' = s.ctxs c' := fun c' hc' => by
    rw [Sess.register_ctxs, if_neg hc']
  have hself : (s.register (.conn k) msg).ctxs (.conn k) = (s.ctxs (.conn k)).init msg := by
    rw [Sess.register_ctxs, if_pos rfl]
  have hconn : ∀ c', ((s.register (.conn k) msg).ctxs c').mqttConnection = (s.ctxs c').mqttConnection := by
    intro c'
    by_cases he : c' = .conn k
    · subst he
      rw [hself]
      rfl
    · rw [hctx c' he]
  -- the name is free, so `addClientContext` does insert
  have hreg : ∀ id c', (s.register (.conn k) msg).registry.findClientContext id = some c' →
      (id = msg.clientId ∧ c' = .conn k) ∨ s.registry.findClientContext id = some c' := by
    intro id c' hf'
    unfold Registry.findClientContext at hf
    unfold Sess.register Registry.addClientContext Registry.findClientContext at hf'
    simp only [hf] at hf'
    by_cases hid : id = msg.clientId
    · rw [hid, AList.lookup_insert] at hf'
      cases hf'
      exact Or.inl ⟨hid, rfl⟩
    · rw [AList.lookup_insert_ne hid] at hf'
      exact Or.inr hf'
  constructor
  case key =>
    intro id c' hf'
    rcases hreg id c' hf' with ⟨rfl, rfl⟩ | hf'
    · rw [hself]
      rfl
    · rw [hctx c']
      · exact h.key id c' hf'
      · rintro rfl
        exact hnn (h.registered id _ hf')
  case registered =>
    intro id c' hf'
    rcases hreg id c' hf' with ⟨-, rfl⟩ | hf'
    · exact named_snoc.mpr (Or.inr rfl)
    · exact named_snoc.mpr (Or.inl (h.registered id c' hf'))
  case subscribed => exact fun t c' hm => named_snoc.mpr (Or.inl (h.subscribed t c' hm))
  case linked =>
    intro c' k' hn hk'
    rw [hconn] at hk'
    rcases named_snoc.mp hn with hn | rfl
    · exact h.linked c' k' hn hk'
    · rw [h.owner k _ hc] at hk'
      cases hk'
      exact hc
  case owner =>
    intro k' c' hc'
    rw [hconn]
    exact h.owner k' c' hc'
  case fresh =>
    intro k' c' hn hc'
    have hk' : k' ≠ k := fun he => hn (connected_snoc.mpr (Or.inr he))
    have hfr := h.fresh k' c' (fun hk'' => hn (connected_snoc.mpr (Or.inl hk''))) hc'
    rw [hctx c']
    · exact hfr
    · rw [hfr.1]
      intro he
      cases he
      exact hk' rfl
  case bound =>
    intro k' hk' ha
    rcases connected_snoc.mp hk' with hk' | rfl
    · obtain ⟨c', hc', hn⟩ := h.bound k' hk' ha
      exact ⟨c', hc', named_snoc.mpr (Or.inl hn)⟩
    · exact ⟨_, hc, named_snoc.mpr (Or.inr rfl)⟩
  case creator =>
    intro k' hn
    rcases named_snoc.mp hn with hn | he
    · exact connected_snoc.mpr (Or.inl (h.creator k' hn))
    · cases he
      exact connected_snoc.mpr (Or.inr rfl)
  case future =>
    intro k' hk'
    obtain ⟨hd, hc'⟩ := h.future k' hk'
    refine ⟨hd, fun hc'' => ?_⟩
    rcases connected_snoc.mp hc'' with hc'' | rfl
    · exact hc' hc''
    · exact hd (Sess.alive_of_contextOf hc)

end Links

/-! ## Steps and runs -/

theorem Links.atom {log ls : List Act} (hone : OneConnect (log ++ ls)) (h : Links (connects log) s)
    (ha : Atom s ls s') : Links (connects (log ++ ls)) s' := by
  cases ha with
  | accept =>
      rw [connects_quiet rfl]
      exact h.accept
  | context halive hc =>
      rw [connects_quiet rfl]
      exact h.newContext halive hc
  | resume _ halive hf hn =>
      rw [connects_append]
      refine h.resume (not_connected_of_one hone) halive (h.registered _ _ hf) hn ?_
      intro id hid
      rw [← h.key id _ hid, h.key _ _ hf]
  | @takeover k last c c' msg code busy _ hf hl hc halive =>
      have hcc : c' = c := by
        have hc' := h.linked c last (h.registered _ _ hf) hl
        rw [hc] at hc'
        exact Option.some.inj hc'
      subst hcc
      have hone' : OneConnect (log ++ [.connect k msg code c']) := by
        unfold OneConnect at hone ⊢
        rw [connects_append] at hone ⊢
        exact hone
      rw [connects_append]
      refine (h.close hc).resume (not_connected_of_one hone') halive (h.registered _ _ hf) ?_ ?_
      · rw [Sess.close_ctxs, if_pos rfl]
        rfl
      · intro id hid
        rw [← (h.close hc).key id _ hid, Sess.close_ctxs, if_pos rfl]
        exact h.key _ _ hf
  | register _ hc hf =>
      rw [connects_append]
      exact h.register (not_connected_of_one hone) hc hf
  | unsubscribe hc =>
      rw [connects_quiet rfl]
      exact h.topics fun t c hm => h.subscribed t c (TopicMgr.mem_clients_del.mp hm).1
  | topics hmgr =>
      rw [connects_quiet rfl]
      refine h.topics fun t c hm => ?_
      rw [hmgr] at hm
      exact h.subscribed t c hm
  | puback idOf hc =>
      rw [connects_quiet rfl]
      refine h.modify ?_ (Or.inr ?_)
      · unfold ClientContext.ackMsg
        split <;> exact ⟨rfl, rfl⟩
      · rintro ⟨hs, hid, ht, hq⟩
        unfold ClientContext.ackMsg
        split
        · exact ⟨hs, hid, ht, by simp [hq]⟩
        · exact ⟨hs, hid, ht, hq⟩
  | disconnect hc =>
      rw [connects_quiet rfl]
      exact h.modify ⟨rfl, rfl⟩ (Or.inr fun hi => ⟨by simp [ClientContext.disconnect], hi.2⟩)
  | put halive =>
      rw [connects_quiet rfl]
      exact h
  | close hc =>
      rw [connects_quiet rfl]
      exact h.close hc

/-- One change of the tables keeps the links. -/
theorem Links.micro {log ls : List Act} (hone : OneConnect (log ++ ls)) (h : Links (connects log) s)
    (hm : Micro s ls s') : Links (connects (log ++ ls)) s' := by
  cases hm with
  | atom ha => exact h.atom hone ha
  | list hc hs =>
      rw [connects_quiet rfl]
      exact h.modify ⟨rfl, rfl⟩ (Or.inl (h.named_of_status hc hs))
  | set hc hs =>
      rw [connects_quiet rfl]
      exact h.subscribe (h.named_of_status hc hs) _
  | retained hc hs =>
      rw [connects_quiet rfl]
      exact h.subscribe (h.named_of_status hc hs) _
  | publish =>
      rw [connects_quiet rfl]
      exact h
  | publishAll =>
      rw [connects_quiet rfl]
      exact h
  | deliver hc =>
      rw [connects_quiet rfl]
      exact h.modify ⟨rfl, rfl⟩ (Or.inl (h.subscribed _ _ hc))

/-- **Runs keep the links**, as long as no connection carries a second CONNECT. -/
theorem Links.micros {log ls : List Act} (hone : OneConnect (log ++ ls)) (h : Links (connects log) s)
    (hm : Micros s ls s') : Links (connects (log ++ ls)) s' :=
  Trace.invariant (I := fun log s => Links (connects log) s) (fun _ _ => OneConnect.of_append)
    (fun _ _ _ _ hone h hm => h.micro hone hm) hm log hone h

end MqttServer
