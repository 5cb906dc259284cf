import MqttServer.Correctness.Sessions
import MqttServer.Correctness.Closing
import MqttServer.Correctness.Flush

/-!
# `Correctness.Idle` — idle clients

The timer drops idle clients from within the flush: `store_client_info` walks the registry and closes the connection of
each session that has been silent for too long. So a tick finds an idle client when the flush gets as far as the
sessions, and when the client is in the registry at all. The first fails when nothing was published since the last
flush, or the file does not take the data; the second after the takeover of an online clean session, which deletes the
registry entry and does not put it back.
-/

namespace MqttServer

open Lib Exec

variable {env : Env} {mp : MsgPack} {b b' b₁ : Broker} {s s' : Sess} {k k' : ConnId} {c c' : CtxId} {log ls : List Act}

/-! ## Every open client is in the registry -/

/-- Closing makes no registry entry. -/
theorem find_of_close {clientId : ByteStr} (h : (s.close k c).registry.findClientContext clientId = some c') :
    s.registry.findClientContext clientId = some c' := by
  rw [Sess.close_registry] at h
  split at h
  · exact (find_delClientContext.mp h).1
  · exact h

/-- Nothing points at the context a connection would create. -/
def Sess.Unused (s : Sess) (k : ConnId) : Prop :=
  (∀ clientId, s.registry.findClientContext clientId ≠ some (.conn k)) ∧ ∀ k', s.contextOf k' ≠ some (.conn k)

/-- Sessions and connections point at each other, and the registry finds the session of every open client. -/
structure Attended (log : List Act) (s : Sess) : Prop where
  logged : ∀ k msg code c, .connect k msg code c ∈ log → k < s.nextConn
  unused : ∀ k, s.nextConn ≤ k ∨ (s.Alive k ∧ s.contextOf k = none) → s.Unused k
  known : ∀ k, s.Alive k → k < s.nextConn
  link : ∀ k c, s.contextOf k = some c → (s.ctxs c).mqttConnection = some k
  entry : ∀ k c, s.contextOf k = some c → (s.ctxs c).clientId ≠ [] →
    s.registry.findClientContext (s.ctxs c).clientId = some c
  opened : ∀ k msg code c, .connect k msg code c ∈ log → s.Alive k →
    ∃ c', s.contextOf k = some c' ∧ (s.ctxs c').clientId ≠ []

namespace Attended

theorem restored {n : Nat} (h : Restored n s) : Attended [] s := by
  have hnone : ∀ k, s.contextOf k = none := fun k => by
    unfold Sess.contextOf
    rw [h.conns k]
    rfl
  have hdead : ∀ k, ¬ s.Alive k := fun k ha => by
    unfold Sess.Alive at ha
    rw [h.conns k] at ha
    cases ha
  constructor
  case logged => exact fun _ _ _ _ h => by cases h
  case unused =>
      intro k _
      refine ⟨fun clientId hf => ?_, fun k' hk => ?_⟩
      · obtain ⟨-, i, -, hi⟩ := h.key clientId _ hf
        cases hi
      · rw [hnone] at hk
        cases hk
  case known => exact fun k ha => absurd ha (hdead k)
  case link =>
      intro k c hc
      rw [hnone] at hc
      cases hc
  case entry =>
      intro k c hc
      rw [hnone] at hc
      cases hc
  case opened => exact fun _ _ _ _ h => by cases h

theorem contextOf_inj (h : Attended log s) (hk : s.contextOf k = some c) (hk' : s.contextOf k' = some c) : k = k' := by
  have hl := h.link k c hk
  rw [h.link k' c hk'] at hl
  exact (Option.some.inj hl).symm

/-- A CONNECT in a trace without one. -/
theorem quiet (hq : connects ls = []) {msg : Connect} {code : ConnAckCode}
    (h : .connect k msg code c ∈ log ++ ls) : .connect k msg code c ∈ log := by
  rcases List.mem_append.mp h with h | h
  · exact h
  · have hin := Serving.mem_connects h
    rw [hq] at hin
    cases hin

/-- Steps that change neither connections nor registry, and of a context neither id nor connection. -/
theorem same (h : Attended log s) (hq : connects ls = []) (hnext : s'.nextConn = s.nextConn) (hconns : s'.conns = s.conns)
    (hreg : s'.registry = s.registry)
    (hctx : ∀ c, (s'.ctxs c).clientId = (s.ctxs c).clientId ∧ (s'.ctxs c).mqttConnection = (s.ctxs c).mqttConnection) :
    Attended (log ++ ls) s' := by
  have hof : ∀ k, s'.contextOf k = s.contextOf k := fun k => by
    unfold Sess.contextOf
    rw [hconns]
  have halive : ∀ k, s'.Alive k ↔ s.Alive k := fun k => by
    unfold Sess.Alive
    rw [hconns]
  constructor
  case logged =>
      intro k msg code c hm
      rw [hnext]
      exact h.logged k msg code c (quiet hq hm)
  case unused =>
      intro k hk
      rw [hnext, halive, hof] at hk
      obtain ⟨hf, hc⟩ := h.unused k hk
      refine ⟨fun clientId => ?_, fun k' => ?_⟩
      · rw [hreg]
        exact hf clientId
      · rw [hof]
        exact hc k'
  case known =>
      intro k ha
      rw [hnext]
      exact h.known k ((halive k).mp ha)
  case link =>
      intro k c hc
      rw [hof] at hc
      rw [(hctx c).2]
      exact h.link k c hc
  case entry =>
      intro k c hc hid
      rw [hof] at hc
      rw [(hctx c).1] at hid ⊢
      rw [hreg]
      exact h.entry k c hc hid
  case opened =>
      intro k msg code c hm ha
      obtain ⟨c', hc', hid⟩ := h.opened k msg code c (quiet hq hm) ((halive k).mp ha)
      refine ⟨c', ?_, ?_⟩
      · rw [hof]
        exact hc'
      · rw [(hctx c').1]
        exact hid

theorem accept (h : Attended log s) : Attended (log ++ [.accept s.nextConn]) s.accept := by
  have hof : ∀ k, s.accept.contextOf k = s.contextOf k := by
    intro k
    unfold Sess.contextOf
    rw [Sess.accept_conns]
    by_cases hk : k = s.nextConn
    · subst hk
      rw [if_pos rfl]
      cases hc : s.conns s.nextConn with
      | none => rfl
      | some x => exact absurd (h.known s.nextConn (by unfold Sess.Alive; rw [hc]; rfl)) (Nat.lt_irrefl _)
    · rw [if_neg hk]
  have halive : ∀ k, s.accept.Alive k ↔ k = s.nextConn ∨ s.Alive k := by
    intro k
    unfold Sess.Alive
    rw [Sess.accept_conns]
    by_cases hk : k = s.nextConn
    · simp [hk]
    · simp [hk]
  have hnext : s.accept.nextConn = s.nextConn + 1 := rfl
  constructor
  case logged =>
      intro k msg code c hm
      rw [hnext]
      exact Nat.lt_succ_of_lt (h.logged k msg code c (quiet rfl hm))
  case unused =>
      intro k hk
      rw [hnext, halive, hof] at hk
      have hbefore : s.nextConn ≤ k ∨ (s.Alive k ∧ s.contextOf k = none) := by
        rcases hk with hk | ⟨rfl | ha, hc⟩
        · exact Or.inl (Nat.le_of_succ_le hk)
        · exact Or.inl (Nat.le_refl _)
        · exact Or.inr ⟨ha, hc⟩
      obtain ⟨hf, hc⟩ := h.unused k hbefore
      exact ⟨hf, fun k' => by rw [hof]; exact hc k'⟩
  case known =>
      intro k ha
      rw [hnext]
      rcases (halive k).mp ha with rfl | ha
      · exact Nat.lt_succ_self _
      · exact Nat.lt_succ_of_lt (h.known k ha)
  case link =>
      intro k c hc
      rw [hof] at hc
      exact h.link k c hc
  case entry =>
      intro k c hc hid
      rw [hof] at hc
      exact h.entry k c hc hid
  case opened =>
      intro k msg code c hm ha
      have hq : connects [Act.accept s.nextConn] = [] := rfl
      have hm' := quiet hq hm
      rcases (halive k).mp ha with rfl | ha
      · exact absurd (h.logged _ _ _ _ hm') (Nat.lt_irrefl _)
      · obtain ⟨c', hc', hid⟩ := h.opened k msg code c hm' ha
        exact ⟨c', by rw [hof]; exact hc', hid⟩

theorem newContext (h : Attended log s) {clean : Bool} (ha : s.Alive k) (hk : s.contextOf k = none) :
    Attended (log ++ [.context k]) (s.newContext k clean) := by
  have hunused := h.unused k (Or.inr ⟨ha, hk⟩)
  have hreg : (s.newContext k clean).registry = s.registry := rfl
  have hnext : (s.newContext k clean).nextConn = s.nextConn := rfl
  constructor
  case logged => exact fun k msg code c hm => h.logged k msg code c (quiet rfl hm)
  case unused =>
      intro k' hk'
      rw [hnext, Sess.newContext_contextOf] at hk'
      have hne : k' ≠ k := by
        rintro rfl
        rcases hk' with hk' | ⟨-, hk'⟩
        · exact absurd (h.known k' ha) (Nat.not_lt.mpr hk')
        · rw [if_pos rfl] at hk'
          cases hk'
      rw [if_neg hne] at hk'
      obtain ⟨hf, hc⟩ := h.unused k' (hk'.imp id fun hk' => ⟨alive_newContext ha hk'.1, hk'.2⟩)
      refine ⟨hf, fun k'' => ?_⟩
      rw [Sess.newContext_contextOf]
      split
      · exact fun he => hne (CtxId.conn.inj (Option.some.inj he)).symm
      · exact hc k''
  case known => exact fun k' ha' => h.known k' (alive_newContext ha ha')
  case link =>
      intro k' c hc
      rw [Sess.newContext_contextOf] at hc
      rw [Sess.newContext_ctxs]
      split at hc
      · rename_i hkk
        cases hc
        rw [if_pos rfl, hkk]
        rfl
      · have hne : c ≠ .conn k := fun he => hunused.2 k' (he ▸ hc)
        rw [if_neg hne]
        exact h.link k' c hc
  case entry =>
      intro k' c hc hid
      rw [Sess.newContext_contextOf] at hc
      rw [Sess.newContext_ctxs] at hid ⊢
      split at hc
      · cases hc
        rw [if_pos rfl] at hid
        exact absurd rfl hid
      · have hne : c ≠ .conn k := fun he => hunused.2 k' (he ▸ hc)
        rw [if_neg hne] at hid ⊢
        exact h.entry k' c hc hid
  case opened =>
      intro k' msg code c hm ha'
      obtain ⟨c', hc', hid⟩ := h.opened k' msg code c (quiet rfl hm) (alive_newContext ha ha')
      have hne : c' ≠ .conn k := fun he => hunused.2 k' (he ▸ hc')
      have hkne : k' ≠ k := by
        rintro rfl
        rw [hk] at hc'
        cases hc'
      refine ⟨c', ?_, ?_⟩
      · rw [Sess.newContext_contextOf, if_neg hkne]
        exact hc'
      · rw [Sess.newContext_ctxs, if_neg hne]
        exact hid

/-- Closing deletes no registry entry another open client relies on. -/
theorem find_close (h : Attended log s) (hc : s.contextOf k = some c) (hc' : s.contextOf k' = some c') (hne : k' ≠ k)
    (hid : (s.ctxs c').clientId ≠ []) :
    (s.close k c).registry.findClientContext (s.ctxs c').clientId = some c' := by
  have hf := h.entry k' c' hc' hid
  rw [Sess.close_registry]
  split
  · refine find_delClientContext.mpr ⟨hf, fun he => ?_⟩
    rw [he] at hf hid
    rw [h.entry k c hc hid] at hf
    cases hf
    exact hne (h.contextOf_inj hc' hc)
  · exact hf

theorem close (h : Attended log s) {cause : Cause} {clean busy : Bool} (hc : s.contextOf k = some c) :
    Attended (log ++ [.close k c cause clean busy]) (s.close k c) := by
  have hother : ∀ k' c', k' ≠ k → s.contextOf k' = some c' → c' ≠ c := by
    rintro k' c' hne hc' rfl
    exact hne (h.contextOf_inj hc' hc)
  constructor
  case logged =>
      intro k' msg code c' hm
      rw [Sess.close_nextConn]
      exact h.logged k' msg code c' (quiet rfl hm)
  case unused =>
      intro k' hk'
      rw [Sess.close_nextConn, Sess.alive_close, Sess.close_contextOf] at hk'
      have hbefore : s.nextConn ≤ k' ∨ (s.Alive k' ∧ s.contextOf k' = none) := by
        rcases hk' with hk' | ⟨⟨hne, ha⟩, hn⟩
        · exact Or.inl hk'
        · rw [if_neg hne] at hn
          exact Or.inr ⟨ha, hn⟩
      obtain ⟨hf, hof⟩ := h.unused k' hbefore
      refine ⟨fun clientId => ?_, fun k'' => ?_⟩
      · exact fun he => hf clientId (find_of_close he)
      · rw [Sess.close_contextOf]
        split
        · exact fun he => by cases he
        · exact hof k''
  case known =>
      intro k' ha
      rw [Sess.close_nextConn]
      exact h.known k' (Sess.alive_close.mp ha).2
  case link =>
      intro k' c' hc'
      rw [Sess.close_contextOf] at hc'
      split at hc'
      · cases hc'
      · rename_i hne
        rw [Sess.close_ctxs, if_neg (hother k' c' hne hc')]
        exact h.link k' c' hc'
  case entry =>
      intro k' c' hc' hid
      rw [Sess.close_contextOf] at hc'
      split at hc'
      · cases hc'
      · rename_i hne
        rw [Sess.close_ctxs, if_neg (hother k' c' hne hc')] at hid ⊢
        exact h.find_close hc hc' hne hid
  case opened =>
      intro k' msg code c' hm ha
      obtain ⟨hne, ha⟩ := Sess.alive_close.mp ha
      obtain ⟨c'', hc'', hid⟩ := h.opened k' msg code c' (quiet rfl hm) ha
      refine ⟨c'', ?_, ?_⟩
      · rw [Sess.close_contextOf, if_neg hne]
        exact hc''
      · rw [Sess.close_ctxs, if_neg (hother k' c'' hne hc'')]
        exact hid

/-- The CONNECT of a session nobody else works for. -/
theorem resume (h : Attended log s) {msg : Connect} {code : ConnAckCode} (hid : msg.clientId ≠ []) (ha : s.Alive k)
    (hf : s.registry.findClientContext msg.clientId = some c) (hfree : ∀ k', k' ≠ k → s.contextOf k' ≠ some c) :
    Attended (log ++ [.connect k msg code c]) (s.resume k c msg) := by
  have hnext : (s.resume k c msg).nextConn = s.nextConn := rfl
  have hreg : (s.resume k c msg).registry = s.registry := rfl
  have halive : ∀ k', (s.resume k c msg).Alive k' → s.Alive k' := fun k' ha' =>
    (Sess.alive_resume.mp ha').elim (fun he => he ▸ ha) id
  constructor
  case logged =>
      intro k' msg' code' c' hm
      rw [hnext]
      rcases List.mem_append.mp hm with hm | hm
      · exact h.logged k' msg' code' c' hm
      · cases List.mem_singleton.mp hm
        exact h.known k ha
  case unused =>
      intro k' hk'
      rw [hnext, Sess.resume_contextOf] at hk'
      -- a connection that is unopened or has no context now was so before
      have hbefore : s.nextConn ≤ k' ∨ (s.Alive k' ∧ s.contextOf k' = none) := by
        rcases hk' with hk' | ⟨ha', hn⟩
        · exact Or.inl hk'
        · split at hn
          · cases hn
          · exact Or.inr ⟨halive k' ha', hn⟩
      obtain ⟨hfind, hof⟩ := h.unused k' hbefore
      refine ⟨hfind, fun k'' => ?_⟩
      rw [Sess.resume_contextOf]
      split
      · exact fun he => hfind msg.clientId (hf.trans he)
      · exact hof k''
  case known => exact fun k' ha' => h.known k' (halive k' ha')
  case link =>
      intro k' c' hc'
      rw [Sess.resume_contextOf] at hc'
      rw [Sess.resume_ctxs]
      split at hc'
      · rename_i hk
        cases hc'
        rw [if_pos rfl, hk]
      · rename_i hk
        -- nobody else holds the session that is taken over
        have hcc : c' ≠ c := fun he => hfree k' hk (he ▸ hc')
        rw [if_neg hcc]
        exact h.link k' c' hc'
  case entry =>
      intro k' c' hc' hne
      rw [Sess.resume_contextOf] at hc'
      rw [Sess.resume_ctxs] at hne ⊢
      split at hc'
      · cases hc'
        rw [if_pos rfl]
        exact hf
      · rename_i hk
        have hcc : c' ≠ c := fun he => hfree k' hk (he ▸ hc')
        rw [if_neg hcc] at hne ⊢
        exact h.entry k' c' hc' hne
  case opened =>
      intro k' msg' code' c' hm ha'
      by_cases hk : k' = k
      · refine ⟨c, by rw [Sess.resume_contextOf, if_pos hk], ?_⟩
        rw [Sess.resume_ctxs, if_pos rfl]
        exact hid
      · have hm' : .connect k' msg' code' c' ∈ log := by
          rcases List.mem_append.mp hm with hm | hm
          · exact hm
          · cases List.mem_singleton.mp hm
            exact absurd rfl hk
        obtain ⟨c'', hc'', hne⟩ := h.opened k' msg' code' c' hm' (halive k' ha')
        have hcc : c'' ≠ c := fun he => hfree k' hk (he ▸ hc'')
        refine ⟨c'', ?_, ?_⟩
        · rw [Sess.resume_contextOf, if_neg hk]
          exact hc''
        · rw [Sess.resume_ctxs, if_neg hcc]
          exact hne

theorem register (h : Attended log s) {msg : Connect} {code : ConnAckCode} (hid : msg.clientId ≠ [])
    (hc : s.contextOf k = some c) (hf : s.registry.findClientContext msg.clientId = none) :
    Attended (log ++ [.connect k msg code c]) (s.register c msg) := by
  have hnext : (s.register c msg).nextConn = s.nextConn := rfl
  have hof : ∀ k', (s.register c msg).contextOf k' = s.contextOf k' := fun _ => rfl
  have halive : ∀ k', (s.register c msg).Alive k' ↔ s.Alive k' := fun _ => Iff.rfl
  have hfind : ∀ clientId, (s.register c msg).registry.findClientContext clientId =
      if clientId = msg.clientId then some c else s.registry.findClientContext clientId := by
    intro clientId
    unfold Registry.findClientContext at hf ⊢
    unfold Sess.register Registry.addClientContext
    rw [hf]
    by_cases he : clientId = msg.clientId
    · rw [if_pos he, he]
      exact AList.lookup_insert _
    · rw [if_neg he]
      exact AList.lookup_insert_ne he
  have hother : ∀ k' c', k' ≠ k → s.contextOf k' = some c' → c' ≠ c := by
    rintro k' c' hne hc' rfl
    exact hne (h.contextOf_inj hc' hc)
  constructor
  case logged =>
      intro k' msg' code' c' hm
      rw [hnext]
      rcases List.mem_append.mp hm with hm | hm
      · exact h.logged k' msg' code' c' hm
      · cases List.mem_singleton.mp hm
        exact h.known k (Sess.alive_of_contextOf hc)
  case unused =>
      intro k' hk'
      rw [hnext, halive, hof] at hk'
      obtain ⟨hn, hcx⟩ := h.unused k' hk'
      refine ⟨fun clientId => ?_, fun k'' => by rw [hof]; exact hcx k''⟩
      rw [hfind]
      split
      · -- the name leads to the context of `k`, which is then no unused one
        exact fun he => hcx k (hc.trans he)
      · exact hn clientId
  case known => exact fun k' ha => h.known k' ((halive k').mp ha)
  case link =>
      intro k' c' hc'
      rw [hof] at hc'
      rw [Sess.register_ctxs]
      split
      · rename_i he
        rw [he] at hc'
        exact h.link k' c hc'
      · exact h.link k' c' hc'
  case entry =>
      intro k' c' hc' hne
      rw [hof] at hc'
      rw [Sess.register_ctxs] at hne ⊢
      rw [hfind]
      by_cases hcc : c' = c
      · rw [if_pos hcc, hcc]
        exact if_pos rfl
      · rw [if_neg hcc] at hne ⊢
        have hold := h.entry k' c' hc' hne
        rw [if_neg]
        · exact hold
        · intro he
          rw [he, hf] at hold
          cases hold
  case opened =>
      intro k' msg' code' c' hm ha
      by_cases hk : k' = k
      · refine ⟨c, by rw [hof, hk]; exact hc, ?_⟩
        rw [Sess.register_ctxs, if_pos rfl]
        exact hid
      · have hm' : .connect k' msg' code' c' ∈ log := by
          rcases List.mem_append.mp hm with hm | hm
          · exact hm
          · cases List.mem_singleton.mp hm
            exact absurd rfl hk
        obtain ⟨c'', hc'', hne⟩ := h.opened k' msg' code' c' hm' ((halive k').mp ha)
        refine ⟨c'', by rw [hof]; exact hc'', ?_⟩
        rw [Sess.register_ctxs, if_neg (hother k' c'' hk hc'')]
        exact hne

/-- Steps that change something else of one context. -/
theorem modify (h : Attended log s) (hq : connects ls = []) {f : ClientContext → ClientContext}
    (hf : ∀ x, (f x).clientId = x.clientId ∧ (f x).mqttConnection = x.mqttConnection) :
    Attended (log ++ ls) (s.modifyContext c f) := by
  refine h.same hq rfl rfl rfl fun c' => ?_
  rw [Sess.modifyContext_ctxs]
  split
  · rename_i he
    rw [he]
    exact hf _
  · exact ⟨rfl, rfl⟩

theorem atom (hclean : NoCleanTakeover (log ++ ls)) (h : Attended log s) (ha : Atom s ls s') :
    Attended (log ++ ls) s' := by
  cases ha with
  | accept => exact h.accept
  | context halive hc => exact h.newContext halive hc
  | @resume k c msg code hid halive hf hn =>
      refine h.resume hid halive hf fun k' _ hc => ?_
      rw [h.link k' c hc] at hn
      cases hn
  | @takeover k last c c' msg code busy hid hf hl hc halive =>
      have hnot : (s.ctxs c').cleanSession = false :=
        hclean (.close last c' .takeover (s.ctxs c').cleanSession busy) (by simp)
      have hclose : Attended (log ++ [.close last c' .takeover (s.ctxs c').cleanSession busy]) (s.close last c') :=
        h.close hc
      have hnext : Attended (log ++ [.close last c' .takeover (s.ctxs c').cleanSession busy] ++ [.connect k msg code c])
          ((s.close last c').resume k c msg) := by
        refine hclose.resume hid halive ?_ fun k' _ hk' => ?_
        · rw [Sess.close_registry, hnot]
          exact hf
        · -- a second connection of the session would be `last` again
          rw [Sess.close_contextOf] at hk'
          split at hk'
          · cases hk'
          · rename_i hne
            rw [h.link k' c hk'] at hl
            exact hne (Option.some.inj hl)
      rw [List.append_assoc] at hnext
      exact hnext
  | register hid hc hf => exact h.register hid hc hf
  | unsubscribe _ => exact h.same rfl rfl rfl rfl fun _ => ⟨rfl, rfl⟩
  | topics _ => exact h.same rfl rfl rfl rfl fun _ => ⟨rfl, rfl⟩
  | puback idOf _ =>
      refine h.modify rfl fun x => ?_
      unfold ClientContext.ackMsg
      split <;> exact ⟨rfl, rfl⟩
  | disconnect _ => exact h.modify rfl fun _ => ⟨rfl, rfl⟩
  | put _ => exact h.same rfl rfl rfl rfl fun _ => ⟨rfl, rfl⟩
  | close hc => exact h.close hc

theorem micro (hclean : NoCleanTakeover (log ++ ls)) (h : Attended log s) (hm : Micro s ls s') :
    Attended (log ++ ls) s' := by
  have hsubscribe : ∀ t c c', ((s.subscribe t c).ctxs c').clientId = (s.ctxs c').clientId ∧
      ((s.subscribe t c).ctxs c').mqttConnection = (s.ctxs c').mqttConnection := by
    intro t c c'
    obtain ⟨q, hq⟩ := Sess.subscribe_ctxs s t c c'
    rw [hq]
    exact ⟨rfl, rfl⟩
  cases hm with
  | atom ha => exact h.atom hclean ha
  | list _ _ => exact h.modify rfl fun _ => ⟨rfl, rfl⟩
  | set _ _ => exact h.same rfl Sess.subscribe_nextConn Sess.subscribe_conns Sess.subscribe_registry (hsubscribe _ _)
  | retained _ _ => exact h.same rfl Sess.subscribe_nextConn Sess.subscribe_conns Sess.subscribe_registry (hsubscribe _ _)
  | publish => exact h.same rfl rfl rfl rfl fun _ => ⟨rfl, rfl⟩
  | publishAll => exact h.same rfl rfl rfl rfl fun _ => ⟨rfl, rfl⟩
  | deliver _ => exact h.modify rfl fun _ => ⟨rfl, rfl⟩

end Attended

theorem Reach.attended {m : Machine} (h : Reach env mp m) (hclean : NoCleanTakeover m.broker.log) :
    Attended m.broker.log m.broker.sess := by
  refine Reach.invariant (I := Attended) (G := NoCleanTakeover) (fun _ _ => NoCleanTakeover.of_append)
    (fun _ _ hr => Attended.restored hr) ?_ h hclean
  intro log s ls s' hgood hs hm _
  exact Trace.invariant (I := Attended) (G := NoCleanTakeover) (fun _ _ => NoCleanTakeover.of_append)
    (fun _ _ _ _ hg hs hm => hs.micro hg hm) hm log hgood hs

/-! ## What a tick does to the connections -/

/-- Nothing was read from the connection for more than `max_idle_timeout` seconds: every read stamps
    `m_last_msg_time`. -/
def Broker.Silent (env : Env) (b : Broker) (k : ConnId) : Prop := (b.now : Int) - b.lastMsgTime k > env.maxIdleTimeout

/-- A CONNECT of the connection was accepted. -/
def Welcomed (log : List Act) (k : ConnId) : Prop := ∃ msg c, .connect k msg .accepted c ∈ log

/-- The log entry of such a CONNECT. -/
def Act.welcomes (k : ConnId) : Act → Bool
  | .connect k' _ .accepted _ => decide (k' = k)
  | _ => false

theorem Welcomed.of_any {log : List Act} {k : ConnId} (h : log.any (Act.welcomes k) = true) : Welcomed log k := by
  obtain ⟨a, ha, hmatch⟩ := List.any_eq_true.mp h
  unfold Act.welcomes at hmatch
  split at hmatch
  · cases of_decide_eq_true hmatch
    exact ⟨_, _, ha⟩
  · cases hmatch

/-- Only connections that were silent for too long have been closed. -/
structure Sweeps (env : Env) (b b' : Broker) : Prop where
  now : b'.now = b.now
  times : b'.lastMsgTime = b.lastMsgTime
  spared : ∀ k, b.sess.Alive k → ¬ b.Silent env k → b'.sess.Alive k
  dying : ∀ k, b'.sess.Alive k → b.sess.Alive k
  find : ∀ clientId c, b'.sess.registry.findClientContext clientId = some c →
    b.sess.registry.findClientContext clientId = some c
  link : ∀ c k, (b'.sess.ctxs c).mqttConnection = some k → (b.sess.ctxs c).mqttConnection = some k
  log : ∀ k, Welcomed b'.log k → Welcomed b.log k

namespace Sweeps

theorem silent (h : Sweeps env b b') : b'.Silent env k ↔ b.Silent env k := by
  unfold Broker.Silent
  rw [h.now, h.times]

theorem of_same (hnow : b'.now = b.now) (htimes : b'.lastMsgTime = b.lastMsgTime) (hs : b'.sess = b.sess)
    (hl : b'.log = b.log) : Sweeps env b b' :=
  ⟨hnow, htimes, fun _ h _ => by rw [hs]; exact h, fun _ h => by rw [hs] at h; exact h,
    fun _ _ h => by rw [hs] at h; exact h, fun _ _ h => by rw [hs] at h; exact h, fun _ h => by rw [hl] at h; exact h⟩

theorem refl (b : Broker) : Sweeps env b b := of_same rfl rfl rfl rfl

theorem trans (h : Sweeps env b b₁) (h' : Sweeps env b₁ b') : Sweeps env b b' where
  now := h'.now.trans h.now
  times := h'.times.trans h.times
  spared k ha hs := h'.spared k (h.spared k ha hs) fun hs' => hs (h.silent.mp hs')
  dying k ha := h.dying k (h'.dying k ha)
  find clientId c hf := h.find clientId c (h'.find clientId c hf)
  link c k hk := h.link c k (h'.link c k hk)
  log k hk := h.log k (h'.log k hk)

/-- Closing a silent connection. -/
theorem close (hsilent : b.Silent env k) (hnow : b'.now = b.now) (htimes : b'.lastMsgTime = b.lastMsgTime)
    (hs : b'.sess = b.sess.close k c) {cause : Cause} {clean busy : Bool}
    (hl : b'.log = b.log ++ [.close k c cause clean busy]) : Sweeps env b b' where
  now := hnow
  times := htimes
  spared k' ha hn := by
    rw [hs]
    refine Sess.alive_close.mpr ⟨?_, ha⟩
    rintro rfl
    exact hn hsilent
  dying k' ha := by
    rw [hs] at ha
    exact (Sess.alive_close.mp ha).2
  find clientId c' hf := by
    rw [hs] at hf
    exact find_of_close hf
  link c' k' hk := by
    rw [hs, Sess.close_ctxs] at hk
    split at hk
    · cases hk
    · exact hk
  log k' := by
    rintro ⟨msg, c', hm⟩
    rw [hl] at hm
    exact ⟨msg, c', Attended.quiet rfl hm⟩

end Sweeps

/-- The frame of a tick. -/
def sweeping (env : Env) : Frame Broker Fault where
  rel := Sweeps env
  flt _ _ := True
  refl := Sweeps.refl
  trans := Sweeps.trans
  extend _ _ := trivial

theorem sweeping_of_writing {α : Type} {x : BrokerM α} (h : writing.Resp x b) : (sweeping env).Resp x b := by
  refine Frame.Resp.mono ?_ (fun _ _ => trivial) h
  rintro b' ⟨file, dbFile, n, rfl⟩
  exact Sweeps.of_same rfl rfl rfl rfl

/-- What `handle_close` leaves alone. -/
theorem handleClose_clock {cause : Cause} {u : Unit} (h : handleClose k cause b = .ok (u, b')) :
    b'.now = b.now ∧ b'.lastMsgTime = b.lastMsgTime := by
  unfold handleClose at h
  rw [touch_bind_ok, modify_bind, get_bind] at h
  cases hc : b.sess.contextOf k with
  | none =>
      simp only [hc] at h
      cases h.2
  | some c =>
      simp only [hc] at h
      cases h.2
      exact ⟨rfl, rfl⟩

/-- **The idle check of a session** closes its connection if that has been silent, and no other one. -/
theorem checkIdle_sweeps {u : Unit} (h : checkIdle env c b = .ok (u, b')) :
    Sweeps env b b' ∧ ∀ k, (b'.sess.ctxs c).mqttConnection = some k → b'.sess.Alive k → ¬ b'.Silent env k := by
  unfold checkIdle at h
  rw [get_bind] at h
  cases hk : (b.sess.ctxs c).mqttConnection with
  | none =>
      simp only [hk] at h
      cases h
      refine ⟨.refl _, fun k hk' => ?_⟩
      rw [hk] at hk'
      cases hk'
  | some k =>
      simp only [hk] at h
      rw [touch_bind_ok] at h
      obtain ⟨-, h⟩ := h
      split at h
      · rename_i hsilent
        obtain ⟨c', -, hs, hl, -⟩ := handleClose_ok h
        obtain ⟨hnow, htimes⟩ := handleClose_clock h
        have hsweeps : Sweeps env b b' := Sweeps.close hsilent hnow htimes hs hl
        refine ⟨hsweeps, fun k' hk' ha => ?_⟩
        -- the connection the context still points at, if it does, is closed
        have hkk := hsweeps.link c k' hk'
        rw [hk] at hkk
        cases hkk
        rw [hs] at ha
        exact absurd rfl (Sess.alive_close.mp ha).1
      · rename_i hquiet
        cases h
        refine ⟨.refl _, fun k' hk' _ => ?_⟩
        rw [hk] at hk'
        cases hk'
        exact hquiet

theorem checkIdle_sweeping : (sweeping env).Resp (checkIdle env c) b :=
  Frame.resp_of_cases (fun _ _ h => (checkIdle_sweeps h).1) fun _ _ => trivial

/-- **Whatever becomes of the flush, it closes silent connections only.** -/
theorem store_sweeps {force : Bool} {r : Int} (h : store env mp force b = .ok (r, b')) : Sweeps env b b' := by
  have hall : ∀ b, (sweeping env).Resp (storeAll env mp) b := fun b =>
    storeAll_frame (fun _ _ _ => sweeping_of_writing) fun _ _ _ => checkIdle_sweeping
  have hresp : (sweeping env).Resp (store env mp force) b := by
    unfold store
    refine Frame.resp_modify_bind (Sweeps.of_same rfl rfl rfl rfl) (Frame.resp_get_bind ?_)
    split
    · exact hall _
    · split
      · exact Frame.resp_pure _
      · exact Frame.resp_set_bind (Sweeps.of_same rfl rfl rfl rfl) (hall _)
  exact Frame.resp_ok hresp h

/-- **A walk over the sessions that gets to its end** leaves none of them with a silent connection. -/
theorem storeClients_sweeps (cs : List CtxId) : ∀ b : Broker, storeClients env mp cs b = .ok (0, b') →
    ∀ c ∈ cs, ∀ k, (b'.sess.ctxs c).mqttConnection = some k → b'.sess.Alive k → ¬ b'.Silent env k := by
  induction cs with
  | nil => exact fun _ _ c hc => by cases hc
  | cons c cs ih =>
      intro b h
      unfold storeClients at h
      rw [bind_ok] at h
      obtain ⟨_, b₁, hcheck, h⟩ := h
      have hvisited := (checkIdle_sweeps hcheck).2
      -- the rest of the walk closes more and opens nothing
      have hlater : Sweeps env b₁ b' → ∀ k, (b'.sess.ctxs c).mqttConnection = some k → b'.sess.Alive k →
          ¬ b'.Silent env k := fun hs k hk ha hsilent =>
        hvisited k (hs.link c k hk) (hs.dying k ha) (hs.silent.mp hsilent)
      have hrest : ∀ b₂, storeClients env mp cs b₂ = .ok (0, b') → Sweeps env b₁ b₂ → ∀ c' ∈ c :: cs, ∀ k,
          (b'.sess.ctxs c').mqttConnection = some k → b'.sess.Alive k → ¬ b'.Silent env k := by
        intro b₂ h₂ hs c' hc'
        rcases List.mem_cons.mp hc' with rfl | hc'
        · have hresp : (sweeping env).Resp (storeClients env mp cs) b₂ :=
            storeClients_frame (fun _ _ _ => sweeping_of_writing) _ (fun _ _ _ => checkIdle_sweeping) _
          exact hlater (hs.trans (Frame.resp_ok hresp h₂))
        · exact ih b₂ h₂ c' hc'
      rw [get_bind] at h
      split at h
      · exact hrest b₁ h (.refl _)
      · obtain ⟨_, b₂, hw, -, h⟩ := errorReturn_ok h (by decide)
        exact hrest b₂ h (Frame.resp_ok (sweeping_of_writing writeChunk_writing) hw)

/-! ## A flush that gets to the sessions -/

/-- What the flush writes up to the end of the sessions. -/
def sessionRecords (env : Env) (b : Broker) : List Record :=
  .info { lastMsgId := b.store.lastMsgId, lastUpdateTime := b.store.lastUpdateTime } ::
    ((storedMsgs env b).map .msg ++ (storedInfos env b).map .client)

/-- The flush is not skipped, the file can be opened, and it takes everything up to the end of the sessions. -/
structure GetsThrough (env : Env) (mp : MsgPack) (b : Broker) : Prop where
  marked : Marked b
  opened : env.fopen b.nfiles = true
  written : Completed env.fwrite (b.nfiles + 1) (fileWrites mp (sessionRecords env b))

/-- A piece of the flush all of whose writes succeed is followed by the next one. -/
theorem errorReturn_completed {x y : BrokerM Int} {ws : List ByteStr} {r : Int} (h : errorReturn x y b = .ok (r, b'))
    (hx : ∀ r₁ b₁, x b = .ok (r₁, b₁) → Puts env ws b r₁ b₁) (hc : Completed env.fwrite b.nfiles ws) :
    ∃ b₁, x b = .ok (0, b₁) ∧ b₁.nfiles = b.nfiles + ws.length ∧ y b₁ = .ok (r, b') := by
  unfold errorReturn at h
  rw [bind_ok] at h
  obtain ⟨r₁, b₁, hx₁, h⟩ := h
  obtain ⟨rfl, hn⟩ := (hx r₁ b₁ hx₁).done hc
  rw [if_neg (by decide)] at h
  exact ⟨b₁, hx₁, hn, h⟩

/-- **Such a flush walks over all sessions.** -/
theorem storeAll_sweeps {r : Int} (h : storeAll env mp b = .ok (r, b')) (hopen : env.fopen b.nfiles = true)
    (hw : Completed env.fwrite (b.nfiles + 1) (fileWrites mp (sessionRecords env b))) :
    ∀ clientId c, b.sess.registry.findClientContext clientId = some c → ∀ k,
      (b'.sess.ctxs c).mqttConnection = some k → b'.sess.Alive k → ¬ b'.Silent env k := by
  -- the writes up to the sessions; the retained messages are written behind the sweep
  have hsplit : fileWrites mp (sessionRecords env b) =
      chunkWrites .globalInfo
          (mp.info.pack { lastMsgId := b.store.lastMsgId, lastUpdateTime := b.store.lastUpdateTime }) ++
        (fileWrites mp ((storedMsgs env b).map .msg) ++ fileWrites mp ((storedInfos env b).map .client)) := by
    unfold sessionRecords
    rw [← fileWrites_append]
    unfold fileWrites
    rw [List.flatMap_cons]
    rfl
  rw [hsplit, completed_append, completed_append] at hw
  obtain ⟨hinfo, hmsgs, hclients⟩ := hw
  unfold storeAll at h
  rw [bind_apply, closeFile_eq] at h
  simp only at h
  rw [errorReturn_zero (openFile_opened (b := { b with file := b.closed env, dbFile := none }) hopen)] at h
  unfold errorReturn at h
  rw [bind_ok] at h
  obtain ⟨r₁, b₄, hchunks, h⟩ := h
  -- behind the chunks only the file changes
  have hend : writing.rel b₄ b' := by
    split at h
    · cases h
      exact writing.refl _
    · exact Frame.resp_ok finishFile_writing h
  unfold storeChunks at hchunks
  obtain ⟨b₁, hx₁, hn₁, hchunks⟩ := errorReturn_completed hchunks (fun _ _ hi => writeChunk_puts hi) hinfo
  obtain ⟨file₁, dbFile₁, n₁, rfl⟩ := Frame.resp_ok storeDbInfo_writing hx₁
  have hn₁' : n₁ = b.nfiles + 1 + _ := hn₁
  have hput₂ : ∀ r₂ b₂, storeDbMsg env mp { b with file := file₁, dbFile := dbFile₁, nfiles := n₁ } = .ok (r₂, b₂) →
      Puts env (fileWrites mp ((storedMsgs env b).map .msg)) { b with file := file₁, dbFile := dbFile₁, nfiles := n₁ }
        r₂ b₂ := by
    intro r₂ b₂ hx
    have hputs := storeMsgs_puts _ _ hx
    unfold storedMsgs
    rw [List.map_map]
    exact hputs
  obtain ⟨b₂, hx₂, hn₂, hchunks⟩ := errorReturn_completed hchunks hput₂ (by rw [hn₁']; exact hmsgs)
  obtain ⟨file₂, dbFile₂, n₂, rfl⟩ := Frame.resp_ok storeDbMsg_writing hx₂
  have hn₂' : n₂ = n₁ + _ := hn₂
  have hput₃ : ∀ r₃ b₃, storeClientInfo env mp { b with file := file₂, dbFile := dbFile₂, nfiles := n₂ } = .ok (r₃, b₃) →
      Puts env (fileWrites mp ((storedInfos env b).map .client)) { b with file := file₂, dbFile := dbFile₂, nfiles := n₂ }
        r₃ b₃ := by
    intro r₃ b₃ hx
    have hputs := (storeClients_puts _ _ hx).1
    unfold storedInfos storedClients
    rw [List.map_map]
    exact hputs
  obtain ⟨b₃, hx₃, -, hchunks⟩ := errorReturn_completed hchunks hput₃ (by rw [hn₂', hn₁']; exact hclients)
  have hresp : writing.Resp (errorReturn (storeRetainMsg env mp) (pure 0)) b₃ :=
    errorReturn_resp storeRetainMsg_writing fun _ _ _ => Frame.resp_pure _
  obtain ⟨file₃, dbFile₃, n₃, rfl⟩ := writing.trans (Frame.resp_ok hresp hchunks) hend
  intro clientId c hf
  refine storeClients_sweeps _ _ hx₃ c ?_
  rw [(env.order_perm _).mem_iff]
  exact List.mem_map.mpr ⟨⟨clientId, c⟩, AList.mem_lookup_iff.mp hf, rfl⟩

/-! ## Runs -/

/-- No open client has been silent for too long. -/
def NoneIdle (env : Env) (b : Broker) : Prop := ∀ k, b.sess.Alive k → Welcomed b.log k → ¬ b.Silent env k

/-- What the tick does: no idle client stays open, and who was not idle is not closed. -/
def DropsIdle (env : Env) (b b' : Broker) : Prop :=
  NoneIdle env b' ∧ ∀ k, b.sess.Alive k → ¬ b.Silent env k → b'.sess.Alive k

/-- Every tick finds no idle client or gets to the sessions, and no CONNECT takes over an online clean session. -/
def Attentive (env : Env) (mp : MsgPack) (m : Machine) (mv : Move) (m' : Machine) : Prop :=
  (m.Flushes mv → NoneIdle env m.broker ∨ GetsThrough env mp m.broker) ∧ NoCleanTakeover m'.broker.log

theorem store_dropsIdle {busy : List ConnId} {r : Int} (hs : store env mp false { b with busy } = .ok (r, b'))
    (hatt : Attended b'.log b'.sess) (hb : NoneIdle env b ∨ GetsThrough env mp b) : DropsIdle env b b' := by
  have hflush : Sweeps env { b with busy } b' := store_sweeps hs
  have hsame : Sweeps env b { b with busy } := Sweeps.of_same rfl rfl rfl rfl
  have hsweeps : Sweeps env b b' := hsame.trans hflush
  refine ⟨fun k ha hwel => ?_, hsweeps.spared⟩
  rcases hb with hnone | hthrough
  · exact fun hsilent => hnone k (hsweeps.dying k ha) (hsweeps.log k hwel) (hsweeps.silent.mp hsilent)
  · obtain ⟨msg, c₀, hm⟩ := hwel
    obtain ⟨c, hc, hid⟩ := hatt.opened k msg .accepted c₀ hm ha
    have hfind := hsweeps.find _ _ (hatt.entry k c hc hid)
    unfold store at hs
    rw [modify_bind, get_bind, if_neg Bool.false_ne_true] at hs
    have hmark : ¬ (flushStat { b with busy }).store.lastUpdateTime ≤ (flushStat { b with busy }).lastDbUpdateTime :=
      Nat.not_le.mpr hthrough.marked
    rw [if_neg hmark, set_bind] at hs
    exact storeAll_sweeps hs hthrough.opened hthrough.written _ c hfind k (hatt.link k c hc) ha

/-- **Idle clients are dropped.** In every run whose steps are attentive, every tick drops the idle clients and no
    others. -/
theorem runs_dropsIdle {b₀ : Broker} {m : Machine} (hb : Started env mp b₀) (h : RunsWhen env mp (Attentive env mp) b₀ m) :
    RunsWhen env mp (fun m mv m' => m.Flushes mv → DropsIdle env m.broker m'.broker) b₀ m := by
  induction h with
  | start => exact .start
  | @step m m' mv hrun en hs hP ih =>
      refine .step ih en hs fun hflush => ?_
      have hatt : Attended m'.broker.log m'.broker.sess := (Reach.step (hrun.runs.reach hb) en hs).attended hP.2
      cases mv with
      | next =>
          obtain ⟨es, hbatch⟩ := hflush
          unfold Machine.step at hs
          simp only [hbatch] at hs
          split at hs
          · rename_i u b₁ he
            cases hs
            unfold runEvent at he
            rw [bind_ok] at he
            obtain ⟨r, b₂, hstore, he⟩ := he
            cases he
            have hdrops : DropsIdle env m.broker b₁ := store_dropsIdle hstore hatt (hP.1 ⟨es, hbatch⟩)
            exact hdrops
          · cases hs
      | wait _ _ => exact hflush.elim
      | http _ _ _ => exact hflush.elim
      | bridge _ => exact hflush.elim

def Ready.isTimer : Ready → Bool
  | .timer => true
  | _ => false

/-- A client goes silent, another one publishes ten minutes later, and the timer ticks. -/
def silentClient : List Move :=
  Move.alone 1 .accept ++ Move.alone 2 (.input 0 (connectPacket 65 0)) ++ Move.alone 600 .accept ++
    Move.alone 601 (.input 1 (connectPacket 66 2)) ++ Move.alone 602 (.input 1 (publishPacket 116 1)) ++
    Move.alone 603 .timer

/-- The flush of a tick is not skipped; every write to the file of a calm outside succeeds. -/
theorem attentive_calm {m m' : Machine} {mv : Move} (hm : m.Flushes mv → Marked m.broker)
    (hclean : NoCleanTakeover m'.broker.log) : Attentive Env.calm packing m mv m' :=
  ⟨fun hflush => Or.inr ⟨hm hflush, rfl, completed_calm _ _⟩, hclean⟩

/-- After the publish the tick drops the silent client and keeps the other one. -/
theorem runs_dropsIdle_publish : ∃ m : Machine, RunsWhen Env.calm packing (fun m mv m' => m.Flushes mv →
    DropsIdle Env.calm m.broker m'.broker) {} m ∧ ¬ m.broker.sess.Alive 0 ∧ m.broker.sess.Alive 1 := by
  have hrun : (Machine.initial.playWhen Env.calm packing (fun m _ m' =>
      (decide (m.broker.lastDbUpdateTime < m.broker.store.lastUpdateTime) || !m.batch.any Ready.isTimer) &&
        decide (NoCleanTakeover m'.broker.log)) silentClient).any (fun m =>
          decide (¬ m.broker.sess.Alive 0 ∧ m.broker.sess.Alive 1)) = true := by
    decide +kernel
  obtain ⟨m, hm, hP⟩ := (Option.any_eq_true _ _).mp hrun
  obtain ⟨hdead, halive⟩ := of_decide_eq_true hP
  have hruns : RunsWhen Env.calm packing (Attentive Env.calm packing) {} m := by
    refine Machine.playWhen_runs silentClient (fun m mv m' _ ht => ?_) .start hm
    rw [Bool.and_eq_true, Bool.or_eq_true, decide_eq_true_iff, decide_eq_true_iff] at ht
    refine attentive_calm (fun hflush => ht.1.resolve_right ?_) ht.2
    cases mv with
    | next =>
        obtain ⟨es, hbatch⟩ := hflush
        rw [hbatch]
        simp [Ready.isTimer]
    | wait _ _ => exact hflush.elim
    | http _ _ _ => exact hflush.elim
    | bridge _ => exact hflush.elim
  exact ⟨m, runs_dropsIdle .empty hruns, hdead, halive⟩

/-- **Nothing published**: the tick skips the flush and with it the check, and a client that has been silent for ten
    minutes stays. -/
theorem not_dropsIdle_quiet : ∃ m m' : Machine, Reach Env.calm packing m ∧ m.Flushes .next ∧
    m.step Env.calm packing .next = .ok m' ∧ ¬ DropsIdle Env.calm m.broker m'.broker := by
  have hrun : (Machine.initial.play Env.calm packing (Move.alone 1 .accept ++
      Move.alone 2 (.input 0 (connectPacket 65 0)) ++ [.wait 602 [.timer]])).any (fun m => decide (
        (m.batch.length = 1 ∧ m.batch.all Ready.isTimer = true) ∧
        (m.step Env.calm packing .next).toOption.any (fun m' => decide (m'.broker.sess.Alive 0 ∧
          m'.broker.log.any (Act.welcomes 0) = true ∧ (m'.broker.now : Int) - m'.broker.lastMsgTime 0 > 300)) = true)) = true := by
    decide +kernel
  obtain ⟨m, hm, ⟨hlen, htimer⟩, hstep⟩ := Machine.exists_reach hrun
  obtain ⟨m', hm', hP⟩ := (Option.any_eq_true _ _).mp hstep
  obtain ⟨halive, hlog, hsilent⟩ := of_decide_eq_true hP
  have hflush : m.Flushes .next := by
    obtain ⟨e, hb⟩ := List.length_eq_one_iff.mp hlen
    rw [hb] at htimer
    cases e with
    | timer => exact ⟨[], hb⟩
    | _ => cases htimer
  have hwel : Welcomed m'.broker.log 0 := .of_any hlog
  exact ⟨m, m', hm, hflush, ok_of_toOption hm', fun hdrops => hdrops.1 0 halive hwel hsilent⟩

end MqttServer
