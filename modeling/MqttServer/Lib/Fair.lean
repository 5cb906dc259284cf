import Mathlib.Tactic

/-!
# `Lib.Fair` — infinite runs of several actors

A machine shared by actors is a family of step relations, one for each actor. In an infinite run, at every moment
one of them makes a step or nothing happens. Safety is shown as for finite runs (`IsRun.invariant`). Progress needs
fairness: an actor that can go on from some moment on without a break goes on at some later moment. `leadsTo_fair`
turns this into a rule with conditions on single steps only; `LeadsTo.trans` chains its conclusions.
-/

namespace Lib

variable {σ ι : Type} (R : ι → σ → σ → Prop)

/-- An infinite run. -/
def IsRun (init : σ) (tr : ℕ → σ) : Prop :=
  tr 0 = init ∧ ∀ n, tr (n + 1) = tr n ∨ ∃ i, R i (tr n) (tr (n + 1))

/-- **Weak fairness.** -/
def WeakFair (i : ι) (tr : ℕ → σ) : Prop :=
  ∀ n, (∀ n', n ≤ n' → ∃ s', R i (tr n') s') → ∃ n', n ≤ n' ∧ R i (tr n') (tr (n' + 1))

/-- Whenever `P` holds, `Q` holds then or later. -/
def LeadsTo (tr : ℕ → σ) (P Q : σ → Prop) : Prop := ∀ n, P (tr n) → ∃ n', n ≤ n' ∧ Q (tr n')

variable {R} {init : σ} {tr : ℕ → σ} {P Q X I : σ → Prop}

theorem IsRun.invariant (h : IsRun R init tr) (hinit : I init) (hstep : ∀ i s s', R i s s' → I s → I s') (n : ℕ) :
    I (tr n) := by
  induction n with
  | zero =>
      rw [h.1]
      exact hinit
  | succ n ih =>
      rcases h.2 n with hs | ⟨i, hs⟩
      · rw [hs]
        exact ih
      · exact hstep i _ _ hs ih

/-- What no step takes back never gets less. -/
theorem IsRun.mono {α : Type} [Preorder α] {f : σ → α} (h : IsRun R init tr)
    (hstep : ∀ i s s', R i s s' → f s ≤ f s') {n n' : ℕ} (hn : n ≤ n') : f (tr n) ≤ f (tr n') := by
  induction hn with
  | refl => exact le_refl _
  | @step n' _ ih =>
      refine ih.trans ?_
      rcases h.2 n' with hs | ⟨i, hs⟩
      · rw [hs]
      · exact hstep i _ _ hs

theorem LeadsTo.trans (h : LeadsTo tr P Q) (h' : LeadsTo tr Q X) : LeadsTo tr P X := by
  intro n hp
  obtain ⟨n₁, hn₁, hq⟩ := h n hp
  obtain ⟨n₂, hn₂, hx⟩ := h' n₁ hq
  exact ⟨n₂, Nat.le_trans hn₁ hn₂, hx⟩

/-- **The progress rule.** Under `P` a fair actor can make a step, its step leads to `Q`, and no step of another
    actor takes `P` away but by leading to `Q`. -/
theorem leadsTo_fair {i : ι} (hrun : IsRun R init tr) (hfair : WeakFair R i tr) (hinv : ∀ n, I (tr n))
    (hen : ∀ s, I s → P s → ∃ s', R i s s') (hact : ∀ s s', I s → P s → R i s s' → Q s')
    (hkeep : ∀ j s s', I s → P s → R j s s' → P s' ∨ Q s') : LeadsTo tr P Q := by
  intro n hp
  by_contra hnever
  have hnot : ∀ n', n ≤ n' → ¬ Q (tr n') := fun n' hn' hq => hnever ⟨n', hn', hq⟩
  have hstay : ∀ d, P (tr (n + d)) := by
    intro d
    induction d with
    | zero => exact hp
    | succ d ih =>
        rcases hrun.2 (n + d) with hs | ⟨j, hs⟩
        · rw [← Nat.add_assoc, hs]
          exact ih
        · rcases hkeep j _ _ (hinv _) ih hs with hp' | hq'
          · exact hp'
          · exact absurd hq' (hnot _ (by omega))
  have hall : ∀ n', n ≤ n' → P (tr n') := by
    intro n' hn'
    obtain ⟨d, rfl⟩ := Nat.exists_eq_add_of_le hn'
    exact hstay d
  obtain ⟨n', hn', hs⟩ := hfair n fun n' hn' => hen _ (hinv n') (hall n' hn')
  exact hnot (n' + 1) (Nat.le_succ_of_le hn') (hact _ _ (hinv n') (hall n' hn') hs)

end Lib
