import Mathlib.Tactic

/-!
# `Lib.Run` — runs of machines

A deterministic machine is a step function over states and inputs. `Along` says that a condition on the state
before the step and its input holds at every step of a run; `run_invariant` turns a step lemma under that
condition into a fact about every state the run goes through.

A labelled machine is a step relation whose steps emit labels. `Trace` is its closure, with the labels one
after the other; `Trace.invariant` is the invariant rule for facts about the state and the labels emitted so
far, under a condition on these labels that holds of every shorter sequence too.
-/

namespace Lib

variable {σ α : Type} (step : σ → α → σ)

/-- The state after a list of inputs. -/
def run (s : σ) (as : List α) : σ := as.foldl step s

/-- Every step of the run meets `P`. -/
def Along (P : σ → α → Prop) : σ → List α → Prop
  | _, [] => True
  | s, a :: as => P s a ∧ Along P (step s a) as

variable {step}

@[simp] theorem run_nil (s : σ) : run step s [] = s := rfl

@[simp] theorem run_cons (s : σ) (a : α) (as : List α) : run step s (a :: as) = run step (step s a) as := rfl

/-- A run meets a condition when its first part does, and so does the rest from where that ends. -/
theorem along_append {P : σ → α → Prop} (as bs : List α) (s : σ) :
    Along step P s (as ++ bs) ↔ Along step P s as ∧ Along step P (run step s as) bs := by
  induction as generalizing s with
  | nil => simp [Along]
  | cons a as ih =>
      rw [List.cons_append, Along, Along, ih, run_cons, and_assoc]

/-- What every step meets. -/
theorem along_of_forall {P : σ → α → Prop} (h : ∀ s a, P s a) (as : List α) : ∀ s, Along step P s as := by
  induction as with
  | nil => exact fun _ => trivial
  | cons a as ih => exact fun s => ⟨h s a, ih _⟩

/-- What every input meets. -/
theorem along_of_mem {P : α → Prop} (as : List α) (h : ∀ a ∈ as, P a) : ∀ s, Along step (fun _ a => P a) s as := by
  induction as with
  | nil => exact fun _ => trivial
  | cons a as ih => exact fun s => ⟨h a (List.mem_cons_self ..), ih (fun b hb => h b (List.mem_cons_of_mem _ hb)) _⟩

theorem Along.mono {P Q : σ → α → Prop} (hPQ : ∀ s a, P s a → Q s a) (as : List α) (s : σ)
    (h : Along step P s as) : Along step Q s as := by
  induction as generalizing s with
  | nil => trivial
  | cons a as ih => exact ⟨hPQ s a h.1, ih _ h.2⟩

/-- **The invariant rule.** What one step preserves under `P`, a run all of whose steps meet `P` preserves. -/
theorem run_invariant {P : σ → α → Prop} {I : σ → Prop}
    (hstep : ∀ s a, I s → P s a → I (step s a)) (as : List α) (s : σ) (hs : I s)
    (has : Along step P s as) : I (run step s as) := by
  induction as generalizing s with
  | nil => exact hs
  | cons a as ih => exact ih (step s a) (hstep s a hs has.1) has.2

/-- **The rule for two conditions.** When they agree at every step from a state of the invariant that is possible, and
    either keeps the invariant, a possible run meets the one throughout exactly when it meets the other. -/
theorem along_iff {G P Q : σ → α → Prop} {I : σ → Prop}
    (hstep : ∀ s a, I s → G s a → (P s a ↔ Q s a) ∧ (Q s a → I (step s a))) (as : List α) :
    ∀ s, I s → Along step G s as → (Along step P s as ↔ Along step Q s as) := by
  induction as with
  | nil => exact fun _ _ _ => Iff.rfl
  | cons a as ih =>
      intro s hs hG
      obtain ⟨hiff, hkeep⟩ := hstep s a hs hG.1
      constructor
      · rintro ⟨hP, hrest⟩
        exact ⟨hiff.mp hP, (ih _ (hkeep (hiff.mp hP)) hG.2).mp hrest⟩
      · rintro ⟨hQ, hrest⟩
        exact ⟨hiff.mpr hQ, (ih _ (hkeep hQ) hG.2).mpr hrest⟩

/-- **The rule for a rank.** When no step raises it and each step of a kind lowers it as long as it is not zero, as many
    steps of that kind bring it down to zero, whatever the other steps are. -/
theorem run_rank {P : α → Prop} {I : σ → Prop} (rank : σ → Nat) (mine : α → Bool)
    (hstep : ∀ s a, I s → P a → I (step s a) ∧ rank (step s a) ≤ rank s - if mine a then 1 else 0) (as : List α)
    (s : σ) (hs : I s) (has : ∀ a ∈ as, P a) : rank (run step s as) ≤ rank s - as.countP mine := by
  induction as generalizing s with
  | nil => exact Nat.le_refl _
  | cons a as ih =>
      obtain ⟨hkeep, hle⟩ := hstep s a hs (has a (List.mem_cons_self ..))
      have hrest := ih (step s a) hkeep fun b hb => has b (List.mem_cons_of_mem _ hb)
      rw [run_cons, List.countP_cons]
      omega

/-! ## Labelled machines -/

/-- Finitely many steps, with all their labels in order. -/
inductive Trace (R : σ → List α → σ → Prop) : σ → List α → σ → Prop where
  | nil {s : σ} : Trace R s [] s
  | cons {s s₁ s' : σ} {ls ls' : List α} (h : R s ls s₁) (t : Trace R s₁ ls' s') : Trace R s (ls ++ ls') s'

namespace Trace

variable {R Q : σ → List α → σ → Prop} {s s₁ s' : σ} {ls ls' : List α}

theorem single (h : R s ls s') : Trace R s ls s' := by
  have ht := Trace.cons h .nil
  rwa [List.append_nil] at ht

theorem append (h : Trace R s ls s₁) (t : Trace R s₁ ls' s') : Trace R s (ls ++ ls') s' := by
  induction h with
  | nil => exact t
  | cons hs _ ih =>
      rw [List.append_assoc]
      exact .cons hs (ih t)

theorem mono (hRQ : ∀ s ls s', R s ls s' → Q s ls s') (h : Trace R s ls s') : Trace Q s ls s' := by
  induction h with
  | nil => exact .nil
  | cons hs _ ih => exact .cons (hRQ _ _ _ hs) ih

/-- **The invariant rule.** -/
theorem invariant {I : List α → σ → Prop} {G : List α → Prop}
    (hpre : ∀ l l', G (l ++ l') → G l)
    (hstep : ∀ log s ls s', G (log ++ ls) → I log s → R s ls s' → I (log ++ ls) s')
    (h : Trace R s ls s') : ∀ log, G (log ++ ls) → I log s → I (log ++ ls) s' := by
  induction h with
  | nil =>
      intro log _ hs
      rwa [List.append_nil]
  | cons hs _ ih =>
      intro log hgood hI
      rw [← List.append_assoc] at hgood ⊢
      exact ih _ hgood (hstep _ _ _ _ (hpre _ _ hgood) hI hs)

end Trace
end Lib
