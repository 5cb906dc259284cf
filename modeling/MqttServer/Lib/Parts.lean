import Mathlib.Data.List.TakeDrop

/-!
# `Lib.Parts` — a list in parts, cut somewhere

A list is the concatenation of parts. A cut after `n` elements leaves some parts whole (`whole`) and takes the front of one
of them (`begun`), or none when it falls between two parts. What lies between two cuts is the rest of the part that the first
one has begun, whole parts, and the front of the part that the second one has begun (`between`).
-/

namespace Lib

variable {α : Type}

/-- What a cut after `n` elements leaves of the part it falls into. -/
def begun : List (List α) → Nat → List α
  | [], _ => []
  | p :: ps, n => if n < p.length then p.take n else begun ps (n - p.length)

/-- The parts before the cut. -/
def whole : List (List α) → Nat → List (List α)
  | [], _ => []
  | p :: ps, n => if n < p.length then [] else p :: whole ps (n - p.length)

theorem take_flatten (ps : List (List α)) (n : Nat) : ps.flatten.take n = (whole ps n).flatten ++ begun ps n := by
  induction ps generalizing n with
  | nil => simp [whole, begun]
  | cons p ps ih =>
      rw [List.flatten_cons, whole, begun]
      by_cases hlt : n < p.length
      · simp [hlt, List.take_append_of_le_length (Nat.le_of_lt hlt)]
      · rw [if_neg hlt, if_neg hlt, List.take_append, List.take_of_length_le (by omega), ih, List.flatten_cons, List.append_assoc]

theorem whole_le {ps : List (List α)} {n n' : Nat} (h : n ≤ n') : whole ps n <+: whole ps n' := by
  induction ps generalizing n n' with
  | nil => exact List.prefix_refl _
  | cons p ps ih =>
      unfold whole
      by_cases hlt : n < p.length
      · rw [if_pos hlt]
        exact List.nil_prefix
      · rw [if_neg hlt, if_neg (by omega)]
        apply (List.prefix_cons_inj p).mpr
        exact ih (by omega)

/-- A cut that leaves something is followed by the rest of a part. -/
theorem begun_lt {ps : List (List α)} {n : Nat} (h : begun ps n ≠ []) :
    ∃ p ∈ ps, begun ps n <+: p ∧ (begun ps n).length < p.length := by
  induction ps generalizing n with
  | nil => exact absurd rfl h
  | cons p ps ih =>
      unfold begun at h ⊢
      split at h
      · case isTrue hlt =>
          rw [if_pos hlt]
          exact ⟨p, List.mem_cons_self, List.take_prefix n p, by rw [List.length_take]; omega⟩
      · case isFalse hge =>
          rw [if_neg hge]
          obtain ⟨p', hin, hle, hlt⟩ := ih h
          exact ⟨p', List.mem_cons_of_mem p hin, hle, hlt⟩

theorem whole_subset {ps : List (List α)} (n : Nat) : ∀ p ∈ whole ps n, p ∈ ps := by
  induction ps generalizing n with
  | nil => exact fun _ h => h
  | cons p ps ih =>
      intro p' hin
      unfold whole at hin
      split at hin
      · cases hin
      · rcases List.mem_cons.mp hin with rfl | hin
        · exact List.mem_cons_self
        · exact List.mem_cons_of_mem p (ih _ p' hin)

theorem whole_all {ps : List (List α)} {n : Nat} (h : ps.flatten.length ≤ n) : whole ps n = ps := by
  induction ps generalizing n with
  | nil => rfl
  | cons p ps ih =>
      rw [List.flatten_cons, List.length_append] at h
      unfold whole
      rw [if_neg (by omega), ih (by omega)]

/-- **Between two cuts.** -/
theorem between (ps : List (List α)) {n n' : Nat} (h : n ≤ n') :
    ∃ qs, whole ps n' = whole ps n ++ qs ∧ begun ps n ++ (ps.flatten.drop n).take (n' - n) = qs.flatten ++ begun ps n' := by
  have hle : whole ps n <+: whole ps n' := whole_le h
  obtain ⟨qs, hqs⟩ := hle
  refine ⟨qs, hqs.symm, ?_⟩
  have hsplit : ps.flatten.take n' = ps.flatten.take n ++ (ps.flatten.drop n).take (n' - n) := by
    rw [← List.take_add]
    congr 1
    omega
  rw [take_flatten, take_flatten, ← hqs, List.flatten_append, List.append_assoc, List.append_assoc] at hsplit
  exact (List.append_cancel_left hsplit).symm

end Lib
