import Mathlib.Tactic

/-!
# `Lib.USet` — finite sets with an iteration order

An unordered set as a program sees it: membership, insertion and removal, and a list of the elements, each
once, to iterate over.
-/

namespace Lib

/-- A duplicate-free list. -/
structure USet (α : Type) where
  toList : List α
  nodup : toList.Nodup

namespace USet

variable {α : Type}

instance : Membership α (USet α) := ⟨fun s a => a ∈ s.toList⟩

instance : EmptyCollection (USet α) := ⟨⟨[], List.nodup_nil⟩⟩

theorem mem_def {a : α} {s : USet α} : a ∈ s ↔ a ∈ s.toList := Iff.rfl

@[simp] theorem not_mem_empty (a : α) : a ∉ (∅ : USet α) := List.not_mem_nil

variable [DecidableEq α]

instance (a : α) (s : USet α) : Decidable (a ∈ s) := inferInstanceAs (Decidable (a ∈ s.toList))

/-- Insert an element that may already be there. -/
def insert (s : USet α) (a : α) : USet α :=
  if h : a ∈ s then s
  else ⟨s.toList ++ [a], by
    rw [List.nodup_append]
    refine ⟨s.nodup, List.nodup_singleton a, ?_⟩
    rintro b hb c hc rfl
    rw [List.mem_singleton] at hc
    exact h (hc ▸ hb)⟩

/-- Remove an element that may not be there. -/
def erase (s : USet α) (a : α) : USet α := ⟨s.toList.erase a, s.nodup.erase a⟩

@[simp] theorem mem_insert {s : USet α} {a b : α} : b ∈ s.insert a ↔ b ∈ s ∨ b = a := by
  unfold insert
  split
  · constructor
    · exact Or.inl
    · rintro (h | rfl)
      · exact h
      · assumption
  · rw [mem_def, List.mem_append, List.mem_singleton, ← mem_def]

@[simp] theorem mem_erase {s : USet α} {a b : α} : b ∈ s.erase a ↔ b ∈ s ∧ b ≠ a := by
  rw [mem_def, erase, s.nodup.mem_erase_iff, ← mem_def, and_comm]

end USet
end Lib
