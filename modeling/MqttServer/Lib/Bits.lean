import Mathlib.Tactic
import Mathlib.Data.Nat.Bitwise

/-!
# `Lib.Bits` — filling the bits below the top one

The usual way to round a number up to a power of two is to take one off, to `or` the number with itself shifted by 1,
2, 4 and so on, which sets every bit below its top one, and to add one again. `Filled n m y` says how far that has come:
each bit of `n` has been copied to the `m` places from its own downwards.
-/

namespace Lib

variable {n m k y : Nat}

/-- Each bit of `n` is set in `y` at `m` places. -/
def Filled (n m y : Nat) : Prop := ∀ i, y.testBit i ↔ ∃ j < m, n.testBit (i + j)

theorem Filled.refl (n : Nat) : Filled n 1 n := by
  intro i
  constructor
  · exact fun h => ⟨0, by omega, h⟩
  · rintro ⟨j, hj, h⟩
    obtain rfl : j = 0 := by omega
    exact h

/-- **One round.** It doubles the number of places. -/
theorem Filled.or_shiftRight (h : Filled n m y) : Filled n (2 * m) (y ||| y >>> m) := by
  intro i
  rw [Nat.testBit_or, Nat.testBit_shiftRight, Bool.or_eq_true, h i, h (m + i)]
  constructor
  · rintro (⟨j, hj, hbit⟩ | ⟨j, hj, hbit⟩)
    · exact ⟨j, by omega, hbit⟩
    · refine ⟨m + j, by omega, ?_⟩
      rwa [← Nat.add_assoc, Nat.add_comm i m]
  · rintro ⟨j, hj, hbit⟩
    rcases Nat.lt_or_ge j m with hlt | hge
    · exact Or.inl ⟨j, hlt, hbit⟩
    · refine Or.inr ⟨j - m, by omega, ?_⟩
      rwa [show m + i + (j - m) = i + j by omega]

/-- **The end.** When there are as many places as the number has bits, all bits below its top one are set. -/
theorem Filled.eq_two_pow (h : Filled n m y) (hn : n < 2 ^ m) : ∃ k ≤ m, y + 1 = 2 ^ k ∧ n < 2 ^ k ∧ 2 ^ k ≤ 2 * n + 1 := by
  by_cases hzero : n = 0
  · subst hzero
    refine ⟨0, Nat.zero_le _, ?_, by simp, by simp⟩
    have hy : y = 0 := by
      refine Nat.eq_of_testBit_eq fun i => ?_
      have hi := h i
      simp only [Nat.zero_testBit, Bool.false_eq_true, and_false, exists_false, iff_false, Bool.not_eq_true] at hi
      rw [hi, Nat.zero_testBit]
    rw [hy]
    rfl
  · obtain ⟨t, htop, habove⟩ := Nat.exists_most_significant_bit hzero
    have hle : 2 ^ t ≤ n := Nat.ge_two_pow_of_testBit htop
    have hlt : n < 2 ^ (t + 1) := Nat.lt_pow_two_of_testBit n fun i hi => habove i (by omega)
    have htm : t < m := (Nat.pow_lt_pow_iff_right (by omega : 1 < 2)).mp (Nat.lt_of_le_of_lt hle hn)
    -- bit by bit, the number is all ones up to the top bit
    have hy : y = 2 ^ (t + 1) - 1 := by
      refine Nat.eq_of_testBit_eq fun i => ?_
      rw [Nat.testBit_two_pow_sub_one, Bool.eq_iff_iff, h i, decide_eq_true_eq]
      constructor
      · rintro ⟨j, -, hbit⟩
        by_contra hge
        rw [habove (i + j) (by omega)] at hbit
        simp at hbit
      · intro hi
        refine ⟨t - i, by omega, ?_⟩
        rwa [show i + (t - i) = t by omega]
    have hpos := Nat.two_pow_pos (t + 1)
    refine ⟨t + 1, by omega, by omega, hlt, ?_⟩
    rw [Nat.pow_succ]
    omega

end Lib
