import MqttServer.Lib.Bits
import MqttServer.Common.QueueRun

/-!
# `Common.QueueStart` — the constructor of the queue

`ceilToPow2` rounds up to a power of two, and the constructor makes either one block of that size or a circle of
blocks of `MAX_BLOCK_SIZE` cells. In both cases the blocks have room for the `maxSize` elements asked for, wherever the
consumer is, and the first state of the queue meets the invariant.
-/

namespace MqttServer.Moodycamel

open Lib

variable {α : Type}

namespace ReaderWriterQueue

/-- **`ceilToPow2` rounds up** to the next power of two. -/
theorem ceilToPow2_eq {x : Nat} (hpos : 0 < x) (hx : x ≤ 2 ^ 63) :
    ∃ k ≤ 63, ceilToPow2 x = 2 ^ k ∧ x ≤ 2 ^ k ∧ 2 ^ k < 2 * x := by
  have hpred : (x + (2 ^ 64 - 1)) % 2 ^ 64 = x - 1 := by
    rw [show x + (2 ^ 64 - 1) = x - 1 + 2 ^ 64 by omega, Nat.add_mod_right, Nat.mod_eq_of_lt (by omega)]
  -- six rounds, from one place to sixty-four
  have hfilled := (((((Filled.refl (x - 1)).or_shiftRight).or_shiftRight).or_shiftRight).or_shiftRight).or_shiftRight.or_shiftRight
  obtain ⟨k, -, hk, hlt, hle⟩ := hfilled.eq_two_pow (by omega)
  have hk63 : k ≤ 63 := by
    by_contra hgt
    have hpow : 2 ^ 64 ≤ 2 ^ k := Nat.pow_le_pow_right (by omega) (by omega)
    omega
  have hword : 2 ^ k < 2 ^ 64 := Nat.pow_lt_pow_right (by omega) (by omega)
  refine ⟨k, hk63, ?_, by omega, by omega⟩
  unfold ceilToPow2
  rw [hpred]
  exact (congrArg (· % 2 ^ 64) hk).trans (Nat.mod_eq_of_lt hword)

/-! ## The loop -/

/-- The heap, the block made last, and the first block after so many turns. -/
def built (size : Nat) (turns : Nat) : Building α := (List.range turns).foldl (fun st _ => st.add size) {}

theorem built_succ (size n : Nat) : (built size (n + 1) : ReaderWriterQueue.Building α) = (built size n).add size := by
  unfold built
  rw [List.range_succ, List.foldl_append]
  rfl

/-- **The loop.** After each turn the blocks made so far form a circle. -/
theorem built_eq (size n : Nat) :
    (built size (n + 1) : ReaderWriterQueue.Building α).made = n + 1 ∧ (built size (n + 1) : ReaderWriterQueue.Building α).firstBlock = 1 ∧
    (built size (n + 1) : ReaderWriterQueue.Building α).lastBlock = n + 1 ∧
    ∀ b, 1 ≤ b → b ≤ n + 1 →
      (built size (n + 1) : ReaderWriterQueue.Building α).blocks b = { makeBlock size with next := if b = n + 1 then 1 else b + 1 } := by
  induction n with
  | zero =>
      refine ⟨rfl, rfl, rfl, fun b hlo hhi => ?_⟩
      obtain rfl : b = 1 := by omega
      simp [built, Building.add, nullptr]
  | succ n ih =>
      obtain ⟨hmade, hfirst, hlast, hblocks⟩ := ih
      rw [built_succ]
      have hne : ¬1 = nullptr := by decide
      refine ⟨by simp [Building.add, hmade], by simp [Building.add, hfirst, nullptr], by simp [Building.add, hmade],
        fun b hlo hhi => ?_⟩
      simp only [Building.add, hmade, hlast, hfirst, if_neg hne]
      by_cases hnew : b = n + 2
      · subst hnew
        simp
      · by_cases hold : b = n + 1
        · subst hold
          simp [hblocks (n + 1) (by omega) (Nat.le_refl _)]
        · rw [Function.update_of_ne hnew, Function.update_of_ne hold, Function.update_of_ne hnew,
            hblocks b hlo (by omega)]
          simp [hnew, hold]

/-- Blocks that lead from each number to the next one, and from the last one back to the first. -/
theorem path_range' {next : Nat → Nat} {first : Nat} (n a : Nat)
    (h : ∀ b, a ≤ b → b < a + n → next b = if b + 1 = a + n then first else b + 1) :
    Path next (List.range' a n) first := by
  induction n generalizing a with
  | zero => trivial
  | succ n ih =>
      refine ⟨?_, ih (a + 1) fun b hlo hhi => ?_⟩
      · rw [h a (Nat.le_refl _) (by omega)]
        cases n with
        | zero => simp
        | succ n => simp [List.range'_succ]
      · rw [h b (by omega) (by omega), Nat.add_right_comm a 1 n]
        rfl

end ReaderWriterQueue

/-! ## The first state -/

section Start

variable {maxBlock maxSize m n k : Nat}

/-- The circle of equal blocks that the constructor leaves. -/
theorem built_layout (hk : k < 63) (hn : 0 < n) (q : ReaderWriterQueue α)
    (hblocks : q.blocks = (ReaderWriterQueue.built (2 ^ (k + 1)) n).blocks) (hmade : q.made = n)
    (hfront : q.frontBlock = 1) (htail : q.tailBlock = 1) :
    Layout q .idle .idle [1] (List.range' 2 (n - 1)) fun _ => [] := by
  obtain ⟨n, rfl⟩ : ∃ n', n = n' + 1 := ⟨n - 1, by omega⟩
  obtain ⟨-, -, -, hbuilt⟩ := ReaderWriterQueue.built_eq (α := α) (2 ^ (k + 1)) n
  have hring : [1] ++ List.range' 2 (n + 1 - 1) = List.range' 1 (n + 1) := by
    rw [Nat.add_sub_cancel, List.range'_succ]
    rfl
  refine ⟨?_, ?_, ?_, fun b hb => ?_, fun b _ => rfl, fun b hb => ?_, fun b hb => ?_⟩
  · rw [hring, hfront]
    refine ⟨by rw [List.range'_succ]; rfl, ReaderWriterQueue.path_range' _ _ fun b hlo hhi => ?_⟩
    rw [hblocks, hbuilt b hlo (by omega)]
    by_cases he : b = n + 1
    · simp [he, Nat.add_comm]
    · have hne : b + 1 ≠ 1 + (n + 1) := by omega
      simp [he, hne]
  · rw [hring, hmade]
    simp [Producer.unlinked]
  · rw [htail]
    rfl
  · rw [hring, List.mem_range'_1] at hb
    rw [hblocks, hbuilt b hb.1 (by omega)]
    exact (makeBlock_holds hk).next _
  · simp at hb
  · simp at hb

/-- **What the constructor chooses.** One block has room for all the elements, or all blocks but one have together. -/
theorem initialBlocks_eq (hm : m < 62) (hpos : 0 < maxSize) (hsize : maxSize < 2 ^ 63) :
    ∃ k n, ReaderWriterQueue.initialBlocks (2 ^ (m + 1)) maxSize = (n, 2 ^ (k + 1)) ∧ k < 63 ∧ 0 < n ∧
      (maxSize ≤ 2 ^ (k + 1) - 1 ∨ maxSize ≤ (n - 1) * (2 ^ (k + 1) - 1)) := by
  obtain ⟨j, hj63, hceil, hle, -⟩ := ReaderWriterQueue.ceilToPow2_eq (x := maxSize + 1) (by omega) (by omega)
  unfold ReaderWriterQueue.initialBlocks
  simp only [hceil]
  split
  · refine ⟨m, _, rfl, by omega, ?_, Or.inr ?_⟩
    all_goals
      have htwo : 2 ≤ 2 ^ (m + 1) := by
        have hone := Nat.two_pow_pos m
        rw [Nat.pow_succ]
        omega
      generalize 2 ^ (m + 1) = maxBlock at htwo ⊢
    · apply Nat.div_pos <;> omega
    · -- the quotient is rounded up, and one block more than that is made
      have hdiv := Nat.div_add_mod (maxSize + maxBlock * 2 - 3) (maxBlock - 1)
      have hmod := Nat.mod_lt (maxSize + maxBlock * 2 - 3) (show 0 < maxBlock - 1 by omega)
      rw [Nat.mul_comm] at hdiv
      rw [Nat.sub_one_mul]
      omega
  · case isFalse hsmall =>
      cases j with
      | zero => omega
      | succ k =>
          refine ⟨k, 1, rfl, by omega, by omega, Or.inl (by omega)⟩

/-- **The first state** meets the invariant. -/
theorem start_inv (hmax : ∃ m, maxBlock = 2 ^ (m + 1) ∧ m < 62) (hpos : 0 < maxSize) (hsize : maxSize < 2 ^ 63) :
    Inv maxSize (System.start maxBlock maxSize : System α) := by
  obtain ⟨m, rfl, hm⟩ := hmax
  obtain ⟨k, n, hinit, hk, hn, henough⟩ := initialBlocks_eq hm hpos hsize
  obtain ⟨n', rfl⟩ : ∃ n', n = n' + 1 := ⟨n - 1, by omega⟩
  obtain ⟨hmade, hfirst, -, hblocks⟩ := ReaderWriterQueue.built_eq (α := α) (2 ^ (k + 1)) n'
  have hqueue : (ReaderWriterQueue.make (2 ^ (m + 1)) maxSize : ReaderWriterQueue α) =
      { blocks := (ReaderWriterQueue.built (2 ^ (k + 1)) (n' + 1)).blocks
        made := (ReaderWriterQueue.built (2 ^ (k + 1)) (n' + 1) : ReaderWriterQueue.Building α).made
        frontBlock := (ReaderWriterQueue.built (2 ^ (k + 1)) (n' + 1) : ReaderWriterQueue.Building α).firstBlock
        tailBlock := (ReaderWriterQueue.built (2 ^ (k + 1)) (n' + 1) : ReaderWriterQueue.Building α).firstBlock
        largestBlockSize := 2 ^ (k + 1) } := by
    unfold ReaderWriterQueue.make
    rw [hinit]
    rfl
  have hmask : ∀ b ∈ List.range' 1 (n' + 1),
      ((ReaderWriterQueue.built (2 ^ (k + 1)) (n' + 1) : ReaderWriterQueue.Building α).blocks b).size = 2 ^ (k + 1) := by
    intro b hb
    rw [List.mem_range'_1] at hb
    have hnew : (makeBlock (2 ^ (k + 1)) : Block α).size = _ := makeBlock_size hk
    rw [hblocks b hb.1 (by omega)]
    exact hnew
  refine ⟨⟨[1], List.range' 2 n', fun _ => [], ?_, ?_, trivial, trivial, rfl, rfl⟩, fun _ => rfl, Nat.zero_le _⟩
  · show Layout (ReaderWriterQueue.make (2 ^ (m + 1)) maxSize) .idle .idle _ _ _
    rw [hqueue]
    exact built_layout hk (Nat.succ_pos n') _ rfl hmade hfirst hfirst
  · show Capacity maxSize (ReaderWriterQueue.make (2 ^ (m + 1)) maxSize)
    rw [hqueue, hmade]
    refine ⟨⟨k, rfl, hk⟩, fun b hb => (hmask b hb).le, ?_⟩
    have hsizeMask : ∀ b ∈ List.range' 1 (n' + 1),
        ((ReaderWriterQueue.built (2 ^ (k + 1)) (n' + 1) : ReaderWriterQueue.Building α).blocks b).sizeMask = 2 ^ (k + 1) - 1 := by
      intro b hb
      exact Nat.eq_sub_of_add_eq (hmask b hb)
    rcases henough with hone | hall
    · exact Or.inl fun b hb => by rw [hsizeMask b hb]; exact hone
    · exact Or.inr ⟨_, fun b hb => (hsizeMask b hb).ge, hall⟩

end Start
end MqttServer.Moodycamel
