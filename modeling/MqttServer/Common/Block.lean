import MqttServer.Common.ReaderWriterQueue

/-!
# `Common.Block` — what a block of the queue holds

A block is used by both threads at once. `Block.Holds` says what it holds between two of their steps: a list of
elements from `front` to `tail`, except that the consumer may have taken the first one out and not moved `front` yet,
and that the producer may have built one more behind the last and not moved `tail` yet. The copies that the threads
keep lag behind: `localFront` has the block at least as full, and `localTail` has it at most as full as it is.

Each operation of `inner_enqueue` and of `try_dequeue` on a block has one lemma here. None of the producer's depends on
where the consumer is, and none of the consumer's on where the producer is.
-/

namespace MqttServer.Moodycamel

open Lib

variable {α : Type} {blk : Block α} {taken : Bool} {built : Option α} {x : α} {xs : List α}

/-- The number of cells. -/
def Block.size (blk : Block α) : Nat := blk.sizeMask + 1

/-- The cells of a block that holds `xs`, seen from `front`. -/
def slots (taken : Bool) (built : Option α) (xs : List α) (i : Nat) : Option α :=
  if i = 0 ∧ taken then none else if i = xs.length then built else xs[i]?

/-- What a block holds. -/
structure Block.Holds (blk : Block α) (taken : Bool) (built : Option α) (xs : List α) : Prop where
  power : ∃ k, blk.size = 2 ^ (k + 1)
  first : blk.front < blk.size
  tail : blk.tail = (blk.front + xs.length) % blk.size
  cells : Window blk.size blk.front blk.data (slots taken built xs)
  behind : blk.localFront < blk.size ∧ ∃ d, blk.front = (blk.localFront + d) % blk.size ∧
    d + (xs.length + built.toList.length) < blk.size
  ahead : ∃ k, k ≤ xs.length ∧ blk.localTail = (blk.front + k) % blk.size
  hand : taken → blk.front ≠ blk.localTail

/-- There is a free cell, and the producer knows it. -/
def Block.Roomy (blk : Block α) (xs : List α) : Prop :=
  ∃ d, blk.front = (blk.localFront + d) % blk.size ∧ d + (xs.length + 1) < blk.size

namespace Block.Holds

theorem after_eq (h : blk.Holds taken built xs) (i : Nat) : blk.after i = (i + 1) % blk.size := by
  obtain ⟨k, hk⟩ := h.power
  have hmask : blk.sizeMask = 2 ^ (k + 1) - 1 := by
    rw [← hk]
    rfl
  rw [Block.after, hmask, Nat.and_two_pow_sub_one_eq_mod, hk]

theorem length_lt (h : blk.Holds taken built xs) : xs.length + built.toList.length < blk.size := by
  obtain ⟨-, d, -, hd⟩ := h.behind
  omega

theorem two_le (h : blk.Holds taken built xs) : 2 ≤ blk.size := by
  obtain ⟨k, hk⟩ := h.power
  have hpos := Nat.two_pow_pos k
  rw [hk, Nat.pow_succ]
  omega

/-- The fields that the producer and the consumer do not move say what they said. -/
theorem next (h : blk.Holds taken built xs) (b : Nat) : Block.Holds { blk with next := b } taken built xs :=
  ⟨h.power, h.first, h.tail, h.cells, h.behind, h.ahead, h.hand⟩

/-! ## The comparisons -/

theorem after_tail (h : blk.Holds taken built xs) :
    blk.after blk.tail = (blk.front + (xs.length + 1)) % blk.size := by
  rw [h.after_eq, h.tail, position_succ]

/-- The block does not look full from the producer's copy of the front. -/
theorem roomy (h : blk.Holds taken none xs) (hne : blk.after blk.tail ≠ blk.localFront) : blk.Roomy xs := by
  obtain ⟨hlocal, d, hfront, hd⟩ := h.behind
  refine ⟨d, hfront, ?_⟩
  simp only [Option.toList_none, List.length_nil, Nat.add_zero] at hd
  apply Nat.lt_of_le_of_ne (by omega)
  -- a whole turn from the copy leads back to it
  intro hturn
  apply hne
  rw [h.after_tail, hfront, position_add, hturn, Nat.add_mod_right, Nat.mod_eq_of_lt hlocal]

/-- The copy of the front has just been renewed and the block looks full: it is. -/
theorem full (h : blk.Holds taken none xs) (hcopy : blk.localFront = blk.front)
    (heq : blk.after blk.tail = blk.localFront) : xs.length = blk.sizeMask := by
  have hlt := h.length_lt
  rw [h.after_tail, hcopy] at heq
  by_contra hne
  have hsize : blk.size = blk.sizeMask + 1 := rfl
  simp only [Option.toList_none, List.length_nil, Nat.add_zero] at hlt
  have hzero := (position_eq_first h.first (by omega)).mp heq
  omega

theorem front_eq_tail (h : blk.Holds taken built xs) : blk.front = blk.tail ↔ xs = [] := by
  have hlt := h.length_lt
  rw [h.tail, eq_comm, position_eq_first h.first (by omega), List.length_eq_zero_iff]

theorem ne_nil_of_localTail (h : blk.Holds taken built xs) (hne : blk.front ≠ blk.localTail) : xs ≠ [] := by
  rintro rfl
  obtain ⟨k, hk, htail⟩ := h.ahead
  obtain rfl : k = 0 := by simpa using hk
  rw [position_zero h.first] at htail
  exact hne htail.symm

/-! ## The copies -/

theorem renewFront (h : blk.Holds taken built xs) :
    Block.Holds { blk with localFront := blk.front } taken built xs where
  power := h.power
  first := h.first
  tail := h.tail
  cells := h.cells
  behind := ⟨h.first, 0, (position_zero h.first).symm, by rw [Nat.zero_add]; exact h.length_lt⟩
  ahead := h.ahead
  hand := h.hand

theorem renewTail (h : blk.Holds taken built xs) :
    Block.Holds { blk with localTail := blk.tail } taken built xs where
  power := h.power
  first := h.first
  tail := h.tail
  cells := h.cells
  behind := h.behind
  ahead := ⟨xs.length, le_refl _, h.tail⟩
  hand := fun ht => by
    -- the tail is at least as far from the front as the copy of it was
    rw [ne_eq, h.front_eq_tail]
    exact h.ne_nil_of_localTail (h.hand ht)

/-! ## The producer's operations -/

/-- The cell at the tail is raw memory. -/
theorem data_tail (h : blk.Holds taken none xs) : blk.data blk.tail = none := by
  have hlt := h.length_lt
  simp only [Option.toList_none, List.length_nil, Nat.add_zero] at hlt
  rw [h.tail, h.cells xs.length hlt]
  simp [slots]

/-- **Building an element** behind the last one. -/
theorem construct (h : blk.Holds taken none xs) (hroom : blk.Roomy xs) (x : α) :
    Block.Holds { blk with data := Function.update blk.data blk.tail (some x) } taken (some x) xs := by
  obtain ⟨d, hfront, hd⟩ := hroom
  refine ⟨h.power, h.first, h.tail, ?_, ⟨h.behind.1, d, hfront, hd⟩, h.ahead, h.hand⟩
  show Window blk.size blk.front (Function.update blk.data blk.tail (some x)) _
  rw [h.tail]
  refine h.cells.write _ _ (by omega) (fun j _ hj => ?_) ?_
  · simp [slots, hj]
  · -- the element the consumer has in its hand is another one
    have hfree : ¬(xs.length = 0 ∧ taken = true) := by
      rintro ⟨hnil, ht⟩
      exact h.ne_nil_of_localTail (h.hand ht) (List.length_eq_zero_iff.mp hnil)
    simp only [slots, if_neg hfree, if_pos]

/-- **Moving the tail** over the element that was built. -/
theorem publish (h : blk.Holds taken (some x) xs) :
    Block.Holds { blk with tail := blk.after blk.tail } taken none (xs ++ [x]) where
  power := h.power
  first := h.first
  tail := by
    show blk.after blk.tail = (blk.front + (xs ++ [x]).length) % blk.size
    rw [h.after_tail, List.length_append]
    rfl
  cells := by
    refine h.cells.congr fun i _ => ?_
    unfold slots
    split_ifs with h0 h1 h2 h2
    · rfl
    · simp only [List.length_append, List.length_singleton] at h2
      omega
    · rw [h1, List.getElem?_concat_length]
    · simp only [List.length_append, List.length_singleton] at h2
      rw [List.getElem?_eq_none (by omega)]
    · simp only [List.length_append, List.length_singleton] at h2
      rcases Nat.lt_or_ge i xs.length with hlt | hge
      · rw [List.getElem?_append_left hlt]
      · rw [List.getElem?_eq_none hge, List.getElem?_eq_none (by simp; omega)]
  behind := by
    obtain ⟨hlocal, d, hfront, hd⟩ := h.behind
    refine ⟨hlocal, d, hfront, ?_⟩
    rw [List.length_append]
    exact hd
  ahead := by
    obtain ⟨k, hk, htail⟩ := h.ahead
    refine ⟨k, ?_, htail⟩
    rw [List.length_append]
    omega
  hand := h.hand

/-! ## The consumer's operations -/

/-- The first element is where `front` points. -/
theorem data_front (h : blk.Holds false built (x :: xs)) : blk.data blk.front = some x := by
  rw [h.cells.first h.first]
  simp [slots]

/-- **Taking the first element** out of its cell. -/
theorem take (h : blk.Holds false built (x :: xs)) (hcopy : blk.front ≠ blk.localTail) :
    Block.Holds { blk with data := Function.update blk.data blk.front none } true built (x :: xs) := by
  refine ⟨h.power, h.first, h.tail, ?_, h.behind, h.ahead, fun _ => hcopy⟩
  have hpos : 0 < blk.size := Nat.succ_pos _
  have hwrite := h.cells.write (slots true built (x :: xs)) none hpos
    (fun j _ hj => by simp [slots, hj]) (by simp [slots])
  rwa [position_zero h.first] at hwrite

/-- **Moving the front** over the cell it was taken from. -/
theorem storeFront (h : blk.Holds true built (x :: xs)) :
    Block.Holds { blk with front := blk.after blk.front } false built xs := by
  have hlt := h.length_lt
  rw [List.length_cons] at hlt
  have hfront := h.after_eq blk.front
  refine ⟨h.power, ?_, ?_, ?_, ?_, ?_, fun h => by simp at h⟩
  · show blk.after blk.front < blk.size
    rw [hfront]
    exact Nat.mod_lt _ (by omega)
  · show blk.tail = (blk.after blk.front + xs.length) % blk.size
    rw [hfront, position_add, h.tail, List.length_cons, Nat.add_comm 1]
  · show Window blk.size (blk.after blk.front) blk.data _
    rw [hfront]
    refine h.cells.turn (fun i _ => ?_) ?_
    · simp [slots]
    · have hlast : blk.size - 1 ≠ xs.length := by omega
      have hnone : xs[blk.size - 1]? = none := List.getElem?_eq_none (by omega)
      simp [slots, hlast, hnone]
  · obtain ⟨hlocal, d, hd, hroom⟩ := h.behind
    refine ⟨hlocal, d + 1, ?_, ?_⟩
    · show blk.after blk.front = (blk.localFront + (d + 1)) % blk.size
      rw [hfront, hd, position_succ]
    · show d + 1 + (xs.length + built.toList.length) < blk.size
      rw [List.length_cons] at hroom
      omega
  · obtain ⟨k, hk, htail⟩ := h.ahead
    rw [List.length_cons] at hk
    cases k with
    | zero =>
        -- the copy of the tail is ahead of the cell that is given up
        rw [position_zero h.first] at htail
        exact absurd htail.symm (h.hand rfl)
    | succ k =>
        refine ⟨k, by omega, ?_⟩
        show blk.localTail = (blk.after blk.front + k) % blk.size
        rw [hfront, position_add, htail, Nat.add_comm 1]

/-- The producer's knowledge of a free cell survives the consumer. -/
theorem roomy_storeFront (h : blk.Holds true built (x :: xs)) (hroom : blk.Roomy (x :: xs)) :
    Block.Roomy { blk with front := blk.after blk.front } xs := by
  obtain ⟨d, hd, hlt⟩ := hroom
  refine ⟨d + 1, ?_, ?_⟩
  · show blk.after blk.front = (blk.localFront + (d + 1)) % blk.size
    rw [h.after_eq, hd, position_succ]
  · show d + 1 + (xs.length + 1) < blk.size
    rw [List.length_cons] at hlt
    omega

end Block.Holds

/-! ## New blocks -/

section New

variable {k : Nat}

theorem makeBlock_size (hk : k < 63) : (makeBlock (2 ^ (k + 1)) : Block α).size = 2 ^ (k + 1) := by
  have hle : 2 ^ (k + 1) ≤ 2 ^ 63 := Nat.pow_le_pow_right (by omega) (by omega)
  have hpos := Nat.two_pow_pos (k + 1)
  show (2 ^ (k + 1) + (2 ^ 64 - 1)) % 2 ^ 64 + 1 = 2 ^ (k + 1)
  rw [show 2 ^ (k + 1) + (2 ^ 64 - 1) = 2 ^ (k + 1) - 1 + 2 ^ 64 by omega, Nat.add_mod_right, Nat.mod_eq_of_lt]
  · omega
  · omega

/-- **A new block is empty.** -/
theorem makeBlock_holds (hk : k < 63) : (makeBlock (2 ^ (k + 1)) : Block α).Holds false none [] := by
  have hsize : (makeBlock (2 ^ (k + 1)) : Block α).size = _ := makeBlock_size hk
  have hpos := Nat.two_pow_pos (k + 1)
  have hfirst : (0 : Nat) < (makeBlock (2 ^ (k + 1)) : Block α).size := by omega
  refine ⟨⟨k, hsize⟩, hfirst, (position_zero hfirst).symm, fun i _ => ?_, ⟨hfirst, 0, ?_, ?_⟩, ⟨0, Nat.le_refl _, ?_⟩,
    fun h => by simp at h⟩
  · simp [slots, makeBlock]
  · exact (position_zero hfirst).symm
  · exact hfirst
  · exact (position_zero hfirst).symm

theorem newBlock_size {x : α} {b : Nat} (hk : k < 63) :
    Block.size { (makeBlock (2 ^ (k + 1)) : Block α) with
      data := Function.update (makeBlock (2 ^ (k + 1)) : Block α).data 0 (some x)
      tail := 1, localTail := 1, next := b } = 2 ^ (k + 1) := by
  have hsize : (makeBlock (2 ^ (k + 1)) : Block α).size = _ := makeBlock_size hk
  exact hsize

/-- **The block that `inner_enqueue` makes** holds the one element. -/
theorem newBlock_holds (hk : k < 63) (x : α) (b : Nat) :
    Block.Holds { (makeBlock (2 ^ (k + 1)) : Block α) with
      data := Function.update (makeBlock (2 ^ (k + 1)) : Block α).data 0 (some x)
      tail := 1, localTail := 1, next := b } false none [x] := by
  have hempty : (makeBlock (2 ^ (k + 1)) : Block α).Holds _ _ _ := makeBlock_holds hk
  have hbuilt := hempty.construct ⟨0, (position_zero hempty.first).symm, hempty.two_le⟩ x
  have hpublished := hbuilt.publish.renewTail.next b
  -- the index after zero is one
  have hone : (makeBlock (2 ^ (k + 1)) : Block α).after 0 = 1 := by
    rw [hempty.after_eq, Nat.mod_eq_of_lt]
    exact hempty.two_le
  have htails : ∀ t, t = 1 →
      Block.Holds { (makeBlock (2 ^ (k + 1)) : Block α) with
        data := Function.update (makeBlock (2 ^ (k + 1)) : Block α).data 0 (some x)
        tail := t, localTail := t, next := b } false none [x] →
      Block.Holds { (makeBlock (2 ^ (k + 1)) : Block α) with
        data := Function.update (makeBlock (2 ^ (k + 1)) : Block α).data 0 (some x)
        tail := 1, localTail := 1, next := b } false none [x] := by
    rintro t rfl h
    exact h
  exact htails _ hone hpublished

end New
end MqttServer.Moodycamel
