import MqttServer.Common.Block

/-!
# `Common.QueueLayout` — the circle of the blocks

The blocks of the queue form a circle through their `next` pointers. From `frontBlock` to `tailBlock` lie the live ones,
whose elements, one block after the other, are what the queue holds; behind `tailBlock` lie the spare ones, up to
`frontBlock` again. `Layout` says this of the memory between two steps of the threads. What a step does to it is one
of few things: a store into one block (`Layout.set`), the producer's move to a spare block, the consumer's move to the
next live one, and the two steps by which a new block comes in.
-/

namespace MqttServer.Moodycamel

open Lib

variable {α : Type}

/-! ## The blocks in their circle -/

/-- The consumer has taken the first element of the block and not moved its front yet. -/
def Consumer.taken : Consumer α → Nat → Bool
  | .storeFront _ fb _ _, b => b == fb
  | _, _ => false

/-- The element the producer has built in the block, behind its tail. -/
def Producer.built : Producer α → Nat → Option α
  | .publish x tb _, b => if b = tb then some x else none
  | .publishNext x nb _, b => if b = nb then some x else none
  | _, _ => none

/-- What the producer has put into a block that the consumer cannot reach yet. -/
def Producer.lent : Producer α → Nat → List α
  | .advance x nb, b => if b = nb then [x] else []
  | _, _ => []

/-- The block that the producer has made and not linked yet. -/
def Producer.unlinked : Producer α → List Nat
  | .link _ _ nb => [nb]
  | _ => []

/-- The blocks of the queue lie in a circle: those with elements in them, from `frontBlock` to `tailBlock`, and then the
    spare ones, which are empty. Only the first of the `live` ones can be empty, and all between it and the last one
    are full. -/
structure Layout (q : ReaderWriterQueue α) (p : Producer α) (c : Consumer α) (live spare : List Nat)
    (held : Nat → List α) : Prop where
  circle : Circle (fun b => (q.blocks b).next) q.frontBlock (live ++ spare)
  made : (live ++ spare ++ p.unlinked).Perm (List.range' 1 q.made)
  last : live.getLast? = some q.tailBlock
  blocks : ∀ b ∈ live ++ spare, (q.blocks b).Holds (c.taken b) (p.built b) (held b)
  spared : ∀ b ∈ spare, held b = p.lent b
  filled : ∀ b ∈ live.tail, held b ≠ []
  full : ∀ b ∈ live.tail.dropLast, (held b).length = (q.blocks b).sizeMask

/-- The tail block is full, or the consumer is in it. -/
def Spent (q : ReaderWriterQueue α) (live : List Nat) (held : Nat → List α) : Prop :=
  live.length = 1 ∨ (held q.tailBlock).length = (q.blocks q.tailBlock).sizeMask

section Layout

variable {q : ReaderWriterQueue α} {p p' : Producer α} {c c' : Consumer α} {live spare : List Nat}
  {held : Nat → List α} {b : Nat} {blk : Block α} {xs : List α}

namespace Layout

theorem nodup (h : Layout q p c live spare held) : (live ++ spare).Nodup := by
  have hnd : (live ++ spare ++ p.unlinked).Nodup := h.made.nodup_iff.mpr List.nodup_range'
  exact (List.nodup_append.mp hnd).1

theorem not_mem_unlinked (h : Layout q p c live spare held) (hb : b ∈ live ++ spare) : b ∉ p.unlinked := by
  have hnd : (live ++ spare ++ p.unlinked).Nodup := h.made.nodup_iff.mpr List.nodup_range'
  exact fun hm => (List.nodup_append.mp hnd).2.2 b hb b hm rfl

theorem not_mem_spare (h : Layout q p c live spare held) (hb : b ∈ live) : b ∉ spare :=
  fun hm => (List.nodup_append.mp h.nodup).2.2 b hb b hm rfl

/-- The live blocks, from the front. -/
theorem front (h : Layout q p c live spare held) : ∃ rest, live = q.frontBlock :: rest := by
  obtain ⟨l, hl⟩ := h.circle.cons
  cases live with
  | nil => exact absurd h.last (by simp)
  | cons b rest =>
      rw [List.cons_append] at hl
      exact ⟨rest, by rw [(List.cons.inj hl).1]⟩

theorem front_mem (h : Layout q p c live spare held) : q.frontBlock ∈ live := by
  obtain ⟨rest, hrest⟩ := h.front
  rw [hrest]
  exact List.mem_cons_self ..

/-- The live blocks, from the tail. -/
theorem back (h : Layout q p c live spare held) : ∃ before, live = before ++ [q.tailBlock] :=
  List.getLast?_eq_some_iff.mp h.last

theorem tail_mem (h : Layout q p c live spare held) : q.tailBlock ∈ live := by
  obtain ⟨before, hbefore⟩ := h.back
  rw [hbefore]
  simp

theorem frontHolds (h : Layout q p c live spare held) :
    (q.blocks q.frontBlock).Holds (c.taken q.frontBlock) (p.built q.frontBlock) (held q.frontBlock) :=
  h.blocks _ (List.mem_append_left _ h.front_mem)

theorem tailHolds (h : Layout q p c live spare held) :
    (q.blocks q.tailBlock).Holds (c.taken q.tailBlock) (p.built q.tailBlock) (held q.tailBlock) :=
  h.blocks _ (List.mem_append_left _ h.tail_mem)

/-- With two live blocks or more, the front one is not the tail one. -/
theorem front_ne_tail (h : Layout q p c live spare held) : q.frontBlock ≠ q.tailBlock ↔ 2 ≤ live.length := by
  obtain ⟨rest, hrest⟩ := h.front
  have hnd : live.Nodup := (List.nodup_append.mp h.nodup).1
  have hlast := h.last
  rw [hrest] at hnd hlast ⊢
  cases rest with
  | nil => simpa using hlast
  | cons b rest =>
      simp only [List.length_cons, Nat.le_add_left, iff_true]
      rintro heq
      rw [List.getLast?_cons_cons, ← heq] at hlast
      exact (List.nodup_cons.mp hnd).1 (List.mem_of_getLast? hlast)

/-! ### Steps that change one block -/

/-- A step of a thread that changes neither a block nor what it has in its hand. -/
theorem hands (p' : Producer α) (c' : Consumer α) (h : Layout q p c live spare held) (ht : c'.taken = c.taken) (hb : p'.built = p.built)
    (hl : p'.lent = p.lent) (hu : p'.unlinked = p.unlinked) : Layout q p' c' live spare held where
  circle := h.circle
  made := by rw [hu]; exact h.made
  last := h.last
  blocks := by rw [ht, hb]; exact h.blocks
  spared := by rw [hl]; exact h.spared
  filled := h.filled
  full := h.full

/-- **A store into a block** of the circle. -/
theorem set (h : Layout q p c live spare held) (hblk : blk.Holds (c'.taken b) (p'.built b) xs)
    (hnext : blk.next = (q.blocks b).next) (hmask : blk.sizeMask = (q.blocks b).sizeMask)
    (htaken : ∀ a, a ≠ b → c'.taken a = c.taken a) (hbuilt : ∀ a, a ≠ b → p'.built a = p.built a)
    (hunlinked : p'.unlinked = p.unlinked) (hspare : ∀ a ∈ spare, Function.update held b xs a = p'.lent a)
    (hfilled : b ∈ live.tail → xs ≠ []) (hfull : b ∈ live.tail.dropLast → xs.length = blk.sizeMask) :
    Layout (q.set b blk) p' c' live spare (Function.update held b xs) where
  circle := by
    refine h.circle.congr fun a _ => ?_
    by_cases he : a = b
    · subst he
      rw [q.set_self, hnext]
    · rw [q.set_of_ne b blk he]
  made := by rw [hunlinked]; exact h.made
  last := h.last
  blocks := by
    intro a ha
    by_cases he : a = b
    · subst he
      rw [q.set_self, Function.update_self]
      exact hblk
    · rw [q.set_of_ne b blk he, Function.update_of_ne he, htaken a he, hbuilt a he]
      exact h.blocks a ha
  spared := hspare
  filled := by
    intro a ha
    by_cases he : a = b
    · subst he
      rw [Function.update_self]
      exact hfilled ha
    · rw [Function.update_of_ne he]
      exact h.filled a ha
  full := by
    intro a ha
    by_cases he : a = b
    · subst he
      rw [q.set_self, Function.update_self]
      exact hfull ha
    · rw [q.set_of_ne b blk he, Function.update_of_ne he]
      exact h.full a ha

/-- A store that leaves what the block holds as it is. -/
theorem store (p' : Producer α) (c' : Consumer α) (b : Nat) (blk : Block α) (h : Layout q p c live spare held)
    (hblk : blk.Holds (c'.taken b) (p'.built b) (held b))
    (hnext : blk.next = (q.blocks b).next) (hmask : blk.sizeMask = (q.blocks b).sizeMask)
    (htaken : ∀ a, a ≠ b → c'.taken a = c.taken a) (hbuilt : ∀ a, a ≠ b → p'.built a = p.built a)
    (hunlinked : p'.unlinked = p.unlinked) (hlent : p'.lent = p.lent) :
    Layout (q.set b blk) p' c' live spare held := by
  have hset := h.set hblk hnext hmask htaken hbuilt hunlinked
    (by rw [Function.update_eq_self, hlent]; exact h.spared) (h.filled b)
    (fun hb => by rw [hmask]; exact h.full b hb)
  rwa [Function.update_eq_self] at hset

/-! ### Steps that move the ends -/

/-- **The producer moves on** to the first spare block, which it has put an element into. -/
theorem advance {nb : Nat} {x : α} (h : Layout q (.advance x nb) c live (nb :: spare) held)
    (hspent : Spent q live held) :
    Layout { q with tailBlock := nb } (.done true) c (live ++ [nb]) spare held := by
  have hnb : held nb = [x] := by
    rw [h.spared nb (List.mem_cons_self ..)]
    simp [Producer.lent]
  obtain ⟨rest, hrest⟩ := h.front
  refine ⟨?_, ?_, List.getLast?_concat, ?_, ?_, ?_, ?_⟩
  · have hcircle := h.circle
    rwa [List.append_cons] at hcircle
  · have hmade := h.made
    rwa [List.append_cons] at hmade
  · intro b hb
    rw [← List.append_cons] at hb
    exact h.blocks b hb
  · intro b hb
    rw [h.spared b (List.mem_cons_of_mem _ hb)]
    have hne : b ≠ nb := by
      rintro rfl
      exact (List.nodup_cons.mp (List.nodup_append.mp h.nodup).2.1).1 hb
    simp [Producer.lent, hne]
  · intro b hb
    rw [List.tail_append_of_ne_nil (by simp [hrest])] at hb
    rcases List.mem_append.mp hb with hb | hb
    · exact h.filled b hb
    · rw [List.mem_singleton.mp hb, hnb]
      simp
  · intro b hb
    rw [List.tail_append_of_ne_nil (by simp [hrest]), List.dropLast_concat] at hb
    -- the block that was the tail is full by now, the others were full before
    have hlast := h.last
    subst hrest
    cases rest with
    | nil => simp at hb
    | cons a rest =>
        rw [List.getLast?_cons_cons] at hlast
        rw [List.tail_cons, ← List.dropLast_append_getLast? _ hlast] at hb
        rcases List.mem_append.mp hb with hb | hb
        · exact h.full b hb
        · rw [List.mem_singleton.mp hb]
          rcases hspent with hone | hfull
          · simp at hone
          · exact hfull

/-- **The consumer moves on** from its empty block, which becomes a spare one. -/
theorem moveFront {fb nb : Nat} {rest : List Nat} (h : Layout q p c (fb :: nb :: rest) spare held)
    (hempty : held fb = []) (hlent : p.lent fb = []) (ht : c'.taken = c.taken) :
    Layout { q with frontBlock := nb } p c' (nb :: rest) (spare ++ [fb]) held := by
  obtain ⟨rest', hfront⟩ := h.front
  obtain ⟨rfl, -⟩ := List.cons.inj hfront
  have hmem : ∀ b ∈ nb :: rest ++ (spare ++ [q.frontBlock]), b ∈ q.frontBlock :: nb :: rest ++ spare := by
    intro b hb
    simp only [List.mem_append, List.mem_cons, List.not_mem_nil, or_false] at hb ⊢
    tauto
  refine ⟨?_, ?_, ?_, fun b hb => ?_, ?_, ?_, ?_⟩
  · have hcircle := h.circle
    rw [← List.append_assoc]
    exact Circle.rotate hcircle
  · refine List.Perm.trans ?_ h.made
    rw [← List.append_assoc]
    exact (List.perm_append_singleton q.frontBlock (nb :: rest ++ spare)).append_right _
  · have hlast := h.last
    rwa [List.getLast?_cons_cons] at hlast
  · rw [ht]
    exact h.blocks b (hmem b hb)
  · intro b hb
    rcases List.mem_append.mp hb with hb | hb
    · exact h.spared b hb
    · rw [List.mem_singleton.mp hb, hempty, hlent]
  · exact fun b hb => h.filled b (List.mem_cons_of_mem _ hb)
  · intro b hb
    apply h.full b
    cases rest with
    | nil => simp at hb
    | cons a rest => exact List.mem_cons_of_mem _ hb

/-! ### A new block -/

/-- **A new block** is made; it is not in the circle yet. -/
theorem allocate {x : α} {tb nb n : Nat} (h : Layout q (.allocate x tb) c live spare held) (hnb : nb = q.made + 1) :
    Layout { q.set nb blk with made := nb, largestBlockSize := n } (.link x tb nb) c live spare held := by
  have hne : ∀ b ∈ live ++ spare, b ≠ nb := by
    rintro b hb rfl
    have hrange := h.made.subset (List.mem_append_left _ hb)
    rw [List.mem_range'_1] at hrange
    omega
  have hblocks : ∀ b ∈ live ++ spare, (q.set nb blk).blocks b = q.blocks b :=
    fun b hb => q.set_of_ne nb blk (hne b hb)
  refine ⟨h.circle.congr fun b hb => ?_, ?_, h.last, fun b hb => ?_, h.spared, h.filled, fun b hb => ?_⟩
  · show ((q.set nb blk).blocks b).next = _
    rw [hblocks b hb]
  · have hmade := h.made
    simp only [Producer.unlinked, List.append_nil] at hmade
    show (live ++ spare ++ [nb]).Perm (List.range' 1 nb)
    rw [hnb, List.range'_1_concat, Nat.add_comm 1]
    exact hmade.append_right _
  · show ((q.set nb blk).blocks b).Holds _ _ _
    rw [hblocks b hb]
    exact h.blocks b hb
  · show _ = ((q.set nb blk).blocks b).sizeMask
    have hlive : b ∈ live := List.mem_of_mem_tail (List.mem_of_mem_dropLast hb)
    rw [hblocks b (List.mem_append_left _ hlive)]
    exact h.full b hb

/-- **It is linked** behind the tail block. -/
theorem link {x : α} {nb : Nat} (h : Layout q (.link x q.tailBlock nb) c live spare held)
    (hblk : (q.blocks nb).Holds (c.taken nb) none [x]) (hnext : (q.blocks nb).next = (q.blocks q.tailBlock).next) :
    Layout (q.set q.tailBlock { q.blocks q.tailBlock with next := nb }) (.advance x nb) c live (nb :: spare)
      (Function.update held nb [x]) := by
  -- the new block is in no ring yet
  have hnb : nb ∉ live ++ spare := fun hm => h.not_mem_unlinked hm (List.mem_singleton.mpr rfl)
  have hheld : ∀ b ∈ live ++ spare, Function.update held nb [x] b = held b := by
    intro b hb
    refine Function.update_of_ne ?_ _ _
    rintro rfl
    exact hnb hb
  -- of the old blocks only the tail's `next` is written
  have hnext' : ∀ b, ((q.set q.tailBlock { q.blocks q.tailBlock with next := nb }).blocks b).next =
      Function.update (fun b => (q.blocks b).next) q.tailBlock nb b := by
    intro b
    by_cases he : b = q.tailBlock
    · subst he
      rw [q.set_self, Function.update_self]
    · rw [q.set_of_ne _ _ he, Function.update_of_ne he]
  have hmask : ∀ b, ((q.set q.tailBlock { q.blocks q.tailBlock with next := nb }).blocks b).sizeMask =
      (q.blocks b).sizeMask := by
    intro b
    by_cases he : b = q.tailBlock
    · subst he
      rw [q.set_self]
    · rw [q.set_of_ne _ _ he]
  have hholds : ∀ b t bu xs, (q.blocks b).Holds t bu xs →
      ((q.set q.tailBlock { q.blocks q.tailBlock with next := nb }).blocks b).Holds t bu xs := by
    intro b t bu xs hb
    by_cases he : b = q.tailBlock
    · subst he
      rw [q.set_self]
      exact hb.next nb
    · rwa [q.set_of_ne _ _ he]
  obtain ⟨before, hbefore⟩ := h.back
  refine ⟨?_, ?_, h.last, ?_, ?_, ?_, ?_⟩
  · have hcircle := h.circle
    have hnd := h.nodup
    rw [hbefore, List.append_assoc] at hcircle hnd hnb ⊢
    have hinsert := hcircle.insert hnd hnb hnext
    exact hinsert.congr fun b _ => hnext' b
  · have hmade := h.made
    refine List.Perm.trans ?_ hmade
    simp only [Producer.unlinked, List.append_nil, List.append_assoc]
    exact (List.perm_append_singleton nb spare).symm.append_left _
  · intro b hb
    refine hholds b _ _ _ ?_
    by_cases he : b = nb
    · subst he
      rw [Function.update_self]
      exact hblk
    · have hm : b ∈ live ++ spare := by
        simp only [List.mem_append, List.mem_cons] at hb ⊢
        tauto
      rw [hheld b hm]
      exact h.blocks b hm
  · intro b hb
    by_cases he : b = nb
    · subst he
      simp [Producer.lent]
    · have hm : b ∈ spare := (List.mem_cons.mp hb).resolve_left he
      rw [hheld b (List.mem_append_right _ hm), h.spared b hm]
      simp [Producer.lent, he]
  · intro b hb
    rw [hheld b (List.mem_append_left _ (List.mem_of_mem_tail hb))]
    exact h.filled b hb
  · intro b hb
    have hlive : b ∈ live := List.mem_of_mem_tail (List.mem_of_mem_dropLast hb)
    rw [hheld b (List.mem_append_left _ hlive)]
    exact (h.full b hb).trans (hmask b).symm

end Layout

/-! ## How much the queue holds -/

/-- Every block has at most `largestBlockSize` cells, and the blocks have room for `need` elements wherever the
    consumer is: each of them alone, or all but one together. -/
structure Capacity (need : Nat) (q : ReaderWriterQueue α) : Prop where
  largest : ∃ k, q.largestBlockSize = 2 ^ (k + 1) ∧ k < 63
  sizes : ∀ b ∈ List.range' 1 q.made, (q.blocks b).size ≤ q.largestBlockSize
  enough : (∀ b ∈ List.range' 1 q.made, need ≤ (q.blocks b).sizeMask) ∨
    ∃ m, (∀ b ∈ List.range' 1 q.made, m ≤ (q.blocks b).sizeMask) ∧ need ≤ (q.made - 1) * m

/-- It is a matter of the sizes of the blocks only. -/
theorem Capacity.congr {q' : ReaderWriterQueue α} {need : Nat} (h : Capacity need q) (hmade : q'.made = q.made)
    (hlargest : q'.largestBlockSize = q.largestBlockSize)
    (hmask : ∀ b, (q'.blocks b).sizeMask = (q.blocks b).sizeMask) : Capacity need q' where
  largest := by rw [hlargest]; exact h.largest
  sizes := by
    intro b hb
    rw [hmade] at hb
    unfold Block.size
    rw [hlargest, hmask]
    exact h.sizes b hb
  enough := by
    rw [hmade]
    simp only [hmask]
    exact h.enough

/-- **The queue is full to its capacity** when the tail block is full and leads to the front block. -/
theorem Layout.need_le {need peak : Nat} (h : Layout q p c live [] held) (hunlinked : p.unlinked = [])
    (hcap : Capacity need q) (hspent : Spent q live held) (hpeak : (q.blocks q.tailBlock).sizeMask ≤ peak)
    (hsize : (live.flatMap held).length ≤ peak) : need ≤ peak := by
  have hmade := h.made
  rw [hunlinked, List.append_nil, List.append_nil] at hmade
  have hlen : live.length = q.made := by
    rw [hmade.length_eq, List.length_range']
  have htail : q.tailBlock ∈ List.range' 1 q.made := hmade.subset h.tail_mem
  rcases hcap.enough with heach | ⟨m, hm, hall⟩
  · exact (heach _ htail).trans hpeak
  · rcases hspent with hone | hfull
    · rw [← hlen, hone, Nat.sub_self, Nat.zero_mul] at hall
      exact hall.trans (Nat.zero_le _)
    · -- every block but the front one is full
      obtain ⟨rest, hrest⟩ := h.front
      have hblock : ∀ b ∈ rest, m ≤ (held b).length := by
        intro b hb
        have hmem : b ∈ live := by
          rw [hrest]
          exact List.mem_cons_of_mem _ hb
        refine (hm b (hmade.subset hmem)).trans ?_
        have hlast : rest.getLast? = some q.tailBlock := by
          have hlast := h.last
          rw [hrest] at hlast
          cases rest with
          | nil => simp at hb
          | cons a rest => rwa [List.getLast?_cons_cons] at hlast
        rw [← List.dropLast_append_getLast? _ hlast] at hb
        rcases List.mem_append.mp hb with hb | hb
        · rw [h.full b (by rwa [hrest, List.tail_cons])]
        · rw [List.mem_singleton.mp hb, hfull]
      have hsum : rest.length * m ≤ (rest.flatMap held).length := by
        rw [List.length_flatMap]
        have hcard := List.card_nsmul_le_sum (rest.map fun b => (held b).length) m (by simpa using hblock)
        simpa using hcard
      rw [hrest, List.flatMap_cons, List.length_append] at hsize
      rw [← hlen, hrest, List.length_cons, Nat.add_sub_cancel] at hall
      omega

end Layout
end MqttServer.Moodycamel
