import MqttServer.Common.QueueRely

/-!
# `Common.QueueRun` — the queue under every interleaving

Every step of the two threads keeps the invariant, one case for each point of the two functions. An element is in the
queue from the store that makes it reachable, to `tail` or to `tailBlock`, up to the store to `front` that gives its
cell back.
-/

namespace MqttServer.Moodycamel

open Lib

variable {α : Type} {need maxBlock : Nat} {memory : Bool} {s : System α} {live spare : List Nat}
  {held : Nat → List α} {x : α} {mode : AllocationMode} {op : Op} {tb bt fb bf nb nbt nf : Nat}

/-- There is a layout of the memory that fits. -/
def Sound (need : Nat) (s : System α) : Prop := ∃ live spare held, At need s live spare held

/-! ## The producer -/

theorem At.enter (h : At need s live spare held) (hp : s.producer = .enter x mode) :
    Sound need (s.produce maxBlock memory) := by
  have hl := h.layout
  rw [hp] at hl
  simp only [System.produce, hp]
  split
  · case isTrue hroom =>
      refine ⟨live, spare, held, h.byProducer_quiet (.refl _ _ _) (hl.hands _ _ rfl rfl rfl rfl) h.capacity ?_ rfl⟩
      exact ⟨rfl, rfl, hl.tailHolds.roomy hroom⟩
  · refine ⟨live, spare, held, h.byProducer_quiet (.refl _ _ _) (hl.hands _ _ rfl rfl rfl rfl) h.capacity ?_ rfl⟩
    exact ⟨rfl, rfl⟩

theorem At.checkFront (h : At need s live spare held) (htop : s.size ≤ s.peak)
    (hp : s.producer = .checkFront x mode tb bt) : Sound need (s.produce maxBlock memory) := by
  have hl := h.layout
  have hf := h.produced
  rw [hp] at hl hf
  obtain ⟨rfl, rfl⟩ := hf
  have hblk := hl.tailHolds.renewFront
  have hstore := hl.store (.full x mode s.queue.tailBlock) s.consumer _ _ hblk rfl rfl (fun _ _ => rfl)
    (fun _ _ => rfl) rfl rfl
  simp only [System.produce, hp]
  split
  · case isTrue hroom =>
      refine ⟨live, spare, held, h.byProducer_quiet (.store _ _ rfl rfl) (hstore.hands _ _ rfl rfl rfl rfl)
        (h.capacity.set rfl) ?_ rfl⟩
      refine ⟨rfl, by rw [ReaderWriterQueue.set_self], ?_⟩
      rw [ReaderWriterQueue.set_self]
      exact hblk.roomy hroom
  · case isFalse hfull =>
      -- the block is full, and so many elements the queue holds at least
      have hlen := hblk.full rfl (not_not.mp hfull)
      refine ⟨live, spare, held, h.byProducer_quiet (.store _ _ rfl rfl) hstore (h.capacity.set rfl) ?_ rfl⟩
      refine ⟨rfl, Or.inr ?_, ?_⟩
      · rw [ReaderWriterQueue.set_tailBlock, ReaderWriterQueue.set_self, hlen]
      · rw [ReaderWriterQueue.set_self, ← hlen]
        refine le_trans ?_ htop
        rw [h.size_eq]
        exact length_le_flatMap held hl.tail_mem

theorem At.construct (h : At need s live spare held) (hp : s.producer = .construct x tb bt) :
    Sound need (s.produce maxBlock memory) := by
  have hl := h.layout
  have hf := h.produced
  rw [hp] at hl hf
  obtain ⟨rfl, rfl, hroom⟩ := hf
  have hblk : (s.queue.blocks s.queue.tailBlock).Holds _ none _ := hl.tailHolds
  simp only [System.produce, hp]
  split
  · case isTrue hsome =>
      rw [hblk.data_tail] at hsome
      simp at hsome
  · refine ⟨live, spare, held, h.byProducer_quiet (.store _ _ rfl rfl) ?_ (h.capacity.set rfl) ?_ rfl⟩
    · refine hl.store _ _ _ _ ?_ rfl rfl (fun _ _ => rfl) (fun a ha => ?_) rfl rfl
      · simp only [Producer.built, if_pos]
        exact hblk.construct hroom x
      · simp [Producer.built, ha]
    · exact ⟨rfl, by rw [ReaderWriterQueue.set_self]⟩

/-- The live blocks of a layout end in the tail block, which is not among those before. -/
theorem Layout.back_nodup {q : ReaderWriterQueue α} {p : Producer α} {c : Consumer α}
    (h : Layout q p c live spare held) : ∃ before, live = before ++ [q.tailBlock] ∧ q.tailBlock ∉ before := by
  obtain ⟨before, hbefore⟩ := h.back
  refine ⟨before, hbefore, fun hm => ?_⟩
  have hnd : live.Nodup := (List.nodup_append.mp h.nodup).1
  rw [hbefore] at hnd
  exact (List.nodup_append.mp hnd).2.2 _ hm _ (List.mem_singleton.mpr rfl) rfl

theorem At.publish (h : At need s live spare held) (hp : s.producer = .publish x tb bt) :
    Sound need (s.produce maxBlock memory) := by
  have hl := h.layout
  have hf := h.produced
  rw [hp] at hl hf
  obtain ⟨rfl, rfl⟩ := hf
  have hblk := hl.tailHolds
  simp only [Producer.built, if_pos] at hblk
  obtain ⟨before, hlive, hbefore⟩ := hl.back_nodup
  simp only [System.produce, hp]
  refine ⟨live, spare, Function.update held s.queue.tailBlock (held s.queue.tailBlock ++ [x]),
    h.byProducer _ ?_ ?_ (h.capacity.set rfl) trivial ?_⟩
  · exact ByProducer.set _ _ rfl rfl ⟨[x], rfl⟩ (fun _ hne => absurd rfl hne)
  · refine hl.set hblk.publish rfl rfl (fun _ _ => rfl) (fun a ha => ?_) rfl (fun a ha => ?_) (fun _ => by simp) ?_
    · simp [Producer.built, ha]
    · rw [Function.update_of_ne, hl.spared a ha]
      · rfl
      · rintro rfl
        exact hl.not_mem_spare hl.tail_mem ha
    · -- the tail block is the last one
      intro hm
      have hmem := List.mem_of_mem_tail (List.tail_dropLast ▸ hm)
      rw [hlive, List.dropLast_concat] at hmem
      exact absurd hmem hbefore
  · rw [hlive, List.flatMap_append, List.flatMap_append, flatMap_update hbefore, List.append_assoc]
    simp

theorem At.full (h : At need s live spare held) (htop : s.size ≤ s.peak) (hp : s.producer = .full x mode tb) :
    Sound need (s.produce maxBlock memory) := by
  have hl := h.layout
  have hf := h.produced
  rw [hp] at hl hf
  obtain ⟨rfl, hspent, hmask⟩ := hf
  obtain ⟨before, hlive, -⟩ := hl.back_nodup
  have hnext : (s.queue.blocks s.queue.tailBlock).next = spare.headD s.queue.frontBlock := by
    have hcircle := hl.circle
    rw [hlive, List.append_assoc] at hcircle
    exact hcircle.next_eq
  have hstep : ∀ p', p'.built = (Producer.full x mode s.queue.tailBlock).built →
      p'.lent = (Producer.full x mode s.queue.tailBlock).lent → p'.unlinked = [] →
      p'.Facts need s.queue live spare held s.peak → Sound need { s with producer := p' } := by
    intro p' hb hlent hu hfacts
    exact ⟨live, spare, held, h.byProducer_quiet (.refl _ _ _) (hl.hands _ _ rfl hb hlent hu) h.capacity hfacts rfl⟩
  simp only [System.produce, hp]
  split
  · case isTrue hne =>
      refine hstep _ rfl rfl rfl ⟨rfl, hspent, ?_⟩
      rintro rfl
      exact hne hnext
  · case isFalse heq =>
      -- there is no spare block
      have hspare : spare = [] := by
        rw [not_not, hnext] at heq
        cases spare with
        | nil => rfl
        | cons b spare => exact absurd (heq ▸ List.mem_cons_self ..) (hl.not_mem_spare hl.front_mem)
      subst hspare
      have hneed : need ≤ s.peak := by
        apply hl.need_le rfl h.capacity hspent hmask
        rwa [← h.size_eq]
      cases mode with
      | canAlloc => exact hstep _ rfl rfl rfl ⟨rfl, hspent, hneed⟩
      | cannotAlloc => exact hstep _ rfl rfl rfl hneed

/-- The first spare block, from a look at the head of the list. -/
theorem eq_cons_of_head? {l : List Nat} (h : l.head? = some nb) : ∃ rest, l = nb :: rest := by
  cases l with
  | nil => simp at h
  | cons b rest => exact ⟨rest, by rw [Option.some.inj h]⟩

theorem At.takeNext (h : At need s live spare held) (hp : s.producer = .takeNext x tb) :
    Sound need (s.produce maxBlock memory) := by
  have hl := h.layout
  have hf := h.produced
  rw [hp] at hl hf
  obtain ⟨rfl, hspent, hne⟩ := hf
  obtain ⟨before, hlive, -⟩ := hl.back_nodup
  obtain ⟨nb, rest, rfl⟩ := List.exists_cons_of_ne_nil hne
  have hnext : (s.queue.blocks s.queue.tailBlock).next = nb := by
    have hcircle := hl.circle
    rw [hlive, List.append_assoc] at hcircle
    exact hcircle.next_eq
  have hmem : nb ∈ live ++ nb :: rest := by simp
  have hempty : held nb = [] := hl.spared nb (List.mem_cons_self ..)
  have hblk : (s.queue.blocks nb).Holds _ none [] := hempty ▸ hl.blocks nb hmem
  simp only [System.produce, hp, hnext]
  split
  · case isTrue hassert => exact absurd (hblk.front_eq_tail.mpr rfl) hassert
  · have hstore := hl.store (.constructNext x nb (s.queue.blocks nb).tail) s.consumer nb
      { s.queue.blocks nb with localFront := (s.queue.blocks nb).front }
      (hempty ▸ hblk.renewFront) rfl rfl (fun _ _ => rfl) (fun _ _ => rfl) rfl rfl
    refine ⟨live, nb :: rest, held, h.byProducer_quiet (.store _ _ rfl rfl) hstore (h.capacity.set rfl) ?_ rfl⟩
    refine ⟨rfl, by rw [ReaderWriterQueue.set_self], ?_, ?_⟩
    · -- its front is as the producer has just read it, so all cells but one are free
      rw [ReaderWriterQueue.set_self]
      exact ⟨0, (position_zero hblk.first).symm, hblk.two_le⟩
    · have hne' : s.queue.tailBlock ≠ nb := by
        rintro rfl
        exact hl.not_mem_spare hl.tail_mem (List.mem_cons_self ..)
      unfold Spent
      rw [ReaderWriterQueue.set_tailBlock, ReaderWriterQueue.set_of_ne _ _ _ hne']
      exact hspent

/-- A store into a block that is not the tail block. -/
theorem Spent.set {q : ReaderWriterQueue α} {b : Nat} {blk : Block α} (h : Spent q live held)
    (hne : q.tailBlock ≠ b) : Spent (q.set b blk) live held := by
  unfold Spent
  rw [ReaderWriterQueue.set_tailBlock, ReaderWriterQueue.set_of_ne _ _ _ hne]
  exact h

theorem At.constructNext (h : At need s live spare held) (hp : s.producer = .constructNext x nb nbt) :
    Sound need (s.produce maxBlock memory) := by
  have hl := h.layout
  have hf := h.produced
  rw [hp] at hl hf
  obtain ⟨hnb, rfl, hroom, hspent⟩ := hf
  obtain ⟨rest, rfl⟩ := eq_cons_of_head? hnb
  have hmem : nb ∈ live ++ nb :: rest := by simp
  have hempty : held nb = [] := hl.spared nb (List.mem_cons_self ..)
  have hblk : (s.queue.blocks nb).Holds _ none [] := hempty ▸ hl.blocks nb hmem
  have hne : s.queue.tailBlock ≠ nb := by
    rintro rfl
    exact hl.not_mem_spare hl.tail_mem (List.mem_cons_self ..)
  simp only [System.produce, hp]
  split
  · case isTrue hsome =>
      rw [hblk.data_tail] at hsome
      simp at hsome
  · refine ⟨live, nb :: rest, held, h.byProducer_quiet (.store _ _ rfl rfl) ?_ (h.capacity.set rfl) ?_ rfl⟩
    · refine hl.store _ _ _ _ ?_ rfl rfl (fun _ _ => rfl) (fun a ha => ?_) rfl rfl
      · simp only [Producer.built, if_pos]
        rw [hempty]
        exact hblk.construct hroom x
      · simp [Producer.built, ha]
    · exact ⟨rfl, by rw [ReaderWriterQueue.set_self], hspent.set hne⟩

theorem At.publishNext (h : At need s live spare held) (hp : s.producer = .publishNext x nb nbt) :
    Sound need (s.produce maxBlock memory) := by
  have hl := h.layout
  have hf := h.produced
  rw [hp] at hl hf
  obtain ⟨hnb, rfl, hspent⟩ := hf
  obtain ⟨rest, rfl⟩ := eq_cons_of_head? hnb
  have hmem : nb ∈ live ++ nb :: rest := by simp
  have hempty : held nb = [] := hl.spared nb (List.mem_cons_self ..)
  have hout : nb ∉ live := fun hm => hl.not_mem_spare hm (List.mem_cons_self ..)
  have hne : s.queue.tailBlock ≠ nb := by
    rintro rfl
    exact hout hl.tail_mem
  have hblk := hl.blocks nb hmem
  simp only [Producer.built, if_pos, hempty] at hblk
  simp only [System.produce, hp]
  refine ⟨live, nb :: rest, Function.update held nb [x], h.byProducer_quiet ?_ ?_ (h.capacity.set rfl) ?_ ?_⟩
  · exact ByProducer.set _ _ rfl rfl ⟨[x], by rw [hempty]; rfl⟩ (fun hm _ => absurd hm hout)
  · refine hl.set hblk.publish rfl rfl (fun _ _ => rfl) (fun a ha => ?_) rfl (fun a ha => ?_) ?_ ?_
    · simp [Producer.built, ha]
    · by_cases he : a = nb
      · subst he
        simp [Producer.lent]
      · rw [Function.update_of_ne he, hl.spared a ha]
        simp [Producer.lent, he]
    · exact fun hm => absurd (List.mem_of_mem_tail hm) hout
    · exact fun hm => absurd (List.mem_of_mem_tail (List.mem_of_mem_dropLast hm)) hout
  · refine ⟨rfl, ?_⟩
    rcases hspent.set hne with hone | hfull
    · exact Or.inl hone
    · refine Or.inr ?_
      rw [ReaderWriterQueue.set_tailBlock, Function.update_of_ne hne]
      exact hfull
  · exact flatMap_update hout [x]

/-- **A new block keeps the capacity**: it is at least as large as the others. -/
theorem Capacity.allocate {q : ReaderWriterQueue α} {blk : Block α} {n : Nat} (h : Capacity need q)
    (hmade : 0 < q.made) (hn : ∃ k, n = 2 ^ (k + 1) ∧ k < 63) (hlarge : q.largestBlockSize ≤ n) (hblk : blk.size = n) :
    Capacity need { q.set (q.made + 1) blk with made := q.made + 1, largestBlockSize := n } := by
  have hold : ∀ b ∈ List.range' 1 q.made, (q.set (q.made + 1) blk).blocks b = q.blocks b := by
    intro b hb
    rw [List.mem_range'_1] at hb
    exact q.set_of_ne _ _ (by omega)
  have hmask : ∀ b ∈ List.range' 1 q.made, (q.blocks b).sizeMask ≤ blk.sizeMask := by
    intro b hb
    have hb' := (h.sizes b hb).trans hlarge
    unfold Block.size at hb' hblk
    omega
  have hfirst : 1 ∈ List.range' 1 q.made := by
    rw [List.mem_range'_1]
    omega
  refine ⟨hn, fun b hb => ?_, ?_⟩
  · show ((q.set (q.made + 1) blk).blocks b).size ≤ n
    rw [List.range'_1_concat, Nat.add_comm 1, List.mem_append, List.mem_singleton] at hb
    rcases hb with hb | rfl
    · rw [hold b hb]
      exact (h.sizes b hb).trans hlarge
    · rw [q.set_self, hblk]
  · simp only [List.range'_1_concat, Nat.add_comm 1, List.mem_append, List.mem_singleton]
    rcases h.enough with heach | ⟨m, hm, hall⟩
    · left
      rintro b (hb | rfl)
      · rw [hold b hb]
        exact heach b hb
      · rw [q.set_self]
        exact (heach 1 hfirst).trans (hmask 1 hfirst)
    · right
      refine ⟨m, ?_, ?_⟩
      · rintro b (hb | rfl)
        · rw [hold b hb]
          exact hm b hb
        · rw [q.set_self]
          exact (hm 1 hfirst).trans (hmask 1 hfirst)
      · exact hall.trans (Nat.mul_le_mul_right m (by omega))

theorem At.allocate (h : At need s live spare held) (hmax : ∃ m, maxBlock = 2 ^ (m + 1) ∧ m < 63)
    (hp : s.producer = .allocate x tb) : Sound need (s.produce maxBlock memory) := by
  have hl := h.layout
  have hf := h.produced
  rw [hp] at hl hf
  obtain ⟨rfl, hspent, hneed⟩ := hf
  simp only [System.produce, hp]
  split
  · case isTrue hmem =>
      obtain ⟨k, hk, hk63⟩ := h.capacity.largest
      obtain ⟨m, rfl, hm63⟩ := hmax
      -- the size of the new block is a power of two again, and no smaller
      have hsize : ∃ j, (if s.queue.largestBlockSize ≥ 2 ^ (m + 1) then s.queue.largestBlockSize
          else s.queue.largestBlockSize * 2) = 2 ^ (j + 1) ∧ j < 63 := by
        split
        · exact ⟨k, hk, hk63⟩
        · case isFalse hlt =>
            rw [hk, not_le, Nat.pow_lt_pow_iff_right (by omega)] at hlt
            exact ⟨k + 1, by rw [hk, Nat.pow_succ 2 (k + 1)], by omega⟩
      have hlarge : s.queue.largestBlockSize ≤ if s.queue.largestBlockSize ≥ 2 ^ (m + 1) then s.queue.largestBlockSize
          else s.queue.largestBlockSize * 2 := by
        split <;> omega
      generalize (if s.queue.largestBlockSize ≥ 2 ^ (m + 1) then s.queue.largestBlockSize
          else s.queue.largestBlockSize * 2) = n at hsize hlarge ⊢
      obtain ⟨j, rfl, hj⟩ := hsize
      have hne : ∀ b ∈ live, b ≠ s.queue.made + 1 := by
        rintro b hb rfl
        have hrange := hl.made.subset (List.mem_append_left _ (List.mem_append_left _ hb))
        rw [List.mem_range'_1] at hrange
        omega
      have hpos : 0 < s.queue.made := by
        have hrange := hl.made.subset (List.mem_append_left _ (List.mem_append_left _ hl.tail_mem))
        rw [List.mem_range'_1] at hrange
        omega
      have hold : ∀ blk : Block α, ∀ b ∈ live, (s.queue.set (s.queue.made + 1) blk).blocks b = s.queue.blocks b :=
        fun blk b hb => s.queue.set_of_ne _ blk (hne b hb)
      refine ⟨live, spare, held, h.byProducer_quiet ⟨rfl, fun b hb => ?_, fun b hb => ?_, ⟨[], by simp⟩,
        fun _ _ => ⟨[], by simp⟩, fun _ _ _ => rfl⟩ (hl.allocate rfl)
        (h.capacity.allocate hpos ⟨j, rfl, hj⟩ hlarge (newBlock_size hj)) ?_ rfl⟩
      · exact congrArg Block.front (hold _ b hb)
      · exact congrArg Block.localTail (hold _ b hb)
      · refine ⟨rfl, ?_, ?_, ?_⟩
        · rcases hspent with hone | hfull
          · exact Or.inl hone
          · exact Or.inr (hfull.trans (congrArg Block.sizeMask (hold _ _ hl.tail_mem)).symm)
        · show ((s.queue.set (s.queue.made + 1) _).blocks _).Holds _ _ _
          rw [ReaderWriterQueue.set_self]
          exact newBlock_holds hj x _
        · show ((s.queue.set (s.queue.made + 1) _).blocks _).next = ((s.queue.set (s.queue.made + 1) _).blocks _).next
          rw [ReaderWriterQueue.set_self, hold _ _ hl.tail_mem]
  · exact ⟨live, spare, held, h.byProducer_quiet (.refl _ _ _) (hl.hands _ _ rfl rfl rfl rfl) h.capacity hneed rfl⟩

theorem At.link (h : At need s live spare held) (hp : s.producer = .link x tb nb) :
    Sound need (s.produce maxBlock memory) := by
  have hl := h.layout
  have hf := h.produced
  rw [hp] at hl hf
  obtain ⟨rfl, hspent, hblk, hnext⟩ := hf
  have hnb : nb ∉ live := fun hm => hl.not_mem_unlinked (List.mem_append_left _ hm) (List.mem_singleton.mpr rfl)
  have hne : s.queue.tailBlock ≠ nb := by
    rintro rfl
    exact hnb hl.tail_mem
  have htaken : s.consumer.taken nb = false := by
    -- the consumer holds the first element of a live block, if any
    have hc := h.consumed
    cases hcase : s.consumer with
    | storeFront op fb bf y =>
        rw [hcase] at hc
        obtain ⟨-, rfl, -⟩ := hc
        have hne' : nb ≠ s.queue.frontBlock := by
          rintro rfl
          exact hnb hl.front_mem
        simp [Consumer.taken, hne']
    | _ => rfl
  simp only [System.produce, hp]
  refine ⟨live, nb :: spare, Function.update held nb [x], h.byProducer_quiet ?_
    (hl.link (by rw [htaken]; exact hblk) hnext) (h.capacity.set rfl) ?_ (flatMap_update hnb [x])⟩
  · have hstore : ByProducer s.queue (s.queue.set s.queue.tailBlock { s.queue.blocks s.queue.tailBlock with next := nb })
        live live held held := .store live held rfl rfl
    have hheld : ∀ b ∈ live, Function.update held nb [x] b = held b := by
      intro b hb
      refine Function.update_of_ne ?_ _ _
      rintro rfl
      exact hnb hb
    refine ⟨rfl, hstore.front, hstore.localTail, hstore.grown, fun b hb => ⟨[], by rw [hheld b hb]; simp⟩,
      fun b hb _ => hheld b hb⟩
  · refine ⟨rfl, ?_⟩
    unfold Spent
    rw [ReaderWriterQueue.set_tailBlock, ReaderWriterQueue.set_self, Function.update_of_ne hne]
    exact hspent

theorem At.advance (h : At need s live spare held) (hp : s.producer = .advance x nb) :
    Sound need (s.produce maxBlock memory) := by
  have hl := h.layout
  have hf := h.produced
  rw [hp] at hl hf
  obtain ⟨hnb, hspent⟩ := hf
  obtain ⟨rest, rfl⟩ := eq_cons_of_head? hnb
  have hheld : held nb = [x] := by
    rw [hl.spared nb (List.mem_cons_self ..)]
    simp [Producer.lent]
  simp only [System.produce, hp]
  refine ⟨live ++ [nb], rest, held, h.byProducer _ ?_ (hl.advance hspent)
    (h.capacity.congr rfl rfl fun _ => rfl) trivial ?_⟩
  · exact ⟨rfl, fun _ _ => rfl, fun _ _ => rfl, ⟨[nb], rfl⟩, fun _ _ => ⟨[], by simp⟩, fun _ _ _ => rfl⟩
  · rw [List.flatMap_append]
    simp [hheld]

/-! ## The consumer -/

@[simp] theorem arrive_taken : (op.arrive fb bf : Consumer α).taken = fun _ => false := by
  unfold Op.arrive
  split <;> rfl

/-- The front block is not empty: the consumer can have its first element. -/
theorem arrive_facts {q : ReaderWriterQueue α} {p : Producer α} {c : Consumer α} (op : Op) (sawEmpty : Bool)
    (contents dequeued : List α) (h : Layout q p c live spare held)
    (hne : (q.blocks q.frontBlock).front ≠ (q.blocks q.frontBlock).localTail) :
    (op.arrive q.frontBlock (q.blocks q.frontBlock).front).Facts q live held sawEmpty contents dequeued := by
  obtain ⟨rest, hrest⟩ := h.front
  unfold Op.arrive
  split
  · exact ⟨rfl, h.frontHolds.ne_nil_of_localTail hne, [], rest, hrest, fun a ha => absurd ha (by simp)⟩
  · case isFalse hop => exact ⟨hop, rfl, rfl, hne⟩

theorem At.enterOp (h : At need s live spare held) (hc : s.consumer = .enter op) : Sound need s.consume := by
  have hl := h.layout
  rw [hc] at hl
  simp only [System.consume, hc]
  split
  · case isTrue hne =>
      have hnext := hl.hands s.producer (op.arrive s.queue.frontBlock (s.queue.blocks s.queue.frontBlock).front)
        arrive_taken rfl rfl rfl
      exact ⟨live, spare, held, h.byConsumer_quiet (.refl _ _ _ _) hnext h.capacity (arrive_facts op _ _ _ hl hne) rfl⟩
  · refine ⟨live, spare, held, h.byConsumer_quiet (.refl _ _ _ _) (hl.hands _ _ rfl rfl rfl rfl) h.capacity ?_ rfl⟩
    exact ⟨rfl, rfl⟩

/-- The consumer renews its copy of the tail of the front block. -/
theorem At.renewTail (h : At need s live spare held) (htaken : s.consumer.taken = fun _ => false) {c' : Consumer α}
    (hc' : c'.taken = fun _ => false)
    (hfacts : c'.Facts (s.queue.set s.queue.frontBlock { s.queue.blocks s.queue.frontBlock with
      localTail := (s.queue.blocks s.queue.frontBlock).tail }) live held s.sawEmpty (live.flatMap held) s.dequeued) :
    Sound need { s with
      queue := s.queue.set s.queue.frontBlock { s.queue.blocks s.queue.frontBlock with
        localTail := (s.queue.blocks s.queue.frontBlock).tail }
      consumer := c' } := by
  have hblk := h.layout.frontHolds.renewTail
  rw [htaken] at hblk
  have hstore := h.layout.store s.producer c' s.queue.frontBlock
    { s.queue.blocks s.queue.frontBlock with localTail := (s.queue.blocks s.queue.frontBlock).tail }
    (by rw [hc']; exact hblk) rfl rfl (fun _ _ => by rw [htaken, hc']) (fun _ _ => rfl) rfl rfl
  exact ⟨live, spare, held, h.byConsumer_quiet (.store h.layout.front_mem rfl rfl rfl rfl rfl) hstore
    (h.capacity.set rfl) hfacts rfl⟩

/-- With that copy renewed, it can have the first element when the block is not empty. -/
theorem At.renewed_facts (h : At need s live spare held)
    (hne : (s.queue.blocks s.queue.frontBlock).front ≠ (s.queue.blocks s.queue.frontBlock).tail) :
    (op.arrive s.queue.frontBlock (s.queue.blocks s.queue.frontBlock).front).Facts
      (s.queue.set s.queue.frontBlock { s.queue.blocks s.queue.frontBlock with
        localTail := (s.queue.blocks s.queue.frontBlock).tail }) live held s.sawEmpty (live.flatMap held) s.dequeued := by
  have hstore := h.layout.store s.producer s.consumer _ _ h.layout.frontHolds.renewTail rfl rfl
    (fun _ _ => rfl) (fun _ _ => rfl) rfl rfl
  have hfacts := arrive_facts op s.sawEmpty (live.flatMap held) s.dequeued hstore (by
      rw [ReaderWriterQueue.set_frontBlock, ReaderWriterQueue.set_self]
      exact hne)
  rwa [ReaderWriterQueue.set_frontBlock, ReaderWriterQueue.set_self] at hfacts

theorem At.checkTail (h : At need s live spare held) (hseen : s.size = 0 → s.sawEmpty)
    (hc : s.consumer = .checkTail op fb bf) : Sound need s.consume := by
  have hf := h.consumed
  rw [hc] at hf
  obtain ⟨rfl, rfl⟩ := hf
  have htaken : s.consumer.taken = fun _ => false := by rw [hc]; rfl
  simp only [System.consume, hc]
  split
  · case isTrue hne => exact h.renewTail htaken arrive_taken (h.renewed_facts hne)
  · case isFalse heq =>
      refine h.renewTail htaken rfl ⟨rfl, fun hone => hseen ?_⟩
      -- the only live block is empty
      have hempty : held s.queue.frontBlock = [] := h.layout.frontHolds.front_eq_tail.mp (not_not.mp heq)
      obtain ⟨rest, hrest⟩ := h.layout.front
      rw [hrest, List.length_cons] at hone
      have hnil : rest = [] := List.length_eq_zero_iff.mp (by omega)
      rw [h.size_eq, hrest, hnil]
      simp [hempty]

theorem At.checkTailBlock (h : At need s live spare held) (hc : s.consumer = .checkTailBlock op fb) :
    Sound need s.consume := by
  have hl := h.layout
  have hf := h.consumed
  rw [hc] at hl hf
  obtain ⟨rfl, hsaw⟩ := hf
  simp only [System.consume, hc]
  split
  · case isTrue hne =>
      exact ⟨live, spare, held, h.byConsumer_quiet (.refl _ _ _ _) (hl.hands _ _ rfl rfl rfl rfl) h.capacity
        (hl.front_ne_tail.mp hne) rfl⟩
  · case isFalse heq =>
      have hone : live.length = 1 := by
        have hpos := List.length_pos_of_mem hl.front_mem
        have hshort : ¬2 ≤ live.length := fun htwo => heq (hl.front_ne_tail.mpr htwo)
        omega
      exact ⟨live, spare, held, h.byConsumer_quiet (.refl _ _ _ _) (hl.hands _ _ rfl rfl rfl rfl) h.capacity
        (hsaw hone) rfl⟩

theorem At.recheck (h : At need s live spare held) (hc : s.consumer = .recheck op) : Sound need s.consume := by
  have hf := h.consumed
  rw [hc] at hf
  have htaken : s.consumer.taken = fun _ => false := by rw [hc]; rfl
  simp only [System.consume, hc]
  split
  · case isTrue hne => exact h.renewTail htaken arrive_taken (h.renewed_facts hne)
  · case isFalse heq =>
      have hempty := h.layout.frontHolds.front_eq_tail.mp (not_not.mp heq)
      exact h.renewTail htaken rfl ⟨rfl, hf, hempty⟩

theorem At.loadNext (h : At need s live spare held) (hc : s.consumer = .loadNext op fb) : Sound need s.consume := by
  have hl := h.layout
  have hf := h.consumed
  rw [hc] at hl hf
  obtain ⟨rfl, htwo, hempty⟩ := hf
  obtain ⟨rest, hrest⟩ := hl.front
  cases rest with
  | nil => simp [hrest] at htwo
  | cons nb rest =>
      have hnext : (s.queue.blocks s.queue.frontBlock).next = nb := by
        have hcircle := hl.circle
        rw [hrest, ← List.nil_append (s.queue.frontBlock :: nb :: rest), List.append_assoc] at hcircle
        exact hcircle.next_eq
      simp only [System.consume, hc, hnext]
      exact ⟨live, spare, held, h.byConsumer_quiet (.refl _ _ _ _) (hl.hands _ _ rfl rfl rfl rfl) h.capacity
        ⟨hempty, rest, hrest⟩ rfl⟩

theorem At.loadNextTail (h : At need s live spare held) (hc : s.consumer = .loadNextTail op nb) :
    Sound need s.consume := by
  have hl := h.layout
  have hf := h.consumed
  rw [hc] at hl hf
  obtain ⟨hempty, rest, hrest⟩ := hf
  have hmem : nb ∈ live := by
    rw [hrest]
    simp
  have hne : held nb ≠ [] := hl.filled nb (by rw [hrest]; simp)
  have hblk := hl.blocks nb (List.mem_append_left _ hmem)
  have hassert : (s.queue.blocks nb).front ≠ (s.queue.blocks nb).tail := by
    rw [ne_eq, hblk.front_eq_tail]
    exact hne
  simp only [System.consume, hc, if_neg hassert]
  split
  · refine ⟨live, spare, held, h.byConsumer_quiet (.refl _ _ _ _) (hl.hands _ _ rfl rfl rfl rfl) h.capacity ?_ rfl⟩
    refine ⟨rfl, hne, [s.queue.frontBlock], rest, hrest, fun a ha => ?_⟩
    rw [List.mem_singleton.mp ha, hempty]
  · case isFalse hop =>
      have hstore := hl.store s.producer (.moveFront op nb (s.queue.blocks nb).front) _ _ hblk.renewTail rfl rfl
        (fun _ _ => rfl) (fun _ _ => rfl) rfl rfl
      refine ⟨live, spare, held, h.byConsumer_quiet (.store hmem rfl rfl rfl rfl rfl) hstore (h.capacity.set rfl) ?_ rfl⟩
      refine ⟨hop, hempty, ⟨rest, hrest⟩, by rw [ReaderWriterQueue.set_self], ?_⟩
      rw [ReaderWriterQueue.set_self]
      exact hassert

/-- The producer lends nothing to a block that is live. -/
theorem At.lent_nil (h : At need s live spare held) {b : Nat} (hb : b ∈ live) : s.producer.lent b = [] := by
  have hf := h.produced
  cases hcase : s.producer with
  | advance y nb =>
      rw [hcase] at hf
      have hne : b ≠ nb := by
        rintro rfl
        exact h.layout.not_mem_spare hb (List.mem_of_head? hf.1)
      simp [Producer.lent, hne]
  | _ => rfl

theorem At.moveFront (h : At need s live spare held) (hc : s.consumer = .moveFront op nb nf) :
    Sound need s.consume := by
  have hl := h.layout
  have hf := h.consumed
  rw [hc] at hl hf
  obtain ⟨hop, hempty, ⟨rest, rfl⟩, rfl, hne⟩ := hf
  simp only [System.consume, hc]
  refine ⟨nb :: rest, spare ++ [s.queue.frontBlock], held, h.byConsumer_quiet ?_
    (hl.moveFront hempty (h.lent_nil (List.mem_cons_self ..)) rfl) (h.capacity.congr rfl rfl fun _ => rfl)
    ⟨hop, rfl, rfl, hne⟩ ?_⟩
  · refine ⟨rfl, fun _ => rfl, fun _ => rfl, fun _ => rfl, fun _ _ => ⟨rfl, rfl⟩, ⟨_, rfl⟩, id, ?_⟩
    rintro (hone | hfull)
    · simp at hone
    · exact Or.inr hfull
  · exact (congrArg (· ++ (nb :: rest).flatMap held) hempty).symm

theorem At.take (h : At need s live spare held) (hc : s.consumer = .take op fb bf) : Sound need s.consume := by
  have hl := h.layout
  have hf := h.consumed
  rw [hc] at hl hf
  obtain ⟨hop, rfl, rfl, hne⟩ := hf
  have hblk := hl.frontHolds
  obtain ⟨x, xs, hxs⟩ := List.exists_cons_of_ne_nil (hblk.ne_nil_of_localTail hne)
  rw [hxs] at hblk
  simp only [System.consume, hc, Block.Holds.data_front hblk]
  have hstore := hl.store s.producer (.storeFront op s.queue.frontBlock (s.queue.blocks s.queue.frontBlock).front x)
    s.queue.frontBlock { s.queue.blocks s.queue.frontBlock with
      data := Function.update (s.queue.blocks s.queue.frontBlock).data (s.queue.blocks s.queue.frontBlock).front none }
    (by
      rw [hxs]
      simp only [Consumer.taken, beq_self_eq_true]
      exact Block.Holds.take hblk hne)
    rfl rfl (fun a ha => by simp [Consumer.taken, ha]) (fun _ _ => rfl) rfl rfl
  refine ⟨live, spare, held, h.byConsumer_quiet (.store hl.front_mem rfl rfl rfl rfl rfl) hstore
    (h.capacity.set rfl) ?_ rfl⟩
  exact ⟨hop, rfl, by rw [ReaderWriterQueue.set_self], xs, hxs⟩

/-- The first element of the queue is the first one of the leading block. -/
theorem Leading.head? {b : Nat} (h : Leading live held b) : (live.flatMap held).head? = (held b).head? := by
  obtain ⟨hne, before, after, rfl, hbefore⟩ := h
  have hnil : before.flatMap held = [] := by
    rw [List.flatMap_eq_nil_iff]
    exact hbefore
  rw [List.flatMap_append, hnil, List.nil_append, List.flatMap_cons, List.head?_append_of_ne_nil _ hne]

theorem At.look (h : At need s live spare held) (hc : s.consumer = .look fb bf) : Sound need s.consume := by
  have hl := h.layout
  have hf := h.consumed
  rw [hc] at hl hf
  obtain ⟨rfl, hlead⟩ := hf
  have hmem : fb ∈ live := by
    obtain ⟨-, before, after, hsplit, -⟩ := hlead
    rw [hsplit]
    simp
  have hblk := hl.blocks fb (List.mem_append_left _ hmem)
  obtain ⟨x, xs, hxs⟩ := List.exists_cons_of_ne_nil hlead.1
  rw [hxs] at hblk
  simp only [System.consume, hc, Block.Holds.data_front hblk]
  refine ⟨live, spare, held, h.byConsumer_quiet (.refl _ _ _ _) (hl.hands _ _ rfl rfl rfl rfl) h.capacity ?_ rfl⟩
  show (live.flatMap held).head? = some x
  rw [hlead.head?, hxs, List.head?_cons]

theorem At.storeFront (h : At need s live spare held) (hc : s.consumer = .storeFront op fb bf x) :
    Sound need s.consume := by
  have hl := h.layout
  have hf := h.consumed
  rw [hc] at hl hf
  obtain ⟨hop, rfl, rfl, xs, hxs⟩ := hf
  have hblk := hl.frontHolds
  simp only [Consumer.taken, beq_self_eq_true, hxs] at hblk
  obtain ⟨rest, hrest⟩ := hl.front
  have hnd : live.Nodup := (List.nodup_append.mp hl.nodup).1
  rw [hrest, List.nodup_cons] at hnd
  simp only [System.consume, hc]
  refine ⟨live, spare, Function.update held s.queue.frontBlock xs, h.byConsumer _ ?_ ?_ (h.capacity.set rfl) ?_ ?_⟩
  · refine ByConsumer.set _ _ _ hl.front_mem rfl rfl rfl (fun hroom => ?_) ?_
    · rw [hxs] at hroom
      exact hblk.roomy_storeFront hroom
    · have hends := hl.front_ne_tail
      have hpos := List.length_pos_of_mem hl.front_mem
      by_cases he : s.queue.frontBlock = s.queue.tailBlock
      · have hshort : ¬2 ≤ live.length := fun htwo => hends.mpr htwo he
        exact Or.inl (by omega)
      · exact Or.inr (Or.inl he)
  · refine hl.set hblk.storeFront rfl rfl (fun a ha => ?_) (fun _ _ => rfl) rfl (fun a ha => ?_) ?_ ?_
    · simp [Consumer.taken, ha]
    · rw [Function.update_of_ne, hl.spared a ha]
      rintro rfl
      exact hl.not_mem_spare hl.front_mem ha
    · rw [hrest]
      exact fun hm => absurd hm hnd.1
    · rw [hrest]
      exact fun hm => absurd (List.mem_of_mem_dropLast hm) hnd.1
  · cases op with
    | peek => exact absurd rfl hop
    | tryDequeue | pop => exact List.getLast?_concat
  · rw [hrest, List.flatMap_cons, List.flatMap_cons, flatMap_update hnd.1, Function.update_self, hxs]
    rfl

/-! ## Runs -/

theorem Consumer.Facts.saw {c : Consumer α} {q : ReaderWriterQueue α} {saw saw' : Bool} {contents dequeued : List α}
    (h : c.Facts q live held saw contents dequeued) (hsaw : saw → saw') :
    c.Facts q live held saw' contents dequeued := by
  cases c with
  | checkTailBlock op fb => exact ⟨h.1, fun hone => hsaw (h.2 hone)⟩
  | done op r =>
      cases r with
      | none => exact hsaw h
      | some x => cases op <;> exact h
  | _ => exact h

theorem At.observe (h : At need s live spare held) : At need s.observe live spare held where
  layout := h.layout
  capacity := h.capacity
  produced := h.produced.stable (.refl _ _ _ _) h.layout (le_max_left _ _)
  consumed := h.consumed.saw fun hsaw => by simp [System.observe, hsaw]
  flow := h.flow
  sound := h.sound

theorem Sound.observe (h : Sound need s) : Inv need s.observe where
  laid := by
    obtain ⟨live, spare, held, hat⟩ := h
    exact ⟨live, spare, held, hat.observe⟩
  seen := by
    intro hsize
    have hzero : s.size = 0 := hsize
    simp [System.observe, hzero]
  top := le_max_right _ _

theorem At.call (h : At need s live spare held) (hrest : s.producer.resting) :
    At need { s with producer := .enter x mode, peak := 0 } live spare held := by
  have hl := h.layout
  refine ⟨?_, h.capacity, trivial, h.consumed, h.flow, h.sound⟩
  cases hp : s.producer with
  | idle | done r =>
      rw [hp] at hl
      exact hl.hands _ _ rfl rfl rfl rfl
  | _ => simp [hp, Producer.resting] at hrest

theorem At.callOp (h : At need s live spare held) (hrest : s.consumer.resting) :
    At need { s with consumer := .enter op, sawEmpty := false } live spare held := by
  have hl := h.layout
  refine ⟨?_, h.capacity, h.produced, trivial, h.flow, h.sound⟩
  cases hc : s.consumer with
  | idle | done op' r =>
      rw [hc] at hl
      exact hl.hands _ _ rfl rfl rfl rfl
  | _ => simp [hc, Consumer.resting] at hrest

theorem Inv.produce (h : Inv need s) (hmax : ∃ m, maxBlock = 2 ^ (m + 1) ∧ m < 63) :
    Sound need (s.produce maxBlock memory) := by
  obtain ⟨⟨live, spare, held, hat⟩, -, htop⟩ := h
  cases hp : s.producer with
  | idle | done r =>
      simp only [System.produce, hp]
      exact ⟨live, spare, held, hat⟩
  | enter x mode => exact hat.enter hp
  | checkFront x mode tb bt => exact hat.checkFront htop hp
  | construct x tb bt => exact hat.construct hp
  | publish x tb bt => exact hat.publish hp
  | full x mode tb => exact hat.full htop hp
  | takeNext x tb => exact hat.takeNext hp
  | constructNext x nb nbt => exact hat.constructNext hp
  | publishNext x nb nbt => exact hat.publishNext hp
  | allocate x tb => exact hat.allocate hmax hp
  | link x tb nb => exact hat.link hp
  | advance x nb => exact hat.advance hp

theorem Inv.consume (h : Inv need s) : Sound need s.consume := by
  obtain ⟨⟨live, spare, held, hat⟩, hseen, -⟩ := h
  cases hc : s.consumer with
  | idle | done op r =>
      simp only [System.consume, hc]
      exact ⟨live, spare, held, hat⟩
  | enter op => exact hat.enterOp hc
  | checkTail op fb bf => exact hat.checkTail hseen hc
  | checkTailBlock op fb => exact hat.checkTailBlock hc
  | recheck op => exact hat.recheck hc
  | loadNext op fb => exact hat.loadNext hc
  | loadNextTail op nb => exact hat.loadNextTail hc
  | moveFront op nb nf => exact hat.moveFront hc
  | take op fb bf => exact hat.take hc
  | look fb bf => exact hat.look hc
  | storeFront op fb bf x => exact hat.storeFront hc

/-- **One step.** -/
theorem Inv.step (h : Inv need s) (hmax : ∃ m, maxBlock = 2 ^ (m + 1) ∧ m < 63) (a : Action α) :
    Inv need (s.step maxBlock a) := by
  cases a with
  | enqueue x mode =>
      simp only [System.step]
      split
      · case isTrue hrest =>
          obtain ⟨live, spare, held, hat⟩ := h.laid
          exact Sound.observe ⟨live, spare, held, hat.call hrest⟩
      · exact h
  | produce memory => exact (h.produce hmax).observe
  | dequeue op =>
      simp only [System.step]
      split
      · case isTrue hrest =>
          obtain ⟨live, spare, held, hat⟩ := h.laid
          exact Sound.observe ⟨live, spare, held, hat.callOp hrest⟩
      · exact h
  | consume => exact h.consume.observe

/-- **Every run.** -/
theorem Inv.run (h : Inv need s) (hmax : ∃ m, maxBlock = 2 ^ (m + 1) ∧ m < 63) (as : List (Action α)) :
    Inv need (run (System.step maxBlock) s as) :=
  run_invariant (P := fun _ _ => True) (fun _ a hs _ => hs.step hmax a) as s h (along_of_forall (fun _ _ => trivial) as s)

end MqttServer.Moodycamel
