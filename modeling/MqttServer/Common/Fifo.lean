import MqttServer.Common.QueueStart

/-!
# `Common.Fifo` — what the queue promises

The comments of the source say what the queue is for; these are its promises over every run of a producer and a
consumer, for every size asked for and every `MAX_BLOCK_SIZE`. The elements come out in the order they went in, none of
them lost or twice, and no step touches raw memory or a cell in use (`queue_fifo`). A call says that the queue was empty
or full only when it was (`queue_answers`). And neither thread ever waits for the other (`queue_wait_free`).
-/

namespace MqttServer.Moodycamel

open Lib

variable {α : Type} {maxBlock maxSize : Nat}

/-! ## Walks over a queue at rest -/

section Walk

variable {blk : Block α} {xs : List α}

/-- **The destructor's inner loop** destroys the elements from one of them on. -/
theorem Block.Holds.destroyed_eq (h : blk.Holds false none xs) (ys : List α) (fuel k : Nat) (hys : xs.drop k = ys)
    (hk : k + ys.length = xs.length) (hfuel : ys.length < fuel) :
    blk.destroyed fuel ((blk.front + k) % blk.size) = ys.map some := by
  have hlt := h.length_lt
  simp only [Option.toList_none, List.length_nil, Nat.add_zero] at hlt
  induction ys generalizing fuel k with
  | nil =>
      cases fuel with
      | zero => simp at hfuel
      | succ fuel =>
          -- all elements are behind, the index is the tail
          rw [List.length_nil, Nat.add_zero] at hk
          simp [Block.destroyed, h.tail, hk]
  | cons y ys ih =>
      cases fuel with
      | zero => simp at hfuel
      | succ fuel =>
          rw [List.length_cons] at hk hfuel
          have hne : (blk.front + k) % blk.size ≠ blk.tail := by
            rw [h.tail]
            intro heq
            have hpos := position_inj (by omega) hlt heq
            omega
          have hcell : blk.data ((blk.front + k) % blk.size) = some y := by
            rw [h.cells k (by omega)]
            have hget : xs[k]? = some y := by
              rw [← List.head?_drop, hys, List.head?_cons]
            simp [slots, hget, show k ≠ xs.length by omega]
          have hrest : xs.drop (k + 1) = ys := by
            rw [← List.tail_drop, hys, List.tail_cons]
          have htail := ih fuel (k + 1) hrest (by omega) (by omega)
          simp only [Block.destroyed, if_neg hne, hcell, List.map_cons, h.after_eq, position_succ, htail]

theorem Block.Holds.destroyed_all (h : blk.Holds false none xs) :
    blk.destroyed (blk.sizeMask + 1) blk.front = xs.map some := by
  have hlt := h.length_lt
  simp only [Option.toList_none, List.length_nil, Nat.add_zero] at hlt
  have hall := h.destroyed_eq xs (blk.sizeMask + 1) 0 rfl (Nat.zero_add _) hlt
  rwa [position_zero h.first] at hall

/-- **The difference of the indices** is how many elements there are, also when it wraps. -/
theorem Block.Holds.size_eq (h : blk.Holds false none xs) (hsize : blk.size ≤ 2 ^ 63) :
    ((blk.tail + 2 ^ 64 - blk.front) % 2 ^ 64) &&& blk.sizeMask = xs.length := by
  have hlt := h.length_lt
  have hfirst := h.first
  simp only [Option.toList_none, List.length_nil, Nat.add_zero] at hlt
  obtain ⟨k, hk⟩ := h.power
  have hmask : blk.sizeMask = 2 ^ (k + 1) - 1 := by
    rw [← hk]
    rfl
  have hword : 2 ^ (k + 1) ∣ 2 ^ 64 := by
    rw [hk, Nat.pow_le_pow_iff_right (by omega)] at hsize
    exact Nat.pow_dvd_pow 2 (by omega)
  obtain ⟨c, hc⟩ := hword
  rw [hmask, Nat.and_two_pow_sub_one_eq_mod, hc, Nat.mod_mul_right_mod, h.tail, ← hk]
  rw [← hk] at hc
  have hcpos : 0 < c := by
    rcases Nat.eq_zero_or_pos c with rfl | hpos
    · omega
    · exact hpos
  obtain ⟨c, rfl⟩ : ∃ c', c = c' + 1 := ⟨c - 1, by omega⟩
  rcases Nat.lt_or_ge (blk.front + xs.length) blk.size with hin | hwrap
  · rw [Nat.mod_eq_of_lt hin, show blk.front + xs.length + blk.size * (c + 1) - blk.front =
      xs.length + blk.size * (c + 1) by omega, Nat.add_mul_mod_self_left, Nat.mod_eq_of_lt hlt]
  · -- the tail has gone round
    have hmod : (blk.front + xs.length) % blk.size = blk.front + xs.length - blk.size := by
      rw [Nat.mod_eq_sub_mod hwrap, Nat.mod_eq_of_lt (by omega)]
    rw [hmod, Nat.mul_succ, show blk.front + xs.length - blk.size + (blk.size * c + blk.size) - blk.front =
      xs.length + blk.size * c by omega, Nat.add_mul_mod_self_left, Nat.mod_eq_of_lt hlt]

end Walk

section Rest

variable {need : Nat} {s : System α} {live spare : List Nat} {held : Nat → List α}

/-- Outside all calls nothing is in a thread's hands. -/
theorem At.at_rest (h : At need s live spare held) (hp : s.producer.resting) (hc : s.consumer.resting) :
    Layout s.queue .idle .idle live spare held := by
  have hl := h.layout
  have htaken : (Consumer.idle : Consumer α).taken = s.consumer.taken := by
    cases hcase : s.consumer with
    | idle | done op r => rfl
    | _ => simp [hcase, Consumer.resting] at hc
  cases hcase : s.producer with
  | idle | done r =>
      rw [hcase] at hl
      exact hl.hands _ _ htaken rfl rfl rfl
  | _ => simp [hcase, Producer.resting] at hp

/-- The loops over the blocks meet all of them, the live ones first. -/
theorem Layout.visited_eq {q : ReaderWriterQueue α} (h : Layout q .idle .idle live spare held) :
    q.visited = live ++ spare := by
  have hlen : (live ++ spare).length ≤ q.made := by
    have hmade := h.made.length_eq
    rw [List.length_range'] at hmade
    simp only [Producer.unlinked, List.append_nil] at hmade
    omega
  exact h.circle.walk_eq h.nodup hlen

/-- The elements of the spare blocks: none. -/
theorem Layout.flatMap_spare {q : ReaderWriterQueue α} (h : Layout q .idle .idle live spare held) :
    (live ++ spare).flatMap held = live.flatMap held := by
  have hnil : spare.flatMap held = [] := List.flatMap_eq_nil_iff.mpr h.spared
  rw [List.flatMap_append, hnil, List.append_nil]

theorem At.destroyed_eq (h : At need s live spare held) (hp : s.producer.resting) (hc : s.consumer.resting) :
    s.queue.destroyed = (live.flatMap held).map some := by
  have hl := h.at_rest hp hc
  rw [← hl.flatMap_spare, List.map_flatMap]
  unfold ReaderWriterQueue.destroyed
  rw [hl.visited_eq]
  refine List.flatMap_congr fun b hb => ?_
  exact (hl.blocks b hb).destroyed_all

theorem At.sizeApprox_eq (h : At need s live spare held) (hp : s.producer.resting) (hc : s.consumer.resting) :
    s.queue.sizeApprox = (live.flatMap held).length := by
  have hl := h.at_rest hp hc
  have hblock : ∀ b ∈ live ++ spare, (((s.queue.blocks b).tail + 2 ^ 64 - (s.queue.blocks b).front) % 2 ^ 64) &&&
      (s.queue.blocks b).sizeMask = (held b).length := by
    intro b hb
    refine (hl.blocks b hb).size_eq ?_
    obtain ⟨k, hk, hk63⟩ := h.capacity.largest
    refine (h.capacity.sizes b (hl.made.subset (List.mem_append_left _ hb))).trans ?_
    rw [hk]
    exact Nat.pow_le_pow_right (by omega) (by omega)
  rw [← hl.flatMap_spare, List.length_flatMap]
  unfold ReaderWriterQueue.sizeApprox
  rw [hl.visited_eq, List.map_congr_left hblock]

end Rest

/-! ## First in, first out -/

/-- A state that a producer and a consumer of a new queue come to. -/
def Reachable (maxBlock maxSize : Nat) (s : System α) : Prop :=
  ∃ as, run (System.step maxBlock) (System.start maxBlock maxSize) as = s

section Promises

variable {s : System α}

theorem Reachable.inv (h : Reachable maxBlock maxSize s) (hmax : ∃ m, maxBlock = 2 ^ (m + 1) ∧ m < 62)
    (hpos : 0 < maxSize) (hsize : maxSize < 2 ^ 63) : Inv maxSize s := by
  obtain ⟨as, rfl⟩ := h
  apply (start_inv hmax hpos hsize).run
  obtain ⟨m, rfl, hm⟩ := hmax
  exact ⟨m, rfl, by omega⟩

/-- **The queue is a queue.** In every state that a producer and a consumer reach, no element was built over another
    one, no raw memory was read as an element and no `assert` failed; and what was dequeued is a prefix of what was
    enqueued. When both threads are outside all calls, the rest is in the queue: `size_approx` counts it, and the
    destructor destroys each of its elements once and frees every block that was made once. -/
theorem queue_fifo (hmax : ∃ m, maxBlock = 2 ^ (m + 1) ∧ m < 62) (hpos : 0 < maxSize) (hsize : maxSize < 2 ^ 63)
    (h : Reachable maxBlock maxSize s) :
    s.fault = none ∧ ∃ rest, s.enqueued = s.dequeued ++ rest ∧
      (s.producer.resting → s.consumer.resting →
        s.queue.destroyed = rest.map some ∧ s.queue.sizeApprox = rest.length ∧
        s.queue.visited.Perm (List.range' 1 s.queue.made)) := by
  obtain ⟨⟨live, spare, held, hat⟩, -, -⟩ := h.inv hmax hpos hsize
  refine ⟨hat.sound, live.flatMap held, hat.flow, fun hp hc => ?_⟩
  have hl := hat.at_rest hp hc
  refine ⟨hat.destroyed_eq hp hc, hat.sizeApprox_eq hp hc, ?_⟩
  have hmade := hl.made
  rw [hl.visited_eq]
  simpa [Producer.unlinked] using hmade

/-- A queue of one element takes two: the second one into a new block. Then one is taken out. -/
def twoIn : List (Action Nat) :=
  .enqueue 7 .canAlloc :: List.replicate 4 (.produce true) ++ .enqueue 8 .canAlloc :: List.replicate 6 (.produce true) ++
    .dequeue .tryDequeue :: List.replicate 9 .consume

theorem queue_fifo_twoIn :
    (run (System.step 2) (System.start 2 1) twoIn).dequeued = [7] ∧
    (run (System.step 2) (System.start 2 1) twoIn).fault = none ∧
    ∃ rest, (run (System.step 2) (System.start 2 1) twoIn).enqueued =
        (run (System.step 2) (System.start 2 1) twoIn).dequeued ++ rest ∧
      ((run (System.step 2) (System.start 2 1) twoIn).producer.resting →
        (run (System.step 2) (System.start 2 1) twoIn).consumer.resting →
        (run (System.step 2) (System.start 2 1) twoIn).queue.destroyed = rest.map some ∧
        (run (System.step 2) (System.start 2 1) twoIn).queue.sizeApprox = rest.length ∧
        (run (System.step 2) (System.start 2 1) twoIn).queue.visited.Perm
          (List.range' 1 (run (System.step 2) (System.start 2 1) twoIn).queue.made)) :=
  ⟨by decide, queue_fifo ⟨0, rfl, by decide⟩ (by decide) (by decide) ⟨twoIn, rfl⟩⟩

/-! ## What a call answers -/

/-- What a step of the producer leaves alone. -/
theorem produce_frame (memory : Bool) (s : System α) :
    (s.produce maxBlock memory).consumer = s.consumer ∧ (s.produce maxBlock memory).dequeued = s.dequeued ∧
    (s.produce maxBlock memory).sawEmpty = s.sawEmpty ∧ (s.produce maxBlock memory).peak = s.peak := by
  cases hp : s.producer with
  | enter | checkFront | construct | takeNext | constructNext | allocate =>
      simp only [System.produce, hp]
      split <;> simp
  | full x mode tb =>
      simp only [System.produce, hp]
      split
      · simp
      · cases mode <;> simp
  | _ =>
      simp [System.produce, hp]

/-- What a step of the consumer leaves alone. -/
theorem consume_frame (s : System α) :
    s.consume.producer = s.producer ∧ s.consume.enqueued = s.enqueued ∧ s.consume.sawEmpty = s.sawEmpty ∧
    s.consume.peak = s.peak := by
  cases hc : s.consumer with
  | enter | checkTail | checkTailBlock | recheck | take | look =>
      simp only [System.consume, hc]
      split <;> simp
  | loadNextTail op nb =>
      simp only [System.consume, hc]
      split
      · simp
      · split <;> simp
  | _ =>
      simp [System.consume, hc]

/-- **The record of emptiness** is right: the queue was empty when it began, or in some state since. -/
theorem sawEmpty_run (as : List (Action α)) (s : System α) (has : ∀ a ∈ as, ∀ op, a ≠ .dequeue op)
    (h : (run (System.step maxBlock) s as).sawEmpty) :
    s.sawEmpty ∨ ∃ bs, bs <+: as ∧ (run (System.step maxBlock) s bs).size = 0 := by
  induction as generalizing s with
  | nil => exact Or.inl h
  | cons a as ih =>
      have hstep : (s.step maxBlock a).sawEmpty → s.sawEmpty ∨ (s.step maxBlock a).size = 0 := by
        have hobserve : ∀ t : System α, t.sawEmpty = s.sawEmpty → t.observe.sawEmpty →
            s.sawEmpty ∨ t.observe.size = 0 := by
          intro t ht hsaw
          simp only [System.observe, Bool.or_eq_true, beq_iff_eq, ht] at hsaw
          exact hsaw
        cases a with
        | dequeue op => exact absurd rfl (has _ (List.mem_cons_self ..) op)
        | enqueue x mode =>
            simp only [System.step]
            split
            · exact hobserve _ rfl
            · exact Or.inl
        | produce memory => exact hobserve _ (produce_frame memory s).2.2.1
        | consume => exact hobserve _ (consume_frame s).2.2.1
      rcases ih (s.step maxBlock a) (fun b hb => has b (List.mem_cons_of_mem _ hb)) h with hsaw | ⟨bs, hbs, hzero⟩
      · rcases hstep hsaw with hold | hnow
        · exact Or.inl hold
        · exact Or.inr ⟨[a], by simp, hnow⟩
      · exact Or.inr ⟨a :: bs, by simpa using hbs, hzero⟩

/-- **The record of fullness** is right, too. -/
theorem peak_run {n : Nat} (as : List (Action α)) (s : System α) (has : ∀ a ∈ as, ∀ x mode, a ≠ .enqueue x mode)
    (h : n ≤ (run (System.step maxBlock) s as).peak) :
    n ≤ s.peak ∨ ∃ bs, bs <+: as ∧ n ≤ (run (System.step maxBlock) s bs).size := by
  induction as generalizing s with
  | nil => exact Or.inl h
  | cons a as ih =>
      have hstep : n ≤ (s.step maxBlock a).peak → n ≤ s.peak ∨ n ≤ (s.step maxBlock a).size := by
        have hobserve : ∀ t : System α, t.peak = s.peak → n ≤ t.observe.peak → n ≤ s.peak ∨ n ≤ t.observe.size := by
          intro t ht hpeak
          simp only [System.observe, ht, le_max_iff] at hpeak
          exact hpeak
        cases a with
        | enqueue x mode => exact absurd rfl (has _ (List.mem_cons_self ..) x mode)
        | dequeue op =>
            simp only [System.step]
            split
            · exact hobserve _ rfl
            · exact Or.inl
        | produce memory => exact hobserve _ (produce_frame memory s).2.2.2
        | consume => exact hobserve _ (consume_frame s).2.2.2
      rcases ih (s.step maxBlock a) (fun b hb => has b (List.mem_cons_of_mem _ hb)) h with hpeak | ⟨bs, hbs, hle⟩
      · rcases hstep hpeak with hold | hnow
        · exact Or.inl hold
        · exact Or.inr ⟨[a], by simp, hnow⟩
      · exact Or.inr ⟨a :: bs, by simpa using hbs, hle⟩

/-- **The consumer's answers.** A call of `try_dequeue`, `pop` or `peek` finds nothing only when the queue was empty at a
    moment of that very call. What `try_dequeue` or `pop` takes is the element dequeued last, and what `peek` shows is
    the one that is dequeued next. -/
theorem consumer_answers (hmax : ∃ m, maxBlock = 2 ^ (m + 1) ∧ m < 62) (hpos : 0 < maxSize) (hsize : maxSize < 2 ^ 63)
    (h : Reachable maxBlock maxSize s) (op op' : Op) (hrest : s.consumer.resting) (as : List (Action α))
    (has : ∀ a ∈ as, ∀ op, a ≠ .dequeue op) {r : Option α}
    (hdone : (run (System.step maxBlock) s (.dequeue op :: as)).consumer = .done op' r) :
    (r = none → ∃ bs, bs <+: as ∧ (run (System.step maxBlock) s (.dequeue op :: bs)).size = 0) ∧
    (∀ x, r = some x → op' ≠ .peek →
      (run (System.step maxBlock) s (.dequeue op :: as)).dequeued.getLast? = some x) ∧
    (∀ x, r = some x → op' = .peek →
      ((run (System.step maxBlock) s (.dequeue op :: as)).enqueued.drop
        (run (System.step maxBlock) s (.dequeue op :: as)).dequeued.length).head? = some x) := by
  have hinv : Inv maxSize (run (System.step maxBlock) s (.dequeue op :: as)) := by
    refine (h.inv hmax hpos hsize).run ?_ _
    obtain ⟨m, rfl, hm⟩ := hmax
    exact ⟨m, rfl, by omega⟩
  obtain ⟨⟨live, spare, held, hat⟩, -, -⟩ := hinv
  have hfacts := hat.consumed
  rw [hdone] at hfacts
  refine ⟨?_, ?_, ?_⟩
  · rintro rfl
    have hsaw : (run (System.step maxBlock) s (.dequeue op :: as)).sawEmpty := hfacts
    rw [run_cons] at hsaw
    rcases sawEmpty_run as _ has hsaw with hcall | ⟨bs, hbs, hzero⟩
    · -- the queue was empty when the call began
      refine ⟨[], List.nil_prefix, ?_⟩
      simp only [System.step, hrest, if_true, System.observe, Bool.false_or, beq_iff_eq] at hcall
      simp only [run_cons, run_nil, System.step, hrest, if_true]
      exact hcall
    · exact ⟨bs, hbs, hzero⟩
  · rintro x rfl hop
    cases op' with
    | peek => exact absurd rfl hop
    | tryDequeue | pop => exact hfacts
  · rintro x rfl rfl
    rw [hat.flow, List.drop_left]
    exact hfacts

/-- A new queue is empty. -/
theorem consumer_answers_empty :
    ∃ bs, bs <+: List.replicate 3 Action.consume ∧
      (run (System.step 2) (System.start 2 1 : System Nat) (.dequeue .pop :: bs)).size = 0 :=
  (consumer_answers ⟨0, rfl, by decide⟩ (by decide) (by decide) ⟨[], rfl⟩ .pop .pop rfl _ (by simp)
    (show _ = Consumer.done .pop none from rfl)).1 rfl

/-- **The producer's answers.** A call of `enqueue` or `try_enqueue` fails, or goes to `malloc`, only when the queue held
    `maxSize` elements at a moment of that very call. -/
theorem producer_answers (hmax : ∃ m, maxBlock = 2 ^ (m + 1) ∧ m < 62) (hpos : 0 < maxSize) (hsize : maxSize < 2 ^ 63)
    (h : Reachable maxBlock maxSize s) (x : α) (mode : AllocationMode) (hrest : s.producer.resting)
    (as : List (Action α)) (has : ∀ a ∈ as, ∀ y mode', a ≠ .enqueue y mode')
    (hdone : (run (System.step maxBlock) s (.enqueue x mode :: as)).producer = .done false ∨
      ∃ y tb, (run (System.step maxBlock) s (.enqueue x mode :: as)).producer = .allocate y tb) :
    ∃ bs, bs <+: as ∧ maxSize ≤ (run (System.step maxBlock) s (.enqueue x mode :: bs)).size := by
  have hinv : Inv maxSize (run (System.step maxBlock) s (.enqueue x mode :: as)) := by
    refine (h.inv hmax hpos hsize).run ?_ _
    obtain ⟨m, rfl, hm⟩ := hmax
    exact ⟨m, rfl, by omega⟩
  obtain ⟨⟨live, spare, held, hat⟩, -, -⟩ := hinv
  have hpeak : maxSize ≤ (run (System.step maxBlock) s (.enqueue x mode :: as)).peak := by
    have hfacts := hat.produced
    rcases hdone with hdone | ⟨y, tb, hdone⟩
    · rw [hdone] at hfacts
      exact hfacts
    · rw [hdone] at hfacts
      exact hfacts.2.2
  rw [run_cons] at hpeak
  rcases peak_run as _ has hpeak with hcall | ⟨bs, hbs, hle⟩
  · refine ⟨[], List.nil_prefix, ?_⟩
    simp only [System.step, hrest, if_true, System.observe, Nat.zero_le, max_eq_right] at hcall
    simp only [run_cons, run_nil, System.step, hrest, if_true]
    exact hcall
  · exact ⟨bs, hbs, hle⟩

/-- The same queue with one element in it is full. -/
theorem producer_answers_full :
    ∃ bs, bs <+: List.replicate 3 (.produce true) ∧
      1 ≤ (run (System.step 2) (run (System.step 2) (System.start 2 1)
        (.enqueue 7 .canAlloc :: List.replicate 4 (.produce true))) (.enqueue 8 .cannotAlloc :: bs)).size :=
  producer_answers ⟨0, rfl, by decide⟩ (by decide) (by decide) ⟨_, rfl⟩ 8 .cannotAlloc rfl _ (by simp) (Or.inl rfl)

/-! ## No waiting -/

/-- The steps that are left of `inner_enqueue`, at most. -/
def Producer.rank : Producer α → Nat
  | .idle | .done _ => 0
  | .publish _ _ _ | .advance _ _ => 1
  | .construct _ _ _ | .publishNext _ _ _ | .link _ _ _ => 2
  | .constructNext _ _ _ | .allocate _ _ => 3
  | .takeNext _ _ => 4
  | .full _ _ _ => 5
  | .checkFront _ _ _ _ => 6
  | .enter _ _ => 7

/-- The steps that are left of `try_dequeue`, `pop` or `peek`, at most. -/
def Consumer.rank : Consumer α → Nat
  | .idle | .done _ _ => 0
  | .storeFront _ _ _ _ | .look _ _ => 1
  | .take _ _ _ => 2
  | .moveFront _ _ _ => 3
  | .loadNextTail _ _ => 4
  | .loadNext _ _ => 5
  | .recheck _ => 6
  | .checkTailBlock _ _ => 7
  | .checkTail _ _ _ => 8
  | .enter _ => 9

theorem Producer.resting_of_rank {p : Producer α} (h : p.rank = 0) : p.resting := by
  cases p <;> simp_all [Producer.rank, Producer.resting]

theorem Consumer.resting_of_rank {c : Consumer α} (h : c.rank = 0) : c.resting := by
  cases c <;> simp_all [Consumer.rank, Consumer.resting]

theorem Producer.rank_le (p : Producer α) : p.rank ≤ 7 := by
  cases p <;> simp [Producer.rank]

theorem Consumer.rank_le (c : Consumer α) : c.rank ≤ 9 := by
  cases c <;> simp [Consumer.rank]

theorem rank_arrive (op : Op) (b i : Nat) : (op.arrive b i : Consumer α).rank ≤ 2 := by
  unfold Op.arrive
  split <;> simp [Consumer.rank]

/-- **A step of the producer** goes on in its function, unless it goes wrong. -/
theorem rank_produce {memory : Bool} (h : (s.produce maxBlock memory).fault = none) :
    (s.produce maxBlock memory).producer.rank ≤ s.producer.rank - 1 := by
  cases hp : s.producer with
  | construct | takeNext | constructNext =>
      simp only [System.produce, hp] at h ⊢
      split at h <;> simp_all [Producer.rank]
  | enter | checkFront | allocate =>
      simp only [System.produce, hp]
      split <;> simp [Producer.rank]
  | full x mode tb =>
      simp only [System.produce, hp]
      split
      · simp [Producer.rank]
      · cases mode <;> simp [Producer.rank]
  | _ => simp [System.produce, hp, Producer.rank]

/-- **A step of the consumer**, likewise. -/
theorem rank_consume (h : s.consume.fault = none) : s.consume.consumer.rank ≤ s.consumer.rank - 1 := by
  cases hc : s.consumer with
  | enter op | checkTail op fb bf | recheck op =>
      simp only [System.consume, hc]
      split
      · exact (rank_arrive _ _ _).trans (by simp [Consumer.rank])
      · simp [Consumer.rank]
  | checkTailBlock op fb =>
      simp only [System.consume, hc]
      split <;> simp [Consumer.rank]
  | loadNextTail op nb =>
      by_cases hassert : (s.queue.blocks nb).front = (s.queue.blocks nb).tail
      · simp [System.consume, hc, hassert] at h
      · by_cases hop : op = .peek <;> simp [System.consume, hc, hassert, hop, Consumer.rank]
  | take op fb bf | look fb bf =>
      simp only [System.consume, hc] at h ⊢
      split at h <;> simp_all [Consumer.rank]
  | _ => simp [System.consume, hc, Consumer.rank]

/-- A step of the producer, or of the consumer. -/
def Action.isProduce : Action α → Bool
  | .produce _ => true
  | _ => false

def Action.isConsume : Action α → Bool
  | .consume => true
  | _ => false

/-- **No thread waits.** From any state, the call that the producer is in is over after seven of its own steps, and the
    one that the consumer is in after nine, whatever the other thread does between them, or when it has stopped
    anywhere. -/
theorem queue_wait_free (hmax : ∃ m, maxBlock = 2 ^ (m + 1) ∧ m < 62) (hpos : 0 < maxSize) (hsize : maxSize < 2 ^ 63)
    (h : Reachable maxBlock maxSize s) (as : List (Action α)) :
    ((∀ a ∈ as, ∀ x mode, a ≠ .enqueue x mode) → 7 ≤ as.countP Action.isProduce →
      (run (System.step maxBlock) s as).producer.resting) ∧
    ((∀ a ∈ as, ∀ op, a ≠ .dequeue op) → 9 ≤ as.countP Action.isConsume →
      (run (System.step maxBlock) s as).consumer.resting) := by
  have hinv := h.inv hmax hpos hsize
  -- a step of its own lowers the rank of each side, as long as no assertion of the queue fails
  have hkeep : ∀ (t : System α) (a : Action α), Inv maxSize t → Inv maxSize (t.step maxBlock a) := by
    intro t a ht
    refine ht.step ?_ a
    obtain ⟨m, rfl, hm⟩ := hmax
    exact ⟨m, rfl, by omega⟩
  have hfault : ∀ t : System α, Inv maxSize t → t.fault = none := by
    rintro t ⟨⟨live, spare, held, hat⟩, -, -⟩
    exact hat.sound
  constructor
  · intro hcalls hcount
    have hrank := run_rank (P := fun a => ∀ x mode, a ≠ .enqueue x mode) (I := Inv maxSize)
      (fun t : System α => t.producer.rank) Action.isProduce (fun t a ht ha => ⟨hkeep t a ht, ?_⟩) as s hinv hcalls
    · apply Producer.resting_of_rank
      have hle := s.producer.rank_le
      omega
    · have hsound := hfault _ (hkeep t a ht)
      cases a with
      | enqueue x mode => exact absurd rfl (ha x mode)
      | produce memory => exact rank_produce hsound
      | dequeue op =>
          simp only [System.step]
          split <;> exact Nat.le_refl _
      | consume =>
          have hframe : (t.step maxBlock .consume).producer = t.producer := (consume_frame t).1
          rw [hframe]
          exact Nat.le_refl _
  · intro hcalls hcount
    have hrank := run_rank (P := fun a => ∀ op, a ≠ .dequeue op) (I := Inv maxSize)
      (fun t : System α => t.consumer.rank) Action.isConsume (fun t a ht ha => ⟨hkeep t a ht, ?_⟩) as s hinv hcalls
    · apply Consumer.resting_of_rank
      have hle := s.consumer.rank_le
      omega
    · have hsound := hfault _ (hkeep t a ht)
      cases a with
      | dequeue op => exact absurd rfl (ha op)
      | consume => exact rank_consume hsound
      | enqueue x mode =>
          simp only [System.step]
          split <;> exact Nat.le_refl _
      | produce memory =>
          have hframe : (t.step maxBlock (.produce memory)).consumer = t.consumer := (produce_frame memory t).1
          rw [hframe]
          exact Nat.le_refl _

/-- A consumer that stops in the middle of a call does not keep the producer from ending its own. -/
theorem queue_wait_free_stopped :
    (run (System.step 2) (run (System.step 2) (System.start 2 1) (twoIn ++ [.dequeue .pop, .consume, .enqueue 9 .canAlloc]))
      (List.replicate 7 (.produce true))).producer.resting :=
  (queue_wait_free ⟨0, rfl, by decide⟩ (by decide) (by decide) ⟨_, rfl⟩ _).1 (by simp) (by decide)

end Promises
end MqttServer.Moodycamel
