import MqttServer.Common.QueueLayout

/-!
# `Common.QueueRely` — what each thread of the queue relies on

Between two steps the memory is a `Layout`, and each thread relies on a few facts about it: what it has read, it may
use as long as the other thread cannot make it false. So the argument has two halves. What a step of the consumer can
do to the producer is said once (`ByConsumer`), and every fact of the producer is stable under it; what a step of the
producer can do to the consumer is said once (`ByProducer`), likewise. `At` puts the layout and the facts of both
threads together, and `At.byProducer` and `At.byConsumer` are the two forms that a step has.
-/

namespace MqttServer.Moodycamel

open Lib

variable {α : Type}

/-! ## What the threads rely on -/

/-- What the producer knows at each point of `inner_enqueue`. -/
def Producer.Facts (need : Nat) (q : ReaderWriterQueue α) (live spare : List Nat) (held : Nat → List α) (peak : Nat) :
    Producer α → Prop
  | .idle | .enter _ _ | .done true => True
  | .done false => need ≤ peak
  | .checkFront _ _ tb bt | .publish _ tb bt => tb = q.tailBlock ∧ bt = (q.blocks tb).tail
  | .construct _ tb bt => tb = q.tailBlock ∧ bt = (q.blocks tb).tail ∧ (q.blocks tb).Roomy (held tb)
  | .full _ _ tb => tb = q.tailBlock ∧ Spent q live held ∧ (q.blocks tb).sizeMask ≤ peak
  | .takeNext _ tb => tb = q.tailBlock ∧ Spent q live held ∧ spare ≠ []
  | .constructNext _ nb nbt =>
      spare.head? = some nb ∧ nbt = (q.blocks nb).tail ∧ (q.blocks nb).Roomy [] ∧ Spent q live held
  | .publishNext _ nb nbt => spare.head? = some nb ∧ nbt = (q.blocks nb).tail ∧ Spent q live held
  | .allocate _ tb => tb = q.tailBlock ∧ Spent q live held ∧ need ≤ peak
  | .link x tb nb => tb = q.tailBlock ∧ Spent q live held ∧ (q.blocks nb).Holds false none [x] ∧
      (q.blocks nb).next = (q.blocks tb).next
  | .advance _ nb => spare.head? = some nb ∧ Spent q live held

/-- The first element of the block is the first one of the queue. -/
def Leading (live : List Nat) (held : Nat → List α) (b : Nat) : Prop :=
  held b ≠ [] ∧ ∃ before after, live = before ++ b :: after ∧ ∀ a ∈ before, held a = []

/-- What the consumer knows at each point of `try_dequeue`, `pop` or `peek`. -/
def Consumer.Facts (q : ReaderWriterQueue α) (live : List Nat) (held : Nat → List α) (sawEmpty : Bool)
    (contents dequeued : List α) : Consumer α → Prop
  | .idle | .enter _ => True
  | .checkTail _ fb bf => fb = q.frontBlock ∧ bf = (q.blocks fb).front
  | .checkTailBlock _ fb => fb = q.frontBlock ∧ (live.length = 1 → sawEmpty)
  | .recheck _ => 2 ≤ live.length
  | .loadNext _ fb => fb = q.frontBlock ∧ 2 ≤ live.length ∧ held fb = []
  | .loadNextTail _ nb => held q.frontBlock = [] ∧ ∃ rest, live = q.frontBlock :: nb :: rest
  | .moveFront op nb nf => op ≠ .peek ∧ held q.frontBlock = [] ∧ (∃ rest, live = q.frontBlock :: nb :: rest) ∧
      nf = (q.blocks nb).front ∧ nf ≠ (q.blocks nb).localTail
  | .take op fb bf => op ≠ .peek ∧ fb = q.frontBlock ∧ bf = (q.blocks fb).front ∧ bf ≠ (q.blocks fb).localTail
  | .look fb bf => bf = (q.blocks fb).front ∧ Leading live held fb
  | .storeFront op fb bf x => op ≠ .peek ∧ fb = q.frontBlock ∧ bf = (q.blocks fb).front ∧ ∃ xs, held fb = x :: xs
  | .done _ none => sawEmpty
  | .done .peek (some x) => contents.head? = some x
  | .done _ (some x) => dequeued.getLast? = some x

section Rely

variable {need peak peak' : Nat} {q q' : ReaderWriterQueue α} {p p' : Producer α} {c c' : Consumer α}
  {live live' spare spare' : List Nat} {held held' : Nat → List α} {sawEmpty : Bool} {contents dequeued : List α} {b : Nat}

/-- What a step of the consumer may do. -/
structure ByConsumer (q q' : ReaderWriterQueue α) (live live' spare spare' : List Nat) (held held' : Nat → List α) :
    Prop where
  tailBlock : q'.tailBlock = q.tailBlock
  tail : ∀ b, (q'.blocks b).tail = (q.blocks b).tail
  next : ∀ b, (q'.blocks b).next = (q.blocks b).next
  sizeMask : ∀ b, (q'.blocks b).sizeMask = (q.blocks b).sizeMask
  away : ∀ b, b ∉ live → q'.blocks b = q.blocks b ∧ held' b = held b
  freed : ∃ more, spare' = spare ++ more
  roomy : (q.blocks q.tailBlock).Roomy (held q.tailBlock) → (q'.blocks q.tailBlock).Roomy (held' q.tailBlock)
  spent : Spent q live held → Spent q' live' held'

/-- What a step of the producer may do. -/
structure ByProducer (q q' : ReaderWriterQueue α) (live live' : List Nat) (held held' : Nat → List α) : Prop where
  frontBlock : q'.frontBlock = q.frontBlock
  front : ∀ b ∈ live, (q'.blocks b).front = (q.blocks b).front
  localTail : ∀ b ∈ live, (q'.blocks b).localTail = (q.blocks b).localTail
  grown : ∃ more, live' = live ++ more
  longer : ∀ b ∈ live, ∃ more, held' b = held b ++ more
  quiet : ∀ b ∈ live, b ≠ q.tailBlock → held' b = held b

theorem head?_append_of_some {l more : List Nat} (h : l.head? = some b) : (l ++ more).head? = some b := by
  rw [List.head?_append, h, Option.some_or]

/-- **The producer's facts are stable** under the steps of the consumer. -/
theorem Producer.Facts.stable (h : p.Facts need q live spare held peak)
    (hc : ByConsumer q q' live live' spare spare' held held') (hl : Layout q p c live spare held)
    (hpeak : peak ≤ peak') : p.Facts need q' live' spare' held' peak' := by
  obtain ⟨more, hmore⟩ := hc.freed
  have hout : ∀ nb, spare.head? = some nb → nb ∉ live := by
    intro nb hnb hm
    exact hl.not_mem_spare hm (List.mem_of_head? hnb)
  cases p with
  | idle | enter x mode => trivial
  | done r =>
      cases r with
      | true => trivial
      | false => exact le_trans h hpeak
  | checkFront x mode tb bt | publish x tb bt =>
      obtain ⟨rfl, rfl⟩ := h
      exact ⟨hc.tailBlock.symm, (hc.tail _).symm⟩
  | construct x tb bt =>
      obtain ⟨rfl, rfl, hroom⟩ := h
      exact ⟨hc.tailBlock.symm, (hc.tail _).symm, hc.roomy hroom⟩
  | full x mode tb =>
      obtain ⟨rfl, hspent, hmask⟩ := h
      refine ⟨hc.tailBlock.symm, hc.spent hspent, ?_⟩
      rw [hc.sizeMask]
      exact hmask.trans hpeak
  | takeNext x tb =>
      obtain ⟨rfl, hspent, hne⟩ := h
      refine ⟨hc.tailBlock.symm, hc.spent hspent, ?_⟩
      rw [hmore]
      exact List.append_ne_nil_of_left_ne_nil hne _
  | constructNext x nb nbt =>
      obtain ⟨hnb, rfl, hroom, hspent⟩ := h
      obtain ⟨hblk, -⟩ := hc.away nb (hout nb hnb)
      refine ⟨by rw [hmore]; exact head?_append_of_some hnb, (hc.tail _).symm, ?_, hc.spent hspent⟩
      rwa [hblk]
  | publishNext x nb nbt =>
      obtain ⟨hnb, rfl, hspent⟩ := h
      exact ⟨by rw [hmore]; exact head?_append_of_some hnb, (hc.tail _).symm, hc.spent hspent⟩
  | allocate x tb =>
      obtain ⟨rfl, hspent, hneed⟩ := h
      exact ⟨hc.tailBlock.symm, hc.spent hspent, hneed.trans hpeak⟩
  | link x tb nb =>
      obtain ⟨rfl, hspent, hblk, hnext⟩ := h
      have hnb : nb ∉ live := fun hm => hl.not_mem_unlinked (List.mem_append_left _ hm) (List.mem_singleton.mpr rfl)
      refine ⟨hc.tailBlock.symm, hc.spent hspent, ?_, ?_⟩
      · rw [(hc.away nb hnb).1]
        exact hblk
      · rw [hc.next, hc.next, hnext]
  | advance x nb =>
      obtain ⟨hnb, hspent⟩ := h
      exact ⟨by rw [hmore]; exact head?_append_of_some hnb, hc.spent hspent⟩

theorem Leading.stable (h : Leading live held b) (hp : ByProducer q q' live live' held held')
    (hl : Layout q p c live spare held) : Leading live' held' b := by
  obtain ⟨hne, before, after, hlive, hbefore⟩ := h
  obtain ⟨more, hmore⟩ := hp.grown
  have hmem : b ∈ live := by
    rw [hlive]
    simp
  refine ⟨?_, before, after ++ more, ?_, fun a ha => ?_⟩
  · obtain ⟨ys, hys⟩ := hp.longer b hmem
    rw [hys]
    exact List.append_ne_nil_of_left_ne_nil hne _
  · rw [hmore, hlive, List.append_assoc, List.cons_append]
  · -- the tail block is not before `b`
    have ha' : a ∈ live := by
      rw [hlive]
      exact List.mem_append_left _ ha
    rw [hp.quiet a ha', hbefore a ha]
    rintro rfl
    have hlast := hl.last
    have hnd : live.Nodup := (List.nodup_append.mp hl.nodup).1
    rw [hlive, List.getLast?_append_of_ne_nil _ (by simp)] at hlast
    rw [hlive] at hnd
    exact (List.nodup_append.mp hnd).2.2 _ ha _ (List.mem_of_getLast? hlast) rfl

/-- **The consumer's facts are stable** under the steps of the producer. -/
theorem Consumer.Facts.stable (h : c.Facts q live held sawEmpty contents dequeued)
    (hp : ByProducer q q' live live' held held') (hl : Layout q p c live spare held) (more : List α) :
    c.Facts q' live' held' sawEmpty (contents ++ more) dequeued := by
  obtain ⟨blocks, hlive⟩ := hp.grown
  have hfront := hl.front_mem
  -- the producer fills the tail block only: another block that is empty stays empty
  have hquiet : 2 ≤ live.length → held q.frontBlock = [] → held' q.frontBlock = [] := by
    intro htwo hempty
    rw [hp.quiet _ hfront (hl.front_ne_tail.mpr htwo), hempty]
  cases c with
  | idle | enter op => trivial
  | checkTail op fb bf =>
      obtain ⟨rfl, rfl⟩ := h
      exact ⟨hp.frontBlock.symm, (hp.front _ hfront).symm⟩
  | checkTailBlock op fb =>
      obtain ⟨rfl, hsaw⟩ := h
      refine ⟨hp.frontBlock.symm, fun hone => hsaw ?_⟩
      have hpos := List.length_pos_of_mem hfront
      rw [hlive, List.length_append] at hone
      omega
  | recheck op =>
      have htwo : 2 ≤ live.length := h
      show 2 ≤ live'.length
      rw [hlive, List.length_append]
      omega
  | loadNext op fb =>
      obtain ⟨rfl, htwo, hempty⟩ := h
      refine ⟨hp.frontBlock.symm, ?_, hquiet htwo hempty⟩
      rw [hlive, List.length_append]
      omega
  | loadNextTail op nb =>
      obtain ⟨hempty, rest, hrest⟩ := h
      refine ⟨?_, rest ++ blocks, ?_⟩
      · rw [hp.frontBlock]
        exact hquiet (by rw [hrest]; simp) hempty
      · rw [hp.frontBlock, hlive, hrest, List.cons_append, List.cons_append]
  | moveFront op nb nf =>
      obtain ⟨hop, hempty, ⟨rest, hrest⟩, rfl, hne⟩ := h
      have hnb : nb ∈ live := by
        rw [hrest]
        simp
      refine ⟨hop, ?_, ⟨rest ++ blocks, ?_⟩, (hp.front nb hnb).symm, ?_⟩
      · rw [hp.frontBlock]
        exact hquiet (by rw [hrest]; simp) hempty
      · rw [hp.frontBlock, hlive, hrest, List.cons_append, List.cons_append]
      · rwa [hp.localTail nb hnb]
  | take op fb bf =>
      obtain ⟨hop, rfl, rfl, hne⟩ := h
      refine ⟨hop, hp.frontBlock.symm, (hp.front _ hfront).symm, ?_⟩
      rwa [hp.localTail _ hfront]
  | look fb bf =>
      obtain ⟨rfl, hlead⟩ := h
      have hmem : fb ∈ live := by
        obtain ⟨-, before, after, hsplit, -⟩ := hlead
        rw [hsplit]
        simp
      exact ⟨(hp.front fb hmem).symm, hlead.stable hp hl⟩
  | storeFront op fb bf x =>
      obtain ⟨hop, rfl, rfl, xs, hxs⟩ := h
      obtain ⟨ys, hys⟩ := hp.longer _ hfront
      refine ⟨hop, hp.frontBlock.symm, (hp.front _ hfront).symm, xs ++ ys, ?_⟩
      rw [hys, hxs, List.cons_append]
  | done op r =>
      cases r with
      | none => exact h
      | some x =>
          cases op with
          | tryDequeue | pop => exact h
          | peek =>
              show (contents ++ more).head? = some x
              have hhead : contents.head? = some x := h
              rw [List.head?_append, hhead, Option.some_or]

/-! ### The steps that change one block -/

theorem flatMap_update {l : List Nat} {f : Nat → List α} (hb : b ∉ l) (xs : List α) :
    l.flatMap (Function.update f b xs) = l.flatMap f := by
  refine List.flatMap_congr fun a ha => ?_
  refine Function.update_of_ne ?_ _ _
  rintro rfl
  exact hb ha

theorem length_le_flatMap {l : List Nat} (f : Nat → List α) (hb : b ∈ l) : (f b).length ≤ (l.flatMap f).length := by
  rw [List.flatMap_def]
  exact (List.sublist_flatten_of_mem (List.mem_map_of_mem hb)).length_le

theorem ByProducer.refl (q : ReaderWriterQueue α) (live : List Nat) (held : Nat → List α) :
    ByProducer q q live live held held where
  frontBlock := rfl
  front := fun _ _ => rfl
  localTail := fun _ _ => rfl
  grown := ⟨[], by simp⟩
  longer := fun _ _ => ⟨[], by simp⟩
  quiet := fun _ _ _ => rfl

theorem ByProducer.set (live : List Nat) (held : Nat → List α) {blk : Block α} {xs : List α} (hfront : blk.front = (q.blocks b).front)
    (htail : blk.localTail = (q.blocks b).localTail) (hlonger : ∃ more, xs = held b ++ more)
    (hquiet : b ∈ live → b ≠ q.tailBlock → xs = held b) :
    ByProducer q (q.set b blk) live live held (Function.update held b xs) where
  frontBlock := rfl
  front := by
    intro a _
    by_cases he : a = b
    · subst he
      rw [q.set_self, hfront]
    · rw [q.set_of_ne b blk he]
  localTail := by
    intro a _
    by_cases he : a = b
    · subst he
      rw [q.set_self, htail]
    · rw [q.set_of_ne b blk he]
  grown := ⟨[], by simp⟩
  longer := by
    intro a _
    by_cases he : a = b
    · subst he
      rw [Function.update_self]
      exact hlonger
    · rw [Function.update_of_ne he]
      exact ⟨[], by simp⟩
  quiet := by
    intro a ha hne
    by_cases he : a = b
    · subst he
      rw [Function.update_self]
      exact hquiet ha hne
    · rw [Function.update_of_ne he]

theorem ByProducer.store (live : List Nat) (held : Nat → List α) {blk : Block α} (hfront : blk.front = (q.blocks b).front)
    (htail : blk.localTail = (q.blocks b).localTail) : ByProducer q (q.set b blk) live live held held := by
  have hset := ByProducer.set live held hfront htail ⟨[], by simp⟩ fun _ _ => rfl
  rwa [Function.update_eq_self] at hset

theorem ByConsumer.refl (q : ReaderWriterQueue α) (live spare : List Nat) (held : Nat → List α) :
    ByConsumer q q live live spare spare held held where
  tailBlock := rfl
  tail := fun _ => rfl
  next := fun _ => rfl
  sizeMask := fun _ => rfl
  away := fun _ _ => ⟨rfl, rfl⟩
  freed := ⟨[], by simp⟩
  roomy := id
  spent := id

theorem ByConsumer.set (spare : List Nat) (held : Nat → List α) (xs : List α) {blk : Block α} (hb : b ∈ live) (htail : blk.tail = (q.blocks b).tail)
    (hnext : blk.next = (q.blocks b).next) (hmask : blk.sizeMask = (q.blocks b).sizeMask)
    (hroomy : (q.blocks b).Roomy (held b) → blk.Roomy xs)
    (hspent : live.length = 1 ∨ b ≠ q.tailBlock ∨ xs = held b) :
    ByConsumer q (q.set b blk) live live spare spare held (Function.update held b xs) := by
  have hmasks : ∀ a, ((q.set b blk).blocks a).sizeMask = (q.blocks a).sizeMask := by
    intro a
    by_cases he : a = b
    · subst he
      rw [q.set_self, hmask]
    · rw [q.set_of_ne b blk he]
  refine ⟨rfl, fun a => ?_, fun a => ?_, hmasks, fun a ha => ?_, ⟨[], by simp⟩, ?_, ?_⟩
  · by_cases he : a = b
    · subst he
      rw [q.set_self, htail]
    · rw [q.set_of_ne b blk he]
  · by_cases he : a = b
    · subst he
      rw [q.set_self, hnext]
    · rw [q.set_of_ne b blk he]
  · have hne : a ≠ b := by
      rintro rfl
      exact ha hb
    exact ⟨q.set_of_ne b blk hne, Function.update_of_ne hne _ _⟩
  · by_cases he : q.tailBlock = b
    · rw [he, q.set_self, Function.update_self]
      exact hroomy
    · rw [q.set_of_ne b blk he, Function.update_of_ne he]
      exact id
  · rintro (hone | hfull)
    · exact Or.inl hone
    · rcases hspent with hone | hne | hsame
      · exact Or.inl hone
      · refine Or.inr ?_
        rw [hmasks, q.set_tailBlock, Function.update_of_ne hne.symm]
        exact hfull
      · refine Or.inr ?_
        rw [hmasks, hsame, q.set_tailBlock, Function.update_eq_self]
        exact hfull

theorem ByConsumer.store {blk : Block α} (hb : b ∈ live) (hfront : blk.front = (q.blocks b).front)
    (hlocal : blk.localFront = (q.blocks b).localFront) (htail : blk.tail = (q.blocks b).tail)
    (hnext : blk.next = (q.blocks b).next) (hmask : blk.sizeMask = (q.blocks b).sizeMask) :
    ByConsumer q (q.set b blk) live live spare spare held held := by
  have hset := ByConsumer.set spare held (held b) hb htail hnext hmask
    (fun hroom => by
      unfold Block.Roomy Block.size at hroom ⊢
      rwa [hfront, hlocal, hmask])
    (Or.inr (Or.inr rfl))
  rwa [Function.update_eq_self] at hset

end Rely

/-! ## The invariant -/

/-- What holds between two steps, for a layout of the memory. -/
structure At (need : Nat) (s : System α) (live spare : List Nat) (held : Nat → List α) : Prop where
  layout : Layout s.queue s.producer s.consumer live spare held
  capacity : Capacity need s.queue
  produced : s.producer.Facts need s.queue live spare held s.peak
  consumed : s.consumer.Facts s.queue live held s.sawEmpty (live.flatMap held) s.dequeued
  flow : s.enqueued = s.dequeued ++ live.flatMap held
  sound : s.fault = none

/-- The invariant. -/
structure Inv (need : Nat) (s : System α) : Prop where
  laid : ∃ live spare held, At need s live spare held
  seen : s.size = 0 → s.sawEmpty
  top : s.size ≤ s.peak

section Steps

variable {need maxBlock : Nat} {memory : Bool} {s : System α} {q' : ReaderWriterQueue α} {p' : Producer α}
  {c' : Consumer α} {live live' spare spare' : List Nat} {held held' : Nat → List α} {xs : List α}

theorem At.size_eq (h : At need s live spare held) : s.size = (live.flatMap held).length := by
  rw [System.size, h.flow, List.length_append, Nat.add_sub_cancel_left]

/-- **A step of the producer.** The consumer still knows what it knew. -/
theorem At.byProducer (xs : List α) (h : At need s live spare held) (hby : ByProducer s.queue q' live live' held held')
    (hlayout : Layout q' p' s.consumer live' spare' held') (hcap : Capacity need q')
    (hfacts : p'.Facts need q' live' spare' held' s.peak)
    (hflow : live'.flatMap held' = live.flatMap held ++ xs) :
    At need { s with queue := q', producer := p', enqueued := s.enqueued ++ xs } live' spare' held' where
  layout := hlayout
  capacity := hcap
  produced := hfacts
  consumed := by
    rw [hflow]
    exact h.consumed.stable hby h.layout xs
  flow := by
    show s.enqueued ++ xs = s.dequeued ++ live'.flatMap held'
    rw [hflow, h.flow, List.append_assoc]
  sound := h.sound

/-- One that puts no element in. -/
theorem At.byProducer_quiet (h : At need s live spare held) (hby : ByProducer s.queue q' live live' held held')
    (hlayout : Layout q' p' s.consumer live' spare' held') (hcap : Capacity need q')
    (hfacts : p'.Facts need q' live' spare' held' s.peak) (hflow : live'.flatMap held' = live.flatMap held) :
    At need { s with queue := q', producer := p' } live' spare' held' := by
  have hstep := h.byProducer [] hby hlayout hcap hfacts (by rw [hflow, List.append_nil])
  simpa only [List.append_nil] using hstep

/-- **A step of the consumer.** The producer still knows what it knew. -/
theorem At.byConsumer (xs : List α) (h : At need s live spare held)
    (hby : ByConsumer s.queue q' live live' spare spare' held held') (hlayout : Layout q' s.producer c' live' spare' held') (hcap : Capacity need q')
    (hfacts : c'.Facts q' live' held' s.sawEmpty (live'.flatMap held') (s.dequeued ++ xs))
    (hflow : live.flatMap held = xs ++ live'.flatMap held') :
    At need { s with queue := q', consumer := c', dequeued := s.dequeued ++ xs } live' spare' held' where
  layout := hlayout
  capacity := hcap
  produced := h.produced.stable hby h.layout (Nat.le_refl _)
  consumed := hfacts
  flow := by
    show s.enqueued = s.dequeued ++ xs ++ live'.flatMap held'
    rw [h.flow, hflow, List.append_assoc]
  sound := h.sound

/-- One that takes no element out. -/
theorem At.byConsumer_quiet (h : At need s live spare held)
    (hby : ByConsumer s.queue q' live live' spare spare' held held')
    (hlayout : Layout q' s.producer c' live' spare' held') (hcap : Capacity need q')
    (hfacts : c'.Facts q' live' held' s.sawEmpty (live'.flatMap held') s.dequeued)
    (hflow : live'.flatMap held' = live.flatMap held) :
    At need { s with queue := q', consumer := c' } live' spare' held' := by
  have hstep := h.byConsumer [] hby hlayout hcap (by rw [List.append_nil]; exact hfacts)
    (by rw [hflow, List.nil_append])
  simpa only [List.append_nil] using hstep

theorem Capacity.set {q : ReaderWriterQueue α} {b : Nat} {blk : Block α} (h : Capacity need q)
    (hmask : blk.sizeMask = (q.blocks b).sizeMask) : Capacity need (q.set b blk) := by
  refine h.congr rfl rfl fun a => ?_
  by_cases he : a = b
  · subst he
    rw [q.set_self, hmask]
  · rw [q.set_of_ne b blk he]

end Steps
end MqttServer.Moodycamel
