import MqttServer.Lib.Ring
import MqttServer.Lib.Run

/-!
# `Common.ReaderWriterQueue` — the lock-free queue between two threads

`moodycamel::ReaderWriterQueue` hands elements from one producer thread to one consumer thread without a lock. It is
a circular list of blocks, each of them a circular buffer with one cell to spare. The producer owns the tails, the
consumer owns the fronts, and each keeps a copy of what the other owns that it renews only when it has to.

A thread is a program counter with the local variables of the function it is in. Each load or store of a variable
that the other thread may write or read is one step, and so is the construction and the destruction of an element;
what a thread reads of its own variables belongs to the step that follows. The steps of the two threads interleave in
any way. The fences of the source order the accesses of a thread as the program has them, so a step sees the memory
that the steps before it left.
-/

namespace MqttServer.Moodycamel

open Lib

variable {α : Type}

/-! ## Blocks -/

/-- A null `Block*`; the blocks are numbered from one on, in the order of their allocation. -/
def nullptr : Nat := 0

/-- `struct Block`. A cell of `data` is `none` while it is raw memory. -/
structure Block (α : Type) where
  front : Nat := 0
  localTail : Nat := 0
  tail : Nat := 0
  localFront : Nat := 0
  next : Nat := nullptr
  data : Nat → Option α := fun _ => none
  sizeMask : Nat

/-- `make_block`, when `malloc` has succeeded. Its argument `sizeof(Block) + sizeof(T) * capacity`, with what the alignment adds,
    is taken to fit a `size_t`. -/
def makeBlock (capacity : Nat) : Block α := { sizeMask := (capacity + (2 ^ 64 - 1)) % 2 ^ 64 }

/-- The index after `i`. -/
def Block.after (blk : Block α) (i : Nat) : Nat := (i + 1) &&& blk.sizeMask

/-- The member variables of the queue, and the heap its blocks live in. -/
structure ReaderWriterQueue (α : Type) where
  blocks : Nat → Block α
  made : Nat
  frontBlock : Nat
  tailBlock : Nat
  largestBlockSize : Nat

namespace ReaderWriterQueue

/-- A store into a block. -/
def set (q : ReaderWriterQueue α) (b : Nat) (blk : Block α) : ReaderWriterQueue α :=
  { q with blocks := Function.update q.blocks b blk }

section Set

variable (q : ReaderWriterQueue α) (b : Nat) (blk : Block α)

@[simp] theorem set_self : (q.set b blk).blocks b = blk := Function.update_self ..

theorem set_of_ne {a : Nat} (h : a ≠ b) : (q.set b blk).blocks a = q.blocks a := Function.update_of_ne h ..

@[simp] theorem set_made : (q.set b blk).made = q.made := rfl

@[simp] theorem set_frontBlock : (q.set b blk).frontBlock = q.frontBlock := rfl

@[simp] theorem set_tailBlock : (q.set b blk).tailBlock = q.tailBlock := rfl

end Set

/-- `ceilToPow2`. -/
def ceilToPow2 (x : Nat) : Nat :=
  let x := (x + (2 ^ 64 - 1)) % 2 ^ 64
  let x := x ||| x >>> 1
  let x := x ||| x >>> 2
  let x := x ||| x >>> 4
  let x := [1, 2, 4].foldl (fun x i => x ||| x >>> (i <<< 3)) x
  (x + 1) % 2 ^ 64

/-- The variables of the constructor's loop: `firstBlock`, `lastBlock`, and the heap. -/
structure Building (α : Type) where
  blocks : Nat → Block α := fun _ => makeBlock 1
  made : Nat := 0
  firstBlock : Nat := nullptr
  lastBlock : Nat := nullptr

/-- One turn of that loop. -/
def Building.add (size : Nat) (st : Building α) : Building α :=
  let block := st.made + 1
  let blocks := Function.update st.blocks block (makeBlock size)
  let firstBlock := if st.firstBlock = nullptr then block else st.firstBlock
  let blocks := if st.firstBlock = nullptr then blocks
    else Function.update blocks st.lastBlock { blocks st.lastBlock with next := block }
  { blocks := Function.update blocks block { blocks block with next := firstBlock }
    made := block, firstBlock := firstBlock, lastBlock := block }

/-- How many blocks the constructor makes and how large. -/
def initialBlocks (maxBlock maxSize : Nat) : Nat × Nat :=
  let largestBlockSize := ceilToPow2 (maxSize + 1)
  if largestBlockSize > maxBlock * 2 then ((maxSize + maxBlock * 2 - 3) / (maxBlock - 1), maxBlock)
  else (1, largestBlockSize)

/-- The constructor. `maxBlock` is the template parameter `MAX_BLOCK_SIZE`. -/
def make (maxBlock maxSize : Nat) : ReaderWriterQueue α :=
  let initial := initialBlocks maxBlock maxSize
  let st := (List.range initial.1).foldl (fun st _ => st.add initial.2) ({} : Building α)
  { blocks := st.blocks, made := st.made, frontBlock := st.firstBlock, tailBlock := st.firstBlock
    largestBlockSize := initial.2 }

/-! ## Walks over the whole queue -/

/-- The blocks that the loops of the destructor and of `size_approx` visit. -/
def visited (q : ReaderWriterQueue α) : List Nat :=
  walk (fun b => (q.blocks b).next) q.frontBlock q.made q.frontBlock

end ReaderWriterQueue

/-- The inner loop of the destructor, from an index on. -/
def Block.destroyed (blk : Block α) : Nat → Nat → List (Option α)
  | 0, _ => []
  | fuel + 1, i => if i = blk.tail then [] else blk.data i :: blk.destroyed fuel (blk.after i)

namespace ReaderWriterQueue

/-- `~ReaderWriterQueue`: the cells whose element is destroyed; the blocks that are freed are those `visited`. -/
def destroyed (q : ReaderWriterQueue α) : List (Option α) :=
  q.visited.flatMap fun b => (q.blocks b).destroyed ((q.blocks b).sizeMask + 1) (q.blocks b).front

/-- `size_approx`. The difference is one of `size_t`. -/
def sizeApprox (q : ReaderWriterQueue α) : Nat :=
  (q.visited.map fun b =>
    (((q.blocks b).tail + 2 ^ 64 - (q.blocks b).front) % 2 ^ 64) &&& (q.blocks b).sizeMask).sum

end ReaderWriterQueue

/-! ## The producer -/

/-- `AllocationMode`. -/
inductive AllocationMode where
  | canAlloc
  | cannotAlloc
  deriving DecidableEq

/-- Where the producer is in `inner_enqueue`, with its local variables: `tb` is `tailBlock_`, `bt` is `blockTail`, `nb`
    and `nbt` are the block after it or the new one, and its tail. -/
inductive Producer (α : Type) where
  | idle
  | enter (x : α) (mode : AllocationMode)
  | checkFront (x : α) (mode : AllocationMode) (tb bt : Nat)
  | construct (x : α) (tb bt : Nat)
  | publish (x : α) (tb bt : Nat)
  | full (x : α) (mode : AllocationMode) (tb : Nat)
  | takeNext (x : α) (tb : Nat)
  | constructNext (x : α) (nb nbt : Nat)
  | publishNext (x : α) (nb nbt : Nat)
  | allocate (x : α) (tb : Nat)
  | link (x : α) (tb nb : Nat)
  | advance (x : α) (nb : Nat)
  | done (r : Bool)

/-- The producer is in no call. -/
def Producer.resting : Producer α → Bool
  | .idle | .done _ => true
  | _ => false

/-! ## The consumer -/

/-- The functions of the consumer. -/
inductive Op where
  | tryDequeue
  | pop
  | peek
  deriving DecidableEq

/-- Where the consumer is in one of them: `fb` is `frontBlock_`, `bf` is `blockFront`, `nb` and `nf` are `nextBlock` and
    its front. Its result is what `try_dequeue` has moved out, `pop` has destroyed or `peek` points to. -/
inductive Consumer (α : Type) where
  | idle
  | enter (op : Op)
  | checkTail (op : Op) (fb bf : Nat)
  | checkTailBlock (op : Op) (fb : Nat)
  | recheck (op : Op)
  | loadNext (op : Op) (fb : Nat)
  | loadNextTail (op : Op) (nb : Nat)
  | moveFront (op : Op) (nb nf : Nat)
  | take (op : Op) (fb bf : Nat)
  | look (fb bf : Nat)
  | storeFront (op : Op) (fb bf : Nat) (x : α)
  | done (op : Op) (r : Option α)

def Consumer.resting : Consumer α → Bool
  | .idle | .done _ _ => true
  | _ => false

/-- The label `non_empty_front_block`. -/
def Op.arrive (op : Op) (b i : Nat) : Consumer α := if op = .peek then .look b i else .take op b i

/-! ## The two threads -/

/-- What must not happen: an element is constructed over another one, raw memory is read as an element, or an `assert`
    fails. -/
inductive Fault where
  | overwrite
  | raw
  | assertion
  deriving DecidableEq

/-- The queue, the two threads, and a record of what happened: the elements that were enqueued and dequeued, whether
    the queue has been empty since the consumer's last call began, and how many elements it held at most since the
    producer's last call did. -/
structure System (α : Type) where
  queue : ReaderWriterQueue α
  producer : Producer α := .idle
  consumer : Consumer α := .idle
  fault : Option Fault := none
  enqueued : List α := []
  dequeued : List α := []
  sawEmpty : Bool := true
  peak : Nat := 0

namespace System

/-- How many elements the queue holds. -/
def size (s : System α) : Nat := s.enqueued.length - s.dequeued.length

def observe (s : System α) : System α :=
  { s with sawEmpty := s.sawEmpty || s.size == 0, peak := max s.peak s.size }

/-- A step of the producer in `inner_enqueue`. `memory` says whether `malloc` succeeds, in the step that calls it. -/
def produce (maxBlock : Nat) (memory : Bool) (s : System α) : System α :=
  let q := s.queue
  match s.producer with
  | .idle | .done _ => s
  | .enter x mode =>
      let tb := q.tailBlock
      let blk := q.blocks tb
      if blk.after blk.tail ≠ blk.localFront then { s with producer := .construct x tb blk.tail }
      else { s with producer := .checkFront x mode tb blk.tail }
  | .checkFront x mode tb bt =>
      let blk := { q.blocks tb with localFront := (q.blocks tb).front }
      let q := q.set tb blk
      if blk.after bt ≠ blk.localFront then { s with queue := q, producer := .construct x tb bt }
      else { s with queue := q, producer := .full x mode tb }
  | .construct x tb bt =>
      let blk := q.blocks tb
      if (blk.data bt).isSome then { s with fault := some .overwrite }
      else { s with queue := q.set tb { blk with data := Function.update blk.data bt (some x) }
                    producer := .publish x tb bt }
  | .publish x tb bt =>
      let blk := q.blocks tb
      { s with queue := q.set tb { blk with tail := blk.after bt }
               producer := .done true, enqueued := s.enqueued ++ [x] }
  | .full x mode tb =>
      if (q.blocks tb).next ≠ q.frontBlock then { s with producer := .takeNext x tb }
      else match mode with
        | .canAlloc => { s with producer := .allocate x tb }
        | .cannotAlloc => { s with producer := .done false }
  | .takeNext x tb =>
      let nb := (q.blocks tb).next
      let blk : Block α := { q.blocks nb with localFront := (q.blocks nb).front }
      if blk.localFront ≠ blk.tail then { s with fault := some .assertion }
      else { s with queue := q.set nb blk, producer := .constructNext x nb blk.tail }
  | .constructNext x nb nbt =>
      let blk := q.blocks nb
      if (blk.data nbt).isSome then { s with fault := some .overwrite }
      else { s with queue := q.set nb { blk with data := Function.update blk.data nbt (some x) }
                    producer := .publishNext x nb nbt }
  | .publishNext x nb nbt =>
      let blk := q.blocks nb
      { s with queue := q.set nb { blk with tail := blk.after nbt }, producer := .advance x nb }
  | .allocate x tb =>
      let newBlockSize := if q.largestBlockSize ≥ maxBlock then q.largestBlockSize else q.largestBlockSize * 2
      if memory then
        -- the new block is private until it is linked, so all that is written into it is one step
        let nb := q.made + 1
        let blk := makeBlock newBlockSize
        let blk := { blk with data := Function.update blk.data 0 (some x), tail := 1, localTail := 1
                              next := (q.blocks tb).next }
        { s with queue := { q.set nb blk with made := nb, largestBlockSize := newBlockSize }
                 producer := .link x tb nb }
      else { s with producer := .done false }
  | .link x tb nb =>
      { s with queue := q.set tb { q.blocks tb with next := nb }, producer := .advance x nb }
  | .advance x nb =>
      { s with queue := { q with tailBlock := nb }, producer := .done true, enqueued := s.enqueued ++ [x] }

/-- A step of the consumer in `try_dequeue`, `pop` or `peek`. -/
def consume (s : System α) : System α :=
  let q := s.queue
  match s.consumer with
  | .idle | .done _ _ => s
  | .enter op =>
      let fb := q.frontBlock
      let blk := q.blocks fb
      if blk.front ≠ blk.localTail then { s with consumer := op.arrive fb blk.front }
      else { s with consumer := .checkTail op fb blk.front }
  | .checkTail op fb bf =>
      let blk := { q.blocks fb with localTail := (q.blocks fb).tail }
      let q := q.set fb blk
      if bf ≠ blk.localTail then { s with queue := q, consumer := op.arrive fb bf }
      else { s with queue := q, consumer := .checkTailBlock op fb }
  | .checkTailBlock op fb =>
      if fb ≠ q.tailBlock then { s with consumer := .recheck op } else { s with consumer := .done op none }
  | .recheck op =>
      let fb := q.frontBlock
      let blk := { q.blocks fb with localTail := (q.blocks fb).tail }
      let q := q.set fb blk
      if blk.front ≠ blk.localTail then { s with queue := q, consumer := op.arrive fb blk.front }
      else { s with queue := q, consumer := .loadNext op fb }
  | .loadNext op fb => { s with consumer := .loadNextTail op (q.blocks fb).next }
  | .loadNextTail op nb =>
      let blk := q.blocks nb
      if blk.front = blk.tail then { s with fault := some .assertion }
      -- `peek` neither keeps the tail nor moves on
      else if op = .peek then { s with consumer := .look nb blk.front }
      else { s with queue := q.set nb { blk with localTail := blk.tail }
                    consumer := .moveFront op nb blk.front }
  | .moveFront op nb nf => { s with queue := { q with frontBlock := nb }, consumer := .take op nb nf }
  | .take op fb bf =>
      let blk := q.blocks fb
      match blk.data bf with
      | none => { s with fault := some .raw }
      | some x => { s with queue := q.set fb { blk with data := Function.update blk.data bf none }
                           consumer := .storeFront op fb bf x }
  | .look fb bf =>
      match (q.blocks fb).data bf with
      | none => { s with fault := some .raw }
      | some x => { s with consumer := .done .peek (some x) }
  | .storeFront op fb bf x =>
      let blk := q.blocks fb
      { s with queue := q.set fb { blk with front := blk.after bf }
               consumer := .done op (some x), dequeued := s.dequeued ++ [x] }

end System

/-- Who makes a step, and what is called: the producer's `enqueue` or `try_enqueue`, a function of the consumer, or
    the next step of either. -/
inductive Action (α : Type) where
  | enqueue (x : α) (mode : AllocationMode)
  | produce (memory : Bool)
  | dequeue (op : Op)
  | consume

/-- One step. A thread that is in a call makes no other. -/
def System.step (maxBlock : Nat) (s : System α) : Action α → System α
  | .enqueue x mode =>
      if s.producer.resting then { s with producer := .enter x mode, peak := 0 }.observe else s
  | .produce memory => (s.produce maxBlock memory).observe
  | .dequeue op =>
      if s.consumer.resting then { s with consumer := .enter op, sawEmpty := false }.observe else s
  | .consume => s.consume.observe

/-- A new queue, with no thread in it. -/
def System.start (maxBlock maxSize : Nat) : System α := { queue := .make maxBlock maxSize }

end MqttServer.Moodycamel
