import MqttServer.Common.Fifo
import MqttServer.Common.TimerFile

/-!
# `Common.ThreadRecord` — the thread that writes the records

`CRecordThread` of `common/thread_record.hpp` takes messages from the reactor thread through the lock-free queue and writes
them to files in a thread of its own. `put_msg` does not look at what `enqueue` returns. The thread asks the queue for
messages until it has none, and only then looks at `m_running_flag`; after that it deletes the queue.

So as long as nothing goes wrong on the disk, what the files hold is a prefix of what was put, and what is put is in the
files after so many steps of the thread (`record_written`). When `stop` is called, the messages are lost that were put after
the queue was found empty for the last time, also those put before `stop` was called; and a `put_msg` that runs on uses the
deleted queue (`record_in_order`).
-/

namespace MqttServer

open Lib Moodycamel TimerFile

/-- Where the thread is in `svc`: before `try_dequeue`, in it, before `write_data`, before it looks at the flag, behind the
    loop, or at the end, when the queue and the file are deleted. -/
inductive Svc where
  | asking
  | reading
  | writing (x : ByteStr)
  | checking
  | leaving
  | ended
  deriving DecidableEq

/-- `CRecordThread<std::string>`: the queue with the threads in it, `svc`, `m_running_flag` and `m_timer_file`. `misused`
    says that `put_msg` has used the queue after it was deleted. -/
structure RecordThread where
  queue : System ByteStr
  svc : Svc := .asking
  running : Bool := true
  file : TimerFile
  misused : Bool := false

/-- Who makes a step: the thread that calls `put_msg` and `stop`, or `svc`. -/
inductive RecordAction where
  | put (x : ByteStr)
  | produce (memory : Bool)
  | stop
  | svc

/-- What `write_data` gets of a string: its length is a `uint32_t`. -/
def cut (x : ByteStr) : ByteStr := x.take (x.length % 2 ^ 32)

namespace RecordThread

variable (maxBlock : Nat) (w : WallClock) (io : Stdio)

/-- The thread that puts can make this step: it begins a call when it is in none, and goes on when it is in one. -/
def puts (r : RecordThread) : Action ByteStr → Bool
  | .enqueue _ _ => r.queue.producer.resting
  | .produce _ => !r.queue.producer.resting
  | _ => false

/-- A step of `put_msg`. -/
def putStep (r : RecordThread) (a : Action ByteStr) : RecordThread :=
  if r.svc = .ended then { r with misused := r.misused || r.puts a } else { r with queue := r.queue.step maxBlock a }

/-- A step of `svc`. What `write_data` returns is not looked at. -/
def svcStep (r : RecordThread) : RecordThread :=
  match r.svc with
  | .asking => { r with queue := r.queue.step maxBlock (.dequeue .tryDequeue), svc := .reading }
  | .reading =>
      match r.queue.consumer with
      | .done _ (some x) => { r with svc := .writing x }
      | .done _ none => { r with svc := .checking }
      | _ => { r with queue := r.queue.step maxBlock .consume }
  | .writing x => { r with file := r.file.writeData w io (cut x), svc := .asking }
  | .checking => { r with svc := if r.running then .asking else .leaving }
  | .leaving => { r with file := r.file.closeFile io, svc := .ended }
  | .ended => r

def step (r : RecordThread) : RecordAction → RecordThread
  | .put x => r.putStep maxBlock (.enqueue x .canAlloc)
  | .produce memory => r.putStep maxBlock (.produce memory)
  | .stop => { r with running := false }
  | .svc => r.svcStep maxBlock w io

/-- `open`, with a queue of its own. -/
def start (maxSize : Nat) (info : TimerFileInfo) (dir : ByteStr → Option ByteStr) : RecordThread :=
  { queue := .start maxBlock maxSize, file := .create w info dir }

/-- What `write_data` has written. -/
def written (r : RecordThread) : List ByteStr := r.file.lines.map RecordLine.data

end RecordThread

/-! ## The calls of `try_dequeue` -/

/-- The function the consumer is in, or was in last. -/
def Moodycamel.Consumer.op {α : Type} : Consumer α → Option Op
  | .idle => none
  | .look _ _ => some .peek
  | .enter op | .checkTail op _ _ | .checkTailBlock op _ | .recheck op | .loadNext op _ | .loadNextTail op _
  | .moveFront op _ _ | .take op _ _ | .storeFront op _ _ _ | .done op _ => some op

/-- The element that a call has returned. -/
def Moodycamel.Consumer.result {α : Type} : Consumer α → List α
  | .done _ (some x) => [x]
  | _ => []

section Calls

variable {α : Type} {s : System α}

theorem arrive_op (op : Op) (b i : Nat) : (op.arrive b i : Consumer α).op = some op := by
  unfold Op.arrive
  split
  · case isTrue h =>
      rw [h]
      rfl
  · rfl

theorem arrive_result (op : Op) (b i : Nat) : (op.arrive b i : Consumer α).result = [] := by
  unfold Op.arrive
  split <;> rfl

/-- **A step inside `try_dequeue`** takes what it returns, and only when it returns. -/
theorem consume_tryDequeue (hop : s.consumer.op = some .tryDequeue) (hbusy : s.consumer.resting = false) :
    s.consume.consumer.op = some .tryDequeue ∧ s.consume.dequeued = s.dequeued ++ s.consume.consumer.result := by
  cases hc : s.consumer with
  | idle | done op r => simp [hc, Consumer.resting] at hbusy
  | look fb bf => simp [hc, Consumer.op] at hop
  | enter op | checkTail op fb bf | recheck op =>
      rw [hc] at hop
      simp only [System.consume, hc]
      split
      · exact ⟨(arrive_op _ _ _).trans hop, by simp [arrive_result]⟩
      · exact ⟨hop, by simp [Consumer.result]⟩
  | checkTailBlock op fb =>
      rw [hc] at hop
      simp only [System.consume, hc]
      split <;> exact ⟨hop, by simp [Consumer.result]⟩
  | loadNext op fb | moveFront op nb nf =>
      rw [hc] at hop
      simp only [System.consume, hc]
      exact ⟨hop, by simp [Consumer.result]⟩
  | loadNextTail op nb =>
      rw [hc] at hop
      obtain rfl : op = .tryDequeue := Option.some.inj hop
      by_cases hassert : (s.queue.blocks nb).front = (s.queue.blocks nb).tail
      · simp [System.consume, hc, hassert, Consumer.op, Consumer.result]
      · simp [System.consume, hc, hassert, Consumer.op, Consumer.result]
  | take op fb bf =>
      rw [hc] at hop
      simp only [System.consume, hc]
      split
      · exact ⟨hop, by simp [Consumer.result]⟩
      · exact ⟨hop, by simp [Consumer.result]⟩
  | storeFront op fb bf x =>
      rw [hc] at hop
      simp only [System.consume, hc]
      exact ⟨hop, rfl⟩

/-- A step inside a call notes that the queue is empty. -/
theorem consume_sawEmpty (maxBlock : Nat) (h : (s.step maxBlock .consume).sawEmpty) :
    s.sawEmpty ∨ (s.step maxBlock .consume).size = 0 := by
  have hor : s.consume.sawEmpty = true ∨ s.consume.size = 0 := by
    simpa [System.step, System.observe] using h
  rwa [(consume_frame s).2.2.1] at hor

/-- What the other thread leaves alone. -/
theorem step_other (maxBlock : Nat) (s : System α) {a : Action α} (ha : (∃ x mode, a = .enqueue x mode) ∨ ∃ memory, a = .produce memory) :
    (s.step maxBlock a).consumer = s.consumer ∧ (s.step maxBlock a).dequeued = s.dequeued ∧
    (s.sawEmpty → (s.step maxBlock a).sawEmpty) ∧
    ((s.step maxBlock a).sawEmpty → s.sawEmpty ∨ (s.step maxBlock a).size = 0) := by
  rcases ha with ⟨x, mode, rfl⟩ | ⟨memory, rfl⟩
  · simp only [System.step]
    split
    · refine ⟨rfl, rfl, fun h => by simp [System.observe, h], fun h => ?_⟩
      simp only [System.observe, Bool.or_eq_true, beq_iff_eq] at h
      exact h
    · exact ⟨rfl, rfl, id, Or.inl⟩
  · obtain ⟨hconsumer, hdequeued, hsaw, -⟩ : (s.produce maxBlock memory).consumer = s.consumer ∧
        (s.produce maxBlock memory).dequeued = s.dequeued ∧ (s.produce maxBlock memory).sawEmpty = s.sawEmpty ∧ _ :=
      produce_frame memory s
    refine ⟨hconsumer, hdequeued, fun h => ?_, fun h => ?_⟩
    · simp [System.step, System.observe, hsaw, h]
    · have hor : (s.produce maxBlock memory).sawEmpty = true ∨ (s.produce maxBlock memory).size = 0 := by
        simpa [System.step, System.observe] using h
      rwa [hsaw] at hor

/-- Nothing that was put is forgotten. -/
theorem step_enqueued (maxBlock : Nat) (a : Action α) : s.enqueued <+: (s.step maxBlock a).enqueued := by
  cases a with
  | enqueue x mode =>
      simp only [System.step]
      split <;> exact List.prefix_refl _
  | dequeue op =>
      simp only [System.step]
      split <;> exact List.prefix_refl _
  | consume =>
      show s.enqueued <+: s.consume.enqueued
      rw [(consume_frame s).2.1]
  | produce memory =>
      show s.enqueued <+: (s.produce maxBlock memory).enqueued
      cases hp : s.producer with
      | publish x tb bt | advance x nb => simp [System.produce, hp]
      | enter | checkFront | construct | takeNext | constructNext | allocate =>
          simp only [System.produce, hp]
          split <;> exact List.prefix_refl _
      | full x mode tb =>
          simp only [System.produce, hp]
          split
          · exact List.prefix_refl _
          · cases mode <;> exact List.prefix_refl _
      | _ => simp [System.produce, hp]

/-- An empty queue has given away all that it was given. -/
theorem Moodycamel.Inv.enqueued_eq {need : Nat} (h : Inv need s) (hsize : s.size = 0) : s.enqueued = s.dequeued := by
  obtain ⟨⟨live, spare, held, hat⟩, -, -⟩ := h
  rw [hat.size_eq, List.length_eq_zero_iff] at hsize
  rw [hat.flow, hsize, List.append_nil]

end Calls

/-! ## The invariant -/

/-- What has been taken from the queue is written, or in the thread's hand. -/
def Svc.Facts (q : System ByteStr) (written : List ByteStr) : Svc → Prop
  | .asking | .leaving | .ended => q.consumer.resting ∧ q.dequeued.map cut = written
  | .checking => q.consumer.resting ∧ q.dequeued.map cut = written ∧ q.sawEmpty
  | .reading => q.consumer.op = some .tryDequeue ∧ q.dequeued.map cut = written ++ q.consumer.result.map cut
  | .writing x => q.consumer.resting ∧ q.dequeued.map cut = written ++ [cut x]

/-- The queue keeps its invariant, the thread its place in it, and the files what is written. -/
structure Recording (maxSize : Nat) (dir : ByteStr → Option ByteStr) (r : RecordThread) : Prop where
  queue : Inv maxSize r.queue
  facts : r.svc.Facts r.queue r.written
  files : r.file.Holds dir r.written
  flushed : r.file.Flushed

section Record

variable {maxBlock maxSize : Nat} {w : WallClock} {io : Stdio} {dir : ByteStr → Option ByteStr} {r : RecordThread}

theorem Recording.start (hmax : ∃ m, maxBlock = 2 ^ (m + 1) ∧ m < 62) (hpos : 0 < maxSize) (hsize : maxSize < 2 ^ 63)
    (info : TimerFileInfo) (dir : ByteStr → Option ByteStr) :
    Recording maxSize dir (RecordThread.start maxBlock w maxSize info dir) :=
  ⟨start_inv hmax hpos hsize, ⟨rfl, rfl⟩, ⟨[], rfl, fun _ => (List.append_nil _).symm⟩, rfl, fun _ hn => by cases hn⟩

/-- A step of `put_msg`. -/
theorem Recording.putStep (h : Recording maxSize dir r) (hmax : ∃ m, maxBlock = 2 ^ (m + 1) ∧ m < 62) {a : Action ByteStr}
    (ha : (∃ x mode, a = .enqueue x mode) ∨ ∃ memory, a = .produce memory) :
    Recording maxSize dir (r.putStep maxBlock a) := by
  unfold RecordThread.putStep
  split
  · exact ⟨h.queue, h.facts, h.files, h.flushed⟩
  · obtain ⟨hconsumer, hdequeued, hsaw, -⟩ := step_other maxBlock r.queue ha
    obtain ⟨m, rfl, hm⟩ := hmax
    refine ⟨h.queue.step ⟨m, rfl, by omega⟩ a, ?_, h.files, h.flushed⟩
    have hfacts := h.facts
    show r.svc.Facts (r.queue.step _ a) r.written
    cases hsvc : r.svc with
    | checking =>
        rw [hsvc] at hfacts
        obtain ⟨hrest, hwritten, hempty⟩ := hfacts
        exact ⟨by rw [hconsumer]; exact hrest, by rw [hdequeued]; exact hwritten, hsaw hempty⟩
    | asking | leaving | ended | reading | writing x =>
        rw [hsvc] at hfacts
        simp only [Svc.Facts] at hfacts ⊢
        rw [hconsumer, hdequeued]
        exact hfacts

/-- What a step of `svc` is, when the thread is where it should be. -/
inductive SvcMove (maxBlock : Nat) (w : WallClock) (io : Stdio) (r : RecordThread) : RecordThread → Prop where
  | ask (hsvc : r.svc = .asking) :
      SvcMove maxBlock w io r { r with queue := r.queue.step maxBlock (.dequeue .tryDequeue), svc := .reading }
  | read (hsvc : r.svc = .reading) (hbusy : r.queue.consumer.resting = false) :
      SvcMove maxBlock w io r { r with queue := r.queue.step maxBlock .consume }
  | got (x : ByteStr) (hsvc : r.svc = .reading) (hdone : r.queue.consumer = .done .tryDequeue (some x)) :
      SvcMove maxBlock w io r { r with svc := .writing x }
  | missed (hsvc : r.svc = .reading) (hdone : r.queue.consumer = .done .tryDequeue none) :
      SvcMove maxBlock w io r { r with svc := .checking }
  | write (x : ByteStr) (hsvc : r.svc = .writing x) :
      SvcMove maxBlock w io r { r with file := r.file.writeData w io (cut x), svc := .asking }
  | sleep (hsvc : r.svc = .checking) (hrun : r.running) : SvcMove maxBlock w io r { r with svc := .asking }
  | leave (hsvc : r.svc = .checking) (hrun : r.running = false) : SvcMove maxBlock w io r { r with svc := .leaving }
  | finish (hsvc : r.svc = .leaving) : SvcMove maxBlock w io r { r with file := r.file.closeFile io, svc := .ended }
  | halt (hsvc : r.svc = .ended) : SvcMove maxBlock w io r r

theorem Recording.move (h : Recording maxSize dir r) : SvcMove maxBlock w io r (r.svcStep maxBlock w io) := by
  cases hsvc : r.svc with
  | asking =>
      simp only [RecordThread.svcStep, hsvc]
      exact .ask hsvc
  | reading =>
      have hfacts := h.facts
      rw [hsvc] at hfacts
      have hop : r.queue.consumer.op = some .tryDequeue := hfacts.1
      have hread : r.queue.consumer.resting = false →
          SvcMove maxBlock w io r { r with queue := r.queue.step maxBlock .consume, svc := .reading } := by
        intro hbusy
        have hmove : SvcMove maxBlock w io r { r with queue := r.queue.step maxBlock .consume } := .read hsvc hbusy
        rwa [hsvc] at hmove
      cases hc : r.queue.consumer with
      | idle => simp [hc, Consumer.op] at hop
      | done op res =>
          rw [hc] at hop
          obtain rfl : op = .tryDequeue := Option.some.inj hop
          cases res with
          | none =>
              simp only [RecordThread.svcStep, hsvc, hc]
              exact .missed hsvc hc
          | some x =>
              simp only [RecordThread.svcStep, hsvc, hc]
              exact .got x hsvc hc
      | _ =>
          simp only [RecordThread.svcStep, hsvc, hc]
          exact hread (by rw [hc]; rfl)
  | writing x =>
      simp only [RecordThread.svcStep, hsvc]
      exact .write x hsvc
  | checking =>
      simp only [RecordThread.svcStep, hsvc]
      split
      · case isTrue hrun => exact .sleep hsvc hrun
      · case isFalse hrun => exact .leave hsvc (Bool.eq_false_iff.mpr hrun)
  | leaving =>
      simp only [RecordThread.svcStep, hsvc]
      exact .finish hsvc
  | ended =>
      simp only [RecordThread.svcStep, hsvc]
      exact .halt hsvc

theorem result_of_busy {α : Type} {c : Consumer α} (h : c.resting = false) : c.result = [] := by
  cases c with
  | done op res => simp [Consumer.resting] at h
  | _ => rfl

/-- A step of `svc`. -/
theorem Recording.svcStep (h : Recording maxSize dir r) (hio : io.Reliable)
    (hmax : ∃ m, maxBlock = 2 ^ (m + 1) ∧ m < 62) :
    Recording maxSize dir (r.svcStep maxBlock w io) := by
  have hqueue : ∀ a, Moodycamel.Inv maxSize (r.queue.step maxBlock a) := by
    obtain ⟨m, rfl, hm⟩ := hmax
    exact fun a => h.queue.step ⟨m, rfl, by omega⟩ a
  have hfacts := h.facts
  have hmove : SvcMove maxBlock w io r (r.svcStep maxBlock w io) := h.move
  generalize r.svcStep maxBlock w io = r' at hmove ⊢
  cases hmove with
  | ask hsvc =>
      rw [hsvc] at hfacts
      obtain ⟨hrest, hwritten⟩ := hfacts
      refine ⟨hqueue (.dequeue .tryDequeue), ?_, h.files, h.flushed⟩
      show Svc.Facts (r.queue.step maxBlock (.dequeue .tryDequeue)) r.written .reading
      simp only [System.step, hrest, if_true]
      exact ⟨rfl, by rw [← hwritten]; exact (List.append_nil _).symm⟩
  | read hsvc hbusy =>
      rw [hsvc] at hfacts
      obtain ⟨hop, hwritten⟩ := hfacts
      obtain ⟨hop', hdequeued⟩ := consume_tryDequeue hop hbusy
      rw [result_of_busy hbusy, List.map_nil, List.append_nil] at hwritten
      refine ⟨hqueue .consume, ?_, h.files, h.flushed⟩
      show Svc.Facts (r.queue.step maxBlock .consume) r.written r.svc
      rw [hsvc]
      refine ⟨hop', ?_⟩
      show r.queue.consume.dequeued.map cut = r.written ++ r.queue.consume.consumer.result.map cut
      rw [hdequeued, List.map_append, hwritten]
  | got x hsvc hdone =>
      rw [hsvc] at hfacts
      obtain ⟨-, hwritten⟩ := hfacts
      rw [hdone] at hwritten
      refine ⟨h.queue, ⟨?_, hwritten⟩, h.files, h.flushed⟩
      show r.queue.consumer.resting
      rw [hdone]
      rfl
  | missed hsvc hdone =>
      rw [hsvc] at hfacts
      obtain ⟨-, hwritten⟩ := hfacts
      rw [hdone] at hwritten
      refine ⟨h.queue, ⟨?_, hwritten.trans (List.append_nil _), ?_⟩, h.files, h.flushed⟩
      · show r.queue.consumer.resting
        rw [hdone]
        rfl
      · obtain ⟨⟨live, spare, held, hat⟩, -, -⟩ := h.queue
        have hconsumed := hat.consumed
        rw [hdone] at hconsumed
        exact hconsumed
  | write x hsvc =>
      rw [hsvc] at hfacts
      obtain ⟨hrest, hwritten⟩ := hfacts
      obtain ⟨hfiles, hflushed⟩ := h.files.writeData (w := w) h.flushed hio (cut x)
      have hlines : RecordThread.written { r with file := r.file.writeData w io (cut x), svc := .asking } =
          r.written ++ [cut x] := h.flushed.writeData_lines hio (cut x)
      refine ⟨h.queue, ⟨hrest, ?_⟩, ?_, hflushed⟩
      · rw [hlines]
        exact hwritten
      · rw [hlines]
        exact hfiles
  | sleep hsvc hrun | leave hsvc hrun =>
      rw [hsvc] at hfacts
      obtain ⟨hrest, hwritten, -⟩ := hfacts
      exact ⟨h.queue, ⟨hrest, hwritten⟩, h.files, h.flushed⟩
  | finish hsvc =>
      rw [hsvc] at hfacts
      obtain ⟨hfiles, hflushed⟩ := h.files.closeFile h.flushed io
      have hlines : RecordThread.written { r with file := r.file.closeFile io, svc := .ended } = r.written := by
        obtain ⟨calls, hclosed⟩ := h.flushed.closeFile io
        unfold RecordThread.written
        rw [hclosed]
      refine ⟨h.queue, ?_, ?_, hflushed⟩
      · rw [hlines]
        exact hfacts
      · rw [hlines]
        exact hfiles
  | halt hsvc => exact h

/-- **One step.** -/
theorem Recording.step (h : Recording maxSize dir r) (hio : io.Reliable) (hmax : ∃ m, maxBlock = 2 ^ (m + 1) ∧ m < 62)
    (a : RecordAction) : Recording maxSize dir (r.step maxBlock w io a) := by
  cases a with
  | put x => exact h.putStep hmax (Or.inl ⟨x, .canAlloc, rfl⟩)
  | produce memory => exact h.putStep hmax (Or.inr ⟨memory, rfl⟩)
  | stop => exact ⟨h.queue, h.facts, h.files, h.flushed⟩
  | svc => exact h.svcStep hio hmax

/-- **Every run.** -/
theorem Recording.run (h : Recording maxSize dir r) (hio : io.Reliable) (hmax : ∃ m, maxBlock = 2 ^ (m + 1) ∧ m < 62)
    (as : List RecordAction) : Recording maxSize dir (Lib.run (RecordThread.step maxBlock w io) r as) :=
  run_invariant (P := fun _ _ => True) (fun _ a hr _ => hr.step hio hmax a) as r h (along_of_forall (fun _ _ => trivial) as r)

/-- What is written is a prefix of what was put. -/
theorem Recording.written_le (h : Recording maxSize dir r) : r.written <+: r.queue.enqueued.map cut := by
  obtain ⟨⟨live, spare, held, hat⟩, -, -⟩ := h.queue
  have hdequeued : r.queue.dequeued.map cut <+: r.queue.enqueued.map cut := by
    rw [hat.flow, List.map_append]
    exact List.prefix_append ..
  refine List.IsPrefix.trans ?_ hdequeued
  have hfacts := h.facts
  cases hsvc : r.svc with
  | asking | leaving | ended =>
      rw [hsvc] at hfacts
      rw [hfacts.2]
  | checking =>
      rw [hsvc] at hfacts
      rw [hfacts.2.1]
  | reading | writing x =>
      rw [hsvc] at hfacts
      rw [hfacts.2]
      exact List.prefix_append ..

/-! ## The end -/

/-- At some moment of the run the thread was in `try_dequeue` and had taken all that had been put, and that is as much as it
    has taken by now. -/
def EmptySince (init : RecordThread) (maxBlock : Nat) (w : WallClock) (io : Stdio) (as : List RecordAction) : Prop :=
  ∃ bs, bs <+: as ∧ (Lib.run (RecordThread.step maxBlock w io) init bs).svc = .reading ∧
    (Lib.run (RecordThread.step maxBlock w io) init bs).queue.enqueued =
      (Lib.run (RecordThread.step maxBlock w io) init as).queue.dequeued

/-- The last answer of the queue that counts: it was empty. -/
def SeenEmpty (init : RecordThread) (maxBlock : Nat) (w : WallClock) (io : Stdio) (as : List RecordAction) (r : RecordThread) : Prop :=
  (r.svc = .checking ∨ (r.svc = .leaving ∨ r.svc = .ended) ∨
    (r.svc = .reading ∧ r.queue.sawEmpty ∧ r.queue.consumer.result = [])) →
    EmptySince init maxBlock w io as

section End

variable {init : RecordThread}

theorem run_concat (as : List RecordAction) (a : RecordAction) :
    Lib.run (RecordThread.step maxBlock w io) init (as ++ [a]) =
      (Lib.run (RecordThread.step maxBlock w io) init as).step maxBlock w io a := by
  unfold Lib.run
  rw [List.foldl_append]
  rfl

/-- It stays so while nothing is taken. -/
theorem EmptySince.keep {as : List RecordAction} {a : RecordAction} (h : EmptySince init maxBlock w io as)
    (hsame : ((Lib.run (RecordThread.step maxBlock w io) init as).step maxBlock w io a).queue.dequeued =
      (Lib.run (RecordThread.step maxBlock w io) init as).queue.dequeued) : EmptySince init maxBlock w io (as ++ [a]) := by
  obtain ⟨bs, hbs, hreading, heq⟩ := h
  refine ⟨bs, hbs.trans (List.prefix_append ..), hreading, ?_⟩
  rw [run_concat, hsame, heq]

/-- It is so when the queue is empty now. -/
theorem EmptySince.now {as : List RecordAction} (hinv : Moodycamel.Inv maxSize (Lib.run (RecordThread.step maxBlock w io) init as).queue)
    (hreading : (Lib.run (RecordThread.step maxBlock w io) init as).svc = .reading)
    (hsize : (Lib.run (RecordThread.step maxBlock w io) init as).queue.size = 0) : EmptySince init maxBlock w io as :=
  ⟨as, List.prefix_refl as, hreading, hinv.enqueued_eq hsize⟩

/-- **The answer holds**: after every step, a queue that was seen empty was empty at a moment of the run. -/
theorem seenEmpty (hinit : Recording maxSize dir init) (hasking : init.svc = .asking) (hio : io.Reliable)
    (hmax : ∃ m, maxBlock = 2 ^ (m + 1) ∧ m < 62) (as : List RecordAction) :
    SeenEmpty init maxBlock w io as (Lib.run (RecordThread.step maxBlock w io) init as) := by
  -- on the run, by its last step
  induction as using List.reverseRecOn with
  | nil =>
      intro h
      simp [hasking] at h
  | append_singleton as a ih =>
      have hrec : Recording maxSize dir (Lib.run (RecordThread.step maxBlock w io) init as) := hinit.run hio hmax as
      have hrec' : Recording maxSize dir (Lib.run (RecordThread.step maxBlock w io) init (as ++ [a])) := hinit.run hio hmax _
      have hnow := EmptySince.now hrec'.queue
      have hkeep := fun h => EmptySince.keep (a := a) (h : EmptySince init maxBlock w io as)
      rw [run_concat] at hnow ⊢
      generalize hr : Lib.run (RecordThread.step maxBlock w io) init as = r at ih hrec hkeep hnow ⊢
      -- a step of the producer leaves the consumer where it is
      have hput : ∀ act, ((∃ x mode, act = .enqueue x mode) ∨ ∃ memory, act = .produce memory) →
          r.step maxBlock w io a = r.putStep maxBlock act →
          SeenEmpty init maxBlock w io (as ++ [a]) (r.step maxBlock w io a) := by
        intro act hact hstep
        obtain ⟨hconsumer, hdequeued, -, hsaw⟩ := step_other maxBlock r.queue hact
        rw [hstep] at hnow hkeep ⊢
        unfold RecordThread.putStep at hnow hkeep ⊢
        split at hnow
        · case isTrue hended =>
            rw [if_pos hended] at hkeep ⊢
            intro _
            exact hkeep (ih (Or.inr (Or.inl (Or.inr hended)))) rfl
        · case isFalse hopen =>
            rw [if_neg hopen] at hkeep ⊢
            rintro (hchecking | hended | ⟨hreading, hempty, hresult⟩)
            · exact hkeep (ih (Or.inl hchecking)) hdequeued
            · exact hkeep (ih (Or.inr (Or.inl hended))) hdequeued
            · rcases hsaw hempty with hold | hzero
              · refine hkeep (ih (Or.inr (Or.inr ⟨hreading, hold, ?_⟩))) hdequeued
                rwa [hconsumer] at hresult
              · exact hnow hreading hzero
      cases a with
      | put x => exact hput _ (Or.inl ⟨x, .canAlloc, rfl⟩) rfl
      | produce memory => exact hput _ (Or.inr ⟨memory, rfl⟩) rfl
      | stop => exact fun h => hkeep (ih h) rfl
      | svc =>
          have hfacts := hrec.facts
          have hmove : SvcMove maxBlock w io r (r.svcStep maxBlock w io) := hrec.move
          have hqueue := hrec'.facts
          rw [run_concat, hr] at hqueue
          simp only [RecordThread.step] at hnow hkeep hqueue ⊢
          generalize r.svcStep maxBlock w io = r' at hmove hnow hkeep hqueue ⊢
          cases hmove with
          | ask hsvc =>
              rw [hsvc] at hfacts
              rintro (hchecking | (hended | hended) | ⟨-, hempty, -⟩)
              · cases hchecking
              · cases hended
              · cases hended
              · -- the call begins here
                simp only [System.step, hfacts.1, if_true, System.observe, Bool.false_or, beq_iff_eq] at hempty hnow
                exact hnow trivial hempty
          | read hsvc hbusy =>
              rw [hsvc] at hfacts
              rintro (hchecking | (hended | hended) | ⟨-, hempty, hresult⟩)
              · exact absurd (hsvc.symm.trans hchecking) (by simp)
              · exact absurd (hsvc.symm.trans hended) (by simp)
              · exact absurd (hsvc.symm.trans hended) (by simp)
              · rcases consume_sawEmpty maxBlock hempty with hold | hzero
                · -- nothing has been taken since
                  refine hkeep (ih (Or.inr (Or.inr ⟨hsvc, hold, result_of_busy hbusy⟩))) ?_
                  have htaken := (consume_tryDequeue hfacts.1 hbusy).2
                  have hnone : r.queue.consume.consumer.result = [] := hresult
                  rw [hnone, List.append_nil] at htaken
                  exact htaken
                · exact hnow hsvc hzero
          -- the dequeue has come back with nothing, so it has seen the queue empty
          | missed hsvc hdone =>
              refine fun _ => hkeep (ih (Or.inr (Or.inr ⟨hsvc, hqueue.2.2, ?_⟩))) rfl
              rw [hdone]
              rfl
          | leave hsvc hrun => exact fun _ => hkeep (ih (Or.inl hsvc)) rfl
          | finish hsvc => exact fun _ => hkeep (ih (Or.inr (Or.inl (Or.inl hsvc)))) rfl
          | halt hsvc => exact fun _ => hkeep (ih (Or.inr (Or.inl (Or.inr hsvc)))) rfl
          | got x hsvc hdone | write x hsvc | sleep hsvc hrun =>
              rintro (hchecking | (hended | hended) | ⟨hreading, -⟩)
              · cases hchecking
              · cases hended
              · cases hended
              · cases hreading

/-- The thread that puts makes a step after `svc` has ended. -/
def PutsLate (r : RecordThread) : RecordAction → Prop
  | .put x => r.svc = .ended ∧ r.puts (.enqueue x .canAlloc)
  | .produce memory => r.svc = .ended ∧ r.puts (.produce memory)
  | _ => False

/-- A step of the thread that puts uses the deleted queue, or is none. -/
theorem misused_putStep (act : Action ByteStr) :
    (r.putStep maxBlock act).misused = true ↔ r.misused = true ∨ (r.svc = .ended ∧ r.puts act = true) := by
  unfold RecordThread.putStep
  by_cases hended : r.svc = .ended
  · rw [if_pos hended]
    simp only [Bool.or_eq_true, hended, true_and]
  · rw [if_neg hended]
    exact ⟨Or.inl, fun h => h.resolve_right fun hx => hended hx.1⟩

theorem misused_step (a : RecordAction) :
    (r.step maxBlock w io a).misused = true ↔ r.misused = true ∨ PutsLate r a := by
  cases a with
  | put x => exact misused_putStep _
  | produce memory => exact misused_putStep _
  | stop => exact (or_false _).symm.to_iff
  | svc =>
      have hsame : (r.svcStep maxBlock w io).misused = r.misused := by
        unfold RecordThread.svcStep
        split
        · rfl
        · split <;> rfl
        · rfl
        · rfl
        · rfl
        · rfl
      show (r.svcStep maxBlock w io).misused = true ↔ _
      rw [hsame]
      exact (or_false _).symm.to_iff

/-- **The deleted queue is used** just when `put_msg` runs on after `svc` has ended. -/
theorem misused_iff (hinit : init.misused = false) (as : List RecordAction) :
    (Lib.run (RecordThread.step maxBlock w io) init as).misused = true ↔
      ∃ bs a, bs ++ [a] <+: as ∧ PutsLate (Lib.run (RecordThread.step maxBlock w io) init bs) a := by
  -- on the run, by its last step
  induction as using List.reverseRecOn with
  | nil =>
      rw [run_nil, hinit]
      refine iff_of_false Bool.false_ne_true ?_
      rintro ⟨bs, a, hle, -⟩
      have hlen := hle.length_le
      rw [List.length_append] at hlen
      exact Nat.not_succ_le_zero _ hlen
  | append_singleton as a ih =>
      rw [run_concat, misused_step, ih]
      constructor
      · rintro (⟨bs, a', hle, hlate⟩ | hlate)
        · exact ⟨bs, a', hle.trans (List.prefix_append ..), hlate⟩
        · exact ⟨as, a, List.prefix_refl _, hlate⟩
      · rintro ⟨bs, a', hle, hlate⟩
        rcases List.prefix_concat_iff.mp hle with heq | hle
        · obtain ⟨rfl, hsame⟩ := List.append_inj' heq rfl
          cases hsame
          exact Or.inr hlate
        · exact Or.inl ⟨bs, a', hle, hlate⟩

/-- The first message is written and the queue found empty; the second one is put, then `stop` is called. -/
def lateMessage : List RecordAction :=
  .put (text "a") :: List.replicate 3 (.produce true) ++ List.replicate 12 .svc ++
    .put (text "b") :: List.replicate 4 (.produce true) ++ [.stop, .svc, .svc]

/-- The call of `try_dequeue` may still say that there is nothing, though there is. -/
def RecordThread.stale (r : RecordThread) (target : Nat) : Bool :=
  r.svc = .checking || (r.svc = .reading && r.queue.sawEmpty && r.queue.dequeued.length < target)

/-- The steps to the next `write_data`, at most, unless the call is stale. -/
def RecordThread.phase (r : RecordThread) : Nat :=
  match r.svc with
  | .asking => 12
  | .reading => r.queue.consumer.rank + 2
  | .writing _ | .checking => 1
  | .leaving | .ended => 0

/-- The steps of `svc` until it has written `target` messages, at most. -/
def RecordThread.rank (target : Nat) (r : RecordThread) : Nat :=
  if target ≤ r.written.length then 0
  else 13 * (target - r.written.length) + ((if r.stale target then 13 else 0) + r.phase)

/-- A step that is no `stop` keeps the thread going, and what was put. -/
structure Going (maxSize : Nat) (dir : ByteStr → Option ByteStr) (target : Nat) (r : RecordThread) : Prop where
  recording : Recording maxSize dir r
  running : r.running
  alive : r.svc ≠ .leaving ∧ r.svc ≠ .ended
  put : target ≤ r.queue.enqueued.length

variable {target : Nat}

theorem putStep_alive (halive : r.svc ≠ .ended) (a : Action ByteStr) :
    r.putStep maxBlock a = { r with queue := r.queue.step maxBlock a } := if_neg halive

theorem Going.step (h : Going maxSize dir target r) (hio : io.Reliable) (hmax : ∃ m, maxBlock = 2 ^ (m + 1) ∧ m < 62)
    {a : RecordAction} (ha : a ≠ .stop) : Going maxSize dir target (r.step maxBlock w io a) := by
  have hgrown : ∀ act, target ≤ (r.queue.step maxBlock act).enqueued.length :=
    fun act => h.put.trans (step_enqueued maxBlock act).length_le
  have hrec := h.recording.step hio hmax a (w := w)
  cases a with
  | stop => exact absurd rfl ha
  | put x =>
      have hstep : r.step maxBlock w io (.put x) = _ := putStep_alive h.alive.2 (.enqueue x .canAlloc)
      rw [hstep] at hrec ⊢
      exact ⟨hrec, h.running, h.alive, hgrown _⟩
  | produce memory =>
      have hstep : r.step maxBlock w io (.produce memory) = _ := putStep_alive h.alive.2 (.produce memory)
      rw [hstep] at hrec ⊢
      exact ⟨hrec, h.running, h.alive, hgrown _⟩
  | svc =>
      have hmove : SvcMove maxBlock w io r (r.svcStep maxBlock w io) := h.recording.move
      have hrec' : Recording maxSize dir (r.svcStep maxBlock w io) := hrec
      show Going maxSize dir target (r.svcStep maxBlock w io)
      generalize r.svcStep maxBlock w io = r' at hmove hrec' ⊢
      cases hmove with
      | ask hsvc => exact ⟨hrec', h.running, by simp, hgrown _⟩
      | read hsvc hbusy => exact ⟨hrec', h.running, h.alive, hgrown _⟩
      | got x hsvc hdone | missed hsvc hdone | write x hsvc | sleep hsvc hrun =>
          exact ⟨hrec', h.running, by simp, h.put⟩
      | leave hsvc hrun =>
          rw [h.running] at hrun
          cases hrun
      | finish hsvc => exact absurd hsvc h.alive.1
      | halt hsvc => exact h

theorem Consumer.rank_pos {α : Type} {c : Consumer α} (h : c.resting = false) : 0 < c.rank := by
  cases c <;> simp_all [Consumer.resting, Consumer.rank]

/-- The queue is not empty while it has a message that is waited for. -/
theorem Going.not_size_zero (h : Going maxSize dir target r) (hwait : r.queue.dequeued.length < target) :
    r.queue.size ≠ 0 := by
  intro hzero
  have heq := h.recording.queue.enqueued_eq hzero
  have hput := h.put
  rw [heq] at hput
  omega

/-- The rank, when something is waited for. -/
theorem rank_eq (h : r.written.length < target) : r.rank target =
    13 * (target - r.written.length) + ((if r.stale target then 13 else 0) + r.phase) := if_neg (by omega)

theorem rank_zero (h : target ≤ r.written.length) : r.rank target = 0 := if_pos h

/-- A call that is stale costs one more round. -/
theorem bonus_le {r' : RecordThread} (h : r'.stale target → r.stale target) :
    (if r'.stale target then 13 else 0) ≤ if r.stale target then 13 else 0 := by
  split
  · case isTrue hs => rw [if_pos (h hs)]
  · exact Nat.zero_le _

/-- **The other thread** does not put the writing off. -/
theorem Going.rank_putStep {a : Action ByteStr} (h : Going maxSize dir target { r with queue := r.queue.step maxBlock a })
    (ha : (∃ x mode, a = .enqueue x mode) ∨ ∃ memory, a = .produce memory) :
    RecordThread.rank target { r with queue := r.queue.step maxBlock a } ≤ r.rank target := by
  obtain ⟨hconsumer, hdequeued, -, hsaw⟩ := step_other maxBlock r.queue ha
  rcases Nat.lt_or_ge r.written.length target with hlt | hge
  · have hstale : RecordThread.stale { r with queue := r.queue.step maxBlock a } target → r.stale target := by
      simp only [RecordThread.stale, Bool.or_eq_true, Bool.and_eq_true, decide_eq_true_eq, hdequeued]
      rintro (hchecking | ⟨⟨hreading, hempty⟩, hwait⟩)
      · exact Or.inl hchecking
      · rcases hsaw hempty with hold | hzero
        · exact Or.inr ⟨⟨hreading, hold⟩, hwait⟩
        · exact absurd hzero (h.not_size_zero (by rw [hdequeued]; exact hwait))
    have hphase : RecordThread.phase { r with queue := r.queue.step maxBlock a } = r.phase := by
      unfold RecordThread.phase
      rw [hconsumer]
    have heq : RecordThread.rank target { r with queue := r.queue.step maxBlock a } = _ := rank_eq hlt
    rw [heq, rank_eq hlt, hphase]
    exact Nat.add_le_add_left (Nat.add_le_add_right (bonus_le hstale) _) _
  · have heq : RecordThread.rank target { r with queue := r.queue.step maxBlock a } = 0 := rank_zero hge
    rw [heq]
    exact Nat.zero_le _

/-- **A step of the thread** brings the writing nearer. -/
theorem Going.rank_svcStep (h : Going maxSize dir target r) (hio : io.Reliable) (h' : Going maxSize dir target (r.svcStep maxBlock w io)) :
    (r.svcStep maxBlock w io).rank target ≤ r.rank target - 1 := by
  have hfacts := h.recording.facts
  have hmove : SvcMove maxBlock w io r (r.svcStep maxBlock w io) := h.recording.move
  generalize r.svcStep maxBlock w io = r' at hmove h' ⊢
  -- what is written stays written
  have hgrown : r.written.length ≤ r'.written.length := by
    cases hmove with
    | write x hsvc =>
        show _ ≤ ((r.file.writeData w io (cut x)).lines.map RecordLine.data).length
        rw [h.recording.flushed.writeData_lines hio, List.length_append]
        exact Nat.le_add_right _ _
    | finish hsvc => exact absurd hsvc h.alive.1
    | _ => exact Nat.le_refl _
  rcases Nat.lt_or_ge r'.written.length target with hlt | hge
  · have hlt' : r.written.length < target := Nat.lt_of_le_of_lt hgrown hlt
    rw [rank_eq hlt, rank_eq hlt']
    cases hmove with
    | ask hsvc =>
        rw [hsvc] at hfacts
        have hconsumer : (r.queue.step maxBlock (.dequeue .tryDequeue)).consumer = .enter .tryDequeue := by
          simp only [System.step, hfacts.1, if_true]
          rfl
        have hdequeued : (r.queue.step maxBlock (.dequeue .tryDequeue)).dequeued = r.queue.dequeued := by
          simp only [System.step, hfacts.1, if_true]
          rfl
        have hwait : (r.queue.step maxBlock (.dequeue .tryDequeue)).dequeued.length < target := by
          have hlen := congrArg List.length hfacts.2
          rw [List.length_map] at hlen
          rw [hdequeued, hlen]
          exact hlt'
        -- the new call begins with elements in the queue
        have hfresh : (r.queue.step maxBlock (.dequeue .tryDequeue)).sawEmpty = false := by
          have hsize : ({ r.queue with consumer := .enter .tryDequeue, sawEmpty := false } : System ByteStr).size ≠ 0 := by
            have hnonzero := h'.not_size_zero hwait
            simp only [System.step, hfacts.1, if_true] at hnonzero
            exact hnonzero
          simp only [System.step, hfacts.1, if_true]
          simpa [System.observe] using hsize
        have hstale : RecordThread.stale { r with queue := r.queue.step maxBlock (.dequeue .tryDequeue), svc := .reading }
            target = false := by simp [RecordThread.stale, hfresh]
        have hphase : RecordThread.phase { r with queue := r.queue.step maxBlock (.dequeue .tryDequeue), svc := .reading } =
            11 := by simp [RecordThread.phase, hconsumer, Consumer.rank]
        have hphase' : r.phase = 12 := by simp [RecordThread.phase, hsvc]
        have hwritten : RecordThread.written
            { r with queue := r.queue.step maxBlock (.dequeue .tryDequeue), svc := .reading } = r.written := rfl
        rw [hstale, hphase, hphase', hwritten]
        simp only [Bool.false_eq_true, if_false]
        omega
    | read hsvc hbusy =>
        rw [hsvc] at hfacts
        have hstale : RecordThread.stale { r with queue := r.queue.step maxBlock .consume } target → r.stale target := by
          simp only [RecordThread.stale, Bool.or_eq_true, Bool.and_eq_true, decide_eq_true_eq]
          rintro (hchecking | ⟨⟨hreading, hempty⟩, hwait⟩)
          · exact Or.inl hchecking
          · rcases consume_sawEmpty maxBlock hempty with hold | hzero
            · have htaken := (consume_tryDequeue hfacts.1 hbusy).2
              have hlen : r.queue.dequeued.length ≤ r.queue.consume.dequeued.length := by
                rw [htaken, List.length_append]
                exact Nat.le_add_right _ _
              exact Or.inr ⟨⟨hreading, hold⟩, Nat.lt_of_le_of_lt hlen hwait⟩
            · exact absurd hzero (h'.not_size_zero hwait)
        have hsound : r.queue.consume.fault = none := by
          obtain ⟨⟨live, spare, held, hat⟩, -, -⟩ := h'.recording.queue
          exact hat.sound
        have hrank := rank_consume hsound
        have hpos := Consumer.rank_pos hbusy
        have hphase : RecordThread.phase { r with queue := r.queue.step maxBlock .consume } =
            r.queue.consume.consumer.rank + 2 := by
          simp only [RecordThread.phase, hsvc]
          rfl
        have hphase' : r.phase = r.queue.consumer.rank + 2 := by simp only [RecordThread.phase, hsvc]
        have hwritten : RecordThread.written { r with queue := r.queue.step maxBlock .consume } = r.written := rfl
        have hbonus := bonus_le hstale
        rw [hphase, hphase', hwritten]
        omega
    | got x hsvc hdone =>
        have hwritten : RecordThread.written { r with svc := .writing x } = r.written := rfl
        simp only [hwritten, RecordThread.stale, RecordThread.phase, hsvc]
        simp
        omega
    | missed hsvc hdone =>
        -- the queue has been empty in this call
        rw [hsvc] at hfacts
        have hempty : r.queue.sawEmpty := by
          obtain ⟨⟨live, spare, held, hat⟩, -, -⟩ := h.recording.queue
          have hconsumed := hat.consumed
          rw [hdone] at hconsumed
          exact hconsumed
        have hwait : r.queue.dequeued.length < target := by
          have hlen := congrArg List.length hfacts.2
          rw [hdone] at hlen
          simp only [Consumer.result, List.length_map, List.length_append, List.map_nil, List.length_nil] at hlen
          omega
        have hstale : r.stale target := by simp [RecordThread.stale, hsvc, hempty, hwait]
        have hwritten : RecordThread.written { r with svc := .checking } = r.written := rfl
        simp only [hstale, hwritten, RecordThread.phase, hsvc, if_true]
        simp [RecordThread.stale]
        omega
    | write x hsvc =>
        have hlen : (RecordThread.written { r with file := r.file.writeData w io (cut x), svc := .asking }).length =
            r.written.length + 1 := by
          show ((r.file.writeData w io (cut x)).lines.map RecordLine.data).length = _
          rw [h.recording.flushed.writeData_lines hio, List.length_append]
          simp [RecordThread.written]
        rw [hlen] at hlt ⊢
        simp only [RecordThread.stale, RecordThread.phase, hsvc]
        simp
        omega
    | sleep hsvc hrun =>
        have hwritten : RecordThread.written { r with svc := .asking } = r.written := rfl
        simp [hwritten, RecordThread.stale, RecordThread.phase, hsvc]
    | leave hsvc hrun =>
        rw [h.running] at hrun
        cases hrun
    | finish hsvc => exact absurd hsvc h.alive.1
    | halt hsvc => exact absurd hsvc h.alive.2
  · rw [rank_zero hge]
    exact Nat.zero_le _

/-- A step of `svc`. -/
def RecordAction.isSvc : RecordAction → Bool
  | .svc => true
  | _ => false

theorem rank_le (target : Nat) : r.rank target ≤ 13 * (target - r.written.length + 2) := by
  have hphase : r.phase ≤ 12 := by
    unfold RecordThread.phase
    split
    · exact Nat.le_refl _
    · have hrank := r.queue.consumer.rank_le
      omega
    · decide
    · decide
    · decide
    · decide
  have hbonus : (if r.stale target then 13 else 0) ≤ 13 := by split <;> omega
  unfold RecordThread.rank
  split
  · exact Nat.zero_le _
  · omega

theorem Going.run (h : Going maxSize dir target r) (hio : io.Reliable) (hmax : ∃ m, maxBlock = 2 ^ (m + 1) ∧ m < 62)
    (as : List RecordAction) (has : ∀ a ∈ as, a ≠ .stop) :
    (Lib.run (RecordThread.step maxBlock w io) r as).rank target ≤ r.rank target - as.countP RecordAction.isSvc := by
  refine run_rank (P := fun a => a ≠ .stop) (I := Going maxSize dir target) _ _ (fun r a hr ha => ?_) as r h has
  have hnext : Going maxSize dir target (r.step maxBlock w io a) := hr.step hio hmax ha
  refine ⟨hnext, ?_⟩
  cases a with
  | stop => exact absurd rfl ha
  | svc => exact hr.rank_svcStep hio hnext
  | put x =>
      have hstep : r.step maxBlock w io (.put x) = _ := putStep_alive hr.alive.2 (.enqueue x .canAlloc)
      rw [hstep] at hnext ⊢
      exact hnext.rank_putStep (Or.inl ⟨x, .canAlloc, rfl⟩)
  | produce memory =>
      have hstep : r.step maxBlock w io (.produce memory) = _ := putStep_alive hr.alive.2 (.produce memory)
      rw [hstep] at hnext ⊢
      exact hnext.rank_putStep (Or.inr ⟨memory, rfl⟩)

/-- What was put stays put, in a whole run. -/
theorem run_enqueued (as : List RecordAction) (r : RecordThread) :
    r.queue.enqueued <+: (Lib.run (RecordThread.step maxBlock w io) r as).queue.enqueued := by
  have hput : ∀ (r : RecordThread) a, r.queue.enqueued <+: (r.putStep maxBlock a).queue.enqueued := by
    intro r a
    unfold RecordThread.putStep
    split
    · exact List.prefix_refl _
    · exact step_enqueued maxBlock a
  induction as generalizing r with
  | nil => exact List.prefix_refl _
  | cons a as ih =>
      refine List.IsPrefix.trans ?_ (ih (r.step maxBlock w io a))
      cases a with
      | put x => exact hput r _
      | produce memory => exact hput r _
      | stop => exact List.prefix_refl _
      | svc =>
          show r.queue.enqueued <+: (r.svcStep maxBlock w io).queue.enqueued
          unfold RecordThread.svcStep
          split
          · exact step_enqueued maxBlock _
          · split
            · exact List.prefix_refl _
            · exact List.prefix_refl _
            · exact step_enqueued maxBlock _
          · exact List.prefix_refl _
          · exact List.prefix_refl _
          · exact List.prefix_refl _
          · exact List.prefix_refl _

/-- A thread that nothing has stopped. -/
theorem Going.start (hio : io.Reliable) (hmax : ∃ m, maxBlock = 2 ^ (m + 1) ∧ m < 62) (hpos : 0 < maxSize) (hsize : maxSize < 2 ^ 63)
    (info : TimerFileInfo) (dir : ByteStr → Option ByteStr) (as : List RecordAction) (has : ∀ a ∈ as, a ≠ .stop) :
    Going maxSize dir 0 (Lib.run (RecordThread.step maxBlock w io) (.start maxBlock w maxSize info dir) as) := by
  apply run_invariant (P := fun _ a => a ≠ RecordAction.stop) (fun _ a hr ha => hr.step hio hmax ha) as
  · exact ⟨Recording.start hmax hpos hsize info dir, rfl, by simp [RecordThread.start], Nat.zero_le _⟩
  · exact along_of_mem as has _

/-- What is not written yet is in the queue, but for one message in the thread's hand. -/
theorem Recording.waiting_le (h : Recording maxSize dir r) : r.queue.enqueued.length - r.written.length ≤ r.queue.size + 1 := by
  have hresult : r.queue.consumer.result.length ≤ 1 := by
    unfold Consumer.result
    split
    · exact Nat.le_refl _
    · exact Nat.zero_le _
  have htaken : r.queue.dequeued.length ≤ r.written.length + 1 := by
    have hfacts := h.facts
    rw [← List.length_map (f := cut)]
    cases hsvc : r.svc with
    | asking | leaving | ended =>
        rw [hsvc] at hfacts
        rw [hfacts.2]
        exact Nat.le_succ _
    | checking =>
        rw [hsvc] at hfacts
        rw [hfacts.2.1]
        exact Nat.le_succ _
    | reading =>
        rw [hsvc] at hfacts
        rw [hfacts.2, List.length_append, List.length_map]
        omega
    | writing x =>
        rw [hsvc] at hfacts
        rw [hfacts.2, List.length_append]
        exact Nat.le_refl _
  unfold System.size
  omega

/-- **Every message is written.** As long as nobody calls `stop` and the disk is reliable, thirteen steps of `svc` for each
    message that is in the queue now, and thirty-nine more, are enough for the files to hold all that was put, whatever the
    thread that puts does between them; and it never uses a deleted queue. -/
theorem record_written (hio : io.Reliable) (hmax : ∃ m, maxBlock = 2 ^ (m + 1) ∧ m < 62) (hpos : 0 < maxSize)
    (hsize : maxSize < 2 ^ 63) (info : TimerFileInfo) (dir : ByteStr → Option ByteStr) (as₀ as : List RecordAction)
    (hgo : ∀ a ∈ as₀ ++ as, a ≠ .stop)
    (hcount : 13 * ((Lib.run (RecordThread.step maxBlock w io) (.start maxBlock w maxSize info dir) as₀).queue.size + 3) ≤
      as.countP RecordAction.isSvc) :
    let init := RecordThread.start maxBlock w maxSize info dir
    let r := Lib.run (RecordThread.step maxBlock w io) init (as₀ ++ as)
    r.misused = false ∧ ∃ records, r.file.Holds dir records ∧
      (Lib.run (RecordThread.step maxBlock w io) init as₀).queue.enqueued.map cut <+: records := by
  have halive : ∀ bs, bs <+: as₀ ++ as →
      (Lib.run (RecordThread.step maxBlock w io) (.start maxBlock w maxSize info dir) bs).svc ≠ .ended := fun bs hbs =>
    (Going.start (w := w) hio hmax hpos hsize info dir bs fun a ha => hgo a (hbs.subset ha)).alive.2
  refine ⟨?_, ?_⟩
  · rw [← Bool.not_eq_true, misused_iff rfl]
    rintro ⟨bs, a, hbs, hlate⟩
    have hended := halive bs ((List.prefix_append ..).trans hbs)
    cases a with
    | put x => exact hended hlate.1
    | produce memory => exact hended hlate.1
    | stop => exact hlate
    | svc => exact hlate
  · have hgoing₀ := Going.start (w := w) hio hmax hpos hsize info dir as₀ fun a ha => hgo a (List.mem_append_left _ ha)
    have hrun : Lib.run (RecordThread.step maxBlock w io) (.start maxBlock w maxSize info dir) (as₀ ++ as) =
        Lib.run (RecordThread.step maxBlock w io)
          (Lib.run (RecordThread.step maxBlock w io) (.start maxBlock w maxSize info dir) as₀) as := List.foldl_append
    rw [hrun]
    generalize Lib.run (RecordThread.step maxBlock w io) (.start maxBlock w maxSize info dir) as₀ = r at *
    obtain ⟨hrec, hrunning, hopen, -⟩ := hgoing₀
    have hgoing : Going maxSize dir r.queue.enqueued.length r := ⟨hrec, hrunning, hopen, Nat.le_refl _⟩
    have hrank := hgoing.run hio hmax as (w := w) fun a ha => hgo a (List.mem_append_right _ ha)
    have hbound : r.rank r.queue.enqueued.length ≤ as.countP RecordAction.isSvc := by
      have hwaiting := hrec.waiting_le
      have hle := rank_le (r := r) r.queue.enqueued.length
      omega
    -- the rank is zero only when all is written
    have hlen : r.queue.enqueued.length ≤ (Lib.run (RecordThread.step maxBlock w io) r as).written.length := by
      by_contra hless
      have heq := rank_eq (Nat.lt_of_not_le hless)
      omega
    have hrec' := hrec.run hio hmax as (w := w)
    refine ⟨_, hrec'.files, List.prefix_of_prefix_length_le ((run_enqueued as r).map cut) hrec'.written_le ?_⟩
    rwa [List.length_map]

/-- One message. -/
theorem record_written_one :
    let init := RecordThread.start 2 hourClock 1 smallFiles fun _ => none
    let puts : List RecordAction := .put (text "a") :: List.replicate 3 (.produce true)
    (Lib.run (RecordThread.step 2 hourClock .calm) init puts).queue.enqueued = [text "a"] ∧
    ∃ records, (Lib.run (RecordThread.step 2 hourClock .calm) init (puts ++ List.replicate 52 .svc)).file.Holds
        (fun _ => none) records ∧
      (Lib.run (RecordThread.step 2 hourClock .calm) init puts).queue.enqueued.map cut <+: records :=
  have hmax : ∃ m, 2 = 2 ^ (m + 1) ∧ m < 62 := ⟨0, rfl, by decide⟩
  have hpos : 0 < 1 := by decide
  ⟨by decide +kernel,
    (record_written Stdio.calm_reliable hmax hpos (by decide) smallFiles (fun _ => none) _ _ (by simp)
      (by decide +kernel)).2⟩

end End
end Record
end MqttServer
