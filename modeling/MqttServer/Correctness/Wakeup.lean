import MqttServer.Correctness.Notify

/-!
# `Correctness.Wakeup` — the notify queue of the broker and the queue between threads

`Server.Poller` lets another thread publish between two events, in one move. `Reactor.Notify` interleaves the single
steps of the threads. Every run of the broker is one of these interleavings (`RunsWhen.mirrored`); what holds of all
of them is `notify_loses_nothing`.
-/

namespace MqttServer

open Lib

variable {env : Env} {mp : MsgPack} {b b' : Broker}

/-- The threads that call `CPollerEpoll::notify`. -/
inductive Feeder where
  | http | bridge
deriving DecidableEq, Repr

/-- Nobody is in `notify` or in `handle_input`, and the two queues are the same. -/
structure Mirrors (c : NotifyState Feeder) (b : Broker) : Prop where
  reach : NotifyReach Made c
  deque : c.deque = b.notifyDeque.map b.bufs
  reactor : c.reactor = .outside
  idle : ∀ i, c.producers i = .idle
  free : c.mutex = none

/-- A call of `notify` that nobody interrupts. -/
theorem NotifyReach.call {c : NotifyState Feeder} {buf : Buf} (i : Feeder) (h : NotifyReach Made c) (hbuf : Made buf)
    (hidle : ∀ i, c.producers i = .idle) (hfree : c.mutex = none) :
    ∃ c' : NotifyState Feeder, NotifyReach Made c' ∧ c'.deque = c.deque ++ [buf] ∧ c'.reactor = c.reactor ∧
      (∀ i, c'.producers i = .idle) ∧ c'.mutex = none := by
  have hq : Queue c := h.queue fun m => Made.wellFormed
  have hlocked := h.step (.call i buf hbuf (hidle i) hfree)
  have hpushed := hlocked.step (.push i buf (Function.update_self _ _ _) hq.opened)
  have hwritten := hpushed.step (.write i (Function.update_self _ _ _))
  refine ⟨_, hwritten.step (.unlock i (Function.update_self _ _ _)), rfl, rfl, fun j => ?_, rfl⟩
  simp only [Function.update_idem]
  by_cases hj : j = i
  · subst hj
    exact Function.update_self _ _ _
  · rw [Function.update_of_ne hj]
    exact hidle j

/-- The drain loop is a sequence of steps of the reactor. -/
theorem notifyLoop_mirrored {r : Int} (ms : List MbufId) : ∀ (b : Broker) (c : NotifyState Feeder),
    b.notifyDeque = ms → Tidy idle b → notifyLoop env ms b = .ok (r, b') → NotifyReach Made c →
    c.deque = ms.map b.bufs → c.reactor = .draining →
    ∃ c', NotifyReach Made c' ∧ c'.deque = [] ∧ c'.reactor = .outside ∧ c'.producers = c.producers ∧
      c'.mutex = c.mutex := by
  induction ms with
  | nil =>
      intro b c _ _ _ hc hd hr
      exact ⟨_, hc.step (.leave hr hd), hd, rfl, rfl, rfl⟩
  | cons m ms ih =>
      intro b c hq hb h hc hd hr
      obtain ⟨msg, b₁, htype, hdec, ht, hl, h⟩ := notifyLoop_round hq hb h
      have hpopped := hc.step (.pop _ _ hr hd)
      have hpublished := hpopped.step (.publish _ msg rfl htype hdec)
      have hsame : ms.map b.bufs = ms.map b₁.bufs :=
        List.map_congr_left fun m' hm' => (hl.bufs m' hm').symm
      obtain ⟨c', hc', hd', hr', hp', hm'⟩ := ih b₁ _ hl.deque ht h hpublished hsame rfl
      exact ⟨c', hc', hd', hr', hp', hm'⟩

/-- What a move does to the queue, the threads can do. -/
theorem QueueMove.mirrored {c : NotifyState Feeder} (h : QueueMove env b b') (hb : Tidy idle b) (hc : Mirrors c b) :
    ∃ c', Mirrors c' b' := by
  cases h with
  | keep _ hl =>
      refine ⟨c, hc.reach, ?_, hc.reactor, hc.idle, hc.free⟩
      rw [hc.deque, hl.deque]
      exact List.map_congr_left fun m hm => (hl.bufs m hm).symm
  | @push buf store hbuf =>
      obtain ⟨c', hc', hd, hr, hidle, hfree⟩ := hc.reach.call .http hbuf hc.idle hc.free
      refine ⟨c', hc', ?_, hr.trans hc.reactor, hidle, hfree⟩
      show c'.deque = (b.notifyDeque ++ [b.nextBuf]).map (Function.update b.bufs b.nextBuf buf)
      rw [hd, hc.deque, List.map_append, List.map_singleton, Function.update_self]
      congr 1
      refine List.map_congr_left fun m hm => ?_
      rw [Function.update_of_ne (Nat.ne_of_lt (hb.waiting m hm).1)]
  | @drain busy r b₁ ht hloop =>
      obtain ⟨-, -, hempty, -⟩ := notifyLoop_tidy _ _ rfl ht hloop
      cases hq : b.notifyDeque with
      | nil =>
          refine ⟨c, hc.reach, ?_, hc.reactor, hc.idle, hc.free⟩
          show c.deque = b₁.notifyDeque.map b₁.bufs
          rw [hempty, hc.deque, hq]
          rfl
      | cons m ms =>
          have hqueue : Queue c := hc.reach.queue fun m => Made.wellFormed
          have hne : c.deque ≠ [] := by
            rw [hc.deque, hq]
            exact fun h => by cases h
          -- nobody is in `notify`, so the signal has been given
          have hcounter : 0 < c.counter := by
            rcases hqueue.wakeup hne hc.reactor with hpos | ⟨i, hi⟩
            · exact hpos
            · rw [hc.idle] at hi
              cases hi
          have hread := (hc.reach.step (.wake hc.reactor hcounter)).step (.read rfl)
          obtain ⟨c', hc', hd, hr, hidle, hfree⟩ := notifyLoop_mirrored _ _ _ rfl ht hloop hread hc.deque rfl
          refine ⟨c', hc', ?_, hr, fun i => by rw [hidle]; exact hc.idle i, hfree.trans hc.free⟩
          show c'.deque = b₁.notifyDeque.map b₁.bufs
          rw [hempty, hd]
          rfl

/-- **Every run of the broker is an interleaving.** -/
theorem RunsWhen.mirrored {b₀ : Broker} {s : Machine} (hb : Started env mp b₀)
    (h : RunsWhen env mp (fun _ mv _ => Fed mv) b₀ s) : ∃ c, Mirrors c s.broker := by
  induction h with
  | start =>
      refine ⟨{}, .start, ?_, rfl, fun _ => rfl, rfl⟩
      show ([] : List Buf) = b₀.notifyDeque.map b₀.bufs
      rw [hb.tidy.2.2]
      rfl
  | @step s s' mv hrun _ hs hfed ih =>
      obtain ⟨c, hc⟩ := ih
      obtain ⟨ht, ho⟩ := hrun.tidy hb
      exact (Machine.step_queue hfed ht ho hs).mirrored ht hc

/-! ## All interleavings -/

/-- A message waits, and nobody will ever look at it. -/
def Lost {ι : Type} (s : NotifyState ι) : Prop :=
  s.deque ≠ [] ∧ s.counter = 0 ∧ (∀ i, s.producers i ≠ .pushed) ∧ s.reactor = .outside

/-- **The queue between threads loses nothing.** In every run of any number of threads that call `notify` and of the
    reactor: the messages published so far are the first of those pushed, in this order, and the others are in the
    hand of the reactor or in the deque; no message waits without a signal. If the threads that are in `notify` and
    the reactor go on, every message that was pushed is published. -/
theorem notify_loses_nothing {ι : Type} [DecidableEq ι] {tr : ℕ → NotifyState ι}
    (hrun : IsRun (acts Made) {} tr) :
    (∀ n, (tr n).published ++ (tr n).reactor.hand ++ (tr n).deque = (tr n).pushed ∧ ¬ Lost (tr n)) ∧
    (FairRun Made tr → ∀ n j, j < (tr n).pushed.length → ∃ n', n ≤ n' ∧ j < (tr n').published.length) := by
  have hqueue : ∀ n, Queue (tr n) :=
    hrun.invariant Queue.empty fun _ _ _ hs hq => hs.queue (fun m => Made.wellFormed) hq
  refine ⟨fun n => ⟨(hqueue n).flow, fun hlost => ?_⟩, fun hfair n j hj => ?_⟩
  · obtain ⟨hd, hc, hp, hr⟩ := hlost
    rcases (hqueue n).wakeup hd hr with hpos | ⟨i, hi⟩
    · rw [hc] at hpos
      exact Nat.lt_irrefl 0 hpos
    · exact hp i hi
  · exact pushed_leadsTo_published hrun hfair hqueue hj

/-- The HTTP server passes on one message. -/
def oneMessage (m : Buf) : ℕ → NotifyState Feeder
  | 0 => {}
  | 1 => { mutex := some .http, producers := calls [.locked m] }
  | 2 => { mutex := some .http, producers := calls [.locked m, .pushed], deque := [m], pushed := [m] }
  | 3 => { mutex := some .http, producers := calls [.locked m, .pushed, .written], deque := [m], pushed := [m]
           counter := 1 }
  | 4 => { producers := calls [.locked m, .pushed, .written, .idle], deque := [m], pushed := [m], counter := 1 }
  | 5 => { producers := calls [.locked m, .pushed, .written, .idle], deque := [m], pushed := [m], counter := 1
           reactor := .woken }
  | 6 => { producers := calls [.locked m, .pushed, .written, .idle], deque := [m], pushed := [m]
           reactor := .draining }
  | 7 => { producers := calls [.locked m, .pushed, .written, .idle], pushed := [m], reactor := .popped m }
  | 8 => { producers := calls [.locked m, .pushed, .written, .idle], pushed := [m], published := [m]
           reactor := .draining }
  | _ + 9 => { producers := calls [.locked m, .pushed, .written, .idle], pushed := [m], published := [m] }
where
  /-- The HTTP thread goes through some points of `notify`. -/
  calls (ps : List Producer) : Feeder → Producer :=
    ps.foldl (fun f p => Function.update f .http p) fun _ => .idle

theorem oneMessage_step {m : Buf} {msg : Publish} (hm : Made m) (hmsg : Publish.decode.decode m.unread = some msg) :
    ∀ n, oneMessage m (n + 1) = oneMessage m n ∨ ∃ a, NotifyStep Made (oneMessage m n) a (oneMessage m (n + 1))
  | 0 => Or.inr ⟨_, .call Feeder.http m hm rfl rfl⟩
  | 1 => Or.inr ⟨_, .push Feeder.http m rfl rfl⟩
  | 2 => Or.inr ⟨_, .write Feeder.http rfl⟩
  | 3 => Or.inr ⟨_, .unlock Feeder.http rfl⟩
  | 4 => Or.inr ⟨_, .wake rfl Nat.zero_lt_one⟩
  | 5 => Or.inr ⟨_, .read rfl⟩
  | 6 => Or.inr ⟨_, .pop m [] rfl rfl⟩
  | 7 => Or.inr ⟨_, .publish m msg rfl hm.wellFormed.1 hmsg⟩
  | 8 => Or.inr ⟨_, .leave rfl rfl⟩
  | _ + 9 => Or.inl rfl

/-- In the end nobody has anything left to do. -/
theorem oneMessage_end (m : Buf) (n : ℕ) {a : Actor Feeder} {s : NotifyState Feeder}
    (h : NotifyStep Made (oneMessage m (n + 9)) a s) : ∃ i, a = .caller i := by
  have hidle : ∀ i, (oneMessage m (n + 9)).producers i = .idle := by
    intro i
    cases i with
    | http => rfl
    | bridge => rfl
  cases h with
  | call i => exact ⟨i, rfl⟩
  | refuse i m hp =>
      rw [hidle] at hp
      cases hp
  | push i m hp =>
      rw [hidle] at hp
      cases hp
  | write i hp =>
      rw [hidle] at hp
      cases hp
  | unlock i hp =>
      rw [hidle] at hp
      cases hp
  | wake hr hc => exact absurd hc (Nat.lt_irrefl 0)
  | read hr => cases hr
  | pop m ms hr => cases hr
  | leave hr => cases hr
  | publish m msg hr => cases hr
  | unknown m hr => cases hr
  | fail m hr => cases hr

theorem notify_loses_nothing_request : ∃ m, IsRun (acts Made) {} (oneMessage m) ∧ FairRun Made (oneMessage m) ∧
    (oneMessage m 2).pushed.length = 1 ∧ ∃ n', 2 ≤ n' ∧ 0 < (oneMessage m n').published.length := by
  obtain ⟨m, hm⟩ : ∃ m, Made m := by
    obtain ⟨s, p, dup, hs, hp, -⟩ := getMove_fed
    obtain ⟨bytes, he, -⟩ := publishParams_packet hs hp 1 dup
    exact ⟨_, .http s p dup 1 0 bytes hs hp he⟩
  obtain ⟨msg, hmsg⟩ := Option.isSome_iff_exists.mp hm.wellFormed.2
  have hrun : IsRun (acts Made) {} (oneMessage m) := ⟨rfl, oneMessage_step hm hmsg⟩
  have hfair : FairRun Made (oneMessage m) := by
    refine ⟨fun n hen => ?_, fun i n hen => ?_⟩
    · obtain ⟨s', hs'⟩ := hen (n + 9) (Nat.le_add_right _ _)
      obtain ⟨i, hi⟩ := oneMessage_end m n hs'
      cases hi
    · obtain ⟨s', hs'⟩ := hen (n + 9) (Nat.le_add_right _ _)
      obtain ⟨i, hi⟩ := oneMessage_end m n hs'
      cases hi
  exact ⟨m, hrun, hfair, rfl, (notify_loses_nothing hrun).2 hfair 2 0 Nat.zero_lt_one⟩

end MqttServer
