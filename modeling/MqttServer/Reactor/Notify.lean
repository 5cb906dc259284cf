import MqttServer.Codec.Msg
import MqttServer.Common.Mbuf
import MqttServer.Lib.Fair

/-!
# `Reactor.Notify` — the notify queue between threads

`CPollerEpoll::notify` runs in the threads of the HTTP server and of the bridge client: under a mutex it pushes a
message onto the deque and then adds one to an eventfd. `CPollerNotifyFd::handle_input` runs in the reactor thread
when `epoll_wait` has seen that the counter is not zero: it clears the counter and then pops and publishes until the
deque is empty; `pop_front` takes no lock. Every operation on the deque and every `read` or `write` of the eventfd
is one step, and the threads interleave in any way.

The consumer clears the counter before it drains and the producers push before they signal, so no message is left
without a signal (`Queue.wakeup`), and every message that was pushed is published in its turn
(`pushed_leadsTo_published`).
-/

namespace MqttServer

open Lib

/-- A message the notifier can publish. -/
def WellFormed (buf : Buf) : Prop := buf.1.msgType = .publish ∧ (Publish.decode.decode buf.unread).isSome

/-! ## The two sides -/

/-- Where a thread is in `CPollerEpoll::notify`: outside, with the mutex and its message, between `push_back` and the
    `::write` of the eventfd, or after it. -/
inductive Producer where
  | idle
  | locked (m : Buf)
  | pushed
  | written

/-- Where the reactor thread is: outside `handle_input`, called because of the eventfd, in the loop before
    `pop_front`, or with a message it has popped. `closed` is what a negative result of `handle_input` leads to. -/
inductive Consumer where
  | outside
  | woken
  | draining
  | popped (m : Buf)
  | closed

/-- The message taken from the deque and not published yet. -/
def Consumer.hand : Consumer → List Buf
  | .popped m => [m]
  | _ => []

/-- What the threads share, where each of them is, and a record of what was pushed and published. `writer` says that
    `m_notify_writer` is not null. -/
structure NotifyState (ι : Type) where
  mutex : Option ι := none
  producers : ι → Producer := fun _ => .idle
  writer : Bool := true
  deque : List Buf := []
  counter : Nat := 0
  reactor : Consumer := .outside
  pushed : List Buf := []
  published : List Buf := []

/-- The largest value of the counter of an eventfd. -/
def eventfdMax : Nat := 2 ^ 64 - 2

/-- `::write` of the value one to a non-blocking eventfd: it fails when the counter is at its limit. -/
def eventfdWrite (counter : Nat) : Nat := if counter < eventfdMax then counter + 1 else counter

/-- Who makes a step: a caller that enters `notify`, a thread that is in it, or the reactor. -/
inductive Actor (ι : Type) where
  | caller (i : ι)
  | producer (i : ι)
  | reactor

variable {ι : Type} [DecidableEq ι]

/-- One step. `made` says which messages `notify` is called with. -/
inductive NotifyStep (made : Buf → Prop) (s : NotifyState ι) : Actor ι → NotifyState ι → Prop where
  | call (i : ι) (m : Buf) (hm : made m) (hp : s.producers i = .idle) (hfree : s.mutex = none) :
      NotifyStep made s (.caller i)
        { s with mutex := some i, producers := Function.update s.producers i (.locked m) }
  | refuse (i : ι) (m : Buf) (hp : s.producers i = .locked m) (hw : s.writer = false) :
      NotifyStep made s (.producer i)
        { s with mutex := none, producers := Function.update s.producers i .idle }
  | push (i : ι) (m : Buf) (hp : s.producers i = .locked m) (hw : s.writer = true) :
      NotifyStep made s (.producer i)
        { s with deque := s.deque ++ [m], pushed := s.pushed ++ [m]
                 producers := Function.update s.producers i .pushed }
  | write (i : ι) (hp : s.producers i = .pushed) :
      NotifyStep made s (.producer i)
        { s with counter := eventfdWrite s.counter, producers := Function.update s.producers i .written }
  | unlock (i : ι) (hp : s.producers i = .written) :
      NotifyStep made s (.producer i)
        { s with mutex := none, producers := Function.update s.producers i .idle }
  | wake (hr : s.reactor = .outside) (hc : 0 < s.counter) :
      NotifyStep made s .reactor { s with reactor := .woken }
  | read (hr : s.reactor = .woken) : NotifyStep made s .reactor { s with counter := 0, reactor := .draining }
  | pop (m : Buf) (ms : List Buf) (hr : s.reactor = .draining) (hd : s.deque = m :: ms) :
      NotifyStep made s .reactor { s with deque := ms, reactor := .popped m }
  | leave (hr : s.reactor = .draining) (hd : s.deque = []) :
      NotifyStep made s .reactor { s with reactor := .outside }
  | publish (m : Buf) (msg : Publish) (hr : s.reactor = .popped m) (ht : m.1.msgType = .publish)
      (hd : Publish.decode.decode m.unread = some msg) :
      NotifyStep made s .reactor { s with reactor := .draining, published := s.published ++ [m] }
  | unknown (m : Buf) (hr : s.reactor = .popped m) (ht : m.1.msgType ≠ .publish) :
      NotifyStep made s .reactor { s with reactor := .draining }
  | fail (m : Buf) (hr : s.reactor = .popped m) (ht : m.1.msgType = .publish)
      (hd : Publish.decode.decode m.unread = none) :
      NotifyStep made s .reactor { s with reactor := .closed, writer := false }

variable {made : Buf → Prop} {s s' : NotifyState ι} {a : Actor ι}

/-! ## Safety -/

/-- The invariant: what was pushed is published, in the hand of the reactor, or in the deque, in this order; all of
    it can be published; and whenever the reactor is outside its loop, a message in the deque has its signal, or is
    about to get it. -/
structure Queue (s : NotifyState ι) : Prop where
  flow : s.published ++ s.reactor.hand ++ s.deque = s.pushed
  formed : ∀ m ∈ s.reactor.hand ++ s.deque, WellFormed m
  called : ∀ i m, s.producers i = .locked m → WellFormed m
  opened : s.writer = true
  alive : s.reactor ≠ .closed
  wakeup : s.deque ≠ [] → s.reactor = .outside → 0 < s.counter ∨ ∃ i, s.producers i = .pushed

omit [DecidableEq ι] in
theorem Queue.empty : Queue ({} : NotifyState ι) where
  flow := rfl
  formed := fun _ h => by cases h
  called := fun _ _ h => by cases h
  opened := rfl
  alive := fun h => by cases h
  wakeup := fun h => absurd rfl h

/-- A producer that does not hold a message is no new holder of one. -/
theorem called_update {f : ι → Producer} {i : ι} {p : Producer} (h : ∀ i m, f i = .locked m → WellFormed m)
    (hp : ∀ m, p = .locked m → WellFormed m) :
    ∀ j m, Function.update f i p j = .locked m → WellFormed m := by
  intro j m hj
  by_cases he : j = i
  · subst he
    rw [Function.update_self] at hj
    exact hp m hj
  · rw [Function.update_of_ne he] at hj
    exact h j m hj

theorem eventfdWrite_pos (counter : Nat) : 0 < eventfdWrite counter := by
  unfold eventfdWrite eventfdMax
  split <;> omega

/-- A step of a producer that leaves the deque and the counter alone keeps the wake-up, unless it was the one that
    had to signal. -/
theorem Queue.wakeup_update (h : Queue s) {i : ι} {p : Producer} (hp : s.producers i ≠ .pushed) :
    s.deque ≠ [] → s.reactor = .outside →
      0 < s.counter ∨ ∃ j, Function.update s.producers i p j = .pushed := by
  intro hd hr
  rcases h.wakeup hd hr with hc | ⟨j, hj⟩
  · exact Or.inl hc
  · refine Or.inr ⟨j, ?_⟩
    rw [Function.update_of_ne]
    · exact hj
    · rintro rfl
      exact hp hj

/-- **One step.** -/
theorem NotifyStep.queue (hmade : ∀ m, made m → WellFormed m) (h : NotifyStep made s a s') (hs : Queue s) :
    Queue s' := by
  cases h with
  | call i m hm hp hfree =>
      refine ⟨hs.flow, hs.formed, called_update hs.called fun m' hm' => ?_, hs.opened, hs.alive,
        hs.wakeup_update (by rw [hp]; exact fun h => by cases h)⟩
      cases hm'
      exact hmade m hm
  -- the writer is registered before the reactor runs, and stays so
  | refuse i m hp hw =>
      rw [hs.opened] at hw
      cases hw
  | push i m hp hw =>
      refine ⟨?_, fun m' hm' => ?_, called_update hs.called (fun _ h => by cases h), hs.opened, hs.alive,
        fun _ _ => Or.inr ⟨i, Function.update_self _ _ _⟩⟩
      · show s.published ++ s.reactor.hand ++ (s.deque ++ [m]) = s.pushed ++ [m]
        rw [← List.append_assoc, hs.flow]
      · rw [← List.append_assoc] at hm'
        rcases List.mem_append.mp hm' with hm' | hm'
        · exact hs.formed m' hm'
        · rw [List.mem_singleton.mp hm']
          exact hs.called i m hp
  | write i hp =>
      exact ⟨hs.flow, hs.formed, called_update hs.called (fun _ h => by cases h), hs.opened, hs.alive,
        fun _ _ => Or.inl (eventfdWrite_pos _)⟩
  | unlock i hp =>
      exact ⟨hs.flow, hs.formed, called_update hs.called (fun _ h => by cases h), hs.opened, hs.alive,
        hs.wakeup_update (by rw [hp]; exact fun h => by cases h)⟩
  | wake hr hc =>
      have hflow := hs.flow
      have hformed := hs.formed
      rw [hr] at hflow hformed
      exact ⟨hflow, hformed, hs.called, hs.opened, (fun h => by cases h), fun _ h => by cases h⟩
  | read hr =>
      have hflow := hs.flow
      have hformed := hs.formed
      rw [hr] at hflow hformed
      exact ⟨hflow, hformed, hs.called, hs.opened, (fun h => by cases h), fun _ h => by cases h⟩
  | pop m ms hr hd =>
      have hflow := hs.flow
      have hformed := hs.formed
      rw [hr, hd] at hflow hformed
      refine ⟨?_, hformed, hs.called, hs.opened, (fun h => by cases h), fun _ h => by cases h⟩
      show s.published ++ [m] ++ ms = s.pushed
      rw [← hflow]
      simp [Consumer.hand]
  | leave hr hd =>
      have hflow := hs.flow
      have hformed := hs.formed
      rw [hr] at hflow hformed
      exact ⟨hflow, hformed, hs.called, hs.opened, (fun h => by cases h), fun hne => absurd hd hne⟩
  | publish m msg hr ht hd =>
      have hflow := hs.flow
      have hformed := hs.formed
      rw [hr] at hflow hformed
      refine ⟨?_, fun m' hm' => hformed m' (List.mem_append_right _ hm'), hs.called, hs.opened,
        (fun h => by cases h), fun _ h => by cases h⟩
      show s.published ++ [m] ++ [] ++ s.deque = s.pushed
      rw [List.append_nil]
      exact hflow
  -- what was pushed is well formed: it has a known type and decodes
  | unknown m hr ht =>
      have hformed := hs.formed
      rw [hr] at hformed
      exact absurd (hformed m List.mem_cons_self).1 ht
  | fail m hr ht hd =>
      have hformed := hs.formed
      rw [hr] at hformed
      have hdec := (hformed m List.mem_cons_self).2
      rw [hd] at hdec
      cases hdec

/-- The states threads can get into by interleaving. -/
inductive NotifyReach (made : Buf → Prop) : NotifyState ι → Prop where
  | start : NotifyReach made {}
  | step {s s' : NotifyState ι} {a : Actor ι} (h : NotifyReach made s) (hs : NotifyStep made s a s') :
      NotifyReach made s'

theorem NotifyReach.queue (hmade : ∀ m, made m → WellFormed m) (h : NotifyReach made s) : Queue s := by
  induction h with
  | start => exact Queue.empty
  | step _ hs ih => exact hs.queue hmade ih

/-! ## Progress -/

section Progress

variable {tr : ℕ → NotifyState ι} {p : ℕ}

/-- The steps of each actor. -/
def acts (made : Buf → Prop) (a : Actor ι) (s s' : NotifyState ι) : Prop := NotifyStep made s a s'

/-- Every thread that is in `notify` goes on, and so does the reactor. -/
def FairRun (made : Buf → Prop) (tr : ℕ → NotifyState ι) : Prop :=
  WeakFair (acts made) .reactor tr ∧ ∀ i, WeakFair (acts made) (.producer i) tr

/-- How far the reactor is from publishing a message. -/
def Consumer.rank : Consumer → ℕ
  | .popped _ => 0
  | .draining => 1
  | .woken => 2
  | .outside => 3
  | .closed => 4

/-- `p` messages are published, and more wait. -/
def Behind (p : ℕ) (s : NotifyState ι) : Prop := s.published.length = p ∧ s.reactor.hand ++ s.deque ≠ []

/-- One more is published. -/
def Ahead (p : ℕ) (s : NotifyState ι) : Prop := p < s.published.length

/-- The reactor can go on. -/
def Primed (p r : ℕ) (s : NotifyState ι) : Prop :=
  Behind p s ∧ s.reactor.rank = r ∧ (s.reactor = .outside → 0 < s.counter)

/-- A producer neither moves the reactor nor takes a message away or a signal back. -/
theorem NotifyStep.producer_keeps (hs : NotifyStep made s a s') (ha : a ≠ .reactor) :
    s'.reactor = s.reactor ∧ s'.published = s.published ∧ s.deque <+: s'.deque ∧ (0 < s.counter → 0 < s'.counter) := by
  cases hs with
  | call => exact ⟨rfl, rfl, List.prefix_refl _, fun h => h⟩
  | refuse => exact ⟨rfl, rfl, List.prefix_refl _, fun h => h⟩
  | push => exact ⟨rfl, rfl, List.prefix_append _ _, fun h => h⟩
  | write => exact ⟨rfl, rfl, List.prefix_refl _, fun _ => eventfdWrite_pos _⟩
  | unlock => exact ⟨rfl, rfl, List.prefix_refl _, fun h => h⟩
  | _ => exact absurd rfl ha

theorem Behind.producer (h : Behind p s) (hs : NotifyStep made s a s') (ha : a ≠ .reactor) : Behind p s' := by
  obtain ⟨hr, hp, hd, -⟩ := hs.producer_keeps ha
  refine ⟨by rw [hp]; exact h.1, fun hnil => h.2 ?_⟩
  rw [hr] at hnil
  obtain ⟨hhand, hdeque⟩ := List.append_eq_nil_iff.mp hnil
  rw [hdeque] at hd
  rw [hhand, List.prefix_nil.mp hd]
  rfl

/-- **A step of the reactor** publishes a message or brings it closer to that. -/
theorem Behind.reactor (h : Behind p s) (hq : Queue s) (hs : NotifyStep made s .reactor s') :
    Ahead p s' ∨ (Behind p s' ∧ s'.reactor.rank < s.reactor.rank ∧ s'.reactor ≠ .outside) := by
  obtain ⟨hp, hne⟩ := h
  cases hs with
  | wake hr hc =>
      rw [hr] at hne ⊢
      exact Or.inr ⟨⟨hp, hne⟩, Nat.lt_succ_self 2, fun h => by cases h⟩
  | read hr =>
      rw [hr] at hne ⊢
      exact Or.inr ⟨⟨hp, hne⟩, Nat.lt_succ_self 1, fun h => by cases h⟩
  | pop m ms hr hd =>
      rw [hr]
      exact Or.inr ⟨⟨hp, fun h => by cases h⟩, Nat.zero_lt_one, fun h => by cases h⟩
  | leave hr hd =>
      rw [hr, hd] at hne
      exact absurd rfl hne
  | publish m msg hr ht hd =>
      refine Or.inl ?_
      show p < (s.published ++ [m]).length
      rw [List.length_append, hp]
      exact Nat.lt_succ_self _
  | unknown m hr ht =>
      have hformed := hq.formed
      rw [hr] at hformed
      exact absurd (hformed m List.mem_cons_self).1 ht
  | fail m hr ht hd =>
      have hformed := hq.formed
      rw [hr] at hformed
      have hdec := (hformed m List.mem_cons_self).2
      rw [hd] at hdec
      cases hdec

theorem Primed.enabled {r : ℕ} (h : Primed p r s) (hq : Queue s) : ∃ s', NotifyStep made s .reactor s' := by
  obtain ⟨⟨-, hne⟩, -, hcounter⟩ := h
  cases hr : s.reactor with
  | outside => exact ⟨_, .wake hr (hcounter hr)⟩
  | woken => exact ⟨_, .read hr⟩
  | draining =>
      cases hd : s.deque with
      | nil => exact ⟨_, .leave hr hd⟩
      | cons m ms => exact ⟨_, .pop m ms hr hd⟩
  | popped m =>
      have hin : m ∈ s.reactor.hand ++ s.deque := by
        rw [hr]
        exact List.mem_cons_self
      obtain ⟨ht, hdec⟩ := hq.formed m hin
      obtain ⟨msg, hmsg⟩ := Option.isSome_iff_exists.mp hdec
      exact ⟨_, .publish m msg hr ht hmsg⟩
  | closed => exact absurd hr hq.alive

/-- Only the producer itself leaves the point between its push and its signal. -/
theorem NotifyStep.signals {i : ι} (hs : NotifyStep made s a s') (hi : s.producers i = .pushed) :
    (a = .producer i ∧ 0 < s'.counter) ∨ (a ≠ .producer i ∧ s'.producers i = .pushed) := by
  -- another producer, as it is somewhere else
  have other : ∀ {j : ι} {p : Producer} (p' : Producer), s.producers j = p → p ≠ .pushed →
      j ≠ i ∧ Function.update s.producers j p' i = .pushed := by
    intro j p p' hj hp
    have hne : j ≠ i := by
      rintro rfl
      exact hp (hj.symm.trans hi)
    exact ⟨hne, by rw [Function.update_of_ne (Ne.symm hne)]; exact hi⟩
  cases hs with
  | call j m hm hp hfree => exact Or.inr ⟨(fun h => by cases h), (other _ hp (fun h => by cases h)).2⟩
  | refuse j m hp hw =>
      obtain ⟨hne, hpoint⟩ := other .idle hp (fun h => by cases h)
      exact Or.inr ⟨fun h => hne (by cases h; rfl), hpoint⟩
  | push j m hp hw =>
      obtain ⟨hne, hpoint⟩ := other .pushed hp (fun h => by cases h)
      exact Or.inr ⟨fun h => hne (by cases h; rfl), hpoint⟩
  | write j hp =>
      by_cases hj : j = i
      · subst hj
        exact Or.inl ⟨rfl, eventfdWrite_pos _⟩
      · refine Or.inr ⟨fun h => hj (by cases h; rfl), ?_⟩
        show Function.update s.producers j .written i = .pushed
        rw [Function.update_of_ne (Ne.symm hj)]
        exact hi
  | unlock j hp =>
      obtain ⟨hne, hpoint⟩ := other .idle hp (fun h => by cases h)
      exact Or.inr ⟨fun h => hne (by cases h; rfl), hpoint⟩
  | _ => exact Or.inr ⟨(fun h => by cases h), hi⟩

omit [DecidableEq ι] in
/-- What waits has its signal, or a producer that will give it. -/
theorem Behind.primed (h : Behind p s) (hq : Queue s) : (∃ r, Primed p r s) ∨ ∃ i, s.producers i = .pushed := by
  by_cases hr : s.reactor = .outside
  · have hd : s.deque ≠ [] := by
      have hne := h.2
      rw [hr] at hne
      exact hne
    rcases hq.wakeup hd hr with hc | hi
    · exact Or.inl ⟨_, h, rfl, fun _ => hc⟩
    · exact Or.inr hi
  · exact Or.inl ⟨_, h, rfl, fun he => absurd he hr⟩

theorem NotifyStep.pushed_length (hs : NotifyStep made s a s') : s.pushed.length ≤ s'.pushed.length := by
  cases hs with
  | push i m =>
      show s.pushed.length ≤ (s.pushed ++ [m]).length
      rw [List.length_append]
      exact Nat.le_add_right _ _
  | _ => exact Nat.le_refl _

variable (hrun : IsRun (acts made) {} tr) (hfair : FairRun made tr) (hqueue : ∀ n, Queue (tr n))

include hrun hfair hqueue

/-- Once the reactor can go on, the next message is published: by induction on its distance from that. -/
theorem primed_leadsTo_ahead (r : ℕ) : LeadsTo tr (Primed p r) (Ahead p) := by
  induction r using Nat.strong_induction_on with
  | _ r ih =>
      have hcloser : LeadsTo tr (Primed p r) fun s => Ahead p s ∨ ∃ r' < r, Primed p r' s := by
        have hact : ∀ s s' : NotifyState ι, Queue s → Primed p r s → acts made .reactor s s' →
            Ahead p s' ∨ ∃ r' < r, Primed p r' s' := by
          intro s s' hq h hs
          rcases h.1.reactor hq hs with ha | ⟨hb, hlt, hout⟩
          · exact Or.inl ha
          · rw [h.2.1] at hlt
            exact Or.inr ⟨_, hlt, hb, rfl, fun he => absurd he hout⟩
        refine leadsTo_fair hrun hfair.1 hqueue (fun s hq h => h.enabled hq) hact fun a s s' hq h hs => ?_
        by_cases ha : a = .reactor
        · subst ha
          exact Or.inr (hact s s' hq h hs)
        · obtain ⟨hr, -, -, hc⟩ := hs.producer_keeps ha
          refine Or.inl ⟨h.1.producer hs ha, by rw [hr]; exact h.2.1, fun he => hc (h.2.2 ?_)⟩
          rw [← hr]
          exact he
      intro n hn
      obtain ⟨n₁, hn₁, ha | ⟨r', hr', h'⟩⟩ := hcloser n hn
      · exact ⟨n₁, hn₁, ha⟩
      · obtain ⟨n₂, hn₂, ha⟩ := ih r' hr' n₁ h'
        exact ⟨n₂, Nat.le_trans hn₁ hn₂, ha⟩

/-- A message whose producer has not signalled yet gets its signal. -/
theorem pushed_leadsTo_primed (i : ι) : LeadsTo tr (fun s => Behind p s ∧ s.producers i = .pushed)
    fun s => Ahead p s ∨ ∃ r, Primed p r s := by
  refine leadsTo_fair hrun (hfair.2 i) hqueue (fun s _ h => ⟨_, .write i h.2⟩) (fun s s' hq h hs => ?_)
    fun a s s' hq h hs => ?_
  · rcases hs.signals h.2 with ⟨-, hc⟩ | ⟨hne, -⟩
    · exact Or.inr ⟨_, h.1.producer hs (fun h => by cases h), rfl, fun _ => hc⟩
    · exact absurd rfl hne
  · by_cases ha : a = .reactor
    · subst ha
      rcases h.1.reactor hq hs with ha | ⟨hb, -, hout⟩
      · exact Or.inr (Or.inl ha)
      · exact Or.inr (Or.inr ⟨_, hb, rfl, fun he => absurd he hout⟩)
    · have hb := h.1.producer hs ha
      rcases hs.signals h.2 with ⟨-, hc⟩ | ⟨-, hpoint⟩
      · exact Or.inr (Or.inr ⟨_, hb, rfl, fun _ => hc⟩)
      · exact Or.inl ⟨hb, hpoint⟩

theorem behind_leadsTo_ahead : LeadsTo tr (Behind p) (Ahead p) := by
  have hprimed : LeadsTo tr (fun s => Ahead p s ∨ ∃ r, Primed p r s) (Ahead p) := by
    rintro n (ha | ⟨r, hr⟩)
    · exact ⟨n, Nat.le_refl n, ha⟩
    · exact primed_leadsTo_ahead hrun hfair hqueue r n hr
  intro n hb
  rcases hb.primed (hqueue n) with hr | ⟨i, hi⟩
  · exact hprimed n (Or.inr hr)
  · exact ((pushed_leadsTo_primed hrun hfair hqueue i).trans hprimed) n ⟨hb, hi⟩

/-- **Every message that was pushed is published.** -/
theorem pushed_leadsTo_published {n j : ℕ} (hj : j < (tr n).pushed.length) :
    ∃ n', n ≤ n' ∧ j < (tr n').published.length := by
  have hpushed : ∀ {n n'}, n ≤ n' → (tr n).pushed.length ≤ (tr n').pushed.length :=
    hrun.mono fun _ _ _ hs => NotifyStep.pushed_length hs
  -- by induction on how many messages are published before it
  have hcount : ∀ d n, j < (tr n).pushed.length → j + 1 ≤ (tr n).published.length + d →
      ∃ n', n ≤ n' ∧ j < (tr n').published.length := by
    intro d
    induction d with
    | zero => exact fun n _ hd => ⟨n, Nat.le_refl n, hd⟩
    | succ d ih =>
        intro n hj hd
        by_cases hdone : j < (tr n).published.length
        · exact ⟨n, Nat.le_refl n, hdone⟩
        · have hbehind : Behind (tr n).published.length (tr n) := by
            refine ⟨rfl, fun hnil => ?_⟩
            have hflow := (hqueue n).flow
            rw [List.append_assoc, hnil, List.append_nil] at hflow
            rw [hflow] at hdone
            exact hdone hj
          obtain ⟨n₁, hn₁, ha⟩ := behind_leadsTo_ahead hrun hfair hqueue n hbehind
          obtain ⟨n₂, hn₂, hp⟩ := ih n₁ (Nat.lt_of_lt_of_le hj (hpushed hn₁)) (by
            unfold Ahead at ha
            omega)
          exact ⟨n₂, Nat.le_trans hn₁ hn₂, hp⟩
  exact hcount (j + 1) n hj (Nat.le_add_left _ _)

end Progress

end MqttServer
