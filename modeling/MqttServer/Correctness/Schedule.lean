import MqttServer.Correctness.Timers

/-!
# `Correctness.Schedule` — when the handlers of timers are called

A timer that was registered at tick `J` with a period of `P` milliseconds is to be called at the ticks `J + P`,
`J + 2 * P` and so on, once at each, as often as it was asked for. The two counters that `itimer_evt_cb` compares wrap:
when `slap` moves past the wrap before `current` does, the timer is called again at once, and a timer that is to sleep
longer than the wheel can hold may be called when it looks at the clock on its way. `Fits` says that this does not
happen to a timer, and then it is on schedule.
-/

namespace MqttServer

open Lib

/-! ## The schedule -/

namespace Registration

/-- A call is to be made at this tick. -/
def Due (r : Registration) (t : Nat) : Prop :=
  r.tick < t ∧ r.period ∣ t - r.tick ∧ (0 < r.repeats → ((t - r.tick) / r.period : Nat) ≤ r.repeats)

instance (r : Registration) (t : Nat) : Decidable (r.Due t) := inferInstanceAs (Decidable (_ ∧ _ ∧ _))

/-- The ticks before `n` at which a call is to be made. -/
def schedule (r : Registration) (n : Nat) : List Nat := (List.range n).filter (r.Due ·)

/-- The periods of `add_timer` that are meant to work. -/
def InRange (r : Registration) : Prop := 1 ≤ r.period ∧ r.period < 2 ^ 31

/-- The ticks that count for a timer when `n` ticks have been made. -/
def ending (r : Registration) (n : Nat) : Nat := r.deleted.getD n

/-- **The clock does not wrap in between.** Before tick `n`: when the timer is called and more calls are to come, the
    clock does not wrap before the next one; and for a first period of more than `maxSleep` it does not wrap
    between the tick at which the timer looks at the clock and the first call. -/
def Fits (r : Registration) (start n : Nat) : Prop :=
  (TimerMgr.maxSleep < r.period → r.tick + TimerMgr.maxSleep < n →
    clock start r.tick + r.period < 2 ^ 32 ∨ 2 ^ 32 ≤ clock start r.tick + TimerMgr.maxSleep) ∧
  ∀ k : Nat, 1 ≤ k → (0 < r.repeats → k < r.repeats) → r.tick + k * r.period < n →
    clock start (r.tick + k * r.period) + r.period < 2 ^ 32

variable {r : Registration} {start n n' t k : Nat}

theorem Fits.mono (h : r.Fits start n') (hle : n ≤ n') : r.Fits start n :=
  ⟨fun hp hn => h.1 hp (by omega), fun k hk hr hn => h.2 k hk hr (by omega)⟩

theorem schedule_succ : r.schedule (n + 1) = r.schedule n ++ if r.Due n then [n] else [] := by
  unfold schedule
  rw [List.range_succ, List.filter_append]
  congr 1
  by_cases h : r.Due n <;> simp [h]

theorem schedule_eq_nil (h : n ≤ r.tick) : r.schedule n = [] := by
  apply List.filter_eq_nil_iff.mpr
  intro t ht hd
  have hlt := List.mem_range.mp ht
  have hdue := (of_decide_eq_true hd).1
  omega

/-- Between two calls the next one is the only one that is due. -/
theorem due_iff (hp : 1 ≤ r.period) (hlo : r.tick + k * r.period < t ∨ (k = 0 ∧ r.tick ≤ t))
    (hhi : t ≤ r.tick + (k + 1) * r.period) (hr : 0 < r.repeats → ((k + 1 : Nat) : Int) ≤ r.repeats) :
    r.Due t ↔ t = r.tick + (k + 1) * r.period := by
  constructor
  · rintro ⟨hlt, ⟨q, hq⟩, -⟩
    have hq' : t - r.tick = q * r.period := hq.trans (Nat.mul_comm _ _)
    have hle : q ≤ k + 1 := by
      apply Nat.le_of_mul_le_mul_right _ hp
      omega
    have hge : k < q := by
      rcases hlo with hlo | ⟨rfl, -⟩
      · apply Nat.lt_of_mul_lt_mul_right (a := r.period)
        omega
      · rcases Nat.eq_zero_or_pos q with rfl | hpos
        · omega
        · exact hpos
    have : q = k + 1 := by omega
    rw [this] at hq'
    omega
  · rintro rfl
    have hpos : 0 < (k + 1) * r.period := Nat.mul_pos (Nat.succ_pos k) hp
    have hsub : r.tick + (k + 1) * r.period - r.tick = (k + 1) * r.period := Nat.add_sub_cancel_left _ _
    refine ⟨by omega, ?_, fun hrep => ?_⟩
    · rw [hsub]
      exact Nat.dvd_mul_left _ _
    · rw [hsub, Nat.mul_div_cancel _ hp]
      exact hr hrep

/-- No call after the last one. -/
theorem not_due_after (hp : 1 ≤ r.period) (hrep : 0 < r.repeats) (ht : r.tick + r.repeats.toNat * r.period < t) :
    ¬ r.Due t := by
  rintro ⟨-, ⟨q, hq⟩, hle⟩
  have hq' : t - r.tick = q * r.period := hq.trans (Nat.mul_comm _ _)
  have hdiv := hle hrep
  rw [hq', Nat.mul_div_cancel _ hp] at hdiv
  have hlt : r.repeats.toNat < q := by
    apply Nat.lt_of_mul_lt_mul_right (a := r.period)
    omega
  omega

end Registration

namespace TimerMgr

variable {m m' : TimerMgr} {start : Nat} {wake : TimerId → Nat} {live : TimerId → Prop} {t : Nat} {id i : TimerId}
  {evt evt' : TimerEvt} {current count count' fuel : Nat} {stop : Bool}

/-- **On schedule.** The timer was called once at every tick at which a call was to be made, and at no other. -/
def OnSchedule (i : TimerId) (m : TimerMgr) : Prop := callsOf i m = (m.regs i).schedule ((m.regs i).ending m.ticks)

/-- A sequence of operations. -/
def run (m : TimerMgr) : List TimerOp → Option TimerMgr
  | [] => some m
  | op :: ops => (m.step op).bind fun m => m.run ops

/-! ## One timer -/

/-- **A timer that has been called `k` times** when `n` ticks have been made, with its node to be taken out at tick `w`. -/
structure Running (r : Registration) (start n : Nat) (evt : TimerEvt) (w k : Nat) : Prop where
  started : evt.started = true
  period : evt.period = r.period
  slap : evt.slap = Registration.clock start (r.tick + (k + 1) * r.period)
  low : r.tick + k * r.period < n ∨ (k = 0 ∧ r.tick ≤ n)
  wakeLow : n ≤ w
  wakeHigh : w ≤ r.tick + (k + 1) * r.period
  gap : w = r.tick + (k + 1) * r.period ∨ (k = 0 ∧ w = r.tick + maxSleep) ∨
    (start + w) / 2 ^ 32 = (start + (r.tick + (k + 1) * r.period)) / 2 ^ 32
  finite : 0 < r.repeats → evt.repeats = r.repeats - k ∧ k < r.repeats
  forever : ¬ 0 < r.repeats → evt.repeats = r.repeats

variable {r : Registration} {n w k : Nat}

theorem Running.due_iff (h : Running r start n evt w k) (hr : r.InRange) (hn : t = n ∨ t = w) :
    r.Due t ↔ t = r.tick + (k + 1) * r.period := by
  have hlow := h.low
  have hwl := h.wakeLow
  have hwh := h.wakeHigh
  refine Registration.due_iff hr.1 ?_ (by omega) fun hrep => ?_
  · rcases hlow with hlow | ⟨rfl, hlow⟩
    · exact Or.inl (by omega)
    · exact Or.inr ⟨rfl, by omega⟩
  · have := (h.finite hrep).2
    omega

/-- A tick at which the timer sleeps. -/
theorem Running.later (h : Running r start n evt w k) (hr : r.InRange) (hne : w ≠ n) :
    Running r start (n + 1) evt w k ∧ ¬ r.Due n := by
  have hwl := h.wakeLow
  have hwh := h.wakeHigh
  refine ⟨⟨h.started, h.period, h.slap, ?_, by omega, hwh, h.gap, h.finite, h.forever⟩, ?_⟩
  · rcases h.low with hlow | ⟨hk, hlow⟩
    · exact Or.inl (by omega)
    · exact Or.inr ⟨hk, by omega⟩
  · rw [h.due_iff hr (Or.inl rfl)]
    omega

/-- When the timer looks at the clock on its way, the clock has not passed it. -/
theorem Running.early (h : Running r start n evt n k) (hr : r.InRange) (hf : r.Fits start (n + 1))
    (hlt : n < r.tick + (k + 1) * r.period) : Registration.clock start n < evt.slap ∧
      (start + n) / 2 ^ 32 = (start + (r.tick + (k + 1) * r.period)) / 2 ^ 32 := by
  have hp := hr.2
  have hblock : (start + n) / 2 ^ 32 = (start + (r.tick + (k + 1) * r.period)) / 2 ^ 32 := by
    rcases h.gap with heq | ⟨rfl, heq⟩ | hblock
    · omega
    · -- the tick after `maxSleep`, with the first call still to come
      have hfit := hf.1 (by omega) (by omega)
      unfold Registration.clock at hfit
      unfold maxSleep at hfit heq
      omega
    · exact hblock
  rw [h.slap]
  unfold Registration.clock
  omega

/-- **The loop of a timer that fits** makes a call when one is due, and no other. -/
theorem Running.loop (h : Running r start n evt n k) (hr : r.InRange) (hf : r.Fits start (n + 1)) :
    (n < r.tick + (k + 1) * r.period ∧
      evtLoop (2 ^ 32) (Registration.clock start n) evt 0 = some (evt, 0, false)) ∨
    (n = r.tick + (k + 1) * r.period ∧ 0 < r.repeats ∧ (k + 1 : Nat) = r.repeats ∧
      evtLoop (2 ^ 32) (Registration.clock start n) evt 0 =
        some ({ evt with slap := (evt.slap + evt.period) % 2 ^ 32 }, 1, true)) ∨
    (n = r.tick + (k + 1) * r.period ∧ (0 < r.repeats → (k + 1 : Nat) < r.repeats) ∧
      Registration.clock start n + r.period < 2 ^ 32 ∧
      evtLoop (2 ^ 32) (Registration.clock start n) evt 0 =
        some ({ evt with slap := evt.slap + evt.period, repeats := fewer evt.repeats }, 1, false)) := by
  rcases Nat.lt_or_eq_of_le h.wakeHigh with hlt | heq
  · exact Or.inl ⟨hlt, evtLoop_early (by decide) (h.early hr hf hlt).1⟩
  · have hslap : evt.slap = Registration.clock start n := by
      rw [h.slap, ← heq]
    by_cases hone : evt.repeats = 1
    · refine Or.inr (Or.inl ⟨heq, ?_⟩)
      have hpos : 0 < r.repeats := by
        by_contra hneg
        have := h.forever hneg
        omega
      have hfin := h.finite hpos
      exact ⟨hpos, by omega, evtLoop_last (by decide) hslap.le hone⟩
    · have hmore : 0 < r.repeats → ((k + 1 : Nat) : Int) < r.repeats := by
        intro hpos
        have hfin := h.finite hpos
        omega
      have hwrap := hf.2 (k + 1) (Nat.succ_pos k) hmore (by omega)
      rw [← heq] at hwrap
      refine Or.inr (Or.inr ⟨heq, hmore, hwrap, ?_⟩)
      have hp := hr.1
      refine evtLoop_once (by decide) hslap.le hone ?_ ?_
      · rw [hslap, h.period]
        omega
      · rw [hslap, h.period]
        exact hwrap

/-- A timer whose calls have all been made. -/
structure Ended (r : Registration) (n : Nat) (evt : TimerEvt) : Prop where
  repeats : 0 < r.repeats
  low : r.tick + r.repeats.toNat * r.period < n
  stopped : evt.started = false

/-- A timer that has looked at the clock sleeps again. -/
theorem Running.again {x : Nat} (h : Running r start n evt n k) (hr : r.InRange) (hf : r.Fits start (n + 1))
    (hlt : n < r.tick + (k + 1) * r.period) :
    Running r start (n + 1) { evt with expires := x } (n + nap (Registration.clock start n) evt.slap) k := by
  obtain ⟨hclock, hblock⟩ := h.early hr hf hlt
  have hnap : nap (Registration.clock start n) evt.slap = min (r.tick + (k + 1) * r.period - n) maxSleep := by
    unfold nap
    rw [sub32_of_lt (by rw [h.slap]; exact Nat.mod_lt _ (by decide)) hclock.le, h.slap]
    congr 1
    unfold Registration.clock
    omega
  have hmax : 1 ≤ maxSleep := by decide
  rw [hnap]
  refine ⟨h.started, h.period, h.slap, ?_, by omega, by omega, ?_, h.finite, h.forever⟩
  · rcases h.low with hlow | ⟨hk, hlow⟩
    · exact Or.inl (by omega)
    · exact Or.inr ⟨hk, by omega⟩
  · refine Or.inr (Or.inr ?_)
    omega

/-- A timer that has been called sleeps until the next call. -/
theorem Running.next {x : Nat} (h : Running r start n evt n k) (hr : r.InRange) (heq : n = r.tick + (k + 1) * r.period)
    (hmore : 0 < r.repeats → ((k + 1 : Nat) : Int) < r.repeats) (hwrap : Registration.clock start n + r.period < 2 ^ 32) :
    Running r start (n + 1) { evt with slap := evt.slap + evt.period, repeats := fewer evt.repeats, expires := x }
      (n + nap (Registration.clock start n) (evt.slap + evt.period)) (k + 1) := by
  have hslap : evt.slap = Registration.clock start n := by
    rw [h.slap, ← heq]
  have hnext : r.tick + (k + 1 + 1) * r.period = n + r.period := by
    rw [Nat.succ_mul, heq, Nat.add_assoc]
  have hp := hr.1
  have hnap : nap (Registration.clock start n) (evt.slap + evt.period) = min r.period maxSleep := by
    unfold nap
    rw [hslap, h.period, sub32_of_lt hwrap (Nat.le_add_right _ _), Nat.add_sub_cancel_left]
  have hmax : 1 ≤ maxSleep := by decide
  rw [hnap]
  refine ⟨h.started, h.period, ?_, Or.inl (by omega), by omega, by rw [hnext]; omega, ?_, fun hpos => ?_, fun hneg => ?_⟩
  · show evt.slap + evt.period = _
    rw [hnext, hslap, h.period]
    unfold Registration.clock at hwrap ⊢
    omega
  · refine Or.inr (Or.inr ?_)
    rw [hnext]
    unfold Registration.clock at hwrap
    omega
  · have hfin := (h.finite hpos).1
    have hlt := hmore hpos
    refine ⟨?_, hlt⟩
    show fewer evt.repeats = _
    unfold fewer
    rw [if_pos (by omega)]
    omega
  · have hfor := h.forever hneg
    show fewer evt.repeats = _
    unfold fewer
    rw [if_neg (by omega), hfor]

/-- **The tick at which the timer is woken.** -/
theorem Running.woken {evt' : TimerEvt} {calls calls' : List Nat} {w' : Nat} (h : Running r start n evt n k) (hr : r.InRange)
    (hf : r.Fits start (n + 1)) (hw : Woken (Registration.clock start n) n evt calls evt' calls' w') :
    calls' = calls ++ (if r.Due n then [n] else []) ∧
      ((∃ k', Running r start (n + 1) evt' w' k') ∨ Ended r (n + 1) evt') := by
  have hdue := h.due_iff hr (Or.inl rfl)
  rcases h.loop hr hf with ⟨hlt, hloop⟩ | ⟨heq, hpos, hlast, hloop⟩ | ⟨heq, hmore, hwrap, hloop⟩
  · rw [if_neg (fun hd => hlt.ne (hdue.mp hd))]
    cases hw with
    | stopped hl =>
        rw [hloop] at hl
        cases hl
    | asleep hl =>
        rw [hloop] at hl
        cases hl
        exact ⟨rfl, Or.inl ⟨k, h.again hr hf hlt⟩⟩
  · rw [if_pos (hdue.mpr heq)]
    cases hw with
    | stopped hl =>
        rw [hloop] at hl
        cases hl
        refine ⟨rfl, Or.inr ⟨hpos, ?_, rfl⟩⟩
        rw [← hlast, Int.toNat_natCast, ← heq]
        exact Nat.lt_succ_self n
    | asleep hl =>
        rw [hloop] at hl
        cases hl
  · rw [if_pos (hdue.mpr heq)]
    cases hw with
    | stopped hl =>
        rw [hloop] at hl
        cases hl
    | asleep hl =>
        rw [hloop] at hl
        cases hl
        exact ⟨rfl, Or.inl ⟨k + 1, h.next hr heq hmore hwrap⟩⟩

/-! ## All timers, over a run -/

/-- Where a timer is, when its node is to be taken out at tick `w`. -/
inductive Stage (start : Nat) (m : TimerMgr) (i : TimerId) (w : Nat) : Prop where
  | running {k : Nat} : (m.regs i).deleted = none → Running (m.regs i) start m.ticks (m.evts i) w k → Stage start m i w
  | ended : (m.regs i).deleted = none → Ended (m.regs i) m.ticks (m.evts i) → Stage start m i w
  | deleted {d : Nat} : (m.regs i).deleted = some d → Stage start m i w

/-- A timer that `add_timer` has returned. -/
def Registered (m : TimerMgr) (i : TimerId) : Prop := 1 ≤ i ∧ i ≤ m.lastTimerId

/-- The period is in the range, and the clock does not wrap where it should not. -/
def Fitting (start : Nat) (m : TimerMgr) (i : TimerId) (n : Nat) : Prop :=
  (m.regs i).InRange ∧ (m.regs i).Fits start ((m.regs i).ending n)

/-- **The invariant.** -/
structure Timely (start : Nat) (wake : TimerId → Nat) (m : TimerMgr) : Prop where
  armed : Armed start wake m.Started m.ticks m
  millisec : m.millisec < 2 ^ 32
  ids : ∀ i, m.Started i → m.Registered i
  fresh : ∀ i, m.lastTimerId < i → callsOf i m = []
  gone : ∀ i, (m.regs i).deleted ≠ none → (m.evts i).destroyed = true ∧ (m.evts i).started = false
  stage : ∀ i, m.Registered i → Fitting start m i m.ticks → Stage start m i (wake i) ∧ m.OnSchedule i

theorem ending_none (h : r.deleted = none) : r.ending n = n := by
  unfold Registration.ending
  rw [h]
  rfl

theorem ending_some {d : Nat} (h : r.deleted = some d) : r.ending n = d := by
  unfold Registration.ending
  rw [h]
  rfl

theorem Fitting.mono {n' : Nat} (h : Fitting start m i n') (hle : n ≤ n') : Fitting start m i n := by
  refine ⟨h.1, h.2.mono ?_⟩
  cases hd : (m.regs i).deleted with
  | none =>
      rw [ending_none hd, ending_none hd]
      exact hle
  | some d =>
      rw [ending_some hd, ending_some hd]

/-- A fitting timer whose time has come is a running one. -/
theorem Timely.running (h : Timely start wake m) (hi : m.Started i) (hf : Fitting start m i (m.ticks + 1)) :
    (m.regs i).deleted = none ∧ ∃ k, Running (m.regs i) start m.ticks (m.evts i) (wake i) k := by
  have hs : (m.evts i).started = true := hi
  rcases (h.stage i (h.ids i hi) (hf.mono (Nat.le_succ _))).1 with ⟨hd, hrun⟩ | ⟨-, hend⟩ | hd
  · exact ⟨hd, _, hrun⟩
  · rw [hend.stopped] at hs
    cases hs
  · rw [(h.gone i (by rw [hd]; exact Option.some_ne_none _)).2] at hs
    cases hs

theorem onSchedule_none (h : (m.regs i).deleted = none) : m.OnSchedule i ↔ callsOf i m = (m.regs i).schedule m.ticks := by
  unfold OnSchedule
  rw [ending_none h]

/-- What a tick does to a timer that fits. -/
theorem Timely.tick_stage {wake' : TimerId → Nat} (h : Timely start wake m) (hticks : m'.ticks = m.ticks + 1)
    (hregs : m'.regs = m.regs)
    (hout : ∀ i, ¬ (m.Started i ∧ wake i = m.ticks) → m'.evts i = m.evts i ∧ callsOf i m' = callsOf i m ∧ wake' i = wake i)
    (hin : ∀ i, m.Started i → wake i = m.ticks →
      Woken m.current m.ticks (m.evts i) (callsOf i m) (m'.evts i) (callsOf i m') (wake' i))
    (hi : m.Registered i) (hf : Fitting start m i (m.ticks + 1)) : Stage start m' i (wake' i) ∧ m'.OnSchedule i := by
  obtain ⟨hstage, hon⟩ := h.stage i hi (hf.mono (Nat.le_succ _))
  have hr := hf.1
  rcases hstage with ⟨hd, hrun⟩ | ⟨hd, hend⟩ | hd
  · have hfits := hf.2
    rw [ending_none hd] at hfits
    rw [onSchedule_none hd] at hon
    have hd' : (m'.regs i).deleted = none := by
      rw [hregs]
      exact hd
    rw [onSchedule_none hd', hregs, hticks, Registration.schedule_succ]
    by_cases hw : wake i = m.ticks
    · -- this is the tick the event waits for
      have hwoken := hin i hrun.started hw
      rw [h.armed.current] at hwoken
      rw [hw] at hrun
      obtain ⟨hcalls, hnext⟩ := hrun.woken hr hfits hwoken
      refine ⟨?_, by rw [hcalls, hon]⟩
      rcases hnext with ⟨k', hrun'⟩ | hend
      · exact .running hd' (by rw [hregs, hticks]; exact hrun')
      · exact .ended hd' (by rw [hregs, hticks]; exact hend)
    · -- it waits for a later one
      obtain ⟨he, hc, hw'⟩ := hout i fun hx => hw hx.2
      obtain ⟨hrun', hnot⟩ := hrun.later hr hw
      rw [hw', if_neg hnot, List.append_nil, hc]
      exact ⟨.running hd' (by rw [hregs, hticks, he]; exact hrun'), hon⟩
  · obtain ⟨he, hc, hw'⟩ := hout i fun hx => by
      have hs : (m.evts i).started = true := hx.1
      rw [hend.stopped] at hs
      cases hs
    rw [onSchedule_none hd] at hon
    have hd' : (m'.regs i).deleted = none := by
      rw [hregs]
      exact hd
    have hnot := Registration.not_due_after hr.1 hend.repeats hend.low
    rw [onSchedule_none hd', hregs, hticks, Registration.schedule_succ, if_neg hnot, List.append_nil, hc]
    refine ⟨.ended hd' ?_, hon⟩
    rw [hregs, hticks, he]
    exact ⟨hend.repeats, Nat.lt_succ_of_lt hend.low, hend.stopped⟩
  · obtain ⟨-, hc, -⟩ := hout i fun hx => by
      have hs : (m.evts i).started = true := hx.1
      rw [(h.gone i (by rw [hd]; exact Option.some_ne_none _)).2] at hs
      cases hs
    refine ⟨.deleted (by rw [hregs]; exact hd), ?_⟩
    unfold OnSchedule at hon ⊢
    rw [hregs, hc, hon, ending_some hd, ending_some hd]

/-- **A tick.** -/
theorem Timely.tick (h : Timely start wake m) (ht : m.tick = some m') :
    (∃ wake', Timely start wake' m') ∧ m'.ticks = m.ticks + 1 ∧ m'.regs = m.regs ∧ m'.lastTimerId = m.lastTimerId ∧
      m'.millisec = (m.millisec + 1) % 2 ^ 32 := by
  obtain ⟨wake', harm, hticks, hregs, hlast, hms, hout, hin⟩ := tick_armed h.armed ht
  have hids : ∀ i, m'.Started i → m.Started i := by
    intro i hs
    by_cases hw : m.Started i ∧ wake i = m.ticks
    · exact hw.1
    · unfold Started at hs
      rw [(hout i hw).1] at hs
      exact hs
  refine ⟨⟨wake', harm, ?_, fun i hs => ?_, fun i hi => ?_, fun i hi => ?_, fun i hi hf => ?_⟩, hticks, hregs, hlast, hms⟩
  · rw [hms]
    exact Nat.mod_lt _ (by decide)
  · have hreg := h.ids i (hids i hs)
    exact ⟨hreg.1, hlast ▸ hreg.2⟩
  · rw [hlast] at hi
    rw [(hout i fun hx => absurd (h.ids i hx.1).2 (Nat.not_le.mpr hi)).2.1]
    exact h.fresh i hi
  · rw [hregs] at hi
    have hgone := h.gone i hi
    have hnot : ¬ m.Started i := by
      unfold Started
      rw [hgone.2]
      exact Bool.false_ne_true
    rw [(hout i fun hx => hnot hx.1).1]
    exact hgone
  · have hi : m.Registered i := ⟨hi.1, hlast ▸ hi.2⟩
    have hf : Fitting start m i (m.ticks + 1) := by
      unfold Fitting at hf ⊢
      rw [hregs, hticks] at hf
      exact hf
    exact h.tick_stage hticks hregs hout hin hi hf

/-- A tick returns when all timers fit. -/
theorem Timely.tick_returns (h : Timely start wake m) (hf : ∀ i, m.Registered i → Fitting start m i (m.ticks + 1)) :
    ∃ m', m.tick = some m' := by
  apply TimerMgr.tick_returns h.armed
  intro i hi hw
  have hfi := hf i (h.ids i hi)
  obtain ⟨hd, k, hrun⟩ := h.running hi hfi
  have hfits := hfi.2
  rw [ending_none hd] at hfits
  rw [hw] at hrun
  rw [h.armed.current]
  rcases hrun.loop hfi.1 hfits with ⟨-, hloop⟩ | ⟨-, -, -, hloop⟩ | ⟨-, -, -, hloop⟩
  · rw [hloop]
    rfl
  · rw [hloop]
    rfl
  · rw [hloop]
    rfl

/-! ## `update_timer` -/

/-- A number of ticks. -/
def tickN : Nat → TimerMgr → Option TimerMgr
  | 0, m => some m
  | n + 1, m => m.tick.bind (tickN n)

/-- The ticks of `itimer_mgr_run`. -/
def behind (m : TimerMgr) (ms : Nat) : Nat :=
  if signed32 (sub32 ms (m.catchUp ms).millisec) ≥ 0 then sub32 ms (m.catchUp ms).millisec + 1 else 0

/-- The ticks of `update_timer`. -/
def rounds (m : TimerMgr) (now : Nat) : Nat := m.behind (now * 1000 % 2 ^ 32)

theorem Timely.tickN (h : Timely start wake m) (ht : tickN n m = some m') :
    (∃ wake', Timely start wake' m') ∧ m'.ticks = m.ticks + n ∧ m'.regs = m.regs ∧ m'.lastTimerId = m.lastTimerId := by
  induction n generalizing m wake with
  | zero =>
      cases ht
      exact ⟨⟨wake, h⟩, rfl, rfl, rfl⟩
  | succ n ih =>
      obtain ⟨m₁, ht₁, hrest⟩ := Option.bind_eq_some_iff.mp ht
      obtain ⟨⟨wake₁, h₁⟩, hticks, hregs, hlast, -⟩ := h.tick ht₁
      obtain ⟨h', hticks', hregs', hlast'⟩ := ih h₁ hrest
      refine ⟨h', ?_, hregs'.trans hregs, hlast'.trans hlast⟩
      omega

theorem Timely.tickN_returns (h : Timely start wake m) (hf : ∀ i, m.Registered i → Fitting start m i (m.ticks + n)) :
    ∃ m', TimerMgr.tickN n m = some m' := by
  induction n generalizing m wake with
  | zero => exact ⟨m, rfl⟩
  | succ n ih =>
      obtain ⟨m₁, ht₁⟩ := h.tick_returns fun i hi => (hf i hi).mono (by omega)
      obtain ⟨⟨wake₁, h₁⟩, hticks, hregs, hlast, -⟩ := h.tick ht₁
      obtain ⟨m', hm'⟩ := ih h₁ fun i hi => by
        have hfi := hf i ⟨hi.1, hlast ▸ hi.2⟩
        unfold Fitting at hfi ⊢
        rw [hregs, hticks, Nat.add_right_comm, Nat.add_assoc]
        exact hfi
      refine ⟨m', ?_⟩
      unfold TimerMgr.tickN
      rw [ht₁]
      exact hm'

theorem signed32_nonneg_iff {a : Nat} (h : a < 2 ^ 32) : signed32 a ≥ 0 ↔ a < 2 ^ 31 := by
  constructor
  · intro hs
    by_contra hge
    exact absurd (signed32_neg (Nat.not_lt.mp hge) h) (Int.not_lt.mpr hs)
  · exact signed32_nonneg

/-- The loop of `itimer_mgr_run` makes one tick for every millisecond, and one more. -/
theorem Timely.mgrLoop_eq {ms d : Nat} (h : Timely start wake m) (hms : ms < 2 ^ 32) (hd : sub32 ms m.millisec = d)
    (hlt : d < 2 ^ 31) : mgrLoop ms (d + 1) m = TimerMgr.tickN (d + 1) m := by
  induction d generalizing m wake with
  | zero =>
      have hpos : signed32 (sub32 ms m.millisec) ≥ 0 := by
        rw [hd]
        exact signed32_nonneg hlt
      rw [mgrLoop, if_pos hpos, TimerMgr.tickN]
      exact Option.bind_congr fun _ _ => rfl
  | succ d ih =>
      have hpos : signed32 (sub32 ms m.millisec) ≥ 0 := by
        rw [hd]
        exact signed32_nonneg hlt
      rw [mgrLoop, if_pos hpos, TimerMgr.tickN]
      refine Option.bind_congr fun m₁ ht => ?_
      obtain ⟨⟨wake₁, h₁⟩, -, -, -, hms₁⟩ := h.tick ht
      have hlt' := h.millisec
      refine ih h₁ ?_ (by omega)
      rw [hms₁]
      unfold sub32 at hd ⊢
      omega

theorem catchUp_eq (m : TimerMgr) (ms : Nat) : m.catchUp ms = { m with millisec := ms } ∨ m.catchUp ms = m := by
  unfold catchUp
  dsimp only
  split
  · exact Or.inl rfl
  · split
    · exact Or.inl rfl
    · exact Or.inr rfl

theorem Timely.catchUp (h : Timely start wake m) {ms : Nat} (hms : ms < 2 ^ 32) : Timely start wake (m.catchUp ms) := by
  rcases catchUp_eq m ms with heq | heq
  · rw [heq]
    refine ⟨⟨h.armed.wheel, h.armed.jiffies, h.armed.current, h.armed.expires, h.armed.slap⟩, hms, h.ids, h.fresh, h.gone,
      fun i hi hf => ?_⟩
    obtain ⟨hstage, hon⟩ := h.stage i hi hf
    refine ⟨?_, hon⟩
    rcases hstage with ⟨hd, hrun⟩ | ⟨hd, hend⟩ | hd
    · exact .running hd hrun
    · exact .ended hd hend
    · exact .deleted hd
  · rw [heq]
    exact h

theorem sub32_lt (a b : Nat) : sub32 a b < 2 ^ 32 := by
  unfold sub32
  exact Nat.mod_lt _ (by decide)

/-- `itimer_mgr_run` makes as many ticks as the clock asks for. -/
theorem Timely.mgrRun_eq {ms : Nat} (h : Timely start wake m) (hms : ms < 2 ^ 32) :
    m.mgrRun ms = TimerMgr.tickN (m.behind ms) (m.catchUp ms) := by
  have hc := h.catchUp hms
  have hrun : m.mgrRun ms = mgrLoop ms (sub32 ms (m.catchUp ms).millisec + 1) (m.catchUp ms) := by
    unfold mgrRun
    dsimp only
  rw [hrun]
  unfold behind
  by_cases hpos : signed32 (sub32 ms (m.catchUp ms).millisec) ≥ 0
  · rw [if_pos hpos, hc.mgrLoop_eq hms rfl ((signed32_nonneg_iff (sub32_lt _ _)).mp hpos)]
  · rw [if_neg hpos, mgrLoop, if_neg hpos, TimerMgr.tickN]

/-- `update_timer` makes as many ticks as the clock asks for. -/
theorem Timely.updateTimer_eq (h : Timely start wake m) (now : Nat) :
    m.updateTimer now = TimerMgr.tickN (m.rounds now) (m.catchUp (now * 1000 % 2 ^ 32)) := by
  unfold updateTimer rounds
  exact h.mgrRun_eq (Nat.mod_lt _ (by decide))

/-- **`update_timer`.** -/
theorem Timely.updateTimer {now : Nat} (h : Timely start wake m) (hu : m.updateTimer now = some m') :
    (∃ wake', Timely start wake' m') ∧ m'.ticks = m.ticks + m.rounds now ∧ m'.regs = m.regs ∧
      m'.lastTimerId = m.lastTimerId := by
  rw [h.updateTimer_eq] at hu
  obtain ⟨h', hticks, hregs, hlast⟩ := (h.catchUp (Nat.mod_lt _ (by decide))).tickN hu
  rcases catchUp_eq m (now * 1000 % 2 ^ 32) with heq | heq
  · rw [heq] at hticks hregs hlast
    exact ⟨h', hticks, hregs, hlast⟩
  · rw [heq] at hticks hregs hlast
    exact ⟨h', hticks, hregs, hlast⟩

theorem Timely.updateTimer_returns {now : Nat} (h : Timely start wake m)
    (hf : ∀ i, m.Registered i → Fitting start m i (m.ticks + m.rounds now)) : ∃ m', m.updateTimer now = some m' := by
  rw [h.updateTimer_eq]
  apply (h.catchUp (Nat.mod_lt _ (by decide))).tickN_returns
  rcases catchUp_eq m (now * 1000 % 2 ^ 32) with heq | heq
  · rw [heq]
    exact hf
  · rw [heq]
    exact hf

/-! ## `add_timer` and `del_timer` -/

/-- A timer that is not the one at hand. -/
theorem Stage.other {wake' : TimerId → Nat} (h : Stage start m i (wake i)) (hr : m'.regs i = m.regs i)
    (he : m'.evts i = m.evts i) (ht : m'.ticks = m.ticks) (hw : wake' i = wake i) : Stage start m' i (wake' i) := by
  rcases h with ⟨hd, hrun⟩ | ⟨hd, hend⟩ | hd
  · exact .running (by rw [hr]; exact hd) (by rw [hr, he, ht, hw]; exact hrun)
  · exact .ended (by rw [hr]; exact hd) (by rw [hr, he, ht]; exact hend)
  · exact .deleted (by rw [hr]; exact hd)

theorem OnSchedule.other (h : m.OnSchedule i) (hr : m'.regs i = m.regs i) (hc : m'.calls = m.calls)
    (ht : m'.ticks = m.ticks) : m'.OnSchedule i := by
  unfold OnSchedule callsOf at h ⊢
  rw [hr, hc, ht]
  exact h

theorem Fitting.other (h : Fitting start m' i m'.ticks) (hr : m'.regs i = m.regs i) (ht : m'.ticks = m.ticks) :
    Fitting start m i m.ticks := by
  unfold Fitting at h ⊢
  rw [hr, ht] at h
  exact h

theorem nap_add {c p : Nat} (hc : c < 2 ^ 32) (hp : p < 2 ^ 32) : nap c ((c + p) % 2 ^ 32) = min p maxSleep := by
  unfold nap sub32
  congr 1
  omega

/-- A new timer has its first call before it. -/
theorem Running.first {ms x : Nat} {repeats : Int} :
    Running { tick := n, period := ms, repeats } start n
      { period := ms, repeats, slap := (Registration.clock start n + ms) % 2 ^ 32, started := true, expires := x }
      (n + min ms maxSleep) 0 := by
  have hone : n + (0 + 1) * ms = n + ms := by
    rw [Nat.zero_add, Nat.one_mul]
  refine ⟨rfl, rfl, ?_, Or.inr ⟨rfl, Nat.le_refl n⟩, Nat.le_add_right _ _, ?_, ?_, fun hpos => ⟨?_, hpos⟩, fun _ => rfl⟩
  · show (Registration.clock start n + ms) % 2 ^ 32 = Registration.clock start (n + (0 + 1) * ms)
    rw [hone]
    unfold Registration.clock
    rw [Nat.mod_add_mod, Nat.add_assoc]
  · show n + min ms maxSleep ≤ n + (0 + 1) * ms
    rw [hone]
    omega
  · show n + min ms maxSleep = n + (0 + 1) * ms ∨ (0 = 0 ∧ n + min ms maxSleep = n + maxSleep) ∨ _
    rw [hone]
    rcases Nat.le_total ms maxSleep with hle | hle
    · exact Or.inl (by rw [Nat.min_eq_left hle])
    · exact Or.inr (Or.inl ⟨rfl, by rw [Nat.min_eq_right hle]⟩)
  · exact (Int.sub_zero repeats).symm

theorem Stage.first {ms x : Nat} {repeats : Int} (hr : m.regs i = { tick := m.ticks, period := ms, repeats })
    (he : m.evts i = { period := ms, repeats, slap := (Registration.clock start m.ticks + ms) % 2 ^ 32, started := true,
                       expires := x }) (hc : callsOf i m = []) :
    Stage start m i (m.ticks + min ms maxSleep) ∧ m.OnSchedule i := by
  have hd : (m.regs i).deleted = none := by
    rw [hr]
  refine ⟨.running (k := 0) hd ?_, ?_⟩
  · rw [hr, he]
    exact Running.first
  · rw [onSchedule_none hd, hc, hr]
    exact (Registration.schedule_eq_nil (Nat.le_refl _)).symm

/-- The wheel after `itimer_evt_start`. -/
theorem Timely.evtStart {ms : Nat} (h : Timely start wake m) (hid : ¬ m.Started id) (hms : ms < 2 ^ 32) (repeats : Int) :
    Armed start (Function.update wake id (m.ticks + min ms maxSleep)) (fun x => x = id ∨ m.Started x) m.ticks
      (m.evtStart id ms repeats) ∧ Beside id m (m.evtStart id ms repeats) ∧ (m.evtStart id ms repeats).calls = m.calls ∧
      ∃ x, (m.evtStart id ms repeats).evts id = { period := ms, repeats, slap := (m.current + ms) % 2 ^ 32, started := true,
                                                  expires := x } := by
  have hcur : m.current < 2 ^ 32 := by
    rw [h.armed.current]
    exact Nat.mod_lt _ (by decide)
  unfold TimerMgr.evtStart
  generalize hevt : ({ period := ms, repeats, slap := (m.current + ms) % 2 ^ 32, started := true } : TimerEvt) = evt
  have hslap : evt.slap = (m.current + ms) % 2 ^ 32 := by
    rw [← hevt]
  have hset : Armed start wake m.Started m.ticks (m.setEvt id evt) :=
    h.armed.setEvt hid (by rw [hslap]; exact Nat.mod_lt _ (by decide))
  have hself : (m.setEvt id evt).evts id = evt := Function.update_self _ _ _
  have hnap : nap (m.setEvt id evt).current ((m.setEvt id evt).evts id).slap = min ms maxSleep := by
    rw [hself, hslap]
    exact nap_add hcur hms
  have hsleep := hset.sleep hid (Nat.le_add_right _ _) (Nat.le_refl _)
  obtain ⟨hb, hcalls, x, hx⟩ := sleep_beside (m.setEvt id evt) id
  rw [hnap] at hsleep
  rw [hself] at hx
  refine ⟨hsleep, setEvt_beside.trans hb, hcalls, x, ?_⟩
  rw [hx, ← hevt]

/-- **`add_timer`.** -/
theorem Timely.addTimer {period repeats : Int} (h : Timely start wake m) (ha : m.addTimer period repeats = some m') :
    ∃ wake', Timely start wake' m' := by
  unfold TimerMgr.addTimer at ha
  by_cases hover : m.AddOverflows period
  · rw [if_pos hover] at ha
    cases ha
  rw [if_neg hover] at ha
  simp only [Option.some.injEq] at ha
  have hms : (period * 1000 % 2 ^ 32).toNat < 2 ^ 32 := by omega
  revert ha
  generalize (period * 1000 % 2 ^ 32).toNat = ms at *
  rintro rfl
  -- the new id is above every id in use, so nothing of it is in the wheel
  have hnew : ¬ m.Started (m.lastTimerId + 1) := fun hs => absurd (h.ids _ hs).2 (Nat.not_succ_le_self _)
  obtain ⟨harm, hb, hcalls, x, hx⟩ := h.evtStart hnew hms repeats
  generalize m.evtStart (m.lastTimerId + 1) ms repeats = m₁ at *
  have hstarted : ∀ i, m₁.Started i ↔ i = m.lastTimerId + 1 ∨ m.Started i := by
    intro i
    unfold Started
    by_cases hi : i = m.lastTimerId + 1
    · simp [hi, hx]
    · simp [hi, hb.evts i hi]
  have harm := harm.congr hstarted fun _ _ => rfl
  refine ⟨_, ⟨?_, harm.jiffies, harm.current, harm.expires, harm.slap⟩, ?_, fun i hi => ?_, fun i hi => ?_, fun i hi => ?_,
    fun i hi hf => ?_⟩
  · show m₁.core.Holds _ _ m₁.ticks
    rw [hb.ticks]
    exact harm.wheel
  · show m₁.millisec < 2 ^ 32
    rw [hb.millisec]
    exact h.millisec
  · rcases (hstarted i).mp hi with rfl | hs
    · exact ⟨Nat.succ_pos _, Nat.le_refl _⟩
    · exact ⟨(h.ids i hs).1, Nat.le_succ_of_le (h.ids i hs).2⟩
  · have hfresh := h.fresh i (Nat.lt_of_succ_lt hi)
    unfold callsOf at hfresh ⊢
    show List.map _ (List.filter _ m₁.calls) = []
    rw [hcalls]
    exact hfresh
  · have hne : i ≠ m.lastTimerId + 1 := by
      rintro rfl
      apply hi
      show (Function.update m.regs _ _ _).deleted = none
      rw [Function.update_self]
    have hi : (m.regs i).deleted ≠ none := by
      rw [← Function.update_of_ne hne _ m.regs]
      exact hi
    show (m₁.evts i).destroyed = true ∧ (m₁.evts i).started = false
    rw [hb.evts i hne]
    exact h.gone i hi
  · by_cases hne : i = m.lastTimerId + 1
    · subst hne
      have hreg := Function.update_self (m.lastTimerId + 1) { tick := m.ticks, period := ms, repeats } m.regs
      have hfresh := h.fresh _ (Nat.lt_succ_self m.lastTimerId)
      rw [h.armed.current, ← hb.ticks] at hx
      rw [← hb.ticks] at hreg
      rw [Function.update_self, ← hb.ticks]
      refine Stage.first hreg hx ?_
      unfold callsOf at hfresh ⊢
      show List.map _ (List.filter _ m₁.calls) = []
      rw [hcalls]
      exact hfresh
    · have hreg := Function.update_of_ne hne { tick := m.ticks, period := ms, repeats } m.regs
      have hle : i ≤ m.lastTimerId + 1 := hi.2
      have hi : m.Registered i := ⟨hi.1, Nat.le_of_lt_succ (Nat.lt_of_le_of_ne hle hne)⟩
      obtain ⟨hstage, hon⟩ := h.stage i hi (hf.other hreg hb.ticks)
      exact ⟨hstage.other hreg (hb.evts i hne) hb.ticks (Function.update_of_ne hne _ _), hon.other hreg hcalls hb.ticks⟩

/-- A timer that is deleted keeps the calls it has had. -/
theorem Stage.last (hr : m'.regs i = { m.regs i with deleted := some m.ticks }) (hnone : (m.regs i).deleted = none)
    (hc : callsOf i m' = callsOf i m) (hon : m.OnSchedule i) : Stage start m' i w ∧ m'.OnSchedule i := by
  have hd : (m'.regs i).deleted = some m.ticks := by
    rw [hr]
  refine ⟨.deleted hd, ?_⟩
  unfold OnSchedule
  rw [ending_some hd, hc, (onSchedule_none hnone).mp hon, hr]
  rfl

theorem Fitting.last (h : Fitting start m' i n) (hr : m'.regs i = { m.regs i with deleted := some m.ticks })
    (hnone : (m.regs i).deleted = none) : Fitting start m i m.ticks := by
  have hd : (m'.regs i).deleted = some m.ticks := by
    rw [hr]
  obtain ⟨hrange, hfits⟩ := h
  rw [ending_some hd] at hfits
  rw [hr] at hrange hfits
  refine ⟨hrange, ?_⟩
  rw [ending_none hnone]
  exact hfits

/-- **`del_timer`.** -/
theorem Timely.delTimer (h : Timely start wake m) (hd : m.delTimer id = some m') : Timely start wake m' := by
  unfold TimerMgr.delTimer at hd
  by_cases hid : 1 ≤ id ∧ id ≤ m.lastTimerId
  case neg =>
      rw [if_neg hid] at hd
      cases hd
      exact h
  rw [if_pos hid] at hd
  by_cases hdes : (m.evts id).destroyed = true
  · rw [if_pos hdes] at hd
    cases hd
  rw [if_neg hdes] at hd
  simp only [Option.some.injEq] at hd
  subst hd
  have hnone : (m.regs id).deleted = none := by
    by_contra hsome
    exact hdes (h.gone id hsome).1
  obtain ⟨hb, hcalls, -⟩ := evtStop_beside m id
  have hstop := h.armed.evtStop id
  generalize m.evtStop id = m₁ at *
  -- a stopped event is out of the wheel, so freeing it touches no slot
  have hset : Armed start wake _ m.ticks (m₁.setEvt id { destroyed := true }) :=
    hstop.setEvt (fun hx => hx.2 hx.1 rfl) (Nat.two_pow_pos 32)
  have hother : ∀ i, i ≠ id → (m₁.setEvt id { destroyed := true }).evts i = m.evts i := by
    intro i hi
    exact (Function.update_of_ne hi _ _).trans (hb.evts i hi)
  have hself : (m₁.setEvt id { destroyed := true }).evts id = { destroyed := true } := Function.update_self _ _ _
  have hstarted : ∀ i, (m₁.setEvt id { destroyed := true }).Started i ↔
      m.Started i ∧ ((m.evts id).started = true → i ≠ id) := by
    intro i
    unfold Started
    by_cases hi : i = id
    · subst hi
      rw [hself]
      simp
    · rw [hother i hi]
      simp [hi]
  have harm := hset.congr hstarted fun _ _ => rfl
  have hcallsOf : ∀ i, (m₁.calls.filter (·.1 = i)).map (·.2) = callsOf i m := by
    intro i
    unfold callsOf
    rw [hcalls]
  refine ⟨⟨?_, harm.jiffies, harm.current, harm.expires, harm.slap⟩, ?_, fun i hi => ?_, fun i hi => ?_, fun i hi => ?_,
    fun i hi hf => ?_⟩
  · show m₁.core.Holds _ _ m₁.ticks
    rw [hb.ticks]
    exact harm.wheel
  · show m₁.millisec < 2 ^ 32
    rw [hb.millisec]
    exact h.millisec
  · have hreg := h.ids i ((hstarted i).mp hi).1
    exact ⟨hreg.1, hb.last ▸ hreg.2⟩
  · exact (hcallsOf i).trans (h.fresh i (hb.last ▸ hi))
  · by_cases hne : i = id
    · subst hne
      show ((m₁.setEvt i _).evts i).destroyed = true ∧ ((m₁.setEvt i _).evts i).started = false
      rw [hself]
      exact ⟨rfl, rfl⟩
    · show ((m₁.setEvt id _).evts i).destroyed = true ∧ ((m₁.setEvt id _).evts i).started = false
      rw [hother i hne]
      apply h.gone i
      rw [← hb.regs, ← Function.update_of_ne hne _ m₁.regs]
      exact hi
  · -- the deleted timer has reached its last stage; every other one is where it was
    have hin : m.Registered i := ⟨hi.1, hb.last ▸ hi.2⟩
    by_cases hne : i = id
    · subst hne
      have hreg := Function.update_self i { m₁.regs i with deleted := some m₁.ticks } m₁.regs
      have hreg : Function.update m₁.regs i { m₁.regs i with deleted := some m₁.ticks } i =
          { m.regs i with deleted := some m.ticks } := by
        rw [hreg, hb.regs, hb.ticks]
      obtain ⟨-, hon⟩ := h.stage i hin (hf.last hreg hnone)
      exact Stage.last hreg hnone (hcallsOf i) hon
    · have hreg := (Function.update_of_ne hne { m₁.regs id with deleted := some m₁.ticks } m₁.regs).trans (congrFun hb.regs i)
      obtain ⟨hstage, hon⟩ := h.stage i hin (hf.other hreg hb.ticks)
      exact ⟨hstage.other hreg (hother i hne) hb.ticks rfl, hon.other hreg hcalls hb.ticks⟩

/-! ## Every run -/

theorem Timely.init (now : Nat) : Timely (now * 1000 % 2 ^ 32) (fun _ => 0) (init now) := by
  have hstart : ∀ i, ¬ (TimerMgr.init now).Started i := fun i hs => by cases hs
  constructor
  case armed =>
      refine ⟨⟨rfl, fun v i => ?_, fun v i id hid => ?_, fun v v' i i' id hid => ?_, fun id hid => ?_⟩, rfl, ?_,
        fun i hi => absurd hi (hstart i), fun _ => Nat.two_pow_pos 32⟩
      · exact List.nodup_nil
      · cases hid
      · cases hid
      · exact absurd hid (hstart id)
      · show now * 1000 % 2 ^ 32 = (now * 1000 % 2 ^ 32 + 0) % 2 ^ 32
        rw [Nat.add_zero, Nat.mod_mod]
  case millisec => exact Nat.two_pow_pos 32
  case ids => exact fun i hi => absurd hi (hstart i)
  case fresh => exact fun _ _ => rfl
  case gone => exact fun _ hi => absurd rfl hi
  case stage => exact fun i hi _ => absurd (Nat.le_trans hi.1 hi.2) (Nat.not_succ_le_zero 0)

theorem Timely.step {op : TimerOp} (h : Timely start wake m) (hs : m.step op = some m') : ∃ wake', Timely start wake' m' := by
  cases op with
  | add period repeats => exact h.addTimer hs
  | del id => exact ⟨wake, h.delTimer hs⟩
  | update now => exact (h.updateTimer hs).1

theorem Timely.run {ops : List TimerOp} (h : Timely start wake m) (hr : m.run ops = some m') :
    ∃ wake', Timely start wake' m' := by
  induction ops generalizing m wake with
  | nil =>
      cases hr
      exact ⟨wake, h⟩
  | cons op ops ih =>
      obtain ⟨m₁, hs, hrest⟩ := Option.bind_eq_some_iff.mp hr
      obtain ⟨wake₁, h₁⟩ := h.step hs
      exact ih h₁ hrest

theorem addTimer_some (m : TimerMgr) (period repeats : Int) (h : ¬ m.AddOverflows period) :
    ∃ m', m.step (.add period repeats) = some m' ∧ m'.lastTimerId = m.lastTimerId + 1 ∧ m'.ticks = m.ticks ∧
      m'.millisec = m.millisec ∧ m'.regs (m.lastTimerId + 1) =
        { tick := m.ticks, period := (period * 1000 % 2 ^ 32).toNat, repeats } := by
  refine ⟨_, if_neg h, rfl, rfl, rfl, ?_⟩
  exact Function.update_self _ _ _

theorem rounds_of_lt {next ms : Nat} (hm : m.millisec = 0) (hms : next * 1000 % 2 ^ 32 = ms) (hlt : ms ≤ 300000) :
    m.rounds next = ms + 1 := by
  have hdiff : sub32 ms m.millisec = ms := by
    rw [hm]
    exact sub32_of_lt (by omega) (Nat.zero_le _)
  have hsigned : signed32 ms = ms := by
    unfold signed32
    rw [if_pos (by omega)]
  have hcatch : m.catchUp ms = m := by
    unfold catchUp interval
    simp only [hdiff, hsigned]
    rw [if_neg (by omega), if_neg (by omega)]
  unfold rounds behind
  rw [hms, hcatch, hdiff, hsigned, if_pos (by omega)]

/-- **When timers are on schedule.** In every run, a timer with a period in the range is on schedule as long as the clock
    does not wrap between two of its calls; and `update_timer` returns, with the ticks the clock asks for, as long as this
    is so for all timers. -/
theorem run_onSchedule {now : Nat} {ops : List TimerOp} (h : (TimerMgr.init now).run ops = some m) :
    (∀ i, m.Registered i → (m.regs i).InRange →
      (m.regs i).Fits (now * 1000 % 2 ^ 32) ((m.regs i).ending m.ticks) → m.OnSchedule i) ∧
    ∀ next, (∀ i, m.Registered i → (m.regs i).InRange ∧
        (m.regs i).Fits (now * 1000 % 2 ^ 32) ((m.regs i).ending (m.ticks + m.rounds next))) →
      ∃ m', m.step (.update next) = some m' ∧ m'.ticks = m.ticks + m.rounds next ∧ m'.regs = m.regs ∧
        m'.lastTimerId = m.lastTimerId := by
  obtain ⟨wake, ht⟩ := (Timely.init now).run h
  refine ⟨fun i hi hr hf => (ht.stage i hi ⟨hr, hf⟩).2, fun next hf => ?_⟩
  obtain ⟨m', hm'⟩ := ht.updateTimer_returns hf
  obtain ⟨-, hticks, hregs, hlast⟩ := ht.updateTimer hm'
  exact ⟨m', hm', hticks, hregs, hlast⟩

/-- A timer of one second, registered when the clock is at zero, and a second later. -/
theorem run_onSchedule_second : ∃ m, (TimerMgr.init 0).run [.add 1 0, .update 1] = some m ∧ m.OnSchedule 1 ∧
    callsOf 1 m = [1000] := by
  obtain ⟨m₁, hadd, hlast, hticks, hms, hreg⟩ := addTimer_some (TimerMgr.init 0) 1 0 (by decide)
  have hrun₁ : (TimerMgr.init 0).run [.add 1 0] = some m₁ := by
    unfold run
    rw [hadd]
    rfl
  have hrounds : m₁.rounds 1 = 1001 := rounds_of_lt hms rfl (by decide)
  have hreg : m₁.regs 1 = { tick := 0, period := 1000, repeats := 0 } := hreg
  have hfits : (m₁.regs 1).InRange ∧ (m₁.regs 1).Fits (0 * 1000 % 2 ^ 32) ((m₁.regs 1).ending 1001) := by
    rw [hreg]
    refine ⟨⟨by decide, by decide⟩, fun hp => absurd hp (by decide), fun k hk _ hn => ?_⟩
    have hk : k = 1 := by
      change 0 + k * 1000 < 1001 at hn
      omega
    rw [hk]
    decide
  have hone : ∀ i, m₁.Registered i → i = 1 := by
    rintro i ⟨hlo, hhi⟩
    rw [hlast] at hhi
    exact Nat.le_antisymm hhi hlo
  obtain ⟨m, hm, hticks', hregs, hlast'⟩ := (run_onSchedule hrun₁).2 1 fun i hi => by
    rw [hone i hi, hrounds, hticks]
    exact hfits
  have hrun : (TimerMgr.init 0).run [.add 1 0, .update 1] = some m := by
    unfold run
    rw [hadd]
    show (m₁.step (.update 1)).bind (fun m => m.run []) = some m
    rw [hm]
    rfl
  have hticks' : m.ticks = 1001 := by
    rw [hticks', hticks, hrounds]
    rfl
  have hon : m.OnSchedule 1 := (run_onSchedule hrun).1 1 ⟨by decide, by rw [hlast', hlast]; decide⟩
    (by rw [hregs]; exact hfits.1) (by rw [hregs, hticks']; exact hfits.2)
  refine ⟨m, hrun, hon, ?_⟩
  unfold OnSchedule at hon
  rw [hon, hregs, hreg, hticks']
  decide +kernel

/-- The loop of a timer whose `slap` passes the wrap, with one more call to come. -/
theorem evtLoop_wrap (hfuel : 2 ≤ fuel) (h : evt.slap ≤ current) (hwrap : (evt.slap + evt.period) % 2 ^ 32 ≤ current)
    (htwo : evt.repeats = 2) : ∃ evt', evtLoop fuel current evt count = some (evt', count + 2, true) := by
  rw [evtLoop_round (by omega) h (by omega)]
  refine ⟨_, evtLoop_last (by omega) hwrap ?_⟩
  show fewer evt.repeats = 1
  rw [htwo]
  decide

theorem Woken.calls_eq {ticks w : Nat} {calls calls' : List Nat} {evt₁ : TimerEvt}
    (h : Woken current ticks evt calls evt₁ calls' w) (hloop : evtLoop (2 ^ 32) current evt 0 = some (evt', count, stop)) :
    calls' = calls ++ List.replicate count ticks := by
  cases h with
  | stopped hl =>
      rw [hloop] at hl
      cases hl
      rfl
  | asleep hl =>
      rw [hloop] at hl
      cases hl
      rfl

theorem tickN_succ (n : Nat) (m : TimerMgr) : tickN (n + 1) m = (tickN n m).bind TimerMgr.tick := by
  induction n generalizing m with
  | zero =>
      have hend : ∀ o : Option TimerMgr, o.bind (tickN 0) = o := by
        intro o
        cases o <;> rfl
      rw [tickN, Option.bind_some, tickN, hend]
  | succ n ih =>
      rw [tickN, tickN, Option.bind_assoc]
      exact Option.bind_congr fun m₁ _ => ih m₁

/-- Before its first call a timer fits. -/
theorem fitting_before (hreg : m.regs 1 = { tick := 0, period := 1000, repeats := 2 }) : Fitting start m 1 1000 := by
  have hd : (m.regs 1).deleted = none := by
    rw [hreg]
  unfold Fitting
  rw [ending_none hd, hreg]
  refine ⟨⟨by decide, by decide⟩, fun hp => absurd hp (by decide), fun k hk _ hn => ?_⟩
  have hn : 0 + k * 1000 < 1000 := hn
  exfalso
  omega

/-- A timer of one second that is called for the first time, when the second call is past the wrap. -/
theorem Timely.tick_wrap (h : Timely start wake m) (hlast : m.lastTimerId = 1) (hticks : m.ticks = 1000)
    (hreg : m.regs 1 = { tick := 0, period := 1000, repeats := 2 }) (hstart : start = 2 ^ 32 - 2000) :
    ∃ m', m.tick = some m' ∧ m'.ticks = 1001 ∧ m'.regs = m.regs ∧ m'.lastTimerId = 1 ∧ callsOf 1 m' = [1000, 1000] := by
  have hd : (m.regs 1).deleted = none := by
    rw [hreg]
  have hfit : Fitting start m 1 m.ticks := by
    rw [hticks]
    exact fitting_before hreg
  obtain ⟨hstage, hon⟩ := h.stage 1 ⟨Nat.le_refl 1, hlast.ge⟩ hfit
  obtain ⟨k, hrun⟩ : ∃ k, Running (m.regs 1) start m.ticks (m.evts 1) (wake 1) k := by
    rcases hstage with ⟨-, hrun⟩ | ⟨-, hend⟩ | hd'
    · exact ⟨_, hrun⟩
    · have hlow := hend.low
      rw [hreg, hticks] at hlow
      exact absurd hlow (by decide)
    · rw [hd] at hd'
      cases hd'
  rw [hreg, hticks] at hrun
  -- the first call is due at this tick
  have hk : k = 0 := by
    have hlow := hrun.low
    change 0 + k * 1000 < 1000 ∨ (k = 0 ∧ _) at hlow
    omega
  subst hk
  have hwake : wake 1 = m.ticks := by
    rw [hticks]
    exact Nat.le_antisymm hrun.wakeHigh hrun.wakeLow
  have hcur : m.current = 2 ^ 32 - 1000 := by
    rw [h.armed.current, hticks, hstart]
    unfold Registration.clock
    omega
  have hslap : (m.evts 1).slap = 2 ^ 32 - 1000 := by
    rw [hrun.slap, hstart]
    show (2 ^ 32 - 2000 + (0 + (0 + 1) * 1000)) % 2 ^ 32 = 2 ^ 32 - 1000
    omega
  have hperiod : (m.evts 1).period = 1000 := hrun.period
  have hrepeats : (m.evts 1).repeats = 2 := (hrun.finite (by decide)).1
  -- the next due time is past `2 ^ 32`: reduced, it lies behind the clock and is called at once
  obtain ⟨evt, hloop⟩ : ∃ evt, evtLoop (2 ^ 32) m.current (m.evts 1) 0 = some (evt, 2, true) :=
    evtLoop_wrap (by decide) (hslap.trans hcur.symm).le (by rw [hslap, hperiod, hcur]; omega) hrepeats
  have hone : ∀ i, m.Started i → i = 1 := by
    intro i hi
    obtain ⟨hlo, hhi⟩ := h.ids i hi
    rw [hlast] at hhi
    exact Nat.le_antisymm hhi hlo
  obtain ⟨m', ht⟩ := TimerMgr.tick_returns h.armed fun i hi _ => by
    rw [hone i hi, hloop]
    rfl
  obtain ⟨wake', -, hticks', hregs', hlast', -, -, hin⟩ := tick_armed h.armed ht
  refine ⟨m', ht, by rw [hticks', hticks], hregs', hlast'.trans hlast, ?_⟩
  have hcalls : callsOf 1 m = [] := by
    rw [(onSchedule_none hd).mp hon, hreg, hticks]
    decide +kernel
  have hwoken := hin 1 hrun.started hwake
  rw [hwoken.calls_eq hloop, hcalls, hticks]
  rfl

/-- A timer of one second that is to be called twice, the first time a second before the wrap of the clock: both calls
    are made at once. -/
theorem not_onSchedule_wrap : ∃ m, (TimerMgr.init 1610612734).run [.add 1 2, .update 1610612737] = some m ∧
    m.Registered 1 ∧ (m.regs 1).InRange ∧ callsOf 1 m = [1000, 1000] ∧ ¬ m.OnSchedule 1 := by
  obtain ⟨m₁, hadd, hlast, hticks, hms, hreg⟩ := addTimer_some (TimerMgr.init 1610612734) 1 2 (by decide)
  have hreg : m₁.regs 1 = { tick := 0, period := 1000, repeats := 2 } := hreg
  obtain ⟨wake₁, ht₁⟩ := (Timely.init 1610612734).step hadd
  have hrounds : m₁.rounds 1610612737 = 1001 := rounds_of_lt hms rfl (by decide)
  have hupdate := ht₁.updateTimer_eq 1610612737
  have ht₂ : Timely _ wake₁ (m₁.catchUp (1610612737 * 1000 % 2 ^ 32)) := ht₁.catchUp (Nat.mod_lt _ (by decide))
  have hsame : (m₁.catchUp (1610612737 * 1000 % 2 ^ 32)).regs = m₁.regs ∧
      (m₁.catchUp (1610612737 * 1000 % 2 ^ 32)).ticks = m₁.ticks ∧
      (m₁.catchUp (1610612737 * 1000 % 2 ^ 32)).lastTimerId = m₁.lastTimerId := by
    rcases catchUp_eq m₁ (1610612737 * 1000 % 2 ^ 32) with heq | heq
    · rw [heq]
      exact ⟨rfl, rfl, rfl⟩
    · rw [heq]
      exact ⟨rfl, rfl, rfl⟩
  rw [hrounds, tickN_succ] at hupdate
  generalize m₁.catchUp (1610612737 * 1000 % 2 ^ 32) = m₂ at hupdate ht₂ hsame
  have hlast₂ : m₂.lastTimerId = 1 := hsame.2.2.trans hlast
  have hreg₂ : m₂.regs 1 = { tick := 0, period := 1000, repeats := 2 } := (congrFun hsame.1 1).trans hreg
  have hticks₂ : m₂.ticks = 0 := hsame.2.1.trans hticks
  obtain ⟨m₃, hm₃⟩ : ∃ m₃, tickN 1000 m₂ = some m₃ := ht₂.tickN_returns fun i hi => by
    obtain ⟨hlo, hhi⟩ := hi
    rw [hlast₂] at hhi
    rw [Nat.le_antisymm hhi hlo, hticks₂]
    exact fitting_before hreg₂
  obtain ⟨⟨wake₃, ht₃⟩, hticks₃, hregs₃, hlast₃⟩ := ht₂.tickN hm₃
  rw [hticks₂] at hticks₃
  rw [← hregs₃] at hreg₂
  obtain ⟨m, hm, hticks', hregs, hlast', hcalls⟩ := ht₃.tick_wrap (hlast₃.trans hlast₂) hticks₃ hreg₂ (by decide)
  rw [← hregs] at hreg₂
  refine ⟨m, ?_, ⟨Nat.le_refl 1, hlast'.ge⟩, ?_, hcalls, ?_⟩
  · unfold run
    rw [hadd]
    show (m₁.updateTimer 1610612737).bind (fun m => m.run []) = some m
    rw [hupdate, hm₃, Option.bind_some, hm]
    rfl
  · rw [hreg₂]
    exact ⟨by decide, by decide⟩
  · unfold OnSchedule
    rw [hcalls, hreg₂, hticks']
    decide +kernel

end TimerMgr

end MqttServer
