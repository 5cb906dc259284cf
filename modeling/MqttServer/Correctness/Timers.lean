import MqttServer.Correctness.Wheel

/-!
# `Correctness.Timers` — a tick of the timers

`itimer_evt_cb` finds out with `current >= slap` whether a call is due, and goes on until it is not. What it does to its
own timer is `Woken`; it touches nothing else. A tick wakes exactly the timers whose node is due (`tick_armed`), whatever
the timers are: the wheel is in order (`Armed`) in all runs, so what happens to one timer has no influence on when the
others are woken.
-/

namespace MqttServer

open Lib

/-- The clock of the wheel at a tick. -/
def Registration.clock (start t : Nat) : Nat := (start + t) % 2 ^ 32

namespace TimerMgr

variable {m m' : TimerMgr} {start : Nat} {wake : TimerId → Nat} {live : TimerId → Prop} {t : Nat} {id i : TimerId}
  {evt evt' : TimerEvt} {current count count' fuel : Nat} {stop : Bool}

/-- The ticks at which a timer was called. -/
def callsOf (i : TimerId) (m : TimerMgr) : List Nat := (m.calls.filter (·.1 = i)).map (·.2)

/-! ## The catch-up loop -/

/-- What the loop leaves alone, and where it ends. -/
theorem evtLoop_some (h : evtLoop fuel current evt count = some (evt', count', stop)) (hslap : evt.slap < 2 ^ 32) :
    evt'.started = evt.started ∧ evt'.slap < 2 ^ 32 ∧ (stop = false → current < evt'.slap) := by
  induction fuel generalizing evt count with
  | zero => cases h
  | succ fuel ih =>
      unfold evtLoop at h
      have hmod : (evt.slap + evt.period) % 2 ^ 32 < 2 ^ 32 := Nat.mod_lt _ (by decide)
      by_cases hge : current ≥ evt.slap
      · simp only [if_pos hge] at h
        by_cases hone : evt.repeats = 1
        · simp only [if_pos hone, Option.some.injEq, Prod.mk.injEq] at h
          obtain ⟨rfl, -, rfl⟩ := h
          exact ⟨rfl, hmod, fun h => by cases h⟩
        · simp only [if_neg hone] at h
          by_cases hmore : evt.repeats > 1
          · rw [if_pos hmore] at h
            have hrest := ih h hmod
            exact hrest
          · rw [if_neg hmore] at h
            have hrest := ih h hmod
            exact hrest
      · simp only [if_neg hge, Option.some.injEq, Prod.mk.injEq] at h
        obtain ⟨rfl, -, rfl⟩ := h
        exact ⟨rfl, hslap, fun _ => Nat.lt_of_not_le hge⟩

/-- A timer that only looks at the clock. -/
theorem evtLoop_early (hf : 1 ≤ fuel) (h : current < evt.slap) : evtLoop fuel current evt count = some (evt, count, false) := by
  obtain ⟨fuel, rfl⟩ := Nat.exists_eq_add_of_le' hf
  unfold evtLoop
  rw [if_neg (Nat.not_le.mpr h)]

/-- The last call. -/
theorem evtLoop_last (hf : 1 ≤ fuel) (h : evt.slap ≤ current) (hone : evt.repeats = 1) : evtLoop fuel current evt count =
    some ({ evt with slap := (evt.slap + evt.period) % 2 ^ 32 }, count + 1, true) := by
  obtain ⟨fuel, rfl⟩ := Nat.exists_eq_add_of_le' hf
  unfold evtLoop
  simp only [if_pos h, if_pos hone]

/-- The number of calls to come after a call that is not the last one. -/
def fewer (repeats : Int) : Int := if repeats > 1 then repeats - 1 else repeats

/-- A round of the loop that is not the last call. -/
theorem evtLoop_round (hf : 1 ≤ fuel) (h : evt.slap ≤ current) (hone : evt.repeats ≠ 1) : evtLoop fuel current evt count =
    evtLoop (fuel - 1) current { evt with slap := (evt.slap + evt.period) % 2 ^ 32, repeats := fewer evt.repeats }
      (count + 1) := by
  obtain ⟨fuel, rfl⟩ := Nat.exists_eq_add_of_le' hf
  rw [evtLoop, Nat.add_sub_cancel]
  simp only [if_pos h, if_neg hone]
  unfold fewer
  by_cases hmore : evt.repeats > 1
  · rw [if_pos hmore, if_pos hmore]
  · rw [if_neg hmore, if_neg hmore]

/-- A call after which `slap` is ahead of the clock again. -/
theorem evtLoop_once (hf : 2 ≤ fuel) (h : evt.slap ≤ current) (hone : evt.repeats ≠ 1)
    (hnext : current < evt.slap + evt.period) (hwrap : evt.slap + evt.period < 2 ^ 32) : evtLoop fuel current evt count =
      some ({ evt with slap := evt.slap + evt.period, repeats := fewer evt.repeats }, count + 1, false) := by
  rw [evtLoop_round (by omega) h hone, Nat.mod_eq_of_lt hwrap]
  exact evtLoop_early (by omega) hnext

/-! ## The wheel and the timers -/

/-- Everything but the timers and the wheel stays. -/
structure Fixed (m m' : TimerMgr) : Prop where
  current : m'.current = m.current
  millisec : m'.millisec = m.millisec
  jiffies : m'.jiffies = m.jiffies
  ticks : m'.ticks = m.ticks
  regs : m'.regs = m.regs
  last : m'.lastTimerId = m.lastTimerId

theorem Fixed.trans {m'' : TimerMgr} (h : Fixed m m') (h' : Fixed m' m'') : Fixed m m'' where
  current := h'.current.trans h.current
  millisec := h'.millisec.trans h.millisec
  jiffies := h'.jiffies.trans h.jiffies
  ticks := h'.ticks.trans h.ticks
  regs := h'.regs.trans h.regs
  last := h'.last.trans h.last

/-- Everything but one timer and the wheel stays. -/
structure Beside (id : TimerId) (m m' : TimerMgr) : Prop extends Fixed m m' where
  evts : ∀ i, i ≠ id → m'.evts i = m.evts i

/-- **The wheel is in order.** `wake` is the tick at which the node of a timer is taken out of the wheel. -/
structure Armed (start : Nat) (wake : TimerId → Nat) (live : TimerId → Prop) (t : Nat) (m : TimerMgr) : Prop where
  wheel : m.core.Holds live wake t
  jiffies : m.jiffies = m.ticks % 2 ^ 32
  current : m.current = Registration.clock start m.ticks
  expires : ∀ i, live i → (m.evts i).expires = wake i % 2 ^ 32
  slap : ∀ i, (m.evts i).slap < 2 ^ 32

/-- How long a timer sleeps. -/
def nap (current slap : Nat) : Nat := min (sub32 slap current) maxSleep

theorem sleep_eq (m : TimerMgr) (id : TimerId) : m.sleep id =
    m.nodeAdd id ((m.jiffies + nap m.current (m.evts id).slap) % 2 ^ 32) := by
  have hnap : (if sub32 (m.evts id).slap m.current ≥ maxSleep then maxSleep else sub32 (m.evts id).slap m.current) =
      nap m.current (m.evts id).slap := by
    unfold nap
    split <;> omega
  unfold sleep interval
  simp only [Nat.add_sub_cancel, Nat.div_one, hnap]

/-- A node that is put into the wheel. -/
theorem Armed.nodeAdd {w : Nat} (h : Armed start wake live t m) (hid : ¬ live id) (hlo : t ≤ w) (hhi : w < t + 2 ^ 31) :
    Armed start (Function.update wake id w) (fun x => x = id ∨ live x) t (m.nodeAdd id (w % 2 ^ 32)) := by
  have hsame : ∀ x, live x → Function.update wake id w x = wake x := by
    intro x hx
    apply Function.update_of_ne
    rintro rfl
    exact hid hx
  have hself : Function.update wake id w id = w := Function.update_self id w wake
  constructor
  case wheel =>
      have hrem : (m.core.remove id).Holds live (Function.update wake id w) t := by
        refine (h.wheel.remove id).congr (fun x => ⟨fun hx => ⟨hx, ?_⟩, fun hx => hx.1⟩) fun x hx => hsame x hx.1
        rintro rfl
        exact hid hx
      obtain ⟨hadd, -⟩ := hrem.add hid (by rw [hself]; exact hlo) (by rw [hself]; exact hhi)
      rw [hself] at hadd
      exact hadd
  case jiffies => exact h.jiffies
  case current => exact h.current
  case expires =>
      intro i hi
      show (Function.update m.evts id _ i).expires = _
      by_cases hne : i = id
      · subst hne
        rw [Function.update_self, hself]
      · rw [Function.update_of_ne hne, Function.update_of_ne hne]
        exact h.expires i (hi.resolve_left hne)
  case slap =>
      intro i
      show (Function.update m.evts id _ i).slap < _
      by_cases hne : i = id
      · subst hne
        rw [Function.update_self]
        exact h.slap i
      · rw [Function.update_of_ne hne]
        exact h.slap i

theorem nap_le (current slap : Nat) : nap current slap ≤ maxSleep := Nat.min_le_right _ _

/-- A timer that goes to sleep. -/
theorem Armed.sleep (h : Armed start wake live t m) (hid : ¬ live id)
    (ht : t ≤ m.ticks + nap m.current (m.evts id).slap) (htick : m.ticks ≤ t) :
    Armed start (Function.update wake id (m.ticks + nap m.current (m.evts id).slap)) (fun x => x = id ∨ live x) t
      (m.sleep id) := by
  have hnap := nap_le m.current (m.evts id).slap
  have hexp : (m.jiffies + nap m.current (m.evts id).slap) % 2 ^ 32 =
      (m.ticks + nap m.current (m.evts id).slap) % 2 ^ 32 := by
    rw [h.jiffies, Nat.mod_add_mod]
  rw [sleep_eq, hexp]
  refine h.nodeAdd hid ht ?_
  unfold maxSleep at hnap
  omega

/-- A timer that is stopped. -/
theorem Armed.evtStop (h : Armed start wake live t m) (id : TimerId) :
    Armed start wake (fun x => live x ∧ ((m.evts id).started → x ≠ id)) t (m.evtStop id) := by
  unfold TimerMgr.evtStop
  split
  · rename_i hs
    constructor
    case wheel => exact (h.wheel.remove id).congr (fun x => by simp [hs]) fun _ _ => rfl
    case jiffies => exact h.jiffies
    case current => exact h.current
    case expires =>
        intro i hi
        show (Function.update m.evts id _ i).expires = _
        rw [Function.update_of_ne (hi.2 hs)]
        exact h.expires i hi.1
    case slap =>
        intro i
        show (Function.update m.evts id _ i).slap < _
        by_cases hne : i = id
        · subst hne
          rw [Function.update_self]
          exact h.slap i
        · rw [Function.update_of_ne hne]
          exact h.slap i
  · rename_i hs
    exact ⟨h.wheel.congr (fun x => by simp [hs]) fun _ _ => rfl, h.jiffies, h.current,
      fun i hi => h.expires i hi.1, h.slap⟩

/-! ## A callback -/

theorem Beside.trans {m'' : TimerMgr} (h : Beside id m m') (h' : Beside id m' m'') : Beside id m m'' :=
  ⟨h.toFixed.trans h'.toFixed, fun i hi => (h'.evts i hi).trans (h.evts i hi)⟩

theorem setEvt_beside : Beside id m (m.setEvt id evt) :=
  ⟨⟨rfl, rfl, rfl, rfl, rfl, rfl⟩, fun _ hi => Function.update_of_ne hi _ _⟩

theorem evtStop_beside (m : TimerMgr) (id : TimerId) : Beside id m (m.evtStop id) ∧ (m.evtStop id).calls = m.calls ∧
    (m.evtStop id).evts id = { m.evts id with started := false } := by
  unfold evtStop
  split
  · exact ⟨⟨⟨rfl, rfl, rfl, rfl, rfl, rfl⟩, fun _ hi => Function.update_of_ne hi _ _⟩, rfl, Function.update_self _ _ _⟩
  · rename_i hs
    refine ⟨⟨⟨rfl, rfl, rfl, rfl, rfl, rfl⟩, fun _ _ => rfl⟩, rfl, ?_⟩
    rw [Bool.not_eq_true] at hs
    rw [← hs]

theorem sleep_beside (m : TimerMgr) (id : TimerId) : Beside id m (m.sleep id) ∧ (m.sleep id).calls = m.calls ∧
    ∃ x, (m.sleep id).evts id = { m.evts id with expires := x } :=
  ⟨⟨⟨rfl, rfl, rfl, rfl, rfl, rfl⟩, fun _ hi => Function.update_of_ne hi _ _⟩, rfl, _, Function.update_self _ _ _⟩

/-- A timer that is out of the wheel may change. -/
theorem Armed.setEvt (h : Armed start wake live t m) (hid : ¬ live id) (hslap : evt.slap < 2 ^ 32) :
    Armed start wake live t (m.setEvt id evt) := by
  refine ⟨h.wheel, h.jiffies, h.current, fun i hi => ?_, fun i => ?_⟩
  · have hne : i ≠ id := by
      rintro rfl
      exact hid hi
    show (Function.update m.evts id evt i).expires = _
    rw [Function.update_of_ne hne]
    exact h.expires i hi
  · show (Function.update m.evts id evt i).slap < _
    by_cases hne : i = id
    · rw [hne, Function.update_self]
      exact hslap
    · rw [Function.update_of_ne hne]
      exact h.slap i

/-- What a callback does to its timer, to the calls of its handler and to its node. -/
inductive Woken (current ticks : Nat) (evt : TimerEvt) (calls : List Nat) : TimerEvt → List Nat → Nat → Prop where
  | stopped {evt' : TimerEvt} {count w : Nat} : evtLoop (2 ^ 32) current evt 0 = some (evt', count, true) →
      Woken current ticks evt calls { evt' with started := false } (calls ++ List.replicate count ticks) w
  | asleep {evt' : TimerEvt} {count x : Nat} : evtLoop (2 ^ 32) current evt 0 = some (evt', count, false) →
      Woken current ticks evt calls { evt' with expires := x } (calls ++ List.replicate count ticks)
        (ticks + nap current evt'.slap)

theorem callsOf_append (i : TimerId) (m : TimerMgr) (id : TimerId) (count : Nat) :
    callsOf i { m with calls := m.calls ++ List.replicate count (id, m.ticks) } =
      callsOf i m ++ if i = id then List.replicate count m.ticks else [] := by
  unfold callsOf
  simp only [List.filter_append, List.map_append, List.filter_replicate]
  by_cases hi : i = id
  · simp [hi]
  · simp [hi, Ne.symm hi]

/-- The calls of the handler at the end of a callback. -/
theorem Armed.called (h : Armed start wake live t m') (hb : Beside id m m') (hcalls : m'.calls = m.calls) (count : Nat) :
    Armed start wake live t { m' with calls := m'.calls ++ List.replicate count (id, m'.ticks) } ∧
      Beside id m { m' with calls := m'.calls ++ List.replicate count (id, m'.ticks) } ∧
      (∀ i, i ≠ id → callsOf i { m' with calls := m'.calls ++ List.replicate count (id, m'.ticks) } = callsOf i m) ∧
      callsOf id { m' with calls := m'.calls ++ List.replicate count (id, m'.ticks) } =
        callsOf id m ++ List.replicate count m.ticks := by
  have hof : ∀ i, callsOf i m' = callsOf i m := by
    intro i
    unfold callsOf
    rw [hcalls]
  refine ⟨⟨h.wheel, h.jiffies, h.current, h.expires, h.slap⟩,
    ⟨⟨hb.current, hb.millisec, hb.jiffies, hb.ticks, hb.regs, hb.last⟩, hb.evts⟩, fun i hi => ?_, ?_⟩
  · rw [callsOf_append, if_neg hi, List.append_nil, hof]
  · rw [callsOf_append, if_pos rfl, hof, hb.ticks]

theorem Armed.congr {live' : TimerId → Prop} {wake' : TimerId → Nat} (h : Armed start wake live t m)
    (hlive : ∀ x, live' x ↔ live x) (hwake : ∀ x, live x → wake' x = wake x) : Armed start wake' live' t m :=
  ⟨h.wheel.congr hlive hwake, h.jiffies, h.current, fun i hi => by
    rw [hwake i ((hlive i).mp hi)]
    exact h.expires i ((hlive i).mp hi), h.slap⟩

/-- **A callback.** -/
theorem evtCb_armed (h : Armed start wake live (m.ticks + 1) m) (hid : ¬ live id) (hstarted : (m.evts id).started = true)
    (hcb : m.evtCb id = some m') :
    ∃ w, Armed start (Function.update wake id w) (fun x => live x ∨ (x = id ∧ (m'.evts id).started = true)) (m.ticks + 1) m' ∧
      Beside id m m' ∧ (∀ i, i ≠ id → callsOf i m' = callsOf i m) ∧
      Woken m.current m.ticks (m.evts id) (callsOf id m) (m'.evts id) (callsOf id m') w := by
  unfold evtCb at hcb
  match hloop : evtLoop (2 ^ 32) m.current (m.evts id) 0 with
  | none =>
      rw [hloop] at hcb
      cases hcb
  | some (evt, count, stop) =>
      rw [hloop] at hcb
      simp only [Option.some.injEq] at hcb
      subst hcb
      obtain ⟨hst, hslap, hahead⟩ := evtLoop_some hloop (h.slap id)
      have hset := h.setEvt hid hslap
      have hself : (m.setEvt id evt).evts id = evt := Function.update_self _ _ _
      have hbeside : Beside id m (m.setEvt id evt) := setEvt_beside
      cases stop with
      -- the last repetition is done: the event leaves the wheel
      | true =>
          obtain ⟨hb, hcalls, hevt⟩ := evtStop_beside (m.setEvt id evt) id
          rw [hself] at hevt
          have hne : ∀ x, live x → x ≠ id := by
            rintro x hx rfl
            exact hid hx
          have hstop : Armed start (Function.update wake id (wake id))
              (fun x => live x ∨ (x = id ∧ (((m.setEvt id evt).evtStop id).evts id).started = true))
              (m.ticks + 1) ((m.setEvt id evt).evtStop id) := by
            refine (hset.evtStop id).congr (fun x => ?_) fun x _ => by rw [Function.update_eq_self]
            rw [hevt]
            constructor
            · rintro (hx | ⟨-, hx⟩)
              · exact ⟨hx, fun _ => hne x hx⟩
              · cases hx
            · exact fun hx => Or.inl hx.1
          obtain ⟨harm, hbes, hother, hown⟩ := hstop.called (hbeside.trans hb) hcalls count
          refine ⟨wake id, harm, hbes, hother, ?_⟩
          rw [if_pos rfl, hown]
          show Woken _ _ _ _ (((m.setEvt id evt).evtStop id).evts id) _ _
          rw [hevt]
          exact Woken.stopped hloop
      -- the event is put back for the time that is left
      | false =>
          obtain ⟨hb, hcalls, x, hevt⟩ := sleep_beside (m.setEvt id evt) id
          have hcur : (m.setEvt id evt).current = m.current := rfl
          have hpos : 1 ≤ nap m.current evt.slap := by
            have hlt := hahead rfl
            unfold nap
            rw [sub32_of_lt hslap (Nat.le_of_lt hlt)]
            unfold maxSleep
            omega
          have hsleep := hset.sleep hid (by rw [hself, hcur]; exact Nat.add_le_add_left hpos _) (Nat.le_succ _)
          rw [hself] at hsleep hevt
          have hstarted' : (((m.setEvt id evt).sleep id).evts id).started = true := by
            rw [hevt]
            exact hst.trans hstarted
          have hsleep : Armed start (Function.update wake id (m.ticks + nap m.current evt.slap))
              (fun x => live x ∨ (x = id ∧ (((m.setEvt id evt).sleep id).evts id).started = true))
              (m.ticks + 1) ((m.setEvt id evt).sleep id) :=
            hsleep.congr (fun x => by rw [hstarted']; tauto) fun _ _ => rfl
          obtain ⟨harm, hbes, hother, hown⟩ := hsleep.called (hbeside.trans hb) hcalls count
          refine ⟨_, harm, hbes, hother, ?_⟩
          rw [if_neg Bool.false_ne_true, hown]
          show Woken _ _ _ _ (((m.setEvt id evt).sleep id).evts id) _ _
          rw [hevt]
          exact Woken.asleep hloop

/-- **The callbacks of a tick.** Each timer whose node was taken out is woken, and the others are left alone. -/
theorem evtCbs_armed (ids : List TimerId) : ∀ (m : TimerMgr) (wake : TimerId → Nat),
    Armed start wake (fun x => (m.evts x).started = true ∧ x ∉ ids) (m.ticks + 1) m → ids.Nodup →
    (∀ x ∈ ids, (m.evts x).started = true) → m.evtCbs ids = some m' →
    ∃ wake', Armed start wake' (fun x => (m'.evts x).started = true) (m.ticks + 1) m' ∧ Fixed m m' ∧
      (∀ i, i ∉ ids → m'.evts i = m.evts i ∧ callsOf i m' = callsOf i m ∧ wake' i = wake i) ∧
      ∀ i ∈ ids, Woken m.current m.ticks (m.evts i) (callsOf i m) (m'.evts i) (callsOf i m') (wake' i) := by
  induction ids with
  | nil =>
      intro m wake h _ _ hcbs
      cases hcbs
      exact ⟨wake, h.congr (fun x => by simp) fun _ _ => rfl, ⟨rfl, rfl, rfl, rfl, rfl, rfl⟩, fun _ _ => ⟨rfl, rfl, rfl⟩,
        fun _ hi => by cases hi⟩
  | cons id ids ih =>
      intro m wake h hnodup hstarted hcbs
      rw [List.nodup_cons] at hnodup
      obtain ⟨m₁, hcb, hrest⟩ := Option.bind_eq_some_iff.mp hcbs
      obtain ⟨w, harm, hb, hother, hwoken⟩ := evtCb_armed h (fun hx => hx.2 List.mem_cons_self)
        (hstarted id List.mem_cons_self) hcb
      have hne : ∀ x ∈ ids, x ≠ id := by
        rintro x hx rfl
        exact hnodup.1 hx
      have harm₁ : Armed start (Function.update wake id w) (fun x => (m₁.evts x).started = true ∧ x ∉ ids) (m₁.ticks + 1) m₁ := by
        rw [hb.ticks]
        refine harm.congr (fun x => ?_) fun _ _ => rfl
        by_cases hx : x = id
        · subst hx
          simp [hnodup.1]
        · rw [hb.evts x hx]
          simp [hx]
      obtain ⟨wake', harm', hfix, hout, hin⟩ := ih m₁ _ harm₁ hnodup.2
        (fun x hx => by rw [hb.evts x (hne x hx)]; exact hstarted x (List.mem_cons_of_mem _ hx)) hrest
      rw [hb.ticks] at harm'
      refine ⟨wake', harm', hb.toFixed.trans hfix, fun i hi => ?_, fun i hi => ?_⟩
      · rw [List.mem_cons, not_or] at hi
        obtain ⟨he, hc, hw⟩ := hout i hi.2
        rw [he, hc, hw, hb.evts i hi.1, hother i hi.1, Function.update_of_ne hi.1]
        exact ⟨rfl, rfl, rfl⟩
      · rcases List.mem_cons.mp hi with rfl | hi
        · obtain ⟨he, hc, hw⟩ := hout i hnodup.1
          rw [he, hc, hw, Function.update_self]
          exact hwoken
        · have hwk := hin i hi
          rw [hb.current, hb.ticks, hb.evts i (hne i hi), hother i (hne i hi)] at hwk
          exact hwk

/-- The callbacks of a tick return when each of their loops ends. -/
theorem evtCbs_returns (ids : List TimerId) : ∀ m : TimerMgr, ids.Nodup →
    (∀ x ∈ ids, (evtLoop (2 ^ 32) m.current (m.evts x) 0).isSome) → ∃ m', m.evtCbs ids = some m' := by
  induction ids with
  | nil => exact fun m _ _ => ⟨m, rfl⟩
  | cons id ids ih =>
      intro m hnodup hloops
      rw [List.nodup_cons] at hnodup
      obtain ⟨m₁, hcb, hb⟩ : ∃ m₁, m.evtCb id = some m₁ ∧ Beside id m m₁ := by
        obtain ⟨⟨evt, count, stop⟩, hloop⟩ := Option.isSome_iff_exists.mp (hloops id List.mem_cons_self)
        unfold evtCb
        rw [hloop]
        refine ⟨_, rfl, ?_⟩
        have hset : Beside id m (m.setEvt id evt) := setEvt_beside
        cases stop with
        | true =>
            have hb := hset.trans (evtStop_beside (m.setEvt id evt) id).1
            exact ⟨⟨hb.current, hb.millisec, hb.jiffies, hb.ticks, hb.regs, hb.last⟩, hb.evts⟩
        | false =>
            have hb := hset.trans (sleep_beside (m.setEvt id evt) id).1
            exact ⟨⟨hb.current, hb.millisec, hb.jiffies, hb.ticks, hb.regs, hb.last⟩, hb.evts⟩
      obtain ⟨m', hm'⟩ := ih m₁ hnodup.2 fun x hx => by
        have hne : x ≠ id := by
          rintro rfl
          exact hnodup.1 hx
        rw [hb.current, hb.evts x hne]
        exact hloops x (List.mem_cons_of_mem _ hx)
      refine ⟨m', ?_⟩
      unfold evtCbs
      rw [hcb]
      exact hm'

/-! ## A tick -/

/-- The started timers. -/
def Started (m : TimerMgr) (i : TimerId) : Prop := (m.evts i).started = true

/-- The counters of a round of `itimer_mgr_run`. -/
def ticked (m : TimerMgr) : TimerMgr :=
  { m with
    jiffies := (m.jiffies + 1) % 2 ^ 32
    current := (m.current + interval) % 2 ^ 32
    millisec := (m.millisec + interval) % 2 ^ 32
    ticks := m.ticks + 1 }

theorem sub32_self {a : Nat} : sub32 a a = 0 := by
  unfold sub32
  rw [Nat.add_sub_cancel_left, Nat.mod_self]

/-- The wheel is never behind, so it makes one step. -/
theorem tick_eq (h : Armed start wake live m.ticks m) : m.tick = m.coreTick.map ticked := by
  have hzero : sub32 m.jiffies m.core.timerJiffies = 0 := by
    rw [h.jiffies, h.wheel.now, sub32_self]
  have hpos : signed32 0 ≥ 0 := signed32_nonneg (by decide)
  unfold tick
  rw [hzero]
  unfold internalUpdate
  rw [hzero, if_pos hpos]
  cases m.coreTick <;> rfl

/-- The timers whose nodes are taken out at a tick, and the state in which they are woken. -/
theorem coreTick_eq (h : Armed start wake m.Started m.ticks m) : ∃ (ids : List TimerId) (core : TimerCore),
    m.coreTick = { m with core }.evtCbs ids ∧ ids.Nodup ∧ (∀ x, x ∈ ids ↔ m.Started x ∧ wake x = m.ticks) ∧
      Armed start wake (fun x => m.Started x ∧ x ∉ ids) (m.ticks + 1) { m with core } := by
  obtain ⟨hcasc, hahead⟩ := h.wheel.cascades h.expires
  obtain ⟨hnodup, hmem, hadv⟩ := hcasc.advance hahead
  have hnow : (m.core.cascades fun id => (m.evts id).expires).timerJiffies = m.core.timerJiffies := by
    rw [hcasc.now, h.wheel.now]
  have hindex : Tv.tv1.slot m.core.timerJiffies = Tv.tv1.slot m.ticks := by
    rw [h.wheel.now, Tv.slot_mod]
  rw [hnow] at hadv
  refine ⟨_, _, ?_, hnodup, hmem, hadv, h.jiffies, h.current, fun i hi => h.expires i hi.1, h.slap⟩
  unfold coreTick
  simp only [hindex]

/-- **A tick.** The timers whose time has come are woken, and the others are left alone. -/
theorem tick_armed (h : Armed start wake m.Started m.ticks m) (ht : m.tick = some m') :
    ∃ wake', Armed start wake' m'.Started m'.ticks m' ∧ m'.ticks = m.ticks + 1 ∧ m'.regs = m.regs ∧
      m'.lastTimerId = m.lastTimerId ∧ m'.millisec = (m.millisec + 1) % 2 ^ 32 ∧
      (∀ i, ¬ (m.Started i ∧ wake i = m.ticks) → m'.evts i = m.evts i ∧ callsOf i m' = callsOf i m ∧ wake' i = wake i) ∧
      ∀ i, m.Started i → wake i = m.ticks →
        Woken m.current m.ticks (m.evts i) (callsOf i m) (m'.evts i) (callsOf i m') (wake' i) := by
  obtain ⟨ids, core, heq, hnodup, hmem, harm⟩ := coreTick_eq h
  rw [tick_eq h, heq] at ht
  obtain ⟨m₁, hcbs, rfl⟩ := Option.map_eq_some_iff.mp ht
  obtain ⟨wake', harm', hfix, hout, hin⟩ := evtCbs_armed ids { m with core } wake harm hnodup (fun x hx => ((hmem x).mp hx).1) hcbs
  have hticks : m₁.ticks = m.ticks := hfix.ticks
  have hticked : m₁.ticked.ticks = m.ticks + 1 := congrArg (· + 1) hticks
  refine ⟨wake', ⟨?_, ?_, ?_, harm'.expires, harm'.slap⟩, hticked, hfix.regs, hfix.last,
    congrArg (fun x => (x + 1) % 2 ^ 32) hfix.millisec, fun i hi => ?_, fun i hs hw => ?_⟩
  · rw [hticked]
    exact harm'.wheel
  · rw [hticked]
    show (m₁.jiffies + 1) % 2 ^ 32 = _
    rw [harm'.jiffies, hticks, Nat.mod_add_mod]
  · rw [hticked]
    show (m₁.current + 1) % 2 ^ 32 = _
    rw [harm'.current, hticks]
    unfold Registration.clock
    rw [Nat.mod_add_mod, Nat.add_assoc]
  · exact hout i fun hm => hi ((hmem i).mp hm)
  · exact hin i ((hmem i).mpr ⟨hs, hw⟩)

/-- A tick returns when the loops of the timers whose time has come end. -/
theorem tick_returns (h : Armed start wake m.Started m.ticks m)
    (hloops : ∀ i, m.Started i → wake i = m.ticks → (evtLoop (2 ^ 32) m.current (m.evts i) 0).isSome) :
    ∃ m', m.tick = some m' := by
  obtain ⟨ids, core, heq, hnodup, hmem, -⟩ := coreTick_eq h
  obtain ⟨m₁, hcbs⟩ := evtCbs_returns ids { m with core } hnodup fun x hx =>
    hloops x ((hmem x).mp hx).1 ((hmem x).mp hx).2
  refine ⟨m₁.ticked, ?_⟩
  rw [tick_eq h, heq, hcbs]
  rfl

end TimerMgr

end MqttServer
