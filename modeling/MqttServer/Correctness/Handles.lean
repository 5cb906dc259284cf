import MqttServer.Correctness.Schedule

/-!
# `Correctness.Handles` — the ids of the timers

`add_timer` counts the ids up and never removes an entry from the map, so an id names one timer for good. What goes wrong
is that `del_timer` cannot tell: it finds the entry of a deleted timer, and the assertion of `itimer_node_destroy` fails.
With ids and periods that fit an `int` everything else is in order (`handles_sound_iff`), and no callback runs into an assertion, since the wheel holds the nodes
of timers that are started, and a deleted timer is not.

`itimer_internal_add` sets `core` where it puts a node into a list, and whoever takes a node out clears it, so the
assertion `core != NULL` of `itimer_node_del`, which stands behind a test of the list, is left out.
-/

namespace MqttServer

/-- What ends the program: an `int` overflows in `add_timer`, an assertion fails, or a callback does not return. -/
inductive TimerFault where
  | overflow | assertion | endless
deriving DecidableEq, Repr

/-- A call of `CTimerWheelMgr`; a timer is deleted by an `int`, which the map takes for a `uint32_t`. -/
inductive TimerCall where
  | add (period repeats : Int)
  | del (id : BitVec 32)
  | update (now : Nat)

namespace TimerMgr

variable {m m' : TimerMgr} {start : Nat} {wake : TimerId → Nat} {live : TimerId → Prop} {id i : TimerId}

/-! ## The assertions of a callback -/

/-- A result, or a fault. -/
def orEndless (x : Option TimerMgr) : Except TimerFault TimerMgr :=
  match x with
  | some m => .ok m
  | none => .error .endless

/-- `evtCbs` with the assertion on `state` in `itimer_node_add` and `itimer_node_del`, of which `itimer_evt_cb` calls one. -/
def evtCbsAsserting (m : TimerMgr) : List TimerId → Except TimerFault TimerMgr
  | [] => .ok m
  | id :: ids =>
      if (m.evts id).destroyed then .error .assertion
      else (orEndless (m.evtCb id)).bind fun m => m.evtCbsAsserting ids

/-- `coreTick`, asserting. -/
def coreTickAsserting (m : TimerMgr) : Except TimerFault TimerMgr :=
  let core := m.core.cascades fun id => (m.evts id).expires
  let index := Tv.tv1.slot m.core.timerJiffies
  let queued := core.vec .tv1 index
  { m with
    core := { core.put .tv1 index [] with timerJiffies := (m.core.timerJiffies + 1) % 2 ^ 32 } }.evtCbsAsserting queued

/-- `itimer_internal_update`, asserting. -/
def internalUpdateAsserting : (fuel : Nat) → TimerMgr → Except TimerFault TimerMgr
  | 0, m => .ok m
  | fuel + 1, m =>
      if signed32 (sub32 m.jiffies m.core.timerJiffies) ≥ 0 then
        m.coreTickAsserting.bind (internalUpdateAsserting fuel)
      else .ok m

/-- A round of `itimer_mgr_run`, asserting. -/
def tickAsserting (m : TimerMgr) : Except TimerFault TimerMgr :=
  (internalUpdateAsserting (sub32 m.jiffies m.core.timerJiffies + 1) m).map ticked

/-- The loop of `itimer_mgr_run`, asserting. -/
def mgrLoopAsserting (millisec : Nat) : (fuel : Nat) → TimerMgr → Except TimerFault TimerMgr
  | 0, m => .ok m
  | fuel + 1, m =>
      if signed32 (sub32 millisec m.millisec) ≥ 0 then m.tickAsserting.bind (mgrLoopAsserting millisec fuel) else .ok m

/-- `itimer_mgr_run(mgr, millisec)`, asserting. -/
def mgrRunAsserting (m : TimerMgr) (millisec : Nat) : Except TimerFault TimerMgr :=
  let m := m.catchUp millisec
  mgrLoopAsserting millisec (sub32 millisec m.millisec + 1) m

/-! ## The calls -/

/-- What a call returns, and the state behind it. -/
def call (m : TimerMgr) : TimerCall → Except TimerFault (BitVec 32 × TimerMgr)
  | .add period repeats =>
      match m.addTimer period repeats with
      | some m => .ok (BitVec.ofNat 32 m.lastTimerId, m)
      | none => .error .overflow
  | .del id =>
      if 1 ≤ id.toNat ∧ id.toNat ≤ m.lastTimerId then
        match m.delTimer id.toNat with
        | some m => .ok (0, m)
        | none => .error .assertion
      else .ok (-1, m)
  | .update now => (m.mgrRunAsserting (now * 1000 % 2 ^ 32)).map fun m => (0, m)

/-- A condition on every call of a sequence, in the state it is made in. -/
def Throughout (P : TimerMgr → TimerCall → Prop) : TimerMgr → List TimerCall → Prop
  | _, [] => True
  | m, c :: cs => P m c ∧ ∀ r m', m.call c = .ok (r, m') → Throughout P m' cs

/-- **A new timer.** Its id is new, and it is the one that was asked for. -/
structure Created (period repeats : Int) (id : TimerId) (m m' : TimerMgr) : Prop where
  fresh : ¬ m.Registered id
  registered : ∀ i, m'.Registered i ↔ i = id ∨ m.Registered i
  started : m'.Started id
  reg : m'.regs id = { tick := m.ticks, period := (period * 1000 % 2 ^ 32).toNat, repeats }
  evt : (m'.evts id).period = (period * 1000 % 2 ^ 32).toNat ∧ (m'.evts id).repeats = repeats
  others : ∀ i, i ≠ id → m'.evts i = m.evts i ∧ m'.regs i = m.regs i

/-- **A timer that is deleted**: it is stopped and in no list, and nothing happens to the others. -/
structure Deleted (id : TimerId) (m m' : TimerMgr) : Prop where
  stopped : ¬ m'.Started id
  unlisted : ∀ v i, id ∉ m'.core.vec v i
  reg : m'.regs id = { m.regs id with deleted := some m.ticks }
  calls : m'.calls = m.calls
  others : ∀ i, i ≠ id → m'.evts i = m.evts i ∧ m'.regs i = m.regs i ∧ ∀ v j, i ∈ m'.core.vec v j ↔ i ∈ m.core.vec v j

/-- The id names a timer: `add_timer` has returned it, and it was not deleted. -/
def Named (m : TimerMgr) (id : TimerId) : Prop := m.Registered id ∧ (m.regs id).deleted = none

/-- **A call does what it should.** -/
def Sound (m : TimerMgr) : TimerCall → Prop
  | .add period repeats => ∃ id m', m.call (.add period repeats) = .ok (id, m') ∧ Created period repeats id.toNat m m'
  | .del id =>
      (m.Named id.toNat → ∃ m', m.call (.del id) = .ok (0, m') ∧ Deleted id.toNat m m') ∧
      (¬ m.Named id.toNat → m.call (.del id) = .ok (-1, m))
  | .update now => m.call (.update now) ≠ .error .assertion

/-- The calls that go well: the period in milliseconds fits an `int`, there is an id left, and no timer is deleted
    twice. -/
def Meets (m : TimerMgr) : TimerCall → Prop
  | .add period _ => -2147483 ≤ period ∧ period ≤ 2147483 ∧ m.lastTimerId ≠ 0x7FFFFFFF
  | .del id => m.Registered id.toNat → (m.regs id.toNat).deleted = none
  | .update _ => True

/-! ## Deleted timers -/

theorem evtLoop_destroyed {evt evt' : TimerEvt} {fuel current count count' : Nat} {stop : Bool}
    (h : evtLoop fuel current evt count = some (evt', count', stop)) : evt'.destroyed = evt.destroyed := by
  induction fuel generalizing evt count with
  | zero => cases h
  | succ fuel ih =>
      unfold evtLoop at h
      by_cases hge : current ≥ evt.slap
      · simp only [if_pos hge] at h
        by_cases hone : evt.repeats = 1
        · simp only [if_pos hone, Option.some.injEq, Prod.mk.injEq] at h
          obtain ⟨rfl, -, -⟩ := h
          rfl
        · simp only [if_neg hone] at h
          refine (ih h).trans ?_
          split <;> rfl
      · simp only [if_neg hge, Option.some.injEq, Prod.mk.injEq] at h
        obtain ⟨rfl, -, -⟩ := h
        rfl

theorem Woken.destroyed {current ticks w : Nat} {evt evt' : TimerEvt} {calls calls' : List Nat}
    (h : Woken current ticks evt calls evt' calls' w) : evt'.destroyed = evt.destroyed := by
  cases h with
  | stopped hloop =>
      have h := evtLoop_destroyed hloop
      exact h
  | asleep hloop =>
      have h := evtLoop_destroyed hloop
      exact h

/-- **The invariant**: the wheel is in order, and the timers in the state `ITIMER_NODE_STATE_BAD` are the deleted ones. -/
structure Handled (m : TimerMgr) : Prop where
  timely : ∃ start wake, Timely start wake m
  bad : ∀ i, (m.evts i).destroyed = true → (m.regs i).deleted ≠ none
  counted : m.lastTimerId ≤ 0x7FFFFFFF

theorem Handled.init (now : Nat) : Handled (init now) := ⟨⟨_, _, Timely.init now⟩, (fun _ h => by cases h), Nat.zero_le _⟩

theorem Handled.destroyed_iff (h : m.Handled) : (m.evts i).destroyed = true ↔ (m.regs i).deleted ≠ none := by
  obtain ⟨start, wake, ht⟩ := h.timely
  exact ⟨h.bad i, fun hd => (ht.gone i hd).1⟩

/-- A timer that is started can be put into a list and taken out of it. -/
theorem Handled.ok (h : m.Handled) (hs : m.Started i) : ¬ (m.evts i).destroyed = true := by
  intro hd
  obtain ⟨start, wake, ht⟩ := h.timely
  have hstopped := (ht.gone i (h.bad i hd)).2
  unfold Started at hs
  rw [hstopped] at hs
  cases hs

theorem Handled.tick (h : m.Handled) (ht : m.tick = some m') : m'.Handled := by
  obtain ⟨start, wake, hm⟩ := h.timely
  obtain ⟨⟨wake', hm'⟩, -, hregs, hlast, -⟩ := hm.tick ht
  obtain ⟨_, -, -, -, -, -, hout, hin⟩ := tick_armed hm.armed ht
  refine ⟨⟨start, wake', hm'⟩, fun i hd => ?_, hlast ▸ h.counted⟩
  rw [hregs]
  by_cases hw : m.Started i ∧ wake i = m.ticks
  · rw [(hin i hw.1 hw.2).destroyed] at hd
    exact h.bad i hd
  · rw [(hout i hw).1] at hd
    exact h.bad i hd

theorem Handled.catchUp (h : m.Handled) {ms : Nat} (hms : ms < 2 ^ 32) : (m.catchUp ms).Handled := by
  obtain ⟨start, wake, ht⟩ := h.timely
  refine ⟨⟨start, wake, ht.catchUp hms⟩, ?_, ?_⟩
  · rcases catchUp_eq m ms with heq | heq <;> rw [heq] <;> exact h.bad
  · rcases catchUp_eq m ms with heq | heq <;> rw [heq] <;> exact h.counted

/-! ## No assertion fails in a callback -/

/-- A composition that asserts is the composition when its parts are. -/
theorem orEndless_bind {x : Option TimerMgr} {f : TimerMgr → Option TimerMgr} {g : TimerMgr → Except TimerFault TimerMgr}
    (h : ∀ m, x = some m → g m = orEndless (f m)) : (orEndless x).bind g = orEndless (x.bind f) := by
  cases x with
  | none => rfl
  | some m => exact h m rfl

theorem evtCb_beside (hcb : m.evtCb id = some m') : Beside id m m' := by
  unfold evtCb at hcb
  cases hloop : evtLoop (2 ^ 32) m.current (m.evts id) 0 with
  | none =>
      rw [hloop] at hcb
      cases hcb
  | some r =>
      obtain ⟨evt, count, stop⟩ := r
      rw [hloop] at hcb
      cases hcb
      have hset : Beside id m (m.setEvt id evt) := setEvt_beside
      cases stop with
      | true =>
          have hb := hset.trans (evtStop_beside (m.setEvt id evt) id).1
          exact ⟨⟨hb.current, hb.millisec, hb.jiffies, hb.ticks, hb.regs, hb.last⟩, hb.evts⟩
      | false =>
          have hb := hset.trans (sleep_beside (m.setEvt id evt) id).1
          exact ⟨⟨hb.current, hb.millisec, hb.jiffies, hb.ticks, hb.regs, hb.last⟩, hb.evts⟩

theorem evtCbsAsserting_eq (ids : List TimerId) : ∀ m : TimerMgr, ids.Nodup →
    (∀ i ∈ ids, ¬ (m.evts i).destroyed = true) → m.evtCbsAsserting ids = orEndless (m.evtCbs ids) := by
  induction ids with
  | nil => exact fun _ _ _ => rfl
  | cons id ids ih =>
      intro m hnodup hok
      rw [List.nodup_cons] at hnodup
      rw [evtCbsAsserting, if_neg (hok id List.mem_cons_self), evtCbs]
      refine orEndless_bind fun m₁ hcb => ih m₁ hnodup.2 fun i hi => ?_
      have hne : i ≠ id := by
        rintro rfl
        exact hnodup.1 hi
      rw [(evtCb_beside hcb).evts i hne]
      exact hok i (List.mem_cons_of_mem _ hi)

theorem Handled.coreTickAsserting_eq (h : m.Handled) : m.coreTickAsserting = orEndless m.coreTick := by
  obtain ⟨start, wake, ht⟩ := h.timely
  obtain ⟨hcasc, -⟩ := ht.armed.wheel.cascades ht.armed.expires
  unfold coreTickAsserting coreTick
  exact evtCbsAsserting_eq _ _ (hcasc.nodup _ _) fun i hi => h.ok (hcasc.mem _ _ i hi).1

theorem Handled.tickAsserting_eq (h : m.Handled) : m.tickAsserting = orEndless m.tick := by
  obtain ⟨start, wake, ht⟩ := h.timely
  have hzero : sub32 m.jiffies m.core.timerJiffies = 0 := by
    rw [ht.armed.jiffies, ht.armed.wheel.now, sub32_self]
  have hpos : signed32 0 ≥ 0 := signed32_nonneg (by decide)
  rw [tick_eq ht.armed]
  unfold tickAsserting
  rw [hzero]
  unfold internalUpdateAsserting
  rw [hzero, if_pos hpos, h.coreTickAsserting_eq]
  cases m.coreTick <;> rfl

theorem Handled.mgrLoopAsserting_eq {ms : Nat} (fuel : Nat) : ∀ m : TimerMgr, m.Handled →
    mgrLoopAsserting ms fuel m = orEndless (mgrLoop ms fuel m) ∧
      ∀ m', mgrLoop ms fuel m = some m' → m'.Handled ∧ m'.regs = m.regs ∧ m'.lastTimerId = m.lastTimerId := by
  induction fuel with
  | zero =>
      refine fun m h => ⟨rfl, fun m' hm' => ?_⟩
      cases hm'
      exact ⟨h, rfl, rfl⟩
  | succ fuel ih =>
      intro m h
      unfold mgrLoopAsserting mgrLoop
      by_cases hpos : signed32 (sub32 ms m.millisec) ≥ 0
      · rw [if_pos hpos, if_pos hpos, h.tickAsserting_eq]
        refine ⟨orEndless_bind fun m₁ ht => (ih m₁ (h.tick ht)).1, fun m' hm' => ?_⟩
        obtain ⟨m₁, ht, hm'⟩ := Option.bind_eq_some_iff.mp hm'
        obtain ⟨h', hregs, hlast⟩ := (ih m₁ (h.tick ht)).2 m' hm'
        obtain ⟨start, wake, hm⟩ := h.timely
        obtain ⟨-, -, hregs₁, hlast₁, -⟩ := hm.tick ht
        exact ⟨h', hregs.trans hregs₁, hlast.trans hlast₁⟩
      · rw [if_neg hpos, if_neg hpos]
        refine ⟨rfl, fun m' hm' => ?_⟩
        cases hm'
        exact ⟨h, rfl, rfl⟩

/-- **`update_timer` runs into no assertion.** -/
theorem Handled.update_eq (h : m.Handled) (now : Nat) : m.call (.update now) = (orEndless (m.updateTimer now)).map fun m => (0, m) := by
  unfold call mgrRunAsserting updateTimer mgrRun
  dsimp only
  rw [(mgrLoopAsserting_eq _ _ (h.catchUp (Nat.mod_lt _ (by decide)))).1]

/-! ## Each call -/

theorem sound_update (h : m.Handled) (now : Nat) : m.Sound (.update now) := by
  show m.call (.update now) ≠ .error .assertion
  rw [h.update_eq]
  cases m.updateTimer now with
  | none => exact fun he => by cases he
  | some m' => exact fun he => by cases he

theorem meets_add_iff {period repeats : Int} : m.Meets (.add period repeats) ↔ ¬ m.AddOverflows period := by
  unfold Meets AddOverflows
  omega

/-- `add_timer` without an overflow. -/
theorem Handled.add (h : m.Handled) (period repeats : Int) (hfits : m.Meets (.add period repeats)) :
    ∃ m', m.addTimer period repeats = some m' ∧ m'.lastTimerId = m.lastTimerId + 1 ∧
      Created period repeats (m.lastTimerId + 1) m m' ∧ m'.Handled := by
  obtain ⟨start, wake, ht⟩ := h.timely
  have hnew : ¬ m.Registered (m.lastTimerId + 1) := fun hr => absurd hr.2 (Nat.not_succ_le_self _)
  have hms : (period * 1000 % 2 ^ 32).toNat < 2 ^ 32 := by omega
  obtain ⟨-, hb, hcalls, x, hx⟩ := ht.evtStart (fun hs => hnew (ht.ids _ hs)) hms repeats
  have hadd : m.addTimer period repeats = some _ := if_neg (meets_add_iff.mp hfits)
  obtain ⟨wake', ht'⟩ := ht.addTimer hadd
  have hregs : ∀ i, i ≠ m.lastTimerId + 1 → Function.update m.regs (m.lastTimerId + 1)
      { tick := m.ticks, period := (period * 1000 % 2 ^ 32).toNat, repeats } i = m.regs i :=
    fun i hi => Function.update_of_ne hi _ _
  refine ⟨_, hadd, rfl, ⟨hnew, fun i => ?_, ?_, Function.update_self _ _ _, ?_, fun i hi => ⟨hb.evts i hi, hregs i hi⟩⟩,
    ⟨start, wake', ht'⟩, fun i hd => ?_, ?_⟩
  · show 1 ≤ i ∧ i ≤ m.lastTimerId + 1 ↔ _
    constructor
    · rintro ⟨hpos, hle⟩
      exact (Nat.eq_or_lt_of_le hle).imp id fun hlt => ⟨hpos, Nat.le_of_lt_succ hlt⟩
    · rintro (rfl | hi)
      · exact ⟨Nat.succ_pos _, Nat.le_refl _⟩
      · exact ⟨hi.1, Nat.le_succ_of_le hi.2⟩
  · show ((m.evtStart _ _ _).evts _).started = true
    rw [hx]
  · show ((m.evtStart _ _ _).evts _).period = _ ∧ ((m.evtStart _ _ _).evts _).repeats = _
    rw [hx]
    exact ⟨rfl, rfl⟩
  · show (Function.update m.regs _ _ i).deleted ≠ none
    have hd : ((m.evtStart (m.lastTimerId + 1) (period * 1000 % 2 ^ 32).toNat repeats).evts i).destroyed = true := hd
    by_cases hi : i = m.lastTimerId + 1
    · rw [hi, hx] at hd
      cases hd
    · rw [hregs i hi]
      rw [hb.evts i hi] at hd
      exact h.bad i hd
  · exact Nat.succ_le_of_lt (Nat.lt_of_le_of_ne h.counted hfits.2.2)

theorem sound_add (h : m.Handled) (period repeats : Int) : m.Sound (.add period repeats) ↔ m.Meets (.add period repeats) := by
  constructor
  · rintro ⟨id, m', hcall, -⟩
    rw [meets_add_iff]
    intro hover
    have hnone : m.addTimer period repeats = none := if_pos hover
    unfold call at hcall
    simp only [hnone] at hcall
    cases hcall
  · intro hfits
    obtain ⟨m', hadd, hlast', hcreated, -⟩ := h.add period repeats hfits
    refine ⟨BitVec.ofNat 32 m'.lastTimerId, m', ?_, ?_⟩
    · unfold call
      simp only [hadd]
    · have hid : (BitVec.ofNat 32 m'.lastTimerId).toNat = m.lastTimerId + 1 := by
        have hle := h.counted
        rw [hlast', BitVec.toNat_ofNat]
        have hne := hfits.2.2
        exact Nat.mod_eq_of_lt (by omega)
      rw [hid]
      exact hcreated

/-- `del_timer` of a timer that was not deleted. -/
theorem Handled.del (h : m.Handled) (hn : m.Named id) :
    ∃ m', m.delTimer id = some m' ∧ Deleted id m m' ∧ m'.Handled := by
  obtain ⟨start, wake, ht⟩ := h.timely
  have hok : ¬ (m.evts id).destroyed = true := fun hd => h.bad id hd hn.2
  obtain ⟨hb, hcalls, -⟩ := evtStop_beside m id
  have hdel : m.delTimer id = some _ := (if_pos hn.1).trans (if_neg hok)
  have ht' := ht.delTimer hdel
  have hevts : ∀ i, i ≠ id → ((m.evtStop id).setEvt id { destroyed := true }).evts i = m.evts i :=
    fun i hi => (Function.update_of_ne hi _ _).trans (hb.evts i hi)
  have hregs : ∀ i, i ≠ id → Function.update (m.evtStop id).regs id
      { (m.evtStop id).regs id with deleted := some (m.evtStop id).ticks } i = m.regs i :=
    fun i hi => (Function.update_of_ne hi _ _).trans (congrFun hb.regs i)
  have hself : Function.update (m.evtStop id).regs id { (m.evtStop id).regs id with deleted := some (m.evtStop id).ticks } id =
      { m.regs id with deleted := some m.ticks } := by
    rw [Function.update_self, hb.regs, hb.ticks]
  have hstopped : ¬ TimerMgr.Started ((m.evtStop id).setEvt id { destroyed := true }) id := by
    unfold Started
    rw [show ((m.evtStop id).setEvt id { destroyed := true }).evts id = { destroyed := true } from Function.update_self _ _ _]
    exact Bool.false_ne_true
  refine ⟨_, hdel, ⟨hstopped, fun v i hi => hstopped (ht'.armed.wheel.mem v i id hi).1, hself, hcalls, fun i hi =>
    ⟨hevts i hi, hregs i hi, fun v j => ?_⟩⟩, ⟨start, wake, ht'⟩, fun i hd => ?_, ?_⟩
  · show i ∈ (m.evtStop id).core.vec v j ↔ _
    unfold TimerMgr.evtStop
    split
    · show i ∈ (m.core.vec v j).filter (· ≠ id) ↔ _
      simp [hi]
    · exact Iff.rfl
  · show (Function.update (m.evtStop id).regs id _ i).deleted ≠ none
    by_cases hi : i = id
    · rw [hi, hself]
      exact Option.some_ne_none _
    · rw [hregs i hi]
      apply h.bad i
      rw [← hevts i hi]
      exact hd
  · show (m.evtStop id).lastTimerId ≤ _
    rw [hb.last]
    exact h.counted

theorem sound_del (h : m.Handled) (id : BitVec 32) : m.Sound (.del id) ↔ m.Meets (.del id) := by
  unfold Sound Meets
  by_cases hreg : m.Registered id.toNat
  · have hcall : m.call (.del id) = match m.delTimer id.toNat with
      | some m => .ok (0, m)
      | none => .error .assertion := if_pos hreg
    constructor
    · rintro ⟨-, hunnamed⟩ -
      by_contra hdel
      have hnone : m.delTimer id.toNat = none := (if_pos hreg).trans (if_pos (h.destroyed_iff.mpr hdel))
      have hcall' := hunnamed fun hn => hdel hn.2
      rw [hcall, hnone] at hcall'
      cases hcall'
    · intro hdel
      refine ⟨fun hn => ?_, fun hn => absurd ⟨hreg, hdel hreg⟩ hn⟩
      obtain ⟨m', hdel', hdeleted, -⟩ := h.del hn
      refine ⟨m', ?_, hdeleted⟩
      rw [hcall, hdel']
  · have hcall : m.call (.del id) = .ok (-1, m) := if_neg hreg
    exact ⟨fun _ hr => absurd hr hreg, fun _ => ⟨fun hn => absurd hn.1 hreg, fun _ => hcall⟩⟩

theorem Handled.sound_iff (h : m.Handled) (c : TimerCall) : m.Sound c ↔ m.Meets c := by
  cases c with
  | add period repeats => exact sound_add h period repeats
  | del id => exact sound_del h id
  | update now => exact iff_of_true (sound_update h now) trivial

/-- A call that returns keeps the invariant. -/
theorem Handled.call (h : m.Handled) {c : TimerCall} {r : BitVec 32} (hc : m.call c = .ok (r, m')) : m'.Handled := by
  cases c with
  | add period repeats =>
      unfold TimerMgr.call at hc
      by_cases hover : m.AddOverflows period
      · have hnone : m.addTimer period repeats = none := if_pos hover
        simp only [hnone] at hc
        cases hc
      · obtain ⟨m₁, hadd, -, -, h'⟩ := h.add period repeats (meets_add_iff.mpr hover)
        simp only [hadd, Except.ok.injEq, Prod.mk.injEq] at hc
        exact hc.2 ▸ h'
  | del id =>
      unfold TimerMgr.call at hc
      by_cases hreg : 1 ≤ id.toNat ∧ id.toNat ≤ m.lastTimerId
      · simp only [if_pos hreg] at hc
        by_cases hdel : (m.regs id.toNat).deleted = none
        · obtain ⟨m₁, hdel', -, h'⟩ := h.del ⟨hreg, hdel⟩
          simp only [hdel', Except.ok.injEq, Prod.mk.injEq] at hc
          exact hc.2 ▸ h'
        · have hnone : m.delTimer id.toNat = none := (if_pos hreg).trans (if_pos (h.destroyed_iff.mpr hdel))
          simp only [hnone] at hc
          cases hc
      · simp only [if_neg hreg, Except.ok.injEq, Prod.mk.injEq] at hc
        exact hc.2 ▸ h
  | update now =>
      rw [h.update_eq] at hc
      cases hu : m.updateTimer now with
      | none =>
          rw [hu] at hc
          cases hc
      | some m₁ =>
          rw [hu] at hc
          cases hc
          have hms : now * 1000 % 2 ^ 32 < 2 ^ 32 := Nat.mod_lt _ (by decide)
          exact ((mgrLoopAsserting_eq _ _ (h.catchUp hms)).2 m' hu).1

/-! ## Every run -/

theorem Handled.throughout_iff (calls : List TimerCall) : ∀ m : TimerMgr, m.Handled →
    (Throughout Sound m calls ↔ Throughout Meets m calls) := by
  induction calls with
  | nil => exact fun _ _ => Iff.rfl
  | cons c calls ih =>
      intro m h
      refine and_congr (h.sound_iff c) ?_
      exact forall_congr' fun r => forall_congr' fun m' => forall_congr' fun hc => ih m' (h.call hc)

/-- **When timer handles are sound.** All calls of a sequence do what they should exactly when none of them deletes a timer
    that is deleted already, and no timer is added with a period that does not fit an `int` in milliseconds, or when
    `m_last_timer_id` is at its largest value. -/
theorem handles_sound_iff (now : Nat) (calls : List TimerCall) :
    Throughout Sound (init now) calls ↔ Throughout Meets (init now) calls :=
  Handled.throughout_iff calls _ (Handled.init now)

/-- **A timer that is deleted twice.** The entry is still there, and the assertion on the state of the node fails. -/
theorem handles_deleted_twice : ¬ Throughout Sound (init 0) [.add 1 0, .del 1, .del 1] := by
  rintro ⟨-, hadd⟩
  obtain ⟨-, hdel⟩ := hadd _ _ rfl
  obtain ⟨⟨-, hagain⟩, -⟩ := hdel _ _ rfl
  cases hagain fun hn => by cases hn.2

end TimerMgr
end MqttServer
