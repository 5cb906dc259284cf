import MqttServer.Lib.Wheel

/-!
# `Reactor.TimerWheel` — the timers of the reactor

`itimer` and `CTimerWheelMgr`. A timer is a node in one of five vectors of lists: the first has a list for each of the
next 256 ticks, the others have lists for spans of ticks that are spread over the lower vectors when their span begins.
`itimer_mgr_run` lets the wheel tick until it has caught up with the clock, and a node whose tick has come runs
`itimer_evt_cb`, which calls the handler and puts the node back.

All counters are 32-bit and wrap. A timer is named by the id `add_timer` gives it. No `handle_timeout` of the repository
starts or stops a timer, so a call is an entry of the trace `calls` and nothing else; `ticks`, `calls` and `regs` are
ghosts that no function reads.
-/

namespace MqttServer

open Lib

/-- The difference of two `IUINT32`. -/
def sub32 (a b : Nat) : Nat := (a + 2 ^ 32 - b) % 2 ^ 32

/-- A `IUINT32` as a `IINT32`. -/
def signed32 (a : Nat) : Int := if a < 2 ^ 31 then a else (a : Int) - 2 ^ 32

/-- The id of a timer. -/
abbrev TimerId := Nat

/-! ## `itimer_core` -/

/-- The vectors of `itimer_core`. -/
inductive Tv where
  | tv1 | tv2 | tv3 | tv4 | tv5
deriving DecidableEq, Repr

/-- `ITVR_BITS` and `ITVN_BITS`: the bits of a tick that choose the list of a vector. -/
def Tv.level : Tv → Level
  | tv1 => { shift := 0, bits := 8 }
  | tv2 => { shift := 8, bits := 6 }
  | tv3 => { shift := 14, bits := 6 }
  | tv4 => { shift := 20, bits := 6 }
  | tv5 => { shift := 26, bits := 6 }

/-- The index of the list of a tick. -/
def Tv.slot (v : Tv) (t : Nat) : Nat := v.level.slot t

/-- `itimer_core`. -/
structure TimerCore where
  timerJiffies : Nat := 0
  vec : Tv → Nat → List TimerId := fun _ _ => []

namespace TimerCore

/-- Replace a list. -/
def put (core : TimerCore) (v : Tv) (i : Nat) (ids : List TimerId) : TimerCore :=
  { core with vec := Function.update core.vec v (Function.update (core.vec v) i ids) }

/-- `iqueue_del_init(&node->head)` for a node that is in one of the lists. -/
def remove (core : TimerCore) (id : TimerId) : TimerCore :=
  { core with vec := fun v i => (core.vec v i).filter (· ≠ id) }

/-- The list `itimer_internal_add` chooses. -/
def place (core : TimerCore) (expires : Nat) : Tv × Nat :=
  let idx := sub32 expires core.timerJiffies
  if idx < 2 ^ 8 then (.tv1, Tv.tv1.slot expires)
  else if idx < 2 ^ 14 then (.tv2, Tv.tv2.slot expires)
  else if idx < 2 ^ 20 then (.tv3, Tv.tv3.slot expires)
  else if idx < 2 ^ 26 then (.tv4, Tv.tv4.slot expires)
  else if signed32 idx < 0 then (.tv1, Tv.tv1.slot core.timerJiffies)
  else (.tv5, Tv.tv5.slot expires)

/-- `itimer_internal_add(core, node)`. -/
def internalAdd (core : TimerCore) (id : TimerId) (expires : Nat) : TimerCore :=
  let list := core.place expires
  core.put list.1 list.2 (core.vec list.1 list.2 ++ [id])

/-- `itimer_internal_cascade(tv, index)`. -/
def internalCascade (core : TimerCore) (expires : TimerId → Nat) (v : Tv) (index : Nat) : TimerCore :=
  (core.vec v index).foldl (fun core id => core.internalAdd id (expires id)) (core.put v index [])

/-- The cascades of `itimer_internal_update` at a tick. -/
def cascades (core : TimerCore) (expires : TimerId → Nat) : TimerCore :=
  let n := core.timerJiffies
  if Tv.tv1.slot n ≠ 0 then core
  else
    let core := core.internalCascade expires .tv2 (Tv.tv2.slot n)
    if Tv.tv2.slot n ≠ 0 then core
    else
      let core := core.internalCascade expires .tv3 (Tv.tv3.slot n)
      if Tv.tv3.slot n ≠ 0 then core
      else
        let core := core.internalCascade expires .tv4 (Tv.tv4.slot n)
        if Tv.tv4.slot n ≠ 0 then core
        else core.internalCascade expires .tv5 (Tv.tv5.slot n)

end TimerCore

/-! ## `itimer_mgr` and `itimer_evt` -/

/-- `itimer_evt` and its node; `started` says that `mgr` is not null, and `destroyed` that the state of the node is
    `ITIMER_NODE_STATE_BAD`. -/
structure TimerEvt where
  period : Nat := 0
  slap : Nat := 0
  repeats : Int := 0
  started : Bool := false
  expires : Nat := 0
  destroyed : Bool := false
deriving DecidableEq, Repr

/-- What a timer was registered with, at which tick, and at which tick it was deleted. -/
structure Registration where
  tick : Nat := 0
  period : Nat := 0
  repeats : Int := 0
  deleted : Option Nat := none
deriving DecidableEq, Repr

/-- `CTimerWheelMgr` with its `itimer_mgr`. The timers in the map have the ids from `1` to `lastTimerId`. -/
structure TimerMgr where
  current : Nat
  millisec : Nat := 0
  jiffies : Nat := 0
  core : TimerCore := {}
  evts : TimerId → TimerEvt := fun _ => {}
  lastTimerId : Nat := 0
  ticks : Nat := 0
  calls : List (TimerId × Nat) := []
  regs : TimerId → Registration := fun _ => {}

namespace TimerMgr

/-- The working interval of the wheel, in milliseconds. -/
def interval : Nat := 1

/-- A timer sleeps for at most this many ticks. -/
def maxSleep : Nat := 0x70000000

/-- The constructor, at a clock reading in seconds. -/
def init (now : Nat) : TimerMgr := { current := now * 1000 % 2 ^ 32 }

/-- Change a timer. -/
def setEvt (m : TimerMgr) (id : TimerId) (evt : TimerEvt) : TimerMgr := { m with evts := Function.update m.evts id evt }

/-- `itimer_node_add(core, node, expires)`. -/
def nodeAdd (m : TimerMgr) (id : TimerId) (expires : Nat) : TimerMgr :=
  { m.setEvt id { m.evts id with expires } with core := (m.core.remove id).internalAdd id expires }

/-- `itimer_evt_stop(mgr, evt)`. -/
def evtStop (m : TimerMgr) (id : TimerId) : TimerMgr :=
  if (m.evts id).started then
    { m.setEvt id { m.evts id with started := false } with core := m.core.remove id }
  else m

/-- The end of `itimer_evt_start` and of `itimer_evt_cb`: sleep until `slap`, but not too long. -/
def sleep (m : TimerMgr) (id : TimerId) : TimerMgr :=
  let expires := (sub32 (m.evts id).slap m.current + interval - 1) / interval
  let expires := if expires ≥ maxSleep then maxSleep else expires
  m.nodeAdd id ((m.jiffies + expires) % 2 ^ 32)

/-- The `while` loop of `itimer_evt_cb`: the timer, the number of calls and whether it is to be stopped. `slap` takes at
    most `2 ^ 32` values and `repeat` counts down from less, so a loop that has made as many rounds does not end. -/
def evtLoop : (fuel : Nat) → (current : Nat) → TimerEvt → (count : Nat) → Option (TimerEvt × Nat × Bool)
  | 0, _, _, _ => none
  | fuel + 1, current, evt, count =>
      if current ≥ evt.slap then
        let count := count + 1
        let evt := { evt with slap := (evt.slap + evt.period) % 2 ^ 32 }
        if evt.repeats = 1 then some (evt, count, true)
        else
          let evt := if evt.repeats > 1 then { evt with repeats := evt.repeats - 1 } else evt
          evtLoop fuel current evt count
      else some (evt, count, false)

/-- `itimer_evt_cb(evt)`; `none` when it does not return. -/
def evtCb (m : TimerMgr) (id : TimerId) : Option TimerMgr :=
  match evtLoop (2 ^ 32) m.current (m.evts id) 0 with
  | none => none
  | some (evt, count, stop) =>
      let m := m.setEvt id evt
      let m := if stop then m.evtStop id else m.sleep id
      some { m with calls := m.calls ++ List.replicate count (id, m.ticks) }

/-- The nodes whose tick has come, one after the other. -/
def evtCbs (m : TimerMgr) : List TimerId → Option TimerMgr
  | [] => some m
  | id :: ids => (m.evtCb id).bind fun m => m.evtCbs ids

/-- A round of `itimer_internal_update`. -/
def coreTick (m : TimerMgr) : Option TimerMgr :=
  let core := m.core.cascades fun id => (m.evts id).expires
  let index := Tv.tv1.slot m.core.timerJiffies
  let queued := core.vec .tv1 index
  { m with core := { core.put .tv1 index [] with timerJiffies := (m.core.timerJiffies + 1) % 2 ^ 32 } }.evtCbs queued

/-- `itimer_internal_update(core, jiffies)`; the number of rounds is known from the start. -/
def internalUpdate : (fuel : Nat) → TimerMgr → Option TimerMgr
  | 0, m => some m
  | fuel + 1, m =>
      if signed32 (sub32 m.jiffies m.core.timerJiffies) ≥ 0 then m.coreTick.bind (internalUpdate fuel) else some m

/-- A round of `itimer_mgr_run`. -/
def tick (m : TimerMgr) : Option TimerMgr :=
  (internalUpdate (sub32 m.jiffies m.core.timerJiffies + 1) m).map fun m =>
    { m with
      jiffies := (m.jiffies + 1) % 2 ^ 32
      current := (m.current + interval) % 2 ^ 32
      millisec := (m.millisec + interval) % 2 ^ 32
      ticks := m.ticks + 1 }

/-- The start of `itimer_mgr_run(mgr, millisec)`: a clock that is too far away is not caught up with. -/
def catchUp (m : TimerMgr) (millisec : Nat) : TimerMgr :=
  let limit : Int := (interval : Int) * 64
  let diff := signed32 (sub32 millisec m.millisec)
  if diff > 300000 + limit then { m with millisec }
  else if diff < -300000 - limit then { m with millisec }
  else m

/-- The loop of `itimer_mgr_run`. Every round moves `millisec` by one, so the number of rounds is known from the start. -/
def mgrLoop (millisec : Nat) : (fuel : Nat) → TimerMgr → Option TimerMgr
  | 0, m => some m
  | fuel + 1, m =>
      if signed32 (sub32 millisec m.millisec) ≥ 0 then m.tick.bind (mgrLoop millisec fuel) else some m

/-- `itimer_mgr_run(mgr, millisec)`. -/
def mgrRun (m : TimerMgr) (millisec : Nat) : Option TimerMgr :=
  let m := m.catchUp millisec
  mgrLoop millisec (sub32 millisec m.millisec + 1) m

/-! ## `CTimerWheelMgr` -/

/-- `itimer_evt_start(mgr, evt, period, repeat)` for a timer that is not started. -/
def evtStart (m : TimerMgr) (id : TimerId) (period : Nat) (repeats : Int) : TimerMgr :=
  (m.setEvt id { period, repeats, slap := (m.current + period) % 2 ^ 32, started := true }).sleep id

/-- `period*1000` or `m_last_timer_id++` overflows an `int`. -/
def AddOverflows (m : TimerMgr) (period : Int) : Prop :=
  period * 1000 < -2 ^ 31 ∨ 2 ^ 31 ≤ period * 1000 ∨ m.lastTimerId = 0x7FFFFFFF

instance (m : TimerMgr) (period : Int) : Decidable (m.AddOverflows period) := inferInstanceAs (Decidable (_ ∨ _))

/-- `add_timer(handler, period, repeat)`: the new timer is the one with the next id. `none` is an overflow. -/
def addTimer (m : TimerMgr) (period repeats : Int) : Option TimerMgr :=
  if m.AddOverflows period then none
  else
    let id := m.lastTimerId + 1
    let ms := (period * 1000 % 2 ^ 32).toNat
    some { m.evtStart id ms repeats with
           lastTimerId := id
           regs := Function.update m.regs id { tick := m.ticks, period := ms, repeats } }

/-- `del_timer(timer_id)`. The timer stays in the map; `none` is the assertion of `itimer_node_destroy` that fails when
    it is deleted again. -/
def delTimer (m : TimerMgr) (id : TimerId) : Option TimerMgr :=
  if 1 ≤ id ∧ id ≤ m.lastTimerId then
    if (m.evts id).destroyed then none
    else
      let m := m.evtStop id
      some { m.setEvt id { destroyed := true } with
             regs := Function.update m.regs id { m.regs id with deleted := some m.ticks } }
  else some m

/-- `update_timer()`, at a clock reading in seconds. -/
def updateTimer (m : TimerMgr) (now : Nat) : Option TimerMgr := m.mgrRun (now * 1000 % 2 ^ 32)

end TimerMgr

/-- What the reactor does with its timers. -/
inductive TimerOp where
  | add (period repeats : Int)
  | del (id : TimerId)
  | update (now : Nat)

/-- The state after an operation, if it returns. -/
def TimerMgr.step (m : TimerMgr) : TimerOp → Option TimerMgr
  | .add period repeats => m.addTimer period repeats
  | .del id => m.delTimer id
  | .update now => m.updateTimer now

end MqttServer
