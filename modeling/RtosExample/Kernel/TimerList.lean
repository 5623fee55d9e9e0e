import RtosExample.Cint
import RtosExample.Lib.Queue
import Mathlib.Logic.Function.Basic

/-! # The timer list

`timer.c` and the tick counter of `clock.c`, for hard timers and one level of the skip list, as
`rtconfig.h` and `rtdef.h` set them. A timer's place in a list is the list that contains its name;
`expiring` is the list on the stack of `rt_timer_check`, which holds the timer whose callback is
running.

The callback of a timer is a function on a larger state `σ`, of which the timers are a part (`get`
and `set`), so that it may do whatever the rest of the system offers. -/

namespace RtosExample.Kernel.TimerList

open RtosExample.Cint RtosExample.Lib.Queue

/-- `RT_TICK_MAX / 2`. -/
def TICK_HALF : U32 := 0xFFFFFFFF / 2

/-- `RT_EOK` and the error codes, which `rtdef.h` names without their sign. -/
def RT_EOK : ℤ := 0
def RT_ERROR : ℤ := 1
def RT_ETIMEOUT : ℤ := 2
def RT_EFULL : ℤ := 3

/-- `struct rt_timer`; the two flag bits apart, and without the callback. -/
structure Timer where
  initTick : U32
  timeoutTick : U32
  activated : Bool
  periodic : Bool
  deriving DecidableEq, Repr

/-- The timers of the system, `_timer_list` and `rt_tick`. -/
structure Timers (ι : Type) where
  timer : ι → Timer
  list : List ι
  expiring : List ι
  tick : U32

variable {ι : Type} [DecidableEq ι]

/-- Timer `i` is changed by `f`. -/
def Timers.modify (s : Timers ι) (i : ι) (f : Timer → Timer) : Timers ι :=
  { s with timer := Function.update s.timer i (f (s.timer i)) }

/-- `_timer_remove`: out of whatever list the timer is in. -/
def timerRemove (i : ι) (s : Timers ι) : Timers ι :=
  { s with list := s.list.erase i, expiring := s.expiring.erase i }

/-- The test in the walk of `rt_timer_start` that ends it: `t` comes after the new timer. -/
def comesAfter (timeoutTick : U32) (t : Timer) : Bool :=
  if t.timeoutTick - timeoutTick = 0 then false
  else if t.timeoutTick - timeoutTick < TICK_HALF then true
  else false

/-- `rt_timer_start`. -/
def rtTimerStart (i : ι) (s : Timers ι) : Timers ι :=
  let s := timerRemove i s
  let s := s.modify i fun t => { t with activated := false }
  let s := s.modify i fun t => { t with timeoutTick := s.tick + t.initTick }
  let s := { s with
    list := insertWhere (fun t => comesAfter (s.timer i).timeoutTick (s.timer t)) i s.list }
  s.modify i fun t => { t with activated := true }

/-- `rt_timer_stop`. -/
def rtTimerStop (i : ι) (s : Timers ι) : ℤ × Timers ι :=
  if (s.timer i).activated = false then (-RT_ERROR, s)
  else (RT_EOK, (timerRemove i s).modify i fun t => { t with activated := false })

/-- `rt_timer_detach`, but for the list of objects. -/
def rtTimerDetach (i : ι) (s : Timers ι) : Timers ι :=
  (timerRemove i s).modify i fun t => { t with activated := false }

/-- `_timer_init`; the timer is in no list. -/
def timerInit (time : U32) (periodic : Bool) : Timer :=
  { initTick := time, timeoutTick := 0, activated := false, periodic }

/-- The commands of `rt_timer_control`, with the value behind `arg` where one is read. -/
inductive Ctrl
  | getTime
  | setTime (tick : U32)
  | setOneshot
  | setPeriodic
  | getState
  | getRemainTime
  deriving DecidableEq, Repr

/-- `rt_timer_control`: the timers, and what is written behind `arg`. `none`: `RT_ASSERT` fails.
The case of `RT_TIMER_CTRL_GET_STATE` has no `break` and runs into the next one. -/
def rtTimerControl (i : ι) (cmd : Ctrl) (s : Timers ι) : Option (Timers ι × Option U32) :=
  match cmd with
  | .getTime => some (s, some (s.timer i).initTick)
  | .setTime tick =>
    if tick < TICK_HALF then some (s.modify i fun t => { t with initTick := tick }, none) else none
  | .setOneshot => some (s.modify i fun t => { t with periodic := false }, none)
  | .setPeriodic => some (s.modify i fun t => { t with periodic := true }, none)
  | .getState => some (s, some (s.timer i).timeoutTick)
  | .getRemainTime => some (s, some (s.timer i).timeoutTick)

/-- The test of `rt_timer_check`: the timer has expired. -/
def expired (s : Timers ι) (i : ι) : Bool := s.tick - (s.timer i).timeoutTick < TICK_HALF

/-- What `rt_timer_check` does before the callback of an expired timer. -/
def beforeCallback (i : ι) (s : Timers ι) : Timers ι :=
  let s := timerRemove i s
  let s := if (s.timer i).periodic then s else s.modify i fun t => { t with activated := false }
  { s with expiring := i :: s.expiring }

/-- What `rt_timer_check` does after it: nothing if the callback has detached or started the
timer, else out of the local list with it, and a periodic timer starts again. -/
def afterCallback (i : ι) (s : Timers ι) : Timers ι :=
  if s.expiring.isEmpty then s
  else
    let s := timerRemove i s
    if (s.timer i).periodic && (s.timer i).activated then
      rtTimerStart i (s.modify i fun t => { t with activated := false })
    else s

section Check

variable {σ : Type} (get : σ → Timers ι) (set : Timers ι → σ → σ) (callback : ι → σ → Option σ)

/-- `rt_timer_check`. `fuel` bounds the rounds of its loop; a callback may fail. -/
def rtTimerCheck : ℕ → σ → Option σ
  | 0, _ => none
  | fuel + 1, s =>
    match (get s).list with
    | [] => some s
    | i :: _ =>
      if expired (get s) i then
        (callback i (set (beforeCallback i (get s)) s)).bind fun s =>
          rtTimerCheck fuel (set (afterCallback i (get s)) s)
      else some s

end Check

/-! ### The fields after an operation -/

section Fields

variable (s : Timers ι) (i j : ι) (f : Timer → Timer)

@[simp] theorem modify_self : (s.modify i f).timer i = f (s.timer i) := Function.update_self ..

theorem modify_of_ne {i j : ι} (h : j ≠ i) : (s.modify i f).timer j = s.timer j :=
  Function.update_of_ne h ..

@[simp] theorem modify_list : (s.modify i f).list = s.list := rfl
@[simp] theorem modify_expiring : (s.modify i f).expiring = s.expiring := rfl
@[simp] theorem modify_tick : (s.modify i f).tick = s.tick := rfl
@[simp] theorem timerRemove_timer : (timerRemove i s).timer = s.timer := rfl
@[simp] theorem timerRemove_list : (timerRemove i s).list = s.list.erase i := rfl
@[simp] theorem timerRemove_expiring : (timerRemove i s).expiring = s.expiring.erase i := rfl
@[simp] theorem timerRemove_tick : (timerRemove i s).tick = s.tick := rfl

@[simp] theorem start_tick : (rtTimerStart i s).tick = s.tick := rfl
@[simp] theorem start_expiring : (rtTimerStart i s).expiring = s.expiring.erase i := rfl

theorem start_timer : (rtTimerStart i s).timer i =
    { s.timer i with timeoutTick := s.tick + (s.timer i).initTick, activated := true } := by
  simp [rtTimerStart]

theorem start_timer_of_ne {i j : ι} (h : j ≠ i) : (rtTimerStart i s).timer j = s.timer j := by
  simp [rtTimerStart, modify_of_ne, h]

theorem start_list : (rtTimerStart i s).list =
    insertWhere (fun t => comesAfter (s.tick + (s.timer i).initTick)
      ((rtTimerStart i s).timer t)) i (s.list.erase i) := by
  refine insertWhere_congr fun t ht => ?_
  by_cases h : t = i
  · subst h
    simp [comesAfter, start_timer]
  · simp [start_timer_of_ne _ h, modify_of_ne, h]

end Fields

end RtosExample.Kernel.TimerList
