import RtosExample.Kernel.Sched

/-! # Mutexes

The functions of `ipc.c` for mutexes, with `RT_IPC_FLAG_PRIO`, which is the only flag they set. As
in `Sched`, a function stops where it calls `rt_schedule`: it gives the kernel at that point and,
if it does not get there, what it returns. -/

namespace RtosExample.Kernel.Mutex

open RtosExample.Cint RtosExample.Lib.Queue RtosExample.Kernel.TimerList RtosExample.Kernel.Sched

def RT_MUTEX_VALUE_MAX : U16 := 0xFFFF
def RT_MUTEX_HOLD_MAX : U8 := 0xFF

/-- The fields as `rt_mutex_init` sets them. -/
def mutexInit {τ : Type} : Mutex τ :=
  { value := 1, owner := none, originalPriority := 0xFF, hold := 0 }

variable {τ μ : Type} [DecidableEq τ] [DecidableEq μ]

/-- Mutex `m` becomes `x`. -/
def setMutex (m : μ) (x : Mutex τ) (k : Os τ μ) : Os τ μ :=
  { k with mutex := Function.update k.mutex m x }

/-- `_ipc_list_suspend`. -/
def ipcListSuspend (m : μ) (thread : τ) (k : Os τ μ) : Option (Os τ μ) := do
  let (_, k) ← rtThreadSuspend thread k
  return { k with waiting := Function.update k.waiting m (insertWhere
    (fun sthread => (k.thread thread).currentPriority < (k.thread sthread).currentPriority)
    thread (k.waiting m)) }

/-- `rt_mutex_take`, up to `rt_schedule`. -/
def rtMutexTake (m : μ) (time : ℤ) (k : Os τ μ) : Option (Os τ μ × Option ℤ) := do
  if k.lockNest ≠ 0 then none
  let thread ← k.current
  let k := k.modify thread fun th => { th with error := RT_EOK }
  let mutex := k.mutex m
  if mutex.owner = some thread then
    if mutex.hold < RT_MUTEX_HOLD_MAX then
      return (setMutex m { mutex with hold := mutex.hold + 1 } k, some RT_EOK)
    else return (k, some (-RT_EFULL))
  else if 0 < mutex.value then
    let mutex : Mutex τ := { mutex with
      value := mutex.value - 1
      owner := some thread
      originalPriority := (k.thread thread).currentPriority }
    if mutex.hold < RT_MUTEX_HOLD_MAX then
      return (setMutex m { mutex with hold := mutex.hold + 1 } k, some RT_EOK)
    else return (setMutex m mutex k, some (-RT_EFULL))
  else if time = 0 then
    return (k.modify thread fun th => { th with error := -RT_ETIMEOUT }, some (-RT_ETIMEOUT))
  else
    let owner ← mutex.owner
    let k ← (if (k.thread thread).currentPriority < (k.thread owner).currentPriority then
        rtThreadControl owner (k.thread thread).currentPriority k
      else some k)
    let k ← ipcListSuspend m thread k
    if 0 < time then
      let (tm, _) ← rtTimerControl thread (.setTime (BitVec.ofInt 32 time)) k.timers
      return (k.setTimers (rtTimerStart thread tm), none)
    else return (k, none)

/-- The end of `rt_mutex_take`, behind `rt_schedule`: what is returned. -/
def takeReturn (thread : τ) (k : Os τ μ) : ℤ :=
  if (k.thread thread).error ≠ RT_EOK then (k.thread thread).error else RT_EOK

/-- `rt_mutex_release`, up to `rt_schedule`. -/
def rtMutexRelease (m : μ) (k : Os τ μ) : Option (Os τ μ × Option ℤ) := do
  let thread ← k.current
  if (k.mutex m).owner ≠ some thread then
    return (k.modify thread fun th => { th with error := -RT_ERROR }, some (-RT_ERROR))
  else
    let k := setMutex m { k.mutex m with hold := (k.mutex m).hold - 1 } k
    if (k.mutex m).hold = 0 then
      let k ← (if (k.mutex m).originalPriority ≠ (k.thread thread).currentPriority then
          rtThreadControl thread (k.mutex m).originalPriority k
        else some k)
      match k.waiting m with
      | next :: _ =>
        let mutex : Mutex τ := { k.mutex m with
          owner := some next
          originalPriority := (k.thread next).currentPriority }
        if mutex.hold < RT_MUTEX_HOLD_MAX then
          let (_, k) ← rtThreadResume next (setMutex m { mutex with hold := mutex.hold + 1 } k)
          return (k, none)
        else return (setMutex m mutex k, some (-RT_EFULL))
      | [] =>
        if (k.mutex m).value < RT_MUTEX_VALUE_MAX then
          let mutex : Mutex τ := { k.mutex m with
            value := (k.mutex m).value + 1, owner := none, originalPriority := 0xFF }
          return (setMutex m mutex k, some RT_EOK)
        else return (k, some (-RT_EFULL))
    else return (k, some RT_EOK)

end RtosExample.Kernel.Mutex
