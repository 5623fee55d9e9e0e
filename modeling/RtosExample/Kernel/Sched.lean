import RtosExample.Kernel.TimerList

/-! # Threads and the scheduler

The state of the kernel, as far as threads, their timers and mutexes go, and the functions of
`scheduler.c`, `thread.c` and `idle.c` that move a thread from one list to another. One processor,
32 priorities, no signals, as `rtconfig.h` has it.

A thread's node `tlist` is in one list at a time: the ready list of its priority, the list of the
threads that wait for a mutex, or the list of the dead. So the lists are lists of threads, and
`rt_list_remove` takes a thread out of whatever list it is in (`unlink`).

A function that ends with `rt_schedule` is given without that call, under its name: an interrupt may
come between the two. `none` is a failed `RT_ASSERT` on a thread, its state or the type of its
object, or a list head taken for a thread. -/

namespace RtosExample.Kernel.Sched

open RtosExample.Cint RtosExample.Kernel.TimerList

/-- The state of a thread, `stat & RT_THREAD_STAT_MASK`. -/
inductive Stat
  | init
  | ready
  | suspend
  | running
  | close
  deriving DecidableEq, Repr

/-- `enum rt_object_class_type`, for the object of a thread: it is `null` once the thread has been
detached. -/
inductive ObjectClassType
  | null
  | thread
  deriving DecidableEq, Repr

/-- `struct rt_thread`, as far as the kernel reads it; `yield` is `RT_THREAD_STAT_YIELD` of
`stat`. -/
structure Thread where
  type : ObjectClassType
  stat : Stat
  yield : Bool
  currentPriority : U8
  numberMask : U32
  initTick : U32
  remainingTick : U32
  error : ℤ
  deriving DecidableEq, Repr

/-- `struct rt_mutex`, but for the list of the threads that wait. -/
structure Mutex (τ : Type) where
  value : U16
  owner : Option τ
  originalPriority : U8
  hold : U8

/-- The kernel: the threads and their timers, `rt_thread_priority_table`,
`rt_thread_ready_priority_group`, `rt_current_thread`, `rt_scheduler_lock_nest`, the mutexes, the
lists `suspend_thread` of the mutexes and `_rt_thread_defunct`. -/
structure Os (τ μ : Type) where
  thread : τ → Thread
  timers : Timers τ
  table : ℕ → List τ
  group : U32
  current : Option τ
  lockNest : ℤ
  mutex : μ → Mutex τ
  waiting : μ → List τ
  defunct : List τ

variable {τ μ : Type} [DecidableEq τ]

/-- Thread `t` is changed by `f`. -/
def Os.modify (k : Os τ μ) (t : τ) (f : Thread → Thread) : Os τ μ :=
  { k with thread := Function.update k.thread t (f (k.thread t)) }

def Os.setTimers (tm : Timers τ) (k : Os τ μ) : Os τ μ := { k with timers := tm }

/-- The priority of a thread, as an index. -/
def Os.prio (k : Os τ μ) (t : τ) : ℕ := (k.thread t).currentPriority.toNat

/-- `rt_list_remove(&thread->tlist)`. -/
def unlink (t : τ) (k : Os τ μ) : Os τ μ :=
  { k with
    table := fun p => (k.table p).erase t
    waiting := fun m => (k.waiting m).erase t
    defunct := k.defunct.erase t }

/-- `__rt_ffs`: one more than the index of the lowest bit, `0` if there is none. -/
def rtFfs (v : U32) : ℕ := ((List.range 32).find? fun i => v.getLsbD i).elim 0 (· + 1)

/-! ### The ready queue -/

/-- `_scheduler_get_highest_priority_thread`: the thread and its priority. -/
def schedulerGetHighestPriorityThread (k : Os τ μ) : Option (τ × ℕ) :=
  (k.table (rtFfs k.group - 1)).head?.map fun t => (t, rtFfs k.group - 1)

/-- `rt_schedule_insert_thread`. -/
def rtScheduleInsertThread (t : τ) (k : Os τ μ) : Os τ μ :=
  if k.current = some t then k.modify t fun th => { th with stat := .running }
  else
    let k := k.modify t fun th => { th with stat := .ready }
    let k := { k with table := Function.update k.table (k.prio t) (k.table (k.prio t) ++ [t]) }
    { k with group := k.group ||| (k.thread t).numberMask }

/-- `rt_schedule_remove_thread`. -/
def rtScheduleRemoveThread (t : τ) (k : Os τ μ) : Os τ μ :=
  let k := unlink t k
  if (k.table (k.prio t)).isEmpty then { k with group := k.group &&& ~~~(k.thread t).numberMask }
  else k

/-- `rt_schedule`, with the variables `to_thread` and `need_insert_from_thread` of the source. -/
def rtSchedule (k : Os τ μ) : Option (Os τ μ) :=
  if k.lockNest = 0 then
    if k.group ≠ 0 then do
      let (highest, highestReadyPriority) ← schedulerGetHighestPriorityThread k
      let current ← k.current
      let running := (k.thread current).stat = .running
      let stays := k.prio current < highestReadyPriority ∨
        k.prio current = highestReadyPriority ∧ (k.thread current).yield = false
      let toThread := if running ∧ stays then current else highest
      let needInsertFromThread := running ∧ ¬ stays
      let k := if running then k.modify current fun th => { th with yield := false } else k
      if toThread ≠ current then
        let k := { k with current := some toThread }
        let k := if needInsertFromThread then rtScheduleInsertThread current k else k
        let k := rtScheduleRemoveThread toThread k
        return k.modify toThread fun th => { th with stat := .running }
      else
        let k := rtScheduleRemoveThread current k
        return k.modify current fun th => { th with stat := .running }
    else some k
  else some k

/-- `rt_system_scheduler_start`, up to the switch to the first thread. -/
def rtSystemSchedulerStart (k : Os τ μ) : Option (Os τ μ) := do
  let (toThread, _) ← schedulerGetHighestPriorityThread k
  let k := { k with current := some toThread }
  let k := rtScheduleRemoveThread toThread k
  return k.modify toThread fun th => { th with stat := .running, yield := false }

/-! ### Threads -/

/-- `rt_thread_init`, for an object in no list. -/
def rtThreadInit (t : τ) (priority : U8) (tick : U32) (k : Os τ μ) : Option (Os τ μ) :=
  if priority.toNat < 32 then
    let k := k.modify t fun _ =>
      { type := .thread, stat := .init, yield := false, currentPriority := priority,
        numberMask := 0, initTick := tick, remainingTick := tick, error := RT_EOK }
    some (k.setTimers (k.timers.modify t fun _ => timerInit 0 false))
  else none

/-- `rt_thread_resume`. -/
def rtThreadResume (t : τ) (k : Os τ μ) : Option (ℤ × Os τ μ) :=
  if (k.thread t).type = .thread then
    if (k.thread t).stat ≠ .suspend then some (-RT_ERROR, k)
    else
      let k := unlink t k
      let k := k.setTimers (rtTimerStop t k.timers).2
      some (RT_EOK, rtScheduleInsertThread t k)
  else none

/-- `rt_thread_suspend`. -/
def rtThreadSuspend (t : τ) (k : Os τ μ) : Option (ℤ × Os τ μ) :=
  if (k.thread t).type = .thread ∧ k.current = some t then
    if (k.thread t).stat ≠ .ready ∧ (k.thread t).stat ≠ .running then some (-RT_ERROR, k)
    else
      let k := rtScheduleRemoveThread t k
      let k := k.modify t fun th => { th with stat := .suspend }
      some (RT_EOK, k.setTimers (rtTimerStop t k.timers).2)
  else none

/-- `rt_thread_startup`, up to `rt_schedule`. -/
def rtThreadStartup (t : τ) (k : Os τ μ) : Option (Os τ μ) :=
  if (k.thread t).stat = .init ∧ (k.thread t).type = .thread then
    let k := k.modify t fun th => { th with numberMask := (1 : U32) <<< th.currentPriority.toNat }
    let k := k.modify t fun th => { th with stat := .suspend, yield := false }
    (rtThreadResume t k).map Prod.snd
  else none

/-- `rt_thread_sleep`, up to `rt_schedule`. -/
def rtThreadSleep (tick : U32) (k : Os τ μ) : Option (Os τ μ) := do
  let thread ← k.current
  if (k.thread thread).type ≠ .thread then none
  let k := k.modify thread fun th => { th with error := RT_EOK }
  let (_, k) ← rtThreadSuspend thread k
  let (tm, _) ← rtTimerControl thread (.setTime tick) k.timers
  return k.setTimers (rtTimerStart thread tm)

/-- The end of `rt_thread_sleep`, behind `rt_schedule`: what is returned. -/
def sleepReturn (thread : τ) (k : Os τ μ) : ℤ × Os τ μ :=
  let k := if (k.thread thread).error = -RT_ETIMEOUT then
      k.modify thread fun th => { th with error := RT_EOK }
    else k
  ((k.thread thread).error, k)

/-- `rt_thread_yield`: interrupts are disabled around `rt_schedule`. -/
def rtThreadYield (k : Os τ μ) : Option (Os τ μ) := do
  let thread ← k.current
  rtSchedule (k.modify thread fun th => { th with remainingTick := th.initTick, yield := true })

/-- The case `RT_THREAD_CTRL_CHANGE_PRIORITY` of `rt_thread_control`. -/
def changePriority (t : τ) (priority : U8) (k : Os τ μ) : Os τ μ :=
  if (k.thread t).stat = .ready then
    let k := rtScheduleRemoveThread t k
    let k := k.modify t fun th => { th with currentPriority := priority }
    let k := k.modify t fun th => { th with numberMask := (1 : U32) <<< th.currentPriority.toNat }
    rtScheduleInsertThread t k
  else
    let k := k.modify t fun th => { th with currentPriority := priority }
    k.modify t fun th => { th with numberMask := (1 : U32) <<< th.currentPriority.toNat }

/-- `rt_thread_control` with `RT_THREAD_CTRL_CHANGE_PRIORITY`. -/
def rtThreadControl (t : τ) (priority : U8) (k : Os τ μ) : Option (Os τ μ) :=
  if (k.thread t).type = .thread then some (changePriority t priority k) else none

/-- `rt_thread_defunct_enqueue`. -/
def rtThreadDefunctEnqueue (t : τ) (k : Os τ μ) : Os τ μ := { k with defunct := t :: k.defunct }

/-- `_thread_exit`, up to `rt_schedule`. -/
def threadExit (k : Os τ μ) : Option (Os τ μ) := do
  let thread ← k.current
  let k := rtScheduleRemoveThread thread k
  let k := k.setTimers (rtTimerDetach thread k.timers)
  let k := k.modify thread fun th => { th with stat := .close, yield := false }
  return rtThreadDefunctEnqueue thread k

/-- One round of `rt_defunct_execute`, for thread `t` of the list, as of the point where the object,
which `rt_thread_init` made a static one, is detached: its type is reset, and what else it held is
left alone. Other threads may end while the idle thread is on its way there from
`rt_thread_defunct_dequeue`, so that `t` need not be the first of the list. -/
def rtDefunctExecute (t : τ) (k : Os τ μ) : Os τ μ :=
  let k := { k with defunct := k.defunct.erase t }
  k.modify t fun th => { th with type := .null }

/-- `_thread_timeout`, which runs in the tick interrupt, with its `rt_schedule`. -/
def threadTimeout (t : τ) (k : Os τ μ) : Option (Os τ μ) :=
  if (k.thread t).stat = .suspend ∧ (k.thread t).type = .thread then
    let k := k.modify t fun th => { th with error := -RT_ETIMEOUT }
    let k := unlink t k
    rtSchedule (rtScheduleInsertThread t k)
  else none

/-! ### The tick -/

/-- The first half of `rt_tick_increase`: the tick, and the time slice of the current thread. -/
def tickSlice (k : Os τ μ) : Option (Os τ μ) := do
  let k := k.setTimers { k.timers with tick := k.timers.tick + 1 }
  let thread ← k.current
  let k := k.modify thread fun th => { th with remainingTick := th.remainingTick - 1 }
  if (k.thread thread).remainingTick = 0 then
    rtSchedule (k.modify thread fun th => { th with remainingTick := th.initTick, yield := true })
  else return k

/-- `rt_tick_increase`. The loop of `rt_timer_check` gets one round more than there are timers. -/
def rtTickIncrease (k : Os τ μ) : Option (Os τ μ) := do
  let k ← tickSlice k
  rtTimerCheck Os.timers Os.setTimers threadTimeout (k.timers.list.length + 1) k

end RtosExample.Kernel.Sched
