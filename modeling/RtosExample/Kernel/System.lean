import RtosExample.Kernel.Mutex
import RtosExample.Lib.Runs

/-! # The kernel and its threads

The whole system: threads that call the kernel, one after the other as the scheduler lets them, and
the tick interrupt, which may come whenever interrupts are enabled. A call goes as far as
`rt_schedule` with interrupts disabled, so these kinds of steps are left: a thread calls, the thread
that has the processor goes on behind that point, the idle thread clears away one that has ended,
and the clock ticks.

`history` is what the threads see of all this, `clock` the time on a counter that does not wrap, and
`deadline` when the timer of a thread runs out. The kernel does not read these three. -/

namespace RtosExample.Kernel.System

open RtosExample.Cint RtosExample.Lib.Runs RtosExample.Kernel.TimerList RtosExample.Kernel.Sched
open RtosExample.Kernel.Mutex

/-- What a thread asks for. The argument `time` of `rt_mutex_take` is an `rt_int32_t`. -/
inductive Call (τ μ : Type)
  | take (m : μ) (time : ℤ)
  | release (m : μ)
  | sleep (tick : U32)
  | yield
  | startup (t : τ)
  | exit
  deriving DecidableEq, Repr

/-- Where a thread is: in code of its own, about to call `rt_schedule`, or behind that. -/
inductive Pc (τ μ : Type)
  | user
  | sched (c : Call τ μ)
  | after (c : Call τ μ)
  deriving DecidableEq, Repr

/-- A thread calls the kernel; a call returns to it. -/
inductive Event (τ μ : Type)
  | call (t : τ) (c : Call τ μ)
  | ret (t : τ) (c : Call τ μ) (r : ℤ)
  deriving DecidableEq, Repr

/-- The thread that is concerned. -/
def Event.thread {τ μ : Type} : Event τ μ → τ
  | .call t _ => t
  | .ret t _ _ => t

structure Sys (τ μ : Type) where
  os : Os τ μ
  pc : τ → Pc τ μ
  history : List (Event τ μ)
  clock : ℕ
  deadline : τ → ℕ

/-- How a call comes to an end, or to its `rt_schedule`. -/
inductive Stop
  | returns (r : ℤ)
  | schedules
  | scheduled

def Stop.ofReturn : Option ℤ → Stop
  | some r => .returns r
  | none => .schedules

variable {τ μ : Type} [DecidableEq τ] [DecidableEq μ]

/-- The call, up to there. -/
def enter : Call τ μ → Os τ μ → Option (Os τ μ × Stop)
  | .take m time, k => (rtMutexTake m time k).map fun p => (p.1, .ofReturn p.2)
  | .release m, k => (rtMutexRelease m k).map fun p => (p.1, .ofReturn p.2)
  | .sleep tick, k => (rtThreadSleep tick k).map fun k => (k, .schedules)
  | .yield, k => (rtThreadYield k).map fun k => (k, .scheduled)
  | .startup t, k => (rtThreadStartup t k).map fun k => (k, .schedules)
  | .exit, k => (threadExit k).map fun k => (k, .schedules)

omit [DecidableEq μ] in
/-- The call from there on. A thread that has ended does not come back. -/
def leave (thread : τ) : Call τ μ → Os τ μ → Option (ℤ × Os τ μ)
  | .take _ _, k => some (takeReturn thread k, k)
  | .release _, k => some (RT_EOK, k)
  | .sleep _, k => some (sleepReturn thread k)
  | .yield, k => some (RT_EOK, k)
  | .startup _, k => some (RT_EOK, k)
  | .exit, _ => none

omit [DecidableEq τ] [DecidableEq μ] in
/-- After how many ticks a call gives up waiting. -/
def Call.ticks : Call τ μ → Option ℕ
  | .take _ time => if 0 < time then some time.toNat else none
  | .sleep tick => some tick.toNat
  | _ => none

/-- What happens next. -/
inductive Act (τ μ : Type)
  | tick
  | call (c : Call τ μ)
  | go
  | reap (t : τ)
  deriving DecidableEq, Repr

/-- One step. `none`: an assertion of the kernel fails, or it takes a list head for a thread. -/
def step : Act τ μ → Sys τ μ → Option (Sys τ μ)
  | .tick, s => (rtTickIncrease s.os).map fun k => { s with os := k, clock := s.clock + 1 }
  | .call c, s => do
    let t ← s.os.current
    let (k, stop) ← enter c s.os
    let s := { s with os := k, history := .call t c :: s.history }
    match stop with
    | .returns r => return { s with history := .ret t c r :: s.history }
    | .schedules => return { s with
        pc := Function.update s.pc t (.sched c)
        deadline := c.ticks.elim s.deadline fun n =>
          Function.update s.deadline t (s.clock + n) }
    | .scheduled => return { s with pc := Function.update s.pc t (.after c) }
  | .go, s => do
    let t ← s.os.current
    match s.pc t with
    | .user => return s
    | .sched c => return { s with os := ← rtSchedule s.os, pc := Function.update s.pc t (.after c) }
    | .after c =>
      let (r, k) ← leave t c s.os
      return { s with
        os := k, pc := Function.update s.pc t .user, history := .ret t c r :: s.history }
  | .reap t, s => some { s with os := rtDefunctExecute t s.os }

/-! ### What may happen -/

omit [DecidableEq τ] [DecidableEq μ] in
/-- What callers of the kernel see to: times that `rt_timer_start` takes, a thread that has not been
started yet, and that the idle thread does not block or end. -/
def Call.Allowed (idle t : τ) (k : Os τ μ) : Call τ μ → Prop
  | .take _ time => t ≠ idle ∧ time < 2147483647
  | .sleep tick => t ≠ idle ∧ tick < TICK_HALF
  | .startup u => (k.thread u).stat = .init
  | .exit => t ≠ idle
  | _ => True

omit [DecidableEq τ] [DecidableEq μ] in
/-- A thread calls the kernel from code of its own, and that of the idle thread clears away those
that have ended. -/
def Legal (idle : τ) (s : Sys τ μ) : Act τ μ → Prop
  | .call c => ∃ t, s.os.current = some t ∧ s.pc t = .user ∧ c.Allowed idle t s.os
  | .reap t => s.os.current = some idle ∧ s.pc idle = .user ∧ t ∈ s.os.defunct
  | _ => True

instance (idle t : τ) (k : Os τ μ) : ∀ c : Call τ μ, Decidable (c.Allowed idle t k)
  | .take _ time => inferInstanceAs (Decidable (t ≠ idle ∧ time < 2147483647))
  | .release _ => inferInstanceAs (Decidable True)
  | .sleep tick => inferInstanceAs (Decidable (t ≠ idle ∧ tick < TICK_HALF))
  | .yield => inferInstanceAs (Decidable True)
  | .startup u => inferInstanceAs (Decidable ((k.thread u).stat = .init))
  | .exit => inferInstanceAs (Decidable (t ≠ idle))

instance (idle : τ) (s : Sys τ μ) : ∀ a : Act τ μ, Decidable (Legal idle s a)
  | .tick => inferInstanceAs (Decidable True)
  | .call c =>
    match h : s.os.current with
    | none => isFalse (by simp [Legal, h])
    | some t => decidable_of_iff (s.pc t = .user ∧ c.Allowed idle t s.os) (by simp [Legal, h])
  | .go => inferInstanceAs (Decidable True)
  | .reap t => inferInstanceAs (Decidable
      (s.os.current = some idle ∧ s.pc idle = .user ∧ t ∈ s.os.defunct))

/-- The kernel before the scheduler starts: the threads as `rt_thread_init` leaves them. -/
def bootOs (priority : τ → U8) (tick : τ → U32) (now : U32) : Os τ μ where
  thread t := { type := .thread, stat := .init, yield := false, currentPriority := priority t,
                numberMask := 0, initTick := tick t, remainingTick := tick t, error := RT_EOK }
  timers := { timer := fun _ => timerInit 0 false, list := [], expiring := [], tick := now }
  table _ := []
  group := 0
  current := none
  lockNest := 0
  mutex _ := mutexInit
  waiting _ := []
  defunct := []

/-- `rtthread_startup`: some threads are started, and then the scheduler. -/
def boot (priority : τ → U8) (tick : τ → U32) (now : U32) (startups : List τ) :
    Option (Sys τ μ) := do
  let k ← startups.foldlM (fun k t => rtThreadStartup t k) (bootOs priority tick now)
  let k ← rtSystemSchedulerStart k
  return { os := k, pc := fun _ => .user, history := [], clock := now.toNat, deadline := fun _ => 0 }

/-- **A run** of legal steps. -/
def Runs (idle : τ) : List (Act τ μ) → Sys τ μ → Sys τ μ → Prop := Path (Legal idle) step

/-- How often the clock ticks in a run. -/
def ticks : List (Act τ μ) → ℕ
  | [] => 0
  | .tick :: acts => ticks acts + 1
  | _ :: acts => ticks acts

/-- How often thread `t` has taken mutex `m` and not released it, as `t` sees it. -/
def depth (t : τ) (m : μ) : List (Event τ μ) → ℕ
  | [] => 0
  | .ret u (.take m' _) r :: l => if u = t ∧ m' = m ∧ r = RT_EOK then depth t m l + 1 else depth t m l
  | .call u (.release m') :: l => if u = t ∧ m' = m then depth t m l - 1 else depth t m l
  | _ :: l => depth t m l

end RtosExample.Kernel.System
