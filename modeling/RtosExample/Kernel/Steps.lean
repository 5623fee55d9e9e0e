import RtosExample.Kernel.Deeds
import Mathlib.Data.Fintype.Basic

/-! # A step as a thread sees it

`Does` is everything a legal step of a system in order can be (`step_does`). From it follows what a
step does to a thread that waits (`waiting_step`), to one that is about to come back from a call
(`coming_step`), to the order of priorities (`settled_step`), and to the locks (`locks_step`). -/

namespace RtosExample.Kernel.Steps

open RtosExample.Cint RtosExample.Lib.Queue RtosExample.Lib.Inherit RtosExample.Kernel.TimerList
open RtosExample.Kernel.Deadlines RtosExample.Kernel.Sched RtosExample.Kernel.Mutex
open RtosExample.Kernel.ReadyQueue RtosExample.Kernel.Dispatch RtosExample.Kernel.Effects
open RtosExample.Kernel.Invariant RtosExample.Kernel.Tick RtosExample.Kernel.Calls
open RtosExample.Kernel.System RtosExample.Kernel.Books RtosExample.Kernel.Bookkeeping
open RtosExample.Kernel.Deeds

variable {τ μ : Type} [DecidableEq τ] [DecidableEq μ]

/-- **What a step can be.** -/
inductive Does (idle : τ) (s : Sys τ μ) : Act τ μ → Sys τ μ → Prop
  | tick {k : Os τ μ}
      (hr : Rouses (fun t => t ∈ s.os.timers.list ∧ s.deadline t ≤ s.clock + 1) s.os k) :
      Does idle s .tick { s with os := k, clock := s.clock + 1 }
  | returns {c : τ} {call : Call τ μ} {k : Os τ μ} {r : ℤ} (hc : s.os.current = some c)
      (hp : s.pc c = .user) (hok : call.Allowed idle c s.os)
      (he : enter call s.os = some (k, .returns r))
      (hd : Deed c call s.os k (.returns r)) :
      Does idle s (.call call) { s with
        os := k, history := .ret c call r :: .call c call :: s.history }
  | schedules {c : τ} {call : Call τ μ} {k : Os τ μ} (hc : s.os.current = some c)
      (hp : s.pc c = .user) (hok : call.Allowed idle c s.os)
      (he : enter call s.os = some (k, .schedules))
      (hd : Deed c call s.os k .schedules) :
      Does idle s (.call call) { s with
        os := k
        history := .call c call :: s.history
        pc := Function.update s.pc c (.sched call)
        deadline := call.ticks.elim s.deadline fun n =>
          Function.update s.deadline c (s.clock + n) }
  | scheduled {c : τ} {call : Call τ μ} {k : Os τ μ} (hc : s.os.current = some c)
      (hp : s.pc c = .user) (hok : call.Allowed idle c s.os)
      (he : enter call s.os = some (k, .scheduled))
      (hd : Deed c call s.os k .scheduled) :
      Does idle s (.call call) { s with
        os := k, history := .call c call :: s.history, pc := Function.update s.pc c (.after call) }
  | runs {c : τ} (hc : s.os.current = some c) (hp : s.pc c = .user) : Does idle s .go s
  | switches {c c' : τ} {call : Call τ μ} {k : Os τ μ} (hc : s.os.current = some c)
      (hp : s.pc c = .sched call) (hw : Switch s.os k c c') :
      Does idle s .go { s with os := k, pc := Function.update s.pc c (.after call) }
  | leaves {c : τ} {call : Call τ μ} {k : Os τ μ} {r : ℤ} (hc : s.os.current = some c)
      (hp : s.pc c = .after call) (he : leave c call s.os = some (r, k)) :
      Does idle s .go { s with
        os := k, pc := Function.update s.pc c .user, history := .ret c call r :: s.history }
  | reaps {t : τ} (ht : t ∈ s.os.defunct) :
      Does idle s (.reap t) { s with os := rtDefunctExecute t s.os }

variable {idle c t : τ} {s s' : Sys τ μ} {a : Act τ μ} {call : Call τ μ} {k : Os τ μ}

theorem step_does (h : Ledger idle s) (hl : Legal idle s a) (hs : step a s = some s') :
    Does idle s a s' := by
  cases a with
  | tick =>
    obtain ⟨s₁, hs₁, -, hpc, hh, hclock, hd, hr⟩ := tick_ledger h
    obtain rfl := Option.some.inj (hs.symm.trans hs₁)
    obtain ⟨k, pc, history, clock, deadline⟩ := s'
    simp only at hpc hh hclock hd hr
    subst hpc hh hclock hd
    exact .tick hr
  | call call =>
    obtain ⟨c, hc, hp, hok⟩ := hl
    have hstep := hs
    simp only [step, hc, Option.bind_eq_bind, Option.bind_some] at hstep
    obtain ⟨⟨k, stop⟩, he, -⟩ := Option.bind_eq_some_iff.mp hstep
    have hd := enter_deed h hc hp hok he
    cases stop with
    | returns r =>
      obtain rfl := Option.some.inj (hs.symm.trans (step_returns hc he))
      exact .returns hc hp hok he hd
    | schedules =>
      obtain rfl := Option.some.inj (hs.symm.trans (step_schedules hc he))
      exact .schedules hc hp hok he hd
    | scheduled =>
      obtain rfl := Option.some.inj (hs.symm.trans (step_scheduled hc he))
      exact .scheduled hc hp hok he hd
  | go =>
    obtain ⟨c, hc⟩ := current_of_sound h.sound
    cases hpc : s.pc c with
    | user =>
      obtain rfl : s = s' := by simpa [step, hc, hpc] using hs
      exact .runs hc hpc
    | sched call =>
      obtain ⟨k, c', hk, hw, -⟩ := schedule_ledger h hc hpc
      obtain rfl := (by simpa [step, hc, hpc, hk] using hs : _ = s')
      exact .switches hc hpc hw
    | after call =>
      obtain ⟨r, k, hk, -⟩ := leave_ledger h hc hpc
      obtain rfl := (by simpa [step, hc, hpc, hk] using hs : _ = s')
      exact .leaves hc hpc hk
  | reap t =>
    obtain rfl := Option.some.inj hs
    exact .reaps hl.2.2

omit [DecidableEq μ] in
theorem leave_fields {r : ℤ} {k' : Os τ μ} (he : leave c call k = some (r, k')) :
    k'.current = k.current ∧ k'.mutex = k.mutex ∧ k'.waiting = k.waiting ∧
      ∀ u, (k'.thread u).stat = (k.thread u).stat ∧ k'.prio u = k.prio u ∧
        (u ≠ c → (k'.thread u).error = (k.thread u).error) := by
  have hmod : ∀ e, let k' := k.modify c fun th => { th with error := e }
      k'.current = k.current ∧ k'.mutex = k.mutex ∧ k'.waiting = k.waiting ∧
      ∀ u, (k'.thread u).stat = (k.thread u).stat ∧ k'.prio u = k.prio u ∧
        (u ≠ c → (k'.thread u).error = (k.thread u).error) := by
    refine fun e => ⟨rfl, rfl, rfl, fun u => ?_⟩
    by_cases hu : u = c
    · subst hu
      simp [Os.prio]
    · simp [Os.prio, ReadyQueue.modify_of_ne _ _ hu]
  have hself : k' = k → k'.current = k.current ∧ k'.mutex = k.mutex ∧ k'.waiting = k.waiting ∧
      ∀ u, (k'.thread u).stat = (k.thread u).stat ∧ k'.prio u = k.prio u ∧
        (u ≠ c → (k'.thread u).error = (k.thread u).error) := by
    rintro rfl
    exact ⟨rfl, rfl, rfl, fun _ => ⟨rfl, rfl, fun _ => rfl⟩⟩
  cases call with
  | sleep n =>
    simp only [leave, sleepReturn] at he
    obtain ⟨-, rfl⟩ := Prod.mk.inj (Option.some.inj he)
    split_ifs
    · exact hmod _
    · exact ⟨rfl, rfl, rfl, fun _ => ⟨rfl, rfl, fun _ => rfl⟩⟩
  | exit => exact absurd he (by rintro ⟨⟩)
  | _ => exact hself (Prod.mk.inj (Option.some.inj he)).2.symm

omit [DecidableEq μ] in
theorem leave_lvl {r : ℤ} {k' : Os τ μ} (he : leave c call k = some (r, k')) (u : τ) :
    lvl k' u = lvl k u := lvl_eq ((leave_fields he).2.2.2 u).1

theorem clock_step (hd : Does idle s a s') : s'.clock = s.clock + ticks [a] := by
  cases hd <;> rfl

/-- What happens in a step is about the thread that has the processor. -/
theorem history_step (hd : Does idle s a s') : ∃ new, s'.history = new ++ s.history ∧
    ∀ e ∈ new, s.pc e.thread = .user ∨ s'.pc e.thread = .user := by
  cases hd with
  | tick hr => exact ⟨[], rfl, by simp⟩
  | @returns c call k r hc hp =>
    refine ⟨[.ret c call r, .call c call], rfl, fun e he => Or.inl ?_⟩
    simp only [List.mem_cons, List.not_mem_nil, or_false] at he
    rcases he with rfl | rfl <;> exact hp
  | @schedules c call k hc hp =>
    refine ⟨[.call c call], rfl, fun e he => Or.inl ?_⟩
    obtain rfl := List.mem_singleton.mp he
    exact hp
  | @scheduled c call k hc hp =>
    refine ⟨[.call c call], rfl, fun e he => Or.inl ?_⟩
    obtain rfl := List.mem_singleton.mp he
    exact hp
  | runs hc hp => exact ⟨[], rfl, by simp⟩
  | switches hc hp hw => exact ⟨[], rfl, by simp⟩
  | @leaves c call k r hc hp he =>
    refine ⟨[.ret c call r], rfl, fun e he => Or.inr ?_⟩
    obtain rfl := List.mem_singleton.mp he
    exact Function.update_self ..
  | reaps ht => exact ⟨[], rfl, by simp⟩

theorem silent_step (hd : Does idle s a s') (hb : Pc.call (s.pc t) = some call)
    (hb' : Pc.call (s'.pc t) = some call) : ∃ new, s'.history = new ++ s.history ∧
      ∀ e ∈ new, e.thread ≠ t := by
  obtain ⟨new, hh, hn⟩ := history_step hd
  refine ⟨new, hh, fun e he => ?_⟩
  rintro rfl
  rcases hn e he with hu | hu
  · rw [hu] at hb
    cases hb
  · rw [hu] at hb'
    cases hb'

/-- A thread that is in the middle of a call has been there before, or calls now. -/
theorem call_step (hd : Does idle s a s') (hb : Pc.call (s'.pc t) = some call) :
    Pc.call (s.pc t) = some call ∨
      a = .call call ∧ s.os.current = some t ∧ s.pc t = .user := by
  have hpc : ∀ {c : τ} {pc : Pc τ μ}, Pc.call (Function.update s.pc c pc t) = some call →
      t = c ∧ Pc.call pc = some call ∨ Pc.call (s.pc t) = some call := by
    intro c pc hb
    by_cases htc : t = c
    · subst htc
      rw [Function.update_self] at hb
      exact Or.inl ⟨rfl, hb⟩
    · rw [Function.update_of_ne htc] at hb
      exact Or.inr hb
  cases hd with
  | tick => exact Or.inl hb
  | returns => exact Or.inl hb
  | schedules hc hp =>
    rcases hpc hb with ⟨rfl, hcall⟩ | hb
    · obtain rfl := Option.some.inj hcall
      exact Or.inr ⟨rfl, hc, hp⟩
    · exact Or.inl hb
  | scheduled hc hp =>
    rcases hpc hb with ⟨rfl, hcall⟩ | hb
    · obtain rfl := Option.some.inj hcall
      exact Or.inr ⟨rfl, hc, hp⟩
    · exact Or.inl hb
  | runs => exact Or.inl hb
  | switches hc hp =>
    rcases hpc hb with ⟨rfl, hcall⟩ | hb
    · exact Or.inl ((congrArg Pc.call hp).trans hcall)
    · exact Or.inl hb
  | leaves => exact Or.inl ((hpc hb).resolve_left fun hx => absurd hx.2 nofun)
  | reaps => exact Or.inl hb

/-! ### A thread that waits -/

/-- What a step does to a suspended thread. -/
inductive Waits (s : Sys τ μ) (a : Act τ μ) (s' : Sys τ μ) (t : τ) : Prop
  | still (hl : lvl s'.os t = .suspend)
      (hn : a = .tick → t ∈ s.os.timers.list → s.clock + 1 < s.deadline t)
  | late (ha : a = .tick) (hm : t ∈ s.os.timers.list) (hd : s.deadline t ≤ s.clock + 1)
      (hl : lvl s'.os t = .ready) (he : (s'.os.thread t).error = -RT_ETIMEOUT)
  | given (m : μ) (ha : a = .call (.release m)) (hw : (s.os.waiting m).head? = some t)
      (hl : lvl s'.os t = .ready) (ho : (s'.os.mutex m).owner = some t)

/-- **A thread that waits** stays in its call, and wakes only as its deadline comes or it gets the
mutex. -/
theorem waiting_step (h : Ledger idle s) (hd : Does idle s a s') (ht : lvl s.os t = .suspend) :
    Pc.call (s'.pc t) = Pc.call (s.pc t) ∧ s'.deadline t = s.deadline t ∧ Waits s a s' t := by
  have hcaller : ∀ c, s.os.current = some c → s.pc c = .user → t ≠ c := by
    rintro c hc hp rfl
    have := (caller h hc hp).1
    rw [lvl_suspend.mp ht] at this
    exact absurd this (by decide)
  have hfate : ∀ {c : τ} {call : Call τ μ} {k : Os τ μ} {stop : Stop} {s' : Sys τ μ},
      call.Allowed idle c s.os → t ≠ c → Deed c call s.os k stop → s'.os = k →
      Waits s (.call call) s' t := by
    intro c call k stop s' hok hne hd hk
    subst hk
    rcases hd.fate t hne with hs | rfl | ⟨m, rfl, hw, hl, ho⟩
    · exact .still (hs.trans ht) (by rintro ⟨⟩)
    · exact absurd ((lvl_init.mpr hok).symm.trans ht) (by decide)
    · exact .given m rfl hw hl ho
  cases hd with
  | tick hr =>
    refine ⟨rfl, rfl, ?_⟩
    by_cases hP : t ∈ s.os.timers.list ∧ s.deadline t ≤ s.clock + 1
    · obtain ⟨-, hl, he⟩ := hr.woken t hP
      exact .late rfl hP.1 hP.2 hl he
    · exact .still ((hr.same t hP).1.trans ht) fun _ hm => not_le.mp fun hle => hP ⟨hm, hle⟩
  | returns hc hp hok he hd => exact ⟨rfl, rfl, hfate hok (hcaller _ hc hp) hd rfl⟩
  | @schedules c call k hc hp hok he hd =>
    have hne := hcaller c hc hp
    refine ⟨congrArg Pc.call (Function.update_of_ne hne ..), ?_, hfate hok hne hd rfl⟩
    cases call.ticks with
    | none => rfl
    | some n => exact Function.update_of_ne hne ..
  | scheduled hc hp hok he hd =>
    have hne := hcaller _ hc hp
    exact ⟨congrArg Pc.call (Function.update_of_ne hne ..), rfl, hfate hok hne hd rfl⟩
  | runs hc hp => exact ⟨rfl, rfl, .still ht (by rintro ⟨⟩)⟩
  | @switches c c' call k hc hp hw =>
    refine ⟨?_, rfl, .still ((switch_lvl hw t).trans ht) (by rintro ⟨⟩)⟩
    by_cases htc : t = c
    · subst htc
      simp [hp, Pc.call]
    · exact congrArg Pc.call (Function.update_of_ne htc ..)
  | @leaves c call k r hc hp he =>
    have hne : t ≠ c := by
      rintro rfl
      rw [after_ready h hc hp] at ht
      exact absurd ht (by decide)
    exact ⟨congrArg Pc.call (Function.update_of_ne hne ..), rfl,
      .still ((leave_lvl he t).trans ht) (by rintro ⟨⟩)⟩
  | reaps => exact ⟨rfl, rfl, .still ((reap_lvl s.os _ t).trans ht) (by rintro ⟨⟩)⟩

/-! ### A thread that is about to come back -/

omit [DecidableEq τ] in
theorem makes_owner {l l' : Locks τ μ ℕ} [DecidableEq τ] {mv : Move τ μ} (hm : Makes c call mv)
    (hs : Step mv l l') (hne : t ≠ c) {m : μ} (ho : l.owner m = some t) : l'.owner m = some t := by
  cases hs with
  | acquire ho' hw =>
    refine (Function.update_of_ne (fun he => ?_) ..).trans ho
    rw [← he, ho] at ho'
    cases ho'
  | wait => exact ho
  | pass ho' hw =>
    obtain ⟨rfl, -⟩ := hm
    refine (Function.update_of_ne (fun he => ?_) ..).trans ho
    exact hne (Option.some.inj (ho.symm.trans (he ▸ ho')))
  | free x ho' hw =>
    obtain ⟨rfl, -⟩ := hm
    refine (Function.update_of_ne (fun he => ?_) ..).trans ho
    exact hne (Option.some.inj (ho.symm.trans (he ▸ ho')))
  | expire => exact absurd hm id

/-- What a step does to a thread that is in the middle of a call and not suspended. -/
inductive Comes (s : Sys τ μ) (a : Act τ μ) (s' : Sys τ μ) (t : τ) (call : Call τ μ) : Prop
  | still (hp : Pc.call (s'.pc t) = some call) (hl : lvl s'.os t = .ready)
      (he : (s'.os.thread t).error = (s.os.thread t).error)
      (ho : ∀ m, (s.os.mutex m).owner = some t → (s'.os.mutex m).owner = some t)
  | back (r : ℤ) (k : Os τ μ) (ha : a = .go) (hc : s.os.current = some t)
      (hp : s.pc t = .after call) (he : leave t call s.os = some (r, k))
      (hh : s'.history = .ret t call r :: s.history)

theorem coming_step (hd : Does idle s a s') (ht : lvl s.os t = .ready)
    (hb : Pc.call (s.pc t) = some call) : Comes s a s' t call := by
  have hcaller : ∀ c, s.pc c = .user → t ≠ c := by
    rintro c hp rfl
    rw [hp] at hb
    cases hb
  have hdeed : ∀ {c : τ} {call' : Call τ μ} {k : Os τ μ} {stop : Stop} {s' : Sys τ μ},
      call'.Allowed idle c s.os → t ≠ c → Deed c call' s.os k stop → s'.os = k →
      Pc.call (s'.pc t) = some call → Comes s (.call call') s' t call := by
    intro c call' k stop s' hok hne hd hk hp
    subst hk
    refine .still hp ?_ (hd.error t hne) fun m ho => ?_
    · rcases hd.fate t hne with hs | rfl | ⟨m, rfl, hw, hl, ho⟩
      · exact hs.trans ht
      · exact absurd ((lvl_init.mpr hok).symm.trans ht) (by decide)
      · exact hl
    · rcases hd.locks with hs | ⟨mv, hm, hs⟩
      · exact (congrFun (congrArg Locks.owner hs) m).trans ho
      · exact makes_owner hm hs hne ho
  cases hd with
  | tick hr =>
    have hP : ¬ (t ∈ s.os.timers.list ∧ s.deadline t ≤ s.clock + 1) := fun hP => by
      have := (hr.woken t hP).1
      rw [ht] at this
      exact absurd this (by decide)
    refine .still hb ((hr.same t hP).1.trans ht) (hr.same t hP).2 fun m ho => ?_
    rw [hr.mutex]
    exact ho
  | returns hc hp hok he hd => exact hdeed hok (hcaller _ hp) hd rfl hb
  | schedules hc hp hok he hd =>
    have hne := hcaller _ hp
    exact hdeed hok hne hd rfl ((congrArg Pc.call (Function.update_of_ne hne ..)).trans hb)
  | scheduled hc hp hok he hd =>
    have hne := hcaller _ hp
    exact hdeed hok hne hd rfl ((congrArg Pc.call (Function.update_of_ne hne ..)).trans hb)
  | runs hc hp => exact .still hb ht rfl fun _ ho => ho
  | @switches c c' call' k hc hp hw =>
    refine .still ?_ ((switch_lvl hw t).trans ht) (by rw [hw.thread t]) fun m ho => ?_
    · by_cases htc : t = c
      · subst htc
        rw [hp] at hb
        simpa [Pc.call] using hb
      · exact (congrArg Pc.call (Function.update_of_ne htc ..)).trans hb
    · change (k.mutex m).owner = _
      rw [hw.mutex]
      exact ho
  | @leaves c call' k r hc hp he =>
    by_cases htc : t = c
    · subst htc
      obtain rfl : call' = call := by simpa [hp, Pc.call] using hb
      exact .back r k rfl hc hp he rfl
    · obtain ⟨-, hm, -, hth⟩ := leave_fields he
      refine .still ((congrArg Pc.call (Function.update_of_ne htc ..)).trans hb)
        ((leave_lvl he t).trans ht) ((hth t).2.2 htc) fun m ho => ?_
      change (k.mutex m).owner = _
      rw [hm]
      exact ho
  | @reaps u =>
    exact .still hb ((reap_lvl s.os u t).trans ht) (by rw [reap_thread]) fun _ ho => ho

/-! ### Priorities -/

/-- No ready thread has a higher priority than the one that runs, or that one is about to call
`rt_schedule`. -/
def Settled (s : Sys τ μ) : Prop :=
  Top s.os ∨ ∃ c call, s.os.current = some c ∧ s.pc c = .sched call

/-- Nobody gives up a mutex with a higher priority, that is a smaller number, than it took it with,
unless it hands it on. -/
def Steady (s : Sys τ μ) (a : Act τ μ) : Prop := ∀ c m, s.os.current = some c →
  a = .call (.release m) → (s.os.mutex m).owner = some c → (s.os.mutex m).hold = 1 →
  s.os.waiting m = [] → (s.os.mutex m).originalPriority ≤ (s.os.thread c).currentPriority

instance [Fintype τ] [Fintype μ] (s : Sys τ μ) (a : Act τ μ) : Decidable (Steady s a) :=
  inferInstanceAs (Decidable (∀ c m, s.os.current = some c → a = .call (.release m) →
    (s.os.mutex m).owner = some c → (s.os.mutex m).hold = 1 → s.os.waiting m = [] →
    (s.os.mutex m).originalPriority ≤ (s.os.thread c).currentPriority))

omit [DecidableEq τ] [DecidableEq μ] in
theorem top_mono {k k' : Os τ μ} (h : Top k) (hc : k'.current = k.current)
    (hs : ∀ u, (k'.thread u).stat = (k.thread u).stat)
    (hp : ∀ u, k'.prio u = k.prio u ∨ k.current = some u ∧ k'.prio u ≤ k.prio u) : Top k' := by
  intro c hcur hr u hu
  rw [hc] at hcur
  rw [hs] at hr hu
  have hle : k'.prio c ≤ k.prio c := (hp c).elim le_of_eq And.right
  have hsame : k'.prio u = k.prio u := (hp u).resolve_right fun hcu => by
    obtain rfl := Option.some.inj (hcu.1.symm.trans hcur)
    exact absurd (hr.symm.trans hu) (by decide)
  rw [hsame]
  exact hle.trans (h c hcur hr u hu)

omit [DecidableEq τ] [DecidableEq μ] in
theorem settled_user (h : Settled s) (hc : s.os.current = some c)
    (hp : ∀ call, s.pc c ≠ .sched call) : Top s.os :=
  h.resolve_right fun ⟨c', call, hc', hp'⟩ => by
    obtain rfl := Option.some.inj (hc.symm.trans hc')
    exact hp call hp'

/-- **The highest priority runs** after the step too. -/
theorem settled_step (hd : Does idle s a s') (h : Settled s) (ha : Steady s a) : Settled s' := by
  cases hd with
  | tick hr =>
    rcases h with ht | ⟨c, call, hc, hp⟩
    · exact Or.inl (hr.top ht)
    · rcases hr.current with hcur | ⟨ht, -⟩
      · exact Or.inr ⟨c, call, hcur.trans hc, hp⟩
      · exact Or.inl ht
  | @returns c call k r hc hp hok he hd =>
    have ht := settled_user h hc (by simp [hp])
    have hcur := hd.current.resolve_left (by rintro ⟨⟩)
    refine Or.inl (top_mono ht hcur (fun u => (hd.calm r rfl u).1) fun u =>
      (hd.calm r rfl u).2.imp_right ?_)
    rintro ⟨rfl, m, rfl, ho, hone, hw, hpr⟩
    refine ⟨hc, ?_⟩
    rw [Os.prio, hpr]
    exact ha u m hc rfl ho hone hw
  | @schedules c call k hc hp hok he hd =>
    have hcur := hd.current.resolve_left (by rintro ⟨⟩)
    exact Or.inr ⟨c, call, hcur.trans hc, Function.update_self ..⟩
  | scheduled hc hp hok he hd => exact Or.inl (hd.top rfl)
  | runs hc hp => exact h
  | switches hc hp hw => exact Or.inl (switch_top hw)
  | @leaves c call k r hc hp he =>
    have ht := settled_user h hc (by simp [hp])
    obtain ⟨hcur, -, -, hth⟩ := leave_fields he
    exact Or.inl (top_mono ht hcur (fun u => (hth u).1) fun u => Or.inl (hth u).2.1)
  | @reaps u =>
    rcases h with ht | hsched
    · refine Or.inl (top_mono ht rfl (fun v => ?_) fun v => Or.inl (reap_prio s.os u v))
      rw [reap_thread]
    · exact Or.inr hsched

/-! ### Mutexes -/

/-- **A step is a move of the protocol**, or none. -/
theorem locks_step (hd : Does idle s a s') :
    locks s'.os = locks s.os ∨ ∃ mv, Step mv (locks s.os) (locks s'.os) ∧
      (a = .tick ∧ mv = .expire ∨ ∃ c call, a = .call call ∧ s.os.current = some c ∧
        s.pc c = .user ∧ Makes c call mv) := by
  have hdeed : ∀ {c : τ} {call : Call τ μ} {k : Os τ μ} {stop : Stop}, s.os.current = some c →
      s.pc c = .user → Deed c call s.os k stop → locks k = locks s.os ∨ ∃ mv,
        Step mv (locks s.os) (locks k) ∧ (Act.call call = .tick ∧ mv = .expire ∨ ∃ c' call',
          Act.call call = .call call' ∧ s.os.current = some c' ∧ s.pc c' = .user ∧
          Makes c' call' mv) :=
    fun hc hp hd => hd.locks.imp_right fun ⟨mv, hm, hs⟩ =>
      ⟨mv, hs, Or.inr ⟨_, _, rfl, hc, hp, hm⟩⟩
  cases hd with
  | @tick k hr =>
    refine Or.inr ⟨.expire, ?_, Or.inl ⟨rfl, rfl⟩⟩
    have hk : locks k = { locks s.os with waiting := k.waiting } := by
      simp only [locks, hr.mutex]
      congr 1
      exact funext fun u => congrArg BitVec.toNat (hr.prio u)
    change Step .expire (locks s.os) (locks k)
    rw [hk]
    exact .expire fun m => (hr.waiting m).1
  | returns hc hp hok he hd => exact hdeed hc hp hd
  | schedules hc hp hok he hd => exact hdeed hc hp hd
  | scheduled hc hp hok he hd => exact hdeed hc hp hd
  | runs hc hp => exact Or.inl rfl
  | switches hc hp hw =>
    exact Or.inl (locks_same (fun m => by rw [hw.mutex]; exact ⟨rfl, rfl⟩) hw.waiting hw.prio)
  | @leaves c call k r hc hp he =>
    obtain ⟨-, hm, hw, hth⟩ := leave_fields he
    exact Or.inl (locks_same (fun m => by rw [hm]; exact ⟨rfl, rfl⟩) hw fun u => (hth u).2.1)
  | @reaps u =>
    exact Or.inl (locks_same (fun _ => ⟨rfl, rfl⟩) rfl fun v => reap_prio s.os u v)

/-- Whoever owns a mutex after a step has owned it, takes it now, or has waited for it. -/
theorem owner_step (hd : Does idle s a s') {m : μ} (ho : (s'.os.mutex m).owner = some t) :
    (s.os.mutex m).owner = some t ∨ (s.pc t = .user ∧ ∃ time, a = .call (.take m time)) ∨
      t ∈ s.os.waiting m := by
  rcases locks_step hd with hsame | ⟨mv, hmv, hact⟩
  · exact Or.inl ((congrFun (congrArg Locks.owner hsame) m).symm.trans ho)
  rcases owner_of_step hmv ho with ho | rfl | hw
  · exact Or.inl ho
  · rcases hact with ⟨-, hx⟩ | ⟨c, call, rfl, -, hp, rfl, time, rfl⟩
    · cases hx
    · exact Or.inr (Or.inl ⟨hp, time, rfl⟩)
  · exact Or.inr (Or.inr hw)

end RtosExample.Kernel.Steps
