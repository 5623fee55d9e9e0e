import RtosExample.Kernel.Boot
import RtosExample.Kernel.Steps

/-! # What threads can rely on

An `Application` is what the kernel is started with. In every run of it, from the first thread on:

* `kernel_runs_on`: if no thread ends while it owns a mutex, no legal step fails an assertion or
  loses a list head; and the scheduler's tables say who is ready;
* `mutual_exclusion`: what threads have taken and not released, they own alone;
* `waits_for_cause`: a suspended thread waits for one mutex, which another thread owns, or sleeps;
* `sleep_exact`, `take_exact`: for how long, and what the call returns in the end;
* `release_hands_over`: a mutex goes to the first of those who wait;
* `highest_runs`: no ready thread has a higher priority than the running one. -/

namespace RtosExample.Kernel.Service

open RtosExample.Cint RtosExample.Lib.Queue RtosExample.Lib.Runs RtosExample.Kernel.TimerList
open RtosExample.Kernel.Deadlines RtosExample.Kernel.Sched RtosExample.Kernel.Mutex
open RtosExample.Kernel.ReadyQueue RtosExample.Kernel.Dispatch RtosExample.Kernel.Effects
open RtosExample.Kernel.Invariant RtosExample.Kernel.Tick RtosExample.Kernel.Calls
open RtosExample.Kernel.System RtosExample.Kernel.Books RtosExample.Kernel.Bookkeeping
open RtosExample.Kernel.Boot RtosExample.Kernel.Deeds RtosExample.Kernel.Steps

/-- The threads of an application, their priorities and time slices, what `rt_tick` is at the start,
and which threads are started before the scheduler; among them the idle thread. The priorities are
those that `rt_thread_init` accepts. -/
structure Application (τ : Type) where
  priority : τ → U8
  slice : τ → U32
  now : U32
  startups : List τ
  idle : τ
  valid : ∀ t, (priority t).toNat < 32
  nodup : startups.Nodup
  idle_mem : idle ∈ startups

variable {τ μ : Type} [DecidableEq τ]

def Application.boot (app : Application τ) : Option (Sys τ μ) :=
  System.boot app.priority app.slice app.now app.startups

variable [DecidableEq μ] (app : Application τ)

theorem app_boots : ∃ s₀ : Sys τ μ, app.boot = some s₀ ∧ Ledger app.idle s₀ ∧ Top s₀.os ∧
    (∀ t, s₀.pc t = .user) ∧ (∀ t, s₀.os.prio t = (app.priority t).toNat) ∧
    ∀ m, (s₀.os.mutex m).owner = none := by
  obtain ⟨s₀, hs₀, h, ht, hpc, -, hp, ho⟩ := boot_ledger (μ := μ) app.valid app.nodup app.idle_mem
  exact ⟨s₀, hs₀, h, ht, hpc, hp, ho⟩

/-- The rule for all that follows: what is true whenever the system is in order. -/
theorem boot_runs {P : Sys τ μ → Prop} (h : ∀ s, Ledger app.idle s → P s) :
    ∃ s₀, app.boot = some s₀ ∧ ∀ acts s, Runs app.idle acts s₀ s → P s := by
  obtain ⟨s₀, hs₀, h₀, -⟩ := app_boots (μ := μ) app
  exact ⟨s₀, hs₀, fun acts s hr => h s (runs_ledger h₀ hr)⟩

theorem boot_walk {app : Application τ} {s₀ : Sys τ μ} (hs₀ : app.boot = some s₀)
    (ok : Sys τ μ → Act τ μ → Prop) [∀ s a, Decidable (ok s a)] (acts : List (Act τ μ))
    (p : Sys τ μ → Bool) (h : (app.boot.bind (walk ok step acts)).any p = true) :
    ∃ s, Path ok step acts s₀ s ∧ p s = true := by
  rw [hs₀] at h
  exact walk_any h

/-- Four threads, of which 0 and the idle thread 3 are started first. -/
def quartet : Application (Fin 4) where
  priority t := if t = 0 then 10 else if t = 1 then 5 else if t = 2 then 8 else 31
  slice _ := 5
  now := 0xFFFFFFFE
  startups := [0, 3]
  idle := 3
  valid := by decide
  nodup := by decide
  idle_mem := by decide

/-! ### Steps that fail -/

/-- A thread releases what it has taken before it ends. -/
def Tidy (s : Sys τ μ) (a : Act τ μ) : Prop :=
  a = .call .exit → ∀ c, s.os.current = some c → ∀ m, depth c m s.history = 0

instance [Fintype τ] [Fintype μ] (s : Sys τ μ) (a : Act τ μ) : Decidable (Tidy s a) :=
  inferInstanceAs (Decidable
    (a = .call .exit → ∀ c, s.os.current = some c → ∀ m, depth c m s.history = 0))

theorem tidy_step {idle : τ} {s s' : Sys τ μ} {a : Act τ μ} (h : Ledger idle s)
    (hd : Does idle s a s') (ha : Tidy s a)
    (hs : ∀ m o, (s.os.mutex m).owner = some o → Pc.call (s.pc o) ≠ some .exit) (m : μ) (o : τ)
    (ho : (s'.os.mutex m).owner = some o) : Pc.call (s'.pc o) ≠ some .exit := by
  intro hb
  have hwaits : o ∈ s.os.waiting m → ∃ time, Pc.call (s.pc o) = some (.take m time) :=
    fun hw => ((h.seats o).taking_of_waits hw).2
  rcases call_step hd hb with hb | ⟨rfl, hc, hp⟩
  · -- it was on its way out before
    rcases owner_step hd ho with ho | ⟨hp, -⟩ | hw
    · exact hs m o ho hb
    · rw [hp] at hb
      cases hb
    · obtain ⟨time, htake⟩ := hwaits hw
      exact absurd (htake.symm.trans hb) nofun
  · -- it ends now
    rcases owner_step hd ho with ho | ⟨-, time, htake⟩ | hw
    · have h0 := ((caller h hc hp).2.2.2 m).symm.trans (ha rfl o hc m)
      exact (owns_pos (h.mutexes m)).mpr ho h0
    · cases htake
    · exact (caller h hc hp).2.1 m hw

theorem tidy_lendable {idle : τ} {s : Sys τ μ} (h : Ledger idle s)
    (hs : ∀ m o, (s.os.mutex m).owner = some o → Pc.call (s.pc o) ≠ some .exit) (a : Act τ μ) :
    Lendable s a := by
  cases a with
  | call call =>
    cases call with
    | take m time =>
      intro _ c o _ ho _
      refine h.sound.object o fun hl => hs m o ho ?_
      have hf := (h.seats o).fits
      rw [show (seat s o).level = .close from hl] at hf
      exact hf
    | _ => trivial
  | _ => trivial

-- Thread 0 ends with the mutex and is cleared away; then 1, which is to lend it its priority, cannot
-- take the mutex.
example : ((quartet.boot.bind (walk (Legal 3) step [.call (.take () (-1)), .call .exit, .go, .reap 0,
    .call (.startup 1), .go])).map fun s => (decide (Legal 3 s (.call (.take () (-1)))),
      (step (.call (.take () (-1))) s).isSome)) = some (true, false) := by decide +kernel

/-! ### Who has a mutex, and who waits -/

omit [DecidableEq τ] in
theorem depth_owns [DecidableEq τ] {idle t : τ} {s : Sys τ μ} (h : Ledger idle s) {m : μ}
    (hd : depth t m s.history ≠ 0) :
    (s.os.mutex m).owner = some t ∧ (s.os.mutex m).hold.toNat = depth t m s.history := by
  have hok := h.seats t
  have haim : (seat s t).busy.bind aim ≠ some m := fun he => hd (hok.aimed m he)
  have ho : depth t m s.history = owns (s.os.mutex m) t := hok.depth m haim
  have hown := (owns_pos (t := t) (h.mutexes m)).mp (ho ▸ hd)
  refine ⟨hown, ?_⟩
  rw [ho, owns, if_pos hown]

/-- **Mutual exclusion.** At most one thread has taken a mutex and not released it as often; the
kernel has it as the owner, and counts right. -/
theorem mutual_exclusion : ∃ s₀ : Sys τ μ, app.boot = some s₀ ∧ ∀ acts s, Runs app.idle acts s₀ s →
    ∀ m t, depth t m s.history ≠ 0 → (s.os.mutex m).owner = some t ∧
      (s.os.mutex m).hold.toNat = depth t m s.history ∧
      ∀ u, depth u m s.history ≠ 0 → u = t := by
  refine boot_runs app fun s h m t ht => ?_
  obtain ⟨ho, hh⟩ := depth_owns h ht
  refine ⟨ho, hh, fun u hu => ?_⟩
  exact Option.some.inj ((depth_owns h hu).1.symm.trans ho)

theorem mutual_exclusion_quartet : ∃ s₀ s : Sys (Fin 4) Unit, quartet.boot = some s₀ ∧
    Runs 3 [.call (.take () (-1)), .call (.take () (-1))] s₀ s ∧
    (s.os.mutex ()).owner = some 0 ∧ (s.os.mutex ()).hold.toNat = 2 ∧
    ∀ u, depth u () s.history ≠ 0 → u = 0 := by
  obtain ⟨s₀, hs₀, h⟩ := mutual_exclusion (μ := Unit) quartet
  obtain ⟨s, hs, hd⟩ := boot_walk hs₀ (Legal 3) [.call (.take () (-1)), .call (.take () (-1))]
    (fun s => decide (depth 0 () s.history = 2)) (by decide +kernel)
  have hd := of_decide_eq_true hd
  obtain ⟨ho, hh, hu⟩ := h _ s hs () 0 (by rw [hd]; decide)
  exact ⟨s₀, s, hs₀, hs, ho, hh.trans hd, hu⟩

/-- What a call that had to wait is going to return. -/
def answer (call : Call τ μ) (error : ℤ) : ℤ :=
  if (aim call).isSome then error else if error = -RT_ETIMEOUT then RT_EOK else error

/-- Thread `t` is awake in its call, or back from it, which is with `r`; `l` is an earlier history. -/
inductive Returning (t : τ) (call : Call τ μ) (l : List (Event τ μ)) (r : ℤ) (s : Sys τ μ) : Prop
  | awake (between : List (Event τ μ)) (hh : s.history = between ++ l)
      (hs : ∀ e ∈ between, e.thread ≠ t) (hp : Pc.call (s.pc t) = some call)
      (hl : lvl s.os t = .ready) (hr : answer call (s.os.thread t).error = r)
      (ho : ∀ m, aim call = some m → r = RT_EOK → (s.os.mutex m).owner = some t)
  | back (later between : List (Event τ μ))
      (hh : s.history = later ++ .ret t call r :: between ++ l) (hs : ∀ e ∈ between, e.thread ≠ t)

/-- How far thread `t` has come with a call that has blocked it `n` ticks ago, when the history was
`l`. -/
inductive Progress (t : τ) (call : Call τ μ) (l : List (Event τ μ)) (n : ℕ) (s : Sys τ μ) : Prop
  | waits (between : List (Event τ μ)) (hh : s.history = between ++ l)
      (hs : ∀ e ∈ between, e.thread ≠ t) (hp : Pc.call (s.pc t) = some call)
      (hl : lvl s.os t = .suspend)
      (hn : ∀ b, call.ticks = some b → n < max b 1 ∧ s.deadline t + n = s.clock + b)
  | granted (h : Returning t call l RT_EOK s) (m : μ) (ha : aim call = some m)
  | expired (h : Returning t call l (answer call (-RT_ETIMEOUT)) s) (b : ℕ)
      (hb : call.ticks = some b) (hn : max b 1 ≤ n)

omit [DecidableEq τ] [DecidableEq μ] in
theorem ticks_cons (a : Act τ μ) (acts : List (Act τ μ)) :
    ticks (a :: acts) = ticks [a] + ticks acts := by
  cases a <;> simp [ticks, Nat.add_comm]

section Progress

variable {idle t : τ} {s s' : Sys τ μ} {a : Act τ μ} {call : Call τ μ} {l : List (Event τ μ)} {n : ℕ}
  {r : ℤ}

omit [DecidableEq μ] in
theorem leave_answer {k k' : Os τ μ} (he : leave t call k = some (r, k'))
    (ht : (aim call).isSome ∨ call.ticks.isSome) : r = answer call (k.thread t).error := by
  cases call with
  | take m time =>
    obtain ⟨rfl, -⟩ := Prod.mk.inj (Option.some.inj he)
    simp only [takeReturn, answer, aim, Option.isSome_some, if_true]
    split_ifs with hz
    · rfl
    · exact (not_not.mp hz).symm
  | sleep n =>
    simp only [leave, sleepReturn] at he
    obtain ⟨rfl, -⟩ := Prod.mk.inj (Option.some.inj he)
    simp only [answer, aim, Option.isSome_none, Bool.false_eq_true, if_false]
    split_ifs
    · rw [ReadyQueue.modify_self]
    · rfl
  | _ => simp [aim, Call.ticks] at ht

theorem between_step (hd : Does idle s a s') (hb : Pc.call (s.pc t) = some call)
    (hb' : Pc.call (s'.pc t) = some call) {between : List (Event τ μ)}
    (hh : s.history = between ++ l) (hs : ∀ e ∈ between, e.thread ≠ t) :
    ∃ between', s'.history = between' ++ l ∧ ∀ e ∈ between', e.thread ≠ t := by
  obtain ⟨new, hn, hnt⟩ := silent_step hd hb hb'
  refine ⟨new ++ between, by rw [hn, hh, List.append_assoc], fun e he => ?_⟩
  exact (List.mem_append.mp he).elim (hnt e) (hs e)

theorem returning_step (hd : Does idle s a s') (ht : (aim call).isSome ∨ call.ticks.isSome)
    (h : Returning t call l r s) : Returning t call l r s' := by
  cases h with
  | awake between hh hbt hb hlv hr ho =>
    cases coming_step hd hlv hb with
    | still hb' hlv' he ho' =>
      obtain ⟨between', hh', hbt'⟩ := between_step hd hb hb' hh hbt
      exact .awake between' hh' hbt' hb' hlv' (he ▸ hr) fun m ha hz => ho' m (ho m ha hz)
    | back r' k _ _ _ hlv hhr =>
      obtain rfl : r' = r := (leave_answer hlv ht).trans hr
      exact .back [] between (by rw [hhr, hh]; rfl) hbt
  | back later between hh hbt =>
    obtain ⟨new, hn, -⟩ := history_step hd
    exact .back (new ++ later) between (by rw [hn, hh]; simp) hbt

/-- Who has waited in vain does not own the mutex. -/
theorem expired_owner (h : Ledger idle s) {m : μ} {time : ℤ}
    (hb : Pc.call (s.pc t) = some (.take m time)) (hl : lvl s.os t = .ready)
    (he : (s.os.thread t).error = -RT_ETIMEOUT) : (s.os.mutex m).owner ≠ some t := by
  intro ho
  rcases ((h.seats t).taking m time hb).2 hl with ⟨he', -⟩ | ⟨-, hown, -⟩
  · exact absurd (he.symm.trans he') (by decide)
  · exact (owns_pos (h.mutexes m)).mpr ho hown

theorem returning_run : ∀ {acts : List (Act τ μ)} {s s' : Sys τ μ}, Ledger idle s →
    ((aim call).isSome ∨ call.ticks.isSome) → Returning t call l r s → Runs idle acts s s' →
    Returning t call l r s'
  | [], _, _, _, _, hp, hr => hr ▸ hp
  | _ :: _, _, _, h, ht, hp, ⟨hl, _, hs, hr⟩ =>
    returning_run (next_ledger h hl hs) ht (returning_step (step_does h hl hs) ht hp) hr

theorem progress_step (h : Ledger idle s) (hl : Legal idle s a) (hs : step a s = some s')
    (hp : Progress t call l n s) : Progress t call l (n + ticks [a]) s' := by
  have hd := step_does h hl hs
  have h' := next_ledger h hl hs
  have hclock := clock_step hd
  cases hp with
  | granted hr m ha => exact .granted (returning_step hd (Or.inl (by rw [ha]; rfl)) hr) m ha
  | expired hr b hb hn =>
    exact .expired (returning_step hd (Or.inr (by rw [hb]; rfl)) hr) b hb (by omega)
  | waits between hh hbt hb hlv hn =>
    obtain ⟨hb', hdl, hw⟩ := waiting_step h hd hlv
    rw [hb] at hb'
    obtain ⟨between', hh', hbt'⟩ := between_step hd hb hb' hh hbt
    have harmed : t ∈ s.os.timers.list ↔ call.ticks.isSome := by
      rw [show t ∈ s.os.timers.list ↔ _ from (h.seats t).armed]
      simp [seat, hlv, hb]
    cases hw with
    | still hlv' hnot =>
      refine .waits between' hh' hbt' hb' hlv' fun b hcb => ?_
      obtain ⟨hlt, heq⟩ := hn b hcb
      rw [hdl, hclock]
      refine ⟨?_, by omega⟩
      cases a with
      | tick =>
        have := hnot rfl (harmed.mpr (by rw [hcb]; rfl))
        simp only [ticks]
        omega
      | call => simpa [ticks] using hlt
      | go => simpa [ticks] using hlt
      | reap => simpa [ticks] using hlt
    | late ha hm hle hlv' he =>
      subst ha
      obtain ⟨b, hcb⟩ := Option.isSome_iff_exists.mp (harmed.mp hm)
      obtain ⟨hlt, heq⟩ := hn b hcb
      refine .expired (.awake between' hh' hbt' hb' hlv' (by rw [he]) fun m ha hz => ?_) b hcb ?_
      · rw [answer, ha, Option.isSome_some, if_pos rfl] at hz
        exact absurd hz (by decide)
      · simp only [ticks]
        omega
    | given m ha hw hlv' ho =>
      obtain ⟨-, time, hcall⟩ := (h.seats t).taking_of_waits (List.mem_of_head? hw)
      obtain rfl : call = .take m time := Option.some.inj (hb.symm.trans hcall)
      refine .granted (.awake between' hh' hbt' hb' hlv' ?_ fun m' ha _ => ?_) m rfl
      · rcases ((h'.seats t).taking m time hb').2 hlv' with ⟨he, -⟩ | ⟨-, ho', -⟩
        · exact he
        · exact absurd ho' ((owns_pos (t := t) (h'.mutexes m)).mpr ho)
      · obtain rfl : m = m' := Option.some.inj ha
        exact ho

theorem progress_run : ∀ {acts : List (Act τ μ)} {s s' : Sys τ μ} {n : ℕ}, Ledger idle s →
    Progress t call l n s → Runs idle acts s s' → Progress t call l (n + ticks acts) s'
  | [], _, _, _, _, hp, hr => hr ▸ hp
  | a :: acts, s, s', n, h, hp, ⟨hl, s₁, hs, hr⟩ => by
    rw [ticks_cons, ← Nat.add_assoc]
    exact progress_run (next_ledger h hl hs) (progress_step h hl hs hp) hr

theorem scheduled_yield {k k' : Os τ μ} (he : enter call k = some (k', .scheduled)) :
    call = .yield := by
  cases call with
  | yield => rfl
  | take m time =>
    obtain ⟨p, -, hp⟩ := Option.map_eq_some_iff.mp he
    obtain ⟨-, hst⟩ := Prod.mk.inj hp
    cases hr : p.2 <;> rw [hr] at hst <;> cases hst
  | release m =>
    obtain ⟨p, -, hp⟩ := Option.map_eq_some_iff.mp he
    obtain ⟨-, hst⟩ := Prod.mk.inj hp
    cases hr : p.2 <;> rw [hr] at hst <;> cases hst
  | _ =>
    obtain ⟨p, -, hp⟩ := Option.map_eq_some_iff.mp he
    exact absurd (Prod.mk.inj hp).2 nofun

theorem progress_start (h : Ledger idle s) (hl : Legal idle s (.call call))
    (hs : step (.call call) s = some s') (hc : s.os.current = some t)
    (ht : (s'.os.thread t).stat = .suspend) : Progress t call s'.history 0 s' := by
  have h' := next_ledger h hl hs
  cases step_does h hl hs with
  | @returns c call k r hc' hp hok he hd =>
    obtain rfl := Option.some.inj (hc.symm.trans hc')
    have hstat : (k.thread t).stat = .running := (hd.calm r rfl t).1.trans (caller h hc hp).1
    exact absurd (hstat.symm.trans ht) (by decide)
  | @schedules c call k hc' hp hok he hd =>
    obtain rfl := Option.some.inj (hc.symm.trans hc')
    refine .waits [] rfl (by simp) ?_ (lvl_suspend.mpr ht) fun b hb => ⟨by omega, ?_⟩
    · simp [Pc.call]
    · simp [hb]
  | @scheduled c call k hc' hp hok he hd =>
    obtain rfl := Option.some.inj (hc.symm.trans hc')
    obtain rfl := scheduled_yield he
    have hf := (h'.seats t).fits
    rw [show (seat _ t).level = .suspend from lvl_suspend.mpr ht] at hf
    obtain ⟨call', hb, hcall'⟩ := hf
    simp only [seat, Function.update_self, Pc.call, Option.some.injEq] at hb
    subst hb
    rcases hcall' with ⟨_, _, hx⟩ | ⟨_, hx⟩ <;> exact absurd hx (by simp)

end Progress

/-- **`rt_thread_sleep` is exact.** A thread that calls it is suspended for as long as fewer ticks
have come than it asked for (one, if it asked for none), and no longer; the call returns
`RT_EOK`. -/
theorem sleep_exact : ∃ s₀ : Sys τ μ, app.boot = some s₀ ∧ ∀ acts s, Runs app.idle acts s₀ s →
    ∀ t n s₁, s.os.current = some t → Legal app.idle s (.call (.sleep n)) →
    step (.call (.sleep n)) s = some s₁ → ∀ acts' s₂, Runs app.idle acts' s₁ s₂ →
    if ticks acts' < max n.toNat 1 then
      (s₂.os.thread t).stat = .suspend ∧ Pc.call (s₂.pc t) = some (.sleep n)
    else
      (Pc.call (s₂.pc t) = some (.sleep n) ∧ lvl s₂.os t = .ready) ∨
      ∃ later between, s₂.history = later ++ .ret t (.sleep n) RT_EOK :: between ++ s₁.history ∧
        ∀ e ∈ between, e.thread ≠ t := by
  refine boot_runs app fun s h t n s₁ hc hl hs acts' s₂ hr => ?_
  have hsus : (s₁.os.thread t).stat = .suspend := by
    obtain ⟨c, hc', hp, hok⟩ := hl
    obtain rfl := Option.some.inj (hc.symm.trans hc')
    obtain ⟨k, hk, hst, -⟩ := sleep_parks h hc hp hok.1 hok.2
    have he : enter (.sleep n) s.os = some (k, .schedules) := by
      rw [enter, hk]
      rfl
    obtain rfl := Option.some.inj (hs.symm.trans (step_schedules hc he))
    exact hst
  have hp := progress_run (next_ledger h hl hs) (progress_start h hl hs hc hsus) hr
  rw [Nat.zero_add] at hp
  cases hp with
  | waits between hh hbt hb hlv hn =>
    rw [if_pos (hn n.toNat rfl).1]
    exact ⟨lvl_suspend.mp hlv, hb⟩
  | granted _ m ha => cases ha
  | expired h b hcb hn =>
    obtain rfl : n.toNat = b := Option.some.inj hcb
    rw [if_neg (not_lt.mpr hn)]
    cases h with
    | awake between hh hbt hb hlv => exact Or.inl ⟨hb, hlv⟩
    | back later between hh hbt => exact Or.inr ⟨later, between, hh, hbt⟩

theorem sleep_exact_quartet : ∃ s₀ s₁ s₂ : Sys (Fin 4) Unit, quartet.boot = some s₀ ∧
    step (.call (.sleep 2)) s₀ = some s₁ ∧ Runs 3 [.go, .tick] s₁ s₂ ∧
    (s₂.os.thread 0).stat = .suspend := by
  obtain ⟨s₀, hs₀, h⟩ := sleep_exact (μ := Unit) quartet
  obtain ⟨s, rfl, hc⟩ := boot_walk hs₀ (Legal 3) [] (fun s => decide (s.os.current = some 0))
    (by decide +kernel)
  obtain ⟨s₂, ⟨hl, s₁, hs₁, hr⟩, -⟩ := boot_walk hs₀ (Legal 3) [.call (.sleep 2), .go, .tick]
    (fun _ => true) (by decide +kernel)
  have hsleep := h [] s rfl 0 2 s₁ (of_decide_eq_true hc) hl hs₁ [.go, .tick] s₂ hr
  exact ⟨s, s₁, s₂, hs₀, hs₁, hr, hsleep.1⟩

/-- **`rt_mutex_take` waits as long as it is to.** A thread that it suspends stays in the list of the
mutex, for fewer ticks than it was to wait if there is such a limit, until it is either the owner of
the mutex, and stays so until the call returns, which is with `RT_EOK`; or as many ticks have come,
and the call returns `-RT_ETIMEOUT`. -/
theorem take_exact : ∃ s₀ : Sys τ μ, app.boot = some s₀ ∧ ∀ acts s, Runs app.idle acts s₀ s →
    ∀ t m time s₁, s.os.current = some t → Legal app.idle s (.call (.take m time)) →
    step (.call (.take m time)) s = some s₁ → (s₁.os.thread t).stat = .suspend →
    ∀ acts' s₂, Runs app.idle acts' s₁ s₂ →
    ((s₂.os.thread t).stat = .suspend ∧ t ∈ s₂.os.waiting m ∧
      Pc.call (s₂.pc t) = some (.take m time) ∧ (0 < time → ticks acts' < time.toNat)) ∨
    (∀ acts'' s₃, Runs app.idle acts'' s₂ s₃ →
      (Pc.call (s₃.pc t) = some (.take m time) ∧ lvl s₃.os t = .ready ∧
        (s₃.os.mutex m).owner = some t) ∨
      ∃ later between, s₃.history =
          later ++ .ret t (.take m time) RT_EOK :: between ++ s₁.history ∧
        ∀ e ∈ between, e.thread ≠ t) ∨
    0 < time ∧ time.toNat ≤ ticks acts' ∧ ∀ acts'' s₃, Runs app.idle acts'' s₂ s₃ →
      (Pc.call (s₃.pc t) = some (.take m time) ∧ lvl s₃.os t = .ready ∧
        (s₃.os.mutex m).owner ≠ some t) ∨
      ∃ later between, s₃.history =
          later ++ .ret t (.take m time) (-RT_ETIMEOUT) :: between ++ s₁.history ∧
        ∀ e ∈ between, e.thread ≠ t := by
  refine boot_runs app fun s h t m time s₁ hc hl hs hsus acts' s₂ hr => ?_
  have h₁ := next_ledger h hl hs
  have hp := progress_run h₁ (progress_start h hl hs hc hsus) hr
  rw [Nat.zero_add] at hp
  have h₂ := runs_ledger h₁ hr
  cases hp with
  | waits between hh hbt hb hlv hn =>
    refine Or.inl ⟨lvl_suspend.mp hlv, ?_, hb, fun ht => ?_⟩
    · refine ((h₂.seats t).waits m).mpr ⟨hlv, ?_⟩
      simp [seat, hb, aim]
    · have := (hn _ (if_pos ht)).1
      omega
  | granted hret m' ha =>
    refine Or.inr (Or.inl fun acts'' s₃ hr' => ?_)
    cases returning_run h₂ (Or.inl rfl) hret hr' with
    | awake between hh hbt hb hlv he ho => exact Or.inl ⟨hb, hlv, ho m rfl rfl⟩
    | back later between hh hbt => exact Or.inr ⟨later, between, hh, hbt⟩
  | expired hret b hcb hn =>
    obtain ⟨ht, rfl⟩ : 0 < time ∧ b = time.toNat := by
      by_cases ht : 0 < time
      · exact ⟨ht, by simpa [Call.ticks, ht, eq_comm] using hcb⟩
      · simp [Call.ticks, ht] at hcb
    refine Or.inr (Or.inr ⟨ht, by omega, fun acts'' s₃ hr' => ?_⟩)
    cases returning_run h₂ (Or.inl rfl) hret hr' with
    | awake between hh hbt hb hlv he ho =>
      exact Or.inl ⟨hb, hlv, expired_owner (runs_ledger h₂ hr') hb hlv he⟩
    | back later between hh hbt => exact Or.inr ⟨later, between, hh, hbt⟩

theorem take_exact_quartet : ∃ s₀ s s₁ s₂ : Sys (Fin 4) Unit, quartet.boot = some s₀ ∧
    Runs 3 [.call (.take () (-1)), .call (.startup 1), .go] s₀ s ∧
    step (.call (.take () 2)) s = some s₁ ∧ Runs 3 [.go, .tick, .tick] s₁ s₂ ∧
    ∀ acts s₃, Runs 3 acts s₂ s₃ →
      (Pc.call (s₃.pc 1) = some (.take () 2) ∧ lvl s₃.os 1 = .ready ∧
        (s₃.os.mutex ()).owner ≠ some 1) ∨
      ∃ later between, s₃.history =
          later ++ .ret 1 (.take () 2) (-RT_ETIMEOUT) :: between ++ s₁.history ∧
        ∀ e ∈ between, e.thread ≠ 1 := by
  obtain ⟨s₀, hs₀, h⟩ := take_exact (μ := Unit) quartet
  obtain ⟨s, hs, hv⟩ := boot_walk hs₀ (Legal 3) [.call (.take () (-1)), .call (.startup 1), .go]
    (fun s => decide (s.os.current = some 1) && (walk (Legal 3) step [.call (.take () 2)] s).any
      fun s : Sys (Fin 4) Unit => decide ((s.os.thread 1).stat = Stat.suspend) &&
        (walk (Legal 3) step [.go, .tick, .tick] s).any fun s : Sys (Fin 4) Unit =>
          decide ((s.os.thread 1).stat ≠ Stat.suspend ∧ (s.os.mutex ()).owner ≠ some 1 ∧
            Event.ret 1 (.take () 2) RT_EOK ∉ s.history)) (by decide +kernel)
  obtain ⟨hc, hv⟩ := (Bool.and_eq_true ..).mp hv
  obtain ⟨s₁, ⟨hl, _, hs₁, rfl⟩, hv⟩ := walk_any hv
  obtain ⟨hblocks, hv⟩ := (Bool.and_eq_true ..).mp hv
  obtain ⟨s₂, hr, hv⟩ := walk_any hv
  obtain ⟨hawake, hown, hret⟩ := of_decide_eq_true hv
  -- two ticks have come, and the thread does not own the mutex
  obtain ⟨hsus, -⟩ | hgranted | ⟨-, -, hlate⟩ := h _ s hs 1 () 2 s₁ (of_decide_eq_true hc) hl hs₁
    (of_decide_eq_true hblocks) _ s₂ hr
  · exact absurd hsus hawake
  · obtain ⟨-, -, ho⟩ | ⟨later, between, hh, -⟩ := hgranted [] s₂ rfl
    · exact absurd ho hown
    · exact absurd (by rw [hh]; simp) hret
  · exact ⟨s₀, s, s₁, s₂, hs₀, hs, hs₁, hr, hlate⟩

/-! ### Handing over -/

/-- **A mutex goes to the first of those who wait.** When its owner has released it as often as it
has taken it, the first thread of the list owns it, is ready to run and is in no list; and it is
still the owner when its call returns, which is with `RT_EOK`. -/
theorem release_hands_over : ∃ s₀ : Sys τ μ, app.boot = some s₀ ∧
    ∀ acts s, Runs app.idle acts s₀ s → ∀ c m next rest s₁, s.os.current = some c →
    Legal app.idle s (.call (.release m)) → depth c m s.history = 1 →
    s.os.waiting m = next :: rest → step (.call (.release m)) s = some s₁ →
    depth c m s₁.history = 0 ∧ (s₁.os.mutex m).owner = some next ∧
      (∀ m', next ∉ s₁.os.waiting m') ∧ next ∉ s₁.os.timers.list ∧
      ∃ time, ∀ acts' s₂, Runs app.idle acts' s₁ s₂ →
        (Pc.call (s₂.pc next) = some (.take m time) ∧ lvl s₂.os next = .ready ∧
          (s₂.os.mutex m).owner = some next) ∨
        ∃ later between, s₂.history =
            later ++ .ret next (.take m time) RT_EOK :: between ++ s₁.history ∧
          ∀ e ∈ between, e.thread ≠ next := by
  refine boot_runs app fun s h c m next rest s₁ hc hl hdep hw hs => ?_
  have hd := step_does h hl hs
  have h₁ := next_ledger h hl hs
  have hmem : next ∈ s.os.waiting m := hw ▸ List.mem_cons_self
  obtain ⟨hsus, time, hb⟩ := (h.seats next).taking_of_waits hmem
  have hb' := (waiting_step h hd hsus).1.trans hb
  -- the step itself
  obtain ⟨c', hc', hp, -⟩ := hl
  obtain rfl := Option.some.inj (hc.symm.trans hc')
  obtain ⟨ho, hone⟩ := depth_owns h (m := m) (t := c) (by rw [hdep]; decide)
  rw [hdep] at hone
  obtain ⟨k, hk, hown, hlv, -⟩ := release_passes h hc hp ho
    (BitVec.eq_of_toNat_eq (hone.trans rfl)) hw
  have he : enter (.release m) s.os = some (k, .schedules) := by
    rw [enter, hk]
    rfl
  obtain rfl := Option.some.inj (hs.symm.trans (step_schedules hc he))
  have hne : lvl k next ≠ .suspend := by
    rw [hlv]
    decide
  refine ⟨?_, hown, fun m' hm => hne (h₁.sound.waiting m' next hm),
    fun hm => hne (h₁.sound.asleep next hm), time, fun acts' s₂ hr => ?_⟩
  · simp [depth, hdep]
  have herr : (k.thread next).error = RT_EOK := by
    rcases ((h₁.seats next).taking m time hb').2 hlv with ⟨he, -⟩ | ⟨-, ho', -⟩
    · exact he
    · exact absurd ho' ((owns_pos (t := next) (h₁.mutexes m)).mpr hown)
  have hawake : Returning next (.take m time) _ RT_EOK _ :=
    .awake [] rfl (by simp) hb' hlv herr fun m' ha _ => by
      obtain rfl : m = m' := Option.some.inj ha
      exact hown
  cases returning_run h₁ (Or.inl rfl) hawake hr with
  | awake between hh hbt hb hlv he ho => exact Or.inl ⟨hb, hlv, ho m rfl rfl⟩
  | back later between hh hbt => exact Or.inr ⟨later, between, hh, hbt⟩

theorem release_hands_over_quartet : ∃ s₀ s s₁ : Sys (Fin 4) Unit, quartet.boot = some s₀ ∧
    Runs 3 [.call (.take () (-1)), .call (.startup 1), .go, .call (.take () (-1)), .go, .go] s₀ s ∧
    step (.call (.release ())) s = some s₁ ∧ depth 0 () s₁.history = 0 ∧
    (s₁.os.mutex ()).owner = some 1 := by
  obtain ⟨s₀, hs₀, h⟩ := release_hands_over (μ := Unit) quartet
  obtain ⟨s, hs, hv⟩ := boot_walk hs₀ (Legal 3)
    [.call (.take () (-1)), .call (.startup 1), .go, .call (.take () (-1)), .go, .go]
    (fun s => decide (s.os.current = some 0 ∧ depth 0 () s.history = 1 ∧ s.os.waiting () = [1]) &&
      (walk (Legal 3) step [.call (.release ())] s).any fun _ => true) (by decide +kernel)
  obtain ⟨hv, hstep⟩ := (Bool.and_eq_true ..).mp hv
  obtain ⟨hc, hdep, hw⟩ := of_decide_eq_true hv
  obtain ⟨s₁, ⟨hl, _, hs₁, rfl⟩, -⟩ := walk_any hstep
  obtain ⟨hd, ho, -⟩ := h _ s hs 0 () 1 [] s₁ hc hl hdep hw hs₁
  exact ⟨s₀, s, s₁, hs₀, hs, hs₁, hd, ho⟩

/-! ### Priorities -/

/-- **The highest priority runs.** In a run in which nobody gives up a mutex with a higher priority
than it took it with, unless it hands it on, no ready thread has a higher priority than the current
one, which runs, whenever that one is not about to call `rt_schedule`. -/
theorem highest_runs : ∃ s₀ : Sys τ μ, app.boot = some s₀ ∧
    ∀ acts s, Path (fun s a => Legal app.idle s a ∧ Steady s a) step acts s₀ s →
    ∀ c, s.os.current = some c → (∀ call, s.pc c ≠ .sched call) →
    (s.os.thread c).stat = .running ∧
      ∀ u, (s.os.thread u).stat = .ready → s.os.prio c ≤ s.os.prio u := by
  obtain ⟨s₀, hs₀, h₀, ht₀, -⟩ := app_boots (μ := μ) app
  refine ⟨s₀, hs₀, fun acts s hr c hc hp => ?_⟩
  obtain ⟨h, ht⟩ := path_inv (I := fun s => Ledger app.idle s ∧ Settled s)
    (fun s a s' hs ha he => ⟨next_ledger hs.1 ha.1 he,
      settled_step (step_does hs.1 ha.1 he) hs.2 ha.2⟩) hr ⟨h₀, Or.inl ht₀⟩
  have hrun : (s.os.thread c).stat = .running := by
    have hlv := (h.current c hc).resolve_right fun ⟨call, hcall⟩ => hp call hcall
    obtain ⟨c', hc', hne⟩ := h.sound.current
    obtain rfl := Option.some.inj (hc.symm.trans hc')
    exact (level_eq_ready.mp hlv).resolve_left hne
  exact ⟨hrun, settled_user ht hc hp c hc hrun⟩

-- Thread 0 takes a second mutex while it has a priority that 1 has lent it, and releases it later.
theorem highest_runs_quartet : ∃ s₀ s : Sys (Fin 4) Bool, quartet.boot = some s₀ ∧
    Path (fun s a => Legal 3 s a ∧ Steady s a) step
      [.call (.take false (-1)), .call (.startup 1), .go, .call (.take false (-1)), .go, .go,
        .call (.take true (-1)), .call (.release false), .go, .go, .call (.sleep 9), .go, .go,
        .call (.release true)] s₀ s ∧
    (s.os.thread 0).stat = .running ∧
      ∀ u, (s.os.thread u).stat = .ready → s.os.prio 0 ≤ s.os.prio u := by
  obtain ⟨s₀, hs₀, h⟩ := highest_runs (μ := Bool) quartet
  obtain ⟨s, hs, hv⟩ := boot_walk hs₀ (fun s a => Legal 3 s a ∧ Steady s a)
    [.call (.take false (-1)), .call (.startup 1), .go, .call (.take false (-1)), .go, .go,
      .call (.take true (-1)), .call (.release false), .go, .go, .call (.sleep 9), .go, .go,
      .call (.release true)]
    (fun s => decide (s.os.current = some 0 ∧ s.pc 0 = .user)) (by decide +kernel)
  obtain ⟨hc, hp⟩ := of_decide_eq_true hv
  exact ⟨s₀, s, hs₀, hs, h _ s hs 0 hc (by rw [hp]; exact nofun)⟩

-- Thread 1 lends its priority to 0 and gives up waiting; then 0 releases the mutex and goes back to
-- its own priority, but `rt_mutex_release` does not call `rt_schedule`, so 1 has to wait.
example : (quartet.boot.bind (run step [.call (.take () (-1)), .call (.startup 1), .go,
    .call (.take () 2), .go, .go, .tick, .tick, .call (.release ())])).map
      (fun s => (s.os.current, s.os.prio 0, s.os.prio 1, (s.os.thread 1).stat)) =
    some (some 0, 10, 5, .ready) := by decide +kernel

end RtosExample.Kernel.Service
