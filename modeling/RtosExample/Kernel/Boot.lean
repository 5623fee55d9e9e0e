import RtosExample.Kernel.Bookkeeping

/-! # The system starts

`boot_ledger`: if the idle thread is among the threads started before the scheduler, the scheduler
finds a thread to start with, and the system is in order (`Ledger`). -/

namespace RtosExample.Kernel.Boot

open RtosExample.Cint RtosExample.Kernel.TimerList RtosExample.Kernel.Deadlines
open RtosExample.Kernel.Sched RtosExample.Kernel.Mutex RtosExample.Kernel.ReadyQueue
open RtosExample.Kernel.Dispatch RtosExample.Kernel.Effects RtosExample.Kernel.Invariant
open RtosExample.Kernel.Tick RtosExample.Kernel.Calls RtosExample.Kernel.System
open RtosExample.Kernel.Books RtosExample.Kernel.Bookkeeping

variable {τ μ : Type} {priority : τ → U8} {tick : τ → U32} {now : U32}

/-- The thread as `rt_thread_init` leaves it. -/
def initial (priority : τ → U8) (tick : τ → U32) (t : τ) : Thread :=
  ((bootOs priority tick 0 : Os τ PUnit)).thread t

variable [DecidableEq τ]

/-- `rt_thread_init` changes nothing about a thread that is as the boot state has it. -/
theorem init_bootOs (t : τ) (hp : (priority t).toNat < 32) :
    rtThreadInit t (priority t) (tick t) (bootOs priority tick now : Os τ μ) =
      some (bootOs priority tick now) := by
  rw [rtThreadInit, if_pos hp]
  simp [Os.modify, Timers.modify, Os.setTimers, bootOs]

/-- **Before the scheduler starts**: the threads `l` have been started. -/
structure Booting (priority : τ → U8) (tick : τ → U32) (now : U32) (l : List τ) (k : Os τ μ) :
    Prop where
  queues : Queues none k
  thread : ∀ t, k.thread t =
    if t ∈ l then started (initial priority tick t) else initial priority tick t
  rest : ∃ table group, k = { (bootOs priority tick now : Os τ μ) with
    thread := k.thread, table, group }

variable {k : Os τ μ} {l : List τ} {t idle : τ}

omit [DecidableEq τ] in
theorem bootOs_queues (hp : ∀ t, (priority t).toNat < 32) :
    Queues none (bootOs priority tick now : Os τ μ) where
  mem t p := by simp [bootOs]
  nodup p := List.nodup_nil
  bit p := by simp [bootOs]
  prio := hp
  mask t ht := absurd rfl ht

theorem startup_booting (h : Booting priority tick now l k) (ht : t ∉ l) :
    ∃ k', rtThreadStartup t k = some k' ∧ Booting priority tick now (l ++ [t]) k' := by
  obtain ⟨table, group, hk⟩ := h.rest
  have hth : k.thread t = initial priority tick t := by rw [h.thread, if_neg ht]
  obtain ⟨table', group', he, hq⟩ := startup_eq (t := t) h.queues
    (by rw [hth]; rfl) (by rw [hth]; rfl) (by rw [hk]; rfl)
    ⟨fun m => by rw [hk]; exact List.not_mem_nil, by rw [hk]; exact List.not_mem_nil⟩
    (by rw [hk]; exact nofun)
  refine ⟨_, he, hq, fun u => ?_, ⟨table', group', ?_⟩⟩
  · by_cases hu : u = t
    · subst hu
      simp [hth]
    · simp only [Function.update_of_ne hu, h.thread, List.mem_append, List.mem_singleton, hu,
        or_false]
  · rw [hk]

theorem startups_booting : ∀ (startups : List τ) {l : List τ} {k : Os τ μ},
    Booting priority tick now l k → (l ++ startups).Nodup →
    ∃ k', startups.foldlM (fun k t => rtThreadStartup t k) k = some k' ∧
      Booting priority tick now (l ++ startups) k'
  | [], l, k, h, _ => ⟨k, rfl, by simpa using h⟩
  | t :: startups, l, k, h, hn => by
    have ht : t ∉ l := fun hm => by
      have := List.disjoint_of_nodup_append hn hm
      exact this List.mem_cons_self
    obtain ⟨k₁, hk₁, h₁⟩ := startup_booting h ht
    obtain ⟨k', hk', h'⟩ := startups_booting startups h₁ (by simpa using hn)
    refine ⟨k', ?_, by simpa using h'⟩
    rw [List.foldlM_cons, hk₁]
    exact hk'

/-- The scheduler starts with a thread of the highest priority. -/
theorem start_spec (h : Booting priority tick now l k) (hidle : idle ∈ l) :
    ∃ k' c, rtSystemSchedulerStart k = some k' ∧ k'.current = some c ∧
      (k'.thread c).stat = .running ∧ Queues none k' ∧ Top k' ∧
      k'.timers = k.timers ∧ k'.lockNest = k.lockNest ∧ k'.mutex = k.mutex ∧
      k'.waiting = k.waiting ∧ k'.defunct = k.defunct ∧ (∀ t, lvl k' t = lvl k t) ∧
      (∀ t, (k'.thread t).stat = .running → t = c) ∧ (∀ t, k'.prio t = k.prio t) ∧
      ∀ t, (k'.thread t).type = (k.thread t).type := by
  have hready : (k.thread idle).stat = .ready := by rw [h.thread, if_pos hidle]; rfl
  have hg : k.group ≠ 0 := fun hz => group_eq_zero h.queues hz idle hready
  obtain ⟨u, hhigh, hu, -, htop⟩ := highest_spec h.queues hg
  obtain ⟨table, group, hk⟩ := h.rest
  have hfree : Free k u := ⟨fun m => by rw [hk]; exact List.not_mem_nil,
    by rw [hk]; exact List.not_mem_nil⟩
  have hyield : (k.thread u).yield = false := by
    rw [h.thread]
    split_ifs <;> rfl
  let k₁ : Os τ μ := { k with current := some u }
  have htake := take_over (k := k₁) (Queues.congr h.queues rfl rfl rfl) hfree hu
  have hsame : (rtScheduleRemoveThread u k₁).modify u
      (fun th => { th with stat := .running, yield := false }) =
      (rtScheduleRemoveThread u k₁).modify u fun th => { th with stat := .running } := by
    have hth : ((rtScheduleRemoveThread u k₁).thread u).yield = false := by
      rw [remove_thread]
      exact hyield
    simp only [Os.modify]
    rw [← hth]
  generalize (rtScheduleRemoveThread u k₁).modify u (fun th => { th with stat := .running }) = k₂
    at htake hsame
  obtain ⟨hf, hq, hc, hs, ho, -⟩ := htake
  have hlvl : ∀ t, lvl k₂ t = lvl k t := fun t => by
    by_cases ht : t = u
    · subst ht
      rw [lvl, hs, lvl, hu]
      rfl
    · exact lvl_eq (congrArg Thread.stat (ho t ht))
  refine ⟨k₂, u, ?_, hc, hs, hq, fun c hc' _ v hv => ?_, hf.timers, hf.lockNest, hf.mutex,
    hf.waiting, hf.defunct, hlvl, fun t ht => ?_, fun t => hf.prio t, fun t => by rw [hf.thread t]⟩
  · refine Option.bind_eq_some_iff.mpr ⟨(u, k.prio u), hhigh, ?_⟩
    exact congrArg some hsame
  · obtain rfl := Option.some.inj (hc.symm.trans hc')
    rw [hf.prio, hf.prio]
    have hvu : v ≠ u := by
      rintro rfl
      rw [hs] at hv
      exact absurd hv (by decide)
    rw [ho v hvu] at hv
    exact htop v hv
  · by_contra htu
    rw [ho t htu] at ht
    have : (k.thread t).stat ≠ .running := by
      rw [h.thread]
      split_ifs <;> rintro ⟨⟩
    exact this ht

/-- **The system starts in order**, with a thread of the highest priority. -/
theorem boot_ledger [DecidableEq μ] (hp : ∀ t, (priority t).toNat < 32) {startups : List τ}
    (hn : startups.Nodup) (hidle : idle ∈ startups) :
    ∃ s : Sys τ μ, boot priority tick now startups = some s ∧ Ledger idle s ∧ Top s.os ∧
      (∀ t, s.pc t = .user) ∧ s.history = [] ∧ (∀ t, s.os.prio t = (priority t).toNat) ∧
      ∀ m, (s.os.mutex m).owner = none := by
  have hboot : Booting priority tick now [] (bootOs priority tick now : Os τ μ) :=
    ⟨bootOs_queues hp, fun t => by simp [initial, bootOs], ⟨_, _, rfl⟩⟩
  obtain ⟨k, hk, h⟩ := startups_booting startups hboot (by simpa using hn)
  rw [List.nil_append] at h
  obtain ⟨k', c, hk', hc, hr, hq, htop, htm, hlock, hmx, hw, hdef, hlvl, hone, hprio, htype⟩ :=
    start_spec h hidle
  obtain ⟨table, group, hrest⟩ := h.rest
  have htm' : k'.timers = (bootOs priority tick now : Os τ μ).timers := by rw [htm, hrest]
  have hw' : ∀ m, k'.waiting m = [] := fun m => by rw [hw, hrest]; rfl
  have hmx' : ∀ m, k'.mutex m = mutexInit := fun m => by rw [hmx, hrest]; rfl
  have hlist : k'.timers.list = [] := by rw [htm']; rfl
  have hlvl' : ∀ t, lvl k' t = if t ∈ startups then .ready else .init := fun t => by
    rw [hlvl, lvl, h.thread]
    split_ifs <;> rfl
  have hsound : Sound idle now.toNat now.toNat (fun _ => 0) k' := by
    refine ⟨hq, by rw [hlock, hrest]; rfl, fun t ht => ?_, ⟨c, hc, by rw [hr]; decide⟩, ?_,
      fun m t ht => ?_, fun m => ?_, fun t ht => ?_, ?_, fun t => ?_, fun t => ?_, fun t ht => ?_,
      fun t _ => ?_⟩
    · rw [hone t ht]
      exact hc
    · rw [hlvl', if_pos hidle]
    · rw [hw'] at ht
      exact absurd ht List.not_mem_nil
    · rw [hw']
      exact List.nodup_nil
    · rw [hdef, hrest] at ht
      exact absurd ht List.not_mem_nil
    · refine good_of_nil hlist ?_ fun t => ?_
      · rw [htm']
        simp [bootOs]
      · rw [htm']
        change (0 : U32) < TICK_HALF
        decide
    · rw [hlist, htm']
      simp [bootOs, timerInit]
    · rw [htm']
      rfl
    · rw [hlist] at ht
      exact absurd ht List.not_mem_nil
    · rw [htype, h.thread]
      split_ifs <;> rfl
  let s : Sys τ μ := { os := k', pc := fun _ => .user, history := [], clock := now.toNat,
                       deadline := fun _ => 0 }
  refine ⟨s, ?_, ⟨hsound, (congrArg Timers.expiring htm').trans rfl, fun c' hc' => ?_,
    fun t => ?_, fun m => ?_⟩, htop, fun _ => rfl, rfl, fun t => ?_, fun m => ?_⟩
  · exact Option.bind_eq_some_iff.mpr ⟨k, hk, Option.bind_eq_some_iff.mpr ⟨k', hk', rfl⟩⟩
  · obtain rfl := Option.some.inj (hc.symm.trans hc')
    exact Or.inl (level_eq_ready.mpr (Or.inr hr))
  · have hown : ∀ m, owns (k'.mutex m) t = 0 := fun m => by simp [hmx', owns, mutexInit]
    by_cases ht : t ∈ startups
    · refine seat_plain trivial (by rw [seat, hlvl', if_pos ht]) (fun m hm => ?_) (fun hm => ?_)
        fun m => (hown m).symm
      · simp [seat, s, hw'] at hm
      · simp [seat, s, hlist] at hm
    · refine seat_unborn rfl (by rw [seat, hlvl', if_neg ht]) (fun m hm => ?_) (fun hm => ?_) hown
        fun _ => rfl
      · simp [seat, s, hw'] at hm
      · simp [seat, s, hlist] at hm
  · change MutexOk (k'.mutex m) (k'.waiting m)
    rw [hmx', hw']
    exact mutexOk_init
  · rw [hprio, Os.prio, h.thread]
    split_ifs <;> rfl
  · change (k'.mutex m).owner = none
    rw [hmx']
    rfl

end RtosExample.Kernel.Boot
