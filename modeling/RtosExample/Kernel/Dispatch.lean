import RtosExample.Kernel.ReadyQueue

/-! # What `rt_schedule` does

`Switch` says all of it, for callers that never look at the branches of `rt_schedule` again: which
thread runs afterwards, what becomes of the one that ran before, that the ready queue is in order,
that no ready thread has a higher priority than the one that runs, and that nothing else has
changed. `schedule_spec` is the theorem. -/

namespace RtosExample.Kernel.Dispatch

open RtosExample.Cint RtosExample.Kernel.Sched RtosExample.Kernel.ReadyQueue

variable {τ μ : Type}

/-- The thread is neither waiting for a mutex nor dead. -/
def Free (k : Os τ μ) (t : τ) : Prop := (∀ m, t ∉ k.waiting m) ∧ t ∉ k.defunct

/-- What the scheduler leaves as it is. -/
structure Frame (k k' : Os τ μ) : Prop where
  timers : k'.timers = k.timers
  lockNest : k'.lockNest = k.lockNest
  mutex : k'.mutex = k.mutex
  waiting : k'.waiting = k.waiting
  defunct : k'.defunct = k.defunct
  thread : ∀ u, k'.thread u =
    { k.thread u with stat := (k'.thread u).stat, yield := (k'.thread u).yield }

theorem Frame.prio {k k' : Os τ μ} (h : Frame k k') (u : τ) : k'.prio u = k.prio u := by
  rw [Os.prio, h.thread u]
  rfl

theorem Frame.refl (k : Os τ μ) : Frame k k := ⟨rfl, rfl, rfl, rfl, rfl, fun _ => rfl⟩

/-- Another thread than `c` runs if one is ready that has a higher priority, or the same one and
`c` yields; or if `c` does not run. -/
def Preempts (k : Os τ μ) (c u : τ) : Prop :=
  (k.thread u).stat = .ready ∧ ((k.thread c).stat = .running → k.prio u < k.prio c ∨
    k.prio u = k.prio c ∧ (k.thread c).yield = true)

variable [DecidableEq τ]

/-- **From `c` to `c'`.** -/
structure Switch (k k' : Os τ μ) (c c' : τ) : Prop extends Frame k k' where
  queues : Queues none k'
  current : k'.current = some c'
  running : (k'.thread c').stat = .running
  other : ∀ u, u ≠ c → u ≠ c' → k'.thread u = k.thread u
  left : c' ≠ c → (k'.thread c).stat =
    if (k.thread c).stat = .running then .ready else (k.thread c).stat
  chosen : c' ≠ c → (k.thread c').stat = .ready ∧ (k.table (k.prio c')).head? = some c'
  stays : c' = c → (k.thread c).stat = .running
  table : ∀ p, k'.table p = (if c' ≠ c ∧ (k.thread c).stat = Stat.running ∧ p = k.prio c then
    k.table p ++ [c] else k.table p).erase c'
  preempts : (∃ u, Preempts k c u) ↔ c' ≠ c
  top : ∀ u, (k'.thread u).stat = .ready → k'.prio c' ≤ k'.prio u

variable {k : Os τ μ} {c u : τ}

theorem unlink_free (h : Free k u) : (unlink u k).waiting = k.waiting ∧
    (unlink u k).defunct = k.defunct :=
  ⟨funext fun m => List.erase_of_not_mem (h.1 m), List.erase_of_not_mem h.2⟩

theorem remove_frame (h : Free k u) : Frame k (rtScheduleRemoveThread u k) where
  timers := remove_timers ..
  lockNest := remove_lockNest ..
  mutex := remove_mutex ..
  waiting := funext fun m => (remove_waiting k u m).trans (List.erase_of_not_mem (h.1 m))
  defunct := (remove_defunct k u).trans (List.erase_of_not_mem h.2)
  thread v := by rw [remove_thread]

theorem stays_spec (h : Queues none k) (hc : k.current = some c)
    (hr : (k.thread c).stat = .running) (hf : Free k c) (y : Bool)
    (hno : ∀ u, ¬ Preempts k c u) :
    Switch k ((rtScheduleRemoveThread c (k.modify c fun th => { th with yield := y })).modify c
      fun th => { th with stat := .running }) c c := by
  let k₁ := k.modify c fun th => { th with yield := y }
  have hq₁ : Queues none k₁ := modify_queues_same h rfl rfl rfl
  have hs₁ : (k₁.thread c).stat = .running := by simp [k₁, hr]
  have hq₂ := remove_queues (t := c) hq₁ (by rw [hs₁]; decide)
  have hthread : ∀ u, u ≠ c → ((rtScheduleRemoveThread c k₁).modify c
      fun th => { th with stat := .running }).thread u = k.thread u := by
    intro u hu
    rw [modify_of_ne _ _ hu, remove_thread, modify_of_ne _ _ hu]
  have hself : ((rtScheduleRemoveThread c k₁).modify c
      fun th => { th with stat := .running }).thread c =
      { k.thread c with stat := .running, yield := y } := by
    rw [modify_self, remove_thread, modify_self]
  have hfr : Frame k₁ (rtScheduleRemoveThread c k₁) := remove_frame hf
  have hprio : ∀ u, ((rtScheduleRemoveThread c k₁).modify c
      fun th => { th with stat := .running }).prio u = k.prio u := by
    intro u
    by_cases hu : u = c
    · subst hu
      rw [Os.prio, hself]
      rfl
    · rw [Os.prio, hthread u hu]
      rfl
  have hpm := h.mask c (by rw [hr]; decide)
  refine ⟨⟨hfr.timers, hfr.lockNest, hfr.mutex, hfr.waiting, hfr.defunct, fun u => ?_⟩, ?_, ?_, ?_,
    fun u hu _ => hthread u hu, fun hne => absurd rfl hne, fun hne => absurd rfl hne,
    fun _ => hr, fun p => ?_, ?_, fun u hu => ?_⟩
  · by_cases hu : u = c
    · subst hu
      rw [hself]
    · rw [hthread u hu]
  · refine (queues_out (t := c) ?_).mpr (modify_queues hq₂ ?_ ?_)
    · rw [hself]
      exact by simp
    · rw [remove_thread, modify_self]
      exact h.prio c
    · rw [remove_thread, modify_self]
      exact fun _ => hpm
  · rw [modify_current, remove_current]
    exact hc
  · rw [hself]
  · rw [if_neg (by simp)]
    exact remove_table k₁ c p
  · refine ⟨?_, fun hne => absurd rfl hne⟩
    rintro ⟨u, hu⟩
    exact absurd hu (hno u)
  · by_cases huc : u = c
    · subst huc
      exact le_rfl
    · rw [hprio, hprio]
      rw [hthread u huc] at hu
      by_contra hlt
      exact hno u ⟨hu, fun _ => Or.inl (not_le.mp hlt)⟩

/-- The current thread is put back into the ready queue, as `u` becomes the current one. -/
theorem put_back (h : Queues none k) (hr : (k.thread c).stat = .running) (hne : u ≠ c) :
    let k' := rtScheduleInsertThread c
      { k.modify c (fun th => { th with yield := false }) with current := some u }
    Frame k k' ∧ Queues none k' ∧ k'.current = some u ∧ (k'.thread c).stat = .ready ∧
      (∀ v, v ≠ c → k'.thread v = k.thread v) ∧
      ∀ p, k'.table p = if p = k.prio c then k.table p ++ [c] else k.table p := by
  intro k'
  let k₁ : Os τ μ := { k.modify c (fun th => { th with yield := false }) with current := some u }
  have hs : (k₁.thread c).stat = .running := by
    change ((k.modify c fun th => { th with yield := false }).thread c).stat = _
    rw [modify_self]
    exact hr
  have hq : Queues none k₁ := by
    have := modify_queues_same (t := c) (f := fun th => { th with yield := false }) h rfl rfl rfl
    exact ⟨this.mem, this.nodup, this.bit, this.prio, this.mask⟩
  have hcur : ¬ k₁.current = some c := fun hc => hne (Option.some.inj hc)
  have hself : k'.thread c = { k.thread c with stat := .ready, yield := false } := by
    change (rtScheduleInsertThread c k₁).thread c = _
    rw [insert_thread, modify_self, if_neg hcur]
    change ({ (k.modify c fun th => { th with yield := false }).thread c with stat := .ready } :
      Thread) = _
    rw [modify_self]
  have hother : ∀ v, v ≠ c → k'.thread v = k.thread v := by
    intro v hv
    change (rtScheduleInsertThread c k₁).thread v = _
    rw [insert_thread, modify_of_ne _ _ hv]
    exact modify_of_ne k (fun th => { th with yield := false }) hv
  refine ⟨⟨insert_timers .., insert_lockNest .., insert_mutex .., insert_waiting ..,
    insert_defunct .., fun v => ?_⟩, ?_, insert_current .., congrArg Thread.stat hself, hother,
    fun p => ?_⟩
  · by_cases hv : v = c
    · subst hv
      rw [hself]
    · rw [hother v hv]
  · exact insert_queues ((queues_out (by rw [hs]; decide)).mp hq) (by rw [hs]; decide)
  · have hp : k₁.prio c = k.prio c := by
      change ((k.modify c fun th => { th with yield := false }).thread c).currentPriority.toNat = _
      rw [modify_self]
      rfl
    change (rtScheduleInsertThread c k₁).table p = _
    rw [insert_table, hp]
    simp only [ne_eq, hcur, not_false_eq_true, true_and]
    rfl

theorem take_over (h : Queues none k) (hf : Free k u) (hu : (k.thread u).stat = .ready) :
    let k' := (rtScheduleRemoveThread u k).modify u fun th => { th with stat := .running }
    Frame k k' ∧ Queues none k' ∧ k'.current = k.current ∧ (k'.thread u).stat = .running ∧
      (∀ v, v ≠ u → k'.thread v = k.thread v) ∧ ∀ p, k'.table p = (k.table p).erase u := by
  intro k'
  have hi : (k.thread u).stat ≠ .init := by rw [hu]; decide
  have hfr := remove_frame (u := u) hf
  have hself : k'.thread u = { k.thread u with stat := .running } := by
    change ((rtScheduleRemoveThread u k).modify u _).thread u = _
    rw [modify_self, remove_thread]
  have hother : ∀ v, v ≠ u → k'.thread v = k.thread v := by
    intro v hv
    change ((rtScheduleRemoveThread u k).modify u _).thread v = _
    rw [modify_of_ne _ _ hv, remove_thread]
  refine ⟨⟨hfr.timers, hfr.lockNest, hfr.mutex, hfr.waiting, hfr.defunct, fun v => ?_⟩, ?_,
    remove_current .., congrArg Thread.stat hself, hother, remove_table k u⟩
  · by_cases hv : v = u
    · subst hv
      rw [hself]
    · rw [hother v hv]
  · refine (queues_out (t := u) (by rw [hself]; exact nofun)).mpr
      (modify_queues (remove_queues h hi) ?_ ?_)
    · rw [remove_thread]
      exact h.prio u
    · rw [remove_thread]
      exact fun _ => h.mask u hi

omit [DecidableEq τ] in
theorem Frame.trans {k₁ k₂ k₃ : Os τ μ} (h : Frame k₁ k₂) (h' : Frame k₂ k₃) : Frame k₁ k₃ where
  timers := h'.timers.trans h.timers
  lockNest := h'.lockNest.trans h.lockNest
  mutex := h'.mutex.trans h.mutex
  waiting := h'.waiting.trans h.waiting
  defunct := h'.defunct.trans h.defunct
  thread u := by rw [h'.thread u, h.thread u]

section Cases

variable (hl : k.lockNest = 0) (hg : k.group ≠ 0)
  (hhigh : schedulerGetHighestPriorityThread k = some (u, k.prio u)) (hc : k.current = some c)

include hl hg hhigh hc

theorem schedule_stays (hrun : (k.thread c).stat = .running)
    (hstay : k.prio c < k.prio u ∨ k.prio c = k.prio u ∧ (k.thread c).yield = false) :
    rtSchedule k = some ((rtScheduleRemoveThread c
      (k.modify c fun th => { th with yield := false })).modify c
        fun th => { th with stat := .running }) := by
  unfold rtSchedule
  rw [if_pos hl, if_pos hg]
  simp only [hhigh, hc, Option.bind_eq_bind, Option.bind_some, hrun, hstay, and_self, if_true,
    ne_eq, not_true_eq_false, if_false, Option.pure_def]

theorem schedule_switches (huc : u ≠ c) (hrun : (k.thread c).stat = .running)
    (hstay : ¬ (k.prio c < k.prio u ∨ k.prio c = k.prio u ∧ (k.thread c).yield = false)) :
    rtSchedule k = some ((rtScheduleRemoveThread u (rtScheduleInsertThread c
      { k.modify c (fun th => { th with yield := false }) with current := some u })).modify u
        fun th => { th with stat := .running }) := by
  unfold rtSchedule
  rw [if_pos hl, if_pos hg]
  simp only [hhigh, hc, Option.bind_eq_bind, Option.bind_some, hrun, hstay, if_true, and_false,
    if_false, ne_eq, huc, not_false_eq_true, and_self, Option.pure_def]

theorem schedule_leaves (huc : u ≠ c) (hrun : (k.thread c).stat ≠ .running) :
    rtSchedule k = some ((rtScheduleRemoveThread u { k with current := some u }).modify u
        fun th => { th with stat := .running }) := by
  unfold rtSchedule
  rw [if_pos hl, if_pos hg]
  simp only [hhigh, hc, Option.bind_eq_bind, Option.bind_some, hrun, false_and, if_false, ne_eq,
    huc, not_false_eq_true, if_true, Option.pure_def]

end Cases

/-- **What `rt_schedule` does**, called with the scheduler unlocked by a thread that runs, or that
has left the ready queue while another one is there to run. -/
theorem schedule_spec (h : Queues none k) (hl : k.lockNest = 0) (hc : k.current = some c)
    (hr : (k.thread c).stat ≠ .ready)
    (hsome : (k.thread c).stat = .running ∨ ∃ u, (k.thread u).stat = .ready)
    (hfree : ∀ u, (k.thread u).stat = .ready ∨ (k.thread u).stat = .running → Free k u) :
    ∃ k' c', rtSchedule k = some k' ∧ Switch k k' c c' := by
  by_cases hg : k.group = 0
  · -- nothing is ready: the current thread runs on
    have hno := group_eq_zero h hg
    have hrun : (k.thread c).stat = .running := hsome.elim id fun ⟨u, hu⟩ => absurd hu (hno u)
    refine ⟨k, c, by simp [rtSchedule, hl, hg], Frame.refl k, h, hc, hrun, fun _ _ _ => rfl,
      fun hne => absurd rfl hne, fun hne => absurd rfl hne, fun _ => hrun, fun p => ?_, ?_,
      fun u hu => absurd hu (hno u)⟩
    · rw [if_neg (by simp)]
      refine (List.erase_of_not_mem fun hm => ?_).symm
      exact hno c ((h.mem c p).mp hm).2.1
    exact ⟨fun ⟨u, hu⟩ => absurd hu.1 (hno u), fun hne => absurd rfl hne⟩
  obtain ⟨u, hhigh, hu, hhead, htop⟩ := highest_spec h hg
  have huc : u ≠ c := fun he => hr (he ▸ hu)
  by_cases hrun : (k.thread c).stat = .running
  · by_cases hstay : k.prio c < k.prio u ∨ k.prio c = k.prio u ∧ (k.thread c).yield = false
    · -- the current thread keeps the processor
      refine ⟨_, c, ?_, stays_spec h hc hrun (hfree c (Or.inr hrun)) false fun v hv => ?_⟩
      · exact schedule_stays hl hg hhigh hc hrun hstay
      · have hle := htop v hv.1
        rcases hv.2 hrun with hlt | ⟨heq, hy⟩
        · rcases hstay with hs | ⟨hs, -⟩ <;> omega
        · rcases hstay with hs | ⟨-, hs⟩
          · omega
          · rw [hy] at hs
            exact absurd hs (by decide)
    · -- the current thread goes back to the ready queue
      obtain ⟨hf₁, hq₁, hc₁, hs₁, ho₁, ht₁⟩ := put_back h hrun huc
      obtain ⟨hf₂, hq₂, hc₂, hs₂, ho₂, ht₂⟩ := take_over hq₁
        (by
          obtain ⟨hw, hd⟩ := hfree u (Or.inl hu)
          exact ⟨fun m => by rw [hf₁.waiting]; exact hw m, by rw [hf₁.defunct]; exact hd⟩)
        (by rw [ho₁ u huc]; exact hu)
      have hfr := hf₁.trans hf₂
      have hpre : Preempts k c u := by
        refine ⟨hu, fun _ => ?_⟩
        by_contra hcon
        refine hstay ?_
        have := mt Or.inl hcon
        by_cases heq : k.prio c = k.prio u
        · refine Or.inr ⟨heq, ?_⟩
          by_contra hy
          exact hcon (Or.inr ⟨heq.symm, by simpa using hy⟩)
        · exact Or.inl (by omega)
      refine ⟨_, u, ?_, hfr, hq₂, hc₂.trans hc₁, hs₂, fun v hvc hvu => (ho₂ v hvu).trans (ho₁ v hvc),
        fun _ => ?_, fun _ => ⟨hu, hhead⟩, fun he => absurd he huc, fun p => ?_,
        ⟨fun _ => huc, fun _ => ⟨u, hpre⟩⟩, fun v hv => ?_⟩
      · exact schedule_switches hl hg hhigh hc huc hrun hstay
      · rw [if_pos hrun, ho₂ c (Ne.symm huc), hs₁]
      · rw [ht₂, ht₁]
        simp only [ne_eq, huc, not_false_eq_true, hrun, true_and]
      · rw [hfr.prio, hfr.prio]
        have hvu : v ≠ u := by
          rintro rfl
          rw [hs₂] at hv
          exact absurd hv (by decide)
        by_cases hvc : v = c
        · subst hvc
          rcases hpre.2 hrun with hlt | ⟨heq, -⟩ <;> omega
        · rw [ho₂ v hvu, ho₁ v hvc] at hv
          exact htop v hv
  · -- the current thread has already left the ready queue
    let k₁ : Os τ μ := { k with current := some u }
    have hq₁ : Queues none k₁ := ⟨h.mem, h.nodup, h.bit, h.prio, h.mask⟩
    obtain ⟨hf₂, hq₂, hc₂, hs₂, ho₂, ht₂⟩ := take_over (k := k₁) hq₁ (hfree u (Or.inl hu)) hu
    have hfr : Frame k _ := ⟨hf₂.timers, hf₂.lockNest, hf₂.mutex, hf₂.waiting, hf₂.defunct,
      hf₂.thread⟩
    refine ⟨_, u, ?_, hfr, hq₂, hc₂, hs₂, fun v _ hvu => ho₂ v hvu, fun _ => ?_,
      fun _ => ⟨hu, hhead⟩, fun he => absurd he huc, fun p => ?_,
      ⟨fun _ => huc, fun _ => ⟨u, hu, fun hr => absurd hr hrun⟩⟩, fun v hv => ?_⟩
    · exact schedule_leaves hl hg hhigh hc huc hrun
    · rw [if_neg hrun, ho₂ c (Ne.symm huc)]
    · rw [ht₂, if_neg fun hp => hrun hp.2.1]
    · rw [hfr.prio, hfr.prio]
      have hvu : v ≠ u := by
        rintro rfl
        rw [hs₂] at hv
        exact absurd hv (by decide)
      rw [ho₂ v hvu] at hv
      exact htop v hv

end RtosExample.Kernel.Dispatch
