import RtosExample.Kernel.Effects
import RtosExample.Kernel.Deadlines

/-! # The kernel between two critical sections

`Sound` is what holds of threads, lists and timers whenever interrupts are enabled, whatever the
threads are in the middle of: the ready queue is in order, a thread waits or has its timer running
only while it is suspended, the timers are in order, and somebody can run.

* `schedule_sound`: `rt_schedule` finds a thread and keeps all that;
* `stat_sound`, `move_sound`: so does a step that leaves the states of the threads alone, and one
  that moves a single thread. -/

namespace RtosExample.Kernel.Invariant

open RtosExample.Cint RtosExample.Kernel.TimerList RtosExample.Kernel.Deadlines
open RtosExample.Kernel.Sched RtosExample.Kernel.ReadyQueue RtosExample.Kernel.Dispatch
open RtosExample.Kernel.Effects

variable {τ μ : Type}

/-- **The kernel while interrupts are enabled**, at the time `now`, where the timer of a thread runs
out at its `deadline`. The thread `idle` never blocks, and a thread is detached only when it has
ended. -/
structure Sound (idle : τ) (lo now : ℕ) (deadline : τ → ℕ) (k : Os τ μ) : Prop where
  queues : Queues none k
  unlocked : k.lockNest = 0
  running : ∀ t, (k.thread t).stat = .running → k.current = some t
  current : ∃ c, k.current = some c ∧ (k.thread c).stat ≠ .ready
  idle : lvl k idle = .ready
  waiting : ∀ m, ∀ t ∈ k.waiting m, lvl k t = .suspend
  nodup : ∀ m, (k.waiting m).Nodup
  defunct : ∀ t ∈ k.defunct, lvl k t = .close
  timers : Good lo now deadline k.timers
  armed : ∀ t, (k.timers.timer t).activated = true ↔ t ∈ k.timers.list
  oneshot : ∀ t, (k.timers.timer t).periodic = false
  asleep : ∀ t ∈ k.timers.list, lvl k t = .suspend
  object : ∀ t, lvl k t ≠ .close → (k.thread t).type = .thread

variable {idle : τ} {lo now : ℕ} {d d' : τ → ℕ} {k k' : Os τ μ} {c c' t : τ}

/-! ### Scheduling -/

theorem free_of_sound (h : Sound idle lo now d k) (ht : lvl k t = .ready) : Free k t := by
  refine ⟨fun m hm => ?_, fun hm => ?_⟩
  · have := h.waiting m t hm
    rw [ht] at this
    exact absurd this (by decide)
  · have := h.defunct t hm
    rw [ht] at this
    exact absurd this (by decide)

theorem live_object (h : Sound idle lo now d k) (ht : (k.thread t).stat ≠ .close) :
    (k.thread t).type = .thread := h.object t (mt lvl_close.mp ht)

variable [DecidableEq τ]

theorem switch_sound (h : Sound idle lo now d k) (hc : k.current = some c)
    (hw : Switch k k' c c') : Sound idle lo now d k' where
  queues := hw.queues
  unlocked := hw.lockNest.trans h.unlocked
  running t ht := by
    rw [hw.current]
    by_cases htc' : t = c'
    · rw [htc']
    · by_cases htc : t = c
      · subst htc
        rw [hw.left (Ne.symm htc')] at ht
        split_ifs at ht
        exact absurd ht ‹_›
      · rw [hw.other t htc htc'] at ht
        have := h.running t ht
        rw [hc] at this
        exact absurd (Option.some.inj this).symm htc
  current := ⟨c', hw.current, by
    rw [hw.running]
    decide⟩
  idle := (switch_lvl hw idle).trans h.idle
  waiting m t ht := by
    rw [hw.waiting] at ht
    exact (switch_lvl hw t).trans (h.waiting m t ht)
  nodup m := by
    rw [hw.waiting]
    exact h.nodup m
  defunct t ht := by
    rw [hw.defunct] at ht
    exact (switch_lvl hw t).trans (h.defunct t ht)
  timers := by
    rw [hw.timers]
    exact h.timers
  armed t := by
    rw [hw.timers]
    exact h.armed t
  oneshot t := by
    rw [hw.timers]
    exact h.oneshot t
  asleep t ht := by
    rw [hw.timers] at ht
    exact (switch_lvl hw t).trans (h.asleep t ht)
  object t ht := by
    rw [hw.thread t]
    exact h.object t (switch_lvl hw t ▸ ht)

theorem schedule_sound (h : Sound idle lo now d k) (hc : k.current = some c) :
    ∃ k' c', rtSchedule k = some k' ∧ Switch k k' c c' ∧ Sound idle lo now d k' := by
  obtain ⟨c₀, hc₀, hr⟩ := h.current
  rw [hc] at hc₀
  obtain rfl := Option.some.inj hc₀
  have hsome : (k.thread c).stat = .running ∨ ∃ u, (k.thread u).stat = .ready := by
    rcases level_eq_ready.mp h.idle with hi | hi
    · exact Or.inr ⟨idle, hi⟩
    · have := h.running idle hi
      rw [hc] at this
      exact Or.inl (Option.some.inj this ▸ hi)
  obtain ⟨k', c', hk, hw⟩ := schedule_spec h.queues h.unlocked hc hr hsome
    fun u hu => free_of_sound h (level_eq_ready.mpr hu)
  exact ⟨k', c', hk, hw, switch_sound h hc hw⟩

/-! ### The other steps -/

omit [DecidableEq τ] in
theorem stat_sound (h : Sound idle lo now d k) (hq : Queues none k')
    (hs : ∀ u, (k'.thread u).stat = (k.thread u).stat)
    (hty : ∀ u, (k'.thread u).type = (k.thread u).type) (hcur : k'.current = k.current)
    (hlock : k'.lockNest = k.lockNest) (hw : k'.waiting = k.waiting)
    (hdef : k'.defunct = k.defunct) (htm : k'.timers = k.timers) : Sound idle lo now d k' := by
  have hlvl : ∀ u, lvl k' u = lvl k u := fun u => by rw [lvl, hs, lvl]
  refine ⟨hq, hlock.trans h.unlocked, fun t ht => hcur.trans (h.running t (hs t ▸ ht)), ?_,
    (hlvl idle).trans h.idle, fun m t ht => (hlvl t).trans (h.waiting m t (hw ▸ ht)),
    fun m => hw ▸ h.nodup m, fun t ht => (hlvl t).trans (h.defunct t (hdef ▸ ht)),
    htm ▸ h.timers, fun t => htm ▸ h.armed t, fun t => htm ▸ h.oneshot t,
    fun t ht => (hlvl t).trans (h.asleep t (htm ▸ ht)),
    fun t ht => (hty t).trans (h.object t (hlvl t ▸ ht))⟩
  obtain ⟨c, hc, hr⟩ := h.current
  exact ⟨c, hcur.trans hc, by rwa [hs]⟩

theorem modify_sound (h : Sound idle lo now d k) {f : Thread → Thread}
    (hs : (f (k.thread t)).stat = (k.thread t).stat)
    (hp : (f (k.thread t)).currentPriority = (k.thread t).currentPriority)
    (hm : (f (k.thread t)).numberMask = (k.thread t).numberMask)
    (hty : (f (k.thread t)).type = (k.thread t).type) :
    Sound idle lo now d (k.modify t f) := by
  refine stat_sound h (modify_queues_same h.queues hs hp hm) (fun u => ?_) (fun u => ?_) rfl rfl rfl
    rfl rfl
  · by_cases hu : u = t
    · subst hu
      rw [ReadyQueue.modify_self, hs]
    · rw [ReadyQueue.modify_of_ne _ _ hu]
  · by_cases hu : u = t
    · subst hu
      rw [ReadyQueue.modify_self, hty]
    · rw [ReadyQueue.modify_of_ne _ _ hu]

theorem move_sound (h : Sound idle lo now d k) (t : τ) (hq : Queues none k')
    (hs : ∀ u, u ≠ t → (k'.thread u).stat = (k.thread u).stat)
    (hlive : (k.thread t).stat ≠ .close)
    (hty : ∀ u, (k'.thread u).type = (k.thread u).type) (hcur : k'.current = k.current)
    (hlock : k'.lockNest = k.lockNest)
    (hrun : (k'.thread t).stat = .running → k.current = some t)
    (hnot : k.current = some t → (k'.thread t).stat ≠ .ready)
    (hidle : t = idle → lvl k' t = .ready)
    (hw : ∀ m u, u ∈ k'.waiting m → if u = t then lvl k' t = .suspend else u ∈ k.waiting m)
    (hn : ∀ m, (k'.waiting m).Nodup)
    (hdef : ∀ u, u ∈ k'.defunct → if u = t then lvl k' t = .close else u ∈ k.defunct)
    (hg : Good lo now d' k'.timers)
    (hother : ∀ u, u ≠ t → k'.timers.timer u = k.timers.timer u ∧
      (u ∈ k'.timers.list ↔ u ∈ k.timers.list))
    (hact : (k'.timers.timer t).activated = true ↔ t ∈ k'.timers.list)
    (hper : (k'.timers.timer t).periodic = false)
    (hasleep : t ∈ k'.timers.list → lvl k' t = .suspend) : Sound idle lo now d' k' := by
  have hlvl : ∀ u, u ≠ t → lvl k' u = lvl k u := fun u hu => by rw [lvl, hs u hu, lvl]
  refine ⟨hq, hlock.trans h.unlocked, fun u hu => ?_, ?_, ?_, fun m u hu => ?_, hn,
    fun u hu => ?_, hg, fun u => ?_, fun u => ?_, fun u hu => ?_, fun u hu => ?_⟩
  · rw [hcur]
    by_cases hut : u = t
    · exact hut ▸ hrun (hut ▸ hu)
    · exact h.running u (hs u hut ▸ hu)
  · obtain ⟨c, hc, hr⟩ := h.current
    refine ⟨c, hcur.trans hc, ?_⟩
    by_cases hct : c = t
    · exact hct ▸ hnot (hct ▸ hc)
    · rwa [hs c hct]
  · by_cases hit : idle = t
    · exact hit ▸ hidle hit.symm
    · exact (hlvl idle hit).trans h.idle
  · have := hw m u hu
    split_ifs at this with hut
    · exact hut ▸ this
    · exact (hlvl u hut).trans (h.waiting m u this)
  · have := hdef u hu
    split_ifs at this with hut
    · exact hut ▸ this
    · exact (hlvl u hut).trans (h.defunct u this)
  · by_cases hut : u = t
    · exact hut ▸ hact
    · rw [(hother u hut).1, (hother u hut).2]
      exact h.armed u
  · by_cases hut : u = t
    · exact hut ▸ hper
    · rw [(hother u hut).1]
      exact h.oneshot u
  · by_cases hut : u = t
    · exact hut ▸ hasleep (hut ▸ hu)
    · exact (hlvl u hut).trans (h.asleep u ((hother u hut).2.mp hu))
  · refine (hty u).trans (h.object u ?_)
    by_cases hut : u = t
    · exact hut ▸ mt lvl_close.mp hlive
    · exact hlvl u hut ▸ hu

theorem wake_sound (h : Sound idle lo now d k) (hs : (k.thread t).stat = .suspend) (th : Thread)
    (hty : th.type = (k.thread t).type)
    (hst : th.stat = if k.current = some t then .running else .ready) (hq : Queues none k')
    (hth : k'.thread = Function.update k.thread t th) (hcur : k'.current = k.current)
    (hlock : k'.lockNest = k.lockNest) (hw : ∀ m, k'.waiting m = (k.waiting m).erase t)
    (hdef : k'.defunct = k.defunct.erase t) (hg : Good lo now d k'.timers)
    (hl : k'.timers.list = k.timers.list.erase t)
    (hoff : (k'.timers.timer t).activated = false ∧ (k'.timers.timer t).periodic = false)
    (hother : ∀ u, u ≠ t → k'.timers.timer u = k.timers.timer u) :
    Sound idle lo now d k' ∧ lvl k' t = .ready := by
  have hself : k'.thread t = th := by rw [hth, Function.update_self]
  have hready : lvl k' t = .ready := by
    rw [lvl, hself, hst]
    split_ifs <;> rfl
  have hgone : t ∉ k'.timers.list := by
    rw [hl]
    exact not_mem_erase h.timers t
  refine ⟨move_sound h t hq (fun u hu => by rw [hth, Function.update_of_ne hu])
    (by rw [hs]; decide) (fun u => ?_) hcur hlock ?_ ?_ (fun _ => hready) (fun m u hu => ?_)
    (fun m => ?_) (fun u hu => ?_) hg
    (fun u hu => ⟨hother u hu, by rw [hl, List.mem_erase_of_ne hu]⟩) ?_ hoff.2
    (fun hm => absurd hm hgone), hready⟩
  · by_cases hu : u = t
    · rw [hu, hself, hty]
    · rw [hth, Function.update_of_ne hu]
  · intro hr
    rw [hself, hst] at hr
    split_ifs at hr with hc
    exact hc
  · intro hc
    rw [hself, hst, if_pos hc]
    decide
  · rw [hw] at hu
    obtain ⟨hut, hu⟩ := (h.nodup m).mem_erase_iff.mp hu
    rwa [if_neg hut]
  · rw [hw]
    exact (h.nodup m).sublist List.erase_sublist
  · rw [hdef] at hu
    have hmem := List.mem_of_mem_erase hu
    have hut : u ≠ t := by
      rintro rfl
      have := lvl_close.mp (h.defunct u hmem)
      rw [hs] at this
      exact absurd this (by decide)
    rwa [if_neg hut]
  · rw [hoff.1]
    exact ⟨by simp, fun hm => absurd hm hgone⟩

theorem reap_thread (k : Os τ μ) (t u : τ) : (rtDefunctExecute t k).thread u =
    { k.thread u with type := if u = t then .null else (k.thread u).type } := by
  by_cases hu : u = t
  · subst hu
    simp [rtDefunctExecute, Os.modify]
  · simp [rtDefunctExecute, Os.modify, hu]

theorem reap_prio (k : Os τ μ) (t u : τ) : (rtDefunctExecute t k).prio u = k.prio u := by
  rw [Os.prio, reap_thread]
  rfl

theorem reap_lvl (k : Os τ μ) (t u : τ) : lvl (rtDefunctExecute t k) u = lvl k u := by
  rw [lvl, reap_thread, lvl]

/-- **A thread that has ended is cleared away.** -/
theorem reap_sound (h : Sound idle lo now d k) (ht : t ∈ k.defunct) :
    Sound idle lo now d (rtDefunctExecute t k) where
  queues := by
    have hq : Queues none { k with defunct := k.defunct.erase t } :=
      Queues.congr h.queues rfl rfl rfl
    exact modify_queues_same (f := fun th => { th with type := .null }) hq rfl rfl rfl
  unlocked := h.unlocked
  running u hu := h.running u (by rwa [reap_thread] at hu)
  current := by
    obtain ⟨c, hc, hr⟩ := h.current
    exact ⟨c, hc, by rwa [reap_thread]⟩
  idle := (reap_lvl k t idle).trans h.idle
  waiting m u hu := (reap_lvl k t u).trans (h.waiting m u hu)
  nodup := h.nodup
  defunct u hu := (reap_lvl k t u).trans (h.defunct u (List.mem_of_mem_erase hu))
  timers := h.timers
  armed := h.armed
  oneshot := h.oneshot
  asleep u hu := (reap_lvl k t u).trans (h.asleep u hu)
  object u hu := by
    rw [reap_lvl] at hu
    have hut : u ≠ t := by
      rintro rfl
      exact hu (h.defunct u ht)
    rw [reap_thread, if_neg hut]
    exact h.object u hu

end RtosExample.Kernel.Invariant
