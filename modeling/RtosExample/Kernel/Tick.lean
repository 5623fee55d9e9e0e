import RtosExample.Kernel.Invariant

/-! # The tick

`tick_sound`: no assertion of the kernel fails in `rt_tick_increase`, the check of the timers comes
to its end, and exactly those threads wake whose deadline has come (`Rouses`). -/

namespace RtosExample.Kernel.Tick

open RtosExample.Cint RtosExample.Kernel.TimerList RtosExample.Kernel.Deadlines
open RtosExample.Kernel.Sched RtosExample.Kernel.ReadyQueue RtosExample.Kernel.Dispatch
open RtosExample.Kernel.Effects RtosExample.Kernel.Invariant

variable {τ μ : Type}

/-- No ready thread has a higher priority than the one that runs. -/
def Top (k : Os τ μ) : Prop := ∀ c, k.current = some c → (k.thread c).stat = .running →
  ∀ u, (k.thread u).stat = .ready → k.prio c ≤ k.prio u

/-- **The threads in `P` have been woken by their timers**, and for the rest threads and mutexes
are as they were, but for the processor and the time slices. -/
structure Rouses (P : τ → Prop) (k k' : Os τ μ) : Prop where
  mutex : k'.mutex = k.mutex
  prio : ∀ t, (k'.thread t).currentPriority = (k.thread t).currentPriority
  same : ∀ t, ¬ P t → lvl k' t = lvl k t ∧ (k'.thread t).error = (k.thread t).error
  woken : ∀ t, P t → lvl k t = .suspend ∧ lvl k' t = .ready ∧
    (k'.thread t).error = -RT_ETIMEOUT
  waiting : ∀ m, (k'.waiting m).Sublist (k.waiting m) ∧
    ∀ t, t ∈ k'.waiting m ↔ t ∈ k.waiting m ∧ ¬ P t
  list : ∀ t, t ∈ k'.timers.list ↔ t ∈ k.timers.list ∧ ¬ P t
  current : k'.current = k.current ∨ Top k' ∧ ∃ c, k'.current = some c ∧ lvl k' c = .ready
  top : Top k → Top k'

variable {idle : τ} {lo now : ℕ} {d : τ → ℕ} {k k' k'' : Os τ μ} {c c' t : τ} {P Q : τ → Prop}

theorem Rouses.trans (h : Rouses P k k') (h' : Rouses Q k' k'') :
    Rouses (fun t => P t ∨ Q t) k k'' where
  mutex := h'.mutex.trans h.mutex
  prio t := (h'.prio t).trans (h.prio t)
  same t ht := by
    obtain ⟨hp, hq⟩ := not_or.mp ht
    exact ⟨(h'.same t hq).1.trans (h.same t hp).1, (h'.same t hq).2.trans (h.same t hp).2⟩
  woken t ht := by
    by_cases hp : P t
    · have hnq : ¬ Q t := by
        intro hq
        have h1 := (h'.woken t hq).1
        rw [(h.woken t hp).2.1] at h1
        exact absurd h1 (by decide)
      obtain ⟨h1, h2, h3⟩ := h.woken t hp
      exact ⟨h1, (h'.same t hnq).1.trans h2, (h'.same t hnq).2.trans h3⟩
    · obtain ⟨h1, h2, h3⟩ := h'.woken t (ht.resolve_left hp)
      exact ⟨(h.same t hp).1 ▸ h1, h2, h3⟩
  waiting m := by
    refine ⟨(h'.waiting m).1.trans (h.waiting m).1, fun t => ?_⟩
    rw [(h'.waiting m).2, (h.waiting m).2, not_or, and_assoc]
  list t := by
    rw [h'.list, h.list, not_or, and_assoc]
  current := by
    rcases h'.current with hc | hc
    · refine h.current.imp hc.trans fun ⟨ht, c, hc', hr⟩ => ⟨h'.top ht, c, hc.trans hc', ?_⟩
      have hnq : ¬ Q c := by
        intro hq
        have h1 := (h'.woken c hq).1
        rw [hr] at h1
        exact absurd h1 (by decide)
      exact (h'.same c hnq).1.trans hr
    · exact Or.inr hc
  top ht := h'.top (h.top ht)

theorem Rouses.congr (h : Rouses P k k') (hpq : ∀ t, P t ↔ Q t) : Rouses Q k k' := by
  rwa [← funext fun t => propext (hpq t)]

variable [DecidableEq τ]

theorem switch_top (h : Switch k k' c c') : Top k' := by
  intro c₁ hc₁ _ u hu
  rw [h.current] at hc₁
  obtain rfl := Option.some.inj hc₁
  exact h.top u hu

theorem switch_rouses (h : Switch k k' c c') : Rouses (fun _ => False) k k' where
  mutex := h.mutex
  prio t := by rw [h.thread t]
  same t _ := ⟨switch_lvl h t, by rw [h.thread t]⟩
  woken _ := False.elim
  waiting m := by
    rw [h.waiting]
    exact ⟨List.Sublist.refl _, fun t => by simp⟩
  list t := by
    rw [h.timers]
    simp
  current := Or.inr ⟨switch_top h, c', h.current, level_eq_ready.mpr (Or.inr h.running)⟩
  top _ := switch_top h

/-! ### The tick -/

theorem before_good (h : Sound idle lo now d k) (hidle : k.timers.expiring = []) (t : τ) :
    let tm := beforeCallback t k.timers
    Good lo now d tm ∧ tm.list = k.timers.list.erase t ∧ tm.expiring = [t] ∧
      (tm.timer t).activated = false ∧ (tm.timer t).periodic = false ∧
      ∀ u, u ≠ t → tm.timer u = k.timers.timer u := by
  have hg := remove_good h.timers t (f := fun x => { x with activated := false }) rfl
  have hb : beforeCallback t k.timers = { (timerRemove t k.timers).modify t
      (fun x => { x with activated := false }) with expiring := [t] } := by
    simp [beforeCallback, h.oneshot, hidle, Timers.modify]
  intro tm
  have htm : tm = _ := hb
  rw [htm]
  have hself : ((timerRemove t k.timers).modify t fun x => { x with activated := false }).timer t =
      { k.timers.timer t with activated := false } := TimerList.modify_self ..
  refine ⟨⟨hg.near, hg.tick, hg.nodup, hg.sorted, hg.activated, hg.timeout, hg.low, hg.high,
    hg.init⟩, rfl, rfl, ?_, ?_, fun u hu => ?_⟩
  · exact congrArg Timer.activated hself
  · exact (congrArg Timer.periodic hself).trans (h.oneshot t)
  · exact TimerList.modify_of_ne (timerRemove t k.timers) (fun x => { x with activated := false }) hu

omit [DecidableEq τ] in
theorem expiring_sound (h : Sound idle lo now d k) (l : List τ) :
    Sound idle lo now d (k.setTimers { k.timers with expiring := l }) :=
  { h with
    queues := setTimers_queues h.queues _
    timers := ⟨h.timers.near, h.timers.tick, h.timers.nodup, h.timers.sorted, h.timers.activated,
      h.timers.timeout, h.timers.low, h.timers.high, h.timers.init⟩ }

theorem round_sound (h : Sound idle lo now d k) (hidle : k.timers.expiring = [])
    (ht : t ∈ k.timers.list) :
    ∃ k', threadTimeout t (k.setTimers (beforeCallback t k.timers)) = some k' ∧
      let k'' := k'.setTimers (afterCallback t k'.timers)
      Sound idle lo now d k'' ∧ k''.timers.expiring = [] ∧ Rouses (· = t) k k'' := by
  have hs := lvl_suspend.mp (h.asleep t ht)
  obtain ⟨hg, hl, he, hact, hper, hother⟩ := before_good h hidle t
  let k₁ : Os τ μ := (k.setTimers (beforeCallback t k.timers)).modify t
    fun th => { th with error := -RT_ETIMEOUT }
  have hth₁ : k₁.thread t = { k.thread t with error := -RT_ETIMEOUT } :=
    ReadyQueue.modify_self ..
  have hq₁ : Queues none k₁ := modify_queues_same (setTimers_queues h.queues _) rfl rfl rfl
  obtain ⟨table, group, hk₂, hq₂⟩ := wake_spec hq₁ (by
    rw [hth₁]
    exact hs)
  -- the kernel before `rt_schedule`
  have hobj : (k.thread t).type = .thread := live_object h (by rw [hs]; decide)
  have hw := wake_sound h hs { k.thread t with
      error := -RT_ETIMEOUT, stat := if k.current = some t then .running else .ready } rfl rfl hq₂
    (by
      simp only [hth₁]
      simp only [k₁, Os.modify, Os.setTimers, Function.update_idem])
    rfl rfl (fun _ => rfl) rfl hg hl ⟨hact, hper⟩ hother
  obtain ⟨c, hc, -⟩ := hw.1.current
  obtain ⟨k₃, c', hk₃, hsw, hs₃⟩ := schedule_sound hw.1 hc
  have htm : k₃.timers = beforeCallback t k.timers := hsw.timers
  refine ⟨k₃, ?_, ?_⟩
  · simp only [threadTimeout, Os.setTimers, hs, hobj, and_self, if_true]
    rw [← hk₃, ← hk₂]
    rfl
  have hafter : afterCallback t k₃.timers = timerRemove t k₃.timers := by
    simp [afterCallback, htm, he, hper]
  have hlist : (timerRemove t k₃.timers).list = k₃.timers.list := by
    have hnot : t ∉ k₃.timers.list := by
      rw [htm, hl]
      exact not_mem_erase h.timers t
    exact List.erase_of_not_mem hnot
  have hk : k₃.setTimers (afterCallback t k₃.timers) =
      k₃.setTimers { k₃.timers with expiring := [] } := by
    rw [hafter]
    simp only [timerRemove] at hlist ⊢
    rw [hlist, htm, he]
    simp
  rw [hk]
  have hro := switch_rouses hsw
  refine ⟨expiring_sound hs₃ [], rfl, ?_⟩
  have hself : lvl k₃ t = .ready ∧ (k₃.thread t).error = -RT_ETIMEOUT := by
    refine ⟨(hro.same t id).1.trans hw.2, (hro.same t id).2.trans ?_⟩
    simp [k₁]
  have hne : ∀ u, u ≠ t → lvl k₃ u = lvl k u ∧ (k₃.thread u).error = (k.thread u).error := by
    intro u hu
    obtain ⟨h1, h2⟩ := hro.same u id
    refine ⟨h1.trans ?_, h2.trans ?_⟩
    · simp [lvl, hu, k₁, modify_of_ne]
    · simp [hu, k₁, modify_of_ne]
  refine ⟨hro.mutex, fun u => (hro.prio u).trans ?_, fun u hu => hne u hu, ?_, fun m => ?_,
    fun u => ?_, Or.inr ⟨show Top k₃ from switch_top hsw, c',
      hsw.current, level_eq_ready.mpr (Or.inr hsw.running)⟩, fun _ => show Top k₃ from switch_top hsw⟩
  · by_cases hu : u = t
    · subst hu
      simp [k₁]
    · simp [hu, k₁, modify_of_ne]
  · rintro u rfl
    exact ⟨h.asleep u ht, hself⟩
  · have hwait : k₃.waiting m = (k.waiting m).erase t := congrFun hsw.waiting m
    refine ⟨?_, fun u => ?_⟩
    · change (k₃.waiting m).Sublist _
      rw [hwait]
      exact List.erase_sublist
    · change u ∈ k₃.waiting m ↔ _
      rw [hwait, (h.nodup m).mem_erase_iff, and_comm]
  · change u ∈ k₃.timers.list ↔ _
    rw [htm, hl, h.timers.nodup.mem_erase_iff, and_comm]

omit [DecidableEq τ] in
theorem rouses_none (hm : k'.mutex = k.mutex) (hw : k'.waiting = k.waiting)
    (hl : k'.timers.list = k.timers.list) (hc : k'.current = k.current)
    (hth : ∀ u, (k'.thread u).stat = (k.thread u).stat ∧
      (k'.thread u).error = (k.thread u).error ∧
      (k'.thread u).currentPriority = (k.thread u).currentPriority) :
    Rouses (fun _ => False) k k' where
  mutex := hm
  prio u := (hth u).2.2
  same u _ := ⟨by rw [lvl, (hth u).1, lvl], (hth u).2.1⟩
  woken _ := False.elim
  waiting m := by
    rw [hw]
    exact ⟨List.Sublist.refl _, fun t => by simp⟩
  list t := by
    rw [hl]
    simp
  current := Or.inl hc
  top ht c hcur hr u hu := by
    rw [Os.prio, Os.prio, (hth c).2.2, (hth u).2.2]
    exact ht c (hc ▸ hcur) ((hth c).1 ▸ hr) u ((hth u).1 ▸ hu)

theorem slice_sound (h : Sound idle lo now d k) (f : Thread → Thread)
    (hf : ∀ th, (f th).stat = th.stat ∧ (f th).currentPriority = th.currentPriority ∧
      (f th).numberMask = th.numberMask ∧ (f th).error = th.error ∧ (f th).type = th.type) :
    Sound idle lo now d (k.modify t f) ∧ Rouses (fun _ => False) k (k.modify t f) := by
  refine ⟨modify_sound h (hf _).1 (hf _).2.1 (hf _).2.2.1 (hf _).2.2.2.2,
    rouses_none rfl rfl rfl rfl fun u => ?_⟩
  by_cases hu : u = t
  · subst hu
    rw [ReadyQueue.modify_self]
    exact ⟨(hf _).1, (hf _).2.2.2.1, (hf _).2.1⟩
  · rw [ReadyQueue.modify_of_ne _ _ hu]
    exact ⟨rfl, rfl, rfl⟩

theorem slice_spec (h : Sound idle now now d k) : ∃ k', tickSlice k = some k' ∧
    Sound idle now (now + 1) d k' ∧ Rouses (fun _ => False) k k' ∧ k'.timers =
      { k.timers with tick := k.timers.tick + 1 } := by
  let k₁ := k.setTimers { k.timers with tick := k.timers.tick + 1 }
  have h₁ : Sound idle now (now + 1) d k₁ :=
    { h with queues := setTimers_queues h.queues _, timers := tick_good h.timers }
  have hr₁ : Rouses (fun _ => False) k k₁ := rouses_none rfl rfl rfl rfl fun _ => ⟨rfl, rfl, rfl⟩
  obtain ⟨c, hc, -⟩ := h₁.current
  obtain ⟨h₂, hr₂⟩ := slice_sound (t := c) h₁ (fun th =>
    { th with remainingTick := th.remainingTick - 1 }) fun _ => ⟨rfl, rfl, rfl, rfl, rfl⟩
  have hc' : (k.setTimers { k.timers with tick := k.timers.tick + 1 }).current = some c := hc
  have hr := (hr₁.trans hr₂).congr (Q := fun _ => False) fun _ => or_self_iff
  by_cases hz : ((k₁.modify c fun th =>
      { th with remainingTick := th.remainingTick - 1 }).thread c).remainingTick = 0
  · -- the slice is over
    obtain ⟨h₃, hr₃⟩ := slice_sound (t := c) h₂ (fun th =>
      { th with remainingTick := th.initTick, yield := true }) fun _ => ⟨rfl, rfl, rfl, rfl, rfl⟩
    obtain ⟨k', c', hk', hw, h'⟩ := schedule_sound h₃ hc
    refine ⟨k', ?_, h', ?_, hw.timers⟩
    · simp only [tickSlice, hc', Option.bind_eq_bind, Option.bind_some]
      rw [if_pos hz]
      exact hk'
    · exact ((hr.trans hr₃).trans (switch_rouses hw)).congr fun _ => by simp
  · refine ⟨_, ?_, h₂, hr, rfl⟩
    simp only [tickSlice, hc', Option.bind_eq_bind, Option.bind_some]
    rw [if_neg hz]
    rfl

/-- **The tick interrupt.** No assertion fails in it, the check of the timers comes to its end, and
those threads wake whose deadline has come. -/
theorem tick_sound (h : Sound idle now now d k) (hidle : k.timers.expiring = []) :
    ∃ k', rtTickIncrease k = some k' ∧ Sound idle (now + 1) (now + 1) d k' ∧
      k'.timers.expiring = [] ∧
      Rouses (fun t => t ∈ k.timers.list ∧ d t ≤ now + 1) k k' := by
  obtain ⟨k₁, hk₁, h₁, hr₁, htm⟩ := slice_spec h
  let J : (τ → ℕ) → Os τ μ → Prop := fun d' s => d' = d ∧ Sound idle now (now + 1) d s ∧
    s.timers.expiring = [] ∧ (∀ t ∈ k.timers.list, t ∉ s.timers.list → d t ≤ now + 1) ∧
    Rouses (fun t => t ∈ k.timers.list ∧ t ∉ s.timers.list) k s
  have hl₁ : k₁.timers.list = k.timers.list := by rw [htm]
  have hJ₁ : J d k₁ := by
    refine ⟨rfl, h₁, by rw [htm]; exact hidle, fun t ht hn => absurd (hl₁ ▸ ht) hn,
      hr₁.congr fun t => ?_⟩
    rw [hl₁]
    simp
  obtain ⟨d', k', hk', ⟨hd, h', he', hcome, hr'⟩, hahead⟩ := check_rule (J := J) Os.timers
    Os.setTimers threadTimeout
    (fun d' s hj => (hj.1 ▸ hj.2.1.timers : Good now (now + 1) d' s.timers))
    (fun d' s i ⟨hd, hs, he, hcome, hr⟩ hi hle => by
      subst hd
      obtain ⟨s', hc, hs', he', hro⟩ := round_sound hs he hi
      refine ⟨d', s', hc, ⟨rfl, hs', he', fun t ht hn => ?_, (hr.trans hro).congr fun t => ?_⟩, ?_⟩
      · by_cases hts : t ∈ s.timers.list
        · have hti : t = i := by
            by_contra hne
            exact hn ((hro.list t).mpr ⟨hts, hne⟩)
          exact hti ▸ hle
        · exact hcome t ht hts
      · rw [hro.list, not_and_or, not_not, and_or_left]
        refine or_congr_right ⟨fun he => ⟨?_, he⟩, fun he => he.2⟩
        exact he ▸ ((hr.list i).mp hi).1
      · refine Finset.ssubset_iff_subset_ne.mpr ⟨fun t ht => ?_, fun he => ?_⟩
        · obtain ⟨hm, hdt⟩ := mem_due.mp ht
          exact mem_due.mpr ⟨((hro.list t).mp hm).1, hdt⟩
        · have hm : i ∈ due (now + 1) d' s.timers := mem_due.mpr ⟨hi, hle⟩
          rw [← he] at hm
          exact ((hro.list i).mp (mem_due.mp hm).1).2 rfl)
    (k₁.timers.list.length + 1) d k₁ hJ₁ (Nat.lt_succ_of_le card_due_le)
  subst hd
  refine ⟨k', ?_, { h' with timers := h'.timers.ahead hahead }, he', hr'.congr fun t => ?_⟩
  · simp only [rtTickIncrease, hk₁, Option.bind_eq_bind, Option.bind_some]
    exact hk'
  · refine and_congr_right fun ht => ⟨hcome t ht, fun hle hm => ?_⟩
    have := hahead t hm
    omega

end RtosExample.Kernel.Tick
