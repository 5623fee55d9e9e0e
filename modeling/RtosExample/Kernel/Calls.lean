import RtosExample.Kernel.Invariant

/-! # What the calls of a thread do

The running thread `c` calls the kernel, with interrupts enabled and the kernel `Sound`. For each
call, and each way through it, the kernel at the point where `rt_schedule` is called or the call
returns: as in `Effects` the old kernel with some fields set, which is `Sound` again. -/

namespace RtosExample.Kernel.Calls

open RtosExample.Cint RtosExample.Lib.Queue RtosExample.Kernel.TimerList
open RtosExample.Kernel.Deadlines RtosExample.Kernel.Sched RtosExample.Kernel.Mutex
open RtosExample.Kernel.ReadyQueue RtosExample.Kernel.Dispatch RtosExample.Kernel.Effects
open RtosExample.Kernel.Invariant

variable {τ μ : Type} [DecidableEq τ] {idle c t : τ} {now : ℕ} {d : τ → ℕ} {k k' : Os τ μ}

/-! ### Timers of threads -/

/-- The timer of thread `c`, set to `n` ticks and started. -/
def armed (c : τ) (n : U32) (tm : Timers τ) : Timers τ :=
  rtTimerStart c (tm.modify c fun t => { t with initTick := n })

theorem armed_spec {tm : Timers τ} (h : Good now now d tm) {n : U32} (hn : n < TICK_HALF) :
    Good now now (Function.update d c (now + n.toNat)) (armed c n tm) ∧
      (∀ t, t ∈ (armed c n tm).list ↔ t = c ∨ t ∈ tm.list) ∧
      ((armed c n tm).timer c).activated = true ∧
      ((armed c n tm).timer c).periodic = (tm.timer c).periodic ∧
      (∀ t, t ≠ c → (armed c n tm).timer t = tm.timer t) ∧
      (armed c n tm).expiring = tm.expiring.erase c := by
  have hm := modify_good h c (f := fun t => { t with initTick := n }) rfl rfl hn
  have hs := start_good hm le_rfl c
  have hd : startAt now (tm.modify c fun t => { t with initTick := n }) c d =
      Function.update d c (now + n.toNat) := by
    simp [startAt]
  refine ⟨hd ▸ hs, fun t => ?_, ?_, ?_, fun t ht => ?_, rfl⟩
  · rw [armed, start_list_eq hm, enqueue, mem_insertWhere, modify_list]
    by_cases ht : t = c
    · simp [ht]
    · simp [ht, List.mem_erase_of_ne ht]
  · rw [armed, start_timer]
  · rw [armed, start_timer, TimerList.modify_self]
  · rw [armed, start_timer_of_ne _ ht, TimerList.modify_of_ne _ _ ht]

/-! ### Leaving the processor -/

section Park

variable (h : Sound idle now now d k) (hc : k.current = some c) (hr : (k.thread c).stat = .running)

include h hr

omit [DecidableEq τ] in
theorem running_free : Free k c := free_of_sound h (level_eq_ready.mpr (Or.inr hr))

omit [DecidableEq τ] in
theorem running_object : (k.thread c).type = .thread := live_object h (by rw [hr]; decide)

omit [DecidableEq τ] in
theorem running_disarmed : c ∉ k.timers.list ∧ (k.timers.timer c).activated = false := by
  have hn : c ∉ k.timers.list := by
    intro hm
    have := lvl_suspend.mp (h.asleep c hm)
    rw [hr] at this
    exact absurd this (by decide)
  refine ⟨hn, ?_⟩
  by_contra ha
  exact hn ((h.armed c).mp (by simpa using ha))

include hc

theorem suspend_spec : ∃ table group, let k' : Os τ μ := { k with
      thread := Function.update k.thread c { k.thread c with stat := .suspend }, table, group }
    rtThreadSuspend c k = some (RT_EOK, k') ∧ Queues none k' := by
  obtain ⟨table, group, he, hq⟩ := leave_spec h.queues hr (running_free h hr)
    (fun th => { th with stat := .suspend }) (by simp) rfl rfl
  refine ⟨table, group, ?_, hq⟩
  have hoff : (((rtScheduleRemoveThread c k).modify c fun th =>
      { th with stat := .suspend }).timers.timer c).activated = false := by
    rw [modify_timers, remove_timers]
    exact (running_disarmed h hr).2
  unfold rtThreadSuspend
  rw [if_pos ⟨running_object h hr, hc⟩, if_neg (by simp [hr])]
  dsimp only
  rw [rtTimerStop, if_pos hoff]
  exact congrArg (fun x => some (RT_EOK, x)) he

theorem park_sound (hidle : c ≠ idle) (hq : Queues none k')
    (hs : ∀ u, (k'.thread u).stat = if u = c then .suspend else (k.thread u).stat)
    (hty : ∀ u, (k'.thread u).type = (k.thread u).type) (hcur : k'.current = k.current)
    (hlock : k'.lockNest = k.lockNest)
    (hw : ∀ m u, u ∈ k'.waiting m → u ≠ c → u ∈ k.waiting m) (hn : ∀ m, (k'.waiting m).Nodup)
    (hdef : k'.defunct = k.defunct) {d' : τ → ℕ} (hg : Good now now d' k'.timers)
    (hother : ∀ u, u ≠ c → k'.timers.timer u = k.timers.timer u ∧
      (u ∈ k'.timers.list ↔ u ∈ k.timers.list))
    (hact : (k'.timers.timer c).activated = true ↔ c ∈ k'.timers.list)
    (hper : (k'.timers.timer c).periodic = false) : Sound idle now now d' k' := by
  have hself : (k'.thread c).stat = .suspend := by rw [hs, if_pos rfl]
  refine move_sound h c hq (fun u hu => by rw [hs, if_neg hu]) (by rw [hr]; decide) hty hcur hlock
    (fun hx => ?_) (fun _ => ?_) (fun hx => absurd hx hidle) (fun m u hu => ?_) hn (fun u hu => ?_)
    hg hother hact hper fun _ => lvl_suspend.mpr hself
  · exact hc
  · rw [hself]
    decide
  · split_ifs with huc
    · exact lvl_suspend.mpr hself
    · exact hw m u hu huc
  · rw [hdef] at hu
    split_ifs with huc
    · exact absurd (huc ▸ hu) (running_free h hr).2
    · exact hu

theorem sleep_spec (hidle : c ≠ idle) {n : U32} (hn : n < TICK_HALF) :
    ∃ table group, let k' : Os τ μ := { k with
        thread := Function.update k.thread c { k.thread c with error := RT_EOK, stat := .suspend }
        timers := armed c n k.timers
        table, group }
      rtThreadSleep n k = some k' ∧ Sound idle now now (Function.update d c (now + n.toNat)) k' := by
  let k₁ := k.modify c fun th => { th with error := RT_EOK }
  have h₁ : Sound idle now now d k₁ := modify_sound h rfl rfl rfl rfl
  have hth₁ : k₁.thread c = { k.thread c with error := RT_EOK } := ReadyQueue.modify_self ..
  obtain ⟨table, group, hk₂, hq₂⟩ := suspend_spec h₁ hc (by
    rw [hth₁]
    exact hr)
  obtain ⟨hg, hl, ha, hp, hother, -⟩ := armed_spec (c := c) h.timers hn
  rw [hth₁] at hk₂ hq₂
  have hth : Function.update k₁.thread c { k.thread c with error := RT_EOK, stat := .suspend } =
      Function.update k.thread c { k.thread c with error := RT_EOK, stat := .suspend } := by
    simp only [k₁, Os.modify, Function.update_idem]
  rw [hth] at hk₂ hq₂
  refine ⟨table, group, ?_, ?_⟩
  · refine Option.bind_eq_some_iff.mpr ⟨c, hc, ?_⟩
    rw [if_neg (not_not.mpr (running_object h hr))]
    refine Option.bind_eq_some_iff.mpr ⟨_, hk₂, ?_⟩
    exact Option.bind_eq_some_iff.mpr ⟨(_, none), if_pos hn, rfl⟩
  apply park_sound h hc hr hidle
  · exact Queues.congr hq₂ rfl rfl rfl
  · intro u
    by_cases hu : u = c
    · simp [hu]
    · simp [hu]
  · intro u
    by_cases hu : u = c
    · simp [hu]
    · simp [hu]
  · rfl
  · rfl
  · exact fun m u hu _ => hu
  · exact h.nodup
  · rfl
  · exact hg
  · intro u hu
    refine ⟨hother u hu, ?_⟩
    rw [hl]
    simp [hu]
  · rw [hl]
    simp [ha]
  · rw [hp]
    exact h.oneshot c

end Park

/-! ### `rt_mutex_take` -/

section Take

variable [DecidableEq μ] (h : Sound idle now now d k) (hc : k.current = some c)
  (hr : (k.thread c).stat = .running) (m : μ) (time : ℤ)

/-- Thread `o` gets the priority of `c`, if that is higher. -/
def boost (c o : τ) (thread : τ → Thread) : τ → Thread :=
  if (thread c).currentPriority < (thread o).currentPriority then
    Function.update thread o { thread o with
      currentPriority := (thread c).currentPriority
      numberMask := (1 : U32) <<< (thread c).currentPriority.toNat }
  else thread

theorem boost_fields (c o : τ) (thread : τ → Thread) (u : τ) :
    (boost c o thread u).stat = (thread u).stat ∧ (boost c o thread u).error = (thread u).error ∧
      (boost c o thread u).type = (thread u).type ∧ (u ≠ o → boost c o thread u = thread u) := by
  unfold boost
  split_ifs
  · by_cases hu : u = o
    · subst hu
      simp
    · simp [hu]
  · exact ⟨rfl, rfl, rfl, fun _ => rfl⟩

theorem boost_update {c o : τ} (hoc : o ≠ c) {thread : τ → Thread} {x : Thread}
    (hx : x.currentPriority = (thread c).currentPriority) :
    boost c o (Function.update thread c x) = Function.update (boost c o thread) c x := by
  unfold boost
  rw [Function.update_self, Function.update_of_ne hoc, hx]
  split_ifs
  · exact Function.update_comm hoc.symm ..
  · rfl

omit [DecidableEq μ] in
theorem boost_spec (h : Sound idle now now d k) {o : τ} (hoc : o ≠ c) (hc : k.current = some c)
    (hobj : (k.thread c).currentPriority < (k.thread o).currentPriority →
      (k.thread o).type = .thread) :
    ∃ table group, let k' : Os τ μ := { k with thread := boost c o k.thread, table, group }
      (if (k.thread c).currentPriority < (k.thread o).currentPriority then
        rtThreadControl o (k.thread c).currentPriority k else some k) = some k' ∧
      Sound idle now now d k' := by
  by_cases hlt : (k.thread c).currentPriority < (k.thread o).currentPriority
  · obtain ⟨table, group, he, hq⟩ := control_spec (t := o) h.queues (hobj hlt) (h.queues.prio c)
      fun hs => ⟨fun ho => hoc (Option.some.inj (ho.symm.trans hc)),
        free_of_sound h (level_eq_ready.mpr (Or.inl hs))⟩
    have hth : boost c o k.thread = Function.update k.thread o { k.thread o with
        currentPriority := (k.thread c).currentPriority
        numberMask := (1 : U32) <<< (k.thread c).currentPriority.toNat } := if_pos hlt
    rw [if_pos hlt, hth]
    refine ⟨table, group, he, stat_sound h hq (fun u => ?_) (fun u => ?_) rfl rfl rfl rfl rfl⟩
    · by_cases hu : u = o
      · simp [hu]
      · simp [hu]
    · by_cases hu : u = o
      · simp [hu]
      · simp [hu]
  · have hth : boost c o k.thread = k.thread := if_neg hlt
    rw [if_neg hlt, hth]
    exact ⟨k.table, k.group, rfl, h⟩

omit [DecidableEq μ] in
theorem take_error (h : Sound idle now now d k) (e : ℤ) :
    Sound idle now now d (k.modify c fun th => { th with error := e }) :=
  modify_sound h rfl rfl rfl rfl

omit [DecidableEq τ] in
theorem setMutex_sound (h : Sound idle now now d k) (x : Mutex τ) :
    Sound idle now now d (setMutex m x k) :=
  stat_sound h (Queues.congr h.queues rfl rfl rfl) (fun _ => rfl) (fun _ => rfl) rfl rfl rfl rfl rfl

theorem take_own (hl : k.lockNest = 0) (hc : k.current = some c)
    (ho : (k.mutex m).owner = some c) :
    rtMutexTake m time k = some (if (k.mutex m).hold < RT_MUTEX_HOLD_MAX then
        (setMutex m { k.mutex m with hold := (k.mutex m).hold + 1 }
          (k.modify c fun th => { th with error := RT_EOK }), some RT_EOK)
      else (k.modify c fun th => { th with error := RT_EOK }, some (-RT_EFULL))) := by
  unfold rtMutexTake
  simp only [hl, ne_eq, not_true_eq_false, if_false, hc, Option.bind_eq_bind, Option.bind_some,
    modify_mutex, ho, if_true]
  split_ifs <;> rfl

theorem take_free (hl : k.lockNest = 0) (hc : k.current = some c)
    (ho : (k.mutex m).owner = none) (hv : (k.mutex m).value = 1) (hh : (k.mutex m).hold = 0) :
    rtMutexTake m time k = some (setMutex m { k.mutex m with
        value := 0
        owner := some c
        originalPriority := (k.thread c).currentPriority
        hold := 1 } (k.modify c fun th => { th with error := RT_EOK }), some RT_EOK) := by
  unfold rtMutexTake
  simp only [hl, ne_eq, not_true_eq_false, if_false, hc, Option.bind_eq_bind, Option.bind_some,
    modify_mutex, ho, reduceCtorEq, hv, hh]
  simp [RT_MUTEX_HOLD_MAX]

theorem take_busy (hl : k.lockNest = 0) (hc : k.current = some c)
    (ho : (k.mutex m).owner ≠ some c) (hv : (k.mutex m).value = 0) :
    rtMutexTake m 0 k = some (k.modify c fun th => { th with error := -RT_ETIMEOUT },
      some (-RT_ETIMEOUT)) := by
  unfold rtMutexTake
  simp only [hl, ne_eq, not_true_eq_false, if_false, hc, Option.bind_eq_bind, Option.bind_some,
    modify_mutex, ho, hv]
  simp [Os.modify]

theorem take_waits (hl : k.lockNest = 0) (hc : k.current = some c) {o : τ} (hoc : o ≠ c)
    (ho : (k.mutex m).owner = some o) (hv : (k.mutex m).value = 0) (ht : time ≠ 0) :
    rtMutexTake m time k =
      (let k := k.modify c fun th => { th with error := RT_EOK }
      if (k.thread c).currentPriority < (k.thread o).currentPriority then
        rtThreadControl o (k.thread c).currentPriority k else some k).bind fun k =>
      (ipcListSuspend m c k).bind fun k =>
        if 0 < time then
          (rtTimerControl c (.setTime (BitVec.ofInt 32 time)) k.timers).bind fun p =>
            some (k.setTimers (rtTimerStart c p.1), none)
        else some (k, none) := by
  have hne : ¬ (some o = some c) := fun he => hoc (Option.some.inj he)
  unfold rtMutexTake
  simp only [hl, ne_eq, not_true_eq_false, if_false, hc, Option.bind_eq_bind, Option.bind_some,
    modify_mutex, ho, hne, hv, BitVec.lt_irrefl, ht, Option.pure_def]

/-- The priority cannot be lent to an owner that has been detached. -/
theorem take_asserts (hl : k.lockNest = 0) (hc : k.current = some c) {o : τ} (hoc : o ≠ c)
    (ho : (k.mutex m).owner = some o) (hv : (k.mutex m).value = 0) (ht : time ≠ 0)
    (hlt : (k.thread c).currentPriority < (k.thread o).currentPriority)
    (hobj : (k.thread o).type ≠ .thread) : rtMutexTake m time k = none := by
  rw [take_waits m time hl hc hoc ho hv ht]
  simp only [ReadyQueue.modify_self, ReadyQueue.modify_of_ne _ _ hoc, hlt, if_true]
  rw [rtThreadControl, ReadyQueue.modify_of_ne _ _ hoc, if_neg hobj, Option.bind_none]

theorem ofInt_ticks {time : ℤ} (h : 0 < time) (hlt : time < 2147483647) :
    (BitVec.ofInt 32 time : U32) < TICK_HALF ∧ (BitVec.ofInt 32 time : U32).toNat = time.toNat := by
  have h1 : (BitVec.ofInt 32 time : U32).toNat = time.toNat := by
    rw [BitVec.toNat_ofInt]
    omega
  refine ⟨?_, h1⟩
  rw [BitVec.lt_def, h1, half_toNat]
  omega

theorem timed_spec {tm : Timers τ} (h : Good now now d tm)
    (ha : (tm.timer c).activated = true ↔ c ∈ tm.list) {time : ℤ} (hlt : time < 2147483647) :
    let tm' := if 0 < time then armed c (BitVec.ofInt 32 time) tm else tm
    Good now now (if 0 < time then Function.update d c (now + time.toNat) else d) tm' ∧
      (∀ u, u ≠ c → tm'.timer u = tm.timer u ∧ (u ∈ tm'.list ↔ u ∈ tm.list)) ∧
      ((tm'.timer c).activated = true ↔ c ∈ tm'.list) ∧
      (tm'.timer c).periodic = (tm.timer c).periodic := by
  by_cases htime : 0 < time
  · simp only [htime, if_true]
    obtain ⟨hfit, hnat⟩ := ofInt_ticks htime hlt
    obtain ⟨hg, hl, hact, hp, hother, -⟩ := armed_spec (c := c) h hfit
    rw [hnat] at hg
    refine ⟨hg, fun u hu => ⟨hother u hu, ?_⟩, ?_, hp⟩
    · rw [hl]
      simp [hu]
    · rw [hl]
      simp [hact]
  · simp [htime, h, ha]

theorem blocked_fields {thread : τ → Thread} {o : τ} (u : τ) :
    (Function.update (boost c o thread) c
      { thread c with error := RT_EOK, stat := .suspend } u).stat =
        (if u = c then .suspend else (thread u).stat) ∧
    (Function.update (boost c o thread) c
      { thread c with error := RT_EOK, stat := .suspend } u).type = (thread u).type := by
  obtain ⟨hstat, -, htype, -⟩ := boost_fields c o thread u
  by_cases hu : u = c
  · simp [hu]
  · rw [Function.update_of_ne hu, if_neg hu]
    exact ⟨hstat, htype⟩

theorem take_blocks (h : Sound idle now now d k) (hc : k.current = some c)
    (hr : (k.thread c).stat = .running) (hidle : c ≠ idle) {o : τ} (hoc : o ≠ c)
    (ho : (k.mutex m).owner = some o) (hv : (k.mutex m).value = 0) (ht : time ≠ 0)
    (hlt : time < 2147483647) (hobj : (k.thread c).currentPriority < (k.thread o).currentPriority →
      (k.thread o).type = .thread) :
    ∃ table group,
      let thread := Function.update (boost c o k.thread) c
        { k.thread c with error := RT_EOK, stat := .suspend }
      let k' : Os τ μ := { k with
        thread, table, group
        timers := if 0 < time then armed c (BitVec.ofInt 32 time) k.timers else k.timers
        waiting := Function.update k.waiting m (insertWhere
          (fun s => (thread c).currentPriority < (thread s).currentPriority) c (k.waiting m)) }
      rtMutexTake m time k = some (k', none) ∧
        Sound idle now now (if 0 < time then Function.update d c (now + time.toNat) else d) k' := by
  let k₁ := k.modify c fun th => { th with error := RT_EOK }
  have h₁ : Sound idle now now d k₁ := take_error h RT_EOK
  have hth₁ : k₁.thread c = { k.thread c with error := RT_EOK } := ReadyQueue.modify_self ..
  have hth₁' : k₁.thread o = k.thread o := ReadyQueue.modify_of_ne _ _ hoc
  obtain ⟨table₁, group₁, hk₂, h₂⟩ := boost_spec h₁ hoc hc (by
    rw [hth₁, hth₁']
    exact hobj)
  have hb : boost c o k₁.thread c = { k.thread c with error := RT_EOK } :=
    ((boost_fields c o k₁.thread c).2.2.2 hoc.symm).trans hth₁
  obtain ⟨table, group, hk₃, hq₃⟩ := suspend_spec h₂ hc (by
    change (boost c o k₁.thread c).stat = _
    rw [hb]
    exact hr)
  simp only [hb] at hk₃ hq₃
  have hth : Function.update (boost c o k₁.thread) c
      { k.thread c with error := RT_EOK, stat := .suspend } =
      Function.update (boost c o k.thread) c
        { k.thread c with error := RT_EOK, stat := .suspend } := by
    simp only [k₁, Os.modify]
    rw [boost_update (x := { k.thread c with error := RT_EOK }) hoc rfl, Function.update_idem]
  rw [hth] at hk₃ hq₃
  refine ⟨table, group, ?_, ?_⟩
  · refine (take_waits m time h.unlocked hc hoc ho hv ht).trans
      (Option.bind_eq_some_iff.mpr ⟨_, hk₂, ?_⟩)
    refine Option.bind_eq_some_iff.mpr ⟨_, Option.bind_eq_some_iff.mpr ⟨_, hk₃, rfl⟩, ?_⟩
    by_cases htime : 0 < time
    · rw [if_pos htime]
      refine Option.bind_eq_some_iff.mpr ⟨(_, none), if_pos (ofInt_ticks htime hlt).1, ?_⟩
      simp only [htime, if_true]
      rfl
    · simp only [htime, if_false]
      rfl
  · obtain ⟨hg, hother, hact, hper⟩ := timed_spec (c := c) h.timers (h.armed c) hlt
    apply park_sound h hc hr hidle
    · exact Queues.congr hq₃ rfl rfl rfl
    · exact fun u => (blocked_fields u).1
    · exact fun u => (blocked_fields u).2
    · rfl
    · rfl
    · exact fun _ u hu huc => (mem_update_insertWhere.mp hu).resolve_left fun hx => huc hx.1
    · exact nodup_update_insertWhere h.nodup ((running_free h hr).1 m)
    · rfl
    · exact hg
    · exact hother
    · exact hact
    · exact hper.trans (h.oneshot c)

end Take

/-! ### `rt_mutex_release` -/

section Release

variable [DecidableEq μ] (m : μ)

theorem release_foreign (hc : k.current = some c) (ho : (k.mutex m).owner ≠ some c) :
    rtMutexRelease m k = some (k.modify c fun th => { th with error := -RT_ERROR },
      some (-RT_ERROR)) := by
  unfold rtMutexRelease
  simp only [hc, Option.bind_eq_bind, Option.bind_some, ne_eq, ho, not_false_eq_true, if_true]
  rfl

theorem release_nested (hc : k.current = some c) (ho : (k.mutex m).owner = some c)
    (hh : (k.mutex m).hold ≠ 1) : rtMutexRelease m k =
      some (setMutex m { k.mutex m with hold := (k.mutex m).hold - 1 } k, some RT_EOK) := by
  have hne : ¬ (k.mutex m).hold - 1 = 0 := by
    intro he
    exact hh (by bv_omega)
  unfold rtMutexRelease
  simp only [hc, Option.bind_eq_bind, Option.bind_some, ne_eq, ho, not_true_eq_false, if_false,
    setMutex, Function.update_self, hne]
  rfl

/-- The owner of mutex `m`, thread `c`, with the priority it had when it took it. -/
def restored (c : τ) (orig : U8) (thread : τ → Thread) : τ → Thread :=
  Function.update thread c { thread c with
    currentPriority := orig, numberMask := (1 : U32) <<< orig.toNat }

omit [DecidableEq μ] in
theorem restored_fields (c : τ) (orig : U8) (thread : τ → Thread) (u : τ) :
    (restored c orig thread u).stat = (thread u).stat ∧
      (restored c orig thread u).error = (thread u).error ∧
      (restored c orig thread u).type = (thread u).type ∧
      (u ≠ c → restored c orig thread u = thread u) := by
  unfold restored
  by_cases hu : u = c
  · subst hu
    simp
  · simp [hu]

omit [DecidableEq μ] in
theorem restore_spec (h : Sound idle now now d k)
    (hr : (k.thread c).stat = .running) {orig : U8} (hp : orig.toNat < 32) :
    ∃ table group, let k' : Os τ μ := { k with thread := restored c orig k.thread, table, group }
      (if orig ≠ (k.thread c).currentPriority then rtThreadControl c orig k else some k) = some k' ∧
      Sound idle now now d k' := by
  by_cases he : orig = (k.thread c).currentPriority
  · have hth : restored c orig k.thread = k.thread := by
      have hm := h.queues.mask c (by rw [hr]; decide)
      rw [Os.prio, ← he] at hm
      rw [restored, ← hm, he, Function.update_eq_self]
    rw [if_neg (not_not.mpr he), hth]
    exact ⟨k.table, k.group, rfl, h⟩
  · obtain ⟨table, group, hk, hq⟩ := control_spec (t := c) h.queues (running_object h hr) hp
      fun hs => absurd (hs.symm.trans hr) (by decide)
    rw [if_pos he]
    have hf := restored_fields c orig k.thread
    exact ⟨table, group, hk, stat_sound h hq (fun u => (hf u).1) (fun u => (hf u).2.2.1) rfl rfl rfl
      rfl rfl⟩

omit [DecidableEq μ] in
theorem stop_spec (h : Sound idle now now d k) (t : τ) :
    let tm := (rtTimerStop t k.timers).2
    Good now now d tm ∧ tm.list = k.timers.list.erase t ∧
      ((tm.timer t).activated = false ∧ (tm.timer t).periodic = false) ∧
      (∀ u, u ≠ t → tm.timer u = k.timers.timer u) ∧
      (k.timers.expiring = [] → tm.expiring = []) := by
  intro tm
  by_cases ha : (k.timers.timer t).activated = false
  · have htm : tm = k.timers := congrArg Prod.snd (if_pos ha)
    have hn : t ∉ k.timers.list := fun hm => by
      rw [(h.armed t).mpr hm] at ha
      exact absurd ha (by decide)
    rw [htm]
    exact ⟨h.timers, (List.erase_of_not_mem hn).symm, ⟨ha, h.oneshot t⟩, fun _ _ => rfl, id⟩
  · have htm : tm = (timerRemove t k.timers).modify t fun x => { x with activated := false } :=
      congrArg Prod.snd (if_neg ha)
    rw [htm]
    refine ⟨remove_good h.timers t rfl, rfl, ⟨?_, ?_⟩, fun u hu => ?_, fun he => ?_⟩
    · rw [TimerList.modify_self]
    · rw [TimerList.modify_self]
      exact h.oneshot t
    · rw [TimerList.modify_of_ne _ _ hu]
      rfl
    · simp [he]

omit [DecidableEq μ] in
theorem resume_spec (h : Sound idle now now d k) (hs : (k.thread t).stat = .suspend)
    (hc : k.current ≠ some t) :
    ∃ table group, let k' : Os τ μ := { k with
        thread := Function.update k.thread t { k.thread t with stat := .ready }
        timers := (rtTimerStop t k.timers).2
        waiting := fun m => (k.waiting m).erase t
        table, group }
      rtThreadResume t k = some (RT_EOK, k') ∧ Sound idle now now d k' := by
  obtain ⟨hg, hl, hoff, hother, -⟩ := stop_spec h t
  have hd : k.defunct.erase t = k.defunct := List.erase_of_not_mem fun hm => by
    have := lvl_close.mp (h.defunct t hm)
    rw [hs] at this
    exact absurd this (by decide)
  obtain ⟨table, group, he, hq⟩ := wake_spec
    (k := k.setTimers (rtTimerStop t k.timers).2) (t := t) (setTimers_queues h.queues _) hs
  simp only [setTimers_current, hc, if_false] at he hq
  refine ⟨table, group, ?_, ?_⟩
  · have hobj : (k.thread t).type = .thread := live_object h (by rw [hs]; decide)
    unfold rtThreadResume
    rw [if_pos hobj, if_neg (not_not.mpr hs)]
    refine congrArg (fun x => some (RT_EOK, x)) (he.trans ?_)
    simp only [Os.setTimers, hd]
  · exact And.left (wake_sound h hs { k.thread t with stat := .ready } rfl (if_neg hc).symm
      (Queues.congr hq rfl rfl rfl) rfl rfl rfl (fun _ => rfl) hd.symm hg hl hoff hother)

theorem release_last (hc : k.current = some c) (ho : (k.mutex m).owner = some c)
    (hh : (k.mutex m).hold = 1) {k₂ : Os τ μ}
    (hk : (if (k.mutex m).originalPriority ≠ (k.thread c).currentPriority then
      rtThreadControl c (k.mutex m).originalPriority (setMutex m { k.mutex m with hold := 0 } k)
      else some (setMutex m { k.mutex m with hold := 0 } k)) = some k₂) :
    rtMutexRelease m k = match k₂.waiting m with
      | next :: _ =>
        let mutex : Mutex τ := { k₂.mutex m with
          owner := some next
          originalPriority := (k₂.thread next).currentPriority }
        if mutex.hold < RT_MUTEX_HOLD_MAX then
          (rtThreadResume next (setMutex m { mutex with hold := mutex.hold + 1 } k₂)).bind
            fun p => some (p.2, none)
        else some (setMutex m mutex k₂, some (-RT_EFULL))
      | [] =>
        if (k₂.mutex m).value < RT_MUTEX_VALUE_MAX then
          let mutex : Mutex τ := { k₂.mutex m with
            value := (k₂.mutex m).value + 1, owner := none, originalPriority := 0xFF }
          some (setMutex m mutex k₂, some RT_EOK)
        else some (k₂, some (-RT_EFULL)) := by
  have hz : (k.mutex m).hold - 1 = 0 := by
    rw [hh]
    rfl
  unfold rtMutexRelease
  simp only [hc, Option.bind_eq_bind, Option.bind_some, ne_eq, ho, not_true_eq_false, if_false,
    setMutex, Function.update_self, hz, if_true]
  simp only [setMutex, ne_eq, hc, ho] at hk
  rw [hk]
  rfl

/-- The priority is restored before the mutex goes on. -/
theorem release_restores (h : Sound idle now now d k) (hr : (k.thread c).stat = .running)
    (hp : (k.mutex m).originalPriority.toNat < 32) :
    ∃ table group, let k' : Os τ μ := { setMutex m { k.mutex m with hold := 0 } k with
        thread := restored c (k.mutex m).originalPriority k.thread, table, group }
      (if (k.mutex m).originalPriority ≠ (k.thread c).currentPriority then
        rtThreadControl c (k.mutex m).originalPriority (setMutex m { k.mutex m with hold := 0 } k)
        else some (setMutex m { k.mutex m with hold := 0 } k)) = some k' ∧
      Sound idle now now d k' :=
  restore_spec (setMutex_sound m h _) hr hp

/-- **The mutex is free again.** -/
theorem release_frees (h : Sound idle now now d k) (hc : k.current = some c)
    (hr : (k.thread c).stat = .running) (ho : (k.mutex m).owner = some c)
    (hh : (k.mutex m).hold = 1) (hv : (k.mutex m).value = 0)
    (hp : (k.mutex m).originalPriority.toNat < 32) (hw : k.waiting m = []) :
    ∃ table group, let k' : Os τ μ := { k with
        thread := restored c (k.mutex m).originalPriority k.thread
        mutex := Function.update k.mutex m mutexInit
        table, group }
      rtMutexRelease m k = some (k', some RT_EOK) ∧ Sound idle now now d k' := by
  obtain ⟨table, group, hk, hs⟩ := release_restores m h hr hp
  have he := release_last m hc ho hh hk
  simp only [setMutex, hw, Function.update_self, hv] at he
  refine ⟨table, group, he.trans ?_, stat_sound hs (Queues.congr hs.queues rfl rfl rfl)
    (fun _ => rfl) (fun _ => rfl) rfl rfl rfl rfl rfl⟩
  simp [RT_MUTEX_VALUE_MAX, mutexInit]

/-- **The mutex goes to the first thread that waits**, which is ready again. -/
theorem release_hands (h : Sound idle now now d k) (hc : k.current = some c)
    (hr : (k.thread c).stat = .running) (ho : (k.mutex m).owner = some c)
    (hh : (k.mutex m).hold = 1) (hp : (k.mutex m).originalPriority.toNat < 32) {next : τ}
    {rest : List τ} (hw : k.waiting m = next :: rest) :
    ∃ table group, let k' : Os τ μ := { k with
        thread := Function.update (restored c (k.mutex m).originalPriority k.thread) next
          { k.thread next with stat := .ready }
        mutex := Function.update k.mutex m { k.mutex m with
          owner := some next
          originalPriority := (k.thread next).currentPriority
          hold := 1 }
        waiting := fun m => (k.waiting m).erase next
        timers := (rtTimerStop next k.timers).2
        table, group }
      rtMutexRelease m k = some (k', none) ∧ Sound idle now now d k' := by
  obtain ⟨table, group, hk, hs⟩ := release_restores m h hr hp
  have hsus : (k.thread next).stat = .suspend :=
    lvl_suspend.mp (h.waiting m next (hw ▸ List.mem_cons_self))
  have hne : next ≠ c := by
    rintro rfl
    rw [hr] at hsus
    exact absurd hsus (by decide)
  have hth : restored c (k.mutex m).originalPriority k.thread next = k.thread next :=
    (restored_fields c _ k.thread next).2.2.2 hne
  have he := release_last m hc ho hh hk
  simp only [setMutex, hw, Function.update_self, hth] at he
  rw [if_pos (by decide)] at he
  have hs' := setMutex_sound m hs { k.mutex m with
    owner := some next, originalPriority := (k.thread next).currentPriority, hold := 0 + 1 }
  obtain ⟨table', group', hk', hs''⟩ := resume_spec hs' (t := next)
    ((congrArg Thread.stat hth).trans hsus)
    (fun hcur => hne (Option.some.inj (hcur.symm.trans hc)))
  simp only [setMutex, Function.update_idem, hth] at hk'
  refine ⟨table', group', ?_, ?_⟩
  · simp only [Function.update_idem] at he
    rw [he, hk']
    rfl
  · simp only [setMutex, Function.update_idem, hth] at hs''
    exact hs''

end Release

/-! ### Starting and ending a thread -/

/-- A thread as `rt_thread_startup` leaves it. -/
def started (th : Thread) : Thread :=
  { th with
    numberMask := (1 : U32) <<< th.currentPriority.toNat, yield := false, stat := .ready }

/-- `rt_thread_startup` up to `rt_schedule`, also before the scheduler has started. -/
theorem startup_eq (h : Queues none k) (hi : (k.thread t).stat = .init)
    (hobj : (k.thread t).type = .thread) (hoff : (k.timers.timer t).activated = false)
    (hf : Free k t) (hc : k.current ≠ some t) :
    ∃ table group, let k' : Os τ μ := { k with
        thread := Function.update k.thread t (started (k.thread t)), table, group }
      rtThreadStartup t k = some k' ∧ Queues none k' := by
  let f : Thread → Thread := fun th =>
    { th with numberMask := (1 : U32) <<< th.currentPriority.toNat, stat := .suspend, yield := false }
  let k₁ := k.modify t f
  have hth₁ : k₁.thread t = f (k.thread t) := ReadyQueue.modify_self ..
  have hs₁ : (k₁.thread t).stat = .suspend := by rw [hth₁]
  have hout : Queues (some t) k := (queues_out (by rw [hi]; decide)).mp h
  have hq₁ : Queues none k₁ := (queues_out (t := t) (by rw [hs₁]; decide)).mpr
    (modify_queues hout (h.prio t) fun _ => rfl)
  have hw : (fun m => (k₁.waiting m).erase t) = k.waiting :=
    funext fun m => List.erase_of_not_mem (hf.1 m)
  have hd : k₁.defunct.erase t = k.defunct := List.erase_of_not_mem hf.2
  obtain ⟨table, group, he, hq⟩ := wake_spec hq₁ hs₁
  have hc₁ : ¬ k₁.current = some t := hc
  have hth : Function.update k₁.thread t { k₁.thread t with
      stat := if k₁.current = some t then .running else .ready } =
      Function.update k.thread t (started (k.thread t)) := by
    rw [if_neg hc₁, hth₁]
    simp only [k₁, Os.modify, Function.update_idem]
    rfl
  rw [hth, hw, hd] at he hq
  refine ⟨table, group, ?_, Queues.congr hq rfl rfl rfl⟩
  have hstop : (rtTimerStop t k₁.timers).2 = k₁.timers := congrArg Prod.snd (if_pos hoff)
  have hf₂ : (k.modify t fun th => { th with
      numberMask := (1 : U32) <<< th.currentPriority.toNat }).modify t
      (fun th => { th with stat := .suspend, yield := false }) = k₁ := by
    simp [Os.modify, k₁, f]
  have hun : (unlink t k₁).timers = k₁.timers := rfl
  unfold rtThreadStartup
  rw [if_pos ⟨hi, hobj⟩]
  dsimp only
  rw [hf₂, rtThreadResume, if_pos (show (k₁.thread t).type = .thread from hth₁ ▸ hobj),
    if_neg (not_not.mpr hs₁)]
  dsimp only
  rw [hun, hstop]
  exact congrArg some he

theorem startup_sound (h : Sound idle now now d k) (hi : (k.thread t).stat = .init)
    (hc : k.current ≠ some t) :
    ∃ table group, let k' : Os τ μ := { k with
        thread := Function.update k.thread t (started (k.thread t)), table, group }
      rtThreadStartup t k = some k' ∧ Sound idle now now d k' := by
  have hl : lvl k t = .init := lvl_init.mpr hi
  have hw : ∀ m, t ∉ k.waiting m := fun m hm => by
    have := h.waiting m t hm
    rw [hl] at this
    exact absurd this (by decide)
  have hd : t ∉ k.defunct := fun hm => by
    have := h.defunct t hm
    rw [hl] at this
    exact absurd this (by decide)
  have hn : t ∉ k.timers.list := fun hm => by
    have := h.asleep t hm
    rw [hl] at this
    exact absurd this (by decide)
  have hoff : (k.timers.timer t).activated = false := by
    by_contra ha
    exact hn ((h.armed t).mp (by simpa using ha))
  have hobj : (k.thread t).type = .thread := live_object h (by rw [hi]; decide)
  obtain ⟨table, group, he, hq⟩ := startup_eq h.queues hi hobj hoff ⟨hw, hd⟩ hc
  refine ⟨table, group, he, ?_⟩
  apply move_sound h t hq
  · exact fun u hu => by simp [hu]
  · rw [hi]
    decide
  · intro u
    by_cases hu : u = t
    · simp [hu, started]
    · simp [hu]
  · rfl
  · rfl
  · simp [started]
  · exact fun hcur => absurd hcur hc
  · simp [lvl, started, level]
  · intro m u hu
    rw [if_neg fun hut : u = t => hw m (hut ▸ hu)]
    exact hu
  · exact h.nodup
  · intro u hu
    rw [if_neg fun hut : u = t => hd (hut ▸ hu)]
    exact hu
  · exact h.timers
  · exact fun u _ => ⟨rfl, Iff.rfl⟩
  · exact h.armed t
  · exact h.oneshot t
  · exact fun hm => absurd hm hn

theorem exit_spec (h : Sound idle now now d k) (hc : k.current = some c)
    (hr : (k.thread c).stat = .running) (hidle : c ≠ idle) :
    ∃ table group tm, let k' : Os τ μ := { k with
        thread := Function.update k.thread c { k.thread c with stat := .close, yield := false }
        timers := tm
        defunct := c :: k.defunct
        table, group }
      threadExit k = some k' ∧ Sound idle now now d k' ∧ tm.list = k.timers.list ∧
        (k.timers.expiring = [] → tm.expiring = []) := by
  obtain ⟨hn, hoff⟩ := running_disarmed h hr
  obtain ⟨table, group, he, hq⟩ := leave_spec h.queues hr (running_free h hr)
    (fun th => { th with stat := .close, yield := false }) (by simp) rfl rfl
  have htm : (rtTimerDetach c k.timers).list = k.timers.list := List.erase_of_not_mem hn
  have hgood : Good now now d (rtTimerDetach c k.timers) :=
    remove_good h.timers c (f := fun t => { t with activated := false }) rfl
  have hself : (rtTimerDetach c k.timers).timer c = { k.timers.timer c with activated := false } :=
    TimerList.modify_self ..
  have hother : ∀ u, u ≠ c → (rtTimerDetach c k.timers).timer u = k.timers.timer u := fun u hu =>
    TimerList.modify_of_ne (timerRemove c k.timers) (fun t => { t with activated := false }) hu
  refine ⟨table, group, rtTimerDetach c k.timers, ?_, ?_, htm, fun hidle => ?_⟩
  · refine Option.bind_eq_some_iff.mpr ⟨c, hc, ?_⟩
    have hrem : (rtScheduleRemoveThread c k).timers = k.timers := remove_timers ..
    dsimp only
    rw [hrem]
    exact congrArg (fun x => some (rtThreadDefunctEnqueue c
      (x.setTimers (rtTimerDetach c k.timers)))) he
  · apply move_sound h c
    · exact Queues.congr hq rfl rfl rfl
    · exact fun u hu => by simp [hu]
    · rw [hr]
      decide
    · intro u
      by_cases hu : u = c
      · simp [hu]
      · simp [hu]
    · rfl
    · rfl
    · simp
    · simp
    · exact fun hci => absurd hci hidle
    · intro m u hu
      rw [if_neg fun huc : u = c => (running_free h hr).1 m (huc ▸ hu)]
      exact hu
    · exact h.nodup
    · intro u hu
      split_ifs with huc
      · simp [lvl, level]
      · exact (List.mem_cons.mp hu).resolve_left huc
    · exact hgood
    · exact fun u hu => ⟨hother u hu, List.mem_erase_of_ne hu⟩
    · rw [hself, htm]
      exact ⟨by simp, fun hm => absurd hm hn⟩
    · rw [hself]
      exact h.oneshot c
    · intro hm
      rw [htm] at hm
      exact absurd hm hn
  · simp [rtTimerDetach, hidle]

end RtosExample.Kernel.Calls
