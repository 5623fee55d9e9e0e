import RtosExample.Kernel.Books

/-! # The books are kept

* `step_iff`: of the steps that callers may take, only a `rt_mutex_take` can fail, which is to lend
  the caller's priority to an owner that has ended and been cleared away (`Lendable`);
* `step_ledger`, `runs_ledger`: each step leaves the system in order, and so does a run.

Between them one theorem for each call and each way through it, which also says what the call does
that others care about: who gets the mutex, and what is returned. -/

namespace RtosExample.Kernel.Bookkeeping

open RtosExample.Cint RtosExample.Lib.Queue RtosExample.Lib.Runs RtosExample.Kernel.TimerList
open RtosExample.Kernel.Deadlines RtosExample.Kernel.Sched RtosExample.Kernel.Mutex
open RtosExample.Kernel.ReadyQueue RtosExample.Kernel.Dispatch RtosExample.Kernel.Effects
open RtosExample.Kernel.Invariant RtosExample.Kernel.Tick RtosExample.Kernel.Calls
open RtosExample.Kernel.System RtosExample.Kernel.Books

variable {τ μ : Type} [DecidableEq τ] [DecidableEq μ] {idle c t : τ} {s s' : Sys τ μ}

/-! ### A thread calls -/

theorem seat_same (h : SeatOk (seat s t)) (hl : lvl s'.os t = lvl s.os t)
    (he : (s'.os.thread t).error = (s.os.thread t).error) (hp : s'.pc t = s.pc t)
    (hw : ∀ m, t ∈ s'.os.waiting m ↔ t ∈ s.os.waiting m)
    (ha : t ∈ s'.os.timers.list ↔ t ∈ s.os.timers.list)
    (ho : ∀ m, owns (s'.os.mutex m) t = owns (s.os.mutex m) t)
    (hd : ∀ m, depth t m s'.history = depth t m s.history) : SeatOk (seat s' t) := by
  have hs : seat s' t = seat s t := by simp only [seat, hl, he, hp, ho, hd, hw, ha]
  exact hs ▸ h

/-- The thread that calls the kernel runs, and nothing is known of it but what it owns. -/
theorem caller (h : Ledger idle s) (hc : s.os.current = some c) (hp : s.pc c = .user) :
    (s.os.thread c).stat = .running ∧ (∀ m, c ∉ s.os.waiting m) ∧ c ∉ s.os.timers.list ∧
      ∀ m, depth c m s.history = owns (s.os.mutex m) c := by
  have hl : lvl s.os c = .ready := (h.current c hc).resolve_right fun ⟨call, hcall⟩ => by
    rw [hp] at hcall
    cases hcall
  have hr : (s.os.thread c).stat = .running := by
    obtain ⟨c', hc', hr⟩ := h.sound.current
    obtain rfl := Option.some.inj (hc'.symm.trans hc)
    exact (level_eq_ready.mp hl).resolve_left hr
  refine ⟨hr, (running_free h.sound hr).1, (running_disarmed h.sound hr).1, fun m => ?_⟩
  refine (h.seats c).depth m ?_
  simp [seat, hp, Pc.call]

theorem depth_call (u : τ) (call : Call τ μ) (l : List (Event τ μ)) (t : τ) (m : μ) :
    depth t m (.call u call :: l) =
      if u = t ∧ call = .release m then depth t m l - 1 else depth t m l := by
  cases call with
  | release m' => simp only [depth, Call.release.injEq]
  | _ => simp [depth]

theorem depth_ret (u : τ) (call : Call τ μ) (r : ℤ) (l : List (Event τ μ)) (t : τ) (m : μ) :
    depth t m (.ret u call r :: l) =
      if u = t ∧ aim call = some m ∧ r = RT_EOK then depth t m l + 1 else depth t m l := by
  cases call with
  | take m' time => simp only [depth, aim, Option.some.injEq]
  | _ => simp [depth, aim]

theorem returns_ledger (h : Ledger idle s) (hc : s.os.current = some c) (hp : s.pc c = .user)
    {k : Os τ μ} {l : List (Event τ μ)} (hs : Sound idle s.clock s.clock s.deadline k)
    (hcur : k.current = s.os.current) (hlvl : ∀ u, lvl k u = lvl s.os u)
    (herr : ∀ u, u ≠ c → (k.thread u).error = (s.os.thread u).error)
    (hw : k.waiting = s.os.waiting) (htm : k.timers = s.os.timers)
    (hown : ∀ u, u ≠ c → ∀ m, owns (k.mutex m) u = owns (s.os.mutex m) u)
    (hdep : ∀ u, u ≠ c → ∀ m, depth u m l = depth u m s.history)
    (hself : ∀ m, depth c m l = owns (k.mutex m) c)
    (hm : ∀ m, MutexOk (k.mutex m) (s.os.waiting m)) :
    Ledger idle { s with os := k, history := l } := by
  obtain ⟨hr, hcw, hct, -⟩ := caller h hc hp
  refine ⟨hs, htm ▸ h.expiring, fun c' hc' => ?_, fun u => ?_, fun m => ?_⟩
  · rw [hlvl]
    exact h.current c' (hcur ▸ hc')
  · by_cases hu : u = c
    · subst hu
      refine seat_plain ?_ ?_ (fun m => ?_) ?_ hself
      · simp only [seat, hp, Pc.call, Plain]
      · exact (hlvl u).trans (level_eq_ready.mpr (Or.inr hr))
      · simp only [seat, hw]
        exact hcw m
      · simp only [seat, htm]
        exact hct
    · exact seat_same (h.seats u) (hlvl u) (herr u hu) rfl (fun m => by rw [hw]) (by rw [htm])
        (hown u hu) (hdep u hu)
  · change MutexOk (k.mutex m) (k.waiting m)
    rw [hw]
    exact hm m

omit [DecidableEq μ] in
theorem modify_lvl {k : Os τ μ} {f : Thread → Thread} (hs : (f (k.thread c)).stat = (k.thread c).stat)
    (u : τ) : lvl (k.modify c f) u = lvl k u := by
  by_cases hu : u = c
  · subst hu
    rw [lvl, ReadyQueue.modify_self, hs, lvl]
  · rw [lvl, ReadyQueue.modify_of_ne _ _ hu, lvl]

/-- A call that returns an error, and leaves the mutexes alone. -/
theorem error_ledger (h : Ledger idle s) (hc : s.os.current = some c) (hp : s.pc c = .user) (e : ℤ)
    {l : List (Event τ μ)} (hl : ∀ u m, depth u m l = depth u m s.history) :
    Ledger idle { s with os := s.os.modify c fun th => { th with error := e }, history := l } :=
  returns_ledger h hc hp (take_error h.sound e) rfl (modify_lvl rfl)
    (fun u hu => by rw [ReadyQueue.modify_of_ne _ _ hu]) rfl rfl (fun _ _ _ => rfl)
    (fun u _ m => hl u m) (fun m => (hl c m).trans ((caller h hc hp).2.2.2 m)) h.mutexes

theorem mutex_ledger (h : Ledger idle s) (hc : s.os.current = some c) (hp : s.pc c = .user) {m : μ}
    {x : Mutex τ} {k : Os τ μ} {l : List (Event τ μ)}
    (hs : Sound idle s.clock s.clock s.deadline k) (hcur : k.current = s.os.current)
    (hlvl : ∀ u, lvl k u = lvl s.os u)
    (herr : ∀ u, u ≠ c → (k.thread u).error = (s.os.thread u).error)
    (hw : k.waiting = s.os.waiting) (htm : k.timers = s.os.timers)
    (hk : k.mutex = Function.update s.os.mutex m x) (hx : MutexOk x (s.os.waiting m))
    (hown : ∀ u, u ≠ c → owns x u = owns (s.os.mutex m) u)
    (hdep : ∀ u m', (u = c → m' ≠ m) → depth u m' l = depth u m' s.history)
    (hself : depth c m l = owns x c) : Ledger idle { s with os := k, history := l } := by
  refine returns_ledger h hc hp hs hcur hlvl herr hw htm (fun u hu m' => ?_)
    (fun u hu m' => hdep u m' fun he => absurd he hu) (fun m' => ?_) fun m' => ?_
  · by_cases hm : m' = m
    · subst hm
      rw [hk, Function.update_self]
      exact hown u hu
    · rw [hk, Function.update_of_ne hm]
  · by_cases hm : m' = m
    · subst hm
      rw [hk, Function.update_self]
      exact hself
    · rw [hk, Function.update_of_ne hm, hdep c m' fun _ => hm]
      exact (caller h hc hp).2.2.2 m'
  · by_cases hm : m' = m
    · subst hm
      rw [hk, Function.update_self]
      exact hx
    · rw [hk, Function.update_of_ne hm]
      exact h.mutexes m'

theorem depth_take (r : ℤ) (m : μ) (time : ℤ) (l : List (Event τ μ)) (u : τ) (m' : μ) :
    depth u m' (.ret c (.take m time) r :: .call c (.take m time) :: l) =
      if c = u ∧ m = m' ∧ r = RT_EOK then depth u m' l + 1 else depth u m' l := by
  rw [depth_ret, depth_call]
  simp [aim]

theorem depth_release (r : ℤ) (m : μ) (l : List (Event τ μ)) (u : τ) (m' : μ) :
    depth u m' (.ret c (.release m) r :: .call c (.release m) :: l) =
      if c = u ∧ m = m' then depth u m' l - 1 else depth u m' l := by
  rw [depth_ret, depth_call]
  simp [aim]

/-- **`rt_mutex_take` that returns at once.** -/
theorem take_returns (h : Ledger idle s) (hc : s.os.current = some c) (hp : s.pc c = .user) (m : μ)
    (time : ℤ) (hfree : (∃ o, (s.os.mutex m).owner = some o ∧ o ≠ c) → time = 0) :
    ∃ k r, rtMutexTake m time s.os = some (k, some r) ∧ Ledger idle { s with
      os := k, history := .ret c (.take m time) r :: .call c (.take m time) :: s.history } := by
  have hlock := h.sound.unlocked
  have hm := h.mutexes m
  have hd := (caller h hc hp).2.2.2 m
  have hmod : ∀ u, u ≠ c → ((s.os.modify c fun th => { th with error := RT_EOK }).thread u).error =
      (s.os.thread u).error := fun u hu => by rw [ReadyQueue.modify_of_ne _ _ hu]
  have hlvl : ∀ u, lvl (s.os.modify c fun th => { th with error := RT_EOK }) u = lvl s.os u :=
    modify_lvl rfl
  rcases ho : (s.os.mutex m).owner with _ | o
  · -- free
    obtain ⟨hx, hw⟩ := mutexOk_none hm ho
    refine ⟨_, _, take_free m time hlock hc ho (by rw [hx]; rfl) (by rw [hx]; rfl),
      mutex_ledger h hc hp (setMutex_sound m (take_error h.sound RT_EOK) _) rfl hlvl
        hmod rfl rfl rfl ?_ (fun u hu => ?_) (fun u m' hne => ?_) ?_⟩
    · exact ⟨rfl, show (1 : U8) ≠ 0 by decide, h.sound.queues.prio c⟩
    · simp [owns, ho, Ne.symm hu]
    · rw [depth_take, if_neg]
      rintro ⟨rfl, rfl, -⟩
      exact hne rfl rfl
    · rw [depth_take, if_pos ⟨rfl, rfl, rfl⟩, hd]
      simp [owns, ho]
  by_cases hoc : o = c
  · subst hoc
    obtain ⟨hv, hh, hpr⟩ := mutexOk_some hm ho
    by_cases hlt : (s.os.mutex m).hold < RT_MUTEX_HOLD_MAX
    · -- once more
      have hnat : ((s.os.mutex m).hold + 1).toNat = (s.os.mutex m).hold.toNat + 1 := by
        have hlt' : (s.os.mutex m).hold.toNat < 255 := hlt
        rw [BitVec.toNat_add]
        simp
        omega
      refine ⟨_, _, (take_own m time hlock hc ho).trans (by rw [if_pos hlt]),
        mutex_ledger h hc hp (setMutex_sound m (take_error h.sound RT_EOK) _) rfl hlvl
          hmod rfl rfl rfl ?_ (fun u hu => ?_) (fun u m' hne => ?_) ?_⟩
      · simp only [MutexOk, ho]
        exact ⟨hv, fun hz => by rw [hz] at hnat; simp at hnat, hpr⟩
      · simp [owns, ho, Ne.symm hu]
      · rw [depth_take, if_neg]
        rintro ⟨rfl, rfl, -⟩
        exact hne rfl rfl
      · rw [depth_take, if_pos ⟨rfl, rfl, rfl⟩, hd]
        simp only [owns, ho, if_true, hnat]
    · refine ⟨_, _, (take_own m time hlock hc ho).trans (by rw [if_neg hlt]),
        error_ledger h hc hp _ fun u m' => ?_⟩
      rw [depth_take, if_neg]
      rintro ⟨-, -, hr⟩
      exact absurd hr (by decide)
  · -- not free
    obtain rfl := hfree ⟨o, ho, hoc⟩
    have hne : (s.os.mutex m).owner ≠ some c := fun he => hoc (Option.some.inj (ho.symm.trans he))
    refine ⟨_, _, take_busy m hlock hc hne (mutexOk_some hm ho).1,
      error_ledger h hc hp _ fun u m' => ?_⟩
    rw [depth_take, if_neg]
    rintro ⟨-, -, hr⟩
    exact absurd hr (by decide)

omit [DecidableEq τ] [DecidableEq μ] in
theorem lvl_eq {k k' : Os τ μ} (h : (k'.thread t).stat = (k.thread t).stat) : lvl k' t = lvl k t := by
  rw [lvl, h, lvl]

/-- **`rt_mutex_release` that returns at once.** -/
theorem release_returns (h : Ledger idle s) (hc : s.os.current = some c) (hp : s.pc c = .user)
    (m : μ) (hn : (s.os.mutex m).owner = some c → (s.os.mutex m).hold = 1 → s.os.waiting m = []) :
    ∃ k r, rtMutexRelease m s.os = some (k, some r) ∧ Ledger idle { s with
      os := k, history := .ret c (.release m) r :: .call c (.release m) :: s.history } := by
  have hm := h.mutexes m
  obtain ⟨hr, -, -, hdep⟩ := caller h hc hp
  have hd := hdep m
  by_cases ho : (s.os.mutex m).owner = some c
  · obtain ⟨hv, hh, hpr⟩ := mutexOk_some hm ho
    by_cases hone : (s.os.mutex m).hold = 1
    · -- for the last time
      obtain ⟨table, group, hk, hs⟩ := release_frees m h.sound hc hr ho hone hv hpr (hn ho hone)
      refine ⟨_, _, hk, mutex_ledger (m := m) h hc hp hs rfl (fun u => lvl_eq ?_) (fun u hu => ?_) rfl
        rfl rfl ?_ (fun u hu => ?_) (fun u m' hne => ?_) ?_⟩
      · exact (restored_fields c _ s.os.thread u).1
      · exact (restored_fields c _ s.os.thread u).2.1
      · rw [hn ho hone]
        exact mutexOk_init
      · simp [owns, ho, Ne.symm hu, mutexInit]
      · rw [depth_release, if_neg]
        rintro ⟨rfl, rfl⟩
        exact hne rfl rfl
      · rw [depth_release, if_pos ⟨rfl, rfl⟩, hd]
        simp [owns, ho, mutexInit, hone]
    · -- it has been taken more than once
      have hnat : ((s.os.mutex m).hold - 1).toNat = (s.os.mutex m).hold.toNat - 1 := by
        have hpos : (s.os.mutex m).hold.toNat ≠ 0 := fun hz => hh (BitVec.eq_of_toNat_eq hz)
        bv_omega
      refine ⟨_, _, release_nested m hc ho hone, mutex_ledger (m := m) h hc hp
        (setMutex_sound m h.sound _) rfl (fun _ => rfl) (fun _ _ => rfl) rfl rfl rfl ?_
        (fun u hu => ?_) (fun u m' hne => ?_) ?_⟩
      · simp only [MutexOk, ho]
        exact ⟨hv, fun hz => hone (by bv_omega), hpr⟩
      · simp [owns, ho, Ne.symm hu]
      · rw [depth_release, if_neg]
        rintro ⟨rfl, rfl⟩
        exact hne rfl rfl
      · rw [depth_release, if_pos ⟨rfl, rfl⟩, hd]
        simp only [owns, ho, if_true, hnat]
  · -- it is not the owner
    refine ⟨_, _, release_foreign m hc ho, error_ledger h hc hp _ fun u m' => ?_⟩
    rw [depth_release]
    split_ifs with he
    · obtain ⟨rfl, rfl⟩ := he
      rw [hd, owns, if_neg ho]
    · rfl

theorem parks_ledger (h : Ledger idle s) (hc : s.os.current = some c) (hp : s.pc c = .user)
    {call : Call τ μ} (hcall : (∃ m time, call = .take m time) ∨ ∃ n, call = .sleep n)
    {k : Os τ μ} {d : τ → ℕ} (hs : Sound idle s.clock s.clock d k)
    (he : k.timers.expiring = []) (hcur : k.current = s.os.current)
    (hself : (k.thread c).stat = .suspend ∧ (k.thread c).error = RT_EOK)
    (hother : ∀ u, u ≠ c → (k.thread u).stat = (s.os.thread u).stat ∧
      (k.thread u).error = (s.os.thread u).error)
    (hmx : k.mutex = s.os.mutex)
    (hw : ∀ m u, u ∈ k.waiting m ↔ u = c ∧ aim call = some m ∨ u ∈ s.os.waiting m)
    (hl : ∀ u, u ∈ k.timers.list ↔ u = c ∧ call.ticks.isSome ∨ u ∈ s.os.timers.list)
    (hown : ∀ m, aim call = some m → ∃ o, (s.os.mutex m).owner = some o ∧ o ≠ c) :
    Ledger idle { s with
      os := k, history := .call c call :: s.history, pc := Function.update s.pc c (.sched call),
      deadline := d } := by
  obtain ⟨-, hcw, hct, hdep⟩ := caller h hc hp
  have hd : ∀ u m, depth u m (.call c call :: s.history) = depth u m s.history := by
    intro u m
    rw [depth_call, if_neg]
    rintro ⟨-, rfl⟩
    rcases hcall with ⟨_, _, hx⟩ | ⟨_, hx⟩ <;> exact absurd hx (by simp)
  refine ⟨hs, he, fun c' hc' => ?_, fun u => ?_, fun m => ?_⟩
  · obtain rfl := Option.some.inj (hc.symm.trans (hcur.symm.trans hc'))
    exact Or.inr ⟨call, Function.update_self ..⟩
  · by_cases hu : u = c
    · subst hu
      refine seat_parked ?_ hcall (lvl_suspend.mpr hself.1) hself.2 (fun m => ?_) ?_
        (fun m hm => ?_) fun m => ?_
      · simp only [seat, Function.update_self, Pc.call]
      · simp only [seat, hw, true_and]
        exact or_iff_left (hcw m)
      · simp only [seat, hl, true_and]
        exact or_iff_left hct
      · obtain ⟨o, ho, hou⟩ := hown m hm
        simp only [seat, hmx, owns, ho, Option.some.injEq, hou, if_false]
      · simp only [seat, hmx, hd]
        exact hdep m
    · refine seat_same (h.seats u) (lvl_eq (hother u hu).1) (hother u hu).2
        (Function.update_of_ne hu ..) (fun m => ?_) ?_ (fun m => by rw [hmx]) (hd u)
      · rw [hw]
        simp [hu]
      · rw [hl]
        simp [hu]
  · change MutexOk (k.mutex m) (k.waiting m)
    rw [hmx]
    have hm := h.mutexes m
    rcases ho : (s.os.mutex m).owner with _ | o
    · obtain ⟨hx, hnil⟩ := mutexOk_none hm ho
      have hk : k.waiting m = [] := by
        refine List.eq_nil_iff_forall_not_mem.mpr fun u hu => ?_
        rcases (hw m u).mp hu with ⟨-, haim⟩ | hmem
        · obtain ⟨o, ho', -⟩ := hown m haim
          rw [ho] at ho'
          exact absurd ho' (by simp)
        · rw [hnil] at hmem
          exact absurd hmem List.not_mem_nil
      rw [hk, hx]
      exact mutexOk_init
    · simpa only [MutexOk, ho] using mutexOk_some hm ho

theorem take_parks (h : Ledger idle s) (hc : s.os.current = some c) (hp : s.pc c = .user)
    (hidle : c ≠ idle) (m : μ) {time : ℤ} (ht : time ≠ 0) (hlt : time < 2147483647) {o : τ}
    (ho : (s.os.mutex m).owner = some o) (hoc : o ≠ c)
    (hobj : (s.os.thread c).currentPriority < (s.os.thread o).currentPriority →
      (s.os.thread o).type = .thread) :
    ∃ k, rtMutexTake m time s.os = some (k, none) ∧ Ledger idle { s with
      os := k
      history := .call c (.take m time) :: s.history
      pc := Function.update s.pc c (.sched (.take m time))
      deadline := (Call.ticks (τ := τ) (.take m time)).elim s.deadline fun n =>
        Function.update s.deadline c (s.clock + n) } := by
  obtain ⟨hr, -, -, -⟩ := caller h hc hp
  obtain ⟨table, group, hk, hs⟩ := take_blocks m time h.sound hc hr hidle hoc ho
    (mutexOk_some (h.mutexes m) ho).1 ht hlt hobj
  have hd : (Call.ticks (τ := τ) (.take m time)).elim s.deadline
      (fun n => Function.update s.deadline c (s.clock + n)) =
      if 0 < time then Function.update s.deadline c (s.clock + time.toNat) else s.deadline := by
    by_cases htime : 0 < time
    · simp [Call.ticks, htime]
    · simp [Call.ticks, htime]
  rw [hd]
  refine ⟨_, hk, parks_ledger h hc hp (Or.inl ⟨m, time, rfl⟩) hs ?_ rfl ?_ (fun u hu => ?_) rfl
    (fun m' u => ?_) (fun u => ?_) fun m' hm' => ?_⟩
  · by_cases htime : 0 < time
    · simp only [htime, if_true]
      exact (armed_spec h.sound.timers (ofInt_ticks htime hlt).1).2.2.2.2.2.trans
        (by simp [h.expiring])
    · simp only [htime, if_false]
      exact h.expiring
  · simp
  · simp only [Function.update_of_ne hu]
    exact ⟨(boost_fields c o s.os.thread u).1, (boost_fields c o s.os.thread u).2.1⟩
  · by_cases hm : m' = m
    · subst hm
      simp only [Function.update_self, mem_insertWhere]
      simp [aim]
    · simp only [Function.update_of_ne hm]
      simp [aim, Ne.symm hm]
  · by_cases htime : 0 < time
    · simp only [htime, if_true]
      rw [(armed_spec h.sound.timers (ofInt_ticks htime hlt).1).2.1]
      simp [Call.ticks, htime]
    · simp [htime, Call.ticks]
  · obtain rfl : m = m' := by simpa [aim] using hm'
    exact ⟨o, ho, hoc⟩

theorem sleep_parks (h : Ledger idle s) (hc : s.os.current = some c) (hp : s.pc c = .user)
    (hidle : c ≠ idle) {n : U32} (hn : n < TICK_HALF) :
    ∃ k, rtThreadSleep n s.os = some k ∧ (k.thread c).stat = .suspend ∧ Ledger idle { s with
      os := k
      history := .call c (.sleep n) :: s.history
      pc := Function.update s.pc c (.sched (.sleep n))
      deadline := Function.update s.deadline c (s.clock + n.toNat) } := by
  obtain ⟨hr, -, -, -⟩ := caller h hc hp
  obtain ⟨table, group, hk, hs⟩ := sleep_spec h.sound hc hr hidle hn
  obtain ⟨-, hl, -, -, -, he⟩ := armed_spec (c := c) h.sound.timers hn
  refine ⟨_, hk, by simp, parks_ledger h hc hp (Or.inr ⟨n, rfl⟩) hs ?_ rfl ?_ (fun u hu => ?_) rfl
    (fun m u => ?_) (fun u => ?_) fun m hm => absurd hm nofun⟩
  · exact he.trans (by simp [h.expiring])
  · simp
  · simp [hu]
  · simp [aim]
  · rw [hl]
    simp [Call.ticks]

theorem release_passes (h : Ledger idle s) (hc : s.os.current = some c) (hp : s.pc c = .user)
    {m : μ} (ho : (s.os.mutex m).owner = some c) (hone : (s.os.mutex m).hold = 1) {next : τ}
    {rest : List τ} (hw : s.os.waiting m = next :: rest) :
    ∃ k, rtMutexRelease m s.os = some (k, none) ∧ (k.mutex m).owner = some next ∧
      lvl k next = .ready ∧ Ledger idle { s with
        os := k
        history := .call c (.release m) :: s.history
        pc := Function.update s.pc c (.sched (.release m)) } := by
  obtain ⟨hr, hcw, hct, hdep⟩ := caller h hc hp
  obtain ⟨hv, -, hpr⟩ := mutexOk_some (h.mutexes m) ho
  obtain ⟨table, group, hk, hs⟩ := release_hands m h.sound hc hr ho hone hpr hw
  obtain ⟨-, hl, -, -, he⟩ := stop_spec h.sound next
  have hsus : lvl s.os next = .suspend := h.sound.waiting m next (hw ▸ List.mem_cons_self)
  have hne : next ≠ c := by
    rintro rfl
    rw [lvl_suspend, hr] at hsus
    exact absurd hsus (by decide)
  have hd : ∀ u m', depth u m' (.call c (.release m) :: s.history) =
      if u = c ∧ m' = m then depth u m' s.history - 1 else depth u m' s.history := by
    intro u m'
    rw [depth_call]
    simp only [Call.release.injEq, eq_comm]
  have hmem : ∀ m' u, u ∈ (s.os.waiting m').erase next ↔ u ≠ next ∧ u ∈ s.os.waiting m' :=
    fun m' u => (h.sound.nodup m').mem_erase_iff
  have hlist : ∀ u, u ∈ (rtTimerStop next s.os.timers).2.list ↔
      u ≠ next ∧ u ∈ s.os.timers.list := by
    intro u
    rw [hl, h.sound.timers.nodup.mem_erase_iff]
  refine ⟨_, hk, ?_, ?_, hs, he h.expiring, fun c' hc' => ?_, fun u => ?_, fun m' => ?_⟩
  · simp
  · simp [lvl, level]
  · obtain rfl := Option.some.inj (hc.symm.trans hc')
    exact Or.inr ⟨.release m, Function.update_self ..⟩
  · by_cases huc : u = c
    · subst huc
      have hstat := (restored_fields u (s.os.mutex m).originalPriority s.os.thread u).1
      refine seat_plain ?_ ?_ (fun m' => ?_) ?_ fun m' => ?_
      · simp only [seat, Function.update_self, Pc.call, Plain]
      · simp only [seat, lvl, Function.update_of_ne hne.symm, hstat, hr, level]
      · simp only [seat, hmem]
        exact fun hx => hcw m' hx.2
      · simp only [seat, hlist]
        exact fun hx => hct hx.2
      · simp only [seat, hd, true_and]
        by_cases hm : m' = m
        · subst hm
          rw [if_pos rfl, hdep]
          simp [owns, ho, hone, hne]
        · rw [if_neg hm, hdep]
          simp [owns, hm]
    · by_cases hun : u = next
      · subst hun
        refine seat_given (m := m) (h.seats u) ?_ ?_ ?_ ?_ (fun m' => ?_) ?_ ?_ (fun m' hm => ?_) ?_
        · simp only [seat, hw]
          exact List.mem_cons_self
        · simp [seat, lvl, level]
        · simp [seat]
        · simp only [seat, Function.update_of_ne huc]
        · simp only [seat, hmem]
          exact fun hx => hx.1 rfl
        · simp only [seat, hlist]
          exact fun hx => hx.1 rfl
        · simp [seat, owns]
        · simp [seat, hm]
        · funext m'
          simp only [seat, hd, huc, false_and, if_false]
      · have hsame := (restored_fields c (s.os.mutex m).originalPriority s.os.thread u).2.2.2 huc
        refine seat_same (h.seats u) (lvl_eq ?_) ?_ (Function.update_of_ne huc ..) (fun m' => ?_) ?_
          (fun m' => ?_) fun m' => ?_
        · simp only [Function.update_of_ne hun, hsame]
        · simp only [Function.update_of_ne hun, hsame]
        · simp only [hmem, ne_eq, hun, not_false_eq_true, true_and]
        · simp only [hlist, ne_eq, hun, not_false_eq_true, true_and]
        · by_cases hm : m' = m
          · subst hm
            simp [owns, ho, Ne.symm huc, Ne.symm hun]
          · simp [hm]
        · simp only [hd, huc, false_and, if_false]
  · by_cases hm : m' = m
    · subst hm
      simp only [Function.update_self, MutexOk]
      exact ⟨hv, by decide, h.sound.queues.prio next⟩
    · simp only [Function.update_of_ne hm]
      exact mutexOk_mono (h.mutexes m') List.erase_sublist

theorem depth_other {call : Call τ μ} (hcall : ∀ m, call ≠ .release m)
    (l : List (Event τ μ)) (u : τ) (m : μ) : depth u m (.call c call :: l) = depth u m l := by
  rw [depth_call, if_neg fun hx => hcall m hx.2]

theorem startup_starts (h : Ledger idle s) (hc : s.os.current = some c) (hp : s.pc c = .user)
    (hi : (s.os.thread t).stat = .init) :
    ∃ k, rtThreadStartup t s.os = some k ∧ Ledger idle { s with
      os := k
      history := .call c (.startup t) :: s.history
      pc := Function.update s.pc c (.sched (.startup t)) } := by
  obtain ⟨hr, hcw, hct, hdep⟩ := caller h hc hp
  have htc : t ≠ c := by
    rintro rfl
    rw [hr] at hi
    exact absurd hi (by decide)
  obtain ⟨table, group, hk, hs⟩ := startup_sound h.sound hi
    (fun hx => htc (Option.some.inj (hx.symm.trans hc)))
  have hd : ∀ u m, depth u m (.call c (.startup t) :: s.history) = depth u m s.history :=
    fun u m => depth_other (by simp) _ u m
  refine ⟨_, hk, hs, h.expiring, fun c' hc' => ?_, fun u => ?_, h.mutexes⟩
  · obtain rfl := Option.some.inj (hc.symm.trans hc')
    exact Or.inr ⟨_, Function.update_self ..⟩
  · by_cases hu : u = c
    · subst hu
      refine seat_plain ?_ ?_ hcw hct fun m => (hd u m).trans (hdep m)
      · simp only [seat, Function.update_self, Pc.call, Plain]
      · simp only [seat, lvl, Function.update_of_ne htc.symm, hr, level]
    · by_cases hut : u = t
      · subst hut
        have hok := h.seats u
        have hlu : (seat s u).level = .init := lvl_init.mpr hi
        have hb : Pc.call (s.pc u) = none := by
          have hf := hok.fits
          rw [hlu] at hf
          exact hf
        refine seat_plain ?_ ?_ (fun m hm => ?_) (fun hm => ?_) fun m => ?_
        · simp only [seat, Function.update_of_ne hu, hb, Plain]
        · simp [seat, lvl, started, level]
        · have := ((hok.waits m).mp hm).1
          rw [hlu] at this
          exact absurd this (by decide)
        · have := (hok.armed.mp hm).1
          rw [hlu] at this
          exact absurd this (by decide)
        · refine (hd u m).trans (hok.depth m ?_)
          simp [seat, hb]
      · exact seat_same (h.seats u) (lvl_eq (by simp [hut])) (by simp [hut])
          (Function.update_of_ne hu ..) (fun _ => Iff.rfl) Iff.rfl (fun _ => rfl) (hd u)

theorem exit_ends (h : Ledger idle s) (hc : s.os.current = some c) (hp : s.pc c = .user)
    (hidle : c ≠ idle) :
    ∃ k, threadExit s.os = some k ∧ Ledger idle { s with
      os := k
      history := .call c .exit :: s.history
      pc := Function.update s.pc c (.sched .exit) } := by
  obtain ⟨hr, hcw, hct, hdep⟩ := caller h hc hp
  obtain ⟨table, group, tm, hk, hs, hl, he⟩ := exit_spec h.sound hc hr hidle
  have hd : ∀ u m, depth u m (.call c .exit :: s.history) = depth u m s.history :=
    fun u m => depth_other (by simp) _ u m
  refine ⟨_, hk, hs, he h.expiring, fun c' hc' => ?_, fun u => ?_, h.mutexes⟩
  · obtain rfl := Option.some.inj (hc.symm.trans hc')
    exact Or.inr ⟨_, Function.update_self ..⟩
  · by_cases hu : u = c
    · subst hu
      refine seat_closed ?_ ?_ hcw ?_ fun m => (hd u m).trans (hdep m)
      · simp only [seat, Function.update_self, Pc.call]
      · simp [seat, lvl, level]
      · simp only [seat, hl]
        exact hct
    · exact seat_same (h.seats u) (lvl_eq (by simp [hu])) (by simp [hu])
        (Function.update_of_ne hu ..) (fun _ => Iff.rfl) (by rw [hl]) (fun _ => rfl) (hd u)

theorem schedule_ledger (h : Ledger idle s) (hc : s.os.current = some c) {call : Call τ μ}
    (hpc : s.pc c = .sched call) : ∃ k c', rtSchedule s.os = some k ∧ Switch s.os k c c' ∧
      Ledger idle { s with os := k, pc := Function.update s.pc c (.after call) } := by
  obtain ⟨k, c', hk, hw, hs⟩ := schedule_sound h.sound hc
  refine ⟨k, c', hk, hw, hs, (congrArg Timers.expiring hw.timers).trans h.expiring,
    fun c₁ hc₁ => Or.inl ?_, ?_, fun m => ?_⟩
  · obtain rfl := Option.some.inj (hw.current.symm.trans hc₁)
    exact level_eq_ready.mpr (Or.inr hw.running)
  · refine rouses_seats h.seats (switch_rouses hw) (fun _ => False.elim) rfl (fun u => ?_) rfl
    by_cases hu : u = c
    · subst hu
      simp [Pc.call, hpc]
    · simp [hu]
  · change MutexOk (k.mutex m) (k.waiting m)
    rw [hw.mutex, hw.waiting]
    exact h.mutexes m

theorem yield_yields (h : Ledger idle s) (hc : s.os.current = some c) (hp : s.pc c = .user) :
    ∃ k k₁ c', rtThreadYield s.os = some k ∧ k₁ = s.os.modify c (fun th =>
        { th with remainingTick := th.initTick, yield := true }) ∧ Switch k₁ k c c' ∧
      Ledger idle { s with
        os := k
        history := .call c .yield :: s.history
        pc := Function.update s.pc c (.after .yield) } := by
  obtain ⟨hr, hcw, hct, hdep⟩ := caller h hc hp
  obtain ⟨hs₁, hr₁⟩ := slice_sound (t := c) h.sound
    (fun th => { th with remainingTick := th.initTick, yield := true })
    fun _ => ⟨rfl, rfl, rfl, rfl, rfl⟩
  obtain ⟨k, c', hk, hw, hs⟩ := schedule_sound hs₁ hc
  have hro := hr₁.trans (switch_rouses hw)
  have hd : ∀ u m, depth u m (.call c .yield :: s.history) = depth u m s.history :=
    fun u m => depth_other (by simp) _ u m
  have htm : k.timers = s.os.timers := hw.timers
  have hwait : k.waiting = s.os.waiting := hw.waiting
  refine ⟨k, _, c', Option.bind_eq_some_iff.mpr ⟨c, hc, hk⟩, rfl, hw, hs, htm ▸ h.expiring,
    fun c₁ hc₁ => Or.inl ?_, fun u => ?_, fun m => ?_⟩
  · obtain rfl := Option.some.inj (hw.current.symm.trans hc₁)
    exact level_eq_ready.mpr (Or.inr hw.running)
  · obtain ⟨hl, he⟩ := hro.same u (by simp)
    by_cases hu : u = c
    · subst hu
      refine seat_plain ?_ ?_ (fun m => ?_) ?_ fun m => ?_
      · simp only [seat, Function.update_self, Pc.call, Plain]
      · exact hl.trans (level_eq_ready.mpr (Or.inr hr))
      · simp only [seat, hwait]
        exact hcw m
      · simp only [seat, htm]
        exact hct
      · simp only [seat, hro.mutex]
        exact (hd u m).trans (hdep m)
    · exact seat_same (h.seats u) hl he (Function.update_of_ne hu ..) (fun m => by rw [hwait])
        (by rw [htm]) (fun m => by rw [hro.mutex]) (hd u)
  · change MutexOk (k.mutex m) (k.waiting m)
    rw [hro.mutex, hwait]
    exact h.mutexes m

/-! ### A call returns -/

theorem after_ready (h : Ledger idle s) (hc : s.os.current = some c) {call : Call τ μ}
    (hp : s.pc c = .after call) : lvl s.os c = .ready := by
  refine (h.current c hc).resolve_right ?_
  rintro ⟨call', hcall⟩
  rw [hp] at hcall
  cases hcall

theorem back_ledger (h : Ledger idle s) (hc : s.os.current = some c) {call : Call τ μ}
    (hpc : s.pc c = .after call) {k : Os τ μ} {l : List (Event τ μ)}
    (hs : Sound idle s.clock s.clock s.deadline k) (hcur : k.current = s.os.current)
    (hstat : ∀ u, (k.thread u).stat = (s.os.thread u).stat)
    (herr : ∀ u, u ≠ c → (k.thread u).error = (s.os.thread u).error)
    (hw : k.waiting = s.os.waiting) (htm : k.timers = s.os.timers) (hm : k.mutex = s.os.mutex)
    (hdep : ∀ u, u ≠ c → ∀ m, depth u m l = depth u m s.history)
    (hself : ∀ m, depth c m l = owns (s.os.mutex m) c) :
    Ledger idle { s with os := k, pc := Function.update s.pc c .user, history := l } := by
  have hl := after_ready h hc hpc
  have hr : (s.os.thread c).stat = .running := by
    obtain ⟨c', hc', hr⟩ := h.sound.current
    obtain rfl := Option.some.inj (hc'.symm.trans hc)
    exact (level_eq_ready.mp hl).resolve_left hr
  refine ⟨hs, htm ▸ h.expiring, fun c' hc' => ?_, fun u => ?_, fun m => ?_⟩
  · obtain rfl := Option.some.inj (hc.symm.trans (hcur.symm.trans hc'))
    exact Or.inl ((lvl_eq (hstat c)).trans hl)
  · by_cases hu : u = c
    · subst hu
      refine seat_plain ?_ ?_ (fun m => ?_) ?_ fun m => ?_
      · simp only [seat, Function.update_self, Pc.call, Plain]
      · exact (lvl_eq (hstat u)).trans hl
      · simp only [seat, hw]
        exact (running_free h.sound hr).1 m
      · simp only [seat, htm]
        exact (running_disarmed h.sound hr).1
      · simp only [seat, hm]
        exact hself m
    · exact seat_same (h.seats u) (lvl_eq (hstat u)) (herr u hu) (Function.update_of_ne hu ..)
        (fun m => by rw [hw]) (by rw [htm]) (fun m => by rw [hm]) (hdep u hu)
  · change MutexOk (k.mutex m) (k.waiting m)
    rw [hm, hw]
    exact h.mutexes m

theorem depth_back {u : τ} (hu : u ≠ c) (call : Call τ μ) (r : ℤ) (m : μ) :
    depth u m (.ret c call r :: s.history) = depth u m s.history := by
  rw [depth_ret, if_neg fun hx => hu hx.1.symm]

theorem leave_take (h : Ledger idle s) {m : μ} {time : ℤ} (hpc : s.pc c = .after (.take m time))
    (hl : lvl s.os c = .ready) : ∃ r, leave c (.take m time) s.os = some (r, s.os) ∧
      (r = RT_EOK ∧ (s.os.mutex m).owner = some c ∨ r = -RT_ETIMEOUT ∧ 0 < time) ∧
      ∀ m', depth c m' (.ret c (.take m time) r :: s.history) = owns (s.os.mutex m') c := by
  have hok := h.seats c
  have hbusy : (seat s c).busy = some (.take m time) := by simp [seat, hpc, Pc.call]
  have haim : ∀ m', (seat s c).busy.bind aim = some m' ↔ m' = m := fun m' => by
    rw [hbusy]
    simp [aim, eq_comm]
  have h0 : depth c m s.history = 0 := hok.aimed m ((haim m).mpr rfl)
  have hne : ∀ m', m' ≠ m → depth c m' s.history = owns (s.os.mutex m') c := fun m' hm =>
    hok.depth m' fun hx => hm ((haim m').mp hx)
  rcases (hok.taking m time hbusy).2 hl with ⟨he, ho⟩ | ⟨he, ho, htime⟩
  · -- it owns the mutex
    have hret : takeReturn c s.os = RT_EOK := if_neg (not_not.mpr he)
    refine ⟨RT_EOK, by rw [leave, hret], Or.inl ⟨rfl, (owns_pos (h.mutexes m)).mp ?_⟩,
      fun m' => ?_⟩
    · change owns (s.os.mutex m) c = 1 at ho
      rw [ho]
      decide
    · rw [depth_ret]
      by_cases hm : m' = m
      · subst hm
        rw [if_pos ⟨rfl, rfl, rfl⟩, h0]
        exact ho.symm
      · rw [if_neg fun hx => hm (Option.some.inj hx.2.1).symm]
        exact hne m' hm
  · -- it has waited in vain
    have herr : (s.os.thread c).error = -RT_ETIMEOUT := he
    have hret : takeReturn c s.os = -RT_ETIMEOUT := by
      rw [takeReturn, herr]
      rfl
    refine ⟨-RT_ETIMEOUT, by rw [leave, hret], Or.inr ⟨rfl, htime⟩, fun m' => ?_⟩
    rw [depth_ret, if_neg fun hx => absurd hx.2.2 (by decide)]
    by_cases hm : m' = m
    · subst hm
      exact h0.trans ho.symm
    · exact hne m' hm

theorem leave_ledger (h : Ledger idle s) (hc : s.os.current = some c) {call : Call τ μ}
    (hpc : s.pc c = .after call) : ∃ r k, leave c call s.os = some (r, k) ∧
      (∀ n, call = .sleep n → r = RT_EOK) ∧
      (∀ m time, call = .take m time → r = RT_EOK ∧ (s.os.mutex m).owner = some c ∨
        r = -RT_ETIMEOUT ∧ 0 < time) ∧
      Ledger idle { s with
        os := k, pc := Function.update s.pc c .user, history := .ret c call r :: s.history } := by
  have hl := after_ready h hc hpc
  have hok := h.seats c
  have hbusy : (seat s c).busy = some call := by simp [seat, hpc, Pc.call]
  have hlev : (seat s c).level = .ready := hl
  have hplain : aim call = none → ∀ r m, depth c m (.ret c call r :: s.history) =
      owns (s.os.mutex m) c := by
    intro ha r m
    rw [depth_ret, ha, if_neg fun hx => absurd hx.2.1 (by simp)]
    exact hok.depth m (by rw [hbusy]; simp [ha])
  have hback : ∀ r, (∀ m, depth c m (.ret c call r :: s.history) = owns (s.os.mutex m) c) →
      Ledger idle { s with
        os := s.os, pc := Function.update s.pc c .user, history := .ret c call r :: s.history } :=
    fun r => back_ledger h hc hpc h.sound rfl (fun _ => rfl) (fun _ _ => rfl) rfl rfl rfl
      fun u hu => depth_back hu call r
  cases call with
  | take m time =>
    obtain ⟨r, hleave, hres, hd⟩ := leave_take h hpc hl
    refine ⟨r, s.os, hleave, by simp, fun m' time' hx => ?_, hback r hd⟩
    obtain ⟨rfl, rfl⟩ := Call.take.inj hx
    exact hres
  | sleep n =>
    have he : (s.os.thread c).error = -RT_ETIMEOUT := (hok.sleeping n hbusy).2 hlev
    have hret : sleepReturn c s.os =
        (RT_EOK, s.os.modify c fun th => { th with error := RT_EOK }) := by
      rw [sleepReturn, if_pos he]
      simp
    refine ⟨RT_EOK, _, by rw [leave, hret], fun _ _ => rfl, by simp, ?_⟩
    refine back_ledger h hc hpc (take_error h.sound RT_EOK) rfl (fun u => ?_) (fun u hu => ?_) rfl rfl
      rfl (fun u hu => depth_back hu _ _) (hplain rfl _)
    · by_cases hu : u = c
      · subst hu
        rw [ReadyQueue.modify_self]
      · rw [ReadyQueue.modify_of_ne _ _ hu]
    · rw [ReadyQueue.modify_of_ne _ _ hu]
  | exit =>
    have hf := hok.fits
    rw [hlev] at hf
    exact absurd hbusy hf
  | release m => exact ⟨RT_EOK, s.os, rfl, by simp, by simp, hback _ (hplain rfl _)⟩
  | yield => exact ⟨RT_EOK, s.os, rfl, by simp, by simp, hback _ (hplain rfl _)⟩
  | startup t => exact ⟨RT_EOK, s.os, rfl, by simp, by simp, hback _ (hplain rfl _)⟩

/-! ### A thread is cleared away -/

theorem reap_ledger (h : Ledger idle s) (ht : t ∈ s.os.defunct) :
    Ledger idle { s with os := rtDefunctExecute t s.os } where
  sound := reap_sound h.sound ht
  expiring := h.expiring
  current c hc := (h.current c hc).imp_left (reap_lvl s.os t c).trans
  seats u := seat_same (h.seats u) (reap_lvl s.os t u) (by rw [reap_thread]) rfl (fun _ => Iff.rfl)
    Iff.rfl (fun _ => rfl) fun _ => rfl
  mutexes := h.mutexes

/-! ### Every step -/

omit [DecidableEq τ] [DecidableEq μ] in
theorem current_of_sound {lo now : ℕ} {d : τ → ℕ} {k : Os τ μ} (h : Sound idle lo now d k) :
    ∃ c, k.current = some c := h.current.imp fun _ => And.left

section Step

variable {call : Call τ μ} {k : Os τ μ}

theorem step_returns (hc : s.os.current = some c) {r : ℤ}
    (he : enter call s.os = some (k, .returns r)) : step (.call call) s = some { s with
      os := k, history := .ret c call r :: .call c call :: s.history } := by
  simp [step, hc, he]

theorem step_schedules (hc : s.os.current = some c) (he : enter call s.os = some (k, .schedules)) :
    step (.call call) s = some { s with
      os := k
      history := .call c call :: s.history
      pc := Function.update s.pc c (.sched call)
      deadline := call.ticks.elim s.deadline fun n =>
        Function.update s.deadline c (s.clock + n) } := by
  simp [step, hc, he]

theorem step_scheduled (hc : s.os.current = some c) (he : enter call s.os = some (k, .scheduled)) :
    step (.call call) s = some { s with
      os := k
      history := .call c call :: s.history
      pc := Function.update s.pc c (.after call) } := by
  simp [step, hc, he]

end Step

/-- No thread is to lend its priority to the owner of a mutex that has been detached. -/
def Lendable (s : Sys τ μ) : Act τ μ → Prop
  | .call (.take m time) => time ≠ 0 → ∀ c o, s.os.current = some c →
      (s.os.mutex m).owner = some o →
      (s.os.thread c).currentPriority < (s.os.thread o).currentPriority →
      (s.os.thread o).type = .thread
  | _ => True

theorem call_ledger (h : Ledger idle s) {call : Call τ μ} (hl : Legal idle s (.call call))
    (hlend : Lendable s (.call call)) : ∃ s', step (.call call) s = some s' ∧ Ledger idle s' := by
  obtain ⟨c, hc, hp, hok⟩ := hl
  cases call with
  | take m time =>
    by_cases hfree : (∃ o, (s.os.mutex m).owner = some o ∧ o ≠ c) → time = 0
    · obtain ⟨k, r, hk, hs⟩ := take_returns h hc hp m time hfree
      exact ⟨_, step_returns hc (by rw [enter, hk]; rfl), hs⟩
    · obtain ⟨⟨o, ho, hoc⟩, ht⟩ := Classical.not_imp.mp hfree
      obtain ⟨k, hk, hs⟩ := take_parks h hc hp hok.1 m ht hok.2 ho hoc (hlend ht c o hc ho)
      exact ⟨_, step_schedules hc (by rw [enter, hk]; rfl), hs⟩
  | release m =>
    by_cases hn : (s.os.mutex m).owner = some c → (s.os.mutex m).hold = 1 → s.os.waiting m = []
    · obtain ⟨k, r, hk, hs⟩ := release_returns h hc hp m hn
      exact ⟨_, step_returns hc (by rw [enter, hk]; rfl), hs⟩
    · obtain ⟨ho, hn⟩ := Classical.not_imp.mp hn
      obtain ⟨hone, hne⟩ := Classical.not_imp.mp hn
      obtain ⟨next, rest, hw⟩ := List.exists_cons_of_ne_nil hne
      obtain ⟨k, hk, -, -, hs⟩ := release_passes h hc hp ho hone hw
      exact ⟨_, step_schedules hc (by rw [enter, hk]; rfl), hs⟩
  | sleep n =>
    obtain ⟨k, hk, -, hs⟩ := sleep_parks h hc hp hok.1 hok.2
    exact ⟨_, step_schedules hc (by rw [enter, hk]; rfl), hs⟩
  | yield =>
    obtain ⟨k, k₁, c', hk, -, -, hs⟩ := yield_yields h hc hp
    exact ⟨_, step_scheduled hc (by rw [enter, hk]; rfl), hs⟩
  | startup t =>
    obtain ⟨k, hk, hs⟩ := startup_starts h hc hp hok
    exact ⟨_, step_schedules hc (by rw [enter, hk]; rfl), hs⟩
  | exit =>
    obtain ⟨k, hk, hs⟩ := exit_ends h hc hp hok
    exact ⟨_, step_schedules hc (by rw [enter, hk]; rfl), hs⟩

/-- **No step fails** but that one, and each leaves the system in order. -/
theorem step_ledger (h : Ledger idle s) {a : Act τ μ} (hl : Legal idle s a) (hlend : Lendable s a) :
    ∃ s', step a s = some s' ∧ Ledger idle s' := by
  cases a with
  | tick => exact (tick_ledger h).imp fun s' hs => ⟨hs.1, hs.2.1⟩
  | call call => exact call_ledger h hl hlend
  | reap t => exact ⟨_, rfl, reap_ledger h hl.2.2⟩
  | go =>
    obtain ⟨c, hc⟩ := current_of_sound h.sound
    cases hpc : s.pc c with
    | user => exact ⟨s, by simp [step, hc, hpc], h⟩
    | sched call =>
      obtain ⟨k, c', hk, -, hs⟩ := schedule_ledger h hc hpc
      exact ⟨_, by simp [step, hc, hpc, hk], hs⟩
    | after call =>
      obtain ⟨r, k, hk, -, -, hs⟩ := leave_ledger h hc hpc
      exact ⟨_, by simp [step, hc, hpc, hk], hs⟩

theorem step_lendable (h : Ledger idle s) {a : Act τ μ} (hl : Legal idle s a)
    (hs : step a s = some s') : Lendable s a := by
  cases a with
  | call call =>
    cases call with
    | take m time =>
      intro ht c o hc ho hlt
      by_contra hobj
      have hoc : o ≠ c := by
        rintro rfl
        exact absurd hlt (BitVec.lt_irrefl _)
      have hk : rtMutexTake m time s.os = none := take_asserts m time h.sound.unlocked hc hoc ho
        (mutexOk_some (h.mutexes m) ho).1 ht hlt hobj
      simp [step, hc, enter, hk] at hs
    | _ => trivial
  | _ => trivial

/-- **A legal step fails** only if it is to lend a priority to a thread that has been detached. -/
theorem step_iff (h : Ledger idle s) {a : Act τ μ} (hl : Legal idle s a) :
    (∃ s', step a s = some s') ↔ Lendable s a := by
  refine ⟨?_, fun hlend => (step_ledger h hl hlend).imp fun _ => And.left⟩
  rintro ⟨s', hs⟩
  exact step_lendable h hl hs

theorem next_ledger (h : Ledger idle s) {a : Act τ μ} (hl : Legal idle s a)
    (hs : step a s = some s') : Ledger idle s' := by
  obtain ⟨s₂, hs₂, h₂⟩ := step_ledger h hl (step_lendable h hl hs)
  obtain rfl := Option.some.inj (hs.symm.trans hs₂)
  exact h₂

/-- **In every run** the system stays in order. -/
theorem runs_ledger {acts : List (Act τ μ)} (h : Ledger idle s) (hr : Runs idle acts s s') :
    Ledger idle s' :=
  path_inv (fun _ _ _ h hl hs => next_ledger h hl hs) hr h

end RtosExample.Kernel.Bookkeeping
