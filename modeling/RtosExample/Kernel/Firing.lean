import RtosExample.Kernel.Deadlines
import RtosExample.Lib.Runs

/-! # When timers fire

Threads start, stop and set timers between the ticks, the callbacks of the timers do the same during
them, and each tick increments `rt_tick` and runs `rt_timer_check` (the part of `rt_tick_increase`
that is about timers).

* `timer_fires_exactly`: from the boot state, whatever ran before and whatever the other timers and
  callbacks do, a timer that is started with `T` ticks and then left alone has fired `k / T` times
  after `k` ticks if it is periodic, and exactly once from `T` ticks on otherwise; every check on
  the way comes to its end. No timer is ever set to 0 ticks. The tick counter may wrap.
* `check_never_returns`: a periodic timer with 0 ticks, whose callback leaves it alone, keeps
  `rt_timer_check` in its loop for good. -/

namespace RtosExample.Kernel.Firing

open RtosExample.Cint RtosExample.Lib.Queue RtosExample.Lib.Runs
open RtosExample.Kernel.TimerList RtosExample.Kernel.Deadlines

variable {ι : Type} [DecidableEq ι]

/-! ### Runs -/

/-- What code may do to a timer. -/
inductive Op (ι : Type)
  | start (i : ι)
  | stop (i : ι)
  | control (i : ι) (cmd : Ctrl)

/-- The timer an operation is about. -/
def Op.timer : Op ι → ι
  | .start i => i
  | .stop i => i
  | .control i _ => i

def Op.exec : Op ι → Timers ι → Option (Timers ι)
  | .start i, s => some (rtTimerStart i s)
  | .stop i, s => some (rtTimerStop i s).2
  | .control i cmd, s => (rtTimerControl i cmd s).map Prod.fst

/-- No timer is set to 0 ticks, or to more than `RT_ASSERT` lets pass. -/
def Op.Fits : Op ι → Prop
  | .control _ (.setTime t) => t ≠ 0 ∧ t < TICK_HALF
  | _ => True

/-- The timers, and the callbacks that have run, the last one at the head. -/
structure Sys (ι : Type) where
  timers : Timers ι
  fired : List ι

/-- What the callback of a timer does to the timers, which may depend on all that ran before. -/
abbrev Callbacks (ι : Type) := List ι → ι → List (Op ι)

def Sys.setTimers (tm : Timers ι) (s : Sys ι) : Sys ι := { s with timers := tm }

def callback (prog : Callbacks ι) (i : ι) (s : Sys ι) : Option (Sys ι) :=
  (run Op.exec (prog s.fired i) s.timers).map fun tm => { timers := tm, fired := i :: s.fired }

/-- `rt_timer_check` with these callbacks. -/
def check (prog : Callbacks ι) (fuel : ℕ) (s : Sys ι) : Option (Sys ι) :=
  rtTimerCheck Sys.timers Sys.setTimers (callback prog) fuel s

/-- What happens to the system: code touches a timer, or the clock ticks. -/
inductive Act (ι : Type)
  | op (o : Op ι)
  | tick

def exec (prog : Callbacks ι) : Act ι → Sys ι → Option (Sys ι)
  | .op o, s => (o.exec s.timers).map fun tm => s.setTimers tm
  | .tick, s =>
    let s := s.setTimers { s.timers with tick := s.timers.tick + 1 }
    check prog (s.timers.list.length + 1) s

/-- The timers as `rt_timer_init` leaves them, and the list as `rt_system_timer_init` does. -/
def boot (tick : U32) (time : ι → U32) (periodic : ι → Bool) : Sys ι where
  timers := { timer := fun i => timerInit (time i) (periodic i), list := [], expiring := [], tick }
  fired := []

def ticks : List (Act ι) → ℕ
  | [] => 0
  | .op _ :: acts => ticks acts
  | .tick :: acts => ticks acts + 1

/-- An act of a run that only sets timers as it may. -/
def Act.Fits : Act ι → Prop
  | .op o => o.Fits
  | .tick => True

/-- An act that leaves timer `x` alone. -/
def Act.Spares (x : ι) : Act ι → Prop
  | .op o => o.timer ≠ x
  | .tick => True

/-! ### One operation -/

/-- No timer is set to 0 ticks. -/
def Positive (s : Timers ι) : Prop := ∀ i, (s.timer i).initTick ≠ 0

/-- **What code does to the timers while the clock stands**: the timers are in order, a deadline
that has come was there before, and a timer outside `P` is as it was. -/
structure Passes (lo now : ℕ) (P : ι → Prop) (d : ι → ℕ) (s : Timers ι) (d' : ι → ℕ)
    (s' : Timers ι) : Prop where
  good : Good lo now d' s'
  positive : Positive s'
  late : due now d' s' ⊆ due now d s
  expiring : s'.expiring.Sublist s.expiring
  same : ∀ j, ¬ P j → s'.timer j = s.timer j ∧ d' j = d j ∧
    (j ∈ s'.list ↔ j ∈ s.list) ∧ (j ∈ s'.expiring ↔ j ∈ s.expiring)

variable {lo now : ℕ} {P : ι → Prop} {d d' d'' : ι → ℕ} {s s' s'' : Timers ι}

theorem Passes.refl (h : Good lo now d s) (hp : Positive s) : Passes lo now P d s d s :=
  ⟨h, hp, subset_rfl, List.Sublist.refl _, fun _ _ => ⟨rfl, rfl, Iff.rfl, Iff.rfl⟩⟩

theorem Passes.trans (h : Passes lo now P d s d' s')
    (h' : Passes lo now P d' s' d'' s'') : Passes lo now P d s d'' s'' where
  good := h'.good
  positive := h'.positive
  late := h'.late.trans h.late
  expiring := h'.expiring.trans h.expiring
  same j hj := by
    obtain ⟨h1, h2, h3, h4⟩ := h.same j hj
    obtain ⟨h1', h2', h3', h4'⟩ := h'.same j hj
    exact ⟨h1'.trans h1, h2'.trans h2, h3'.trans h3, h4'.trans h4⟩

theorem start_passes {i : ι} (h : Good lo now d s) (hlo : lo ≤ now) (hp : Positive s)
    (ht : P i) : Passes lo now P d s (startAt now s i d) (rtTimerStart i s) where
  good := start_good h hlo i
  positive j := by
    by_cases hj : j = i
    · subst hj
      rw [start_timer]
      exact hp j
    · rw [start_timer_of_ne _ hj]
      exact hp j
  late j hj := by
    obtain ⟨hm, hd⟩ := mem_due.mp hj
    rw [start_list_eq h] at hm
    rcases mem_insertWhere.mp hm with rfl | hm
    · have hpos := mt BitVec.toNat_inj.mp (hp j)
      simp only [startAt, Function.update_self] at hd
      exact absurd (show (s.timer j).initTick.toNat = (0 : U32).toNat by simp; omega) hpos
    · have hne : j ≠ i := fun hji => not_mem_erase h i (hji ▸ hm)
      rw [startAt, Function.update_of_ne hne] at hd
      exact mem_due.mpr ⟨List.mem_of_mem_erase hm, hd⟩
  expiring := by
    rw [start_expiring]
    exact List.erase_sublist
  same j hj := by
    have hne : j ≠ i := fun hji => hj (hji ▸ ht)
    refine ⟨start_timer_of_ne _ hne, Function.update_of_ne hne .., ?_,
      by rw [start_expiring, List.mem_erase_of_ne hne]⟩
    rw [start_list_eq h, enqueue, mem_insertWhere, List.mem_erase_of_ne hne]
    simp [hne]

theorem remove_passes {i : ι} (f : Timer → Timer) (h : Good lo now d s) (hp : Positive s)
    (ht : P i) (hf : (f (s.timer i)).initTick = (s.timer i).initTick) :
    Passes lo now P d s d ((timerRemove i s).modify i f) where
  good := remove_good h i hf
  positive j := by
    by_cases hj : j = i
    · subst hj
      rw [modify_self, timerRemove_timer, hf]
      exact hp j
    · rw [modify_of_ne _ _ hj]
      exact hp j
  late j hj := by
    obtain ⟨hm, hd⟩ := mem_due.mp hj
    exact mem_due.mpr ⟨List.mem_of_mem_erase hm, hd⟩
  expiring := List.erase_sublist
  same j hj := by
    have hne : j ≠ i := fun hji => hj (hji ▸ ht)
    exact ⟨modify_of_ne _ _ hne, rfl, List.mem_erase_of_ne hne, List.mem_erase_of_ne hne⟩

theorem modify_passes {i : ι} (f : Timer → Timer) (h : Good lo now d s) (hp : Positive s)
    (ht : P i) (hf : (f (s.timer i)).activated = (s.timer i).activated ∧
      (f (s.timer i)).timeoutTick = (s.timer i).timeoutTick)
    (hi : (f (s.timer i)).initTick ≠ 0 ∧ (f (s.timer i)).initTick < TICK_HALF) :
    Passes lo now P d s d (s.modify i f) where
  good := modify_good h i hf.1 hf.2 hi.2
  positive j := by
    by_cases hj : j = i
    · subst hj
      rw [modify_self]
      exact hi.1
    · rw [modify_of_ne _ _ hj]
      exact hp j
  late := subset_rfl
  expiring := List.Sublist.refl _
  same j hj := ⟨modify_of_ne _ _ fun hji => hj (hji ▸ ht), rfl, Iff.rfl, Iff.rfl⟩

theorem op_passes {o : Op ι} (ho : o.Fits) (ht : P o.timer) (h : Good lo now d s)
    (hlo : lo ≤ now) (hp : Positive s) :
    ∃ d' s', o.exec s = some s' ∧ Passes lo now P d s d' s' := by
  cases o with
  | start i => exact ⟨_, _, rfl, start_passes h hlo hp ht⟩
  | stop i =>
    by_cases ha : (s.timer i).activated = false
    · exact ⟨d, s, by simp [Op.exec, rtTimerStop, ha], Passes.refl h hp⟩
    · exact ⟨d, _, by simp only [Op.exec, rtTimerStop, if_neg ha]; rfl, remove_passes _ h hp ht rfl⟩
  | control i cmd =>
    have hi : (s.timer i).initTick ≠ 0 ∧ (s.timer i).initTick < TICK_HALF := ⟨hp i, h.init i⟩
    have htouch : P i := ht
    cases cmd with
    | setTime t =>
      refine ⟨d, s.modify i fun u => { u with initTick := t }, ?_,
        modify_passes _ h hp htouch ⟨rfl, rfl⟩ ho⟩
      simp only [Op.exec, rtTimerControl, if_pos ho.2, Option.map_some]
    | setOneshot =>
      exact ⟨d, s.modify i fun u => { u with periodic := false }, rfl,
        modify_passes _ h hp htouch ⟨rfl, rfl⟩ hi⟩
    | setPeriodic =>
      exact ⟨d, s.modify i fun u => { u with periodic := true }, rfl,
        modify_passes _ h hp htouch ⟨rfl, rfl⟩ hi⟩
    | getTime => exact ⟨d, s, rfl, Passes.refl h hp⟩
    | getState => exact ⟨d, s, rfl, Passes.refl h hp⟩
    | getRemainTime => exact ⟨d, s, rfl, Passes.refl h hp⟩

theorem ops_pass : ∀ {os : List (Op ι)} {d : ι → ℕ} {s : Timers ι},
    (∀ o ∈ os, o.Fits ∧ P o.timer) → Good lo now d s → lo ≤ now → Positive s →
    ∃ d' s', run Op.exec os s = some s' ∧ Passes lo now P d s d' s'
  | [], d, s, _, h, _, hp => ⟨d, s, rfl, Passes.refl h hp⟩
  | o :: os, d, s, ho, h, hlo, hp => by
    obtain ⟨hfit, htouch⟩ := ho o List.mem_cons_self
    obtain ⟨d', s', he, h'⟩ := op_passes hfit htouch h hlo hp
    obtain ⟨d'', s'', hr, h''⟩ := ops_pass (fun o' hm => ho o' (List.mem_cons_of_mem o hm)) h'.good
      hlo h'.positive
    exact ⟨d'', s'', (run_cons _).mpr ⟨s', he, hr⟩, h'.trans h''⟩

/-! ### One round of the check -/

/-- The timers between the rounds. -/
structure Calm (lo now : ℕ) (d : ι → ℕ) (s : Timers ι) : Prop where
  good : Good lo now d s
  positive : Positive s
  idle : s.expiring = []

theorem before_passes {i : ι} (h : Calm lo now d s) (hi : i ∈ s.list) (hd : d i ≤ now) :
    Good lo now d (beforeCallback i s) ∧ Positive (beforeCallback i s) ∧
      due now d (beforeCallback i s) ⊂ due now d s ∧ i ∉ (beforeCallback i s).list ∧
      (beforeCallback i s).expiring = [i] ∧
      (beforeCallback i s).timer i = { s.timer i with activated := (s.timer i).periodic } ∧
      ∀ j, j ≠ i → (beforeCallback i s).timer j = s.timer j ∧
        (j ∈ (beforeCallback i s).list ↔ j ∈ s.list) := by
  let f : Timer → Timer := fun t => { t with activated := (s.timer i).periodic }
  -- both branches take the timer out and leave its flag as the other flag
  have hb : beforeCallback i s = { (timerRemove i s).modify i f with expiring := [i] } := by
    have hact := h.good.activated i hi
    by_cases hper : (s.timer i).periodic = true
    · have hsame : f (s.timer i) = s.timer i := by
        change ({ s.timer i with activated := (s.timer i).periodic } : Timer) = _
        rw [hper, ← hact]
      simp [beforeCallback, h.idle, hper, Timers.modify, hsame]
    · simp [beforeCallback, h.idle, hper, Timers.modify, f]
  have hpass : Passes lo now (· = i) d s d ((timerRemove i s).modify i f) :=
    remove_passes f h.good h.positive rfl rfl
  have hnot : i ∉ s.list.erase i := not_mem_erase h.good i
  rw [hb]
  refine ⟨⟨hpass.good.near, hpass.good.tick, hpass.good.nodup, hpass.good.sorted,
    hpass.good.activated, hpass.good.timeout, hpass.good.low, hpass.good.high, hpass.good.init⟩,
    hpass.positive, ?_, hnot, rfl, modify_self (timerRemove i s) i f, ?_⟩
  · refine Finset.ssubset_iff_subset_ne.mpr ⟨hpass.late, fun he => ?_⟩
    have hm : i ∈ due now d s := mem_due.mpr ⟨hi, hd⟩
    rw [← he] at hm
    exact hnot (mem_due.mp hm).1
  · exact fun j hj => ⟨modify_of_ne _ f hj, List.mem_erase_of_ne hj⟩

/-- After the callback of timer `i`: what is set aside starts again, or is forgotten. -/
theorem after_passes {i : ι} (h : Good lo now d s) (hlo : lo ≤ now) (hp : Positive s)
    (he : s.expiring.Sublist [i]) :
    ∃ d', Passes lo now (· = i) d s d' (afterCallback i s) ∧ (afterCallback i s).expiring = [] ∧
      (i ∈ s.expiring → ((afterCallback i s).timer i).initTick = (s.timer i).initTick ∧
        ((afterCallback i s).timer i).periodic = (s.timer i).periodic ∧
        if ((s.timer i).periodic && (s.timer i).activated) = true then
          i ∈ (afterCallback i s).list ∧ d' i = now + (s.timer i).initTick.toNat
        else i ∉ (afterCallback i s).list) := by
  rcases List.sublist_singleton.mp he with he | he
  · have ha : afterCallback i s = s := by simp [afterCallback, he]
    rw [ha]
    exact ⟨d, Passes.refl h hp, he, fun hi => by simp [he] at hi⟩
  have hrem : Passes lo now (· = i) d s d (timerRemove i s) := by
    have hid : (timerRemove i s).modify i id = timerRemove i s := by
      simp only [Timers.modify, id, Function.update_eq_self]
    rw [← hid]
    exact remove_passes id h hp rfl rfl
  by_cases hc : ((s.timer i).periodic && (s.timer i).activated) = true
  · let f : Timer → Timer := fun t => { t with activated := false }
    have ha : afterCallback i s = rtTimerStart i ((timerRemove i s).modify i f) := by
      simp only [afterCallback, he, List.isEmpty_cons, timerRemove_timer, hc, if_true]
      rfl
    have hoff : Passes lo now (· = i) d s d ((timerRemove i s).modify i f) :=
      remove_passes f h hp rfl rfl
    rw [ha]
    refine ⟨_, hoff.trans (start_passes hoff.good hlo hoff.positive rfl), ?_, fun _ => ?_⟩
    · rw [start_expiring]
      simp [he]
    · rw [if_pos hc, start_timer, start_list_eq hoff.good]
      refine ⟨by simp [f], by simp [f], mem_insertWhere.mpr (Or.inl rfl), ?_⟩
      simp [startAt, f]
  · have ha : afterCallback i s = timerRemove i s := by
      simp only [afterCallback, he, List.isEmpty_cons, timerRemove_timer, hc]
      rfl
    rw [ha]
    refine ⟨d, hrem, by simp [he], fun _ => ⟨rfl, rfl, ?_⟩⟩
    rw [if_neg hc]
    exact not_mem_erase h i

/-- Once `old` has run, the callbacks set timers as they may and stay within `P`. -/
def Callbacks.Within (prog : Callbacks ι) (old : List ι) (P : ι → Prop) : Prop :=
  ∀ hist i, old <:+ hist → ∀ o ∈ prog hist i, o.Fits ∧ P o.timer

/-- **One round**: the callback of an expired timer runs, and the timer starts again if it is
periodic. A timer outside `P` is as it was, but for its own callback. -/
theorem round {prog : Callbacks ι} {old : List ι} (hprog : prog.Within old P) {s : Sys ι}
    (hold : old <:+ s.fired) (h : Calm lo now d s.timers) (hlo : lo ≤ now) {i : ι}
    (hi : i ∈ s.timers.list) (hd : d i ≤ now) :
    ∃ d' s', callback prog i (s.setTimers (beforeCallback i s.timers)) = some s' ∧
      Calm lo now d' (afterCallback i s'.timers) ∧ s'.fired = i :: s.fired ∧
      due now d' (afterCallback i s'.timers) ⊂ due now d s.timers ∧
      ∀ x, ¬ P x →
        ((afterCallback i s'.timers).timer x).initTick = (s.timers.timer x).initTick ∧
        ((afterCallback i s'.timers).timer x).periodic = (s.timers.timer x).periodic ∧
        if x = i then
          if (s.timers.timer x).periodic = true then
            x ∈ (afterCallback i s'.timers).list ∧ d' x = now + (s.timers.timer x).initTick.toNat
          else x ∉ (afterCallback i s'.timers).list
        else (x ∈ (afterCallback i s'.timers).list ↔ x ∈ s.timers.list) ∧ d' x = d x := by
  obtain ⟨hg, hp, hdue, hnot, hexp, hself, hother⟩ := before_passes h hi hd
  obtain ⟨d₁, tm, hrun, hops⟩ := ops_pass (hprog s.fired i hold) hg hlo hp
  obtain ⟨d₂, hafter, hidle, hagain⟩ := after_passes (i := i) hops.good hlo hops.positive
    (by rw [← hexp]; exact hops.expiring)
  refine ⟨d₂, { timers := tm, fired := i :: s.fired }, ?_, ⟨hafter.good, hafter.positive, hidle⟩,
    rfl, ssubset_of_subset_of_ssubset (hafter.late.trans hops.late) hdue, fun x hx => ?_⟩
  · change (run Op.exec (prog s.fired i) (beforeCallback i s.timers)).map _ = _
    rw [hrun]
    rfl
  obtain ⟨h1, h2, h3, h4⟩ := hops.same x hx
  by_cases hxi : x = i
  · subst hxi
    obtain ⟨ha, hb, hc⟩ := hagain (h4.mpr (by simp [hexp]))
    rw [h1, hself] at ha hb hc
    refine ⟨ha, hb, ?_⟩
    simpa using hc
  · obtain ⟨h1', h2', h3', -⟩ := hafter.same x hxi
    obtain ⟨ho, hm⟩ := hother x hxi
    rw [h1', h1, ho, if_neg hxi]
    exact ⟨rfl, rfl, h3'.trans (h3.trans hm), h2'.trans h2⟩

/-! ### One timer through a run -/

/-- Since `old` had run timer `x` has been left alone: it has `T` ticks and has fired `c` times, and
`a` is its deadline if it is in the list. -/
structure Watched (old : List ι) (x : ι) (T : ℕ) (p : Bool) (a : Option ℕ) (c : ℕ) (d : ι → ℕ)
    (s : Sys ι) : Prop where
  later : old <:+ s.fired
  ticks : (s.timers.timer x).initTick.toNat = T
  periodic : (s.timers.timer x).periodic = p
  count : s.fired.count x = c
  armed : x ∈ s.timers.list ↔ a.isSome = true
  deadline : ∀ D, a = some D → d x = D

/-- The deadline of a timer that is found expired at `now`. -/
def again (now T : ℕ) (p : Bool) : Option ℕ := if p then some (now + T) else none

variable {old : List ι} {x : ι} {T c : ℕ} {p : Bool} {a : Option ℕ} {prog : Callbacks ι}

/-- Its callback has run, and what was set aside is in the list again or forgotten. -/
theorem Watched.fires {s s' : Sys ι} {D : ℕ} (hw : Watched old x T p (some D) c d s)
    (hf : s'.fired = x :: s.fired) (hi : (s'.timers.timer x).initTick = (s.timers.timer x).initTick)
    (hp : (s'.timers.timer x).periodic = (s.timers.timer x).periodic)
    (hin : if (s.timers.timer x).periodic = true then
      x ∈ s'.timers.list ∧ d' x = now + (s.timers.timer x).initTick.toNat else x ∉ s'.timers.list) :
    Watched old x T p (again now T p) (c + 1) d' s' := by
  rw [hw.periodic] at hin
  refine ⟨hf ▸ hw.later.trans (List.suffix_cons ..),
    (congrArg BitVec.toNat hi).trans hw.ticks, hp.trans hw.periodic, ?_, ?_, ?_⟩
  · rw [hf, List.count_cons_self, hw.count]
  · cases p
    · simpa [again] using hin
    · simpa [again] using hin.1
  · intro D' hD'
    cases p
    · simp [again] at hD'
    · rw [if_pos rfl] at hin
      simp only [again, if_true, Option.some.injEq] at hD'
      rw [hin.2, hw.ticks, hD']

/-- The callback of another timer has run. -/
theorem Watched.kept {s s' : Sys ι} {i : ι} (hw : Watched old x T p a c d s) (hxi : x ≠ i)
    (hf : s'.fired = i :: s.fired) (hi : (s'.timers.timer x).initTick = (s.timers.timer x).initTick)
    (hp : (s'.timers.timer x).periodic = (s.timers.timer x).periodic)
    (hin : (x ∈ s'.timers.list ↔ x ∈ s.timers.list) ∧ d' x = d x) :
    Watched old x T p a c d' s' :=
  ⟨hf ▸ hw.later.trans (List.suffix_cons ..), (congrArg BitVec.toNat hi).trans hw.ticks,
    hp.trans hw.periodic, by rw [hf, List.count_cons_of_ne hxi.symm, hw.count],
    hin.1.trans hw.armed, fun D hD => hin.2.trans (hw.deadline D hD)⟩

theorem Watched.pos {s : Sys ι} (hw : Watched old x T p a c d s) (hpos : Positive s.timers) :
    0 < T := by
  rw [← hw.ticks]
  exact Nat.pos_of_ne_zero fun hz => hpos x (BitVec.eq_of_toNat_eq hz)

/-- **A check**: it comes to its end, and a watched timer whose deadline has come fires once. -/
theorem check_watched (hprog : prog.Within old P) (hx : ¬ P x) {s : Sys ι}
    (h : Calm lo now d s.timers) (hlo : lo ≤ now) (hw : Watched old x T p a c d s) {fuel : ℕ}
    (hf : s.timers.list.length < fuel) :
    ∃ d' s', check prog fuel s = some s' ∧ Calm now now d' s'.timers ∧
      if ∃ D, a = some D ∧ D ≤ now then Watched old x T p (again now T p) (c + 1) d' s'
      else Watched old x T p a c d' s' := by
  let J : (ι → ℕ) → Sys ι → Prop := fun d s => Calm lo now d s.timers ∧
    (Watched old x T p a c d s ∨
      (∃ D, a = some D ∧ D ≤ now) ∧ Watched old x T p (again now T p) (c + 1) d s)
  have hround : ∀ d s i, J d s → i ∈ s.timers.list → d i ≤ now →
      ∃ d' s', callback prog i (s.setTimers (beforeCallback i s.timers)) = some s' ∧
        J d' (s'.setTimers (afterCallback i s'.timers)) ∧
        due now d' (s'.setTimers (afterCallback i s'.timers)).timers ⊂ due now d s.timers := by
    rintro d s i ⟨hc, hj⟩ hi hd
    have hold : old <:+ s.fired := hj.elim (·.later) (·.2.later)
    obtain ⟨d', s', he, hc', hfired, hdue, hkeep⟩ := round hprog hold hc hlo hi hd
    obtain ⟨h1, h2, h3⟩ := hkeep x hx
    refine ⟨d', s', he, ⟨hc', ?_⟩, hdue⟩
    by_cases hxi : x = i
    · subst hxi
      rw [if_pos rfl] at h3
      rcases hj with hw | ⟨-, hw⟩
      · obtain ⟨D, rfl⟩ := Option.isSome_iff_exists.mp (hw.armed.mp hi)
        exact Or.inr ⟨⟨D, rfl, hw.deadline D rfl ▸ hd⟩, hw.fires hfired h1 h2 h3⟩
      · -- it has fired in this check, so its deadline is ahead
        obtain ⟨D', hD'⟩ := Option.isSome_iff_exists.mp (hw.armed.mp hi)
        have hlate := hw.deadline D' hD'
        have hpos := hw.pos hc.positive
        cases p
        · simp [again] at hD'
        · simp only [again, if_true, Option.some.injEq] at hD'
          omega
    · rw [if_neg hxi] at h3
      exact hj.imp (·.kept hxi hfired h1 h2 h3) fun ⟨hD, hw⟩ => ⟨hD, hw.kept hxi hfired h1 h2 h3⟩
  obtain ⟨d', s', hr, ⟨hc', hj⟩, hahead⟩ := check_rule Sys.timers Sys.setTimers _
    (J := J) (fun _ _ hj => hj.1.good) hround fuel d s ⟨h, Or.inl hw⟩
    (card_due_le.trans_lt hf)
  refine ⟨d', s', hr, ⟨hc'.good.ahead hahead, hc'.positive, hc'.idle⟩, ?_⟩
  split
  · rename_i hD
    obtain ⟨D, hD, hle⟩ := hD
    rcases hj with hw' | ⟨-, hw'⟩
    · -- its deadline has come, so it cannot still be in the list
      have hin := hw'.armed.mpr (by rw [hD]; rfl)
      have := hahead x hin
      rw [hw'.deadline D hD] at this
      omega
    · exact hw'
  · rename_i hD
    exact hj.elim id fun hj => absurd hj.1 hD

theorem check_calm (hprog : prog.Within [] P) {s : Sys ι} (h : Calm lo now d s.timers)
    (hlo : lo ≤ now) {fuel : ℕ} (hf : s.timers.list.length < fuel) :
    ∃ d' s', check prog fuel s = some s' ∧ Calm now now d' s'.timers := by
  obtain ⟨d', s', hr, hc, hahead⟩ := check_rule Sys.timers Sys.setTimers _
    (J := fun d s => Calm lo now d s.timers) (fun _ _ hc => hc.good)
    (fun d s i hc hi hd => by
      obtain ⟨d', s', he, hc', -, hdue, -⟩ := round hprog List.nil_suffix hc hlo hi hd
      exact ⟨d', s', he, hc', hdue⟩)
    fuel d s h (card_due_le.trans_lt hf)
  exact ⟨d', s', hr, hc.good.ahead hahead, hc.positive, hc.idle⟩

omit [DecidableEq ι] in
theorem tick_calm {s : Timers ι} (h : Calm now now d s) :
    Calm now (now + 1) d { s with tick := s.tick + 1 } :=
  ⟨tick_good h.good, h.positive, h.idle⟩

/-- **The system runs on**: in every run each check comes to its end. -/
theorem run_calm (hprog : prog.Within [] P) : ∀ {acts : List (Act ι)} {now : ℕ} {d : ι → ℕ}
    {s : Sys ι}, (∀ b ∈ acts, b.Fits) → Calm now now d s.timers →
    ∃ now' d' s', run (exec prog) acts s = some s' ∧ Calm now' now' d' s'.timers
  | [], now, d, s, _, h => ⟨now, d, s, rfl, h⟩
  | b :: acts, now, d, s, hb, h => by
    have hrest : ∀ b' ∈ acts, b'.Fits := fun b' hm => hb b' (List.mem_cons_of_mem b hm)
    cases b with
    | op o =>
      obtain ⟨d', tm, he, hp⟩ := op_passes (P := fun _ => True) (hb _ List.mem_cons_self)
        trivial h.good le_rfl h.positive
      have hidle : tm.expiring = [] := List.sublist_nil.mp (h.idle ▸ hp.expiring)
      obtain ⟨now', d'', s', hr, hc⟩ := run_calm hprog (s := s.setTimers tm) hrest
        ⟨hp.good, hp.positive, hidle⟩
      exact ⟨now', d'', s', (run_cons _).mpr ⟨_, by simp [exec, he], hr⟩, hc⟩
    | tick =>
      obtain ⟨d', s₁, he, hc⟩ := check_calm hprog
        (s := s.setTimers { s.timers with tick := s.timers.tick + 1 }) (tick_calm h)
        (Nat.le_succ now) (Nat.lt_succ_self _)
      obtain ⟨now', d'', s', hr, hc'⟩ := run_calm hprog hrest hc
      exact ⟨now', d'', s', (run_cons _).mpr ⟨s₁, he, hr⟩, hc'⟩

/-- How often a timer of `T` ticks has fired `k` ticks after its start. -/
def firings (p : Bool) (T k : ℕ) : ℕ := if p then k / T else min 1 (k / T)

/-- Its deadline then, if it was started at the time `t`. -/
def armedAt (p : Bool) (t T k : ℕ) : Option ℕ :=
  if p then some (t + T * (k / T + 1)) else if k < T then some (t + T) else none

theorem armedAt_succ {t k : ℕ} (hT : 0 < T) :
    if ∃ D, armedAt p t T k = some D ∧ D ≤ t + k + 1 then
      armedAt p t T (k + 1) = again (t + k + 1) T p ∧ firings p T (k + 1) = firings p T k + 1
    else armedAt p t T (k + 1) = armedAt p t T k ∧ firings p T (k + 1) = firings p T k := by
  have hmod := Nat.div_add_mod k T
  have hlt := Nat.mod_lt k hT
  have hmul : T * (k / T + 1) = T * (k / T) + T := Nat.mul_succ T (k / T)
  have hsucc : (k + 1) / T = if k + 1 = T * (k / T + 1) then k / T + 1 else k / T := by
    split
    · rename_i h
      rw [h, Nat.mul_div_cancel_left _ hT]
    · rename_i h
      rw [Nat.div_eq_of_lt_le] <;> rw [mul_comm] <;> omega
  cases p with
  | true =>
    simp only [armedAt, if_true, Option.some.injEq, exists_eq_left', again, firings]
    rw [hsucc]
    split_ifs with h1 h2 h2
    · refine ⟨?_, rfl⟩
      rw [Nat.mul_succ]
      omega
    · omega
    · omega
    · exact ⟨rfl, rfl⟩
  | false =>
    simp only [armedAt, again, firings, Bool.false_eq_true, if_false]
    by_cases hk : k < T
    · have hz : k / T = 0 := Nat.div_eq_of_lt hk
      rw [hsucc]
      simp only [hz, if_pos hk, Option.some.injEq, exists_eq_left']
      split_ifs <;> simp <;> omega
    · have hz : 1 ≤ k / T := (Nat.one_le_div_iff hT).mpr (not_lt.mp hk)
      have hz' : 1 ≤ (k + 1) / T := (Nat.one_le_div_iff hT).mpr (by omega)
      have hk' : ¬ k + 1 < T := by omega
      simp only [if_neg hk, if_neg hk', reduceCtorEq, false_and, exists_false, if_false, true_and]
      omega

theorem run_watched (hprog : prog.Within old (· ≠ x)) {t : ℕ} : ∀ {acts : List (Act ι)} {k c : ℕ}
    {d : ι → ℕ} {s : Sys ι}, (∀ b ∈ acts, b.Fits ∧ b.Spares x) → Calm (t + k) (t + k) d s.timers →
    Watched old x T p (armedAt p t T k) (c + firings p T k) d s →
    ∃ s', run (exec prog) acts s = some s' ∧
      s'.fired.count x = c + firings p T (k + ticks acts)
  | [], k, c, d, s, _, _, hw => ⟨s, rfl, hw.count⟩
  | b :: acts, k, c, d, s, hb, h, hw => by
    have hrest : ∀ b' ∈ acts, b'.Fits ∧ b'.Spares x := fun b' hm => hb b' (List.mem_cons_of_mem b hm)
    obtain ⟨hfit, hspare⟩ := hb b List.mem_cons_self
    cases b with
    | op o =>
      obtain ⟨d', tm, he, hp⟩ := op_passes (P := (· ≠ x)) hfit hspare h.good le_rfl h.positive
      obtain ⟨h1, h2, h3, -⟩ := hp.same x (not_not.mpr rfl)
      have hidle : tm.expiring = [] := List.sublist_nil.mp (h.idle ▸ hp.expiring)
      have hw' : Watched old x T p (armedAt p t T k) (c + firings p T k) d' (s.setTimers tm) :=
        ⟨hw.later, (congrArg (fun u => u.initTick.toNat) h1).trans hw.ticks,
          (congrArg Timer.periodic h1).trans hw.periodic, hw.count, h3.trans hw.armed,
          fun D hD => h2.trans (hw.deadline D hD)⟩
      obtain ⟨s', hr, hc⟩ := run_watched hprog hrest ⟨hp.good, hp.positive, hidle⟩ hw'
      exact ⟨s', (run_cons _).mpr ⟨_, by simp [exec, he], hr⟩, hc⟩
    | tick =>
      have hT := hw.pos h.positive
      have hw₀ : Watched old x T p (armedAt p t T k) (c + firings p T k) d
          (s.setTimers { s.timers with tick := s.timers.tick + 1 }) :=
        ⟨hw.later, hw.ticks, hw.periodic, hw.count, hw.armed, hw.deadline⟩
      obtain ⟨d', s₁, he, hc, hw'⟩ := check_watched hprog (not_not.mpr rfl) (tick_calm h)
        (Nat.le_succ _) hw₀ (Nat.lt_succ_self _)
      have hk := armedAt_succ (p := p) (t := t) (k := k) hT
      have hnext : Watched old x T p (armedAt p t T (k + 1)) (c + firings p T (k + 1)) d' s₁ := by
        split at hw'
        · rename_i hD
          rw [if_pos hD] at hk
          rw [hk.1, hk.2]
          exact hw'
        · rename_i hD
          rw [if_neg hD] at hk
          rw [hk.1, hk.2]
          exact hw'
      obtain ⟨s', hr, hcount⟩ := run_watched hprog (k := k + 1) hrest hc hnext
      refine ⟨s', (run_cons _).mpr ⟨s₁, he, hr⟩, hcount.trans ?_⟩
      rw [ticks, Nat.add_right_comm, Nat.add_assoc]

omit [DecidableEq ι] in
theorem boot_calm (tick : U32) {time : ι → U32} (periodic : ι → Bool)
    (htime : ∀ i, time i ≠ 0 ∧ time i < TICK_HALF) :
    Calm tick.toNat tick.toNat (fun _ => 0) (boot tick time periodic).timers where
  good := good_of_nil rfl (by simp [boot]) fun i => (htime i).2
  positive i := (htime i).1
  idle := rfl

/-- **A timer fires exactly when it should.** From the boot state, after any run `before`, timer `x`
is started and from then on left alone by the code and by the callbacks. In every further run each
check comes to its end, and `k` ticks after the start the callback has run `k / T` times if the
timer is periodic and `T` ticks long, and once as soon as `T ≤ k` otherwise. Neither the other
timers nor a wrap of the tick counter make a difference. -/
theorem timer_fires_exactly (prog : Callbacks ι) (hprog : ∀ hist i, ∀ o ∈ prog hist i, o.Fits)
    (tick : U32) (time : ι → U32) (periodic : ι → Bool)
    (htime : ∀ i, time i ≠ 0 ∧ time i < TICK_HALF) (before : List (Act ι))
    (hbefore : ∀ b ∈ before, b.Fits) (x : ι) :
    ∃ s, run (exec prog) before (boot tick time periodic) = some s ∧
      ∀ acts : List (Act ι), (∀ b ∈ acts, b.Fits ∧ b.Spares x) →
        (∀ hist i, s.fired <:+ hist → ∀ o ∈ prog hist i, o.timer ≠ x) →
        ∃ s', run (exec prog) (.op (.start x) :: acts) s = some s' ∧
          s'.fired.count x = s.fired.count x +
            if (s.timers.timer x).periodic then ticks acts / (s.timers.timer x).initTick.toNat
            else if (s.timers.timer x).initTick.toNat ≤ ticks acts then 1 else 0 := by
  obtain ⟨now, d, s, hr, hc⟩ := run_calm (P := fun _ => True)
    (fun hist i _ o ho => ⟨hprog hist i o ho, trivial⟩) hbefore (boot_calm tick periodic htime)
  refine ⟨s, hr, fun acts hacts hspare => ?_⟩
  have hwithin : prog.Within s.fired (· ≠ x) := fun hist i hold o ho =>
    ⟨hprog hist i o ho, hspare hist i hold o ho⟩
  have hT : 0 < (s.timers.timer x).initTick.toNat :=
    Nat.pos_of_ne_zero fun hz => hc.positive x (BitVec.eq_of_toNat_eq hz)
  have hp := start_passes (P := fun _ => True) (i := x) hc.good le_rfl hc.positive trivial
  have hidle : (rtTimerStart x s.timers).expiring = [] :=
    List.sublist_nil.mp (hc.idle ▸ hp.expiring)
  have hw : Watched s.fired x (s.timers.timer x).initTick.toNat (s.timers.timer x).periodic
      (armedAt (s.timers.timer x).periodic now (s.timers.timer x).initTick.toNat 0)
      (s.fired.count x + firings (s.timers.timer x).periodic
        (s.timers.timer x).initTick.toNat 0) (startAt now s.timers x d)
      (s.setTimers (rtTimerStart x s.timers)) := by
    have hin : x ∈ (rtTimerStart x s.timers).list := by
      rw [start_list_eq hc.good]
      exact mem_insertWhere.mpr (Or.inl rfl)
    refine ⟨List.suffix_refl _, by simp [Sys.setTimers, start_timer],
      by simp [Sys.setTimers, start_timer], by simp [Sys.setTimers, firings], ?_, ?_⟩
    · simp only [Sys.setTimers, hin, true_iff, armedAt]
      split_ifs <;> rfl
    · intro D hD
      simp only [startAt, Function.update_self]
      cases hper : (s.timers.timer x).periodic <;> simp [armedAt, hper, hT] at hD <;> omega
  obtain ⟨s', hr', hcount⟩ := run_watched (k := 0) hwithin hacts
    ⟨hp.good, hp.positive, hidle⟩ hw
  refine ⟨s', (run_cons _).mpr ⟨_, rfl, hr'⟩, hcount.trans ?_⟩
  rw [Nat.zero_add, firings]
  congr 1
  split_ifs with h1 h2
  · rfl
  · have := (Nat.one_le_div_iff hT).mpr h2
    omega
  · rw [Nat.div_eq_of_lt (not_le.mp h2)]
    rfl

/-- The theorem for a periodic timer of three ticks over seven ticks, with a wrap of the counter; its
callback starts a one-shot timer. -/
theorem timer_fires_exactly_wrapped :
    ∃ s : Sys Bool, run (exec fun _ i => if i then [.start false] else []) []
        (boot 0xFFFFFFFE (fun _ => 3) id) = some s ∧
      ∃ s', run (exec fun _ i => if i then [.start false] else [])
          (.op (.start true) :: List.replicate 7 .tick) s = some s' ∧
        s'.fired.count true = s.fired.count true +
          if (s.timers.timer true).periodic then
            ticks (List.replicate 7 (.tick : Act Bool)) / (s.timers.timer true).initTick.toNat
          else if (s.timers.timer true).initTick.toNat ≤
            ticks (List.replicate 7 (.tick : Act Bool)) then 1 else 0 := by
  have hprog : ∀ (i : Bool), ∀ o ∈ (if i then [.start false] else [] : List (Op Bool)),
      o.Fits ∧ o.timer ≠ true := by
    rintro (_ | _) o ho
    · simp at ho
    · cases List.mem_singleton.mp ho
      exact ⟨trivial, Bool.false_ne_true⟩
  obtain ⟨s, hr, h⟩ := timer_fires_exactly (fun _ i => if i then [.start false] else [])
    (fun _ i o ho => (hprog i o ho).1) 0xFFFFFFFE (fun _ => 3) id (fun _ => by decide) []
    (by simp) true
  refine ⟨s, hr, h _ (fun b hb => ?_) fun _ i _ o ho => (hprog i o ho).2⟩
  rw [List.eq_of_mem_replicate hb]
  exact ⟨trivial, trivial⟩

/-! ### Without ticks -/

/-- **A periodic timer of 0 ticks is never done.** `rt_timer_init` and `RT_TIMER_CTRL_SET_TIME`
allow it; once it has expired and the other timers lie ahead, each round of `rt_timer_check` starts
it again with a deadline that has already come. -/
theorem check_never_returns (prog : Callbacks ι) {i : ι} (hprog : ∀ hist, prog hist i = []) :
    ∀ (fuel : ℕ) (s : Sys ι) (rest : List ι), s.timers.list = i :: rest → i ∉ rest →
      s.timers.expiring = [] → expired s.timers i = true → (s.timers.timer i).initTick = 0 →
      (s.timers.timer i).periodic = true → (s.timers.timer i).activated = true →
      (∀ j ∈ rest, comesAfter s.timers.tick (s.timers.timer j) = true) →
      check prog fuel s = none
  | 0, _, _, _, _, _, _, _, _, _, _ => rfl
  | fuel + 1, s, rest, hl, hnot, hidle, hexp, hz, hp, ha, hrest => by
    let tm : Timers ι := { timerRemove i s.timers with expiring := [i] }
    let s' : Sys ι := { timers := tm, fired := i :: s.fired }
    let off : Timers ι := (timerRemove i tm).modify i fun t => { t with activated := false }
    have hcall : callback prog i (s.setTimers (beforeCallback i s.timers)) = some s' := by
      simp [callback, hprog, run, beforeCallback, hp, hidle, Sys.setTimers, s', tm]
    have hafter : afterCallback i tm = rtTimerStart i off := by
      simp [afterCallback, tm, off, hp, ha]
    have hother : ∀ j ∈ rest, (rtTimerStart i off).timer j = s.timers.timer j := by
      intro j hj
      have hji : j ≠ i := fun hji => hnot (hji ▸ hj)
      rw [start_timer_of_ne _ hji, modify_of_ne _ _ hji]
      rfl
    -- the timer is back at the head, due now
    have hlist : (rtTimerStart i off).list = i :: rest := by
      have herase : off.list.erase i = rest := by
        simp [off, tm, hl, List.erase_of_not_mem hnot]
      rw [start_list, herase]
      rcases rest with _ | ⟨j, rest⟩
      · rfl
      · have htick : off.tick + (off.timer i).initTick = s.timers.tick := by
          simp [off, tm, hz]
        rw [insertWhere_cons, hother j List.mem_cons_self, htick,
          hrest j List.mem_cons_self, if_pos rfl]
    have ih := check_never_returns prog hprog fuel (s'.setTimers (rtTimerStart i off)) rest hlist
      hnot (by simp [Sys.setTimers, off, tm])
      (by simp [Sys.setTimers, expired, start_timer, off, tm, hz, TICK_HALF])
      (by simp [Sys.setTimers, start_timer, off, tm, hz])
      (by simp [Sys.setTimers, start_timer, off, tm, hp]) (by simp [Sys.setTimers, start_timer])
      (fun j hj => (congrArg _ (hother j hj)).trans (hrest j hj))
    rw [← hafter] at ih
    simp only [check, rtTimerCheck, hl, hexp, if_true, hcall, Option.bind_some]
    exact ih

/-- The theorem for such a timer alone, one tick after its start, and a thousand rounds. -/
theorem check_never_returns_alone :
    check (fun _ _ => []) 1000
      ⟨⟨fun _ : Bool => ⟨0, 4, true, true⟩, [true], [], 5⟩, []⟩ = none :=
  check_never_returns (fun _ _ => []) (fun _ => rfl) 1000 _ [] rfl (by simp) rfl (by decide) rfl rfl
    rfl (by simp)

end RtosExample.Kernel.Firing
