import RtosExample.Kernel.Sched
import Mathlib.Data.Nat.Find

/-! # The ready queue

`Queues`: a thread is in the ready list of its priority exactly if its state says so, and a bit of
`rt_thread_ready_priority_group` is set exactly if the list of that priority is not empty. In the
middle of an operation one thread may be left out of account.

* `remove_queues`, `insert_queues`, `modify_queues`: the steps every operation is made of;
* `highest_spec`: the lowest bit leads to a thread with the highest priority there is. -/

namespace RtosExample.Kernel.ReadyQueue

open RtosExample.Cint RtosExample.Kernel.TimerList RtosExample.Kernel.Sched

/-! ### The lowest bit -/

theorem rtFfs_spec {v : U32} (h : v ≠ 0) :
    1 ≤ rtFfs v ∧ v.getLsbD (rtFfs v - 1) = true ∧
      ∀ j, j < rtFfs v - 1 → v.getLsbD j = false := by
  obtain ⟨i, hi, hb⟩ : ∃ i < 32, v.getLsbD i = true := by
    by_contra hc
    push Not at hc
    exact h (BitVec.eq_of_getLsbD_eq fun i hi => by simpa using hc i hi)
  rcases hf : (List.range 32).find? fun i => v.getLsbD i with _ | a
  · have := List.find?_eq_none.mp hf i (List.mem_range.mpr hi)
    exact absurd hb this
  · obtain ⟨ha, hbefore⟩ := List.find?_range_eq_some.mp hf
    have he : rtFfs v = a + 1 := by simp [rtFfs, hf]
    rw [he, Nat.add_sub_cancel]
    refine ⟨by omega, ha, fun j hj => ?_⟩
    simpa using hbefore.2 j hj

variable {τ μ : Type}

/-! ### The fields after the small steps -/

section Fields

variable (k : Os τ μ) (t u : τ) (f : Thread → Thread) (tm : Timers τ)

@[simp] theorem setTimers_thread : (k.setTimers tm).thread = k.thread := rfl
@[simp] theorem setTimers_timers : (k.setTimers tm).timers = tm := rfl
@[simp] theorem setTimers_table : (k.setTimers tm).table = k.table := rfl
@[simp] theorem setTimers_current : (k.setTimers tm).current = k.current := rfl

variable [DecidableEq τ]

@[simp] theorem modify_self : (k.modify t f).thread t = f (k.thread t) := Function.update_self ..

theorem modify_of_ne {t u : τ} (h : u ≠ t) : (k.modify t f).thread u = k.thread u :=
  Function.update_of_ne h ..

@[simp] theorem modify_timers : (k.modify t f).timers = k.timers := rfl
@[simp] theorem modify_table : (k.modify t f).table = k.table := rfl
@[simp] theorem modify_group : (k.modify t f).group = k.group := rfl
@[simp] theorem modify_current : (k.modify t f).current = k.current := rfl
@[simp] theorem modify_lockNest : (k.modify t f).lockNest = k.lockNest := rfl
@[simp] theorem modify_mutex : (k.modify t f).mutex = k.mutex := rfl
@[simp] theorem modify_waiting : (k.modify t f).waiting = k.waiting := rfl
@[simp] theorem modify_defunct : (k.modify t f).defunct = k.defunct := rfl

end Fields

/-! ### The invariant -/

/-- **The ready queue is in order**, where `out`, if it is a thread, is in no list. -/
structure Queues (out : Option τ) (k : Os τ μ) : Prop where
  mem : ∀ t p, t ∈ k.table p ↔ out ≠ some t ∧ (k.thread t).stat = .ready ∧ k.prio t = p
  nodup : ∀ p, (k.table p).Nodup
  bit : ∀ p, k.group.getLsbD p = true ↔ k.table p ≠ []
  prio : ∀ t, k.prio t < 32
  mask : ∀ t, (k.thread t).stat ≠ .init → (k.thread t).numberMask = (1 : U32) <<< k.prio t

variable {k : Os τ μ} {t : τ} {out : Option τ}

/-- A thread that is not ready may be left out, and taken in again. -/
theorem queues_out (h : (k.thread t).stat ≠ .ready) : Queues none k ↔ Queues (some t) k := by
  have key : ∀ u p, ((none : Option τ) ≠ some u ∧ (k.thread u).stat = .ready ∧ k.prio u = p) ↔
      ((some t : Option τ) ≠ some u ∧ (k.thread u).stat = .ready ∧ k.prio u = p) := by
    intro u p
    constructor
    · rintro ⟨-, h1, h2⟩
      exact ⟨fun he => h (Option.some.inj he ▸ h1), h1, h2⟩
    · rintro ⟨-, h1, h2⟩
      exact ⟨nofun, h1, h2⟩
  constructor <;> intro hq
  · exact { hq with mem := fun u p => (hq.mem u p).trans (key u p) }
  · exact { hq with mem := fun u p => (hq.mem u p).trans (key u p).symm }

theorem setTimers_queues (h : Queues out k) (tm : Timers τ) : Queues out (k.setTimers tm) :=
  ⟨h.mem, h.nodup, h.bit, h.prio, h.mask⟩

variable [DecidableEq τ]

theorem modify_queues (h : Queues (some t) k) {f : Thread → Thread}
    (hp : (f (k.thread t)).currentPriority.toNat < 32)
    (hm : (f (k.thread t)).stat ≠ .init →
      (f (k.thread t)).numberMask = (1 : U32) <<< (f (k.thread t)).currentPriority.toNat) :
    Queues (some t) (k.modify t f) where
  mem u p := by
    by_cases hu : u = t
    · subst hu
      simpa using h.mem u p
    · rw [Os.prio, modify_of_ne _ _ hu]
      exact h.mem u p
  nodup := h.nodup
  bit := h.bit
  prio u := by
    by_cases hu : u = t
    · subst hu
      rwa [Os.prio, modify_self]
    · rw [Os.prio, modify_of_ne _ _ hu]
      exact h.prio u
  mask u := by
    by_cases hu : u = t
    · subst hu
      rwa [Os.prio, modify_self]
    · rw [Os.prio, modify_of_ne _ _ hu]
      exact h.mask u

theorem modify_queues_same (h : Queues out k) {f : Thread → Thread}
    (hs : (f (k.thread t)).stat = (k.thread t).stat)
    (hp : (f (k.thread t)).currentPriority = (k.thread t).currentPriority)
    (hm : (f (k.thread t)).numberMask = (k.thread t).numberMask) :
    Queues out (k.modify t f) := by
  have key : ∀ u, ((k.modify t f).thread u).stat = (k.thread u).stat ∧
      (k.modify t f).prio u = k.prio u ∧
      ((k.modify t f).thread u).numberMask = (k.thread u).numberMask := by
    intro u
    by_cases hu : u = t
    · subst hu
      simp [Os.prio, hs, hp, hm]
    · simp [Os.prio, modify_of_ne _ _ hu]
  refine ⟨fun u p => ?_, h.nodup, h.bit, fun u => ?_, fun u => ?_⟩
  · rw [(key u).1, (key u).2.1]
    exact h.mem u p
  · rw [(key u).2.1]
    exact h.prio u
  · rw [(key u).1, (key u).2.1, (key u).2.2]
    exact h.mask u

/-! ### Taking a thread out -/

section Remove

variable (k t)

theorem remove_cases : ∃ g, rtScheduleRemoveThread t k = { unlink t k with group := g } := by
  unfold rtScheduleRemoveThread
  dsimp only
  split_ifs
  · exact ⟨_, rfl⟩
  · exact ⟨_, rfl⟩

@[simp] theorem remove_thread : (rtScheduleRemoveThread t k).thread = k.thread := by
  obtain ⟨g, hg⟩ := remove_cases k t
  rw [hg]
  rfl

@[simp] theorem remove_timers : (rtScheduleRemoveThread t k).timers = k.timers := by
  obtain ⟨g, hg⟩ := remove_cases k t
  rw [hg]
  rfl

@[simp] theorem remove_table (p : ℕ) :
    (rtScheduleRemoveThread t k).table p = (k.table p).erase t := by
  obtain ⟨g, hg⟩ := remove_cases k t
  rw [hg]
  rfl

@[simp] theorem remove_current : (rtScheduleRemoveThread t k).current = k.current := by
  obtain ⟨g, hg⟩ := remove_cases k t
  rw [hg]
  rfl

@[simp] theorem remove_lockNest : (rtScheduleRemoveThread t k).lockNest = k.lockNest := by
  obtain ⟨g, hg⟩ := remove_cases k t
  rw [hg]
  rfl

@[simp] theorem remove_mutex : (rtScheduleRemoveThread t k).mutex = k.mutex := by
  obtain ⟨g, hg⟩ := remove_cases k t
  rw [hg]
  rfl

@[simp] theorem remove_waiting (m : μ) :
    (rtScheduleRemoveThread t k).waiting m = (k.waiting m).erase t := by
  obtain ⟨g, hg⟩ := remove_cases k t
  rw [hg]
  rfl

@[simp] theorem remove_defunct : (rtScheduleRemoveThread t k).defunct = k.defunct.erase t := by
  obtain ⟨g, hg⟩ := remove_cases k t
  rw [hg]
  rfl

end Remove

theorem getLsbD_shift (p q : ℕ) (hp : p < 32) :
    ((1 : U32) <<< p).getLsbD q = decide (q = p) := by
  rw [BitVec.getLsbD_shiftLeft]
  by_cases h : q = p
  · subst h
    simp [hp]
  · by_cases hlt : q < p
    · simp [hlt, h]
    · have h1 : q - p ≠ 0 := by omega
      simp [hlt, h, h1, BitVec.getLsbD_one]

theorem remove_group (p : ℕ) (hp : k.prio t < 32)
    (hm : (k.thread t).numberMask = (1 : U32) <<< k.prio t) :
    (rtScheduleRemoveThread t k).group.getLsbD p =
      (k.group.getLsbD p && !(((k.table (k.prio t)).erase t).isEmpty && decide (p = k.prio t))) := by
  have hprio : (unlink t k).prio t = k.prio t := rfl
  unfold rtScheduleRemoveThread
  dsimp only
  rw [hprio]
  change BitVec.getLsbD (if ((k.table (k.prio t)).erase t).isEmpty = true then _ else _ : Os τ μ).group
    p = _
  split_ifs with he
  · change (k.group &&& ~~~(k.thread t).numberMask).getLsbD p = _
    rw [hm, BitVec.getLsbD_and, BitVec.getLsbD_not, getLsbD_shift _ _ hp, he, Bool.true_and]
    by_cases hlt : p < 32
    · simp [hlt]
    · rw [BitVec.getLsbD_of_ge _ _ (not_lt.mp hlt)]
      rfl
  · change k.group.getLsbD p = _
    simp [he]

theorem remove_queues (h : Queues none k) (hi : (k.thread t).stat ≠ .init) :
    Queues (some t) (rtScheduleRemoveThread t k) where
  mem u p := by
    have hprio : (rtScheduleRemoveThread t k).prio u = k.prio u := by
      rw [Os.prio, remove_thread, Os.prio]
    rw [remove_table, (h.nodup p).mem_erase_iff, h.mem, hprio, remove_thread]
    simp only [ne_eq, reduceCtorEq, not_false_eq_true, true_and, Option.some.injEq]
    exact and_congr_left fun _ => not_congr eq_comm
  nodup p := by
    rw [remove_table]
    exact (h.nodup p).sublist List.erase_sublist
  bit p := by
    rw [remove_group p (h.prio t) (h.mask t hi), remove_table]
    by_cases hp : p = k.prio t
    · subst hp
      by_cases he : (k.table (k.prio t)).erase t = []
      · simp [he]
      · have hne : k.table (k.prio t) ≠ [] := fun hz => he (by simp [hz])
        have hemp : ((k.table (k.prio t)).erase t).isEmpty = false := by simp [he]
        simp only [hemp, Bool.false_and, Bool.not_false, Bool.and_true]
        exact ⟨fun _ => he, fun _ => (h.bit _).mpr hne⟩
    · have hmem : t ∉ k.table p := fun hm => hp ((h.mem t p).mp hm).2.2.symm
      rw [List.erase_of_not_mem hmem]
      simp [hp, h.bit]
  prio u := by
    rw [Os.prio, remove_thread]
    exact h.prio u
  mask u := by
    rw [Os.prio, remove_thread]
    exact h.mask u

/-! ### Putting a thread in -/

section Insert

variable (k t)

theorem insert_thread : (rtScheduleInsertThread t k).thread = (k.modify t fun th =>
    { th with stat := if k.current = some t then .running else .ready }).thread := by
  unfold rtScheduleInsertThread
  split_ifs <;> rfl

theorem insert_table (p : ℕ) : (rtScheduleInsertThread t k).table p =
    if k.current ≠ some t ∧ p = k.prio t then k.table p ++ [t] else k.table p := by
  have hp : (k.modify t fun th => { th with stat := .ready }).prio t = k.prio t := by
    simp [Os.prio]
  unfold rtScheduleInsertThread
  by_cases hc : k.current = some t
  · simp [hc]
  · simp only [hc, if_false, ne_eq, not_false_eq_true, true_and, hp, modify_table]
    by_cases he : p = k.prio t
    · subst he
      simp
    · simp [he]

theorem insert_group (p : ℕ) : (rtScheduleInsertThread t k).group.getLsbD p =
    (k.group.getLsbD p || (!decide (k.current = some t) && (k.thread t).numberMask.getLsbD p)) := by
  unfold rtScheduleInsertThread
  by_cases hc : k.current = some t
  · simp [hc]
  · simp [hc]

@[simp] theorem insert_timers : (rtScheduleInsertThread t k).timers = k.timers := by
  unfold rtScheduleInsertThread
  split_ifs <;> rfl

@[simp] theorem insert_current : (rtScheduleInsertThread t k).current = k.current := by
  unfold rtScheduleInsertThread
  split_ifs <;> rfl

@[simp] theorem insert_lockNest : (rtScheduleInsertThread t k).lockNest = k.lockNest := by
  unfold rtScheduleInsertThread
  split_ifs <;> rfl

@[simp] theorem insert_mutex : (rtScheduleInsertThread t k).mutex = k.mutex := by
  unfold rtScheduleInsertThread
  split_ifs <;> rfl

@[simp] theorem insert_waiting : (rtScheduleInsertThread t k).waiting = k.waiting := by
  unfold rtScheduleInsertThread
  split_ifs <;> rfl

@[simp] theorem insert_defunct : (rtScheduleInsertThread t k).defunct = k.defunct := by
  unfold rtScheduleInsertThread
  split_ifs <;> rfl

end Insert

/-- **A thread that was left out becomes ready**, or runs on if it is the current one. -/
theorem insert_queues (h : Queues (some t) k) (hi : (k.thread t).stat ≠ .init) :
    Queues none (rtScheduleInsertThread t k) := by
  have hprio : ∀ u, (rtScheduleInsertThread t k).prio u = k.prio u := by
    intro u
    rw [Os.prio, insert_thread]
    by_cases hu : u = t
    · subst hu
      rw [modify_self]
      rfl
    · rw [modify_of_ne _ _ hu]
      rfl
  have hmask : ∀ u, ((rtScheduleInsertThread t k).thread u).numberMask =
      (k.thread u).numberMask := by
    intro u
    rw [insert_thread]
    by_cases hu : u = t
    · subst hu
      rw [modify_self]
    · rw [modify_of_ne _ _ hu]
  have hnot : ∀ p, t ∉ k.table p := fun p hm => ((h.mem t p).mp hm).1 rfl
  refine ⟨fun u p => ?_, fun p => ?_, fun p => ?_, fun u => ?_, fun u => ?_⟩
  · rw [insert_table, hprio, insert_thread]
    by_cases hu : u = t
    · subst hu
      rw [modify_self]
      by_cases hc : k.current = some u
      · simp [hc, hnot p]
      · by_cases hp : p = k.prio u
        · simp [hc, hp]
        · simp [hc, hp, hnot p, Ne.symm hp]
    · rw [modify_of_ne _ _ hu]
      have hm := h.mem u p
      simp only [ne_eq, Option.some.injEq, Ne.symm hu, not_false_eq_true, true_and] at hm
      split_ifs with hc
      · simp [hu, hm]
      · simp [hm]
  · rw [insert_table]
    split_ifs
    · exact List.nodup_append.mpr ⟨h.nodup p, List.nodup_singleton t, fun a ha b hb hab =>
        hnot p ((hab.trans (List.mem_singleton.mp hb)) ▸ ha)⟩
    · exact h.nodup p
  · rw [insert_group, insert_table, h.mask t hi, getLsbD_shift _ _ (h.prio t)]
    have hb := h.bit p
    by_cases hc : k.current = some t
    · simpa [hc] using hb
    · by_cases hp : p = k.prio t
      · simp [hc, hp]
      · simpa [hc, hp] using hb
  · rw [hprio]
    exact h.prio u
  · rw [hprio, hmask]
    intro hs
    by_cases hu : u = t
    · subst hu
      exact h.mask u hi
    · refine h.mask u ?_
      rwa [insert_thread, modify_of_ne _ _ hu] at hs

/-! ### Choosing the next thread -/

omit [DecidableEq τ] in
/-- **The lowest bit leads to a thread of the highest priority.** -/
theorem highest_spec (h : Queues none k) (hg : k.group ≠ 0) : ∃ u,
    schedulerGetHighestPriorityThread k = some (u, k.prio u) ∧ (k.thread u).stat = .ready ∧
      (k.table (k.prio u)).head? = some u ∧ ∀ v, (k.thread v).stat = .ready → k.prio u ≤ k.prio v := by
  obtain ⟨h1, hb, hlow⟩ := rtFfs_spec hg
  obtain ⟨u, rest, hu⟩ := List.exists_cons_of_ne_nil ((h.bit _).mp hb)
  obtain ⟨-, hs, hp⟩ := (h.mem u _).mp (hu ▸ List.mem_cons_self)
  have hhead : (k.table (k.prio u)).head? = some u := by
    rw [hp, hu]
    rfl
  refine ⟨u, ?_, hs, hhead, fun v hv => ?_⟩
  · rw [schedulerGetHighestPriorityThread, ← hp, hhead]
    rfl
  · by_contra hlt
    have hv' : v ∈ k.table (k.prio v) := (h.mem v _).mpr ⟨nofun, hv, rfl⟩
    have := (h.bit (k.prio v)).mpr (List.ne_nil_of_mem hv')
    rw [hlow _ (by omega)] at this
    exact absurd this (by decide)

omit [DecidableEq τ] in
theorem group_eq_zero (h : Queues none k) (hg : k.group = 0) (u : τ) :
    (k.thread u).stat ≠ .ready := by
  intro hu
  have hm : u ∈ k.table (k.prio u) := (h.mem u _).mpr ⟨nofun, hu, rfl⟩
  have := (h.bit (k.prio u)).mpr (List.ne_nil_of_mem hm)
  simp [hg] at this

end RtosExample.Kernel.ReadyQueue
