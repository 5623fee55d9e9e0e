import RtosExample.Kernel.Dispatch
import RtosExample.Kernel.Mutex

/-! # What the kernel's functions do

Each function that moves a thread is the old kernel with some fields set, a ready queue apart that
is in order (`Queues`). That the queue holds the right threads then follows from the states of the
threads, so nobody looks into `table` and `group` any more.

`lvl` is the state of a thread but for who has the processor, which is all that the other parts of
the kernel depend on; `rt_schedule` keeps it (`switch_lvl`). -/

namespace RtosExample.Kernel.Effects

open RtosExample.Cint RtosExample.Lib.Queue RtosExample.Kernel.TimerList RtosExample.Kernel.Sched
open RtosExample.Kernel.Mutex RtosExample.Kernel.ReadyQueue RtosExample.Kernel.Dispatch

/-! ### Levels -/

/-- The state, where running is ready. -/
def level : Stat → Stat
  | .running => .ready
  | s => s

theorem level_eq_ready {s : Stat} : level s = .ready ↔ s = .ready ∨ s = .running := by
  cases s <;> simp [level]

theorem level_eq {s s' : Stat} (h : s' ≠ .ready) (h' : s' ≠ .running) : level s = s' ↔ s = s' := by
  cases s <;> cases s' <;> simp [level] at *

variable {τ μ : Type} {k k' : Os τ μ} {c c' t : τ}

/-- The level of a thread. -/
def lvl (k : Os τ μ) (t : τ) : Stat := level (k.thread t).stat

theorem lvl_suspend : lvl k t = .suspend ↔ (k.thread t).stat = .suspend :=
  level_eq (by decide) (by decide)

theorem lvl_close : lvl k t = .close ↔ (k.thread t).stat = .close :=
  level_eq (by decide) (by decide)

theorem lvl_init : lvl k t = .init ↔ (k.thread t).stat = .init :=
  level_eq (by decide) (by decide)

variable [DecidableEq τ]

theorem switch_lvl (h : Switch k k' c c') (t : τ) : lvl k' t = lvl k t := by
  by_cases he : c' = c
  · by_cases ht : t = c
    · have h1 := h.running
      rw [he] at h1
      rw [ht, lvl, lvl, h1, h.stays he]
    · rw [lvl, lvl, h.other t ht (he ▸ ht)]
  · by_cases hc : t = c
    · have h1 := h.left he
      rw [hc, lvl, lvl, h1]
      split_ifs with hr
      · rw [hr]
        rfl
      · rfl
    · by_cases hc' : t = c'
      · rw [hc', lvl, lvl, h.running, (h.chosen he).1]
        rfl
      · rw [lvl, lvl, h.other t hc hc']

/-! ### Moving a thread -/

omit [DecidableEq τ] in
theorem Queues.congr {out : Option τ} (h : Queues out k) (ht : k'.thread = k.thread)
    (htb : k'.table = k.table) (hg : k'.group = k.group) : Queues out k' where
  mem u p := by
    rw [htb, Os.prio, ht]
    exact h.mem u p
  nodup p := htb ▸ h.nodup p
  bit p := by
    rw [htb, hg]
    exact h.bit p
  prio u := by
    rw [Os.prio, ht]
    exact h.prio u
  mask u := by
    rw [Os.prio, ht]
    exact h.mask u

theorem leave_spec (h : Queues none k) (hr : (k.thread c).stat = .running) (hf : Free k c)
    (f : Thread → Thread) (hs : (f (k.thread c)).stat ≠ .ready)
    (hp : (f (k.thread c)).currentPriority = (k.thread c).currentPriority)
    (hm : (f (k.thread c)).numberMask = (k.thread c).numberMask) :
    ∃ table group, let k' : Os τ μ :=
        { k with thread := Function.update k.thread c (f (k.thread c)), table, group }
      (rtScheduleRemoveThread c k).modify c f = k' ∧ Queues none k' := by
  have hi : (k.thread c).stat ≠ .init := by rw [hr]; decide
  have hq : Queues none ((rtScheduleRemoveThread c k).modify c f) := by
    refine (queues_out (t := c) ?_).mpr (modify_queues (remove_queues h hi) ?_ ?_)
    · rw [ReadyQueue.modify_self, remove_thread]
      exact hs
    · rw [remove_thread, hp]
      exact h.prio c
    · rw [remove_thread, hp, hm]
      exact fun _ => h.mask c hi
  obtain ⟨g, hg⟩ := remove_cases k c
  obtain ⟨hw, hd⟩ := unlink_free hf
  refine ⟨fun p => (k.table p).erase c, g, ?_, ?_⟩
  · rw [hg]
    simp only [Os.modify, unlink] at *
    rw [hw, hd]
  · exact Queues.congr hq (by rw [hg]; rfl) (by rw [hg]; rfl) (by rw [hg]; rfl)

theorem insert_cases (k : Os τ μ) (t : τ) : ∃ table group, rtScheduleInsertThread t k = { k with
    thread := Function.update k.thread t { k.thread t with
      stat := if k.current = some t then .running else .ready }
    table, group } := by
  unfold rtScheduleInsertThread
  by_cases hc : k.current = some t
  · rw [if_pos hc, if_pos hc]
    exact ⟨_, _, rfl⟩
  · rw [if_neg hc, if_neg hc]
    exact ⟨_, _, rfl⟩

/-- A thread that is not ready comes back, out of whatever list it is in. -/
theorem wake_spec (h : Queues none k) (hs : (k.thread t).stat = .suspend) :
    ∃ table group, let k' : Os τ μ := { k with
        thread := Function.update k.thread t { k.thread t with
          stat := if k.current = some t then .running else .ready }
        table, group
        waiting := fun m => (k.waiting m).erase t
        defunct := k.defunct.erase t }
      rtScheduleInsertThread t (unlink t k) = k' ∧ Queues none k' := by
  have hnot : ∀ p, t ∉ k.table p := by
    intro p hm
    have := ((h.mem t p).mp hm).2.1
    rw [hs] at this
    exact absurd this (by decide)
  have hq : Queues none (unlink t k) := Queues.congr h rfl
    (funext fun p => List.erase_of_not_mem (hnot p)) rfl
  have hq' := insert_queues ((queues_out (t := t) (by
    change (k.thread t).stat ≠ _
    rw [hs]
    decide)).mp hq) (by
    change (k.thread t).stat ≠ _
    rw [hs]
    decide)
  obtain ⟨table, group, he⟩ := insert_cases (unlink t k) t
  exact ⟨table, group, he, he ▸ hq'⟩

theorem control_spec (h : Queues none k) (ho : (k.thread t).type = .thread) {p : U8}
    (hp : p.toNat < 32) (hf : (k.thread t).stat = .ready → k.current ≠ some t ∧ Free k t) :
    ∃ table group, let k' : Os τ μ := { k with
        thread := Function.update k.thread t { k.thread t with
          currentPriority := p, numberMask := (1 : U32) <<< p.toNat }
        table, group }
      rtThreadControl t p k = some k' ∧ Queues none k' := by
  let f : Thread → Thread := fun th =>
    { th with currentPriority := p, numberMask := (1 : U32) <<< p.toNat }
  have hff : ∀ k : Os τ μ, (k.modify t fun th => { th with currentPriority := p }).modify t
      (fun th => { th with numberMask := (1 : U32) <<< th.currentPriority.toNat }) =
      k.modify t f := by
    intro k
    simp [Os.modify, f]
  rw [rtThreadControl, if_pos ho, changePriority]
  simp only [hff]
  split_ifs with hs
  · -- out of the old list and into the new one
    have hi : (k.thread t).stat ≠ .init := by rw [hs]; decide
    obtain ⟨hcur, hfree⟩ := hf hs
    have hq := modify_queues (f := f) (remove_queues h hi) (by simpa [f] using hp)
      (by simp [f])
    have hq' := insert_queues hq (by simpa [f] using hi)
    obtain ⟨table, group, he⟩ := insert_cases ((rtScheduleRemoveThread t k).modify t f) t
    obtain ⟨g, hg⟩ := remove_cases k t
    obtain ⟨hw, hd⟩ := unlink_free hfree
    have he' : rtScheduleInsertThread t ((rtScheduleRemoveThread t k).modify t f) = { k with
        thread := Function.update k.thread t { k.thread t with
          currentPriority := p, numberMask := (1 : U32) <<< p.toNat }
        table, group } := by
      rw [he, hg]
      simp only [unlink] at hw hd
      simp only [Os.modify, unlink, hw, hd, Function.update_self, Function.update_idem, f, hcur,
        if_false, hs]
    exact ⟨table, group, congrArg some he', he' ▸ hq'⟩
  · refine ⟨k.table, k.group, rfl, ?_⟩
    have := modify_queues (f := f) ((queues_out (t := t) hs).mp h) hp fun _ => rfl
    exact (queues_out (t := t) (by simpa [Os.modify, f] using hs)).mpr this

end RtosExample.Kernel.Effects
