import RtosExample.Kernel.TimerList
import Mathlib.Data.Finset.Card

/-! # Timers on a clock that does not wrap

`rt_tick` and the timeouts of the timers are 32-bit words; a test of `timer.c` subtracts two of them
and asks whether the difference is in the lower half. Here the same timers have deadlines `d` on a
clock `now` that counts on (`Good`), and the tests are comparisons of deadlines: `comesAfter_iff`,
`expired_iff`. So the list is a queue in the order of the deadlines (`Lib.Queue`), and what a start,
a stop and a round of `rt_timer_check` do is said without a word of arithmetic on words
(`start_good`, `remove_good`, `check_rule`). -/

namespace RtosExample.Kernel.Deadlines

open RtosExample.Cint RtosExample.Lib.Queue RtosExample.Kernel.TimerList

variable {ι : Type}

theorem half_toNat : TICK_HALF.toNat = 2147483647 := by decide

/-- The words of two times that are not too far apart are subtracted as the times are. -/
theorem sub_lt_half_iff {a b : ℕ} (h : a ≤ b + 2147483647) (h' : b ≤ a + 2147483647) :
    BitVec.ofNat 32 a - BitVec.ofNat 32 b < TICK_HALF ↔ b ≤ a ∧ a < b + 2147483647 := by
  rw [BitVec.lt_def, half_toNat, BitVec.toNat_sub, BitVec.toNat_ofNat, BitVec.toNat_ofNat]
  omega

theorem sub_eq_zero_iff {a b : ℕ} (h : a ≤ b + 2147483647) (h' : b ≤ a + 2147483647) :
    BitVec.ofNat 32 a - BitVec.ofNat 32 b = 0 ↔ a = b := by
  rw [← BitVec.toNat_inj, BitVec.toNat_sub, BitVec.toNat_ofNat, BitVec.toNat_ofNat]
  simp only [BitVec.ofNat_eq_ofNat, BitVec.toNat_ofNat]
  omega

/-- **The timers at the time `now`, with deadlines `d`**, none of which is before `lo`. -/
structure Good (lo now : ℕ) (d : ι → ℕ) (s : Timers ι) : Prop where
  near : now ≤ lo + 1
  tick : s.tick = BitVec.ofNat 32 now
  nodup : s.list.Nodup
  sorted : Sorted d s.list
  activated : ∀ i ∈ s.list, (s.timer i).activated = true
  timeout : ∀ i ∈ s.list, (s.timer i).timeoutTick = BitVec.ofNat 32 (d i)
  low : ∀ i ∈ s.list, lo ≤ d i
  high : ∀ i ∈ s.list, d i < now + 2147483647
  init : ∀ i, (s.timer i).initTick < TICK_HALF

variable {lo now : ℕ} {d : ι → ℕ} {s : Timers ι}

/-- No timer has started: any lower bound will do. -/
theorem good_of_nil (h : s.list = []) (ht : s.tick = BitVec.ofNat 32 now)
    (hi : ∀ i, (s.timer i).initTick < TICK_HALF) : Good now now d s where
  near := by omega
  tick := ht
  nodup := by simp [h]
  sorted := by simp [h, Sorted]
  activated := by simp [h]
  timeout := by simp [h]
  low := by simp [h]
  high := by simp [h]
  init := hi

/-! ### The two tests -/

theorem expired_iff (h : Good lo now d s) {i : ι} (hi : i ∈ s.list) :
    expired s i = true ↔ d i ≤ now := by
  have h1 := h.low i hi
  have h2 := h.high i hi
  have h3 := h.near
  rw [expired, h.tick, h.timeout i hi, decide_eq_true_iff,
    sub_lt_half_iff (by omega) (by omega)]
  omega

theorem comesAfter_iff {t : ℕ} (h : Good lo now d s) {i : ι} (hi : i ∈ s.list) (h1 : now ≤ t)
    (h2 : t < now + 2147483647) :
    comesAfter (BitVec.ofNat 32 t) (s.timer i) = decide (t < d i) := by
  have h3 := h.low i hi
  have h4 := h.high i hi
  have h5 := h.near
  have hz := sub_eq_zero_iff (a := d i) (b := t) (by omega) (by omega)
  have hl := sub_lt_half_iff (a := d i) (b := t) (by omega) (by omega)
  rw [comesAfter, h.timeout i hi]
  by_cases he : d i = t
  · rw [if_pos (hz.mpr he)]
    simp [he]
  · rw [if_neg (mt hz.mp he)]
    by_cases hd : t < d i
    · rw [if_pos (hl.mpr ⟨by omega, by omega⟩)]
      simp [hd]
    · rw [if_neg (by rw [hl]; omega)]
      simp [hd]

theorem Good.ahead (h : Good lo now d s) (hd : ∀ i ∈ s.list, now < d i) : Good now now d s :=
  { h with near := by omega, low := fun i hi => (hd i hi).le }

theorem tick_good (h : Good now now d s) : Good now (now + 1) d { s with tick := s.tick + 1 } where
  near := le_rfl
  tick := by
    change s.tick + 1 = _
    rw [h.tick, BitVec.ofNat_add]
    rfl
  nodup := h.nodup
  sorted := h.sorted
  activated := h.activated
  timeout := h.timeout
  low := h.low
  high i hi := (h.high i hi).trans (by omega)
  init := h.init

/-! ### The operations -/

theorem good_of_timers (h : Good lo now d s) {s' : Timers ι} (hl : s'.list.Sublist s.list)
    (ht : s'.tick = s.tick)
    (ha : ∀ i ∈ s'.list, (s'.timer i).activated = (s.timer i).activated)
    (hto : ∀ i ∈ s'.list, (s'.timer i).timeoutTick = (s.timer i).timeoutTick)
    (hi : ∀ i, (s'.timer i).initTick < TICK_HALF) : Good lo now d s' where
  near := h.near
  tick := ht.trans h.tick
  nodup := h.nodup.sublist hl
  sorted := h.sorted.sublist hl
  activated i hm := (ha i hm).trans (h.activated i (hl.subset hm))
  timeout i hm := (hto i hm).trans (h.timeout i (hl.subset hm))
  low i hm := h.low i (hl.subset hm)
  high i hm := h.high i (hl.subset hm)
  init := hi

variable [DecidableEq ι]

theorem not_mem_erase (h : Good lo now d s) (i : ι) : i ∉ s.list.erase i :=
  fun hm => (h.nodup.mem_erase_iff.mp hm).1 rfl

theorem remove_good (h : Good lo now d s) (i : ι) {f : Timer → Timer}
    (hf : (f (s.timer i)).initTick = (s.timer i).initTick) :
    Good lo now d ((timerRemove i s).modify i f) := by
  have hne : ∀ j ∈ s.list.erase i, j ≠ i := fun j hj hji => not_mem_erase h i (hji ▸ hj)
  refine good_of_timers h List.erase_sublist rfl
    (fun j hj => by rw [modify_of_ne _ _ (hne j hj), timerRemove_timer])
    (fun j hj => by rw [modify_of_ne _ _ (hne j hj), timerRemove_timer]) fun j => ?_
  by_cases hj : j = i
  · subst hj
    rw [modify_self, timerRemove_timer, hf]
    exact h.init j
  · rw [modify_of_ne _ _ hj]
    exact h.init j

theorem modify_good (h : Good lo now d s) (i : ι) {f : Timer → Timer}
    (ha : (f (s.timer i)).activated = (s.timer i).activated)
    (ht : (f (s.timer i)).timeoutTick = (s.timer i).timeoutTick)
    (hi : (f (s.timer i)).initTick < TICK_HALF) : Good lo now d (s.modify i f) := by
  have key : ∀ j, ((s.modify i f).timer j).activated = (s.timer j).activated ∧
      ((s.modify i f).timer j).timeoutTick = (s.timer j).timeoutTick ∧
      ((s.modify i f).timer j).initTick < TICK_HALF := by
    intro j
    by_cases hj : j = i
    · subst hj
      simp only [modify_self]
      exact ⟨ha, ht, hi⟩
    · rw [modify_of_ne _ _ hj]
      exact ⟨rfl, rfl, h.init j⟩
  exact good_of_timers h (List.Sublist.refl _) rfl (fun j _ => (key j).1)
    (fun j _ => (key j).2.1) fun j => (key j).2.2

/-- The deadlines after timer `i` has been started. -/
def startAt (now : ℕ) (s : Timers ι) (i : ι) (d : ι → ℕ) : ι → ℕ :=
  Function.update d i (now + (s.timer i).initTick.toNat)

theorem start_list_eq (h : Good lo now d s) (i : ι) : (rtTimerStart i s).list =
    enqueue (startAt now s i d) i (s.list.erase i) := by
  have hlt := BitVec.lt_def.mp (h.init i)
  rw [half_toNat] at hlt
  rw [start_list]
  refine insertWhere_congr fun j hj => ?_
  have hji : j ≠ i := fun hji => not_mem_erase h i (hji ▸ hj)
  have hw : s.tick + (s.timer i).initTick =
      BitVec.ofNat 32 (now + (s.timer i).initTick.toNat) := by
    rw [h.tick, BitVec.ofNat_add, BitVec.ofNat_toNat, BitVec.setWidth_eq]
  rw [hw, start_timer_of_ne _ hji, comesAfter_iff h (List.mem_of_mem_erase hj) (by omega)
    (by omega)]
  simp [startAt, hji]

theorem start_good (h : Good lo now d s) (hlo : lo ≤ now) (i : ι) :
    Good lo now (startAt now s i d) (rtTimerStart i s) := by
  have hlt := BitVec.lt_def.mp (h.init i)
  rw [half_toNat] at hlt
  have hother : ∀ j ∈ s.list.erase i, j ≠ i := fun j hj hji => not_mem_erase h i (hji ▸ hj)
  have hd : ∀ j ∈ s.list.erase i, startAt now s i d j = d j := fun j hj =>
    Function.update_of_ne (hother j hj) ..
  have hself : startAt now s i d i = now + (s.timer i).initTick.toNat :=
    Function.update_self ..
  have hmem : ∀ j ∈ (rtTimerStart i s).list, j = i ∨ j ∈ s.list.erase i := fun j hj =>
    mem_insertWhere.mp (start_list_eq h i ▸ hj)
  refine ⟨h.near, h.tick, ?_, ?_, ?_, ?_, ?_, ?_, ?_⟩
  · rw [start_list_eq h]
    exact nodup_insertWhere (h.nodup.sublist List.erase_sublist) (not_mem_erase h i)
  · rw [start_list_eq h]
    exact sorted_enqueue ((h.sorted.sublist List.erase_sublist).congr hd)
  · intro j hj
    rcases hmem j hj with rfl | hj
    · rw [start_timer]
    · rw [start_timer_of_ne _ (hother j hj)]
      exact h.activated j (List.mem_of_mem_erase hj)
  · intro j hj
    rcases hmem j hj with rfl | hj
    · rw [start_timer, hself, h.tick, BitVec.ofNat_add, BitVec.ofNat_toNat, BitVec.setWidth_eq]
    · rw [start_timer_of_ne _ (hother j hj), hd j hj]
      exact h.timeout j (List.mem_of_mem_erase hj)
  · intro j hj
    rcases hmem j hj with rfl | hj
    · omega
    · rw [hd j hj]
      exact h.low j (List.mem_of_mem_erase hj)
  · intro j hj
    rcases hmem j hj with rfl | hj
    · omega
    · rw [hd j hj]
      exact h.high j (List.mem_of_mem_erase hj)
  · intro j
    by_cases hj : j = i
    · subst hj
      rw [start_timer]
      exact h.init j
    · rw [start_timer_of_ne _ hj]
      exact h.init j

/-! ### A check -/

/-- The timers whose deadline has come. -/
def due (now : ℕ) (d : ι → ℕ) (s : Timers ι) : Finset ι := s.list.toFinset.filter fun i => d i ≤ now

@[simp] theorem mem_due {i : ι} : i ∈ due now d s ↔ i ∈ s.list ∧ d i ≤ now := by
  simp [due]

theorem card_due_le : (due now d s).card ≤ s.list.length :=
  (Finset.card_filter_le _ _).trans (List.toFinset_card_le _)

section Check

variable {σ : Type} (get : σ → Timers ι) (set : Timers ι → σ → σ) (callback : ι → σ → Option σ)

/-- **The rule for the loop of `rt_timer_check`.** If a round keeps `J` and leaves fewer timers
whose deadline has come, the loop comes to its end, with `J` and all deadlines ahead. -/
theorem check_rule {J : (ι → ℕ) → σ → Prop} (hJ : ∀ d s, J d s → Good lo now d (get s))
    (hround : ∀ d s i, J d s → i ∈ (get s).list → d i ≤ now →
      ∃ d' s', callback i (set (beforeCallback i (get s)) s) = some s' ∧
        J d' (set (afterCallback i (get s')) s') ∧
        due now d' (get (set (afterCallback i (get s')) s')) ⊂ due now d (get s)) :
    ∀ (fuel : ℕ) (d : ι → ℕ) (s : σ), J d s → (due now d (get s)).card < fuel →
      ∃ d' s', rtTimerCheck get set callback fuel s = some s' ∧ J d' s' ∧
        ∀ i ∈ (get s').list, now < d' i
  | 0, _, _, _, hf => absurd hf (Nat.not_lt_zero _)
  | fuel + 1, d, s, h, hf => by
    have hg := hJ d s h
    rcases hl : (get s).list with _ | ⟨i, rest⟩
    · exact ⟨d, s, by simp [rtTimerCheck, hl], h, by simp [hl]⟩
    have hi : i ∈ (get s).list := by simp [hl]
    by_cases hd : d i ≤ now
    · obtain ⟨d', s', hc, hj, hlt⟩ := hround d s i h hi hd
      have hcard := Finset.card_lt_card hlt
      obtain ⟨d'', s'', hr, hj', hlate⟩ := check_rule hJ hround fuel d' _ hj (by omega)
      refine ⟨d'', s'', ?_, hj', hlate⟩
      simp only [rtTimerCheck, hl, (expired_iff hg hi).mpr hd, if_true, hc, Option.bind_some, hr]
    · refine ⟨d, s, ?_, h, ?_⟩
      · simp only [rtTimerCheck, hl]
        rw [if_neg (mt (expired_iff hg hi).mp hd)]
      · have hs := hg.sorted
        rw [hl] at hs ⊢
        intro j hj
        rcases List.mem_cons.mp hj with rfl | hj
        · omega
        · have := (List.pairwise_cons.mp hs).1 j hj
          omega

end Check

end RtosExample.Kernel.Deadlines
