import Mathlib.Tactic.Linarith
import Mathlib.Tactic.Ring

/-! # A digital differential analyser

An accumulator takes in `d` at every step, and gives `D` back whenever it has come above `D`. For
`d ≤ D` it gives back at most once in a step. `carries d D t` is how often it has done so after `t`
steps, and `rest d D t` is what is left in it.

* `carries_succ`, `rest_succ`: one step.
* `carries_self`, `carries_end`: every step but the first one carries if `d = D`, and `d` carries
  are done after `D + 1` steps.
* `carries_error`: the carries stay within one of the fraction `d / D` of the steps. -/

namespace RtosExample.Lib.Dda

/-- The number of carries after `t` steps. -/
def carries (d D t : ℕ) : ℕ := (t * d - 1) / D

/-- What is left in the accumulator after `t` steps. -/
def rest (d D t : ℕ) : ℕ := t * d - D * carries d D t

theorem carries_zero (d D : ℕ) : carries d D 0 = 0 := by
  simp [carries]

theorem rest_zero (d D : ℕ) : rest d D 0 = 0 := by
  simp [rest]

theorem mul_carries_le (d D t : ℕ) : D * carries d D t ≤ t * d :=
  (Nat.mul_div_le _ _).trans (Nat.sub_le _ _)

theorem carries_eq {d D t q : ℕ} (hlo : D * q ≤ t * d - 1) (hhi : t * d - 1 < D * q + D) :
    carries d D t = q := by
  refine Nat.div_eq_of_lt_le ?_ ?_
  · rwa [Nat.mul_comm q]
  · rwa [Nat.succ_mul, Nat.mul_comm q]

theorem rest_le {d D : ℕ} (hd : d ≤ D) (t : ℕ) : rest d D t ≤ D := by
  rcases Nat.eq_zero_or_pos D with rfl | hD
  · obtain rfl : d = 0 := Nat.le_zero.mp hd
    simp [rest]
  have hlt := Nat.lt_mul_div_succ (t * d - 1) hD
  unfold rest carries
  rw [Nat.mul_add, Nat.mul_one] at hlt
  omega

/-- **One step.** It carries exactly if the accumulator comes above `D`. -/
theorem carries_succ {d D : ℕ} (hd : d ≤ D) (t : ℕ) :
    carries d D (t + 1) = if rest d D t + d > D then carries d D t + 1 else carries d D t := by
  rcases Nat.eq_zero_or_pos D with rfl | hD
  · obtain rfl : d = 0 := Nat.le_zero.mp hd
    simp [carries, rest]
  have hle : D * carries d D t ≤ t * d - 1 := Nat.mul_div_le _ _
  have hlt := Nat.lt_mul_div_succ (t * d - 1) hD
  change t * d - 1 < D * (carries d D t + 1) at hlt
  rw [Nat.mul_succ] at hlt
  have hsucc : (t + 1) * d = t * d + d := Nat.succ_mul t d
  unfold rest
  split_ifs with h
  · refine carries_eq ?_ ?_ <;> rw [Nat.mul_succ, hsucc] <;> omega
  · refine carries_eq ?_ ?_ <;> rw [hsucc] <;> omega

theorem rest_succ {d D : ℕ} (hd : d ≤ D) (t : ℕ) :
    rest d D (t + 1) = if rest d D t + d > D then rest d D t + d - D else rest d D t + d := by
  have hle := mul_carries_le d D t
  have hle' := mul_carries_le d D (t + 1)
  have hc := carries_succ hd t
  have hsucc : (t + 1) * d = t * d + d := Nat.succ_mul t d
  have hmul : D * (carries d D t + 1) = D * carries d D t + D := Nat.mul_succ _ _
  have hrest : rest d D t = t * d - D * carries d D t := rfl
  rw [rest, hc, hsucc]
  split_ifs with h
  · rw [hmul]
    omega
  · omega

theorem carries_le_succ {d D : ℕ} (hd : d ≤ D) (t : ℕ) :
    carries d D t ≤ carries d D (t + 1) ∧ carries d D (t + 1) ≤ carries d D t + 1 := by
  rw [carries_succ hd]
  split_ifs <;> omega

theorem carries_mono (d D : ℕ) {s t : ℕ} (h : s ≤ t) : carries d D s ≤ carries d D t :=
  Nat.div_le_div_right (Nat.sub_le_sub_right (Nat.mul_le_mul_right d h) 1)

theorem carries_self {D : ℕ} (hD : 0 < D) (t : ℕ) : carries D D t = t - 1 := by
  rcases t with _ | t
  · simp [carries]
  · have hmul : (t + 1) * D = D * t + D := by ring
    refine carries_eq ?_ ?_ <;> rw [hmul, Nat.add_sub_cancel] <;> omega

theorem carries_one {d D : ℕ} (hd : d ≤ D) : carries d D 1 = 0 := by
  rw [carries, Nat.div_eq_zero_iff, Nat.one_mul]
  omega

theorem carries_end {d D : ℕ} (hd : d ≤ D) : carries d D (D + 1) = d := by
  rcases Nat.eq_zero_or_pos D with rfl | hD
  · obtain rfl : d = 0 := Nat.le_zero.mp hd
    simp [carries]
  have hmul : (D + 1) * d = D * d + d := Nat.succ_mul D d
  rcases Nat.eq_zero_or_pos d with rfl | hpos
  · simp [carries]
  · refine carries_eq ?_ ?_ <;> rw [hmul] <;> omega

theorem carries_le {d D t : ℕ} (hd : d ≤ D) (ht : t ≤ D + 1) : carries d D t ≤ d :=
  (carries_mono d D ht).trans (carries_end hd).le

/-- **The error.** One step ahead, the carries are less than one off the fraction `d / D`. -/
theorem carries_error {d D : ℕ} (hd : d ≤ D) (hD : 0 < D) (k : ℕ) :
    |(D : ℤ) * carries d D (k + 1) - k * d| < D := by
  have hle := mul_carries_le d D (k + 1)
  have hlt := rest_le hd (k + 1)
  unfold rest at hlt
  have hsucc : (k + 1) * d = k * d + d := Nat.succ_mul k d
  rw [hsucc] at hle hlt
  rw [abs_lt]
  rcases Nat.eq_zero_or_pos d with rfl | hpos
  · have h0 : carries 0 D (k + 1) = 0 := by simp [carries]
    rw [h0]
    push_cast
    omega
  · have hstrict : D * carries d D (k + 1) < k * d + d := by
      refine lt_of_le_of_lt (Nat.mul_div_le _ _) ?_
      rw [hsucc]
      omega
    zify at hle hlt hstrict
    constructor <;> omega

end RtosExample.Lib.Dda
