import Mathlib.Data.List.Range
import RtosExample.Lcd.Draw
import RtosExample.Lib.Dda

/-! # Lines

`lcd_draw_line` has an accumulator for each of the two axes (`Lib.Dda`), and draws in the rounds
`0` to `distance + 1`. The accumulator of the longer axis carries in every round but the first, so
the first two points are the same.

* `axis`: a coordinate in round `t`, and what holds of it.
* `lcdDrawLine_eq`: the points, for every line whose rounds can be counted in 16 bits.
* `lcdDrawLine_isLine`: they make a line. -/

namespace RtosExample.Lcd.Line

open RtosExample.Cint RtosExample.Lib.Dda RtosExample.Lcd.Dev RtosExample.Lcd.Draw

/-! ### One axis -/

/-- A coordinate that goes from `a` to `b` in `D + 1` steps, after `t` of them. -/
def axis (a b : ℤ) (D t : ℕ) : ℤ := a + (b - a).sign * carries (b - a).natAbs D t

theorem axis_zero (a b : ℤ) (D : ℕ) : axis a b D 0 = a := by
  simp [axis, carries_zero]

section

variable {a b : ℤ} {D : ℕ} (hD : (b - a).natAbs ≤ D)

include hD

theorem axis_end : axis a b D (D + 1) = b := by
  rw [axis, carries_end hD, Int.sign_mul_natAbs]
  omega

theorem axis_step (t : ℕ) : |axis a b D (t + 1) - axis a b D t| ≤ 1 := by
  obtain ⟨h1, h2⟩ := carries_le_succ hD t
  unfold axis
  rw [abs_le]
  rcases Int.sign_trichotomy (b - a) with h | h | h <;> rw [h] <;> omega

theorem axis_between {t : ℕ} (ht : t ≤ D + 1) :
    min a b ≤ axis a b D t ∧ axis a b D t ≤ max a b := by
  have hle := carries_le hD ht
  have hend := Int.sign_mul_natAbs (b - a)
  unfold axis
  rcases Int.sign_trichotomy (b - a) with h | h | h <;> rw [h] at hend ⊢ <;> omega

/-- **The error** in the round of step `k`. -/
theorem axis_error (hpos : 0 < D) (k : ℕ) :
    |(D : ℤ) * (axis a b D (k + 1) - a) - k * (b - a)| < D := by
  have herr := carries_error hD hpos k
  have hba := Int.sign_mul_natAbs (b - a)
  have htri := Int.sign_trichotomy (b - a)
  have hax : axis a b D (k + 1) - a = (b - a).sign * carries (b - a).natAbs D (k + 1) := by
    unfold axis
    ring
  rw [hax]
  generalize (b - a).sign = s at *
  generalize (b - a).natAbs = n at *
  have hmul : (D : ℤ) * (s * carries n D (k + 1)) - k * (b - a) =
      s * (D * carries n D (k + 1) - k * n) := by
    rw [← hba]
    ring
  rw [hmul]
  rcases htri with rfl | rfl | rfl
  · rwa [one_mul]
  · rw [zero_mul, abs_zero]
    exact_mod_cast hpos
  · rwa [neg_one_mul, abs_neg]

end

theorem axis_long {a b : ℤ} {D : ℕ} (hD : (b - a).natAbs = D) (t : ℕ) :
    axis a b D t = a + (b - a).sign * (t - 1 : ℕ) := by
  rcases Nat.eq_zero_or_pos D with rfl | hpos
  · rw [Int.natAbs_eq_zero] at hD
    simp [axis, hD]
  · rw [axis, hD, carries_self hpos]

/-- So it takes every value between its ends. -/
theorem axis_surjective {a b u : ℤ} {D : ℕ} (hD : (b - a).natAbs = D) :
    (∃ t < D + 2, axis a b D t = u) ↔ min a b ≤ u ∧ u ≤ max a b := by
  have hend := Int.sign_mul_natAbs (b - a)
  constructor
  · rintro ⟨t, ht, rfl⟩
    exact axis_between hD.le (by omega)
  · rintro ⟨h1, h2⟩
    refine ⟨(u - a).natAbs + 1, by omega, ?_⟩
    rw [axis_long hD, Nat.add_sub_cancel]
    rcases Int.sign_trichotomy (b - a) with h | h | h <;> rw [h] at hend ⊢ <;> omega

theorem axis_still (a : ℤ) (D t : ℕ) : axis a a D t = a := by
  simp [axis]

/-- **One point for each place along the longer axis**, from `a` to `b`, less than one off the line
that ends at `d` when it begins at `c`. -/
def Along (a b c d : ℤ) (R : ℤ → ℤ → Prop) : Prop :=
  ∀ k : ℕ, k ≤ |b - a| → ∃ m : ℤ, (∀ m', R (a + (b - a).sign * k) (c + m') ↔ m' = m) ∧
    (1 ≤ |b - a| → |(|b - a| * m - k * (d - c))| < |b - a|)

theorem along_axis {a b c d : ℤ} {D : ℕ} (hD : (b - a).natAbs = D) (hd : (d - c).natAbs ≤ D) :
    Along a b c d fun u v => ∃ t < D + 2, axis a b D t = u ∧ axis c d D t = v := by
  intro k hk
  have habs : |b - a| = D := by rw [Int.abs_eq_natAbs, hD]
  rw [habs] at hk ⊢
  refine ⟨axis c d D (k + 1) - c, fun m' => ⟨?_, ?_⟩, fun hpos => axis_error hd (by omega) k⟩
  · rintro ⟨t, ht, hlong, hshort⟩
    rw [axis_long hD] at hlong
    have hplace : axis c d D t = axis c d D (k + 1) := by
      rcases Nat.eq_zero_or_pos D with rfl | hpos
      · have h0 : d - c = 0 := by omega
        simp [axis, h0]
      · -- the round is the one of step `k`, or the one before the first step
        have hcancel : ((t - 1 : ℕ) : ℤ) = k := by
          have hne : (b - a).sign ≠ 0 := by
            rw [ne_eq, Int.sign_eq_zero_iff_zero]
            omega
          exact mul_left_cancel₀ hne (add_left_cancel hlong)
        obtain rfl | rfl : t = k + 1 ∨ t = 0 := by omega
        · rfl
        · obtain rfl : k = 0 := by omega
          rw [axis_zero, axis, carries_one hd, Nat.cast_zero, mul_zero, add_zero]
    omega
  · rintro rfl
    refine ⟨k + 1, by omega, ?_, by ring⟩
    rw [axis_long hD, Nat.add_sub_cancel]

/-! ### The loop -/

/-- `distance`. -/
def lineDistance (x1 y1 x2 y2 : U16) : ℕ :=
  max (int x2 - int x1).natAbs (int y2 - int y1).natAbs

/-- The point of round `t`. -/
def linePoint (x1 y1 x2 y2 : U16) (t : ℕ) : ℤ × ℤ :=
  (axis (int x1) (int x2) (lineDistance x1 y1 x2 y2) t,
    axis (int y1) (int y2) (lineDistance x1 y1 x2 y2) t)

theorem accumulator_step {d D : ℕ} (hd : d ≤ D) (inc v : ℤ) (t : ℕ) :
    (if (rest d D t : ℤ) + d > D then (rest d D t : ℤ) + d - D else (rest d D t : ℤ) + d) =
        rest d D (t + 1) ∧
      (if (rest d D t : ℤ) + d > D then v + inc * carries d D t + inc
        else v + inc * carries d D t) = v + inc * carries d D (t + 1) := by
  rw [carries_succ hd, rest_succ hd]
  by_cases h : rest d D t + d > D
  · have hz : (rest d D t : ℤ) + d > D := by omega
    simp only [if_pos h, if_pos hz]
    rw [Nat.cast_sub h.le]
    push_cast
    exact ⟨rfl, by ring⟩
  · have hz : ¬ (rest d D t : ℤ) + d > D := by omega
    simp only [if_neg h, if_neg hz]
    push_cast
    exact ⟨rfl, trivial⟩

theorem lineLoop_eq {dx dy D : ℕ} (hx : dx ≤ D) (hy : dy ≤ D) (hD : D + 1 < 65535)
    (incx incy x y : ℤ) (color : U16) : ∀ (n fuel t : ℕ), n < fuel → t + n = D + 2 →
    lineLoop dx dy D incx incy color fuel (BitVec.ofNat 16 t) (rest dx D t) (rest dy D t)
        (x + incx * carries dx D t) (y + incy * carries dy D t) =
      some ((List.range n).map fun k =>
        dot color (x + incx * carries dx D (t + k), y + incy * carries dy D (t + k)))
  | 0, fuel + 1, t, _, ht => by
    have hend : ¬ int (BitVec.ofNat 16 t) ≤ (D : ℤ) + 1 := by
      unfold int
      rw [BitVec.toNat_ofNat]
      omega
    rw [lineLoop, if_neg hend]
    rfl
  | n + 1, fuel + 1, t, hf, ht => by
    have hgo : int (BitVec.ofNat 16 t) ≤ (D : ℤ) + 1 := by
      unfold int
      rw [BitVec.toNat_ofNat]
      omega
    have hnext : BitVec.ofNat 16 t + 1 = BitVec.ofNat 16 (t + 1) := (BitVec.ofNat_add t 1).symm
    have ih := lineLoop_eq hx hy hD incx incy x y color n fuel (t + 1) (by omega) (by omega)
    obtain ⟨hxr, hxc⟩ := accumulator_step hx incx x t
    obtain ⟨hyr, hyc⟩ := accumulator_step hy incy y t
    rw [lineLoop, if_pos hgo]
    simp only [hxr, hxc, hyr, hyc, hnext, ih, Option.map_some, lcdDrawPoint_dot]
    rw [List.range_succ_eq_map, List.map_cons, List.map_map]
    simp only [Function.comp_def, Nat.add_succ, Nat.succ_add, Nat.add_zero, List.singleton_append]

/-- **The points of `lcd_draw_line`.** -/
theorem lcdDrawLine_eq {x1 y1 x2 y2 : U16} (h : lineDistance x1 y1 x2 y2 < 65534) (color : U16) :
    lcdDrawLine x1 y1 x2 y2 color =
      some ((List.range (lineDistance x1 y1 x2 y2 + 2)).map fun t =>
        dot color (linePoint x1 y1 x2 y2 t)) := by
  have hinc : ∀ v : ℤ, (if v > 0 then 1 else if v = 0 then 0 else -1) = v.sign := by
    intro v
    rcases Int.lt_trichotomy v 0 with hv | rfl | hv
    · rw [Int.sign_eq_neg_one_of_neg hv, if_neg (by omega), if_neg (by omega)]
    · rfl
    · rw [Int.sign_eq_one_of_pos hv, if_pos hv]
  have habs : ∀ v : ℤ, (if v < 0 then -v else v) = v.natAbs := by
    intro v
    split_ifs <;> omega
  have hmax : ∀ m n : ℕ, (if (m : ℤ) > n then (m : ℤ) else n) = (max m n : ℕ) := by
    intro m n
    split_ifs <;> omega
  have hloop := lineLoop_eq (le_max_left _ _) (le_max_right _ _) (by
    change lineDistance x1 y1 x2 y2 + 1 < 65535
    omega) (int x2 - int x1).sign (int y2 - int y1).sign (int x1) (int y1) color
    (lineDistance x1 y1 x2 y2 + 2) wordRange 0 (by unfold wordRange; omega) (Nat.zero_add _)
  simp only [rest_zero, carries_zero, Nat.cast_zero, mul_zero, add_zero, Nat.zero_add] at hloop
  simp only [lcdDrawLine, hinc, habs, hmax]
  exact hloop

/-! ### The line -/

/-- **A line** from `(x1, y1)` to `(x2, y2)`, point by point. -/
structure IsLine (x1 y1 x2 y2 : ℤ) (pts : List (ℤ × ℤ)) : Prop where
  first : pts.head? = some (x1, y1)
  last : pts.getLast? = some (x2, y2)
  steps : pts.IsChain fun p q => |q.1 - p.1| ≤ 1 ∧ |q.2 - p.2| ≤ 1
  box : ∀ p ∈ pts, (min x1 x2 ≤ p.1 ∧ p.1 ≤ max x1 x2) ∧ min y1 y2 ≤ p.2 ∧ p.2 ≤ max y1 y2
  alongX : |y2 - y1| ≤ |x2 - x1| → Along x1 x2 y1 y2 fun u v => (u, v) ∈ pts
  alongY : |x2 - x1| ≤ |y2 - y1| → Along y1 y2 x1 x2 fun u v => (v, u) ∈ pts

/-- The points of the rounds. -/
def linePoints (x1 y1 x2 y2 : U16) : List (ℤ × ℤ) :=
  (List.range (lineDistance x1 y1 x2 y2 + 2)).map (linePoint x1 y1 x2 y2)

theorem mem_linePoints {x1 y1 x2 y2 : U16} {u v : ℤ} :
    (u, v) ∈ linePoints x1 y1 x2 y2 ↔ ∃ t < lineDistance x1 y1 x2 y2 + 2,
      axis (int x1) (int x2) (lineDistance x1 y1 x2 y2) t = u ∧
      axis (int y1) (int y2) (lineDistance x1 y1 x2 y2) t = v := by
  simp only [linePoints, List.mem_map, List.mem_range, linePoint, Prod.mk.injEq]

/-- **The points of a line along an axis** are those between its two ends. -/
theorem mem_linePoints_straight {x1 y1 x2 y2 : U16} (h : x1 = x2 ∨ y1 = y2) {u v : ℤ} :
    (u, v) ∈ linePoints x1 y1 x2 y2 ↔
      (min (int x1) (int x2) ≤ u ∧ u ≤ max (int x1) (int x2)) ∧
        min (int y1) (int y2) ≤ v ∧ v ≤ max (int y1) (int y2) := by
  rw [mem_linePoints]
  rcases h with rfl | rfl
  · have hD : (int y2 - int y1).natAbs = lineDistance x1 y1 x1 y2 := by
      rw [lineDistance, sub_self, Int.natAbs_zero, Nat.zero_max]
    simp only [axis_still, min_self, max_self, ← axis_surjective hD]
    constructor
    · rintro ⟨t, ht, rfl, rfl⟩
      exact ⟨⟨le_rfl, le_rfl⟩, t, ht, rfl⟩
    · rintro ⟨⟨h1, h2⟩, t, ht, rfl⟩
      exact ⟨t, ht, le_antisymm h1 h2, rfl⟩
  · have hD : (int x2 - int x1).natAbs = lineDistance x1 y1 x2 y1 := by
      rw [lineDistance, sub_self, Int.natAbs_zero, Nat.max_zero]
    simp only [axis_still, min_self, max_self, ← axis_surjective hD]
    constructor
    · rintro ⟨t, ht, rfl, rfl⟩
      exact ⟨⟨t, ht, rfl⟩, le_rfl, le_rfl⟩
    · rintro ⟨⟨t, ht, rfl⟩, h1, h2⟩
      exact ⟨t, ht, rfl, le_antisymm h1 h2⟩

theorem linePoints_isLine (x1 y1 x2 y2 : U16) :
    IsLine (int x1) (int y1) (int x2) (int y2) (linePoints x1 y1 x2 y2) := by
  have hx : (int x2 - int x1).natAbs ≤ lineDistance x1 y1 x2 y2 := le_max_left _ _
  have hy : (int y2 - int y1).natAbs ≤ lineDistance x1 y1 x2 y2 := le_max_right _ _
  constructor
  · rw [linePoints, List.range_succ_eq_map, List.map_cons, List.head?_cons, linePoint, axis_zero,
      axis_zero]
  · rw [linePoints, List.range_succ, List.map_append, List.map_singleton, List.getLast?_concat,
      linePoint, axis_end hx, axis_end hy]
  · rw [linePoints, List.isChain_map, List.isChain_range]
    exact fun t _ => ⟨axis_step hx t, axis_step hy t⟩
  · rintro ⟨u, v⟩ hp
    obtain ⟨t, ht, rfl, rfl⟩ := mem_linePoints.mp hp
    exact ⟨axis_between hx (by omega), axis_between hy (by omega)⟩
  · intro h
    rw [Int.abs_eq_natAbs, Int.abs_eq_natAbs, Nat.cast_le] at h
    have hlong : (int x2 - int x1).natAbs = lineDistance x1 y1 x2 y2 := (max_eq_left h).symm
    have halong := along_axis hlong hy
    simpa only [mem_linePoints] using halong
  · intro h
    rw [Int.abs_eq_natAbs, Int.abs_eq_natAbs, Nat.cast_le] at h
    have hlong : (int y2 - int y1).natAbs = lineDistance x1 y1 x2 y2 := (max_eq_right h).symm
    have halong := along_axis hlong hx
    simpa only [mem_linePoints, and_comm (a := axis (int y1) _ _ _ = _)] using halong

theorem place_linePoints {x1 y1 x2 y2 : U16} {p : ℤ × ℤ} (hp : p ∈ linePoints x1 y1 x2 y2)
    (color : U16) : place (dot color p) = p := by
  obtain ⟨⟨h1, h2⟩, h3, h4⟩ := (linePoints_isLine x1 y1 x2 y2).box p hp
  have hx1 := x1.isLt
  have hx2 := x2.isLt
  have hy1 := y1.isLt
  have hy2 := y2.isLt
  unfold int at h1 h2 h3 h4
  exact place_dot (by omega) (by omega) color

/-- **`lcd_draw_line` draws a line**, with one pixel at a time. -/
theorem lcdDrawLine_isLine {x1 y1 x2 y2 : U16} (hx1 : x1.toNat < 32768) (hy1 : y1.toNat < 32768)
    (hx2 : x2.toNat < 32768) (hy2 : y2.toNat < 32768) (color : U16) :
    ∃ spans, lcdDrawLine x1 y1 x2 y2 color = some spans ∧ (∀ s ∈ spans, s.colors = [color]) ∧
      IsLine (x1.toNat : ℤ) y1.toNat x2.toNat y2.toNat (spans.map place) := by
  have hD : lineDistance x1 y1 x2 y2 < 65534 := by
    unfold lineDistance int
    omega
  have hplaces : ((linePoints x1 y1 x2 y2).map (dot color)).map place = linePoints x1 y1 x2 y2 := by
    rw [List.map_map]
    exact (List.map_congr_left fun p hp => place_linePoints hp color).trans (List.map_id' _)
  refine ⟨(linePoints x1 y1 x2 y2).map (dot color), ?_, ?_, ?_⟩
  · rw [lcdDrawLine_eq hD, linePoints, List.map_map]
    rfl
  · intro s hs
    obtain ⟨p, -, rfl⟩ := List.mem_map.mp hs
    rfl
  · rw [hplaces]
    exact linePoints_isLine x1 y1 x2 y2

/-- The theorem at a line to the left and down. -/
theorem lcdDrawLine_isLine_left :
    ∃ spans, lcdDrawLine 7 2 3 4 0xF800 = some spans ∧ (∀ s ∈ spans, s.colors = [0xF800]) ∧
      IsLine 7 2 3 4 (spans.map place) :=
  lcdDrawLine_isLine (by decide) (by decide) (by decide) (by decide) 0xF800

end RtosExample.Lcd.Line
