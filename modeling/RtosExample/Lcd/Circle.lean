import Mathlib.Algebra.Order.Ring.Abs
import Mathlib.Data.Nat.Find
import Mathlib.Tactic.Linarith
import Mathlib.Tactic.Ring
import RtosExample.Lcd.Draw
import RtosExample.Lib.Ring

/-! # Circles

`lcd_draw_circle` walks one octant, from the top of the circle to the diagonal, and draws the eight
mirror images of every point (`Lib.Ring`). Its decision variable is the one of the midpoint method
with `a` already counted up, so it stands `4 * a` too high and the walk turns inwards too early.

* `circle_offsets`: the points that are drawn, for every circle within 16 bits.
* `curve_inner`, `curve_bound`: how far inside and outside the walk comes.
* `lcdDrawCircle_isCircle_iff`: the radii for which the circle is drawn within one pixel. -/

namespace RtosExample.Lcd.Circle

open RtosExample.Cint RtosExample.Lib.Ring RtosExample.Lcd.Dev RtosExample.Lcd.Draw

/-! ### The walk -/

/-- `di` in the column `a`, at height `b`. -/
def decision (r a b : ℤ) : ℤ := 2 * (a + 1) ^ 2 + 4 * a + b ^ 2 + (b - 1) ^ 2 - 2 * r ^ 2

theorem decision_right (r a b : ℤ) :
    decision r (a + 1) b = decision r a b + (4 * (a + 1) + 6) := by
  unfold decision
  ring

theorem decision_down (r a b : ℤ) :
    decision r (a + 1) (b - 1) = decision r a b + (10 + 4 * (a + 1 - b)) := by
  unfold decision
  ring

/-- The height `b` of the walk in the column `a`. -/
def curve (r : ℕ) : ℕ → ℤ
  | 0 => r
  | a + 1 => if decision r a (curve r a) < 0 then curve r a else curve r a - 1

theorem curve_level {r a : ℕ} (h : decision r a (curve r a) < 0) :
    curve r (a + 1) = curve r a := if_pos h

theorem curve_lower {r a : ℕ} (h : ¬ decision r a (curve r a) < 0) :
    curve r (a + 1) = curve r a - 1 := if_neg h

theorem curve_down (r a : ℕ) : curve r (a + 1) ≤ curve r a ∧ curve r a ≤ curve r (a + 1) + 1 := by
  by_cases h : decision r a (curve r a) < 0
  · rw [curve_level h]
    omega
  · rw [curve_lower h]
    omega

theorem curve_le (r a : ℕ) : curve r a ≤ r := by
  induction a with
  | zero => exact le_rfl
  | succ a ih => exact (curve_down r a).1.trans ih

theorem exists_below (r : ℕ) : ∃ a : ℕ, curve r a < a :=
  ⟨r + 1, by have := curve_le r (r + 1); omega⟩

/-- The number of columns down to the diagonal. -/
def columns (r : ℕ) : ℕ := Nat.find (exists_below r)

theorem curve_columns (r : ℕ) : curve r (columns r) < columns r := Nat.find_spec (exists_below r)

theorem le_curve {r a : ℕ} (h : a < columns r) : (a : ℤ) ≤ curve r a :=
  not_lt.mp (Nat.find_min (exists_below r) h)

theorem columns_pos (r : ℕ) : 0 < columns r := by
  rw [columns, Nat.find_pos]
  exact not_lt.mpr (Int.natCast_nonneg r)

theorem columns_le (r : ℕ) : columns r ≤ r + 1 :=
  Nat.find_min' _ (by have := curve_le r (r + 1); omega)

theorem octant {r : ℕ} (hr : 1 ≤ r) : Octant (curve r) (columns r) where
  pos := columns_pos r
  start := Nat.cast_le.mpr hr
  down := curve_down r
  above _ h := le_curve h
  stop := curve_columns r

theorem columns_zero : columns 0 = 1 := by
  have hone : columns 0 ≤ 0 + 1 := columns_le 0
  have hpos := columns_pos 0
  omega

/-! ### The loop -/

/-- The offsets of the points from the centre, in the order of the loop. -/
def offsets (r : ℕ) : List (ℤ × ℤ) :=
  (List.range (columns r)).flatMap fun a : ℕ => mirrors a (curve r a)

theorem mem_offsets {r : ℕ} {p : ℤ × ℤ} :
    p ∈ offsets r ↔ ∃ a < columns r, p ∈ mirrors a (curve r a) := by
  simp only [offsets, List.mem_flatMap, List.mem_range]

/-- One point about the centre. -/
def dotAt (x0 y0 color : U16) (p : ℤ × ℤ) : Span := dot color (int x0 + p.1, int y0 + p.2)

theorem circleLoop_eq (x0 y0 color : U16) {r : ℕ} : ∀ (n fuel a : ℕ), n < fuel →
    a + n = columns r →
    circleLoop x0 y0 color fuel a (curve r a) (decision r a (curve r a)) =
      some ((List.range n).flatMap fun k : ℕ =>
        (mirrors ((a + k : ℕ) : ℤ) (curve r (a + k))).map (dotAt x0 y0 color))
  | 0, fuel + 1, a, _, ha => by
    obtain rfl : a = columns r := ha
    rw [circleLoop, if_neg (not_le.mpr (curve_columns r))]
    rfl
  | n + 1, fuel + 1, a, hf, ha => by
    have ih := circleLoop_eq x0 y0 color (r := r) n fuel (a + 1) (by omega) (by omega)
    have hpoints : ∀ b : ℤ,
        lcdDrawPoint (u16 (int x0 + a)) (u16 (int y0 - b)) (color.setWidth 32) ++
        lcdDrawPoint (u16 (int x0 + b)) (u16 (int y0 - a)) (color.setWidth 32) ++
        lcdDrawPoint (u16 (int x0 + b)) (u16 (int y0 + a)) (color.setWidth 32) ++
        lcdDrawPoint (u16 (int x0 + a)) (u16 (int y0 + b)) (color.setWidth 32) ++
        lcdDrawPoint (u16 (int x0 - a)) (u16 (int y0 + b)) (color.setWidth 32) ++
        lcdDrawPoint (u16 (int x0 - b)) (u16 (int y0 + a)) (color.setWidth 32) ++
        lcdDrawPoint (u16 (int x0 - a)) (u16 (int y0 - b)) (color.setWidth 32) ++
        lcdDrawPoint (u16 (int x0 - b)) (u16 (int y0 - a)) (color.setWidth 32) =
          (mirrors a b).map (dotAt x0 y0 color) := by
      intro b
      simp only [lcdDrawPoint_dot, sub_eq_add_neg]
      rfl
    have hround : (if decision r a (curve r a) < 0 then
          circleLoop x0 y0 color fuel (a + 1) (curve r a)
            (decision r a (curve r a) + (4 * (a + 1) + 6))
        else circleLoop x0 y0 color fuel (a + 1) (curve r a - 1)
            (decision r a (curve r a) + (10 + 4 * (a + 1 - curve r a)))) =
        circleLoop x0 y0 color fuel ((a + 1 : ℕ) : ℤ) (curve r (a + 1))
          (decision r ((a + 1 : ℕ) : ℤ) (curve r (a + 1))) := by
      by_cases h : decision r a (curve r a) < 0
      · rw [if_pos h, curve_level h, Nat.cast_succ, decision_right]
      · rw [if_neg h, curve_lower h, Nat.cast_succ, decision_down]
    rw [circleLoop, if_pos (le_curve (by omega))]
    simp only [hpoints, hround, ih, Option.map_some]
    rw [List.range_succ_eq_map, List.flatMap_cons, List.flatMap_map, Nat.add_zero]
    simp only [Nat.add_succ, Nat.succ_add, Nat.add_zero]

/-- **The points of `lcd_draw_circle`.** -/
theorem lcdDrawCircle_eq (x0 y0 : U16) (r : U8) (color : U16) :
    lcdDrawCircle x0 y0 r color = some ((offsets r.toNat).map (dotAt x0 y0 color)) := by
  have hfuel : columns r.toNat < wordRange := by
    have hle := columns_le r.toNat
    have hr := r.isLt
    unfold wordRange
    omega
  have hloop := circleLoop_eq x0 y0 color (columns r.toNat) wordRange 0 hfuel (Nat.zero_add _)
  have hstart : decision r.toNat ((0 : ℕ) : ℤ) (curve r.toNat 0) = 3 - 2 * int r := by
    unfold decision int
    rw [curve]
    push_cast
    ring
  rw [hstart] at hloop
  simp only [Nat.zero_add] at hloop
  rw [lcdDrawCircle, offsets, List.map_flatMap]
  exact hloop

/-! ### How far off the walk comes -/

theorem mirrors_sq {a b : ℤ} {p : ℤ × ℤ} (h : p ∈ mirrors a b) :
    p.1 * p.1 + p.2 * p.2 = a * a + b * b := by
  rw [mem_mirrors] at h
  rw [← abs_mul_abs_self p.1, ← abs_mul_abs_self p.2, ← abs_mul_abs_self a, ← abs_mul_abs_self b]
  rcases h with ⟨h1, h2⟩ | ⟨h1, h2⟩ <;> rw [h1, h2]
  ring

theorem curve_bound {r : ℕ} : ∀ {a : ℕ}, a < columns r →
    (a : ℤ) * a + curve r a * curve r a ≤ r * r + r
  | 0, _ => by
    rw [curve]
    push_cast
    omega
  | a + 1, ha => by
    have ih := curve_bound (Nat.lt_of_succ_lt ha)
    have habove := le_curve ha
    by_cases h : decision r a (curve r a) < 0
    · have hle := curve_le r a
      rw [curve_level h] at habove ⊢
      unfold decision at h
      push_cast at habove ⊢
      nlinarith
    · rw [curve_lower h] at habove ⊢
      push_cast at habove ⊢
      nlinarith

/-- **Inside** it stays within one and a half pixels, at the diagonal. -/
theorem curve_inner {r : ℕ} (hr : 2 ≤ r) (a : ℕ) :
    2 * ((r : ℤ) * r) + 3 ≤ 2 * (a * a + curve r a * curve r a) + 4 * a + 2 * curve r a := by
  induction a with
  | zero =>
    rw [curve]
    push_cast
    omega
  | succ a ih =>
    by_cases h : decision r a (curve r a) < 0
    · rw [curve_level h]
      push_cast
      linarith
    · rw [curve_lower h]
      unfold decision at h
      push_cast
      linarith

/-- Three columns before the diagonal the walk has always come down far enough. -/
theorem curve_outer {r : ℕ} (hr : 2 ≤ r) (a : ℕ) (ha : (a : ℤ) + 4 ≤ curve r (a + 1)) :
    decision r a (curve r (a + 1)) < 0 := by
  induction a with
  | zero =>
    have hstart : decision r ((0 : ℕ) : ℤ) (curve r 0) < 0 := by
      unfold decision
      rw [curve]
      push_cast
      nlinarith
    rwa [curve_level hstart]
  | succ a ih =>
    by_cases h : decision r ((a + 1 : ℕ) : ℤ) (curve r (a + 1)) < 0
    · rwa [curve_level h]
    · rw [curve_lower h] at ha ⊢
      push_cast at ha
      have hbefore := ih (by omega)
      have hlower : decision r ((a + 1 : ℕ) : ℤ) (curve r (a + 1) - 1) =
          decision r a (curve r (a + 1)) + 4 * (a + 1) + 10 - 4 * curve r (a + 1) := by
        unfold decision
        push_cast
        ring
      rw [hlower]
      linarith

/-- **The radii of the circles that come too far inside.** There is a point in the octant which is
more than a pixel inside the circle, and not beyond where the walk may come. -/
def Far (r : ℕ) : Prop :=
  ∃ a b : ℕ, a ≤ b ∧ a * a + b * b < (r - 1) * (r - 1) ∧
    2 * (r * r) + 3 ≤ 2 * (a * a + b * b) + 4 * a + 2 * b

theorem curve_le_of_inner {r a b : ℕ} (hr : 2 ≤ r) (hab : a ≤ b)
    (hin : a * a + b * b < (r - 1) * (r - 1))
    (hout : 2 * (r * r) + 3 ≤ 2 * (a * a + b * b) + 4 * a + 2 * b) : curve r a ≤ b := by
  obtain ⟨r, rfl⟩ : ∃ m, r = m + 1 := Nat.exists_eq_succ_of_ne_zero (by omega)
  rw [Nat.add_sub_cancel] at hin
  have hbr : b < r := by nlinarith
  have hout' : 2 * (((r + 1 : ℕ) : ℤ) * (r + 1 : ℕ)) + 3 ≤
      2 * ((a : ℤ) * a + b * b) + 4 * a + 2 * b := by
    exact_mod_cast hout
  rcases a with _ | a
  · exfalso
    nlinarith
  · by_contra hlt
    rw [not_le] at hlt
    -- in the column before, the walk would have turned at the height `b + 1`
    have hturn : 0 ≤ decision (r + 1 : ℕ) a ((b : ℤ) + 1) := by
      unfold decision
      push_cast at hout' ⊢
      linarith
    have hhigh : (b : ℤ) + 2 ≤ curve (r + 1) a := by
      by_cases h : decision (r + 1 : ℕ) a (curve (r + 1) a) < 0
      · rw [curve_level h] at hlt
        by_contra hn
        obtain heq : curve (r + 1) a = b + 1 := by omega
        rw [heq] at h
        omega
      · rw [curve_lower h] at hlt
        omega
    have hmono : decision (r + 1 : ℕ) a ((b : ℤ) + 1) + 4 * (b + 1) ≤
        decision (r + 1 : ℕ) a (curve (r + 1) a) := by
      unfold decision
      nlinarith
    rcases a with _ | a
    · rw [curve] at hmono
      unfold decision at hmono hturn
      push_cast at *
      nlinarith
    · have hbefore := curve_outer hr a (by push_cast at *; omega)
      rw [Nat.cast_succ a, decision_right] at hmono hturn
      rw [decision_right] at hmono
      push_cast at *
      linarith

/-- **For these radii the walk comes more than a pixel inside.** -/
theorem inside_of_far {r : ℕ} (h : Far r) :
    ∃ a < columns r, (a : ℤ) * a + curve r a * curve r a < ((r : ℤ) - 1) * (r - 1) := by
  obtain ⟨a, b, hab, hin, hout⟩ := h
  have hr : 2 ≤ r := by
    by_contra hn
    have hzero : r - 1 = 0 := by omega
    rw [hzero] at hin
    exact Nat.not_lt_zero _ hin
  have hin' : (a : ℤ) * a + b * b < ((r : ℤ) - 1) * (r - 1) := by
    have hcast : ((r - 1 : ℕ) : ℤ) = r - 1 := by omega
    rw [← hcast]
    exact_mod_cast hin
  rcases Nat.lt_or_ge a (columns r) with ha | ha
  · have hle := curve_le_of_inner hr hab hin hout
    have habove := le_curve ha
    exact ⟨a, ha, by nlinarith⟩
  · -- the walk is over before the column `a`, so its last point is further inside
    have hoct := octant (r := r) (by omega)
    have hpos := columns_pos r
    refine ⟨columns r - 1, by omega, ?_⟩
    have hlast : curve r (columns r - 1) ≤ columns r := by
      rcases hoct.last with ⟨h, -⟩ | h <;> omega
    have hcolumn : ((columns r - 1 : ℕ) : ℤ) ≤ a := by omega
    have habove := le_curve (r := r) (a := columns r - 1) (by omega)
    nlinarith

/-- **No other circle** comes more than a pixel inside. -/
theorem far_of_inside {r a : ℕ} (hr : 1 ≤ r) (ha : a < columns r)
    (h : (a : ℤ) * a + curve r a * curve r a < ((r : ℤ) - 1) * (r - 1)) : Far r := by
  have habove := le_curve ha
  obtain ⟨b, hb⟩ : ∃ b : ℕ, curve r a = b := Int.eq_ofNat_of_zero_le (by omega)
  rw [hb] at h habove
  have hcast : ((r - 1 : ℕ) : ℤ) = r - 1 := by omega
  rw [← hcast] at h
  have hin : a * a + b * b < (r - 1) * (r - 1) := by exact_mod_cast h
  have hr2 : 2 ≤ r := by
    by_contra hn
    have hzero : r - 1 = 0 := by omega
    rw [hzero] at hin
    exact Nat.not_lt_zero _ hin
  have hout := curve_inner hr2 a
  rw [hb] at hout
  exact ⟨a, b, by exact_mod_cast habove, hin, by exact_mod_cast hout⟩

/-! ### The circle -/

/-- The offsets from the centre of the points that are drawn. -/
def Drawn (spans : List Span) (x0 y0 : ℤ) (p : ℤ × ℤ) : Prop :=
  ∃ s ∈ spans, place s = (x0 + p.1, y0 + p.2)

/-- **A circle** of radius `r`: it has the eight symmetries, it is one ring of points, and no point
is more than one pixel off. -/
structure IsCircle (spans : List Span) (x0 y0 : ℤ) (r : ℕ) : Prop where
  symmetric : ∀ a b, Drawn spans x0 y0 (a, b) →
    Drawn spans x0 y0 (-a, b) ∧ Drawn spans x0 y0 (a, -b) ∧ Drawn spans x0 y0 (b, a)
  ring : ∃ l, IsRing l ∧ ∀ p, p ∈ l ↔ Drawn spans x0 y0 p
  accurate : ∀ a b, Drawn spans x0 y0 (a, b) →
    if r = 0 then a = 0 ∧ b = 0
    else ((r : ℤ) - 1) * (r - 1) ≤ a * a + b * b ∧ a * a + b * b ≤ ((r : ℤ) + 1) * (r + 1)

theorem offsets_le {r : ℕ} {p : ℤ × ℤ} (h : p ∈ offsets r) :
    (-r ≤ p.1 ∧ p.1 ≤ r) ∧ -r ≤ p.2 ∧ p.2 ≤ r := by
  obtain ⟨a, ha, hp⟩ := mem_offsets.mp h
  have hle := curve_le r a
  have habove := le_curve ha
  rw [mem_mirrors, abs_of_nonneg (a := curve r a) (by omega), Nat.abs_cast] at hp
  rw [← abs_le, ← abs_le]
  omega

theorem circle_offsets {x0 y0 : U16} {r : U8} (hleft : r.toNat ≤ x0.toNat)
    (htop : r.toNat ≤ y0.toNat) (hright : x0.toNat + r.toNat ≤ 65535)
    (hbottom : y0.toNat + r.toNat ≤ 65535) (color : U16) :
    ∃ spans, lcdDrawCircle x0 y0 r color = some spans ∧
      ∀ p, Drawn spans x0.toNat y0.toNat p ↔ p ∈ offsets r.toNat := by
  refine ⟨_, lcdDrawCircle_eq x0 y0 r color, fun p => ?_⟩
  have hplace : ∀ q ∈ offsets r.toNat,
      place (dotAt x0 y0 color q) = (x0.toNat + q.1, y0.toNat + q.2) := by
    intro q hq
    obtain ⟨⟨h1, h2⟩, h3, h4⟩ := offsets_le hq
    refine place_dot ?_ ?_ color <;> simp only [int] <;> omega
  constructor
  · rintro ⟨s, hs, heq⟩
    obtain ⟨q, hq, rfl⟩ := List.mem_map.mp hs
    rw [hplace q hq, Prod.mk.injEq, add_right_inj, add_right_inj] at heq
    rwa [← Prod.ext heq.1 heq.2]
  · intro hp
    exact ⟨_, List.mem_map_of_mem hp, hplace p hp⟩

theorem offsets_symmetric {r : ℕ} {a b : ℤ} (h : (a, b) ∈ offsets r) :
    (-a, b) ∈ offsets r ∧ (a, -b) ∈ offsets r ∧ (b, a) ∈ offsets r := by
  obtain ⟨k, hk, hp⟩ := mem_offsets.mp h
  simp only [mem_offsets]
  refine ⟨⟨k, hk, ?_⟩, ⟨k, hk, ?_⟩, k, hk, ?_⟩ <;> rw [mem_mirrors] at hp ⊢
  · rwa [abs_neg]
  · rwa [abs_neg]
  · exact hp.symm.imp And.symm And.symm

theorem mem_offsets_zero {p : ℤ × ℤ} : p ∈ offsets 0 ↔ p = (0, 0) := by
  have hzero : offsets 0 = mirrors 0 0 := by
    rw [offsets, columns_zero]
    rfl
  rw [hzero]
  simp [mirrors]

theorem offsets_ring (r : ℕ) : ∃ l, IsRing l ∧ ∀ p, p ∈ l ↔ p ∈ offsets r := by
  rcases Nat.eq_zero_or_pos r with rfl | hr
  · refine ⟨[(0, 0)], ⟨by simp, by simp, by simp, ?_⟩, fun p => ?_⟩
    · rintro p ⟨⟩ q ⟨⟩
      exact ⟨by simp, by simp⟩
    · rw [List.mem_singleton, mem_offsets_zero]
  · simp only [mem_offsets]
    exact (octant hr).isRing

theorem offsets_accurate_iff (r : ℕ) :
    (∀ a b, (a, b) ∈ offsets r → if r = 0 then a = 0 ∧ b = 0
      else ((r : ℤ) - 1) * (r - 1) ≤ a * a + b * b ∧ a * a + b * b ≤ ((r : ℤ) + 1) * (r + 1)) ↔
      ¬ Far r := by
  constructor
  · intro h hfar
    obtain ⟨a, ha, hin⟩ := inside_of_far hfar
    have hp : ((a : ℤ), curve r a) ∈ offsets r :=
      mem_offsets.mpr ⟨a, ha, mem_mirrors.mpr (Or.inl ⟨rfl, rfl⟩)⟩
    have hacc := h _ _ hp
    split_ifs at hacc with hr
    · subst hr
      obtain ⟨c, b, -, hlt, -⟩ := hfar
      exact Nat.not_lt_zero _ hlt
    · omega
  · intro hfar a b hp
    split_ifs with hr
    · subst hr
      rwa [mem_offsets_zero, Prod.mk.injEq] at hp
    · obtain ⟨k, hk, hmem⟩ := mem_offsets.mp hp
      have hsq := mirrors_sq hmem
      simp only at hsq
      rw [hsq]
      constructor
      · by_contra hn
        exact hfar (far_of_inside (by omega) hk (not_le.mp hn))
      · have hbound := curve_bound hk
        nlinarith

/-- **`lcd_draw_circle` draws a circle** exactly if the radius is not one of those. It is a ring
with all its symmetries for every radius. -/
theorem lcdDrawCircle_isCircle_iff {x0 y0 : U16} {r : U8} (hleft : r.toNat ≤ x0.toNat)
    (htop : r.toNat ≤ y0.toNat) (hright : x0.toNat + r.toNat ≤ 65535)
    (hbottom : y0.toNat + r.toNat ≤ 65535) (color : U16) :
    ∃ spans, lcdDrawCircle x0 y0 r color = some spans ∧
      (IsCircle spans x0.toNat y0.toNat r.toNat ↔ ¬ Far r.toNat) := by
  obtain ⟨spans, hs, hdrawn⟩ := circle_offsets hleft htop hright hbottom color
  refine ⟨spans, hs, ?_⟩
  rw [← offsets_accurate_iff]
  constructor
  · intro h a b hp
    exact h.accurate a b ((hdrawn _).mpr hp)
  · intro h
    obtain ⟨l, hl, hmem⟩ := offsets_ring r.toNat
    refine ⟨fun a b hp => ?_, ⟨l, hl, fun p => (hmem p).trans (hdrawn p).symm⟩,
      fun a b hp => h a b ((hdrawn _).mp hp)⟩
    simp only [hdrawn] at hp ⊢
    exact offsets_symmetric hp

/-- The theorem at a circle of radius 10. -/
theorem lcdDrawCircle_isCircle_ten :
    ∃ spans, lcdDrawCircle 100 100 10 0xF800 = some spans ∧
      (IsCircle spans 100 100 10 ↔ ¬ Far 10) :=
  @lcdDrawCircle_isCircle_iff 100 100 10 (by decide) (by decide) (by decide) (by decide) 0xF800

/-- **A circle of radius 52** has the point `(138, 134)`, more than a pixel inside. -/
theorem lcdDrawCircle_far :
    (∃ spans, lcdDrawCircle 100 100 52 0xF800 = some spans ∧ Drawn spans 100 100 (38, 34)) ∧
    ¬ ∀ (x0 y0 : U16) (r : U8) (color : U16), r.toNat ≤ x0.toNat → r.toNat ≤ y0.toNat →
      x0.toNat + r.toNat ≤ 65535 → y0.toNat + r.toNat ≤ 65535 →
      ∃ spans, lcdDrawCircle x0 y0 r color = some spans ∧
        IsCircle spans x0.toNat y0.toNat r.toNat := by
  obtain ⟨spans, hs, hdrawn⟩ := @circle_offsets 100 100 52 (by decide) (by decide) (by decide)
    (by decide) 0xF800
  have hcolumn : 34 < columns 52 := (Nat.lt_find_iff _ 34).mpr (by decide)
  have hheight : curve 52 34 = 38 := by decide
  have hpoint : Drawn spans 100 100 (38, 34) := by
    refine (hdrawn _).mpr (mem_offsets.mpr ⟨34, hcolumn, ?_⟩)
    change _ ∈ mirrors (34 : ℕ) (curve 52 34)
    rw [hheight]
    decide
  refine ⟨⟨spans, hs, hpoint⟩, fun h => ?_⟩
  obtain ⟨spans', hs', hcircle⟩ := h 100 100 52 0xF800 (by decide) (by decide) (by decide)
    (by decide)
  obtain rfl : spans = spans' := Option.some.inj (hs.symm.trans hs')
  have hacc := hcircle.accurate 38 34 hpoint
  rw [if_neg (by decide)] at hacc
  exact absurd hacc.1 (by decide)

end RtosExample.Lcd.Circle
