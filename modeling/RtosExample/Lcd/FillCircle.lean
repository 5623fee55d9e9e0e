import RtosExample.Lcd.Draw
import RtosExample.Lib.Disc
import Mathlib.Tactic.IntervalCases

/-! # The filled circle

What `lcd_fill_circle` paints when the circle lies inside the screen. Its variable `xr` is the walk
of `Lib.Disc` with `sqmax` for the bound (`sqmax`, `imax` here), so round `i` paints the two rows at
distance `i` with their half width, and when `xr` goes down from a value above `imax` the two rows
at that distance, whose half width is `i - 1`. -/

namespace RtosExample.Lcd.FillCircle

open RtosExample.Cint RtosExample.Lib.Disc RtosExample.Lcd.Dev RtosExample.Lcd.Draw

/-- The pixels of a list of spans: the words that follow `lcd_set_cursor(a, b)` go to `(a, b)`,
`(a + 1, b)` and so on. -/
def paints (spans : List Span) : Set (ℕ × ℕ) :=
  {p | ∃ s ∈ spans, p.2 = s.y.toNat ∧ s.x.toNat ≤ p.1 ∧ p.1 < s.x.toNat + s.colors.length}

/-- The circle lies inside the screen. -/
structure Inside (lcddev : LcdDev) (x y r : U16) : Prop where
  left : r.toNat ≤ x.toNat
  top : r.toNat ≤ y.toNat
  right : x.toNat + r.toNat < lcddev.width.toNat
  bottom : y.toNat + r.toNat < lcddev.height.toNat

instance (lcddev : LcdDev) (x y r : U16) : Decidable (Inside lcddev x y r) :=
  decidable_of_iff (r.toNat ≤ x.toNat ∧ r.toNat ≤ y.toNat ∧
      x.toNat + r.toNat < lcddev.width.toNat ∧ y.toNat + r.toNat < lcddev.height.toNat)
    ⟨fun ⟨h1, h2, h3, h4⟩ => ⟨h1, h2, h3, h4⟩, fun ⟨h1, h2, h3, h4⟩ => ⟨h1, h2, h3, h4⟩⟩

/-- `imax` and `sqmax` for a radius. -/
def imax (r : ℕ) : ℕ := r * 707 / 1000 + 1
def sqmax (r : ℕ) : ℕ := r * r + r / 2

/-- `xr` when `j` rounds are over. -/
def half (r j : ℕ) : ℕ := walk (sqmax r) r j

/-- The pixels of round `j + 1`. -/
def Round (x y r j : ℕ) (p : ℕ × ℕ) : Prop :=
  (half r (j + 1) ≠ half r j ∧ imax r < half r j ∧
    (p.2 = y + half r j ∨ p.2 + half r j = y) ∧ x ≤ p.1 + j ∧ p.1 < x + j) ∨
  ((p.2 = y + (j + 1) ∨ p.2 + (j + 1) = y) ∧
    x ≤ p.1 + half r (j + 1) ∧ p.1 < x + half r (j + 1))

/-! ### The bound and the rounds -/

theorem toNat_widen (v : U16) : (v.setWidth 32).toNat = v.toNat := by
  rw [BitVec.toNat_setWidth, Nat.mod_eq_of_lt (by omega)]

theorem circleImax_toNat (r : U16) : (circleImax r).toNat = imax r.toNat := by
  have h := r.isLt
  rw [circleImax, imax, BitVec.toNat_add, BitVec.toNat_udiv, BitVec.toNat_mul, toNat_widen]
  change (r.toNat * 707 % 4294967296 / 1000 + 1) % 4294967296 = _
  rw [Nat.mod_eq_of_lt (a := r.toNat * 707) (by omega), Nat.mod_eq_of_lt (by omega)]

theorem circleSqmax_toNat (r : U16) : (circleSqmax r).toNat = sqmax r.toNat := by
  have h := r.isLt
  have hsq : r.toNat * r.toNat ≤ 65535 * 65535 := Nat.mul_self_le_mul_self (by omega)
  rw [circleSqmax, sqmax, BitVec.toNat_add, BitVec.toNat_udiv, BitVec.toNat_mul, toNat_widen]
  change (r.toNat * r.toNat % 4294967296 + r.toNat / 2) % 4294967296 = _
  rw [Nat.mod_eq_of_lt (a := r.toNat * r.toNat) (by omega), Nat.mod_eq_of_lt (by omega)]

theorem imax_le {r : ℕ} (hr : 1 ≤ r) : imax r ≤ r := by
  unfold imax
  omega

theorem sqmax_bounds {r : ℕ} : r * r ≤ sqmax r ∧ sqmax r < (r + 1) * (r + 1) := by
  unfold sqmax
  constructor
  · omega
  · nlinarith [Nat.div_le_self r 2]

/-- The factor `707 / 1000` stays below the diagonal. -/
theorem diagonal {r k : ℕ} (hk : 0 < k) (hm : k < imax r) : 2 * (k * k) + 2 ≤ sqmax r := by
  unfold imax at hm
  unfold sqmax
  have h707 : 1000 * k ≤ 707 * r := by omega
  rcases Nat.lt_or_ge r 4 with h | h
  · have : k < 3 := by omega
    interval_cases r <;> interval_cases k <;> omega
  · have h1 : (1000 * k) * (1000 * k) ≤ (707 * r) * (707 * r) := Nat.mul_self_le_mul_self h707
    have h2 : 2 ≤ r / 2 := by omega
    nlinarith

theorem half_halfWidth {r j : ℕ} (hr : 1 ≤ r) (hj : j ≤ imax r) :
    HalfWidth (sqmax r) j (half r j) :=
  walk_halfWidth hr sqmax_bounds.1 sqmax_bounds.2 (fun _ => diagonal) j hj

theorem half_pos {r j : ℕ} (hr : 1 ≤ r) (hj : j < imax r) : 0 < half r j :=
  walk_pos hr sqmax_bounds.1 sqmax_bounds.2 (fun _ => diagonal) hj

theorem half_le (r j : ℕ) : half r j ≤ r := walk_le _ _ _

/-! ### One run -/

theorem mem_paints_append {s t : List Span} {p : ℕ × ℕ} :
    p ∈ paints (s ++ t) ↔ p ∈ paints s ∨ p ∈ paints t := by
  constructor
  · rintro ⟨u, hu, h⟩
    rcases List.mem_append.mp hu with hu | hu
    · exact Or.inl ⟨u, hu, h⟩
    · exact Or.inr ⟨u, hu, h⟩
  · rintro (⟨u, hu, h⟩ | ⟨u, hu, h⟩)
    · exact ⟨u, List.mem_append_left t hu, h⟩
    · exact ⟨u, List.mem_append_right s hu, h⟩

theorem mem_paints_nil {p : ℕ × ℕ} : ¬ p ∈ paints [] := by
  rintro ⟨u, hu, -⟩
  exact absurd hu (by simp)

theorem mem_paints_singleton {s : Span} {p : ℕ × ℕ} :
    p ∈ paints [s] ↔
      p.2 = s.y.toNat ∧ s.x.toNat ≤ p.1 ∧ p.1 < s.x.toNat + s.colors.length := by
  simp [paints]

/-- A line is one run of `len` pixels: the difference of its two ends wraps back. -/
theorem hline_run (lcddev : LcdDev) (x y len color : U16) (h0 : len ≠ 0)
    (hx : x.toNat ≤ lcddev.width.toNat) (hy : y.toNat ≤ lcddev.height.toNat)
    (hend : y.toNat < 65535) :
    lcdDrawHline lcddev x y len color = some [⟨x, y, List.replicate len.toNat color⟩] := by
  have hg : ¬ (len = 0 ∨ x > lcddev.width ∨ y > lcddev.height) := by
    rw [gt_iff_lt, gt_iff_lt, BitVec.lt_def, BitVec.lt_def, or_iff_right h0]
    omega
  have hxlen : (u16 (int (u16 (int x + int len - 1)) - int x + 1)).toNat = len.toNat := by
    have hl := len.isLt
    have he := u16_toNat (int x + int len - 1)
    rw [u16_toNat]
    unfold int at he ⊢
    omega
  have hcolor : (color.setWidth 32).setWidth 16 = color := by
    apply BitVec.eq_of_toNat_eq
    rw [BitVec.toNat_setWidth, toNat_widen]
    omega
  rw [lcdDrawHline, if_neg hg, lcdFill, fillLoop_eq hend 1 (by decide) rfl, hxlen, hcolor]
  simp

theorem hline_paints (lcddev : LcdDev) (color : U16) {x y len : U16} {a b n : ℕ} (hx : x.toNat = a)
    (hy : y.toNat = b) (hn : len.toNat = n) (ha : a ≤ lcddev.width.toNat)
    (hb : b < lcddev.height.toNat) :
    ∃ spans, lcdDrawHline lcddev x y len color = some spans ∧
      ∀ p, p ∈ paints spans ↔ p.2 = b ∧ a ≤ p.1 ∧ p.1 < a + n := by
  subst hx hy hn
  have hh := lcddev.height.isLt
  by_cases h0 : len = 0
  · refine ⟨[], by rw [lcdDrawHline, if_pos (Or.inl h0)],
      fun p => ⟨fun h => absurd h mem_paints_nil, ?_⟩⟩
    rw [h0]
    rintro ⟨-, h1, h2⟩
    exact absurd h2 (by simpa using h1)
  · refine ⟨_, hline_run lcddev x y len color h0 ha hb.le (by omega), fun p => ?_⟩
    rw [mem_paints_singleton, List.length_replicate]

theorem hline_pair (lcddev : LcdDev) (color : U16) {x y₁ y₂ len : U16} {a b v n : ℕ}
    (hx : x.toNat = a) (hy₁ : y₁.toNat = b + v) (hy₂ : y₂.toNat = b - v) (hn : len.toNat = n)
    (ha : a ≤ lcddev.width.toNat) (hb : b + v < lcddev.height.toNat) (hv : v ≤ b) :
    ∃ spans, (do
        let above ← lcdDrawHline lcddev x y₁ len color
        let below ← lcdDrawHline lcddev x y₂ len color
        return above ++ below) = some spans ∧
      ∀ p, p ∈ paints spans ↔ (p.2 = b + v ∨ p.2 + v = b) ∧ a ≤ p.1 ∧ p.1 < a + n := by
  obtain ⟨s, hs, hs'⟩ := hline_paints lcddev color hx hy₁ hn ha hb
  obtain ⟨t, ht, ht'⟩ := hline_paints lcddev color hx hy₂ hn ha (by omega)
  refine ⟨s ++ t, by simp [hs, ht], fun p => ?_⟩
  rw [mem_paints_append, hs', ht']
  omega

/-! ### The loop -/

theorem toNat_add_low {x : U16} {v : U32} (h : x.toNat + v.toNat < 65536) :
    ((x.setWidth 32 + v).setWidth 16).toNat = x.toNat + v.toNat := by
  rw [BitVec.toNat_setWidth, BitVec.toNat_add, toNat_widen]
  omega

theorem toNat_sub_low {x : U16} {v : U32} (h : v.toNat ≤ x.toNat) :
    ((x.setWidth 32 - v).setWidth 16).toNat = x.toNat - v.toNat := by
  have := x.isLt
  rw [BitVec.toNat_setWidth, BitVec.toNat_sub, toNat_widen]
  omega

theorem toNat_double_low {v : U32} (h : v.toNat < 32768) :
    ((2 * v).setWidth 16).toNat = 2 * v.toNat := by
  rw [BitVec.toNat_setWidth, BitVec.toNat_mul]
  change 2 * v.toNat % 4294967296 % 65536 = _
  omega

theorem Inside.radius {lcddev : LcdDev} {x y r : U16} (h : Inside lcddev x y r) :
    r.toNat < 32768 := by
  have h1 := h.left
  have h2 := h.right
  have := lcddev.width.isLt
  omega

/-- **The squares of a round do not wrap**: they exceed the bound by the next odd number at most. -/
theorem round_lt {r j : ℕ} (hr : 1 ≤ r) (h : r < 65536) (hj : j < imax r) :
    (j + 1) * (j + 1) + half r j * half r j < 4294967296 := by
  obtain ⟨hle, -⟩ := half_halfWidth hr hj.le
  have hsq : r * r ≤ 65535 * 65535 := Nat.mul_self_le_mul_self (by omega)
  have hexp : (j + 1) * (j + 1) = j * j + j + j + 1 := Nat.succ_mul_succ j j
  unfold imax at hj
  unfold sqmax at hle
  omega

theorem toNat_squares {i xr : U32} (h : i.toNat * i.toNat + xr.toNat * xr.toNat < 4294967296) :
    (i * i + xr * xr).toNat = i.toNat * i.toNat + xr.toNat * xr.toNat := by
  rw [BitVec.toNat_add, BitVec.toNat_mul, BitVec.toNat_mul, Nat.mod_eq_of_lt (by omega),
    Nat.mod_eq_of_lt (a := xr.toNat * xr.toNat) (by omega), Nat.mod_eq_of_lt (by omega)]

theorem test_iff {r : U16} {i xr : U32}
    (h : i.toNat * i.toNat + xr.toNat * xr.toNat < 4294967296) :
    i * i + xr * xr > circleSqmax r ↔
      sqmax r.toNat < i.toNat * i.toNat + xr.toNat * xr.toNat := by
  rw [gt_iff_lt, BitVec.lt_def, circleSqmax_toNat, toNat_squares h]

theorem half_succ (r j : ℕ) : half r (j + 1) =
    if sqmax r < (j + 1) * (j + 1) + half r j * half r j then half r j - 1 else half r j := rfl

section

variable {r : U16} (hr : 1 ≤ r.toNat) {j : ℕ} (hj : j < imax r.toNat) {i xr : U32}
  (hi : i.toNat = j + 1) (hxr : xr.toNat = half r.toNat j)

include hr hj hi hxr

/-- The test of round `j + 1` is whether the half width goes down. -/
theorem test_half : i * i + xr * xr > circleSqmax r ↔
    half r.toNat (j + 1) ≠ half r.toNat j := by
  have h4 := half_pos hr hj
  rw [test_iff (by rw [hi, hxr]; exact round_lt hr r.isLt hj), half_succ, hi, hxr]
  split_ifs with ht
  · simp only [ht, true_iff]
    omega
  · simp only [ht, ne_eq, not_true_eq_false]

theorem circleXr_toNat : (circleXr (circleSqmax r) i xr).toNat = half r.toNat (j + 1) := by
  have h4 := half_pos hr hj
  have hn := next_le (sqmax r.toNat) (j + 1) (half r.toNat j)
  have ht := test_half hr hj hi hxr
  change half r.toNat (j + 1) ≤ _ ∧ _ ≤ half r.toNat (j + 1) + 1 at hn
  unfold circleXr
  by_cases hd : half r.toNat (j + 1) ≠ half r.toNat j
  · rw [if_pos (ht.mpr hd), BitVec.toNat_sub]
    have := xr.isLt
    change (4294967296 - 1 + xr.toNat) % 4294967296 = _
    omega
  · rw [if_neg (fun he => hd (ht.mp he)), hxr]
    exact (not_not.mp hd).symm

variable (color : U16) {lcddev : LcdDev} {x y : U16} (h : Inside lcddev x y r)

include h

theorem circleOutside_paints :
    ∃ spans, circleOutside lcddev x y color (circleImax r) (circleSqmax r) i xr = some spans ∧
      ∀ p, p ∈ paints spans ↔ half r.toNat (j + 1) ≠ half r.toNat j ∧
        imax r.toNat < half r.toNat j ∧
        (p.2 = y.toNat + half r.toNat j ∨ p.2 + half r.toNat j = y.toNat) ∧
        x.toNat ≤ p.1 + j ∧ p.1 < x.toNat + j := by
  have h1 := h.radius
  have h2 := imax_le hr
  have h3 := half_le r.toNat j
  have ⟨hl, ht, hright, hb⟩ := h
  have hw := lcddev.width.isLt
  have hh := lcddev.height.isLt
  have himax : xr > circleImax r ↔ imax r.toNat < half r.toNat j := by
    rw [gt_iff_lt, BitVec.lt_def, circleImax_toNat, hxr]
  unfold circleOutside
  by_cases hc : i * i + xr * xr > circleSqmax r ∧ xr > circleImax r
  · have hx : ((x.setWidth 32 - i + 1).setWidth 16).toNat = x.toNat - j := by
      rw [BitVec.toNat_setWidth, BitVec.toNat_add, BitVec.toNat_sub, toNat_widen]
      change ((4294967296 - i.toNat + x.toNat) % 4294967296 + 1) % 4294967296 % 65536 = _
      omega
    have hlen : ((2 * (i - 1)).setWidth 16).toNat = 2 * j := by
      have hi1 : (i - 1).toNat = j := by
        rw [BitVec.toNat_sub]
        change (4294967296 - 1 + i.toNat) % 4294967296 = _
        omega
      rw [toNat_double_low (by omega), hi1]
    have hy₁ : ((y.setWidth 32 + xr).setWidth 16).toNat = y.toNat + half r.toNat j := by
      rw [toNat_add_low (by omega), hxr]
    have hy₂ : ((y.setWidth 32 - xr).setWidth 16).toNat = y.toNat - half r.toNat j := by
      rw [toNat_sub_low (by omega), hxr]
    obtain ⟨spans, hs, hs'⟩ := hline_pair lcddev color hx hy₁ hy₂ hlen
      (by omega) (by omega) (by omega)
    have hd := (test_half hr hj hi hxr).mp hc.1
    have hm := himax.mp hc.2
    rw [if_pos hc]
    refine ⟨spans, hs, fun p => ?_⟩
    rw [hs']
    simp only [hd, hm, ne_eq, not_false_eq_true, true_and]
    omega
  · rw [if_neg hc]
    refine ⟨[], rfl, fun p => ⟨fun hp => absurd hp mem_paints_nil, ?_⟩⟩
    rintro ⟨hd, hm, -⟩
    exact absurd ⟨(test_half hr hj hi hxr).mpr hd, himax.mpr hm⟩ hc

omit hj hxr in
theorem circleInside_paints {xr' : U32} (hj' : j + 1 ≤ imax r.toNat)
    (hxr' : xr'.toNat = half r.toNat (j + 1)) :
    ∃ spans, circleInside lcddev x y color i xr' = some spans ∧
      ∀ p, p ∈ paints spans ↔ (p.2 = y.toNat + (j + 1) ∨ p.2 + (j + 1) = y.toNat) ∧
        x.toNat ≤ p.1 + half r.toNat (j + 1) ∧ p.1 < x.toNat + half r.toNat (j + 1) := by
  have h1 := h.radius
  have h2 := imax_le hr
  have h3 := half_le r.toNat (j + 1)
  have ⟨hl, ht, hright, hb⟩ := h
  have hw := lcddev.width.isLt
  have hh := lcddev.height.isLt
  have hx : ((x.setWidth 32 - xr').setWidth 16).toNat = x.toNat - half r.toNat (j + 1) := by
    rw [toNat_sub_low (by omega), hxr']
  have hlen : ((2 * xr').setWidth 16).toNat = 2 * half r.toNat (j + 1) := by
    rw [toNat_double_low (by omega), hxr']
  have hy₁ : ((y.setWidth 32 + i).setWidth 16).toNat = y.toNat + (j + 1) := by
    rw [toNat_add_low (by omega), hi]
  have hy₂ : ((y.setWidth 32 - i).setWidth 16).toNat = y.toNat - (j + 1) := by
    rw [toNat_sub_low (by omega), hi]
  obtain ⟨spans, hs, hs'⟩ := hline_pair lcddev color hx hy₁ hy₂ hlen
    (by omega) (by omega) (by omega)
  refine ⟨spans, hs, fun p => ?_⟩
  rw [hs']
  omega

end

theorem fillCircleLoop_paints (color : U16) {lcddev : LcdDev} {x y r : U16}
    (h : Inside lcddev x y r) (hr : 1 ≤ r.toNat) : ∀ (n : ℕ) {j : ℕ} {i xr : U32},
    j + n = imax r.toNat → i.toNat = j + 1 → xr.toNat = half r.toNat j →
    ∃ spans,
      fillCircleLoop lcddev x y color (circleImax r) (circleSqmax r) n i xr = some spans ∧
      ∀ p, p ∈ paints spans ↔
        ∃ k, j ≤ k ∧ k < imax r.toNat ∧ Round x.toNat y.toNat r.toNat k p
  | 0, j, i, xr, hn, _, _ => by
    refine ⟨[], rfl, fun p => ⟨fun hp => absurd hp mem_paints_nil, ?_⟩⟩
    rintro ⟨k, h1, h2, -⟩
    omega
  | n + 1, j, i, xr, hn, hi, hxr => by
    have hj : j < imax r.toNat := by omega
    have h1 := h.radius
    have h2 := imax_le hr
    have hxr' := circleXr_toNat hr hj hi hxr
    have hi' : (i + 1).toNat = j + 1 + 1 := by
      rw [BitVec.toNat_add]
      change (i.toNat + 1) % 4294967296 = _
      omega
    obtain ⟨s, hs, hs'⟩ := circleOutside_paints hr hj hi hxr color h
    obtain ⟨t, ht, ht'⟩ := circleInside_paints hr hi color h hj hxr'
    obtain ⟨u, hu, hu'⟩ := fillCircleLoop_paints color h hr n (j := j + 1) (by omega)
      hi' hxr'
    refine ⟨s ++ t ++ u, ?_, fun p => ?_⟩
    · simp only [fillCircleLoop, hs, ht, hu, Option.bind_eq_bind, Option.bind_some, Option.pure_def]
    rw [mem_paints_append, mem_paints_append, hs', ht', hu']
    constructor
    · rintro ((hp | hp) | ⟨k, hk, hm, hp⟩)
      · exact ⟨j, le_rfl, hj, Or.inl hp⟩
      · exact ⟨j, le_rfl, hj, Or.inr hp⟩
      · exact ⟨k, by omega, hm, hp⟩
    · rintro ⟨k, hk, hm, hp⟩
      rcases Nat.eq_or_lt_of_le hk with rfl | hlt
      · exact Or.inl hp
      · exact Or.inr ⟨k, hlt, hm, hp⟩

/-- **What `lcd_fill_circle` paints**, for a radius that is not zero. -/
theorem fillCircle_paints {lcddev : LcdDev} {x y r : U16} (h : Inside lcddev x y r)
    (hr : 1 ≤ r.toNat) (color : U16) :
    ∃ spans, lcdFillCircle lcddev x y r color = some spans ∧
      ∀ p, p ∈ paints spans ↔
        (p.2 = y.toNat ∧ x.toNat ≤ p.1 + r.toNat ∧ p.1 < x.toNat + r.toNat) ∨
        ∃ k < imax r.toNat, Round x.toNat y.toNat r.toNat k p := by
  have h1 := h.radius
  have ⟨hl, ht, hright, hb⟩ := h
  have hw := lcddev.width.isLt
  have hx : (u16 (int x - int r)).toNat = x.toNat - r.toNat := by
    rw [u16_toNat]
    unfold int
    omega
  have hlen : (u16 (2 * int r)).toNat = 2 * r.toNat := by
    rw [u16_toNat]
    unfold int
    omega
  obtain ⟨s, hs, hs'⟩ := hline_paints lcddev color hx (y := y) rfl hlen (by omega)
    (by omega)
  obtain ⟨t, ht, ht'⟩ := fillCircleLoop_paints color h hr (imax r.toNat) (j := 0)
    (i := 1) (by omega) rfl (toNat_widen r)
  refine ⟨s ++ t, ?_, fun p => ?_⟩
  · simp only [lcdFillCircle, circleImax_toNat, hs, ht, Option.bind_eq_bind, Option.bind_some,
      Option.pure_def]
  rw [mem_paints_append, hs', ht']
  constructor
  · rintro (hp | ⟨k, -, hk, hp⟩)
    · exact Or.inl (by omega)
    · exact Or.inr ⟨k, hk, hp⟩
  · rintro (hp | ⟨k, hk, hp⟩)
    · exact Or.inl (by omega)
    · exact Or.inr ⟨k, by omega, hk, hp⟩

end RtosExample.Lcd.FillCircle
