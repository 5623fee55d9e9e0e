import RtosExample.Lcd.FillCircle

/-! # The shape of the filled circle

The pixels of `lcd_fill_circle` by their offset from the centre (`Shape`), for a circle inside the
screen, and what follows for the shape as a disc:

* `fillCircle_rows`: to the left of the centre every row has the half width of the disc with
  `r * r + r / 2` for the square of its radius, and nothing outside this disc is painted;
* `fillCircle_not_symmetric`: the lines are as long as they are wide to both sides of a pixel
  boundary, so the shape is its own mirror image about the column left of the centre's middle and
  never about the centre column;
* `fillCircle_stays_iff`: it keeps to its square exactly if the radius is not zero. -/

namespace RtosExample.Lcd.CircleShape

open RtosExample.Cint RtosExample.Lib.Disc RtosExample.Lcd.Dev RtosExample.Lcd.Draw
open RtosExample.Lcd.FillCircle

/-- The pixel at these coordinates is painted. -/
def Painted (spans : List Span) (px py : ℤ) : Prop :=
  ∃ p ∈ paints spans, (p.1 : ℤ) = px ∧ (p.2 : ℤ) = py

theorem painted_head {s : Span} {spans : List Span} (h : s.colors ≠ []) :
    Painted (s :: spans) s.x.toNat s.y.toNat := by
  have := List.length_pos_iff.mpr h
  exact ⟨(s.x.toNat, s.y.toNat), ⟨s, List.mem_cons_self, rfl, le_rfl, by simp only; omega⟩, rfl,
    rfl⟩

/-- The offsets that are painted. -/
def Shape (r : ℕ) (dx dy : ℤ) : Prop :=
  (dy = 0 ∧ -r ≤ dx ∧ dx < r) ∨
  ∃ k < imax r,
    (half r (k + 1) ≠ half r k ∧ imax r < half r k ∧ dy.natAbs = half r k ∧ -k ≤ dx ∧ dx < k) ∨
    (dy.natAbs = k + 1 ∧ -half r (k + 1) ≤ dx ∧ dx < half r (k + 1))

theorem painted_iff {lcddev : LcdDev} {x y r : U16} (h : Inside lcddev x y r) (hr : 1 ≤ r.toNat)
    (color : U16) :
    ∃ spans, lcdFillCircle lcddev x y r color = some spans ∧
      ∀ dx dy, Painted spans (x.toNat + dx) (y.toNat + dy) ↔ Shape r.toNat dx dy := by
  obtain ⟨spans, hs, hp⟩ := fillCircle_paints h hr color
  obtain ⟨hl, ht, -, -⟩ := h
  have hm := imax_le hr
  refine ⟨spans, hs, fun dx dy => ⟨?_, fun hd => ?_⟩⟩
  · rintro ⟨⟨px, py⟩, hin, hx, hy⟩
    rcases (hp _).mp hin with ⟨h1, h2, h3⟩ | ⟨k, hk, ⟨hc, hi, h1, h2, h3⟩ | ⟨h1, h2, h3⟩⟩
    · exact Or.inl (by simp only at *; omega)
    · exact Or.inr ⟨k, hk, Or.inl ⟨hc, hi, by simp only at *; omega⟩⟩
    · exact Or.inr ⟨k, hk, Or.inr (by simp only at *; omega)⟩
  · have hbox : -(r.toNat : ℤ) ≤ dx ∧ -(r.toNat : ℤ) ≤ dy := by
      rcases hd with hd | ⟨k, hk, ⟨-, -, hd⟩ | hd⟩
      · omega
      · have := half_le r.toNat k
        omega
      · have := half_le r.toNat (k + 1)
        omega
    refine ⟨((x.toNat + dx).toNat, (y.toNat + dy).toNat), (hp _).mpr ?_, by simp only; omega,
      by simp only; omega⟩
    rcases hd with hd | ⟨k, hk, ⟨hc, hi, hd⟩ | hd⟩
    · exact Or.inl (by simp only; omega)
    · exact Or.inr ⟨k, hk, Or.inl ⟨hc, hi, by simp only; omega⟩⟩
    · exact Or.inr ⟨k, hk, Or.inr (by simp only; omega)⟩

/-! ### The rows -/

theorem shape_le {r : ℕ} (hr : 1 ≤ r) {dx dy : ℤ} (h : Shape r dx dy) :
    dx * dx + dy * dy ≤ sqmax r := by
  have hsq : ∀ (a b : ℕ) (u v : ℤ), a * a + b * b ≤ sqmax r → -(a : ℤ) ≤ u → u ≤ a →
      v.natAbs = b → u * u + v * v ≤ sqmax r := by
    intro a b u v hab h1 h2 h3
    have hu : u * u ≤ (a : ℤ) * a := by nlinarith
    have hv : v * v = (b : ℤ) * b := by rw [← h3, Int.natAbs_mul_self']
    have hab' : (a : ℤ) * a + (b : ℤ) * b ≤ sqmax r := by exact_mod_cast hab
    omega
  rcases h with ⟨h0, h1, h2⟩ | ⟨k, hk, ⟨hc, hi, h0, h1, h2⟩ | ⟨h0, h1, h2⟩⟩
  · exact hsq r 0 dx dy (by simpa using sqmax_bounds.1) h1 h2.le (by omega)
  · exact hsq k (half r k) dx dy (half_halfWidth hr hk.le).1 h1 h2.le h0
  · refine hsq (half r (k + 1)) (k + 1) dx dy ?_ h1 h2.le h0
    rw [Nat.add_comm]
    exact (half_halfWidth hr hk).1

/-- Up to a radius of 3000 the rows from inside meet those from outside. -/
theorem half_imax_le {r : ℕ} (hr : 1 ≤ r) (h3000 : r ≤ 3000) : half r (imax r) ≤ imax r := by
  by_contra hn
  obtain ⟨h1, -⟩ := half_halfWidth hr le_rfl
  have hsq : (imax r + 1) * (imax r + 1) ≤ half r (imax r) * half r (imax r) :=
    Nat.mul_self_le_mul_self (by omega)
  have hm : 707 * r + 1 ≤ 1000 * imax r := by
    unfold imax
    omega
  have hm2 : (707 * r + 1) * (707 * r + 1) ≤ 1000 * imax r * (1000 * imax r) :=
    Nat.mul_self_le_mul_self hm
  have hS : 2 * sqmax r ≤ 2 * (r * r) + r := by
    unfold sqmax
    omega
  nlinarith

theorem shape_row {r : ℕ} (hr : 1 ≤ r) (hc : half r (imax r) ≤ imax r) {dx dy : ℤ} {w : ℕ}
    (hd : dy.natAbs ≤ r) (hw : HalfWidth (sqmax r) dy.natAbs w) :
    Shape r dx dy ↔ -w ≤ dx ∧ dx < w := by
  have hm : 1 ≤ imax r := by
    unfold imax
    omega
  have hcross : ∀ k < imax r, half r (k + 1) ≠ half r k → HalfWidth (sqmax r) (half r k) k :=
    fun k hk => crossing_halfWidth hr sqmax_bounds.1 sqmax_bounds.2 (fun _ => diagonal) hk
  constructor
  · rintro (⟨h0, h1, h2⟩ | ⟨k, hk, ⟨hne, hi, h0, h1, h2⟩ | ⟨h0, h1, h2⟩⟩)
    · subst h0
      obtain rfl : w = r := hw.unique (half_halfWidth hr (Nat.zero_le _))
      exact ⟨h1, h2⟩
    · rw [h0] at hw
      obtain rfl : w = k := hw.unique (hcross k hk hne)
      exact ⟨h1, h2⟩
    · rw [h0] at hw
      obtain rfl : w = half r (k + 1) := hw.unique (half_halfWidth hr hk)
      exact ⟨h1, h2⟩
  · rintro ⟨h1, h2⟩
    rcases Nat.eq_zero_or_pos dy.natAbs with h0 | hpos
    · rw [h0] at hw
      obtain rfl : w = r := hw.unique (half_halfWidth hr (Nat.zero_le _))
      exact Or.inl ⟨by omega, h1, h2⟩
    · rcases Nat.lt_or_ge (imax r) dy.natAbs with hout | hin
      · -- above `imax`: the row `xr` goes down from
        obtain ⟨k, hk, hkd, hne⟩ : ∃ k < imax r, half r k = dy.natAbs ∧ half r (k + 1) ≠ half r k :=
          exists_crossing (lt_of_le_of_lt hc hout) hd
        obtain rfl : w = k := hw.unique (hkd ▸ hcross k hk hne)
        exact Or.inr ⟨w, hk, Or.inl ⟨hne, hkd ▸ hout, hkd.symm, h1, h2⟩⟩
      · obtain ⟨k, hk⟩ : ∃ k, dy.natAbs = k + 1 := Nat.exists_eq_succ_of_ne_zero (by omega)
        rw [hk] at hw
        obtain rfl : w = half r (k + 1) := hw.unique (half_halfWidth hr (by omega))
        exact Or.inr ⟨k, by omega, Or.inr ⟨hk, h1, h2⟩⟩

/-- **Every row is filled to its half width** to the left of the centre, and nothing outside the
disc is painted. -/
theorem fillCircle_rows {lcddev : LcdDev} {x y r : U16} (h : Inside lcddev x y r)
    (hr : 1 ≤ r.toNat) (hw : lcddev.width.toNat ≤ 800) (color : U16) :
    ∃ spans, lcdFillCircle lcddev x y r color = some spans ∧
      (∀ dy : ℤ, |dy| ≤ r.toNat → ∃ w : ℕ,
        IsGreatest {w : ℕ | (w : ℤ) * w + dy * dy ≤ r.toNat * r.toNat + r.toNat / 2} w ∧
        ∀ dx < 0, Painted spans (x.toNat + dx) (y.toNat + dy) ↔ -w ≤ dx) ∧
      ∀ dx dy : ℤ, dx * dx + dy * dy > r.toNat * r.toNat + r.toNat / 2 →
        ¬ Painted spans (x.toNat + dx) (y.toNat + dy) := by
  obtain ⟨spans, hs, hp⟩ := painted_iff h hr color
  have hS : ((sqmax r.toNat : ℕ) : ℤ) = r.toNat * r.toNat + r.toNat / 2 := by
    unfold sqmax
    push_cast
    rfl
  refine ⟨spans, hs, fun dy hdy => ?_, fun dx dy hd => ?_⟩
  · have hdn : dy.natAbs ≤ r.toNat := by
      rw [Int.abs_eq_natAbs] at hdy
      exact_mod_cast hdy
    have hle : dy.natAbs * dy.natAbs ≤ sqmax r.toNat :=
      (Nat.mul_self_le_mul_self hdn).trans sqmax_bounds.1
    obtain ⟨w, hw'⟩ := exists_halfWidth hle
    have hright := h.right
    have hleft := h.left
    have hcov := half_imax_le hr (by omega)
    refine ⟨w, ?_, fun dx hdx => ?_⟩
    · have hset : {w : ℕ | (w : ℤ) * w + dy * dy ≤ r.toNat * r.toNat + r.toNat / 2} =
          {w : ℕ | w * w + dy.natAbs * dy.natAbs ≤ sqmax r.toNat} := by
        ext v
        rw [Set.mem_ofPred_eq, Set.mem_ofPred_eq, ← hS, ← Int.natAbs_mul_self' dy]
        norm_cast
      rw [hset]
      exact hw'.isGreatest
    · rw [hp, shape_row hr hcov hdn hw']
      omega
  · rw [hp]
    intro hshape
    have := shape_le hr hshape
    omega

/-- A screen of 240 by 320 pixels, as `lcd_display_dir(0)` leaves an ILI9341. -/
def screen : LcdDev :=
  { width := 240, height := 320, id := 0x9341, dir := 0, wramcmd := 0x2C, setxcmd := 0x2A
    setycmd := 0x2B }

/-- The theorem at a circle of radius 10. -/
theorem fillCircle_rows_screen :
    ∃ spans, lcdFillCircle screen 100 100 10 0xF800 = some spans ∧
      (∀ dy : ℤ, |dy| ≤ 10 → ∃ w : ℕ,
        IsGreatest {w : ℕ | (w : ℤ) * w + dy * dy ≤ 10 * 10 + 10 / 2} w ∧
        ∀ dx < 0, Painted spans (100 + dx) (100 + dy) ↔ -w ≤ dx) ∧
      ∀ dx dy : ℤ, dx * dx + dy * dy > 10 * 10 + 10 / 2 → ¬ Painted spans (100 + dx) (100 + dy) :=
  fillCircle_rows (x := 100) (y := 100) (r := 10)
    (by decide) (by decide) (by decide) 0xF800

/-! ### The symmetry -/

/-- The mirror images about the row and about the column of the centre. -/
def Symmetric (spans : List Span) (x y : ℕ) : Prop :=
  ∀ dx dy : ℤ, (Painted spans (x + dx) (y + dy) ↔ Painted spans (x - dx) (y + dy)) ∧
    (Painted spans (x + dx) (y + dy) ↔ Painted spans (x + dx) (y - dy))

theorem shape_flip (r : ℕ) (dx dy : ℤ) : Shape r dx (-dy) ↔ Shape r dx dy := by
  unfold Shape
  rw [Int.natAbs_neg, neg_eq_zero]

theorem shape_mirror (r : ℕ) (dx dy : ℤ) : Shape r (-1 - dx) dy ↔ Shape r dx dy := by
  have hrun : ∀ n : ℕ, (-(n : ℤ) ≤ -1 - dx ∧ -1 - dx < n) ↔ (-(n : ℤ) ≤ dx ∧ dx < n) :=
    fun n => by omega
  simp only [Shape, hrun]

theorem shape_left {r : ℕ} (hr : 1 ≤ r) : Shape r (-r) 0 := Or.inl ⟨rfl, le_rfl, by omega⟩

theorem not_shape_right (r : ℕ) : ¬ Shape r r 0 := by
  rintro (⟨-, -, h⟩ | ⟨k, hk, ⟨-, h, h0, -⟩ | ⟨h0, -⟩⟩)
  · exact lt_irrefl _ h
  · rw [Int.natAbs_zero] at h0
    omega
  · rw [Int.natAbs_zero] at h0
    omega

/-- **The disc is never symmetric about the centre column**: the left end of the middle row is
painted and the right end is not. It is symmetric about the centre row, and about the boundary
between the centre column and the one before it. -/
theorem fillCircle_not_symmetric {lcddev : LcdDev} {x y r : U16} (h : Inside lcddev x y r)
    (hr : 1 ≤ r.toNat) (color : U16) :
    ∃ spans, lcdFillCircle lcddev x y r color = some spans ∧ ¬ Symmetric spans x.toNat y.toNat ∧
      Painted spans (x.toNat - r.toNat) y.toNat ∧ ¬ Painted spans (x.toNat + r.toNat) y.toNat ∧
      ∀ dx dy : ℤ,
        (Painted spans (x.toNat + dx) (y.toNat + dy) ↔
          Painted spans (x.toNat + dx) (y.toNat - dy)) ∧
        (Painted spans (x.toNat + dx) (y.toNat + dy) ↔
          Painted spans (x.toNat - 1 - dx) (y.toNat + dy)) := by
  obtain ⟨spans, hs, hp⟩ := painted_iff h hr color
  have hl : Painted spans (x.toNat - r.toNat) y.toNat := by
    have := (hp (-r.toNat) 0).mpr (shape_left hr)
    rwa [add_zero, ← sub_eq_add_neg] at this
  have hright : ¬ Painted spans (x.toNat + r.toNat) y.toNat := by
    have := mt (hp r.toNat 0).mp (not_shape_right r.toNat)
    rwa [add_zero] at this
  refine ⟨spans, hs, fun hsym => ?_, hl, hright, fun dx dy => ⟨?_, ?_⟩⟩
  · have := (hsym r.toNat 0).1
    rw [add_zero] at this
    exact hright (this.mpr hl)
  · rw [hp, sub_eq_add_neg, hp, shape_flip]
  · rw [hp, sub_sub, sub_eq_add_neg, hp, ← shape_mirror, neg_add, ← sub_eq_add_neg]

/-- The theorem at a circle of radius 10. -/
theorem fillCircle_not_symmetric_screen :
    ∃ spans, lcdFillCircle screen 100 100 10 0xF800 = some spans ∧
      ¬ Symmetric spans (100 : U16).toNat (100 : U16).toNat :=
  have ⟨spans, hs, hsym, _⟩ := fillCircle_not_symmetric (x := 100) (y := 100)
    (r := 10) (by decide) (by decide) 0xF800
  ⟨spans, hs, hsym⟩

/-- **A circle of radius 1** is a run of two pixels, the centre and the one to its left. -/
theorem fillCircle_one :
    lcdFillCircle screen 10 10 1 0xF800 = some [⟨9, 10, [0xF800, 0xF800]⟩] ∧
    ¬ ∀ (lcddev : LcdDev) (x y r color : U16), Inside lcddev x y r → 1 ≤ r.toNat →
      ∃ spans, lcdFillCircle lcddev x y r color = some spans ∧
        Symmetric spans x.toNat y.toNat := by
  have hone : lcdFillCircle screen 10 10 1 0xF800 = some [⟨9, 10, [0xF800, 0xF800]⟩] := by decide
  refine ⟨hone, fun h => ?_⟩
  obtain ⟨spans, hs, hsym⟩ := h screen 10 10 1 0xF800 (by decide) (by decide)
  obtain rfl : [⟨9, 10, [0xF800, 0xF800]⟩] = spans := Option.some.inj (hone.symm.trans hs)
  have hleft : Painted [⟨9, 10, [0xF800, 0xF800]⟩] 9 10 := painted_head (by simp)
  obtain ⟨p, hp, hx, -⟩ := (hsym 1 0).1.mpr hleft
  obtain ⟨-, -, hlt⟩ := mem_paints_singleton.mp hp
  change (p.1 : ℤ) = 11 at hx
  change p.1 < 11 at hlt
  omega

/-! ### The square around it -/

/-- The values that `xr` takes: when the rounds before round `j + 1` are over. -/
def xrAt (r : U16) : ℕ → U32
  | 0 => r.setWidth 32
  | j + 1 => circleXr (circleSqmax r) (BitVec.ofNat 32 (j + 1)) (xrAt r j)

/-- Every pixel lies in the square around the circle, and `xr` is never decremented at zero. -/
def Stays (lcddev : LcdDev) (x y r color : U16) : Prop :=
  (∃ spans, lcdFillCircle lcddev x y r color = some spans ∧
    ∀ px py, Painted spans px py →
      x.toNat - (r.toNat : ℤ) ≤ px ∧ px ≤ x.toNat + r.toNat ∧
      y.toNat - (r.toNat : ℤ) ≤ py ∧ py ≤ y.toNat + r.toNat) ∧
  ∀ j < (circleImax r).toNat,
    BitVec.ofNat 32 (j + 1) * BitVec.ofNat 32 (j + 1) + xrAt r j * xrAt r j > circleSqmax r →
    xrAt r j ≠ 0

theorem xrAt_toNat {r : U16} (hr : 1 ≤ r.toNat) :
    ∀ j ≤ imax r.toNat, (xrAt r j).toNat = half r.toNat j
  | 0, _ => toNat_widen r
  | j + 1, hj => by
    have hi : (BitVec.ofNat 32 (j + 1)).toNat = j + 1 := by
      have := r.isLt
      have := imax_le hr
      rw [BitVec.toNat_ofNat]
      omega
    exact circleXr_toNat hr hj hi (xrAt_toNat hr j (by omega))

theorem shape_box {r : ℕ} (hr : 1 ≤ r) {dx dy : ℤ} (h : Shape r dx dy) :
    -r ≤ dx ∧ dx ≤ r ∧ dy.natAbs ≤ r := by
  have hm := imax_le hr
  rcases h with h | ⟨k, hk, ⟨-, -, h⟩ | h⟩
  · omega
  · have := half_le r k
    omega
  · have := half_le r (k + 1)
    omega

/-- **The circle stays in its square exactly if its radius is not zero.** -/
theorem fillCircle_stays_iff {lcddev : LcdDev} {x y r : U16} (h : Inside lcddev x y r)
    (color : U16) : Stays lcddev x y r color ↔ 1 ≤ r.toNat := by
  constructor
  · rintro ⟨-, hxr⟩
    by_contra hn
    -- the first round of a circle of radius 0 finds `xr = 0` and `1 > sqmax`
    obtain rfl : r = 0 := by
      apply BitVec.eq_of_toNat_eq
      rw [Nat.eq_zero_of_not_pos hn]
      rfl
    exact hxr 0 (by decide) (by decide) rfl
  · intro hr
    refine ⟨?_, fun j hj _ hz => ?_⟩
    · obtain ⟨spans, hs, hp⟩ := painted_iff h hr color
      refine ⟨spans, hs, fun px py hpx => ?_⟩
      obtain ⟨dx, rfl⟩ : ∃ dx, px = x.toNat + dx := ⟨px - x.toNat, by omega⟩
      obtain ⟨dy, rfl⟩ : ∃ dy, py = y.toNat + dy := ⟨py - y.toNat, by omega⟩
      have := shape_box hr ((hp dx dy).mp hpx)
      omega
    · rw [circleImax_toNat] at hj
      have h1 := xrAt_toNat hr j hj.le
      have h2 := half_pos hr hj
      rw [hz] at h1
      change 0 = _ at h1
      omega

/-- The theorem at a circle of radius 10. -/
theorem fillCircle_stays_screen : Stays screen 100 100 10 0xF800 ↔ 1 ≤ (10 : U16).toNat :=
  fillCircle_stays_iff (by decide) 0xF800

/-- **A circle of radius 0** at `(10, 10)`: `xr` goes down from zero, and two runs of 65534 pixels
start beside the centre. -/
theorem fillCircle_zero :
    Inside screen 10 10 0 ∧ lcdFillCircle screen 10 10 0 0xF800 =
      some [⟨11, 11, List.replicate 65534 0xF800⟩, ⟨11, 9, List.replicate 65534 0xF800⟩] ∧
    xrAt 0 0 = 0 ∧ xrAt 0 1 = 0xFFFFFFFF ∧ ¬ Stays screen 10 10 0 0xF800 := by
  have hzero : lcdFillCircle screen 10 10 0 0xF800 =
      some [⟨11, 11, List.replicate 65534 0xF800⟩, ⟨11, 9, List.replicate 65534 0xF800⟩] := by
    have hbelow := hline_run screen 11 11 65534 0xF800 (by decide) (by decide) (by decide)
      (by decide)
    have habove := hline_run screen 11 9 65534 0xF800 (by decide) (by decide) (by decide)
      (by decide)
    have hmiddle : lcdDrawHline screen (u16 (int (10 : U16) - int (0 : U16))) 10
        (u16 (2 * int (0 : U16))) 0xF800 = some [] := by decide
    have houtside : circleOutside screen 10 10 0xF800 (circleImax 0) (circleSqmax 0) 1
        (BitVec.setWidth 32 (0 : U16)) = some [] := by decide
    have hxr : circleXr (circleSqmax 0) 1 (BitVec.setWidth 32 (0 : U16)) = 0xFFFFFFFF := by decide
    have hinside : circleInside screen 10 10 0xF800 1 0xFFFFFFFF = _ :=
      congrArg₂ (fun a b => a >>= fun a => b >>= fun b => some (a ++ b)) hbelow habove
    have hrounds : (circleImax 0).toNat = 1 := by decide
    simp only [lcdFillCircle, hmiddle, hrounds, fillCircleLoop, houtside, hxr, hinside,
      Option.bind_eq_bind, Option.bind_some, Option.pure_def, List.nil_append, List.append_nil,
      List.cons_append]
    rfl
  refine ⟨by decide, hzero, by decide, by decide, ?_⟩
  rintro ⟨⟨spans, hs, hbox⟩, -⟩
  obtain rfl := Option.some.inj (hzero.symm.trans hs)
  have hne : List.replicate 65534 (0xF800 : U16) ≠ [] := by
    rw [ne_eq, List.replicate_eq_nil_iff]
    decide
  have hstray := hbox 11 11 (painted_head (s := ⟨11, 11, List.replicate 65534 0xF800⟩) hne)
  exact absurd hstray.2.1 (by decide)

end RtosExample.Lcd.CircleShape
