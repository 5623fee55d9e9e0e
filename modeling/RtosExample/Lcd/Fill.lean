import RtosExample.Lcd.Canvas
import RtosExample.Lcd.FillCircle
import RtosExample.Lcd.Line

/-! # Areas

The functions that write rows of pixels: `lcd_fill`, `lcd_color_fill` and `lcd_draw_hline`. The
first two count their rows differently and agree on the screen; the 16-bit counters and lengths are
good for every area of the screen, and not at the ends of their range; and a horizontal line that
does not end on the screen goes on in the next row, at the column where it began.

* `fills_exact`: the two fills on the screen.
* `counters_adequate_iff`: when the fills and `lcd_draw_line` write as many pixels as their
  arguments say.
* `hline_confined_iff`: when a horizontal line keeps to its row. -/

namespace RtosExample.Lcd.Fill

open RtosExample.Cint RtosExample.Lib.Memory RtosExample.Lib.Raster RtosExample.Lcd.Dev
open RtosExample.Lcd.Draw RtosExample.Lcd.FillCircle RtosExample.Lcd.Line RtosExample.Lcd.Text
open RtosExample.Lcd.Controller RtosExample.Lcd.Calls RtosExample.Lcd.Geometry
open RtosExample.Lcd.Canvas

/-! ### The rows -/

theorem u16_add (a : U16) (n : ℕ) : u16 (int a + n) = BitVec.ofNat 16 (a.toNat + n) := by
  apply BitVec.eq_of_toNat_eq
  rw [u16_toNat, BitVec.toNat_ofNat]
  unfold int
  omega

theorem lcdFill_eq {sx sy ex ey : U16} (hey : ey.toNat < 65535) (color : U32) :
    lcdFill sx sy ex ey color = some ((List.range (ey.toNat + 1 - sy.toNat)).map fun i =>
      ⟨sx, BitVec.ofNat 16 (sy.toNat + i),
        List.replicate (u16 (int ex - int sx + 1)).toNat (color.setWidth 16)⟩) := by
  unfold lcdFill
  rcases Nat.lt_or_ge ey.toNat sy.toNat with h | h
  · rw [wordRange, fillLoop, if_neg (not_le_max h), Nat.sub_eq_zero_of_le h]
    rfl
  · exact fillLoop_eq hey _ (by unfold wordRange; omega) (by omega)

/-- A row of `lcd_color_fill`. -/
def colorRow (sx sy : U16) (width : ℕ) (color : ℕ → U16) (i : ℕ) : Span :=
  ⟨sx, BitVec.ofNat 16 (sy.toNat + i), (List.range width).map fun j => color (i * width + j)⟩

theorem colorRow_word {sx sy : U16} {width : ℕ} {color : ℕ → U16} {i j : ℕ} {c : U16} :
    (colorRow sx sy width color i).colors[j]? = some c ↔ j < width ∧ color (i * width + j) = c := by
  rw [colorRow, List.getElem?_eq_some_iff]
  simp

theorem lcdColorFill_eq (sx sy ex ey : U16) (color : ℕ → U16) :
    lcdColorFill sx sy ex ey color =
      (List.range (u16 (int ey - int sy + 1)).toNat).map
        (colorRow sx sy (u16 (int ex - int sx + 1)).toNat color) := by
  simp only [lcdColorFill, u16_add]
  rfl

theorem side_toNat {s e : U16} (h : s.toNat ≤ e.toNat) (he : e.toNat < 65535) :
    (u16 (int e - int s + 1)).toNat = e.toNat - s.toNat + 1 := by
  rw [u16_toNat]
  unfold int
  omega

section

variable {lcddev : LcdDev} {sx sy ex ey : U16} (hx : sx.toNat ≤ ex.toNat)
  (hex : ex.toNat < lcddev.width.toNat) (hy : sy.toNat ≤ ey.toNat)
  (hey : ey.toNat < lcddev.height.toNat)

include hx hex hy hey

theorem colorFill_rows (color : ℕ → U16) :
    lcdColorFill sx sy ex ey color = (List.range (ey.toNat - sy.toNat + 1)).map
      (colorRow sx sy (ex.toNat - sx.toNat + 1) color) := by
  have hw := lcddev.width.isLt
  have hh := lcddev.height.isLt
  rw [lcdColorFill_eq, side_toNat hx (by omega), side_toNat hy (by omega)]

theorem fill_eq_colorFill {color : ℕ → U16} {c : U32}
    (hc : ∀ k < (ex.toNat - sx.toNat + 1) * (ey.toNat - sy.toNat + 1), color k = c.setWidth 16) :
    lcdFill sx sy ex ey c = some (lcdColorFill sx sy ex ey color) := by
  have hw := lcddev.width.isLt
  have hh := lcddev.height.isLt
  rw [lcdFill_eq (by omega), colorFill_rows hx hex hy hey, side_toNat hx (by omega),
    Nat.sub_add_comm hy]
  refine congrArg some (List.map_congr_left fun i hi => ?_)
  rw [List.mem_range] at hi
  rw [colorRow, Span.mk.injEq]
  refine ⟨rfl, rfl, (List.eq_replicate_iff.mpr ⟨by simp, fun b hb => ?_⟩).symm⟩
  obtain ⟨j, hj, rfl⟩ := List.mem_map.mp hb
  rw [List.mem_range] at hj
  refine hc _ ?_
  calc i * (ex.toNat - sx.toNat + 1) + j
      < i * (ex.toNat - sx.toNat + 1) + (ex.toNat - sx.toNat + 1) := Nat.add_lt_add_left hj _
    _ = (i + 1) * (ex.toNat - sx.toNat + 1) := (Nat.succ_mul _ _).symm
    _ ≤ (ey.toNat - sy.toNat + 1) * (ex.toNat - sx.toNat + 1) := Nat.mul_le_mul_right _ hi
    _ = (ex.toNat - sx.toNat + 1) * (ey.toNat - sy.toNat + 1) := Nat.mul_comm _ _

theorem mem_pixels_colorFill (color : ℕ → U16) {p : ℕ × ℕ} {c : U16} :
    (p, c) ∈ pixels (lcdColorFill sx sy ex ey color) ↔
      ∃ i < ey.toNat - sy.toNat + 1, ∃ j < ex.toNat - sx.toNat + 1,
        p = (sx.toNat + j, sy.toNat + i) ∧ c = color (i * (ex.toNat - sx.toNat + 1) + j) := by
  have hh := lcddev.height.isLt
  obtain ⟨px, py⟩ := p
  rw [colorFill_rows hx hex hy hey, mem_pixels]
  simp only [List.mem_map, List.mem_range, Prod.mk.injEq]
  have hrow : ∀ i < ey.toNat - sy.toNat + 1,
      (BitVec.ofNat 16 (sy.toNat + i)).toNat = sy.toNat + i := by
    intro i hi
    rw [BitVec.toNat_ofNat, Nat.mod_eq_of_lt (by omega)]
  constructor
  · rintro ⟨_, ⟨i, hi, rfl⟩, rfl, j, rfl, hj⟩
    obtain ⟨hlt, rfl⟩ := colorRow_word.mp hj
    exact ⟨i, hi, j, hlt, ⟨rfl, hrow i hi⟩, rfl⟩
  · rintro ⟨i, hi, j, hj, ⟨rfl, rfl⟩, rfl⟩
    exact ⟨_, ⟨i, hi, rfl⟩, (hrow i hi).symm, j, rfl, colorRow_word.mpr ⟨hj, rfl⟩⟩

theorem colorFill_flat (color : ℕ → U16) :
    ∀ s ∈ lcdColorFill sx sy ex ey color, Flat lcddev.width.toNat s := by
  rw [colorFill_rows hx hex hy hey]
  intro s hs
  obtain ⟨i, -, rfl⟩ := List.mem_map.mp hs
  refine Or.inr ?_
  simp only [colorRow, List.length_map, List.length_range]
  omega

theorem colorFill_words (color : ℕ → U16) :
    (lcdColorFill sx sy ex ey color).flatMap Span.colors =
      (List.range ((ey.toNat - sy.toNat + 1) * (ex.toNat - sx.toNat + 1))).map color := by
  rw [colorFill_rows hx hex hy hey, map_range_mul, List.flatMap_map]
  rfl

/-- **Block fills are exact and agree.** On the screen `lcd_color_fill` puts each element of the
array at its place, sends each of them once and in order, and changes nothing else; with one colour
in the whole array `lcd_fill` leaves the same memory. -/
theorem fills_exact (hid : lcddev.id ≠ 0x1963) (noise : ℕ → U16) (env : TextEnv) {w : Wire Panel}
    (hfull : Full lcddev w.panel.ctrl) (color : ℕ → U16) :
    ∃ mem, drawn lcddev noise env w (.colorFill sx sy ex ey color) = some mem ∧
      (∀ i < ey.toNat - sy.toNat + 1, ∀ j < ex.toNat - sx.toNat + 1,
        mem (sx.toNat + j, sy.toNat + i) = color (i * (ex.toNat - sx.toNat + 1) + j)) ∧
      (∀ p : ℕ × ℕ,
        ¬ ((sx.toNat ≤ p.1 ∧ p.1 ≤ ex.toNat) ∧ sy.toNat ≤ p.2 ∧ p.2 ≤ ey.toNat) →
        mem p = w.panel.gram p) ∧
      (lcdColorFill sx sy ex ey color).flatMap Span.colors =
        (List.range ((ey.toNat - sy.toNat + 1) * (ex.toNat - sx.toNat + 1))).map color ∧
      ∀ c : U32,
        (∀ k < (ex.toNat - sx.toNat + 1) * (ey.toNat - sy.toNat + 1), color k = c.setWidth 16) →
        drawn lcddev noise env w (.fill sx sy ex ey c) = some mem := by
  have hmem := @mem_pixels_colorFill lcddev sx sy ex ey hx hex hy hey color
  have hflat := colorFill_flat hx hex hy hey color
  refine ⟨canvas (lcdColorFill sx sy ex ey color) w.panel.gram,
    drawn_canvas hid noise env hfull rfl hflat, fun i hi j hj => ?_, fun p hp => ?_,
    colorFill_words hx hex hy hey color, fun c hc => ?_⟩
  · refine writes_of_mem (hmem.mpr ⟨i, hi, j, hj, rfl, rfl⟩) ?_ _
    rintro ⟨q, c⟩ hq rfl
    -- a pixel has one row and one column
    obtain ⟨i', -, j', -, heq, rfl⟩ := hmem.mp hq
    rw [Prod.mk.injEq] at heq
    obtain rfl : i = i' := by omega
    obtain rfl : j = j' := by omega
    rfl
  · refine writes_of_ne ?_ _
    rintro ⟨q, c⟩ hq rfl
    obtain ⟨i, hi, j, hj, rfl, -⟩ := hmem.mp hq
    simp only at hp
    omega
  · exact drawn_canvas hid noise env hfull (fill_eq_colorFill hx hex hy hey hc) hflat

end

/-- The theorem at an area of two rows of three pixels. -/
theorem fills_exact_corner :
    ∃ mem, drawn upright (fun _ => 0) plain black (.colorFill 237 318 239 319 (BitVec.ofNat 16)) =
        some mem ∧ mem (238, 319) = 4 := by
  obtain ⟨mem, hdrawn, hmem, -⟩ := @fills_exact upright 237 318 239 319 (by decide) (by decide)
    (by decide) (by decide) (by decide) (fun _ => 0) plain black upright_full (BitVec.ofNat 16)
  exact ⟨mem, hdrawn, hmem 1 (by decide) 1 (by decide)⟩

/-! ### The counters -/

/-- The call comes back after `n` pixels. -/
def ReturnsAfter (r : Option (List Span)) (n : ℤ) : Prop :=
  ∃ spans, r = some spans ∧ ((pixels spans).length : ℤ) = n

theorem returnsAfter_some {spans : List Span} {n : ℤ} :
    ReturnsAfter (some spans) n ↔ ((pixels spans).length : ℤ) = n := by
  constructor
  · rintro ⟨_, ⟨⟩, h⟩
    exact h
  · exact fun h => ⟨spans, rfl, h⟩

theorem not_returnsAfter_none {n : ℤ} : ¬ ReturnsAfter none n := by
  rintro ⟨_, h, -⟩
  exact absurd h (by simp)

theorem length_row (x y : ℕ) (colors : List U16) : (row x y colors).length = colors.length := by
  induction colors generalizing x with
  | nil => rfl
  | cons c colors ih => rw [row, List.length_cons, List.length_cons, ih]

theorem length_pixels_rows {m : ℕ} {f : ℕ → Span} (hf : ∀ i, (f i).colors.length = m) (n : ℕ) :
    (pixels ((List.range n).map f)).length = n * m := by
  induction n with
  | zero => simp
  | succ n ih =>
    rw [List.range_succ, List.map_append, pixels_append, List.length_append, ih, Nat.succ_mul,
      List.map_singleton, pixels, List.flatMap_singleton, Span.pixels, length_row, hf]

/-- The length of a side, which is not positive if the side is empty or the wrong way round. -/
def side (s e : U16) : ℤ := int e - int s + 1

/-- **`lcd_fill`** counts its rows up to the last one, and the length of a row has 16 bits. -/
theorem fill_returnsAfter_iff (sx sy ex ey : U16) (color : U32) :
    ReturnsAfter (lcdFill sx sy ex ey color) (max 0 (side sx ex) * max 0 (side sy ey)) ↔
      ey.toNat < 65535 ∧ (side sy ey ≤ 0 ∨ (0 ≤ side sx ex ∧ side sx ex ≤ 65535)) := by
  have hwidth := u16_toNat (side sx ex)
  have hx := sx.isLt
  have hx' := ex.isLt
  by_cases hey : ey.toNat < 65535
  · have hrows : max 0 (side sy ey) = (ey.toNat + 1 - sy.toNat : ℕ) := by
      unfold side int
      omega
    rw [lcdFill_eq hey, returnsAfter_some, length_pixels_rows fun i => List.length_replicate,
      hrows, Nat.cast_mul, mul_comm, mul_eq_mul_right_iff]
    unfold side int at *
    omega
  · have hnone : lcdFill sx sy ex ey color = none := by
      rw [← Option.not_isSome_iff_eq_none, lcdFill_isSome]
      exact hey
    rw [hnone]
    exact iff_of_false not_returnsAfter_none fun h => hey h.1

/-- **`lcd_color_fill`** counts from zero, and both its sides have 16 bits. -/
theorem colorFill_returnsAfter_iff (sx sy ex ey : U16) (color : ℕ → U16) :
    ReturnsAfter (some (lcdColorFill sx sy ex ey color))
        (max 0 (side sx ex) * max 0 (side sy ey)) ↔
      (0 ≤ side sx ex ∧ side sx ex ≤ 65535 ∧ 0 ≤ side sy ey ∧ side sy ey ≤ 65535) ∨
        side sx ex = 0 ∨ side sy ey = 0 ∨ (side sx ex = 65536 ∧ side sy ey ≤ 0) ∨
        (side sy ey = 65536 ∧ side sx ex ≤ 0) := by
  have hlen : ∀ i, (colorRow sx sy (u16 (side sx ex)).toNat color i).colors.length =
      (u16 (side sx ex)).toNat := by
    intro i
    rw [colorRow, List.length_map, List.length_range]
  have hbounds : ∀ s e : U16, -65535 < side s e ∧ side s e ≤ 65536 := by
    intro s e
    have hs := s.isLt
    have he := e.isLt
    unfold side int
    omega
  have hw := hbounds sx ex
  have hh := hbounds sy ey
  rw [lcdColorFill_eq, returnsAfter_some]
  change ((pixels ((List.range (u16 (side sy ey)).toNat).map
    (colorRow sx sy (u16 (side sx ex)).toNat color))).length : ℤ) = _ ↔ _
  rw [length_pixels_rows hlen, Nat.cast_mul]
  generalize side sx ex = w at *
  generalize side sy ey = h at *
  have hwidth := u16_toNat w
  have hheight := u16_toNat h
  rcases (by omega : w < 0 ∨ w = 0 ∨ (0 < w ∧ w ≤ 65535) ∨ w = 65536) with hc | hc | hc | hc
  · have hpos : ((u16 w).toNat : ℤ) ≠ 0 := by omega
    rw [max_eq_left hc.le, zero_mul, mul_eq_zero, or_iff_left hpos]
    omega
  · have hzero : ((u16 w).toNat : ℤ) = 0 := by omega
    rw [hzero, mul_zero, hc, max_self, zero_mul]
    simp
  · have hsame : ((u16 w).toNat : ℤ) = w := by omega
    rw [hsame, max_eq_right hc.1.le, mul_comm w, mul_eq_mul_right_iff]
    omega
  · have hzero : ((u16 w).toNat : ℤ) = 0 := by omega
    rw [hzero, mul_zero, eq_comm, mul_eq_zero]
    omega

/-- **`lcd_draw_line`** counts its rounds up to `distance + 1`. -/
theorem line_returnsAfter_iff (x1 y1 x2 y2 color : U16) :
    ReturnsAfter (lcdDrawLine x1 y1 x2 y2 color)
        (max |int x2 - int x1| |int y2 - int y1| + 2) ↔
      max |int x2 - int x1| |int y2 - int y1| < 65534 := by
  have hdistance : max |int x2 - int x1| |int y2 - int y1| = (lineDistance x1 y1 x2 y2 : ℕ) := by
    rw [lineDistance, Int.abs_eq_natAbs, Int.abs_eq_natAbs, Nat.cast_max]
  rw [hdistance]
  by_cases hD : lineDistance x1 y1 x2 y2 < 65534
  · rw [lcdDrawLine_eq hD, returnsAfter_some, length_pixels_rows (m := 1) fun i => rfl]
    push_cast
    omega
  · have hnone : lcdDrawLine x1 y1 x2 y2 color = none := by
      rw [← Option.not_isSome_iff_eq_none, lcdDrawLine_isSome, Int.abs_eq_natAbs,
        Int.abs_eq_natAbs]
      unfold lineDistance int at hD
      omega
    rw [hnone]
    exact iff_of_false not_returnsAfter_none (by omega)

/-- **When the 16-bit counters are adequate**: exactly when each of the three functions comes back
after the pixels that its arguments say. -/
theorem counters_adequate_iff (x1 y1 x2 y2 : U16) :
    (∀ color, ReturnsAfter (lcdFill x1 y1 x2 y2 color)
        (max 0 (side x1 x2) * max 0 (side y1 y2)) ↔
      y2.toNat < 65535 ∧ (side y1 y2 ≤ 0 ∨ (0 ≤ side x1 x2 ∧ side x1 x2 ≤ 65535))) ∧
    (∀ color, ReturnsAfter (some (lcdColorFill x1 y1 x2 y2 color))
        (max 0 (side x1 x2) * max 0 (side y1 y2)) ↔
      (0 ≤ side x1 x2 ∧ side x1 x2 ≤ 65535 ∧ 0 ≤ side y1 y2 ∧ side y1 y2 ≤ 65535) ∨
        side x1 x2 = 0 ∨ side y1 y2 = 0 ∨ (side x1 x2 = 65536 ∧ side y1 y2 ≤ 0) ∨
        (side y1 y2 = 65536 ∧ side x1 x2 ≤ 0)) ∧
    ∀ color, ReturnsAfter (lcdDrawLine x1 y1 x2 y2 color)
        (max |int x2 - int x1| |int y2 - int y1| + 2) ↔
      max |int x2 - int x1| |int y2 - int y1| < 65534 :=
  ⟨fill_returnsAfter_iff x1 y1 x2 y2, colorFill_returnsAfter_iff x1 y1 x2 y2,
    line_returnsAfter_iff x1 y1 x2 y2⟩

/-- **A side the wrong way round**: the row is written 65532 pixels long. -/
theorem fill_inverted :
    ReturnsAfter (lcdFill 10 0 5 0 0xF800) 65532 ∧
    ¬ ∀ (sx sy ex ey : U16) (color : U32),
      ReturnsAfter (lcdFill sx sy ex ey color) (max 0 (side sx ex) * max 0 (side sy ey)) := by
  refine ⟨?_, fun h => ?_⟩
  · rw [lcdFill_eq (by decide), returnsAfter_some,
      length_pixels_rows fun i => List.length_replicate]
    decide
  · have hreturns := (fill_returnsAfter_iff 10 0 5 0 0xF800).mp (h 10 0 5 0 0xF800)
    exact absurd hreturns (by decide)

/-! ### Horizontal lines -/

/-- The pixels of a horizontal line on the screen. -/
def OnLine (lcddev : LcdDev) (x y len : U16) (p : ℕ × ℕ) : Prop :=
  p.2 = y.toNat ∧ p.2 < lcddev.height.toNat ∧ x.toNat ≤ p.1 ∧ p.1 < x.toNat + len.toNat ∧
    p.1 < lcddev.width.toNat

instance (lcddev : LcdDev) (x y len : U16) (p : ℕ × ℕ) : Decidable (OnLine lcddev x y len p) :=
  inferInstanceAs (Decidable (_ ∧ _ ∧ _ ∧ _ ∧ _))

/-- **`lcd_draw_hline` keeps to its row and to the screen**, for every colour and every picture: it
colours the pixels of the line and no others, and sets no cursor outside the screen. -/
def Confined (lcddev : LcdDev) (noise : ℕ → U16) (env : TextEnv) (c : Ctrl) (x y len : U16) :
    Prop :=
  ∀ (color : U16) (w : Wire Panel), w.panel.ctrl = c →
    ∃ spans mem, lcdDrawHline lcddev x y len color = some spans ∧
      (∀ s ∈ spans, s.x < lcddev.width ∧ s.y < lcddev.height) ∧
      drawn lcddev noise env w (.hline x y len color) = some mem ∧
      ∀ p, mem p = if OnLine lcddev x y len p then color else w.panel.gram p

section

variable {lcddev : LcdDev} (noise : ℕ → U16) (env : TextEnv) {c : Ctrl} {x y len : U16}

/-- A line that the guard turns away. -/
theorem confined_of_guard (h : len = 0 ∨ x > lcddev.width ∨ y > lcddev.height) :
    Confined lcddev noise env c x y len := by
  intro color w hw
  have hnone : lcdDrawHline lcddev x y len color = some [] := if_pos h
  refine ⟨[], w.panel.gram, hnone, by simp, ?_, fun p => (if_neg ?_).symm⟩
  · rw [drawn_spans noise env w (d := .hline x y len color) hnone]
    rfl
  · rintro ⟨h1, h2, h3, h4, h5⟩
    rcases h with rfl | h | h
    · exact absurd h4 (by simpa using h3)
    · rw [gt_iff_lt, BitVec.lt_def] at h
      omega
    · rw [gt_iff_lt, BitVec.lt_def] at h
      omega

/-- The window that the pixels of the line go through. -/
def lineWindow (lcddev : LcdDev) (x y : U16) : Window :=
  ⟨x.toNat, lcddev.width.toNat - 1, y.toNat, lcddev.height.toNat - 1⟩

/-- Where the pixels of the line go, if it keeps to the row or is in the last one. -/
theorem passes_iff (hx : x.toNat < lcddev.width.toNat) (hy : y.toNat < lcddev.height.toNat)
    (hlen : x.toNat + len.toNat ≤ lcddev.width.toNat ∨ y.toNat + 1 = lcddev.height.toNat)
    (p : ℕ × ℕ) :
    (∃ k < len.toNat, (lineWindow lcddev x y).next^[k] (x.toNat, y.toNat) = p) ↔
      OnLine lcddev x y len p := by
  have hrow : ∀ k, x.toNat + k < lcddev.width.toNat →
      (lineWindow lcddev x y).next^[k] (x.toNat, y.toNat) = (x.toNat + k, y.toNat) :=
    fun k hk => next_iterate_row _ _ (by simp only [lineWindow]; omega)
  constructor
  · rintro ⟨k, hk, rfl⟩
    by_cases hin : x.toNat + k < lcddev.width.toNat
    · rw [hrow k hin]
      exact ⟨rfl, hy, by simp only; omega, by simp only; omega, hin⟩
    · -- beyond the end of the last row the window has nothing but the row
      obtain ⟨h1, h2, h3, h4⟩ := has_iterate (w := lineWindow lcddev x y)
        (by simp only [lineWindow]; omega) (by simp only [lineWindow]; omega) k
      simp only [lineWindow] at h1 h2 h3 h4 ⊢
      exact ⟨by omega, by omega, h1, by omega, by omega⟩
  · obtain ⟨px, py⟩ := p
    rintro ⟨rfl, -, h1, h2, h3⟩
    simp only at h1 h2 h3
    refine ⟨px - x.toNat, by omega, ?_⟩
    rw [hrow _ (by omega), Nat.add_sub_cancel' h1]

section

variable (hid : lcddev.id ≠ 0x1963) (hfull : Full lcddev c) (h0 : len ≠ 0)
  (hend : y.toNat < 65535)

include hid hfull h0 hend

theorem hline_drawn (hx : x.toNat ≤ lcddev.width.toNat) (hy : y.toNat ≤ lcddev.height.toNat)
    (color : U16) {w : Wire Panel} (hw : w.panel.ctrl = c) :
    drawn lcddev noise env w (.hline x y len color) =
      some (store (lineWindow lcddev x y).next (List.replicate len.toNat color)
        (x.toNat, y.toNat) w.panel.gram) := by
  subst hw
  have hright := hfull.right
  have hbottom := hfull.bottom
  have hspans := hline_run lcddev x y len color h0 hx hy hend
  have hwin : lineWindow lcddev x y =
      ⟨x.toNat, w.panel.ctrl.col.last, y.toNat, w.panel.ctrl.row.last⟩ := by
    rw [lineWindow, ← hright, ← hbottom]
    rfl
  obtain ⟨ctrl, ptr, hspan⟩ := port_span hid hfull.commands noise
    ⟨x, y, List.replicate len.toNat color⟩ w.panel hwin
  rw [drawn_spans noise env w (d := .hline x y len color) hspans, paint_cons, paint_nil,
    List.append_nil, hspan]

theorem confined_of_row (hx : x.toNat < lcddev.width.toNat) (hy : y.toNat < lcddev.height.toNat)
    (hlen : x.toNat + len.toNat ≤ lcddev.width.toNat ∨ y.toNat + 1 = lcddev.height.toNat) :
    Confined lcddev noise env c x y len := by
  intro color w hw
  refine ⟨_, _, hline_run lcddev x y len color h0 hx.le hy.le hend, ?_,
    hline_drawn noise env hid hfull h0 hend hx.le hy.le color hw, fun p => ?_⟩
  · intro s hs
    obtain rfl := List.mem_singleton.mp hs
    exact ⟨hx, hy⟩
  · have hpasses := passes_iff hx hy hlen p
    split_ifs with hp
    · exact store_replicate _ color _ _ _ (hpasses.mpr hp)
    · refine store_of_ne _ _ _ _ fun k hk he => hp (hpasses.mp ⟨k, ?_, he⟩)
      rwa [List.length_replicate] at hk

/-- **The spill.** A line that ends beyond the screen goes on in the next row. -/
theorem not_confined_of_spill (hx : x.toNat < lcddev.width.toNat)
    (hy : y.toNat + 1 < lcddev.height.toNat)
    (hlen : lcddev.width.toNat < x.toNat + len.toNat) :
    ¬ Confined lcddev noise env c x y len := by
  intro h
  obtain ⟨spans, mem, -, -, hmem, hp⟩ :=
    h 1 ⟨{ ctrl := c, ptr := (0, 0), gram := fun _ => 0, taken := 0, clock := 0 }, []⟩ rfl
  rw [hline_drawn noise env hid hfull h0 hend hx.le (by omega) 1 rfl] at hmem
  obtain rfl := Option.some.inj hmem
  have hoff : ¬ OnLine lcddev x y len (x.toNat, y.toNat + 1) := fun h => by
    have hrow := h.1
    simp only at hrow
    omega
  have hspill : (lineWindow lcddev x y).next^[lcddev.width.toNat - 1 - x.toNat + 1]
      (x.toNat, y.toNat) = (x.toNat, y.toNat + 1) :=
    next_iterate_width (by simp only [lineWindow]; omega) (by simp only [lineWindow]; omega)
  have hpixel := hp (x.toNat, y.toNat + 1)
  rw [if_neg hoff, store_replicate _ (1 : U16) _ _ _ ⟨_, by omega, hspill⟩] at hpixel
  exact absurd hpixel (show (1 : U16) ≠ 0 by decide)

end

theorem not_confined_of_edge (h0 : len ≠ 0) (hx : x.toNat ≤ lcddev.width.toNat)
    (hy : y.toNat ≤ lcddev.height.toNat)
    (hedge : ¬ (x.toNat < lcddev.width.toNat ∧ y.toNat < lcddev.height.toNat)) :
    ¬ Confined lcddev noise env c x y len := by
  intro h
  obtain ⟨spans, -, hspans, hcursor, -⟩ :=
    h 1 ⟨{ ctrl := c, ptr := (0, 0), gram := fun _ => 0, taken := 0, clock := 0 }, []⟩ rfl
  by_cases hend : y.toNat < 65535
  · rw [hline_run lcddev x y len 1 h0 hx hy hend] at hspans
    obtain rfl := Option.some.inj hspans
    exact hedge (hcursor _ (List.mem_singleton_self _))
  · -- the fill of row `0xFFFF` never ends
    have hguard : ¬ (len = 0 ∨ x > lcddev.width ∨ y > lcddev.height) := by
      rw [gt_iff_lt, gt_iff_lt, BitVec.lt_def, BitVec.lt_def, or_iff_right h0]
      omega
    have hsome := (lcdFill_isSome x y (u16 (int x + int len - 1)) y
      ((1 : U16).setWidth 32)).mp
    rw [lcdDrawHline, if_neg hguard] at hspans
    rw [hspans] at hsome
    exact hend (hsome rfl)

end

/-- **When a horizontal line is confined**: if it is empty or begins beyond the screen, or if it
begins on the screen and either ends there or is in the last row. -/
theorem hline_confined_iff {lcddev : LcdDev} (hid : lcddev.id ≠ 0x1963) (noise : ℕ → U16)
    (env : TextEnv) {c : Ctrl} (hfull : Full lcddev c) (x y len : U16) :
    Confined lcddev noise env c x y len ↔
      len.toNat = 0 ∨ lcddev.width.toNat < x.toNat ∨ lcddev.height.toNat < y.toNat ∨
      (x.toNat < lcddev.width.toNat ∧ y.toNat < lcddev.height.toNat ∧
        (x.toNat + len.toNat ≤ lcddev.width.toNat ∨ y.toNat + 1 = lcddev.height.toNat)) := by
  have hh := lcddev.height.isLt
  have hzero : len = 0 ↔ len.toNat = 0 := BitVec.toNat_inj.symm
  constructor
  · intro h
    by_contra hn
    simp only [not_or, not_lt] at hn
    obtain ⟨h0, hx, hy, hrow⟩ := hn
    have hne : len ≠ 0 := fun he => h0 (hzero.mp he)
    by_cases hedge : x.toNat < lcddev.width.toNat ∧ y.toNat < lcddev.height.toNat
    · exact not_confined_of_spill noise env hid hfull hne (by omega) hedge.1 (by omega)
        (by omega) h
    · exact not_confined_of_edge noise env hne hx hy hedge h
  · rintro (h | h | h | ⟨hx, hy, hlen⟩)
    · exact confined_of_guard noise env (Or.inl (hzero.mpr h))
    · exact confined_of_guard noise env (Or.inr (Or.inl h))
    · exact confined_of_guard noise env (Or.inr (Or.inr h))
    · by_cases h0 : len = 0
      · exact confined_of_guard noise env (Or.inl h0)
      · exact confined_of_row noise env hid hfull h0 (by omega) hx hy hlen

/-- The theorem at a line of ten pixels in the corner. -/
theorem hline_confined_corner :
    Confined upright (fun _ => 0) plain black.panel.ctrl 230 319 10 :=
  (@hline_confined_iff upright (by decide) (fun _ => 0) plain _ upright_full 230 319 10).mpr
    (by decide)

/-- **A line of 20 pixels from column 230** of a screen of 240 columns goes on in the next row. -/
theorem hline_spill :
    ¬ Confined upright (fun _ => 0) plain black.panel.ctrl 230 10 20 ∧
    ¬ ∀ (lcddev : LcdDev) (noise : ℕ → U16) (env : TextEnv) (c : Ctrl) (x y len : U16),
      lcddev.id ≠ 0x1963 → Full lcddev c → Confined lcddev noise env c x y len := by
  have hspill : ¬ Confined upright (fun _ => 0) plain black.panel.ctrl 230 10 20 :=
    @not_confined_of_spill upright (fun _ => 0) plain _ 230 10 20 (by decide) upright_full
      (by decide) (by decide) (by decide) (by decide) (by decide)
  exact ⟨hspill, fun h => hspill (h upright _ _ _ 230 10 20 (by decide) upright_full)⟩

end RtosExample.Lcd.Fill
