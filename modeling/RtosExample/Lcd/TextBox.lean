import RtosExample.Lcd.Beyond
import RtosExample.Lcd.Layout

/-! # Text and edges

`lcd_show_char` draws its first point before it looks for the edges of the screen, and
`lcd_show_string` looks for the edges of its box where a character begins. So a character that
begins beyond the screen draws there, and one that begins in the box may end beyond it.

* `text_within_iff`: when no point lies beyond the screen.
* `showString_inBox_iff`: when a string leaves the pixels around its box as they are. -/

namespace RtosExample.Lcd.TextBox

open RtosExample.Cint RtosExample.Lib.Memory RtosExample.Lib.Flow RtosExample.Lcd.Dev
open RtosExample.Lcd.Draw RtosExample.Lcd.Text RtosExample.Lcd.Controller RtosExample.Lcd.Calls
open RtosExample.Lcd.Geometry RtosExample.Lcd.Canvas RtosExample.Lcd.Glyph RtosExample.Lcd.Beyond
open RtosExample.Lcd.Layout

/-! ### The characters one by one -/

theorem changes_flatMap {α : Type} {l : List α} {f : α → List Span} {p : ℕ × ℕ} :
    Changes (l.flatMap f) p ↔ ∃ a ∈ l, Changes (f a) p := by
  simp only [changes_iff, mem_pixels_flatMap]
  constructor
  · rintro ⟨c, a, ha, hc⟩
    exact ⟨a, ha, c, hc⟩
  · rintro ⟨a, ha, c, hc⟩
    exact ⟨c, a, ha, hc⟩

section

variable {lcddev : LcdDev} {x y width height : U16} {size : U8} (hsize : IsSize size)
  (hx : x.toNat + width.toNat + size.toNat < 65536)
  (hy : y.toNat + height.toNat + size.toNat < 65536)

include hsize hx hy

theorem forall_calls {Q : CharCall → Prop} {R : ℕ × ℕ → Prop} (color : U16)
    (hQ : ∀ (k : ℕ) (c : U8), (charPlace x y width size k).2 < y.toNat + height.toNat →
      (Q (callAt size color (charPlace x y width size k) c) ↔ R (charPlace x y width size k)))
    (p : List U8) :
    (∀ c ∈ showStringCalls x y width height size p color, Q c) ↔
      ∀ k < (printed p).length, (charPlace x y width size k).2 < y.toNat + height.toNat →
        R (charPlace x y width size k) := by
  constructor
  · intro h k hk hrow
    refine (hQ k (printed p)[k] hrow).mp (h _ (List.mem_iff_getElem?.mpr ⟨k, ?_⟩))
    rw [getElem?_showString hsize hx hy, if_pos hrow, List.getElem?_eq_getElem hk]
    rfl
  · intro h call hcall
    obtain ⟨k, hk⟩ := List.mem_iff_getElem?.mp hcall
    rw [getElem?_showString hsize hx hy] at hk
    split_ifs at hk with hrow
    obtain ⟨c, hc, rfl⟩ := Option.map_eq_some_iff.mp hk
    exact (hQ k c hrow).mpr (h k (List.getElem?_eq_some_iff.mp hc).1 hrow)

theorem showString_within_iff (env : TextEnv) (p : List U8) (color : U16) :
    Within lcddev (lcdShowString env lcddev x y width height size p color) ↔
      ∀ k < (printed p).length, (charPlace x y width size k).2 < y.toNat + height.toNat →
        (charPlace x y width size k).1 < lcddev.width.toNat ∧
          (charPlace x y width size k).2 < lcddev.height.toNat := by
  rw [showString_calls, within_flatMap]
  refine forall_calls (R := fun q => q.1 < lcddev.width.toNat ∧ q.2 < lcddev.height.toNat) hsize hx
    hy color (fun k c hrow => ?_) p
  obtain ⟨hcx, hcy⟩ := charPlace_toNat hsize hx hy k hrow
  have hiff := @showChar_within_iff lcddev (BitVec.ofNat 16 (charPlace x y width size k).1)
    (BitVec.ofNat 16 (charPlace x y width size k).2) size hsize c 0 color env
  rw [hcx, hcy] at hiff
  exact hiff.trans (or_iff_left fun h => h.1 rfl)

end

/-! ### The screen -/

/-- The number of characters that begin in a line after the first. -/
def nextChars (x width : U16) (size : U8) : ℕ := (margins x width size).perLine

/-- **The `n` characters of a string begin on the screen**: the last of the first line, the last of
a line after it, which begins in column `x % 256`, and the lowest line. -/
structure BeginsWithin (lcddev : LcdDev) (x y width height : U16) (size : U8) (n : ℕ) : Prop where
  first : n = 0 ∨ width = 0 ∨ height = 0 ∨
    x.toNat + (min n (lineChars width size) - 1) * (size.toNat / 2) < lcddev.width.toNat ∧
      y.toNat < lcddev.height.toNat
  next : n ≤ lineChars width size ∨ height.toNat ≤ size.toNat ∨
    x.toNat % 256 + (min (n - lineChars width size) (nextChars x width size) - 1) *
      (size.toNat / 2) < lcddev.width.toNat ∧
    y.toNat + (1 + min ((n - lineChars width size - 1) / nextChars x width size)
      ((height.toNat - size.toNat - 1) / size.toNat)) * size.toNat < lcddev.height.toNat

theorem lineChars_eq_zero {width : U16} {size : U8} (hsize : IsSize size) :
    lineChars width size = 0 ↔ width = 0 := by
  have h12 := hsize.toNat
  have hzero : width = 0 ↔ width.toNat = 0 := BitVec.toNat_inj.symm
  rw [hzero, lineChars, Nat.div_eq_zero_iff]
  omega

/-- **When text keeps to the screen.** A character does if it begins there, or if it is not in
mode 0 and has no dot among the bits that are gone through beyond the screen; a string does if its
characters begin there. -/
theorem text_within_iff (env : TextEnv) (lcddev : LcdDev) {size : U8} (hsize : IsSize size) :
    (∀ (x y : U16) (chr mode : U8) (color : U16),
      Within lcddev (lcdShowChar env lcddev x y chr size mode color) ↔
        (x.toNat < lcddev.width.toNat ∧ y.toNat < lcddev.height.toNat) ∨
        mode ≠ 0 ∧ ∀ k < beyond lcddev x y size, fontBit env chr size 0 k = false) ∧
    ∀ x y width height : U16, x.toNat + width.toNat ≤ 65000 → y.toNat + height.toNat ≤ 65000 →
      ∀ (p : List U8) (color : U16),
        Within lcddev (lcdShowString env lcddev x y width height size p color) ↔
          BeginsWithin lcddev x y width height size (printed p).length := by
  refine ⟨fun x y chr mode color => showChar_within_iff hsize chr mode color env, ?_⟩
  intro x y width height hx hy p color
  have h12 := hsize.toNat
  have hcells := cells_lt_iff (f := margins x width size) (show 0 < size.toNat by omega) x.toNat
    y.toNat (printed p).length height.toNat lcddev.width.toNat lcddev.height.toNat
  have hheight : height = 0 ↔ height.toNat = 0 := BitVec.toNat_inj.symm
  rw [fit_margins, lineChars_eq_zero hsize, ← hheight] at hcells
  rw [showString_within_iff hsize (by omega) (by omega)]
  unfold charPlace
  rw [hcells]
  exact ⟨fun h => ⟨h.1, h.2⟩, fun h => ⟨h.first, h.next⟩⟩

/-- A character in the last pixel, and a string down to the last row. -/
theorem text_within_corner :
    Within upright (lcdShowChar plain upright 239 319 0x41 16 0 0xF800) ∧
    Within upright (lcdShowString plain upright 200 288 40 32 16 [0x41, 0x42, 0x43] 0xF800) := by
  obtain ⟨hchar, hstring⟩ := @text_within_iff plain upright 16 (by decide)
  constructor
  · exact (hchar 239 319 0x41 0 0xF800).mpr (Or.inl ⟨by decide, by decide⟩)
  · exact (hstring 200 288 40 32 (by decide) (by decide) _ _).mpr
      ⟨Or.inr (Or.inr (Or.inr (by decide))), Or.inl (by decide)⟩

/-- **A character to the right of the screen** draws its first column there, and so does a
string. -/
theorem text_beyond :
    ¬ Within upright (lcdShowChar plain upright 240 0 0x41 16 0 0xF800) ∧
    ¬ Within upright (lcdShowString plain upright 232 0 16 16 16 [0x41, 0x42] 0xF800) ∧
    ¬ ∀ (env : TextEnv) (lcddev : LcdDev) (size : U8), IsSize size →
      (∀ (x y : U16) (chr mode : U8) (color : U16),
        Within lcddev (lcdShowChar env lcddev x y chr size mode color)) ∧
      ∀ x y width height : U16, x.toNat + width.toNat ≤ 65000 → y.toNat + height.toNat ≤ 65000 →
        ∀ (p : List U8) (color : U16),
          Within lcddev (lcdShowString env lcddev x y width height size p color) := by
  have hchar : ¬ Within upright (lcdShowChar plain upright 240 0 0x41 16 0 0xF800) := by
    rw [@showChar_within_iff upright 240 0 16 (by decide) 0x41 0 0xF800 plain]
    rintro (h | h)
    · exact absurd h.1 (by decide)
    · exact h.1 rfl
  refine ⟨hchar, ?_, fun h => hchar ((h plain upright 16 (by decide)).1 240 0 0x41 0 0xF800)⟩
  intro h
  rw [@showString_within_iff upright 232 0 16 16 16 (by decide) (by decide) (by decide)] at h
  exact absurd (h 1 (by decide) (by decide)).1 (by decide)

/-! ### The box -/

/-- **Only the box changes.** -/
def InBox (spans : List Span) (x y width height : U16) : Prop :=
  ∀ p : ℕ × ℕ, Changes spans p → (x.toNat ≤ p.1 ∧ p.1 < x.toNat + width.toNat) ∧
    y.toNat ≤ p.2 ∧ p.2 < y.toNat + height.toNat

section

variable {env : TextEnv} {lcddev : LcdDev} {x y : U16} {size : U8} (hsize : IsSize size)
  (hx : x.toNat < lcddev.width.toNat) (hy : y.toNat < lcddev.height.toNat)

include hsize hx hy

theorem changes_showChar (chr : U8) (color : U16) {p : ℕ × ℕ} :
    Changes (lcdShowChar env lcddev x y chr size 0 color) p ↔
      ∃ c < cellColumns lcddev x y size, ∃ r < cellRows lcddev y size,
        p = (x.toNat + c, y.toNat + r) := by
  simp only [changes_iff, mem_pixels_showChar hsize hx hy]
  constructor
  · rintro ⟨-, c, hc, r, hr, hp, -⟩
    exact ⟨c, hc, r, hr, hp⟩
  · rintro ⟨c, hc, r, hr, hp⟩
    refine ⟨if fontBit env chr size c r then color else env.g_back_color.setWidth 16, c, hc, r, hr,
      hp, ?_⟩
    split_ifs
    · rfl
    · exact ⟨trivial, rfl⟩

/-- **A character that begins in a box on the screen** changes nothing outside: its right edge
counts only if it is drawn there, and the edges of the screen cut it off. -/
theorem showChar_inBox_iff {bx bY width height : U16}
    (hright : bx.toNat + width.toNat ≤ lcddev.width.toNat)
    (hbottom : bY.toNat + height.toNat ≤ lcddev.height.toNat)
    (hcolumn : x.toNat < bx.toNat + width.toNat)
    (hrow : bY.toNat ≤ y.toNat ∧ y.toNat < bY.toNat + height.toNat) (chr : U8) (color : U16) :
    InBox (lcdShowChar env lcddev x y chr size 0 color) bx bY width height ↔
      bx.toNat ≤ x.toNat ∧
      (lcddev.height.toNat ≤ y.toNat + size.toNat ∨
        x.toNat + size.toNat / 2 ≤ bx.toNat + width.toNat ∨
        bx.toNat + width.toNat = lcddev.width.toNat) ∧
      (y.toNat + size.toNat ≤ bY.toNat + height.toNat ∨
        bY.toNat + height.toNat = lcddev.height.toNat) := by
  have h12 := hsize.toNat
  have hcolumns : 0 < cellColumns lcddev x y size := by
    unfold cellColumns
    split_ifs <;> omega
  have hrows : 0 < cellRows lcddev y size := by
    unfold cellRows
    omega
  unfold InBox
  simp only [changes_showChar hsize hx hy]
  constructor
  · intro h
    have hlast := h _ ⟨cellColumns lcddev x y size - 1, by omega, 0, hrows, rfl⟩
    have hlow := h _ ⟨0, hcolumns, cellRows lcddev y size - 1, by omega, rfl⟩
    simp only at hlast hlow
    unfold cellRows at hlow
    unfold cellColumns at hlast
    refine ⟨by omega, ?_, by omega⟩
    split_ifs at hlast <;> omega
  · rintro ⟨hleft, hend, hlow⟩ p ⟨c, hc, r, hr, rfl⟩
    obtain ⟨⟨hc1, hc2⟩, hr1, hr2⟩ := cell_bounds hsize hx hy hc hr
    unfold cellColumns at hc
    simp only
    split_ifs at hc <;> omega

end

/-- **Character `k` keeps to the box**: in general it has to end in it. -/
structure CellInBox (lcddev : LcdDev) (x y width height : U16) (size : U8) (cell : ℕ × ℕ) :
    Prop where
  left : x.toNat ≤ cell.1
  right : lcddev.height.toNat ≤ cell.2 + size.toNat ∨
    cell.1 + size.toNat / 2 ≤ x.toNat + width.toNat ∨
    x.toNat + width.toNat = lcddev.width.toNat
  bottom : cell.2 + size.toNat ≤ y.toNat + height.toNat ∨
    y.toNat + height.toNat = lcddev.height.toNat

section

variable {lcddev : LcdDev} (hsides : Sides lcddev) {x y width height : U16} {size : U8}
  (hsize : IsSize size) (hwidth : 1 ≤ width.toNat)
  (hright : x.toNat + width.toNat ≤ lcddev.width.toNat)
  (hbottom : y.toNat + height.toNat ≤ lcddev.height.toNat)

include hsides hsize hwidth hright hbottom

theorem callAt_inBox_iff (env : TextEnv) (c : U8) (color : U16) (k : ℕ)
    (hrow : (charPlace x y width size k).2 < y.toNat + height.toNat) :
    InBox (CharCall.spans env lcddev
        (callAt size color (charPlace x y width size k) c)) x y width height ↔
      CellInBox lcddev x y width height size (charPlace x y width size k) := by
  obtain ⟨hw, hh⟩ := hsides
  have h12 := hsize.toNat
  have hx : x.toNat + width.toNat + size.toNat < 65536 := by omega
  have hy : y.toNat + height.toNat + size.toNat < 65536 := by omega
  obtain ⟨hcx, hcy⟩ := charPlace_toNat hsize hx hy k hrow
  have htop := @le_charPlace_row x y width size hsize k
  have hcolumn : (charPlace x y width size k).1 < x.toNat + width.toNat := by
    rcases @charPlace_column x y width size hsize k with h | h <;> omega
  generalize charPlace x y width size k = cell at *
  have hiff := @showChar_inBox_iff env lcddev (BitVec.ofNat 16 cell.1)
    (BitVec.ofNat 16 cell.2) size hsize (by rw [hcx]; omega) (by rw [hcy]; omega) x y width height
    hright hbottom (by rw [hcx]; exact hcolumn) (by rw [hcy]; exact ⟨htop, hrow⟩) c color
  rw [hcx, hcy] at hiff
  exact hiff.trans ⟨fun h => ⟨h.1, h.2.1, h.2.2⟩, fun h => ⟨h.left, h.right, h.bottom⟩⟩

theorem showString_inBox_cells (env : TextEnv) (p : List U8) (color : U16) :
    InBox (lcdShowString env lcddev x y width height size p color) x y width height ↔
      ∀ k < (printed p).length, (charPlace x y width size k).2 < y.toNat + height.toNat →
        CellInBox lcddev x y width height size (charPlace x y width size k) := by
  have hchar := callAt_inBox_iff hsides hsize hwidth hright hbottom env
  obtain ⟨hw, hh⟩ := hsides
  have h12 := hsize.toNat
  have hcalls : InBox (lcdShowString env lcddev x y width height size p color) x y width height ↔
      ∀ c ∈ showStringCalls x y width height size p color,
        InBox (CharCall.spans env lcddev c) x y width height := by
    unfold InBox
    simp only [showString_calls, changes_flatMap]
    constructor
    · intro h c hc q hq
      exact h q ⟨c, hc, hq⟩
    · rintro h q ⟨c, hc, hq⟩
      exact h c hc q hq
  rw [hcalls]
  exact forall_calls hsize (by omega) (by omega) color (fun k c => hchar c color k) p

omit hsides hsize hwidth hright hbottom in
/-- A place of the grid. -/
theorem cellInBox_grid (c r : ℕ) :
    CellInBox lcddev x y width height size
        (x.toNat + c * (size.toNat / 2), y.toNat + r * size.toNat) ↔
      (lcddev.height.toNat ≤ y.toNat + (1 + r) * size.toNat ∨
        (c + 1) * (size.toNat / 2) ≤ width.toNat ∨ x.toNat + width.toNat = lcddev.width.toNat) ∧
      ((1 + r) * size.toNat ≤ height.toNat ∨ y.toNat + height.toNat = lcddev.height.toNat) := by
  rw [Nat.succ_mul, Nat.add_mul, Nat.one_mul]
  constructor
  · rintro ⟨-, hr, hb⟩
    simp only at hr hb
    omega
  · rintro ⟨hr, hb⟩
    refine ⟨Nat.le_add_right _ _, ?_, ?_⟩ <;> simp only <;> omega

omit hsides hright hbottom in
theorem cells_inBox_iff (hheight : 1 ≤ height.toNat) {L : ℕ} (hL : 0 < L)
    (hgrid : x.toNat < 256 ∨ L ≤ lineChars width size ∨ height.toNat ≤ size.toNat) :
    (∀ k < L, (charPlace x y width size k).2 < y.toNat + height.toNat →
        CellInBox lcddev x y width height size (charPlace x y width size k)) ↔
      (lcddev.height.toNat ≤ y.toNat + size.toNat ∨
        min L (lineChars width size) * (size.toNat / 2) ≤ width.toNat ∨
        x.toNat + width.toNat = lcddev.width.toNat) ∧
      ((1 + min ((L - 1) / lineChars width size) ((height.toNat - 1) / size.toNat)) *
          size.toNat ≤ height.toNat ∨
        y.toNat + height.toNat = lcddev.height.toNat) := by
  have h12 := hsize.toNat
  have hpos := lineChars_pos hsize hwidth
  have hlines : (∀ k < L, (charPlace x y width size k).2 < y.toNat + height.toNat →
        CellInBox lcddev x y width height size (charPlace x y width size k)) ↔
      ∀ k < L, k / lineChars width size * size.toNat < height.toNat →
        CellInBox lcddev x y width height size
          (x.toNat + k % lineChars width size * (size.toNat / 2),
            y.toNat + k / lineChars width size * size.toNat) := by
    refine forall₂_congr fun k hk => ?_
    obtain ⟨hshown, hplace⟩ := charPlace_grid (y := y) hsize hwidth hgrid hk
    rw [hshown]
    exact forall_congr' fun hrow => by rw [hplace hrow]
  have hends := forall_grid_iff hpos (show 0 < size.toNat by omega) L height.toNat
    (P := fun c r => lcddev.height.toNat ≤ y.toNat + (1 + r) * size.toNat ∨
      (c + 1) * (size.toNat / 2) ≤ width.toNat ∨ x.toNat + width.toNat = lcddev.width.toNat)
    (Q := fun r => (1 + r) * size.toNat ≤ height.toNat ∨
      y.toNat + height.toNat = lcddev.height.toNat)
    (fun a b r hab h => h.imp
      (fun hlow => hlow.trans (Nat.add_le_add_left (Nat.mul_le_mul_right _ (by omega)) _))
      fun h => h.imp_left (Nat.mul_le_mul_right _ (Nat.add_le_add_right hab 1)).trans)
    fun a b hab h => h.imp_left (Nat.mul_le_mul_right _ (Nat.add_le_add_left hab 1)).trans
  have hlast : min L (lineChars width size) - 1 + 1 = min L (lineChars width size) := by omega
  rw [hlines]
  simp only [cellInBox_grid]
  rw [hends, or_iff_right (show L ≠ 0 by omega), or_iff_right (show height.toNat ≠ 0 by omega),
    hlast, Nat.add_zero, Nat.one_mul]

/-- **When a string keeps to its box**, a box on the screen: if its lines all start in the box, and
end there or at the edge of the screen, and the lowest line does too. -/
theorem showString_inBox_iff (hheight : 1 ≤ height.toNat) (env : TextEnv) (p : List U8)
    (color : U16) :
    InBox (lcdShowString env lcddev x y width height size p color) x y width height ↔
      (printed p).length = 0 ∨
      (x.toNat < 256 ∨ (printed p).length ≤ lineChars width size ∨ height.toNat ≤ size.toNat) ∧
      (lcddev.height.toNat ≤ y.toNat + size.toNat ∨
        min (printed p).length (lineChars width size) * (size.toNat / 2) ≤ width.toNat ∨
        x.toNat + width.toNat = lcddev.width.toNat) ∧
      ((1 + min (((printed p).length - 1) / lineChars width size)
          ((height.toNat - 1) / size.toNat)) * size.toNat ≤ height.toNat ∨
        y.toNat + height.toNat = lcddev.height.toNat) := by
  rw [showString_inBox_cells hsides hsize hwidth hright hbottom]
  rcases Nat.eq_zero_or_pos (printed p).length with h0 | hL
  · exact iff_of_true (fun k hk => absurd hk (by omega)) (Or.inl h0)
  rw [or_iff_right (show (printed p).length ≠ 0 by omega)]
  by_cases hgrid : x.toNat < 256 ∨ (printed p).length ≤ lineChars width size ∨
      height.toNat ≤ size.toNat
  · rw [cells_inBox_iff hsize hwidth hheight hL hgrid, and_iff_right hgrid]
  · refine iff_of_false (fun h => hgrid ?_) fun h => hgrid h.1
    -- the first character of the second line
    by_contra hn
    simp only [not_or, not_lt, not_le] at hn
    obtain ⟨hleft, hlong, hlow⟩ := hn
    have hsecond := (h (lineChars width size) hlong
      (by rw [charPlace_second]; exact Nat.add_lt_add_left hlow _)).left
    rw [charPlace_second] at hsecond
    exact absurd hsecond (by omega)

end

/-- Two characters to a line, and two lines. -/
theorem showString_inBox_two :
    InBox (lcdShowString plain upright 20 30 16 32 16 [0x41, 0x42, 0x43, 0x44, 0x45] 0xF800)
      20 30 16 32 :=
  (@showString_inBox_iff upright upright_sides 20 30 16 32 16 (by decide) (by decide) (by decide)
    (by decide) (by decide) plain _ _).mpr
    (Or.inr ⟨Or.inl (by decide), Or.inr (Or.inl (by decide)), Or.inl (by decide)⟩)

/-- **A box that is not as wide as two characters**: the second is put in it all the same. -/
theorem showString_spill :
    ¬ InBox (lcdShowString plain upright 20 30 10 16 16 [0x41, 0x42] 0xF800) 20 30 10 16 ∧
    ¬ ∀ (env : TextEnv) (lcddev : LcdDev) (x y width height : U16) (size : U8) (p : List U8)
        (color : U16), Sides lcddev → IsSize size → 1 ≤ width.toNat → 1 ≤ height.toNat →
      x.toNat + width.toNat ≤ lcddev.width.toNat →
      y.toNat + height.toNat ≤ lcddev.height.toNat →
      InBox (lcdShowString env lcddev x y width height size p color) x y width height := by
  have hspill :
      ¬ InBox (lcdShowString plain upright 20 30 10 16 16 [0x41, 0x42] 0xF800) 20 30 10 16 := by
    rw [@showString_inBox_cells upright upright_sides 20 30 10 16 16 (by decide) (by decide)
      (by decide) (by decide)]
    intro h
    exact absurd (h 1 (by decide) (by decide)).right (by decide)
  exact ⟨hspill, fun h => hspill (h plain upright 20 30 10 16 16 [0x41, 0x42] 0xF800 upright_sides
    (by decide) (by decide) (by decide) (by decide) (by decide))⟩

/-! ### On the controller -/

/-- **The controller shows the string** that is on the canvas. -/
theorem drawn_string {lcddev : LcdDev} (hid : lcddev.id ≠ 0x1963) (noise : ℕ → U16)
    (env : TextEnv) {w : Wire Panel} (h : Full lcddev w.panel.ctrl) (x y width height : U16)
    (size : U8) (p : List U8) (color : U16) :
    drawn lcddev noise env w (.string x y width height size p color) =
      some (canvas (lcdShowString env lcddev x y width height size p color) w.panel.gram) := by
  refine drawn_canvas hid noise env h rfl ?_
  rw [showString_calls]
  intro s hs
  obtain ⟨c, -, hc⟩ := List.mem_flatMap.mp hs
  exact showChar_flat _ c.x c.y c.chr s hc

end RtosExample.Lcd.TextBox
