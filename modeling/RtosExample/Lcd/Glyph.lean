import RtosExample.Lcd.Canvas
import RtosExample.Lcd.Text

/-! # Characters

`lcd_show_char` goes through the bytes of the font column by column, and through the bits of each
byte from the top. After every point it looks for the bottom of the screen, then for the end of the
column, and then for the right edge. So a cell that touches the bottom loses all its columns but
the first, while one that touches the right edge is whole.

* `showChar_eq`: the points, for every character that begins on the screen.
* `showChar_glyph_iff`: when the whole glyph is drawn.
* `drawn_char`: the controller shows what is on the canvas. -/

namespace RtosExample.Lcd.Glyph

open RtosExample.Cint RtosExample.Lib.Memory RtosExample.Lib.Raster RtosExample.Lcd.Dev
open RtosExample.Lcd.Draw RtosExample.Lcd.Text RtosExample.Lcd.Controller RtosExample.Lcd.Calls
open RtosExample.Lcd.Canvas

variable (env : TextEnv) (lcddev : LcdDev)

/-- The point for one bit of the font. -/
def bitDot (mode : U8) (color : U16) (bit : Bool) (x y : ℕ) : List Span :=
  if bit then [⟨BitVec.ofNat 16 x, BitVec.ofNat 16 y, [color]⟩]
  else if mode = 0 then
    [⟨BitVec.ofNat 16 x, BitVec.ofNat 16 y, [env.g_back_color.setWidth 16]⟩]
  else []

/-- The first `n` bits of a column. -/
def column (mode : U8) (color : U16) (bit : ℕ → Bool) (x y n : ℕ) : List Span :=
  (List.range n).flatMap fun k => bitDot env mode color (bit k) x (y + k)

/-- The place of the next byte when a column is over. -/
def nextColumn (x y0 : U16) : Option (U16 × U16) :=
  if x + 1 ≥ lcddev.width then none else some (x + 1, y0)

theorem column_succ (mode : U8) (color : U16) (bit : ℕ → Bool) (x y n : ℕ) :
    column env mode color bit x y (n + 1) =
      bitDot env mode color (bit 0) x y ++
        column env mode color (fun k => bit (k + 1)) x (y + 1) n := by
  unfold column
  rw [List.range_succ_eq_map, List.flatMap_cons, List.flatMap_map]
  simp only [Nat.add_zero, Nat.succ_eq_add_one, Nat.add_assoc, Nat.add_comm 1]

theorem column_add (mode : U8) (color : U16) (bit : ℕ → Bool) (x y m n : ℕ) :
    column env mode color bit x y (m + n) =
      column env mode color bit x y m ++
        column env mode color (fun k => bit (m + k)) x (y + m) n := by
  unfold column
  rw [List.range_add, List.flatMap_append, List.flatMap_map]
  simp only [Nat.add_assoc]

section

variable {env lcddev} {y0 : U16} {size mode : U8} {color : U16}

theorem dot_eq (temp : U8) (x y : U16) :
    (if temp &&& 0x80 ≠ 0 then lcdDrawPoint x y (color.setWidth 32)
      else if mode = 0 then lcdDrawPoint x y env.g_back_color else []) =
      bitDot env mode color (temp.getLsbD 7) x.toNat y.toNat := by
  have hbit : temp &&& 0x80 ≠ 0 ↔ temp.getLsbD 7 = true := by
    revert temp
    decide
  have hcolor : (color.setWidth 32).setWidth 16 = color := by
    rw [BitVec.setWidth_setWidth_of_le color (by decide), BitVec.setWidth_eq]
  simp only [bitDot, hbit, lcdDrawPoint, BitVec.ofNat_toNat, BitVec.setWidth_eq, hcolor]

theorem toNat_succ {v m : U16} (h : v.toNat < m.toNat) : (v + 1).toNat = v.toNat + 1 := by
  have hm := m.isLt
  rw [BitVec.toNat_add]
  change (v.toNat + 1) % 65536 = _
  omega

theorem firstByte {b : U8} {bytes : List U8} {n : ℕ} {bit : ℕ → Bool} (hn : n ≤ 8)
    (h : ∀ k < n, ((b :: bytes).getD (k / 8) 0).getLsbD (7 - k % 8) = bit k) :
    ∀ k < n, b.getLsbD (7 - k) = bit k := by
  intro k hk
  have hb := h k hk
  rwa [Nat.div_eq_of_lt (by omega), Nat.mod_eq_of_lt (by omega)] at hb

theorem nextByte {b : U8} {bytes : List U8} {rows : ℕ} {bit : ℕ → Bool}
    (h : ∀ k < rows, ((b :: bytes).getD (k / 8) 0).getLsbD (7 - k % 8) = bit k) :
    ∀ k < rows - 8, (bytes.getD (k / 8) 0).getLsbD (7 - k % 8) = bit (8 + k) := by
  intro k hk
  have hb := h (8 + k) (by omega)
  rwa [Nat.add_mod_left, Nat.add_div_left k (by omega), List.getD_cons_succ] at hb

theorem shiftBit (temp : U8) {k : ℕ} (hk : k < 7) :
    (temp <<< 1).getLsbD (7 - k) = temp.getLsbD (7 - (k + 1)) := by
  have h1 : 7 - k < 8 := by omega
  have h2 : ¬ 7 - k < 1 := by omega
  rw [BitVec.getLsbD_shiftLeft]
  simp [h1, h2, Nat.sub_sub]

theorem charBits_eq {x : U16} : ∀ (n : ℕ) {temp : U8} {y : U16} {rows : ℕ} {bit : ℕ → Bool},
    n ≤ 8 → (∀ k < min n rows, temp.getLsbD (7 - k) = bit k) →
    y0.toNat + size.toNat = y.toNat + rows → 0 < rows → y.toNat < lcddev.height.toNat →
    charBits env lcddev y0 size mode color n temp x y =
      (column env mode color bit x.toNat y.toNat
        (min n (min rows (lcddev.height.toNat - y.toNat))),
      if lcddev.height.toNat - y.toNat ≤ min n rows then none
      else if rows ≤ n then nextColumn lcddev x y0
      else some (x, BitVec.ofNat 16 (y.toNat + n)))
  | 0, temp, y, rows, bit, _, _, _, hr, hh => by
    rw [charBits, if_neg (by omega), if_neg (by omega), Nat.zero_min]
    simp [column]
  | n + 1, temp, y, rows, bit, hn, hbit, hy, hr, hh => by
    have hy1 := toNat_succ hh
    have hdot := @dot_eq env mode color temp x y
    rw [hbit 0 (by omega)] at hdot
    have hend : int (y + 1) - int y0 = int size ↔ rows = 1 := by
      unfold int
      omega
    rw [charBits, hdot]
    simp only [ge_iff_le, BitVec.le_def, hy1, hend]
    by_cases hbottom : lcddev.height.toNat ≤ y.toNat + 1
    · -- the point was in the last row
      have hone : min (n + 1) (min rows (lcddev.height.toNat - y.toNat)) = 0 + 1 := by omega
      have hstop : lcddev.height.toNat - y.toNat ≤ min (n + 1) rows := by omega
      rw [if_pos hbottom, if_pos hstop, hone, column_succ]
      simp [column]
    · have hstop : lcddev.height.toNat - y.toNat ≤ min (n + 1) rows ↔
          lcddev.height.toNat - (y + 1).toNat ≤ min n (rows - 1) := by omega
      have hover : rows ≤ n + 1 ↔ rows - 1 ≤ n := by omega
      rw [if_neg hbottom]
      by_cases hlast : rows = 1
      · have hone : min (n + 1) (min rows (lcddev.height.toNat - y.toNat)) = 0 + 1 := by omega
        have hgo : ¬ lcddev.height.toNat - y.toNat ≤ min (n + 1) rows := by omega
        have hcolumn : rows ≤ n + 1 := by omega
        rw [if_pos hlast, if_neg hgo, if_pos hcolumn, hone, column_succ]
        simp only [nextColumn, ge_iff_le, BitVec.le_def]
        split_ifs <;> simp [column]
      · have hshift : ∀ k < min n (rows - 1), (temp <<< 1).getLsbD (7 - k) = bit (k + 1) := by
          intro k hk
          rw [shiftBit temp (by omega), hbit (k + 1) (by omega)]
        have ih := @charBits_eq x n (temp <<< 1) (y + 1) (rows - 1) (fun k => bit (k + 1))
          (by omega) hshift (by omega) (by omega) (by omega)
        have hmin : min (n + 1) (min rows (lcddev.height.toNat - y.toNat)) =
            min n (min (rows - 1) (lcddev.height.toNat - (y + 1).toNat)) + 1 := by
          omega
        rw [if_neg hlast, ih, hmin, column_succ, hy1]
        simp only [hstop, hover, hy1, Nat.add_assoc, Nat.add_comm 1 n]

theorem charBytes_column {x : U16} (rest : List U8) : ∀ (bytes : List U8) {y : U16} {rows : ℕ}
    {bit : ℕ → Bool}, bytes.length = (rows + 7) / 8 →
    (∀ k < rows, (bytes.getD (k / 8) 0).getLsbD (7 - k % 8) = bit k) →
    y0.toNat + size.toNat = y.toNat + rows → 0 < rows → y.toNat < lcddev.height.toNat →
    charBytes env lcddev y0 size mode color (bytes ++ rest) x y =
      column env mode color bit x.toNat y.toNat (min rows (lcddev.height.toNat - y.toNat)) ++
      if lcddev.height.toNat - y.toNat ≤ rows then []
      else if x + 1 ≥ lcddev.width then []
      else charBytes env lcddev y0 size mode color rest (x + 1) y0
  | [], y, rows, bit, hlen, _, _, hr, _ => by
    rw [List.length_nil] at hlen
    omega
  | b :: bytes, y, rows, bit, hlen, hbit, hy, hr, hh => by
    rw [List.length_cons] at hlen
    have hbits := @charBits_eq env lcddev y0 size mode color x 8 b y rows bit le_rfl
      (firstByte (min_le_left 8 rows) fun k hk => hbit k (by omega)) hy hr hh
    rw [List.cons_append, charBytes, hbits]
    by_cases hlast : rows ≤ 8
    · -- the last byte, of which the lower bits may be left over
      obtain rfl : bytes = [] := List.length_eq_zero_iff.mp (by omega)
      have hmin : min 8 (min rows (lcddev.height.toNat - y.toNat)) =
          min rows (lcddev.height.toNat - y.toNat) := by omega
      rw [Nat.min_eq_right hlast, if_pos hlast, hmin, nextColumn]
      split_ifs <;> simp
    · have hmin : min 8 rows = 8 := by omega
      rw [hmin, if_neg hlast]
      by_cases hbottom : lcddev.height.toNat - y.toNat ≤ 8
      · have hstop : lcddev.height.toNat - y.toNat ≤ rows := by omega
        have hall : min 8 (min rows (lcddev.height.toNat - y.toNat)) =
            min rows (lcddev.height.toNat - y.toNat) := by omega
        rw [if_pos hbottom, if_pos hstop, hall, List.append_nil]
      · have hlt := lcddev.height.isLt
        have hy8 : (BitVec.ofNat 16 (y.toNat + 8)).toNat = y.toNat + 8 := by
          rw [BitVec.toNat_ofNat, Nat.mod_eq_of_lt (by omega)]
        have ih := @charBytes_column x rest bytes (BitVec.ofNat 16 (y.toNat + 8)) (rows - 8) _
          (by omega) (nextByte hbit) (by omega) (by omega) (by omega)
        have hsum : min rows (lcddev.height.toNat - y.toNat) =
            8 + min (rows - 8) (lcddev.height.toNat - (y.toNat + 8)) := by omega
        have hstop : lcddev.height.toNat - y.toNat ≤ rows ↔
            lcddev.height.toNat - (y.toNat + 8) ≤ rows - 8 := by omega
        have height8 : min 8 (8 + min (rows - 8)
            (lcddev.height.toNat - (y.toNat + 8))) = 8 := by omega
        rw [if_neg hbottom]
        simp only [ih, hy8, hsum, hstop, height8, column_add, List.append_assoc]

theorem columnBytes {byte : ℕ → U8} {bit : ℕ → Bool} {n rows : ℕ} (c : ℕ) (hn : rows ≤ 8 * n)
    (h : ∀ r < rows, (byte (c * n + r / 8)).getLsbD (7 - r % 8) = bit r) :
    ∀ k < rows,
      (((List.range n).map fun q => byte (c * n + q)).getD (k / 8) 0).getLsbD (7 - k % 8) =
        bit k := by
  intro k hk
  have hrow : k / 8 < n := by omega
  rw [← h k hk, List.getD_eq_getElem?_getD, List.getElem?_map, List.getElem?_range hrow]
  rfl

theorem charBytes_columns (hsize : 0 < size.toNat) (hy0 : y0.toNat < lcddev.height.toNat)
    {byte : ℕ → U8} {bit : ℕ → ℕ → Bool}
    (hbit : ∀ c, ∀ r < size.toNat,
      (byte (c * ((size.toNat + 7) / 8) + r / 8)).getLsbD (7 - r % 8) = bit c r) :
    ∀ (m c : ℕ) {x : U16}, x.toNat < lcddev.width.toNat →
    charBytes env lcddev y0 size mode color
        ((List.range m).flatMap fun j => (List.range ((size.toNat + 7) / 8)).map fun q =>
          byte ((c + j) * ((size.toNat + 7) / 8) + q)) x y0 =
      (List.range (if y0.toNat + size.toNat < lcddev.height.toNat
          then min m (lcddev.width.toNat - x.toNat) else min m 1)).flatMap fun j =>
        column env mode color (bit (c + j)) (x.toNat + j) y0.toNat
          (min size.toNat (lcddev.height.toNat - y0.toNat))
  | 0, c, x, _ => by simp [charBytes]
  | m + 1, c, x, hx => by
    have hx1 := toNat_succ hx
    have hbytes := columnBytes (n := (size.toNat + 7) / 8) c (by omega) (hbit c)
    have hcolumn := fun rest => @charBytes_column env lcddev y0 size mode color x rest _ y0
      size.toNat (bit c) (by rw [List.length_map, List.length_range]) hbytes rfl hsize hy0
    have hbottom : lcddev.height.toNat - y0.toNat ≤ size.toNat ↔
        ¬ y0.toNat + size.toNat < lcddev.height.toNat := by omega
    rw [List.range_succ_eq_map, List.flatMap_cons, Nat.add_zero, hcolumn, List.flatMap_map]
    simp only [hbottom, ge_iff_le, BitVec.le_def, hx1]
    by_cases hstop : y0.toNat + size.toNat < lcddev.height.toNat
    · by_cases hright : lcddev.width.toNat ≤ x.toNat + 1
      · have hone : min (m + 1) (lcddev.width.toNat - x.toNat) = 1 := by omega
        simp [hstop, hright, hone]
      · have ih := charBytes_columns hsize hy0 hbit m (c + 1) (x := x + 1) (by omega)
        have hmin : min (m + 1) (lcddev.width.toNat - x.toNat) =
            min m (lcddev.width.toNat - (x.toNat + 1)) + 1 := by omega
        rw [if_pos hstop, hx1] at ih
        rw [if_neg (not_not.mpr hstop), if_neg hright, if_pos hstop, hmin,
          List.range_succ_eq_map, List.flatMap_cons, List.flatMap_map]
        simp only [Nat.succ_eq_add_one, Nat.add_assoc, Nat.add_comm 1] at ih ⊢
        rw [ih]
        rfl
    · simp [hstop]

end

/-! ### The points of a character -/

/-- The sizes that there are fonts for. -/
def IsSize (size : U8) : Prop := size = 12 ∨ size = 16 ∨ size = 24 ∨ size = 32

instance (size : U8) : Decidable (IsSize size) := inferInstanceAs (Decidable (_ ∨ _ ∨ _ ∨ _))

theorem IsSize.toNat {size : U8} (h : IsSize size) :
    size.toNat = 12 ∨ size.toNat = 16 ∨ size.toNat = 24 ∨ size.toNat = 32 := by
  rcases h with rfl | rfl | rfl | rfl <;> decide

/-- **A bit of the font**: columns of whole bytes, each byte from the top. -/
def fontBit (chr size : U8) (c r : ℕ) : Bool :=
  match pfont env (chr - 0x20) size with
  | some pfont =>
    (pfont (BitVec.ofNat 8 (c * ((size.toNat + 7) / 8) + r / 8))).getLsbD (7 - r % 8)
  | none => false

/-- The columns and rows of the cell that are drawn. -/
def cellColumns (x y : U16) (size : U8) : ℕ :=
  if y.toNat + size.toNat < lcddev.height.toNat
  then min (size.toNat / 2) (lcddev.width.toNat - x.toNat) else 1

def cellRows (y : U16) (size : U8) : ℕ := min size.toNat (lcddev.height.toNat - y.toNat)

section

variable {env lcddev} {x y : U16} {size : U8} (hsize : IsSize size)
  (hx : x.toNat < lcddev.width.toNat) (hy : y.toNat < lcddev.height.toNat) (chr mode : U8)
  (color : U16)

include hsize

theorem showChar_bytes (x y : U16) :
    ∃ byte : ℕ → U8, (∀ c r, (byte (c * ((size.toNat + 7) / 8) + r / 8)).getLsbD (7 - r % 8) =
        fontBit env chr size c r) ∧
      lcdShowChar env lcddev x y chr size mode color =
        charBytes env lcddev y size mode color
          ((List.range (size.toNat / 2 * ((size.toNat + 7) / 8))).map byte) x y := by
  have hcsize : ((size / 8 + (if size % 8 ≠ 0 then 1 else 0)) * (size / 2) : U8).toNat =
      size.toNat / 2 * ((size.toNat + 7) / 8) := by
    rcases hsize with rfl | rfl | rfl | rfl <;> decide
  have hfont : ∃ font, pfont env (chr - 0x20) size = some font := by
    rcases hsize with rfl | rfl | rfl | rfl <;> exact ⟨_, rfl⟩
  obtain ⟨font, hfont⟩ := hfont
  refine ⟨fun t => font (BitVec.ofNat 8 t), fun c r => ?_, ?_⟩
  · simp only [fontBit, hfont]
  · simp only [lcdShowChar, hfont, hcsize]

include hx hy

/-- **The points of `lcd_show_char`**, from a place on the screen. -/
theorem showChar_eq :
    lcdShowChar env lcddev x y chr size mode color =
      (List.range (cellColumns lcddev x y size)).flatMap fun c =>
        column env mode color (fontBit env chr size c) (x.toNat + c) y.toNat
          (cellRows lcddev y size) := by
  obtain ⟨byte, hbit, hshow⟩ := @showChar_bytes env lcddev size hsize chr mode color x y
  have hpos : 0 < size.toNat ∧ min (size.toNat / 2) 1 = 1 := by
    rcases hsize.toNat with h | h | h | h <;> omega
  have hcolumns := @charBytes_columns env lcddev y size mode color hpos.1 hy byte _
    (fun c r _ => hbit c r)
    (size.toNat / 2) 0 x hx
  simp only [Nat.zero_add, hpos.2] at hcolumns
  rw [hshow, map_range_mul, hcolumns]
  rfl

theorem cell_bounds {c r : ℕ} (hc : c < cellColumns lcddev x y size)
    (hr : r < cellRows lcddev y size) :
    (c < size.toNat / 2 ∧ x.toNat + c < lcddev.width.toNat) ∧
      r < size.toNat ∧ y.toNat + r < lcddev.height.toNat := by
  have h12 := hsize.toNat
  unfold cellRows at hr
  unfold cellColumns at hc
  split_ifs at hc <;> omega

omit hsize hx hy in
theorem mem_pixels_bitDot {bit : Bool} {a b : ℕ} (ha : a < 65536) (hb : b < 65536) {p : ℕ × ℕ}
    {v : U16} :
    (p, v) ∈ pixels (bitDot env mode color bit a b) ↔
      p = (a, b) ∧ if bit then v = color else mode = 0 ∧ v = env.g_back_color.setWidth 16 := by
  have hone : ∀ u : U16, (p, v) ∈ pixels [⟨BitVec.ofNat 16 a, BitVec.ofNat 16 b, [u]⟩] ↔
      p = (a, b) ∧ v = u := by
    intro u
    rw [pixels, List.flatMap_singleton, Span.pixels, row, row, List.mem_singleton, Prod.mk.injEq,
      BitVec.toNat_ofNat, BitVec.toNat_ofNat, Nat.mod_eq_of_lt ha, Nat.mod_eq_of_lt hb]
  unfold bitDot
  split_ifs with hbit hmode
  · exact hone _
  · rw [hone, and_iff_right hmode]
  · exact iff_of_false (by simp) fun h => hmode h.2.1

theorem mem_pixels_showChar {p : ℕ × ℕ} {v : U16} :
    (p, v) ∈ pixels (lcdShowChar env lcddev x y chr size mode color) ↔
      ∃ c < cellColumns lcddev x y size, ∃ r < cellRows lcddev y size,
        p = (x.toNat + c, y.toNat + r) ∧
          if fontBit env chr size c r then v = color
          else mode = 0 ∧ v = env.g_back_color.setWidth 16 := by
  have hw := lcddev.width.isLt
  have hh := lcddev.height.isLt
  rw [showChar_eq hsize hx hy]
  simp only [column, mem_pixels_flatMap, List.mem_range]
  constructor
  · rintro ⟨c, hc, r, hr, hmem⟩
    obtain ⟨⟨-, h1⟩, -, h2⟩ := cell_bounds hsize hx hy hc hr
    exact ⟨c, hc, r, hr, (mem_pixels_bitDot mode color (by omega) (by omega)).mp hmem⟩
  · rintro ⟨c, hc, r, hr, hmem⟩
    obtain ⟨⟨-, h1⟩, -, h2⟩ := cell_bounds hsize hx hy hc hr
    exact ⟨c, hc, r, hr, (mem_pixels_bitDot mode color (by omega) (by omega)).mpr hmem⟩

theorem canvas_showChar {c r : ℕ} (hc : c < cellColumns lcddev x y size)
    (hr : r < cellRows lcddev y size) (mem : ℕ × ℕ → U16) :
    canvas (lcdShowChar env lcddev x y chr size mode color) mem (x.toNat + c, y.toNat + r) =
      if fontBit env chr size c r then color
      else if mode = 0 then env.g_back_color.setWidth 16
      else mem (x.toNat + c, y.toNat + r) := by
  have hmem : ∀ v, ((x.toNat + c, y.toNat + r), v) ∈
        pixels (lcdShowChar env lcddev x y chr size mode color) ↔
      if fontBit env chr size c r then v = color
      else mode = 0 ∧ v = env.g_back_color.setWidth 16 := by
    intro v
    rw [mem_pixels_showChar hsize hx hy]
    constructor
    · rintro ⟨c', -, r', -, heq, hv⟩
      rw [Prod.mk.injEq, Nat.add_right_inj, Nat.add_right_inj] at heq
      rwa [heq.1, heq.2]
    · exact fun hv => ⟨c, hc, r, hr, rfl, hv⟩
  have hunique : ∀ u, ((x.toNat + c, y.toNat + r), u) ∈
        pixels (lcdShowChar env lcddev x y chr size mode color) →
      canvas (lcdShowChar env lcddev x y chr size mode color) mem (x.toNat + c, y.toNat + r) =
        u := by
    intro u hu
    refine writes_of_mem hu ?_ mem
    rintro ⟨q, v⟩ hq rfl
    have hv := (hmem v).mp hq
    have hu' := (hmem u).mp hu
    split_ifs at hv hu'
    · exact hv.trans hu'.symm
    · exact hv.2.trans hu'.2.symm
  split_ifs with hbit hmode
  · exact hunique _ ((hmem _).mpr (by rw [if_pos hbit]))
  · exact hunique _ ((hmem _).mpr (by rw [if_neg hbit]; exact ⟨hmode, rfl⟩))
  · refine writes_of_ne ?_ mem
    rintro ⟨q, v⟩ hq rfl
    have hv := (hmem v).mp hq
    rw [if_neg hbit] at hv
    exact hmode hv.1

theorem canvas_showChar_of_ne {p : ℕ × ℕ}
    (hp : ∀ c < cellColumns lcddev x y size, ∀ r < cellRows lcddev y size,
      p ≠ (x.toNat + c, y.toNat + r)) (mem : ℕ × ℕ → U16) :
    canvas (lcdShowChar env lcddev x y chr size mode color) mem p = mem p := by
  refine writes_of_ne ?_ mem
  rintro ⟨q, v⟩ hq rfl
  obtain ⟨c, hc, r, hr, heq, -⟩ := (mem_pixels_showChar hsize hx hy chr mode color).mp hq
  exact hp c hc r hr heq

end

/-! ### The whole glyph -/

/-- **The glyph is shown**, whatever the picture was before, and nothing else changes. -/
structure GlyphShown (x y : U16) (chr size mode : U8) (color : U16) : Prop where
  cell : ∀ mem : ℕ × ℕ → U16, ∀ c < size.toNat / 2, ∀ r < size.toNat,
    canvas (lcdShowChar env lcddev x y chr size mode color) mem (x.toNat + c, y.toNat + r) =
      if fontBit env chr size c r then color
      else if mode = 0 then env.g_back_color.setWidth 16
      else mem (x.toNat + c, y.toNat + r)
  frame : ∀ (mem : ℕ × ℕ → U16) (p : ℕ × ℕ),
    ¬ ((x.toNat ≤ p.1 ∧ p.1 < x.toNat + size.toNat / 2) ∧
      y.toNat ≤ p.2 ∧ p.2 < y.toNat + size.toNat) →
    canvas (lcdShowChar env lcddev x y chr size mode color) mem p = mem p

section

variable {env lcddev} {x y : U16} {size : U8} (hsize : IsSize size)
  (hx : x.toNat + size.toNat / 2 ≤ lcddev.width.toNat) (chr mode : U8) (color : U16)

include hsize hx

theorem showChar_frame (hy : y.toNat + size.toNat ≤ lcddev.height.toNat) (mem : ℕ × ℕ → U16)
    (p : ℕ × ℕ) (hp : ¬ ((x.toNat ≤ p.1 ∧ p.1 < x.toNat + size.toNat / 2) ∧
      y.toNat ≤ p.2 ∧ p.2 < y.toNat + size.toNat)) :
    canvas (lcdShowChar env lcddev x y chr size mode color) mem p = mem p := by
  have h12 := hsize.toNat
  have hx' : x.toNat < lcddev.width.toNat := by omega
  have hy' : y.toNat < lcddev.height.toNat := by omega
  refine canvas_showChar_of_ne hsize hx' hy' chr mode color ?_ mem
  rintro c hc r hr rfl
  have hb := cell_bounds hsize hx' hy' hc hr
  simp only at hp
  omega

theorem glyphShown_above (hy : y.toNat + size.toNat < lcddev.height.toNat) :
    GlyphShown env lcddev x y chr size mode color := by
  have h12 := hsize.toNat
  refine ⟨fun mem c hc r hr => ?_, showChar_frame hsize hx chr mode color hy.le⟩
  have hcolumns : cellColumns lcddev x y size = size.toNat / 2 := by
    unfold cellColumns
    rw [if_pos hy]
    omega
  have hrows : cellRows lcddev y size = size.toNat := by
    unfold cellRows
    omega
  exact canvas_showChar hsize (by omega) (by omega) chr mode color (by omega) (by omega) mem

/-- **A cell that touches the bottom** has only its first column drawn. -/
theorem glyphShown_bottom_iff (hy : y.toNat + size.toNat = lcddev.height.toNat) :
    GlyphShown env lcddev x y chr size mode color ↔
      mode ≠ 0 ∧ ∀ c, 1 ≤ c → c < size.toNat / 2 → ∀ r < size.toNat,
        fontBit env chr size c r = false := by
  have h12 := hsize.toNat
  have hx' : x.toNat < lcddev.width.toNat := by omega
  have hy' : y.toNat < lcddev.height.toNat := by omega
  have hcolumns : cellColumns lcddev x y size = 1 := if_neg (by omega)
  have hrows : cellRows lcddev y size = size.toNat := by
    unfold cellRows
    omega
  have hright : ∀ (mem : ℕ × ℕ → U16) (c r : ℕ), 1 ≤ c →
      canvas (lcdShowChar env lcddev x y chr size mode color) mem (x.toNat + c, y.toNat + r) =
        mem (x.toNat + c, y.toNat + r) := by
    intro mem c r hc
    refine canvas_showChar_of_ne hsize hx' hy' chr mode color ?_ mem
    intro c' hc' r' _ heq
    rw [Prod.mk.injEq] at heq
    omega
  constructor
  · intro h
    -- a pixel that is not drawn has the colour it had, whatever it was
    have hpixel : ∀ c, 1 ≤ c → c < size.toNat / 2 → ∀ r < size.toNat,
        fontBit env chr size c r = false ∧ mode ≠ 0 := by
      intro c hc1 hc r hr
      have hcell := fun v => h.cell (fun _ => v) c hc r hr
      simp only [hright _ c r hc1] at hcell
      constructor
      · by_contra hbit
        rw [Bool.not_eq_false] at hbit
        obtain ⟨v, hv⟩ := exists_ne color
        exact hv (by rw [hcell v, if_pos hbit])
      · intro hmode
        obtain ⟨v, hv⟩ := exists_ne (if fontBit env chr size c r then color
          else env.g_back_color.setWidth 16)
        exact hv (by rw [hcell v, if_pos hmode])
    exact ⟨(hpixel 1 le_rfl (by omega) 0 (by omega)).2,
      fun c hc1 hc r hr => (hpixel c hc1 hc r hr).1⟩
  · rintro ⟨hmode, hbits⟩
    refine ⟨fun mem c hc r hr => ?_, showChar_frame hsize hx chr mode color hy.le⟩
    rcases Nat.eq_zero_or_pos c with rfl | hc1
    · exact canvas_showChar hsize hx' hy' chr mode color (by omega) (by omega) mem
    · rw [hright mem c r hc1, hbits c hc1 hc r hr, if_neg (by simp), if_neg hmode]

/-- **When the whole glyph is shown** of a character whose cell fits on the screen: if the cell ends
above the last row, or if there is nothing to draw beyond its first column. -/
theorem showChar_glyph_iff (hy : y.toNat + size.toNat ≤ lcddev.height.toNat) :
    GlyphShown env lcddev x y chr size mode color ↔
      y.toNat + size.toNat < lcddev.height.toNat ∨
      (mode ≠ 0 ∧ ∀ c, 1 ≤ c → c < size.toNat / 2 → ∀ r < size.toNat,
        fontBit env chr size c r = false) := by
  rcases Nat.lt_or_eq_of_le hy with hlt | heq
  · exact iff_of_true (glyphShown_above hsize hx chr mode color hlt) (Or.inl hlt)
  · rw [glyphShown_bottom_iff hsize hx chr mode color heq, or_iff_right (by omega)]

end

/-- The theorem at a cell in the right corner, one row above the bottom. -/
theorem showChar_glyph_corner : GlyphShown plain upright 232 303 0x41 16 0 0xF800 :=
  (@showChar_glyph_iff plain upright 232 303 16 (by decide) (by decide) 0x41 0 0xF800
    (by decide)).mpr (Or.inl (by decide))

/-- **A cell at the bottom** of a screen of 320 rows loses all its columns but the first. -/
theorem showChar_bottom :
    ¬ GlyphShown plain upright 0 304 0x41 16 0 0xF800 ∧
    ¬ ∀ (env : TextEnv) (lcddev : LcdDev) (x y : U16) (chr size mode : U8) (color : U16),
      IsSize size → x.toNat + size.toNat / 2 ≤ lcddev.width.toNat →
      y.toNat + size.toNat ≤ lcddev.height.toNat → 0x20 ≤ chr → chr ≤ 0x7E →
      GlyphShown env lcddev x y chr size mode color := by
  have hbottom : ¬ GlyphShown plain upright 0 304 0x41 16 0 0xF800 := by
    rw [@glyphShown_bottom_iff plain upright 0 304 16 (by decide) (by decide) 0x41 0 0xF800
      (by decide)]
    exact fun h => h.1 rfl
  exact ⟨hbottom, fun h => hbottom (h plain upright 0 304 0x41 16 0 0xF800 (by decide) (by decide)
    (by decide) (by decide) (by decide))⟩

/-! ### On the controller -/

section

variable {env lcddev} {size mode : U8} {color : U16}

theorem charBits_flat {y0 : U16} (w : ℕ) : ∀ (n : ℕ) (temp : U8) (x y : U16),
    ∀ s ∈ (charBits env lcddev y0 size mode color n temp x y).1, Flat w s
  | 0, _, _, _ => by simp [charBits]
  | n + 1, temp, x, y => by
    have ih := @charBits_flat y0 w n (temp <<< 1) x (y + 1)
    have hdot : ∀ s ∈ bitDot env mode color (temp.getLsbD 7) x.toNat y.toNat, Flat w s := by
      intro s hs
      unfold bitDot at hs
      split_ifs at hs
      · rw [List.mem_singleton.mp hs]
        exact Or.inl le_rfl
      · rw [List.mem_singleton.mp hs]
        exact Or.inl le_rfl
      · exact absurd hs (by simp)
    rw [charBits, dot_eq]
    simp only
    split_ifs
    · exact hdot
    · exact hdot
    · exact hdot
    · exact List.forall_mem_append.mpr ⟨hdot, ih⟩

theorem charBytes_flat {y0 : U16} (w : ℕ) : ∀ (bytes : List U8) (x y : U16),
    ∀ s ∈ charBytes env lcddev y0 size mode color bytes x y, Flat w s
  | [], _, _ => by simp [charBytes]
  | b :: bytes, x, y => by
    have hbits := @charBits_flat env lcddev size mode color y0 w 8 b x y
    rw [charBytes]
    split
    · rename_i dots heq
      rwa [heq] at hbits
    · rename_i dots x' y' heq
      rw [heq] at hbits
      exact List.forall_mem_append.mpr ⟨hbits, charBytes_flat w bytes x' y'⟩

theorem showChar_flat (w : ℕ) (x y : U16) (chr : U8) :
    ∀ s ∈ lcdShowChar env lcddev x y chr size mode color, Flat w s := by
  unfold lcdShowChar
  cases pfont env (chr - 0x20) size with
  | none => simp
  | some font => exact charBytes_flat w _ x y

/-- **The controller shows the character** that is on the canvas. -/
theorem drawn_char (hid : lcddev.id ≠ 0x1963) (noise : ℕ → U16) {w : Wire Panel}
    (h : Full lcddev w.panel.ctrl) (x y : U16) (chr : U8) :
    drawn lcddev noise env w (.char x y chr size mode color) =
      some (canvas (lcdShowChar env lcddev x y chr size mode color) w.panel.gram) :=
  drawn_canvas hid noise env h rfl (showChar_flat _ x y chr)

end

end RtosExample.Lcd.Glyph
