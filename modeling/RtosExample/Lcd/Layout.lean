import RtosExample.Lcd.Glyph
import RtosExample.Lib.Flow

/-! # Strings

`lcd_show_string` puts its characters one after the other in lines (`Lib.Flow`). It tests for the
right edge and for the bottom of its box where a character begins, and it remembers the column of
the first line in eight bits.

* `showString_calls`, `getElem?_showString`: the calls of `lcd_show_char`, one by one.
* `charPlace_grid`: the places, where the eight bits do not matter.
* `showString_laidOut_iff`: when the lines all start at `x`. -/

namespace RtosExample.Lcd.Layout

open RtosExample.Cint RtosExample.Lib.Flow RtosExample.Lcd.Dev RtosExample.Lcd.Draw
open RtosExample.Lcd.Text RtosExample.Lcd.Calls RtosExample.Lcd.Canvas RtosExample.Lcd.Glyph

/-! ### The calls of `lcd_show_char` -/

/-- The arguments of a call of `lcd_show_char`. -/
structure CharCall where
  x : U16
  y : U16
  chr : U8
  size : U8
  mode : U8
  color : U16
  deriving DecidableEq, Repr

def CharCall.spans (env : TextEnv) (lcddev : LcdDev) (c : CharCall) : List Span :=
  lcdShowChar env lcddev c.x c.y c.chr c.size c.mode c.color

/-- The calls that the loop of `lcd_show_string` makes. -/
def stringCalls (x0 : U8) (width height : U16) (size : U8) (color : U16) :
    List U8 → U16 → U16 → List CharCall
  | [], _, _ => []
  | c :: cs, x, y =>
    if c ≤ 0x7E ∧ c ≥ 0x20 then
      let (x, y) := if x ≥ width then (x0.setWidth 16, y + size.setWidth 16) else (x, y)
      if y ≥ height then []
      else
        ⟨x, y, c, size, 0, color⟩ ::
          stringCalls x0 width height size color cs (x + (size / 2).setWidth 16) y
    else []

/-- The calls of `lcd_show_string`. -/
def showStringCalls (x y width height : U16) (size : U8) (p : List U8) (color : U16) :
    List CharCall :=
  stringCalls (x.setWidth 8) (width + x) (height + y) size color p x y

theorem stringLoop_calls (env : TextEnv) (lcddev : LcdDev) (x0 : U8) (width height : U16)
    (size : U8) (color : U16) : ∀ (p : List U8) (x y : U16),
    stringLoop env lcddev x0 width height size color p x y =
      (stringCalls x0 width height size color p x y).flatMap (CharCall.spans env lcddev)
  | [], _, _ => rfl
  | c :: cs, x, y => by
    rw [stringLoop, stringCalls]
    simp only [stringLoop_calls env lcddev x0 width height size color cs]
    split_ifs <;> simp [CharCall.spans]

/-- **`lcd_show_string` is its calls.** -/
theorem showString_calls (env : TextEnv) (lcddev : LcdDev) (x y width height : U16) (size : U8)
    (p : List U8) (color : U16) :
    lcdShowString env lcddev x y width height size p color =
      (showStringCalls x y width height size p color).flatMap (CharCall.spans env lcddev) :=
  stringLoop_calls env lcddev _ _ _ size color p x y

/-- The characters that are shown if there is room: up to the first that is not printable. -/
def printed (p : List U8) : List U8 := p.takeWhile fun c => decide (c ≤ 0x7E ∧ c ≥ 0x20)

/-! ### The places -/

/-- The edges of the box, as the loop knows them. -/
def margins (x width : U16) (size : U8) : Margins where
  left := x.toNat % 256
  right := x.toNat + width.toNat
  step := size.toNat / 2
  line := size.toNat

/-- **The place of character `k`.** -/
def charPlace (x y width : U16) (size : U8) (k : ℕ) : ℕ × ℕ :=
  (margins x width size).cell x.toNat y.toNat k

/-- The call for a character at a place. -/
def callAt (size : U8) (color : U16) (p : ℕ × ℕ) (c : U8) : CharCall :=
  ⟨BitVec.ofNat 16 p.1, BitVec.ofNat 16 p.2, c, size, 0, color⟩

/-- The variables of the loop hold what the edges say, and the sums stay within 16 bits. -/
structure Box (f : Margins) (x0 : U8) (width height : U16) (size : U8) : Prop where
  left : x0.toNat = f.left
  right : width.toNat = f.right
  step : size.toNat / 2 = f.step
  line : size.toNat = f.line
  pos : 0 < f.step
  order : f.left ≤ f.right
  rightSum : f.right + f.step < 65536
  bottomSum : height.toNat + f.line < 65536

section

variable {f : Margins} {x0 : U8} {width height : U16} {size : U8} (h : Box f x0 width height size)

include h

theorem Box.wrap (x y : U16) :
    ((if x ≥ width then (x0.setWidth 16, y + size.setWidth 16) else (x, y) : U16 × U16)) =
      (BitVec.ofNat 16 (f.wrap (x.toNat, y.toNat)).1,
        BitVec.ofNat 16 (f.wrap (x.toNat, y.toNat)).2) := by
  have hline := h.line
  have hsum := h.bottomSum
  have hleft := h.left
  have hx0 := x0.isLt
  have hs := size.isLt
  simp only [Margins.wrap, ge_iff_le, BitVec.le_def, h.right]
  split_ifs
  · refine Prod.ext (BitVec.eq_of_toNat_eq ?_) (BitVec.eq_of_toNat_eq ?_)
    · rw [BitVec.toNat_setWidth, BitVec.toNat_ofNat, hleft]
    · rw [BitVec.toNat_add, BitVec.toNat_setWidth, BitVec.toNat_ofNat]
      simp only
      omega
  · simp

theorem Box.advance {n : ℕ} (hn : n ≤ f.right) :
    (BitVec.ofNat 16 n + (size / 2).setWidth 16).toNat = n + f.step := by
  have hstep := h.step
  have hsum := h.rightSum
  have hs := size.isLt
  have hhalf : ((size / 2 : U8).setWidth 16).toNat = size.toNat / 2 := by
    rw [BitVec.toNat_setWidth, BitVec.toNat_udiv]
    change size.toNat / 2 % 65536 = _
    omega
  rw [BitVec.toNat_add, BitVec.toNat_ofNat, hhalf]
  omega

theorem Box.wrap_le (p : ℕ × ℕ) : (f.wrap p).1 ≤ f.right := by
  have horder := h.order
  unfold Margins.wrap
  split_ifs
  · exact horder
  · omega

theorem Box.getElem?_calls (color : U16) : ∀ (cs : List U8) (k : ℕ) {x y : U16},
    y.toNat ≤ height.toNat →
    (stringCalls x0 width height size color cs x y)[k]? =
      if (f.cell x.toNat y.toNat k).2 < height.toNat then
        (printed cs)[k]?.map (callAt size color (f.cell x.toNat y.toNat k))
      else none
  | [], k, x, y, _ => by simp [stringCalls, printed]
  | c :: cs, k, x, y, hy => by
    have hsum := h.bottomSum
    have hwrap := h.wrap x y
    have hle := h.wrap_le (x.toNat, y.toNat)
    have hzero := cell_zero h.pos x.toNat y.toNat
    have hmono := cell_row_mono (f := f) x.toNat y.toNat (Nat.zero_le k)
    rw [hzero] at hmono
    have hrow := (wrap_row (f := f) (x.toNat, y.toNat)).2
    have hsucc := fun k => cell_succ h.pos x.toNat y.toNat k
    rw [stringCalls, hwrap]
    simp only [Margins.advance] at hsucc ⊢
    generalize f.wrap (x.toNat, y.toNat) = q at *
    have hq2 : (BitVec.ofNat 16 q.2).toNat = q.2 := by
      rw [BitVec.toNat_ofNat, Nat.mod_eq_of_lt (by omega)]
    by_cases hc : c ≤ 0x7E ∧ c ≥ 0x20
    · have hprinted : printed (c :: cs) = c :: printed cs :=
        List.takeWhile_cons_of_pos (decide_eq_true hc)
      have hbelow : BitVec.ofNat 16 q.2 ≥ height ↔ height.toNat ≤ q.2 := by
        rw [ge_iff_le, BitVec.le_def, hq2]
      rw [if_pos hc, hprinted]
      by_cases hshown : height.toNat ≤ q.2
      · -- below the box, and so are the places after this one
        rw [if_pos (hbelow.mpr hshown), if_neg (by omega), List.getElem?_nil]
      · rw [if_neg (mt hbelow.mp hshown)]
        rcases k with _ | k
        · rw [List.getElem?_cons_zero, hzero, if_pos (by omega)]
          rfl
        · have hx := h.advance hle
          rw [List.getElem?_cons_succ, List.getElem?_cons_succ,
            Box.getElem?_calls color cs k (by rw [hq2]; omega), hx, hq2, hsucc]
    · have hprinted : printed (c :: cs) = [] := List.takeWhile_cons_of_neg (by simpa using hc)
      rw [if_neg hc, hprinted]
      simp

end

theorem showString_box {x y width height : U16} {size : U8} (hsize : IsSize size)
    (hx : x.toNat + width.toNat + size.toNat < 65536)
    (hy : y.toNat + height.toNat + size.toNat < 65536) :
    Box (margins x width size) (x.setWidth 8) (width + x) (height + y) size := by
  have h12 := hsize.toNat
  have hright : (width + x).toNat = x.toNat + width.toNat := by
    rw [BitVec.toNat_add]
    omega
  have hbottom : (height + y).toNat = y.toNat + height.toNat := by
    rw [BitVec.toNat_add]
    omega
  refine ⟨?_, hright, rfl, rfl, ?_, ?_, ?_, ?_⟩ <;> simp only [margins, hbottom] <;> try omega
  rw [BitVec.toNat_setWidth]

section

variable {x y width height : U16} {size : U8} (hsize : IsSize size)
  (hx : x.toNat + width.toNat + size.toNat < 65536)
  (hy : y.toNat + height.toNat + size.toNat < 65536)

include hsize hx hy

theorem getElem?_showString (p : List U8) (color : U16) (k : ℕ) :
    (showStringCalls x y width height size p color)[k]? =
      if (charPlace x y width size k).2 < y.toNat + height.toNat then
        (printed p)[k]?.map (callAt size color (charPlace x y width size k))
      else none := by
  have hbottom : (height + y).toNat = y.toNat + height.toNat := by
    rw [BitVec.toNat_add]
    omega
  have hcalls := (showString_box hsize hx hy).getElem?_calls color p k (x := x) (y := y)
    (by omega)
  rwa [hbottom] at hcalls

omit hx hy in
theorem charPlace_column (k : ℕ) :
    (charPlace x y width size k).1 < x.toNat + width.toNat ∨
      (charPlace x y width size k).1 = x.toNat % 256 := by
  have h12 := hsize.toNat
  exact cell_column (f := margins x width size) (show 0 < size.toNat / 2 by omega) x.toNat y.toNat k

omit hx hy in
theorem le_charPlace_row (k : ℕ) : y.toNat ≤ (charPlace x y width size k).2 := by
  have h12 := hsize.toNat
  have hmono := cell_row_mono (f := margins x width size) x.toNat y.toNat (Nat.zero_le k)
  rw [cell_zero (f := margins x width size) (show 0 < size.toNat / 2 by omega)] at hmono
  exact (wrap_row (x.toNat, y.toNat)).1.trans hmono

theorem charPlace_toNat (k : ℕ)
    (hrow : (charPlace x y width size k).2 < y.toNat + height.toNat) :
    (BitVec.ofNat 16 (charPlace x y width size k).1).toNat = (charPlace x y width size k).1 ∧
      (BitVec.ofNat 16 (charPlace x y width size k).2).toNat =
        (charPlace x y width size k).2 := by
  have hcolumn := @charPlace_column x y width size hsize k
  rw [BitVec.toNat_ofNat, BitVec.toNat_ofNat]
  omega

end

/-! ### Lines -/

/-- The number of characters that begin in a line of the box. -/
def lineChars (width : U16) (size : U8) : ℕ :=
  (width.toNat + size.toNat / 2 - 1) / (size.toNat / 2)

theorem fit_margins (x width : U16) (size : U8) :
    (margins x width size).fit x.toNat = lineChars width size := by
  rw [Margins.fit, margins, Nat.add_sub_cancel_left]
  rfl

/-- **The lines all start at `x`**: character `k` is shown at its place in the grid as long as its
line begins in the box, and no later one is. -/
def LaidOut (x y width height : U16) (size : U8) (p : List U8) (color : U16) : Prop :=
  ∀ k : ℕ, (showStringCalls x y width height size p color)[k]? =
    if k / lineChars width size * size.toNat < height.toNat then
      (printed p)[k]?.map (callAt size color (x.toNat + k % lineChars width size * (size.toNat / 2),
        y.toNat + k / lineChars width size * size.toNat))
    else none

section

variable {x y width height : U16} {size : U8} (hsize : IsSize size) (hwidth : 1 ≤ width.toNat)

include hsize hwidth

theorem lineChars_pos : 0 < lineChars width size := by
  have h12 := hsize.toNat
  exact Nat.div_pos (by omega) (by omega)

/-- **The grid**: in the first 256 columns, and if nothing is shown after the first line. -/
theorem charPlace_grid {L : ℕ}
    (h : x.toNat < 256 ∨ L ≤ lineChars width size ∨ height.toNat ≤ size.toNat) {k : ℕ}
    (hk : k < L) :
    ((charPlace x y width size k).2 < y.toNat + height.toNat ↔
        k / lineChars width size * size.toNat < height.toNat) ∧
      (k / lineChars width size * size.toNat < height.toNat →
        charPlace x y width size k =
          (x.toNat + k % lineChars width size * (size.toNat / 2),
            y.toNat + k / lineChars width size * size.toNat)) := by
  have hpos := lineChars_pos hsize hwidth
  have hfit := fit_margins x width size
  unfold charPlace
  rcases Nat.lt_or_ge k (lineChars width size) with hlt | hge
  · rw [cell_first (by rw [hfit]; exact hlt), Nat.mod_eq_of_lt hlt, Nat.div_eq_of_lt hlt,
      Nat.zero_mul]
    exact ⟨Nat.lt_add_right_iff_pos, fun _ => rfl⟩
  · rcases h with hleft | hline | hline
    · have hcell := cell_left (f := margins x width size) (x := x.toNat)
        (Nat.mod_eq_of_lt hleft).symm (by rw [hfit]; exact hpos) y.toNat k
      rw [hfit] at hcell
      rw [hcell]
      exact ⟨Nat.add_lt_add_iff_left, fun _ => rfl⟩
    · exact absurd hk (Nat.not_lt.mpr (hline.trans hge))
    · obtain ⟨j, rfl⟩ := Nat.exists_eq_add_of_le hge
      have hnext := cell_next (f := margins x width size) x.toNat y.toNat j
      have hbelow : ∀ q, ¬ (1 + q) * size.toNat < height.toNat := by
        intro q
        rw [Nat.add_mul, Nat.one_mul]
        omega
      rw [hfit] at hnext
      rw [hnext, Nat.add_div_left j hpos, Nat.add_comm (j / lineChars width size) 1,
        Nat.add_lt_add_iff_left]
      exact ⟨iff_of_false (hbelow _) (hbelow _), fun hrow => absurd hrow (hbelow _)⟩

variable (hx : x.toNat + width.toNat + size.toNat < 65536)
  (hy : y.toNat + height.toNat + size.toNat < 65536)

include hx hy

theorem laidOut_of_grid (p : List U8) (color : U16)
    (h : x.toNat < 256 ∨ (printed p).length ≤ lineChars width size ∨ height.toNat ≤ size.toNat) :
    LaidOut x y width height size p color := by
  intro k
  rw [getElem?_showString hsize hx hy]
  rcases Nat.lt_or_ge k (printed p).length with hk | hk
  · obtain ⟨hshown, hcell⟩ := charPlace_grid hsize hwidth h hk
    by_cases hrow : k / lineChars width size * size.toNat < height.toNat
    · rw [if_pos (hshown.mpr hrow), if_pos hrow, hcell hrow]
    · rw [if_neg (mt hshown.mp hrow), if_neg hrow]
  · rw [List.getElem?_eq_none hk]
    simp

omit hsize hwidth hx hy in
/-- The first character of the second line. -/
theorem charPlace_second :
    charPlace x y width size (lineChars width size) =
      (x.toNat % 256, y.toNat + size.toNat) := by
  have hnext := cell_next (f := margins x width size) x.toNat y.toNat 0
  rw [fit_margins, Nat.add_zero, Nat.zero_mod, Nat.zero_div, Nat.zero_mul, Nat.add_zero,
    Nat.add_zero, Nat.one_mul] at hnext
  exact hnext

/-- **When the lines all start at `x`.** -/
theorem showString_laidOut_iff (p : List U8) (color : U16) :
    LaidOut x y width height size p color ↔
      x.toNat < 256 ∨ (printed p).length ≤ lineChars width size ∨ height.toNat ≤ size.toNat := by
  constructor
  · intro h
    by_contra hn
    simp only [not_or, not_lt, not_le] at hn
    obtain ⟨hleft, hlong, hlines⟩ := hn
    have hpos := lineChars_pos hsize hwidth
    have hcall := h (lineChars width size)
    rw [getElem?_showString hsize hx hy, charPlace_second, Nat.div_self hpos, Nat.mod_self,
      Nat.one_mul, Nat.zero_mul, if_pos hlines, List.getElem?_eq_getElem hlong, if_pos
        (show y.toNat + size.toNat < y.toNat + height.toNat by omega)] at hcall
    have hcolumn := congrArg (fun c => c.map fun c : CharCall => c.x.toNat) hcall
    simp only [Option.map_some, callAt, BitVec.toNat_ofNat, Option.some.injEq] at hcolumn
    omega
  · exact laidOut_of_grid hsize hwidth hx hy p color

end

/-- Three lines of two characters. -/
theorem showString_laidOut_lines :
    LaidOut 200 40 16 64 16 [0x41, 0x42, 0x43, 0x44, 0x45, 0x46] 0xF800 :=
  (@showString_laidOut_iff 200 40 16 64 16 (by decide) (by decide) (by decide) (by decide)
    _ _).mpr (Or.inl (by decide))

/-- **In column 300** the second line begins at column 44. -/
theorem showString_eightBits :
    (showStringCalls 300 0 16 32 16 [0x41, 0x42, 0x43] 0xF800)[2]? =
        some ⟨44, 16, 0x43, 16, 0, 0xF800⟩ ∧
    ¬ ∀ (x y width height : U16) (size : U8) (p : List U8) (color : U16), IsSize size →
      1 ≤ width.toNat → 1 ≤ height.toNat → x.toNat + width.toNat + size.toNat < 65536 →
      y.toNat + height.toNat + size.toNat < 65536 → LaidOut x y width height size p color := by
  have hcall : (showStringCalls 300 0 16 32 16 [0x41, 0x42, 0x43] 0xF800)[2]? =
      some ⟨44, 16, 0x43, 16, 0, 0xF800⟩ := by decide
  refine ⟨hcall, fun h => ?_⟩
  have hgrid := h 300 0 16 32 16 [0x41, 0x42, 0x43] 0xF800 (by decide) (by decide) (by decide)
    (by decide) (by decide) 2
  rw [hcall] at hgrid
  exact absurd hgrid (by decide)

end RtosExample.Lcd.Layout
