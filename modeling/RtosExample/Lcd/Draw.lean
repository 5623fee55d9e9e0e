import RtosExample.Lcd.Dev

/-! # Drawing

The drawing functions of `lcd.c`. All of them write pixels in one way: `lcd_set_cursor(x, y)`,
`lcd_write_ram_prepare()` and then a number of words to `LCD->LCD_RAM`. Such a run is a `Span`, a
drawing function is the list of its spans, and `paint` is what the list does on the bus.

A loop over a 16-bit counter need not end: `none` is a call that never does. Such a loop is given
`wordRange` rounds; one that is not over by then has seen every value of its counter. -/

namespace RtosExample.Lcd.Draw

open RtosExample.Cint RtosExample.Lcd.Dev

/-- `lcd_set_cursor(x, y)`, `lcd_write_ram_prepare()` and the words to `LCD->LCD_RAM`. -/
structure Span where
  x : U16
  y : U16
  colors : List U16
  deriving DecidableEq, Repr

/-- The accesses of a span. -/
def Span.ops (lcddev : LcdDev) (s : Span) : List BusOp :=
  lcdSetCursor lcddev s.x s.y ++ lcdWriteRamPrepare lcddev ++ s.colors.map .ram

/-- The accesses of a list of spans. -/
def paint (lcddev : LcdDev) (spans : List Span) : List BusOp := spans.flatMap (Span.ops lcddev)

/-- More rounds than a 16-bit counter has values. -/
def wordRange : ℕ := 2 ^ 16 + 1

/-! ### Points and areas -/

/-- `lcd_draw_point`. -/
def lcdDrawPoint (x y : U16) (color : U32) : List Span := [⟨x, y, [color.setWidth 16]⟩]

/-- `lcd_clear`. -/
def lcdClear (lcddev : LcdDev) (color : U16) : List Span :=
  let totalpoint : U32 := lcddev.width.setWidth 32 * lcddev.height.setWidth 32
  [⟨0, 0, List.replicate totalpoint.toNat color⟩]

/-- The loop of `lcd_fill` from row `i` on. -/
def fillLoop (sx ey xlen : U16) (color : U32) : ℕ → U16 → Option (List Span)
  | 0, _ => none
  | fuel + 1, i =>
    if i ≤ ey then
      (fillLoop sx ey xlen color fuel (i + 1)).map
        (⟨sx, i, List.replicate xlen.toNat (color.setWidth 16)⟩ :: ·)
    else some []

/-- `lcd_fill`. -/
def lcdFill (sx sy ex ey : U16) (color : U32) : Option (List Span) :=
  let xlen := u16 (int ex - int sx + 1)
  fillLoop sx ey xlen color wordRange sy

/-- `lcd_color_fill`; `color` is the memory from the pointer on. -/
def lcdColorFill (sx sy ex ey : U16) (color : ℕ → U16) : List Span :=
  let width := u16 (int ex - int sx + 1)
  let height := u16 (int ey - int sy + 1)
  (List.range height.toNat).map fun i : ℕ =>
    ⟨sx, u16 (int sy + i), (List.range width.toNat).map fun j : ℕ => color (i * width.toNat + j)⟩

/-! ### Lines -/

/-- The loop of `lcd_draw_line` from round `t` on. -/
def lineLoop (delta_x delta_y distance incx incy : ℤ) (color : U16) :
    ℕ → U16 → ℤ → ℤ → ℤ → ℤ → Option (List Span)
  | 0, _, _, _, _, _ => none
  | fuel + 1, t, xerr, yerr, row, col =>
    if int t ≤ distance + 1 then
      let xerr := xerr + delta_x
      let yerr := yerr + delta_y
      (lineLoop delta_x delta_y distance incx incy color fuel (t + 1)
        (if xerr > distance then xerr - distance else xerr)
        (if yerr > distance then yerr - distance else yerr)
        (if xerr > distance then row + incx else row)
        (if yerr > distance then col + incy else col)).map
        (lcdDrawPoint (u16 row) (u16 col) (color.setWidth 32) ++ ·)
    else some []

/-- `lcd_draw_line`. -/
def lcdDrawLine (x1 y1 x2 y2 color : U16) : Option (List Span) :=
  let delta_x := int x2 - int x1
  let delta_y := int y2 - int y1
  let incx : ℤ := if delta_x > 0 then 1 else if delta_x = 0 then 0 else -1
  let delta_x := if delta_x < 0 then -delta_x else delta_x
  let incy : ℤ := if delta_y > 0 then 1 else if delta_y = 0 then 0 else -1
  let delta_y := if delta_y < 0 then -delta_y else delta_y
  let distance := if delta_x > delta_y then delta_x else delta_y
  lineLoop delta_x delta_y distance incx incy color wordRange 0 0 0 (int x1) (int y1)

/-- `lcd_draw_hline`. -/
def lcdDrawHline (lcddev : LcdDev) (x y len color : U16) : Option (List Span) :=
  if len = 0 ∨ x > lcddev.width ∨ y > lcddev.height then some []
  else lcdFill x y (u16 (int x + int len - 1)) y (color.setWidth 32)

/-- `lcd_draw_rectangle`. -/
def lcdDrawRectangle (x1 y1 x2 y2 color : U16) : Option (List Span) := do
  let a ← lcdDrawLine x1 y1 x2 y1 color
  let b ← lcdDrawLine x1 y1 x1 y2 color
  let c ← lcdDrawLine x1 y2 x2 y2 color
  let d ← lcdDrawLine x2 y1 x2 y2 color
  return a ++ b ++ c ++ d

/-! ### Circles -/

/-- The loop of `lcd_draw_circle`. -/
def circleLoop (x0 y0 color : U16) : ℕ → ℤ → ℤ → ℤ → Option (List Span)
  | 0, _, _, _ => none
  | fuel + 1, a, b, di =>
    if a ≤ b then
      let point (x y : ℤ) := lcdDrawPoint (u16 x) (u16 y) (color.setWidth 32)
      let points :=
        point (int x0 + a) (int y0 - b) ++ point (int x0 + b) (int y0 - a) ++
        point (int x0 + b) (int y0 + a) ++ point (int x0 + a) (int y0 + b) ++
        point (int x0 - a) (int y0 + b) ++ point (int x0 - b) (int y0 + a) ++
        point (int x0 - a) (int y0 - b) ++ point (int x0 - b) (int y0 - a)
      let a := a + 1
      (if di < 0 then circleLoop x0 y0 color fuel a b (di + (4 * a + 6))
        else circleLoop x0 y0 color fuel a (b - 1) (di + (10 + 4 * (a - b)))).map (points ++ ·)
    else some []

/-- `lcd_draw_circle`. -/
def lcdDrawCircle (x0 y0 : U16) (r : U8) (color : U16) : Option (List Span) :=
  circleLoop x0 y0 color wordRange 0 (int r) (3 - 2 * int r)

/-- `imax` and `sqmax` of `lcd_fill_circle`. -/
def circleImax (r : U16) : U32 := r.setWidth 32 * 707 / 1000 + 1
def circleSqmax (r : U16) : U32 := r.setWidth 32 * r.setWidth 32 + r.setWidth 32 / 2

/-- The lines drawn from outside in a round of `lcd_fill_circle`, with `xr` as the round finds it.
The difference and sums of the 16-bit centre and a 32-bit offset are cut to 16 bits by the call. -/
def circleOutside (lcddev : LcdDev) (x y color : U16) (imax sqmax i xr : U32) :
    Option (List Span) :=
  if i * i + xr * xr > sqmax ∧ xr > imax then do
    let a ← lcdDrawHline lcddev ((x.setWidth 32 - i + 1).setWidth 16)
      ((y.setWidth 32 + xr).setWidth 16) ((2 * (i - 1)).setWidth 16) color
    let b ← lcdDrawHline lcddev ((x.setWidth 32 - i + 1).setWidth 16)
      ((y.setWidth 32 - xr).setWidth 16) ((2 * (i - 1)).setWidth 16) color
    return a ++ b
  else return []

/-- `xr` after that. -/
def circleXr (sqmax i xr : U32) : U32 := if i * i + xr * xr > sqmax then xr - 1 else xr

/-- The lines drawn from inside, with the new `xr`. -/
def circleInside (lcddev : LcdDev) (x y color : U16) (i xr : U32) : Option (List Span) := do
  let a ← lcdDrawHline lcddev ((x.setWidth 32 - xr).setWidth 16) ((y.setWidth 32 + i).setWidth 16)
    ((2 * xr).setWidth 16) color
  let b ← lcdDrawHline lcddev ((x.setWidth 32 - xr).setWidth 16) ((y.setWidth 32 - i).setWidth 16)
    ((2 * xr).setWidth 16) color
  return a ++ b

/-- The loop of `lcd_fill_circle`: `n` rounds from `i` on. -/
def fillCircleLoop (lcddev : LcdDev) (x y color : U16) (imax sqmax : U32) :
    ℕ → U32 → U32 → Option (List Span)
  | 0, _, _ => some []
  | n + 1, i, xr => do
    let outside ← circleOutside lcddev x y color imax sqmax i xr
    let xr := circleXr sqmax i xr
    let inside ← circleInside lcddev x y color i xr
    let rest ← fillCircleLoop lcddev x y color imax sqmax n (i + 1) xr
    return outside ++ inside ++ rest

/-- `lcd_fill_circle`. -/
def lcdFillCircle (lcddev : LcdDev) (x y r color : U16) : Option (List Span) := do
  let middle ← lcdDrawHline lcddev (u16 (int x - int r)) y (u16 (2 * int r)) color
  let rows ← fillCircleLoop lcddev x y color (circleImax r) (circleSqmax r) (circleImax r).toNat 1
    (r.setWidth 32)
  return middle ++ rows

/-! ### Lists of spans -/

@[simp] theorem paint_nil (lcddev : LcdDev) : paint lcddev [] = [] := rfl

theorem paint_cons (lcddev : LcdDev) (s : Span) (t : List Span) :
    paint lcddev (s :: t) = s.ops lcddev ++ paint lcddev t := by
  simp [paint]

/-- One point. -/
def dot (color : U16) (p : ℤ × ℤ) : Span := ⟨u16 p.1, u16 p.2, [color]⟩

/-- The place of a point. -/
def place (s : Span) : ℤ × ℤ := (int s.x, int s.y)

theorem lcdDrawPoint_dot (x y : ℤ) (color : U16) :
    lcdDrawPoint (u16 x) (u16 y) (color.setWidth 32) = [dot color (x, y)] := by
  rw [lcdDrawPoint, dot, BitVec.setWidth_setWidth_of_le color (by decide), BitVec.setWidth_eq]

theorem place_dot {p : ℤ × ℤ} (hx : 0 ≤ p.1 ∧ p.1 < 65536) (hy : 0 ≤ p.2 ∧ p.2 < 65536)
    (color : U16) : place (dot color p) = p := by
  refine Prod.ext ?_ ?_ <;> simp only [place, dot, int, u16_toNat] <;> omega

/-! ### When the loops end -/

theorem fillLoop_eq {sx ey xlen : U16} {color : U32} (hey : ey.toNat < 65535) :
    ∀ (n : ℕ) {fuel : ℕ} {i : U16}, n < fuel → i.toNat + n = ey.toNat + 1 →
    fillLoop sx ey xlen color fuel i = some ((List.range n).map fun k =>
      ⟨sx, BitVec.ofNat 16 (i.toNat + k), List.replicate xlen.toNat (color.setWidth 16)⟩)
  | 0, fuel + 1, i, _, h => by
    have hi : ¬ i ≤ ey := by rw [BitVec.le_def]; omega
    rw [fillLoop, if_neg hi]
    rfl
  | n + 1, fuel + 1, i, hf, h => by
    have hi : i ≤ ey := by rw [BitVec.le_def]; omega
    have hs : (i + 1).toNat = i.toNat + 1 := by
      rw [BitVec.toNat_add]
      change (i.toNat + 1) % 65536 = _
      omega
    rw [fillLoop, if_pos hi, fillLoop_eq hey n (by omega) (by rw [hs]; omega), hs]
    simp [List.range_succ_eq_map, Function.comp_def, Nat.add_assoc, Nat.add_comm 1]

/-- With the last row `0xFFFF` the counter never passes it. -/
theorem fillLoop_never {sx ey xlen : U16} {color : U32} (hey : ey.toNat = 65535) :
    ∀ (fuel : ℕ) (i : U16), fillLoop sx ey xlen color fuel i = none
  | 0, _ => rfl
  | fuel + 1, i => by
    have hi : i ≤ ey := by
      have := i.isLt
      rw [BitVec.le_def]
      omega
    rw [fillLoop, if_pos hi, fillLoop_never hey fuel]
    rfl

theorem not_le_max {a b : U16} (h : b.toNat < a.toNat) : ¬ a ≤ b := by
  rw [BitVec.le_def]
  omega

/-- **`lcd_fill` ends** exactly if there is a number after its last row. -/
theorem lcdFill_isSome (sx sy ex ey : U16) (color : U32) :
    (lcdFill sx sy ex ey color).isSome ↔ ey.toNat < 65535 := by
  have he := ey.isLt
  unfold lcdFill
  constructor
  · intro h
    by_contra hn
    rw [fillLoop_never (by omega)] at h
    exact absurd h (by simp)
  · intro h
    rcases Nat.lt_or_ge ey.toNat sy.toNat with hs | hs
    · rw [wordRange, fillLoop, if_neg (not_le_max hs)]
      rfl
    · have hn : ey.toNat + 1 - sy.toNat < wordRange := by
        unfold wordRange
        omega
      rw [fillLoop_eq h (ey.toNat + 1 - sy.toNat) hn (by omega)]
      rfl

theorem lineLoop_isSome {dx dy distance incx incy : ℤ} {color : U16} (h : distance + 1 < 65535) :
    ∀ (n : ℕ) {fuel : ℕ} {t : U16} {xerr yerr row col : ℤ}, n < fuel →
    distance + 2 ≤ t.toNat + n →
    (lineLoop dx dy distance incx incy color fuel t xerr yerr row col).isSome
  | n, fuel + 1, t, xerr, yerr, row, col, hf, hn => by
    rw [lineLoop]
    by_cases ht : int t ≤ distance + 1
    · rw [if_pos ht]
      have ht' : (t.toNat : ℤ) ≤ distance + 1 := ht
      have hs : (t + 1).toNat = t.toNat + 1 := by
        rw [BitVec.toNat_add]
        change (t.toNat + 1) % 65536 = _
        omega
      obtain ⟨n, rfl⟩ : ∃ m, n = m + 1 := Nat.exists_eq_succ_of_ne_zero (by omega)
      simp only [Option.isSome_map]
      exact lineLoop_isSome h n (by omega) (by rw [hs]; omega)
    · rw [if_neg ht]
      rfl

theorem lineLoop_never {dx dy distance incx incy : ℤ} {color : U16} (h : 65535 ≤ distance + 1) :
    ∀ (fuel : ℕ) (t : U16) (xerr yerr row col : ℤ),
    lineLoop dx dy distance incx incy color fuel t xerr yerr row col = none
  | 0, _, _, _, _, _ => rfl
  | fuel + 1, t, xerr, yerr, row, col => by
    have ht : int t ≤ distance + 1 := by
      have := t.isLt
      unfold int
      omega
    simp only [lineLoop, if_pos ht, lineLoop_never h fuel, Option.map_none]

/-- **`lcd_draw_line` ends** exactly if the longer side is short of `0xFFFE`. -/
theorem lcdDrawLine_isSome (x1 y1 x2 y2 color : U16) :
    (lcdDrawLine x1 y1 x2 y2 color).isSome ↔
      |(x2.toNat : ℤ) - x1.toNat| < 65534 ∧ |(y2.toNat : ℤ) - y1.toNat| < 65534 := by
  have hx := x1.isLt
  have hx' := x2.isLt
  have hy := y1.isLt
  have hy' := y2.isLt
  simp only [lcdDrawLine, int]
  rw [abs_lt, abs_lt]
  constructor
  · intro h
    by_contra hn
    rw [lineLoop_never (by split_ifs <;> omega)] at h
    exact absurd h (by simp)
  · intro h
    refine lineLoop_isSome (by split_ifs <;> omega) 65536 (by unfold wordRange; omega) ?_
    change _ ≤ ((0 : ℕ) : ℤ) + _
    split_ifs <;> omega

/-- **`lcd_draw_circle` ends.** -/
theorem lcdDrawCircle_isSome (x0 y0 : U16) (r : U8) (color : U16) :
    (lcdDrawCircle x0 y0 r color).isSome := by
  have hloop : ∀ (n : ℕ) {fuel : ℕ} {a b di : ℤ}, n < fuel → b + 1 ≤ a + n →
      (circleLoop x0 y0 color fuel a b di).isSome := by
    intro n
    induction n with
    | zero =>
      intro fuel a b di hf hn
      obtain ⟨fuel, rfl⟩ : ∃ m, fuel = m + 1 := Nat.exists_eq_succ_of_ne_zero (by omega)
      rw [circleLoop, if_neg (by omega)]
      rfl
    | succ n ih =>
      intro fuel a b di hf hn
      obtain ⟨fuel, rfl⟩ : ∃ m, fuel = m + 1 := Nat.exists_eq_succ_of_ne_zero (by omega)
      rw [circleLoop]
      push_cast at hn
      by_cases hab : a ≤ b
      · simp only [if_pos hab, Option.isSome_map]
        by_cases hd : di < 0
        · rw [if_pos hd]
          exact ih (by omega) (by omega)
        · rw [if_neg hd]
          exact ih (by omega) (by omega)
      · rw [if_neg hab]
        rfl
  have hr := r.isLt
  exact hloop 256 (by unfold wordRange; omega) (by unfold int; omega)

end RtosExample.Lcd.Draw
