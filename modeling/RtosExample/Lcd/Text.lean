import RtosExample.Lcd.Draw

/-! # Text

The functions of `lcd.c` that show characters, numbers and strings, point by point. The tables of
`lcdfont.h` and the global `g_back_color` are parameters. `char` is eight bits without a sign; the
comparisons of `lcd_show_string` come out the same with one. -/

namespace RtosExample.Lcd.Text

open RtosExample.Cint RtosExample.Lcd.Dev RtosExample.Lcd.Draw

/-- The font tables, by character and byte, and the back colour. -/
structure TextEnv where
  asc2_1206 : U8 → U8 → U8
  asc2_1608 : U8 → U8 → U8
  asc2_2412 : U8 → U8 → U8
  asc2_3216 : U8 → U8 → U8
  g_back_color : U32

variable (env : TextEnv) (lcddev : LcdDev)

/-- `pfont` of `lcd_show_char`; `none` is the `default` of the `switch`. -/
def pfont (chr size : U8) : Option (U8 → U8) :=
  match size.toNat with
  | 12 => some (env.asc2_1206 chr)
  | 16 => some (env.asc2_1608 chr)
  | 24 => some (env.asc2_2412 chr)
  | 32 => some (env.asc2_3216 chr)
  | _ => none

/-- The inner loop of `lcd_show_char`: the bits of one byte that are still to go. It gives the
points and, unless the function returns, the place of the next byte. -/
def charBits (y0 : U16) (size mode : U8) (color : U16) :
    ℕ → U8 → U16 → U16 → List Span × Option (U16 × U16)
  | 0, _, x, y => ([], some (x, y))
  | n + 1, temp, x, y =>
    let dot :=
      if temp &&& 0x80 ≠ 0 then lcdDrawPoint x y (color.setWidth 32)
      else if mode = 0 then lcdDrawPoint x y env.g_back_color
      else []
    let y := y + 1
    if y ≥ lcddev.height then (dot, none)
    else if int y - int y0 = int size then
      let y := y0
      let x := x + 1
      if x ≥ lcddev.width then (dot, none) else (dot, some (x, y))
    else
      let r := charBits y0 size mode color n (temp <<< 1) x y
      (dot ++ r.1, r.2)

/-- The outer loop of `lcd_show_char`, over the bytes of the character. -/
def charBytes (y0 : U16) (size mode : U8) (color : U16) : List U8 → U16 → U16 → List Span
  | [], _, _ => []
  | temp :: temps, x, y =>
    match charBits env lcddev y0 size mode color 8 temp x y with
    | (dots, none) => dots
    | (dots, some (x, y)) => dots ++ charBytes y0 size mode color temps x y

/-- `lcd_show_char`. -/
def lcdShowChar (x y : U16) (chr size mode : U8) (color : U16) : List Span :=
  let csize : U8 := (size / 8 + (if size % 8 ≠ 0 then 1 else 0)) * (size / 2)
  match pfont env (chr - 0x20) size with
  | none => []
  | some pfont =>
    charBytes env lcddev y size mode color
      ((List.range csize.toNat).map fun t => pfont (BitVec.ofNat 8 t)) x y

/-- `lcd_pow`. -/
def lcdPow (m : U8) : ℕ → U32
  | 0 => 1
  | n + 1 => lcdPow m n * m.setWidth 32

/-- The loop of `lcd_show_num` and `lcd_show_xnum`: `n` digits to go, from digit `t` on. They
differ in the character that stands for a leading zero and in the mode. A division by a power that
has wrapped to zero gives zero, as the processor's does. -/
def showDigits (x y : U16) (num : U32) (len size blank mode : U8) (color : U16) :
    ℕ → ℕ → Bool → List Span
  | 0, _, _ => []
  | n + 1, t, enshow =>
    let temp : U8 := (num / lcdPow 10 (len.toNat - t - 1) % 10).setWidth 8
    let xt := u16 (int x + int (size / 2) * t)
    if !enshow ∧ (t : ℤ) < int len - 1 then
      if temp = 0 then
        lcdShowChar env lcddev xt y blank size mode color ++
          showDigits x y num len size blank mode color n (t + 1) false
      else
        lcdShowChar env lcddev xt y (temp + 0x30) size mode color ++
          showDigits x y num len size blank mode color n (t + 1) true
    else
      lcdShowChar env lcddev xt y (temp + 0x30) size mode color ++
        showDigits x y num len size blank mode color n (t + 1) enshow

/-- `lcd_show_num`. -/
def lcdShowNum (x y : U16) (num : U32) (len size : U8) (color : U16) : List Span :=
  showDigits env lcddev x y num len size 0x20 0 color len.toNat 0 false

/-- `lcd_show_xnum`. -/
def lcdShowXnum (x y : U16) (num : U32) (len size mode : U8) (color : U16) : List Span :=
  showDigits env lcddev x y num len size (if mode &&& 0x80 ≠ 0 then 0x30 else 0x20)
    (mode &&& 0x01) color len.toNat 0 false

/-- The loop of `lcd_show_string` over the characters from the pointer on; the string ends with the
list or at a character that is not printable. -/
def stringLoop (x0 : U8) (width height : U16) (size : U8) (color : U16) :
    List U8 → U16 → U16 → List Span
  | [], _, _ => []
  | c :: cs, x, y =>
    if c ≤ 0x7E ∧ c ≥ 0x20 then
      let (x, y) := if x ≥ width then (x0.setWidth 16, y + size.setWidth 16) else (x, y)
      if y ≥ height then []
      else
        lcdShowChar env lcddev x y c size 0 color ++
          stringLoop x0 width height size color cs (x + (size / 2).setWidth 16) y
    else []

/-- `lcd_show_string`; `x0` is eight bits wide. -/
def lcdShowString (x y width height : U16) (size : U8) (p : List U8) (color : U16) : List Span :=
  stringLoop env lcddev (x.setWidth 8) (width + x) (height + y) size color p x y

end RtosExample.Lcd.Text
