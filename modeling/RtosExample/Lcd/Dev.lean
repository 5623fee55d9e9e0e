import RtosExample.Cint

/-! # The LCD and its geometry

The part of `lcd.c` that addresses the controller: the cursor, the window, the scan direction and
the display direction, and the read of one pixel. The FSMC maps the controller to two words,
`LCD->LCD_REG` and `LCD->LCD_RAM`; an access to one of them is a `BusOp`. What a function does to
the controller is the list of its accesses, and what it does to the global `lcddev` is the `LcdDev`
it returns. Only `lcd_read_point` looks at what the controller answers; it runs on a `Wire`, a
`Port` with its state and the accesses so far. -/

namespace RtosExample.Lcd.Dev

open RtosExample.Cint

/-- `_lcd_dev`. -/
structure LcdDev where
  width : U16
  height : U16
  id : U16
  dir : U8
  wramcmd : U16
  setxcmd : U16
  setycmd : U16
  deriving DecidableEq, Repr

/-- An access to the controller. -/
inductive BusOp
  /-- `LCD->LCD_REG = v`. -/
  | reg (v : U16)
  /-- `LCD->LCD_RAM = v`. -/
  | ram (v : U16)
  /-- A read of `LCD->LCD_RAM`. -/
  | rd
  deriving DecidableEq, Repr

/-! ### The cursor -/

/-- `lcd_write_ram_prepare`. -/
def lcdWriteRamPrepare (lcddev : LcdDev) : List BusOp := [.reg lcddev.wramcmd]

/-- `lcd_set_cursor`. -/
def lcdSetCursor (lcddev : LcdDev) (x y : U16) : List BusOp :=
  if lcddev.id = 0x1963 then
    (if lcddev.dir = 0 then
      let x := u16 (int lcddev.width - 1 - int x)
      [.reg lcddev.setxcmd, .ram 0, .ram 0, .ram (hiByte (int x)), .ram (loByte (int x))]
    else
      [.reg lcddev.setxcmd, .ram (hiByte (int x)), .ram (loByte (int x)),
        .ram (hiByte (int lcddev.width - 1)), .ram (loByte (int lcddev.width - 1))]) ++
    [.reg lcddev.setycmd, .ram (hiByte (int y)), .ram (loByte (int y)),
      .ram (hiByte (int lcddev.height - 1)), .ram (loByte (int lcddev.height - 1))]
  else if lcddev.id = 0x5510 then
    [.reg lcddev.setxcmd, .ram (hiByte (int x)), .reg (lcddev.setxcmd + 1), .ram (loByte (int x)),
      .reg lcddev.setycmd, .ram (hiByte (int y)), .reg (lcddev.setycmd + 1), .ram (loByte (int y))]
  else
    [.reg lcddev.setxcmd, .ram (hiByte (int x)), .ram (loByte (int x)),
      .reg lcddev.setycmd, .ram (hiByte (int y)), .ram (loByte (int y))]

/-! ### The scan direction -/

/-- The exchange of directions at the head of `lcd_scan_dir`. -/
def scanRemap (dir : U8) : U8 :=
  match dir.toNat with
  | 0 => 6
  | 1 => 7
  | 2 => 4
  | 3 => 5
  | 4 => 1
  | 5 => 0
  | 6 => 3
  | 7 => 2
  | _ => dir

/-- Bits 7, 6 and 5 of the direction register. The directions are, from 0 on, `L2R_U2D`, `L2R_D2U`,
`R2L_U2D`, `R2L_D2U`, `U2D_L2R`, `U2D_R2L`, `D2U_L2R` and `D2U_R2L`. -/
def scanBits (dir : U8) : U16 :=
  match dir.toNat with
  | 0 => 0 <<< 7 ||| 0 <<< 6 ||| 0 <<< 5
  | 1 => 1 <<< 7 ||| 0 <<< 6 ||| 0 <<< 5
  | 2 => 0 <<< 7 ||| 1 <<< 6 ||| 0 <<< 5
  | 3 => 1 <<< 7 ||| 1 <<< 6 ||| 0 <<< 5
  | 4 => 0 <<< 7 ||| 0 <<< 6 ||| 1 <<< 5
  | 5 => 0 <<< 7 ||| 1 <<< 6 ||| 1 <<< 5
  | 6 => 1 <<< 7 ||| 0 <<< 6 ||| 1 <<< 5
  | 7 => 1 <<< 7 ||| 1 <<< 6 ||| 1 <<< 5
  | _ => 0

/-- `regval` of `lcd_scan_dir`. -/
def scanRegval (lcddev : LcdDev) (dir : U8) : U16 :=
  let dir :=
    if (lcddev.dir = 1 ∧ lcddev.id ≠ 0x1963) ∨ (lcddev.dir = 0 ∧ lcddev.id = 0x1963) then
      scanRemap dir
    else dir
  if lcddev.id = 0x9341 ∨ lcddev.id = 0x7789 ∨ lcddev.id = 0x7796 then scanBits dir ||| 0x08
  else scanBits dir

/-- The exchange of the two sides in `lcd_scan_dir`. -/
def scanSwap (lcddev : LcdDev) (regval : U16) : LcdDev :=
  if lcddev.id ≠ 0x1963 then
    if regval &&& 0x20 ≠ 0 then
      if lcddev.width < lcddev.height then
        { lcddev with width := lcddev.height, height := lcddev.width }
      else lcddev
    else
      if lcddev.width > lcddev.height then
        { lcddev with width := lcddev.height, height := lcddev.width }
      else lcddev
  else lcddev

/-- The window at the end of `lcd_scan_dir`: the whole screen. -/
def scanWindow (lcddev : LcdDev) : List BusOp :=
  if lcddev.id = 0x5510 then
    [.reg lcddev.setxcmd, .ram 0, .reg (lcddev.setxcmd + 1), .ram 0,
      .reg (lcddev.setxcmd + 2), .ram (hiByte (int lcddev.width - 1)),
      .reg (lcddev.setxcmd + 3), .ram (loByte (int lcddev.width - 1)),
      .reg lcddev.setycmd, .ram 0, .reg (lcddev.setycmd + 1), .ram 0,
      .reg (lcddev.setycmd + 2), .ram (hiByte (int lcddev.height - 1)),
      .reg (lcddev.setycmd + 3), .ram (loByte (int lcddev.height - 1))]
  else
    [.reg lcddev.setxcmd, .ram 0, .ram 0,
      .ram (hiByte (int lcddev.width - 1)), .ram (loByte (int lcddev.width - 1)),
      .reg lcddev.setycmd, .ram 0, .ram 0,
      .ram (hiByte (int lcddev.height - 1)), .ram (loByte (int lcddev.height - 1))]

/-- `lcd_scan_dir`. -/
def lcdScanDir (lcddev : LcdDev) (dir : U8) : LcdDev × List BusOp :=
  let regval := scanRegval lcddev dir
  let dirreg : U16 := if lcddev.id = 0x5510 then 0x3600 else 0x36
  let lcddev := scanSwap lcddev regval
  (lcddev, [.reg dirreg, .ram regval] ++ scanWindow lcddev)

/-! ### The display direction -/

def DFT_SCAN_DIR : U8 := 0

/-- What `lcd_display_dir` stores in `lcddev`. -/
def displayDev (lcddev : LcdDev) (dir : U8) : LcdDev :=
  let lcddev := { lcddev with dir := dir }
  if dir = 0 then
    let lcddev := { lcddev with width := 240, height := 320 }
    let lcddev :=
      if lcddev.id = 0x5510 then
        { lcddev with
          wramcmd := 0x2C00, setxcmd := 0x2A00, setycmd := 0x2B00, width := 480, height := 800 }
      else if lcddev.id = 0x1963 then
        { lcddev with
          wramcmd := 0x2C, setxcmd := 0x2B, setycmd := 0x2A, width := 480, height := 800 }
      else { lcddev with wramcmd := 0x2C, setxcmd := 0x2A, setycmd := 0x2B }
    let lcddev :=
      if lcddev.id = 0x5310 ∨ lcddev.id = 0x7796 then { lcddev with width := 320, height := 480 }
      else lcddev
    if lcddev.id = 0x9806 then { lcddev with width := 480, height := 800 } else lcddev
  else
    let lcddev := { lcddev with width := 320, height := 240 }
    let lcddev :=
      if lcddev.id = 0x5510 then
        { lcddev with
          wramcmd := 0x2C00, setxcmd := 0x2A00, setycmd := 0x2B00, width := 800, height := 480 }
      else if lcddev.id = 0x1963 ∨ lcddev.id = 0x9806 then
        { lcddev with
          wramcmd := 0x2C, setxcmd := 0x2A, setycmd := 0x2B, width := 800, height := 480 }
      else { lcddev with wramcmd := 0x2C, setxcmd := 0x2A, setycmd := 0x2B }
    if lcddev.id = 0x5310 ∨ lcddev.id = 0x7796 then { lcddev with width := 480, height := 320 }
    else lcddev

/-- `lcd_display_dir`. -/
def lcdDisplayDir (lcddev : LcdDev) (dir : U8) : LcdDev × List BusOp :=
  lcdScanDir (displayDev lcddev dir) DFT_SCAN_DIR

/-! ### The window -/

/-- `lcd_set_window`. -/
def lcdSetWindow (lcddev : LcdDev) (sx sy width height : U16) : List BusOp :=
  let twidth := u16 (int sx + int width - 1)
  let theight := u16 (int sy + int height - 1)
  if lcddev.id = 0x1963 ∧ lcddev.dir ≠ 1 then
    let sx := u16 (int lcddev.width - int width - int sx)
    let height := u16 (int sy + int height - 1)
    [.reg lcddev.setxcmd, .ram (hiByte (int sx)), .ram (loByte (int sx)),
      .ram (hiByte (int sx + int width - 1)), .ram (loByte (int sx + int width - 1)),
      .reg lcddev.setycmd, .ram (hiByte (int sy)), .ram (loByte (int sy)),
      .ram (hiByte (int height)), .ram (loByte (int height))]
  else if lcddev.id = 0x5510 then
    [.reg lcddev.setxcmd, .ram (hiByte (int sx)), .reg (lcddev.setxcmd + 1), .ram (loByte (int sx)),
      .reg (lcddev.setxcmd + 2), .ram (hiByte (int twidth)),
      .reg (lcddev.setxcmd + 3), .ram (loByte (int twidth)),
      .reg lcddev.setycmd, .ram (hiByte (int sy)),
      .reg (lcddev.setycmd + 1), .ram (loByte (int sy)),
      .reg (lcddev.setycmd + 2), .ram (hiByte (int theight)),
      .reg (lcddev.setycmd + 3), .ram (loByte (int theight))]
  else
    [.reg lcddev.setxcmd, .ram (hiByte (int sx)), .ram (loByte (int sx)),
      .ram (hiByte (int twidth)), .ram (loByte (int twidth)),
      .reg lcddev.setycmd, .ram (hiByte (int sy)), .ram (loByte (int sy)),
      .ram (hiByte (int theight)), .ram (loByte (int theight))]

/-! ### The wire to the controller -/

/-- A controller as the FSMC sees it. -/
structure Port (σ : Type) where
  reg : U16 → σ → σ
  ram : U16 → σ → σ
  rd : σ → U16 × σ

/-- A controller in some state, and the accesses so far. -/
structure Wire (σ : Type) where
  panel : σ
  log : List BusOp

variable {σ : Type} (P : Port σ)

/-- One access; what a read returns is lost. -/
def Port.access (s : σ) : BusOp → σ
  | .reg v => P.reg v s
  | .ram v => P.ram v s
  | .rd => (P.rd s).2

/-- The accesses of a list. -/
def send (ops : List BusOp) (w : Wire σ) : Wire σ :=
  { panel := ops.foldl P.access w.panel, log := w.log ++ ops }

/-- `lcd_rd_data`. -/
def lcdRdData (w : Wire σ) : U16 × Wire σ := ((P.rd w.panel).1, send P [.rd] w)

/-- `lcd_read_point`. -/
def lcdReadPoint (lcddev : LcdDev) (x y : U16) (w : Wire σ) : U32 × Wire σ :=
  if x ≥ lcddev.width ∨ y ≥ lcddev.height then (0, w)
  else
    let w := send P (lcdSetCursor lcddev x y) w
    let w := send P [.reg (if lcddev.id = 0x5510 then 0x2E00 else 0x2E)] w
    let (r, w) := lcdRdData P w
    if lcddev.id = 0x1963 then (r.setWidth 32, w)
    else
      let (r, w) := lcdRdData P w
      if lcddev.id = 0x7796 then (r.setWidth 32, w)
      else
        let (b, w) := lcdRdData P w
        let g := r &&& 0xFF
        let g := g <<< 8
        (((r >>> 11 <<< 11) ||| (g >>> 10 <<< 5) ||| (b >>> 11)).setWidth 32, w)

@[simp] theorem send_panel (ops : List BusOp) (w : Wire σ) :
    (send P ops w).panel = ops.foldl P.access w.panel := rfl

@[simp] theorem send_log (ops : List BusOp) (w : Wire σ) : (send P ops w).log = w.log ++ ops := rfl

theorem send_append (ops ops' : List BusOp) (w : Wire σ) :
    send P (ops ++ ops') w = send P ops' (send P ops w) := by
  simp [send]

end RtosExample.Lcd.Dev
