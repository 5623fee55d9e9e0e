import RtosExample.Lcd.Draw
import RtosExample.Lib.Memory
import RtosExample.Lib.Raster

/-! # The controller behind the LCD functions

The controller chips are no part of the sources; this is what their data sheets promise and
`lcd.c` relies on. `Ctrl` is what the commands set: the first and last column and row, in two bytes
each, and the direction register. Words that are not sent leave their byte as it is. The `0x5510`
has a register for every byte, the others number the words that follow the command.

`Panel` adds the memory. The write command and the read command put the pointer at the first column
and row; each word written goes to the pointer, which moves on as in `Lib.Raster`. The words read
are a dummy and then the pixel, whole from a `0x7796`, and in two words with eight bits for each of
the three colours from the others, the bits that are not stored being arbitrary (`noise`). Moving
what is shown when the direction register changes is left out: nothing here is about a picture that
is older than the last change. -/

namespace RtosExample.Lcd.Controller

open RtosExample.Cint RtosExample.Lib.Raster RtosExample.Lib.Memory RtosExample.Lcd.Dev
open RtosExample.Lcd.Draw

/-! ### The commands -/

/-- The bounds of one axis, byte by byte. -/
structure Axis where
  startHi : U8
  startLo : U8
  endHi : U8
  endLo : U8
  deriving DecidableEq, Repr

/-- The byte number `k` of a command. -/
def Axis.set (k : ℕ) (v : U16) (a : Axis) : Axis :=
  match k with
  | 0 => { a with startHi := v.setWidth 8 }
  | 1 => { a with startLo := v.setWidth 8 }
  | 2 => { a with endHi := v.setWidth 8 }
  | 3 => { a with endLo := v.setWidth 8 }
  | _ => a

def Axis.first (a : Axis) : ℕ := a.startHi.toNat * 256 + a.startLo.toNat
def Axis.last (a : Axis) : ℕ := a.endHi.toNat * 256 + a.endLo.toNat

/-- What the commands have set: the last command and the words that followed it, the two axes and
the direction register. -/
structure Ctrl where
  cmd : U16
  args : ℕ
  col : Axis
  row : Axis
  madctl : U16
  deriving DecidableEq, Repr

/-- The commands of a controller. -/
def writeCmd (id : U16) : U16 := if id = 0x5510 then 0x2C00 else 0x2C
def readCmd (id : U16) : U16 := if id = 0x5510 then 0x2E00 else 0x2E
def colCmd (id : U16) : U16 := if id = 0x5510 then 0x2A00 else 0x2A
def rowCmd (id : U16) : U16 := if id = 0x5510 then 0x2B00 else 0x2B
def dirCmd (id : U16) : U16 := if id = 0x5510 then 0x3600 else 0x36

/-- A word after a command. -/
def Ctrl.param (id v : U16) (c : Ctrl) : Ctrl :=
  if c.cmd = dirCmd id then { c with madctl := v }
  else if id = 0x5510 then
    if (c.cmd - colCmd id).toNat < 4 then { c with col := c.col.set (c.cmd - colCmd id).toNat v }
    else if (c.cmd - rowCmd id).toNat < 4 then
      { c with row := c.row.set (c.cmd - rowCmd id).toNat v }
    else c
  else
    if c.cmd = colCmd id then { c with col := c.col.set c.args v, args := c.args + 1 }
    else if c.cmd = rowCmd id then { c with row := c.row.set c.args v, args := c.args + 1 }
    else c

/-- An access. -/
def Ctrl.access (id : U16) (c : Ctrl) : BusOp → Ctrl
  | .reg v => { c with cmd := v, args := 0 }
  | .ram v => c.param id v
  | .rd => c

/-- What a list of accesses sets. -/
def decode (id : U16) (ops : List BusOp) (c : Ctrl) : Ctrl := ops.foldl (Ctrl.access id) c

theorem decode_append (id : U16) (ops ops' : List BusOp) (c : Ctrl) :
    decode id (ops ++ ops') c = decode id ops' (decode id ops c) :=
  List.foldl_append

/-- `lcddev` has the commands of its controller. -/
structure Commands (lcddev : LcdDev) : Prop where
  wram : lcddev.wramcmd = writeCmd lcddev.id
  setx : lcddev.setxcmd = colCmd lcddev.id
  sety : lcddev.setycmd = rowCmd lcddev.id

theorem Commands.of_5510 {lcddev : LcdDev} (hc : Commands lcddev) (h : lcddev.id = 0x5510) :
    lcddev.setxcmd = 0x2A00 ∧ lcddev.setycmd = 0x2B00 := by
  rw [hc.setx, hc.sety, colCmd, rowCmd, if_pos h, if_pos h]
  exact ⟨rfl, rfl⟩

theorem Commands.of_ne {lcddev : LcdDev} (hc : Commands lcddev) (h : lcddev.id ≠ 0x5510) :
    lcddev.setxcmd = 0x2A ∧ lcddev.setycmd = 0x2B := by
  rw [hc.setx, hc.sety, colCmd, rowCmd, if_neg h, if_neg h]
  exact ⟨rfl, rfl⟩

/-- The start of an axis set to a coordinate. -/
def Axis.setStart (v : U16) (a : Axis) : Axis := (a.set 0 (hiByte (int v))).set 1 (loByte (int v))

/-- All four bytes of an axis set. -/
def Axis.setAll (v₀ v₁ v₂ v₃ : U16) (a : Axis) : Axis :=
  (((a.set 0 v₀).set 1 v₁).set 2 v₂).set 3 v₃

theorem bytes_toNat {v : ℤ} (h0 : 0 ≤ v) (h : v < 65536) :
    ((hiByte v).setWidth 8).toNat * 256 + ((loByte v).setWidth 8).toNat = v.toNat := by
  have hb := hiByte_loByte h0 h
  rw [BitVec.toNat_setWidth, BitVec.toNat_setWidth]
  change (hiByte v).toNat % 256 * 256 + (loByte v).toNat % 256 = _
  omega

@[simp] theorem first_setStart (v : U16) (a : Axis) : (a.setStart v).first = v.toNat := by
  have h := bytes_toNat (v := int v) (Int.natCast_nonneg _) (by unfold int; omega)
  rwa [int, Int.toNat_natCast] at h

@[simp] theorem last_setStart (v : U16) (a : Axis) : (a.setStart v).last = a.last := rfl

theorem first_setAll {w : ℤ} (h0 : 0 ≤ w) (h : w < 65536) (v₂ v₃ : U16) (a : Axis) :
    (a.setAll (hiByte w) (loByte w) v₂ v₃).first = w.toNat := bytes_toNat h0 h

theorem last_setAll {w : ℤ} (h0 : 0 ≤ w) (h : w < 65536) (v₀ v₁ : U16) (a : Axis) :
    (a.setAll v₀ v₁ (hiByte w) (loByte w)).last = w.toNat := bytes_toNat h0 h

/-! ### What the functions set -/

theorem decode_col {id r v : U16} {ops : List BusOp} (c : Ctrl) (h : id = 0x5510)
    (hr : (r - 0x2A00).toNat < 4) (hne : r ≠ 0x3600) :
    decode id (.reg r :: .ram v :: ops) c =
      decode id ops { c with cmd := r, args := 0, col := c.col.set (r - 0x2A00).toNat v } := by
  simp only [decode, List.foldl_cons, Ctrl.access, Ctrl.param, dirCmd, colCmd, if_pos h, if_neg hne,
    if_pos hr]

theorem decode_row {id r v : U16} {ops : List BusOp} (c : Ctrl) (h : id = 0x5510)
    (hr : (r - 0x2B00).toNat < 4) (hr' : ¬ (r - 0x2A00).toNat < 4) (hne : r ≠ 0x3600) :
    decode id (.reg r :: .ram v :: ops) c =
      decode id ops { c with cmd := r, args := 0, row := c.row.set (r - 0x2B00).toNat v } := by
  simp only [decode, List.foldl_cons, Ctrl.access, Ctrl.param, dirCmd, colCmd, rowCmd, if_pos h,
    if_neg hne, if_neg hr', if_pos hr]

theorem decode_reg {id r : U16} {ops : List BusOp} (c : Ctrl) :
    decode id (.reg r :: ops) c = decode id ops { c with cmd := r, args := 0 } := rfl

theorem decode_col_word {id v : U16} {ops : List BusOp} {c : Ctrl} (h : id ≠ 0x5510)
    (hc : c.cmd = 0x2A) :
    decode id (.ram v :: ops) c =
      decode id ops { c with col := c.col.set c.args v, args := c.args + 1 } := by
  have hne : ¬ c.cmd = 0x36 := by rw [hc]; decide
  simp only [decode, List.foldl_cons, Ctrl.access, Ctrl.param, dirCmd, colCmd, if_neg h,
    if_neg hne, if_pos hc]

theorem decode_row_word {id v : U16} {ops : List BusOp} {c : Ctrl} (h : id ≠ 0x5510)
    (hc : c.cmd = 0x2B) :
    decode id (.ram v :: ops) c =
      decode id ops { c with row := c.row.set c.args v, args := c.args + 1 } := by
  have hne : ¬ c.cmd = 0x36 := by rw [hc]; decide
  have hne' : ¬ c.cmd = 0x2A := by rw [hc]; decide
  simp only [decode, List.foldl_cons, Ctrl.access, Ctrl.param, dirCmd, colCmd, rowCmd, if_neg h,
    if_neg hne, if_neg hne', if_pos hc]

theorem param_write {id : U16} {c : Ctrl} (hc : c.cmd = writeCmd id) (v : U16) :
    c.param id v = c := by
  by_cases h : id = 0x5510
  · subst h
    simp only [Ctrl.param, hc]
    rfl
  · simp only [Ctrl.param, hc, writeCmd, dirCmd, colCmd, rowCmd, if_neg h]
    rfl

theorem decode_pixels {id : U16} {c : Ctrl} (hc : c.cmd = writeCmd id) :
    ∀ colors : List U16, decode id (colors.map .ram) c = c
  | [] => rfl
  | v :: colors => by
    rw [List.map_cons, decode, List.foldl_cons, Ctrl.access, param_write hc]
    exact decode_pixels hc colors

theorem decode_nil (id : U16) (c : Ctrl) : decode id [] c = c := rfl

section

variable {lcddev : LcdDev} (hid : lcddev.id ≠ 0x1963) (hc : Commands lcddev) (c : Ctrl)

include hid hc

/-- **The cursor** sets the two starts, and leaves the two ends. -/
theorem decode_cursor (x y v : U16) :
    decode lcddev.id (lcdSetCursor lcddev x y ++ [.reg v]) c =
      { cmd := v, args := 0, col := c.col.setStart x, row := c.row.setStart y
        madctl := c.madctl } := by
  by_cases h : lcddev.id = 0x5510
  · obtain ⟨hx, hy⟩ := hc.of_5510 h
    simp only [lcdSetCursor, if_neg hid, if_pos h, hx, hy, List.cons_append, List.nil_append]
    simp (disch := decide) only [decode_col _ h, decode_row _ h, decode_reg, decode_nil]
    rfl
  · obtain ⟨hx, hy⟩ := hc.of_ne h
    simp only [lcdSetCursor, if_neg hid, if_neg h, hx, hy, List.cons_append, List.nil_append]
    simp (disch := rfl) only [decode_reg, decode_col_word h, decode_row_word h, decode_nil]
    rfl

omit hid in
theorem decode_scanWindow :
    (decode lcddev.id (scanWindow lcddev) c).col =
      c.col.setAll 0 0 (hiByte (int lcddev.width - 1)) (loByte (int lcddev.width - 1)) ∧
    (decode lcddev.id (scanWindow lcddev) c).row =
      c.row.setAll 0 0 (hiByte (int lcddev.height - 1)) (loByte (int lcddev.height - 1)) ∧
    (decode lcddev.id (scanWindow lcddev) c).madctl = c.madctl := by
  by_cases h : lcddev.id = 0x5510
  · obtain ⟨hx, hy⟩ := hc.of_5510 h
    simp only [scanWindow, if_pos h, hx, hy]
    simp (disch := decide) only [decode_col _ h, decode_row _ h, decode_nil]
    exact ⟨rfl, rfl, trivial⟩
  · obtain ⟨hx, hy⟩ := hc.of_ne h
    simp only [scanWindow, if_neg h, hx, hy]
    simp (disch := rfl) only [decode_reg, decode_col_word h, decode_row_word h, decode_nil]
    exact ⟨rfl, rfl, trivial⟩

omit hid in
/-- **`lcd_set_window`** sets the two starts and the two ends, unless it mirrors the columns. -/
theorem decode_setWindow (hm : ¬ (lcddev.id = 0x1963 ∧ lcddev.dir ≠ 1))
    (sx sy width height : U16) :
    (decode lcddev.id (lcdSetWindow lcddev sx sy width height) c).col =
      c.col.setAll (hiByte (int sx)) (loByte (int sx)) (hiByte (int (u16 (int sx + int width - 1))))
        (loByte (int (u16 (int sx + int width - 1)))) ∧
    (decode lcddev.id (lcdSetWindow lcddev sx sy width height) c).row =
      c.row.setAll (hiByte (int sy)) (loByte (int sy))
        (hiByte (int (u16 (int sy + int height - 1))))
        (loByte (int (u16 (int sy + int height - 1)))) ∧
    (decode lcddev.id (lcdSetWindow lcddev sx sy width height) c).madctl = c.madctl := by
  by_cases h : lcddev.id = 0x5510
  · obtain ⟨hx, hy⟩ := hc.of_5510 h
    simp only [lcdSetWindow, if_neg hm, if_pos h, hx, hy]
    simp (disch := decide) only [decode_col _ h, decode_row _ h, decode_nil]
    exact ⟨rfl, rfl, trivial⟩
  · obtain ⟨hx, hy⟩ := hc.of_ne h
    simp only [lcdSetWindow, if_neg hm, if_neg h, hx, hy]
    simp (disch := rfl) only [decode_reg, decode_col_word h, decode_row_word h, decode_nil]
    exact ⟨rfl, rfl, trivial⟩

theorem decode_span (s : Span) :
    decode lcddev.id (s.ops lcddev) c =
      { cmd := writeCmd lcddev.id, args := 0, col := c.col.setStart s.x
        row := c.row.setStart s.y, madctl := c.madctl } := by
  rw [Span.ops, lcdWriteRamPrepare, hc.wram, decode_append, decode_cursor hid hc]
  exact decode_pixels rfl s.colors

theorem decode_paint : ∀ (spans : List Span) (c : Ctrl),
    (decode lcddev.id (paint lcddev spans) c).col.last = c.col.last ∧
    (decode lcddev.id (paint lcddev spans) c).row.last = c.row.last ∧
    (decode lcddev.id (paint lcddev spans) c).madctl = c.madctl
  | [], _ => ⟨rfl, rfl, rfl⟩
  | s :: spans, c => by
    rw [paint_cons, decode_append, decode_span hid hc]
    exact decode_paint spans _

end

/-! ### The memory -/

structure Panel where
  ctrl : Ctrl
  ptr : ℕ × ℕ
  gram : ℕ × ℕ → U16
  /-- The words read since the last command, and in all. -/
  taken : ℕ
  clock : ℕ

/-- The window that the pointer moves in. -/
def Ctrl.window (c : Ctrl) : Window := ⟨c.col.first, c.col.last, c.row.first, c.row.last⟩

/-- The first pixel of the window. -/
def Ctrl.origin (c : Ctrl) : ℕ × ℕ := (c.col.first, c.row.first)

/-- The first and second word for a pixel: red and green, and blue, each in the top bits of a
byte. -/
def word1 (pixel noise : U16) : U16 :=
  (pixel &&& 0xF800) ||| (pixel >>> 3 &&& 0x00FC) ||| (noise &&& 0x0703)
def word2 (pixel noise : U16) : U16 := (pixel <<< 11) ||| (noise &&& 0x07FF)

/-- The word that is read next. -/
def Panel.word (id : U16) (noise : ℕ → U16) (p : Panel) : U16 :=
  match p.taken with
  | 0 => noise p.clock
  | 1 => if id = 0x7796 then p.gram p.ptr else word1 (p.gram p.ptr) (noise p.clock)
  | _ => word2 (p.gram p.ptr) (noise p.clock)

/-- **The controller** `id`. -/
def port (id : U16) (noise : ℕ → U16) : Port Panel where
  reg v p :=
    { p with
      ctrl := p.ctrl.access id (.reg v), taken := 0
      ptr := if v = writeCmd id ∨ v = readCmd id then p.ctrl.origin else p.ptr }
  ram v p :=
    if p.ctrl.cmd = writeCmd id then
      { p with gram := Function.update p.gram p.ptr v, ptr := p.ctrl.window.next p.ptr }
    else { p with ctrl := p.ctrl.access id (.ram v) }
  rd p := (p.word id noise, { p with taken := p.taken + 1, clock := p.clock + 1 })

/-! ### What the functions do to the memory -/

theorem port_ctrl (id : U16) (noise : ℕ → U16) : ∀ (ops : List BusOp) (p : Panel),
    (ops.foldl (port id noise).access p).ctrl = decode id ops p.ctrl
  | [], _ => rfl
  | .reg v :: ops, p => port_ctrl id noise ops _
  | .rd :: ops, p => port_ctrl id noise ops _
  | .ram v :: ops, p => by
    rw [List.foldl_cons, port_ctrl id noise ops]
    change decode id ops ((port id noise).ram v p).ctrl = decode id ops (p.ctrl.param id v)
    congr 1
    by_cases hc : p.ctrl.cmd = writeCmd id
    · simp only [port, if_pos hc, param_write hc]
    · simp only [port, if_neg hc, Ctrl.access]

/-- Accesses that neither read nor write pixels, `cmd` being the last command. -/
def Quiet (id : U16) : U16 → List BusOp → Prop
  | _, [] => True
  | _, .reg v :: ops => v ≠ writeCmd id ∧ v ≠ readCmd id ∧ Quiet id v ops
  | cmd, .ram _ :: ops => cmd ≠ writeCmd id ∧ Quiet id cmd ops
  | _, .rd :: _ => False

theorem port_quiet (id : U16) (noise : ℕ → U16) : ∀ (ops : List BusOp) (p : Panel),
    Quiet id p.ctrl.cmd ops →
    (ops.foldl (port id noise).access p).gram = p.gram ∧
    (ops.foldl (port id noise).access p).clock = p.clock
  | [], _, _ => ⟨rfl, rfl⟩
  | .reg v :: ops, p, h => port_quiet id noise ops ((port id noise).reg v p) h.2.2
  | .ram v :: ops, p, ⟨hne, h⟩ => by
    have hp : (port id noise).ram v p = { p with ctrl := p.ctrl.access id (.ram v) } := if_neg hne
    have hcmd : (p.ctrl.access id (.ram v)).cmd = p.ctrl.cmd := by
      simp only [Ctrl.access, Ctrl.param]
      split_ifs <;> rfl
    rw [List.foldl_cons, Port.access, hp]
    exact port_quiet id noise ops { p with ctrl := p.ctrl.access id (.ram v) }
      (by rw [hcmd]; exact h)

theorem cursor_quiet {lcddev : LcdDev} (hid : lcddev.id ≠ 0x1963) (hc : Commands lcddev)
    (x y cmd : U16) : Quiet lcddev.id cmd (lcdSetCursor lcddev x y) := by
  by_cases h : lcddev.id = 0x5510
  · obtain ⟨hx, hy⟩ := hc.of_5510 h
    simp only [lcdSetCursor, if_neg hid, if_pos h, hx, hy, Quiet, writeCmd, readCmd]
    decide
  · obtain ⟨hx, hy⟩ := hc.of_ne h
    simp only [lcdSetCursor, if_neg hid, if_neg h, hx, hy, Quiet, writeCmd, readCmd]
    decide

theorem port_cursor {lcddev : LcdDev} (hid : lcddev.id ≠ 0x1963) (hc : Commands lcddev)
    (noise : ℕ → U16) (x y : U16) {v : U16} (hv : v = writeCmd lcddev.id ∨ v = readCmd lcddev.id)
    (p : Panel) :
    (lcdSetCursor lcddev x y ++ [BusOp.reg v]).foldl (port lcddev.id noise).access p =
      { ctrl :=
          { cmd := v, args := 0, col := p.ctrl.col.setStart x, row := p.ctrl.row.setStart y
            madctl := p.ctrl.madctl }
        ptr := (x.toNat, y.toNat), gram := p.gram, taken := 0, clock := p.clock } := by
  have hset := decode_cursor hid hc p.ctrl x y v
  rw [decode_append, ← port_ctrl lcddev.id noise] at hset
  obtain ⟨hg, hk⟩ := port_quiet lcddev.id noise _ p (cursor_quiet hid hc x y p.ctrl.cmd)
  rw [List.foldl_append]
  set q := (lcdSetCursor lcddev x y).foldl (port lcddev.id noise).access p
  change ({ q with
    ctrl := decode lcddev.id [.reg v] q.ctrl, taken := 0
    ptr := if v = writeCmd lcddev.id ∨ v = readCmd lcddev.id then q.ctrl.origin else q.ptr } :
      Panel) = _
  have hcol : q.ctrl.col = p.ctrl.col.setStart x := congrArg Ctrl.col hset
  have hrow : q.ctrl.row = p.ctrl.row.setStart y := congrArg Ctrl.row hset
  rw [hset, if_pos hv, hg, hk, Ctrl.origin, hcol, hrow, first_setStart, first_setStart]

theorem port_pixels (id : U16) (noise : ℕ → U16) : ∀ (colors : List U16) (p : Panel),
    p.ctrl.cmd = writeCmd id →
    (colors.map BusOp.ram).foldl (port id noise).access p =
      { p with
        gram := store p.ctrl.window.next colors p.ptr p.gram
        ptr := p.ctrl.window.next^[colors.length] p.ptr }
  | [], _, _ => rfl
  | v :: colors, p, hc => by
    have hp : (port id noise).ram v p =
        { p with gram := Function.update p.gram p.ptr v, ptr := p.ctrl.window.next p.ptr } :=
      if_pos hc
    rw [List.map_cons, List.foldl_cons, Port.access, hp]
    exact port_pixels id noise colors
      { p with gram := Function.update p.gram p.ptr v, ptr := p.ctrl.window.next p.ptr } hc

theorem port_span {lcddev : LcdDev} (hid : lcddev.id ≠ 0x1963) (hc : Commands lcddev)
    (noise : ℕ → U16) (s : Span) (p : Panel) {w : Window}
    (hw : w = ⟨s.x.toNat, p.ctrl.col.last, s.y.toNat, p.ctrl.row.last⟩) :
    ∃ ctrl ptr, (s.ops lcddev).foldl (port lcddev.id noise).access p =
      { ctrl := ctrl, ptr := ptr, gram := store w.next s.colors (s.x.toNat, s.y.toNat) p.gram
        taken := 0, clock := p.clock } := by
  rw [Span.ops, lcdWriteRamPrepare, hc.wram, List.foldl_append,
    port_cursor hid hc noise s.x s.y (.inl rfl) p, port_pixels lcddev.id noise _ _ rfl]
  have hwin : w = Ctrl.window { cmd := writeCmd lcddev.id, args := 0
                                col := p.ctrl.col.setStart s.x, row := p.ctrl.row.setStart s.y
                                madctl := p.ctrl.madctl } := by
    rw [hw, Ctrl.window, first_setStart, first_setStart, last_setStart, last_setStart]
  rw [hwin]
  exact ⟨_, _, rfl⟩

end RtosExample.Lcd.Controller
