import RtosExample.Lcd.Geometry

/-! # The window and the cursor

`lcd_set_window` and `lcd_set_cursor` send the same place in different ways: four bytes for each
range or two, one register for each byte on a `0x5510`, and on an upright `0x1963` the columns are
numbered from the right and set by the command that sets the rows of the others (`Mirrored`).

* `Oriented`: the commands in `lcddev` are those of its orientation, in every state of a run.
* `setWindow_ranges`, `setCursor_ranges`: the ranges that the two functions set.
* `window_cursor_agree`: they begin at the same place, and so in every run (`run_agree`). -/

namespace RtosExample.Lcd.Ranges

open RtosExample.Cint RtosExample.Lib.Runs RtosExample.Lcd.Dev RtosExample.Lcd.Draw
open RtosExample.Lcd.Text RtosExample.Lcd.Controller RtosExample.Lcd.Calls RtosExample.Lcd.Geometry

/-! ### The two orders of the commands -/

/-- The columns are numbered from the right: an upright `0x1963`. -/
def Mirrored (lcddev : LcdDev) : Prop := lcddev.id = 0x1963 ∧ lcddev.dir = 0

instance (lcddev : LcdDev) : Decidable (Mirrored lcddev) := inferInstanceAs (Decidable (_ ∧ _))

/-- **`lcddev` has the commands of its orientation.** -/
structure Oriented (lcddev : LcdDev) : Prop where
  wram : lcddev.wramcmd = writeCmd lcddev.id
  setx : lcddev.setxcmd = if Mirrored lcddev then rowCmd lcddev.id else colCmd lcddev.id
  sety : lcddev.setycmd = if Mirrored lcddev then colCmd lcddev.id else rowCmd lcddev.id

theorem Oriented.commands {lcddev : LcdDev} (h : Oriented lcddev) (hm : ¬ Mirrored lcddev) :
    Commands lcddev :=
  ⟨h.wram, by rw [h.setx, if_neg hm], by rw [h.sety, if_neg hm]⟩

theorem displayDev_1963 {lcddev : LcdDev} (hid : lcddev.id = 0x1963) (dir : U8) :
    displayDev lcddev dir =
      { width := if dir = 0 then 480 else 800, height := if dir = 0 then 800 else 480
        id := lcddev.id, dir := dir, wramcmd := 0x2C, setxcmd := if dir = 0 then 0x2B else 0x2A
        setycmd := if dir = 0 then 0x2A else 0x2B } := by
  obtain ⟨width, height, id, dir₀, wramcmd, setxcmd, setycmd⟩ := lcddev
  obtain rfl : id = 0x1963 := hid
  rcases Classical.propComplete (dir = 0) with hd | hd <;>
    simp only [displayDev, hd, if_true, if_false] <;> rfl

theorem displayDev_oriented (lcddev : LcdDev) (dir : U8) :
    Oriented (displayDev lcddev dir) ∧ (displayDev lcddev dir).id = lcddev.id ∧
      (displayDev lcddev dir).dir = dir := by
  by_cases hid : lcddev.id = 0x1963
  · rw [displayDev_1963 hid]
    refine ⟨?_, rfl, rfl⟩
    by_cases hd : dir = 0
    · constructor <;> simp only [Mirrored, hid, hd, and_self, if_true] <;> rfl
    · constructor <;> simp only [Mirrored, hid, hd, and_false, if_false] <;> rfl
  · rw [displayDev_eq hid]
    exact ⟨⟨rfl, (if_neg fun hm => hid hm.1).symm, (if_neg fun hm => hid hm.1).symm⟩, rfl, rfl⟩

theorem scanSwap_oriented {lcddev : LcdDev} (h : Oriented lcddev) (regval : U16) :
    Oriented (scanSwap lcddev regval) ∧ (scanSwap lcddev regval).id = lcddev.id ∧
      (scanSwap lcddev regval).dir = lcddev.dir := by
  obtain ⟨hw, hx, hy⟩ := h
  unfold scanSwap
  split_ifs <;> exact ⟨⟨hw, hx, hy⟩, rfl, rfl⟩

theorem displayDir_oriented (lcddev : LcdDev) (dir : U8) :
    Oriented (lcdDisplayDir lcddev dir).1 ∧ (lcdDisplayDir lcddev dir).1.id = lcddev.id ∧
      (lcdDisplayDir lcddev dir).1.dir = dir := by
  obtain ⟨ho, hid, hdir⟩ := displayDev_oriented lcddev dir
  obtain ⟨ho', hid', hdir'⟩ :=
    scanSwap_oriented ho (scanRegval (displayDev lcddev dir) DFT_SCAN_DIR)
  exact ⟨ho', hid'.trans hid, hdir'.trans hdir⟩

/-- The call sets one of the two orientations, if any. -/
def SetsDir : Call → Prop
  | .displayDir dir => dir = 0 ∨ dir = 1
  | _ => True

theorem run_oriented {σ : Type} (P : Port σ) (env : TextEnv) {lcddev : LcdDev} {w : Wire σ}
    {dir : U8} {calls : List Call} (hcalls : ∀ c ∈ Call.displayDir dir :: calls, SetsDir c)
    {s : LcdDev × Wire σ}
    (hrun : run (Call.exec P env) (.displayDir dir :: calls) (lcddev, w) = some s) :
    Oriented s.1 ∧ (s.1.dir = 0 ∨ s.1.dir = 1) := by
  obtain ⟨hdir, hrest⟩ := List.forall_mem_cons.mp hcalls
  obtain ⟨s₀, h₀, hrun⟩ := (run_cons _).mp hrun
  cases h₀
  obtain ⟨ho, -, hd⟩ := displayDir_oriented lcddev dir
  refine run_inv (I := fun s : LcdDev × Wire σ => Oriented s.1 ∧ (s.1.dir = 0 ∨ s.1.dir = 1))
    (fun c hc s s' ⟨ho, hd⟩ he => ?_) ⟨ho, by rwa [hd]⟩ hrun
  obtain ⟨ops, rfl, -⟩ := exec_send P env he
  cases c with
  | displayDir dir =>
    obtain ⟨ho', -, hd'⟩ := displayDir_oriented s.1 dir
    refine ⟨ho', ?_⟩
    rw [Call.dev, hd']
    exact hrest _ hc
  | scanDir dir =>
    obtain ⟨ho', -, hd'⟩ := scanSwap_oriented ho (scanRegval s.1 dir)
    exact ⟨ho', by simpa only [Call.dev, lcdScanDir, hd'] using hd⟩
  | setWindow sx sy width height => exact ⟨ho, hd⟩
  | readPoint x y => exact ⟨ho, hd⟩
  | draw d => exact ⟨ho, hd⟩

/-! ### What the two functions send -/

/-- The range that a command sets. -/
def axisOf (id r : U16) (c : Ctrl) : Axis := if r = colCmd id then c.col else c.row

/-- The ranges of the columns and the rows of `lcddev`. -/
def columns (lcddev : LcdDev) (c : Ctrl) : Axis := axisOf lcddev.id lcddev.setxcmd c
def rows (lcddev : LcdDev) (c : Ctrl) : Axis := axisOf lcddev.id lcddev.setycmd c

/-- A range in four bytes. -/
def rangeOps (r : U16) (first last : ℤ) : List BusOp :=
  [.reg r, .ram (hiByte first), .ram (loByte first), .ram (hiByte last), .ram (loByte last)]

section

variable {lcddev : LcdDev} (ho : Oriented lcddev) (c : Ctrl) {sx sy width height : U16}

include ho

theorem columns_eq (hm : ¬ Mirrored lcddev) : columns lcddev c = c.col := by
  rw [columns, axisOf, if_pos (ho.commands hm).setx]

theorem rows_eq (hm : ¬ Mirrored lcddev) : rows lcddev c = c.row := by
  have hne : rowCmd lcddev.id ≠ colCmd lcddev.id := by
    unfold rowCmd colCmd
    split_ifs <;> decide
  rw [rows, axisOf, (ho.commands hm).sety, if_neg hne]

theorem decode_ranges (h : lcddev.id ≠ 0x5510) {x x' y y' : ℤ} (hx : 0 ≤ x ∧ x < 65536)
    (hx' : 0 ≤ x' ∧ x' < 65536) (hy : 0 ≤ y ∧ y < 65536) (hy' : 0 ≤ y' ∧ y' < 65536)
    {ops : List BusOp}
    (hops : ops = rangeOps lcddev.setxcmd x x' ++ rangeOps lcddev.setycmd y y') :
    (columns lcddev (decode lcddev.id ops c)).first = x.toNat ∧
      (columns lcddev (decode lcddev.id ops c)).last = x'.toNat ∧
      (rows lcddev (decode lcddev.id ops c)).first = y.toNat ∧
      (rows lcddev (decode lcddev.id ops c)).last = y'.toNat := by
  have hset : columns lcddev (decode lcddev.id ops c) =
        (columns lcddev c).setAll (hiByte x) (loByte x) (hiByte x') (loByte x') ∧
      rows lcddev (decode lcddev.id ops c) =
        (rows lcddev c).setAll (hiByte y) (loByte y) (hiByte y') (loByte y') := by
    simp only [hops, columns, rows, axisOf, ho.setx, ho.sety, colCmd, rowCmd, if_neg h, rangeOps,
      List.cons_append, List.nil_append]
    by_cases hm : Mirrored lcddev
    · simp only [if_pos hm]
      simp (disch := rfl) only [decode_reg, decode_col_word h, decode_row_word h, decode_nil]
      exact ⟨rfl, rfl⟩
    · simp only [if_neg hm]
      simp (disch := rfl) only [decode_reg, decode_col_word h, decode_row_word h, decode_nil]
      exact ⟨rfl, rfl⟩
  rw [hset.1, hset.2, first_setAll hx.1 hx.2, last_setAll hx'.1 hx'.2, first_setAll hy.1 hy.2,
    last_setAll hy'.1 hy'.2]
  exact ⟨rfl, rfl, rfl, rfl⟩

theorem setWindow_ranges (hw : 1 ≤ width.toNat) (hh : 1 ≤ height.toNat)
    (hx : sx.toNat + width.toNat ≤ lcddev.width.toNat)
    (hy : sy.toNat + height.toNat ≤ lcddev.height.toNat) :
    (columns lcddev (decode lcddev.id (lcdSetWindow lcddev sx sy width height) c)).first =
        (if lcddev.id = 0x1963 ∧ lcddev.dir ≠ 1 then
          lcddev.width.toNat - width.toNat - sx.toNat else sx.toNat) ∧
      (columns lcddev (decode lcddev.id (lcdSetWindow lcddev sx sy width height) c)).last + 1 =
        (if lcddev.id = 0x1963 ∧ lcddev.dir ≠ 1 then lcddev.width.toNat - sx.toNat
          else sx.toNat + width.toNat) ∧
      (rows lcddev (decode lcddev.id (lcdSetWindow lcddev sx sy width height) c)).first =
        sy.toNat ∧
      (rows lcddev (decode lcddev.id (lcdSetWindow lcddev sx sy width height) c)).last + 1 =
        sy.toNat + height.toNat := by
  have hwl := lcddev.width.isLt
  have hhl := lcddev.height.isLt
  have hlast : int (u16 (int sy + int height - 1)) = int sy + int height - 1 :=
    int_u16 (by unfold int; omega)
  by_cases hmain : lcddev.id = 0x1963 ∧ lcddev.dir ≠ 1
  · have hfirst : int (u16 (int lcddev.width - int width - int sx)) =
        int lcddev.width - int width - int sx :=
      int_u16 (by unfold int; omega)
    have hops : lcdSetWindow lcddev sx sy width height =
        rangeOps lcddev.setxcmd (int lcddev.width - int width - int sx)
          (int lcddev.width - int width - int sx + int width - 1) ++
        rangeOps lcddev.setycmd (int sy) (int sy + int height - 1) := by
      simp only [lcdSetWindow, if_pos hmain, hfirst, hlast]
      rfl
    obtain ⟨hx1, hx2, hy1, hy2⟩ := decode_ranges ho c (by rw [hmain.1]; decide)
      (by unfold int; omega) (by unfold int; omega) (by unfold int; omega)
      (by unfold int; omega) hops
    rw [hx1, hx2, hy1, hy2, if_pos hmain, if_pos hmain]
    unfold int
    omega
  · have hm : ¬ Mirrored lcddev := fun h => hmain ⟨h.1, by rw [h.2]; decide⟩
    have hlast' : int (u16 (int sx + int width - 1)) = int sx + int width - 1 :=
      int_u16 (by unfold int; omega)
    obtain ⟨hcol, hrow, -⟩ := decode_setWindow (ho.commands hm) c hmain sx sy width height
    rw [columns_eq ho _ hm, rows_eq ho _ hm, hcol, hrow, hlast, hlast', if_neg hmain, if_neg hmain,
      first_setAll (by unfold int; omega) (by unfold int; omega),
      last_setAll (by unfold int; omega) (by unfold int; omega),
      first_setAll (by unfold int; omega) (by unfold int; omega),
      last_setAll (by unfold int; omega) (by unfold int; omega)]
    unfold int
    omega

theorem setCursor_ranges (hx : sx.toNat < lcddev.width.toNat)
    (hy : sy.toNat < lcddev.height.toNat) :
    (if Mirrored lcddev then
        (columns lcddev (decode lcddev.id (lcdSetCursor lcddev sx sy) c)).last + 1 =
          lcddev.width.toNat - sx.toNat
      else (columns lcddev (decode lcddev.id (lcdSetCursor lcddev sx sy) c)).first = sx.toNat) ∧
      (rows lcddev (decode lcddev.id (lcdSetCursor lcddev sx sy) c)).first = sy.toNat := by
  have hwl := lcddev.width.isLt
  have hhl := lcddev.height.isLt
  by_cases hid : lcddev.id = 0x1963
  · have hne : lcddev.id ≠ 0x5510 := by rw [hid]; decide
    by_cases hm : Mirrored lcddev
    · have hfirst : int (u16 (int lcddev.width - 1 - int sx)) = int lcddev.width - 1 - int sx :=
        int_u16 (by unfold int; omega)
      have hops : lcdSetCursor lcddev sx sy =
          rangeOps lcddev.setxcmd 0 (int lcddev.width - 1 - int sx) ++
          rangeOps lcddev.setycmd (int sy) (int lcddev.height - 1) := by
        simp only [lcdSetCursor, if_pos hid, if_pos hm.2, hfirst]
        rfl
      obtain ⟨-, hx2, hy1, -⟩ := decode_ranges ho c hne (by omega) (by unfold int; omega)
        (by unfold int; omega) (by unfold int; omega) hops
      rw [hx2, hy1, if_pos hm]
      unfold int
      omega
    · have hdir : lcddev.dir ≠ 0 := fun h => hm ⟨hid, h⟩
      have hops : lcdSetCursor lcddev sx sy =
          rangeOps lcddev.setxcmd (int sx) (int lcddev.width - 1) ++
          rangeOps lcddev.setycmd (int sy) (int lcddev.height - 1) := by
        simp only [lcdSetCursor, if_pos hid, if_neg hdir]
        rfl
      obtain ⟨hx1, -, hy1, -⟩ := decode_ranges ho c hne (by unfold int; omega)
        (by unfold int; omega) (by unfold int; omega) (by unfold int; omega) hops
      rw [hx1, hy1, if_neg hm]
      exact ⟨rfl, rfl⟩
  · have hm : ¬ Mirrored lcddev := fun h => hid h.1
    have hset := decode_cursor hid (ho.commands hm) c sx sy 0
    rw [decode_append] at hset
    have hcol : (decode lcddev.id (lcdSetCursor lcddev sx sy) c).col = c.col.setStart sx :=
      congrArg Ctrl.col hset
    have hrow : (decode lcddev.id (lcdSetCursor lcddev sx sy) c).row = c.row.setStart sy :=
      congrArg Ctrl.row hset
    rw [if_neg hm, columns_eq ho _ hm, rows_eq ho _ hm, hcol, hrow, first_setStart,
      first_setStart]
    exact ⟨rfl, rfl⟩

/-! ### Where writing begins -/

/-- **The window and the cursor agree.** The window has `width` columns and `height` rows inside the
screen, and the cursor begins where it does: at the first column, or at the last one if the columns
are mirrored. -/
structure Agree (lcddev : LcdDev) (sx sy width height : U16) (win cur : Ctrl) : Prop where
  wide : (columns lcddev win).last + 1 = (columns lcddev win).first + width.toNat
  high : (rows lcddev win).last + 1 = (rows lcddev win).first + height.toNat
  right : (columns lcddev win).last < lcddev.width.toNat
  bottom : (rows lcddev win).last < lcddev.height.toNat
  row : (rows lcddev win).first = sy.toNat ∧ (rows lcddev cur).first = sy.toNat
  column : if Mirrored lcddev then
      (columns lcddev win).last = lcddev.width.toNat - 1 - sx.toNat ∧
      (columns lcddev cur).last = lcddev.width.toNat - 1 - sx.toNat ∧
      (columns lcddev win).first = (columns lcddev win).last - (width.toNat - 1)
    else
      (columns lcddev win).first = sx.toNat ∧ (columns lcddev cur).first = sx.toNat

theorem oriented_agree (hdir : lcddev.dir = 0 ∨ lcddev.dir = 1) (hw : 1 ≤ width.toNat)
    (hh : 1 ≤ height.toNat) (hx : sx.toNat + width.toNat ≤ lcddev.width.toNat)
    (hy : sy.toNat + height.toNat ≤ lcddev.height.toNat) :
    Agree lcddev sx sy width height
      (decode lcddev.id (lcdSetWindow lcddev sx sy width height) c)
      (decode lcddev.id (lcdSetCursor lcddev sx sy) c) := by
  obtain ⟨hx1, hx2, hy1, hy2⟩ := setWindow_ranges ho c hw hh hx hy
  obtain ⟨hc1, hc2⟩ := @setCursor_ranges lcddev ho c sx sy (by omega) (by omega)
  -- the two tests for a mirrored screen are the same in the two orientations
  have htest : (lcddev.id = 0x1963 ∧ lcddev.dir ≠ 1) ↔ Mirrored lcddev := by
    unfold Mirrored
    rcases hdir with hd | hd <;> simp [hd]
  simp only [htest] at hx1 hx2
  by_cases hm : Mirrored lcddev
  · rw [if_pos hm] at hx1 hx2 hc1
    refine ⟨by omega, by omega, by omega, by omega, ⟨hy1, hc2⟩, ?_⟩
    rw [if_pos hm]
    omega
  · rw [if_neg hm] at hx1 hx2 hc1
    refine ⟨by omega, by omega, by omega, by omega, ⟨hy1, hc2⟩, ?_⟩
    rw [if_neg hm]
    exact ⟨hx1, hc1⟩

end

/-! ### The bytes -/

/-- Every data word is a byte. -/
def Bytes : List BusOp → Prop
  | [] => True
  | .ram v :: ops => v.toNat < 256 ∧ Bytes ops
  | _ :: ops => Bytes ops

theorem setWindow_bytes {lcddev : LcdDev} {sx sy width height : U16} (hw : 1 ≤ width.toNat)
    (hx : sx.toNat + width.toNat ≤ lcddev.width.toNat) :
    Bytes (lcdSetWindow lcddev sx sy width height) := by
  by_cases hmain : lcddev.id = 0x1963 ∧ lcddev.dir ≠ 1
  · have hend : 0 ≤ int (u16 (int lcddev.width - int width - int sx)) + int width - 1 ∧
        int (u16 (int lcddev.width - int width - int sx)) + int width - 1 < 65536 := by
      have := lcddev.width.isLt
      rw [int_u16 (by unfold int; omega)]
      unfold int
      omega
    simp only [lcdSetWindow, if_pos hmain, Bytes, loByte_lt, hiByte_lt (int_bounds _),
      hiByte_lt hend, and_self]
  · by_cases h : lcddev.id = 0x5510
    · simp only [lcdSetWindow, if_neg hmain, if_pos h, Bytes, loByte_lt,
        hiByte_lt (int_bounds _), and_self]
    · simp only [lcdSetWindow, if_neg hmain, if_neg h, Bytes, loByte_lt,
        hiByte_lt (int_bounds _), and_self]

theorem setCursor_bytes {lcddev : LcdDev} (hw : 1 ≤ lcddev.width.toNat)
    (hh : 1 ≤ lcddev.height.toNat) (x y : U16) : Bytes (lcdSetCursor lcddev x y) := by
  have hlast : ∀ v : U16, 1 ≤ v.toNat → 0 ≤ int v - 1 ∧ int v - 1 < 65536 := by
    intro v hv
    have := v.isLt
    unfold int
    omega
  by_cases hid : lcddev.id = 0x1963
  · by_cases hd : lcddev.dir = 0
    · simp only [lcdSetCursor, if_pos hid, if_pos hd, List.cons_append, List.nil_append, Bytes,
        loByte_lt, hiByte_lt (int_bounds _), hiByte_lt (hlast _ hh), and_self]
      decide
    · simp only [lcdSetCursor, if_pos hid, if_neg hd, List.cons_append, List.nil_append, Bytes,
        loByte_lt, hiByte_lt (int_bounds _), hiByte_lt (hlast _ hw), hiByte_lt (hlast _ hh),
        and_self]
  · by_cases h : lcddev.id = 0x5510
    · simp only [lcdSetCursor, if_neg hid, if_pos h, Bytes, loByte_lt, hiByte_lt (int_bounds _),
        and_self]
    · simp only [lcdSetCursor, if_neg hid, if_neg h, Bytes, loByte_lt, hiByte_lt (int_bounds _),
        and_self]

/-- **The window and the cursor agree on every controller**, upright and on its side, and all the
words they send are bytes. -/
theorem window_cursor_agree (lcddev₀ : LcdDev) {dir : U8} (hdir : dir = 0 ∨ dir = 1)
    {lcddev : LcdDev} (hd : lcddev = (lcdDisplayDir lcddev₀ dir).1) {sx sy width height : U16}
    (hw : 1 ≤ width.toNat) (hh : 1 ≤ height.toNat)
    (hx : sx.toNat + width.toNat ≤ lcddev.width.toNat)
    (hy : sy.toNat + height.toNat ≤ lcddev.height.toNat) (c : Ctrl) :
    lcddev.id = lcddev₀.id ∧ lcddev.dir = dir ∧
      Agree lcddev sx sy width height
        (decode lcddev.id (lcdSetWindow lcddev sx sy width height) c)
        (decode lcddev.id (lcdSetCursor lcddev sx sy) c) ∧
      Bytes (lcdSetWindow lcddev sx sy width height) ∧ Bytes (lcdSetCursor lcddev sx sy) := by
  obtain ⟨ho, hid, hkeep⟩ := displayDir_oriented lcddev₀ dir
  rw [← hd] at ho hid hkeep
  refine ⟨hid, hkeep, oriented_agree ho c ?_ hw hh hx hy, setWindow_bytes hw hx,
    setCursor_bytes (by omega) (by omega) sx sy⟩
  rwa [hkeep]

/-- The theorem at the last ten rows and columns of an upright `0x1963`. -/
theorem window_cursor_agree_corner :
    Agree (lcdDisplayDir (started 0x1963) 0).1 470 790 10 10
      (decode 0x1963 (lcdSetWindow (lcdDisplayDir (started 0x1963) 0).1 470 790 10 10)
        (shows 0).panel.ctrl)
      (decode 0x1963 (lcdSetCursor (lcdDisplayDir (started 0x1963) 0).1 470 790)
        (shows 0).panel.ctrl) :=
  (@window_cursor_agree (started 0x1963) 0 (Or.inl rfl) _ rfl 470 790 10 10 (by decide)
    (by decide) (by decide) (by decide) _).2.2.1

/-- **They agree in every state of a run** that sets no other orientation. -/
theorem run_agree {σ : Type} (P : Port σ) (env : TextEnv) {lcddev : LcdDev} {w : Wire σ}
    {dir : U8} {calls : List Call} (hcalls : ∀ c ∈ Call.displayDir dir :: calls, SetsDir c)
    {s : LcdDev × Wire σ}
    (hrun : run (Call.exec P env) (.displayDir dir :: calls) (lcddev, w) = some s)
    {sx sy width height : U16} (hw : 1 ≤ width.toNat) (hh : 1 ≤ height.toNat)
    (hx : sx.toNat + width.toNat ≤ s.1.width.toNat)
    (hy : sy.toNat + height.toNat ≤ s.1.height.toNat) (c : Ctrl) :
    Agree s.1 sx sy width height
      (decode s.1.id (lcdSetWindow s.1 sx sy width height) c)
      (decode s.1.id (lcdSetCursor s.1 sx sy) c) := by
  obtain ⟨ho, hdir⟩ := run_oriented P env hcalls hrun
  exact oriented_agree ho c hdir hw hh hx hy

/-- **The two tests differ** for the other values of `dir`: `lcd_set_window` takes a `0x1963` for
mirrored unless `dir` is 1, `lcd_set_cursor` only if `dir` is 0. -/
theorem window_cursor_other {lcddev : LcdDev} (ho : Oriented lcddev) (hid : lcddev.id = 0x1963)
    (h0 : lcddev.dir ≠ 0) (h1 : lcddev.dir ≠ 1) {sx sy width height : U16}
    (hw : 1 ≤ width.toNat) (hh : 1 ≤ height.toNat)
    (hx : sx.toNat + width.toNat ≤ lcddev.width.toNat)
    (hy : sy.toNat + height.toNat ≤ lcddev.height.toNat) (c : Ctrl) :
    (columns lcddev (decode lcddev.id (lcdSetWindow lcddev sx sy width height) c)).first =
        lcddev.width.toNat - width.toNat - sx.toNat ∧
      (columns lcddev (decode lcddev.id (lcdSetCursor lcddev sx sy) c)).first = sx.toNat := by
  obtain ⟨hx1, -⟩ := setWindow_ranges ho c hw hh hx hy
  obtain ⟨hc1, -⟩ := @setCursor_ranges lcddev ho c sx sy (by omega) (by omega)
  rw [if_pos ⟨hid, h1⟩] at hx1
  rw [if_neg fun hm => h0 hm.2] at hc1
  exact ⟨hx1, hc1⟩

end RtosExample.Lcd.Ranges
