import RtosExample.Lcd.Text
import RtosExample.Lcd.Controller
import RtosExample.Lib.Runs

/-! # Calls of the LCD functions

The public functions as actions on `lcddev` and the wire to the controller. `exec_send` says once
what a call does to the two: it sends accesses, of one of the shapes of `Call.Sends`, and only
`lcd_display_dir` and `lcd_scan_dir` change `lcddev`. -/

namespace RtosExample.Lcd.Calls

open RtosExample.Cint RtosExample.Lib.Runs RtosExample.Lcd.Dev RtosExample.Lcd.Draw
open RtosExample.Lcd.Text RtosExample.Lcd.Controller

/-- A call that draws. -/
inductive Drawing
  | point (x y : U16) (color : U32)
  | clear (color : U16)
  | fill (sx sy ex ey : U16) (color : U32)
  | colorFill (sx sy ex ey : U16) (color : ℕ → U16)
  | line (x1 y1 x2 y2 color : U16)
  | hline (x y len color : U16)
  | rectangle (x1 y1 x2 y2 color : U16)
  | circle (x0 y0 : U16) (r : U8) (color : U16)
  | fillCircle (x y r color : U16)
  | char (x y : U16) (chr size mode : U8) (color : U16)
  | num (x y : U16) (n : U32) (len size : U8) (color : U16)
  | xnum (x y : U16) (n : U32) (len size mode : U8) (color : U16)
  | string (x y width height : U16) (size : U8) (p : List U8) (color : U16)

/-- A call. -/
inductive Call
  | displayDir (dir : U8)
  | scanDir (dir : U8)
  | setWindow (sx sy width height : U16)
  | readPoint (x y : U16)
  | draw (d : Drawing)

/-- The spans of a call that draws; `none` if it does not come back. -/
def Drawing.spans (env : TextEnv) (lcddev : LcdDev) : Drawing → Option (List Span)
  | .point x y color => some (lcdDrawPoint x y color)
  | .clear color => some (lcdClear lcddev color)
  | .fill sx sy ex ey color => lcdFill sx sy ex ey color
  | .colorFill sx sy ex ey color => some (lcdColorFill sx sy ex ey color)
  | .line x1 y1 x2 y2 color => lcdDrawLine x1 y1 x2 y2 color
  | .hline x y len color => lcdDrawHline lcddev x y len color
  | .rectangle x1 y1 x2 y2 color => lcdDrawRectangle x1 y1 x2 y2 color
  | .circle x0 y0 r color => lcdDrawCircle x0 y0 r color
  | .fillCircle x y r color => lcdFillCircle lcddev x y r color
  | .char x y chr size mode color => some (lcdShowChar env lcddev x y chr size mode color)
  | .num x y n len size color => some (lcdShowNum env lcddev x y n len size color)
  | .xnum x y n len size mode color => some (lcdShowXnum env lcddev x y n len size mode color)
  | .string x y width height size p color =>
    some (lcdShowString env lcddev x y width height size p color)

variable {σ : Type} (P : Port σ) (env : TextEnv)

/-- A call, from `lcddev` and the wire to `lcddev` and the wire. -/
def Call.exec (c : Call) (s : LcdDev × Wire σ) : Option (LcdDev × Wire σ) :=
  match c with
  | .displayDir dir => some ((lcdDisplayDir s.1 dir).1, send P (lcdDisplayDir s.1 dir).2 s.2)
  | .scanDir dir => some ((lcdScanDir s.1 dir).1, send P (lcdScanDir s.1 dir).2 s.2)
  | .setWindow sx sy width height => some (s.1, send P (lcdSetWindow s.1 sx sy width height) s.2)
  | .readPoint x y => some (s.1, (lcdReadPoint P s.1 x y s.2).2)
  | .draw d => (d.spans env s.1).map fun spans => (s.1, send P (paint s.1 spans) s.2)

/-- The value of `lcddev` after a call. -/
def Call.dev (lcddev : LcdDev) : Call → LcdDev
  | .displayDir dir => (lcdDisplayDir lcddev dir).1
  | .scanDir dir => (lcdScanDir lcddev dir).1
  | _ => lcddev

/-- The accesses that a call may send. -/
def Call.Sends (lcddev : LcdDev) (ops : List BusOp) : Call → Prop
  | .displayDir dir => ops = (lcdDisplayDir lcddev dir).2
  | .scanDir dir => ops = (lcdScanDir lcddev dir).2
  | .setWindow sx sy width height => ops = lcdSetWindow lcddev sx sy width height
  | .readPoint x y => ops = [] ∨ ∃ v n, ops = lcdSetCursor lcddev x y ++ [.reg v] ++
      List.replicate n .rd
  | .draw _ => ∃ spans, ops = paint lcddev spans

/-- `lcd_read_point` sends the cursor, the read command and some reads, or nothing. -/
theorem readPoint_send (lcddev : LcdDev) (x y : U16) (w : Wire σ) :
    ∃ ops, (lcdReadPoint P lcddev x y w).2 = send P ops w ∧
      (Call.readPoint x y).Sends lcddev ops := by
  unfold lcdReadPoint
  by_cases ho : x ≥ lcddev.width ∨ y ≥ lcddev.height
  · rw [if_pos ho]
    exact ⟨[], by simp [send], Or.inl rfl⟩
  rw [if_neg ho]
  set v : U16 := if lcddev.id = 0x5510 then 0x2E00 else 0x2E
  by_cases h1 : lcddev.id = 0x1963
  · refine ⟨_, ?_, Or.inr ⟨v, 1, rfl⟩⟩
    simp only [if_pos h1, lcdRdData, send_append, List.replicate]
  by_cases h2 : lcddev.id = 0x7796
  · refine ⟨_, ?_, Or.inr ⟨v, 2, rfl⟩⟩
    simp only [if_neg h1, if_pos h2, lcdRdData, ← send_append]
    rw [List.append_assoc, List.append_assoc, List.append_assoc]
    rfl
  · refine ⟨_, ?_, Or.inr ⟨v, 3, rfl⟩⟩
    simp only [if_neg h1, if_neg h2, lcdRdData, ← send_append]
    rw [List.append_assoc, List.append_assoc, List.append_assoc, List.append_assoc]
    rfl

/-- **What a call does.** -/
theorem exec_send {c : Call} {s s' : LcdDev × Wire σ} (h : c.exec P env s = some s') :
    ∃ ops, s' = (c.dev s.1, send P ops s.2) ∧ c.Sends s.1 ops := by
  cases c with
  | displayDir dir =>
    cases h
    exact ⟨_, rfl, rfl⟩
  | scanDir dir =>
    cases h
    exact ⟨_, rfl, rfl⟩
  | setWindow sx sy width height =>
    cases h
    exact ⟨_, rfl, rfl⟩
  | readPoint x y =>
    obtain ⟨ops, hw, hs⟩ := readPoint_send P s.1 x y s.2
    cases h
    exact ⟨ops, by rw [hw]; rfl, hs⟩
  | draw d =>
    obtain ⟨spans, -, rfl⟩ := Option.map_eq_some_iff.mp h
    exact ⟨_, rfl, spans, rfl⟩

/-! ### A controller to start from -/

/-- Fonts without a dot, and the background colour of the sources. -/
def plain : TextEnv where
  asc2_1206 _ _ := 0
  asc2_1608 _ _ := 0
  asc2_2412 _ _ := 0
  asc2_3216 _ _ := 0
  g_back_color := 0xFFFF

/-- `lcddev` before `lcd_display_dir`: the identity is known, the rest is still zero. -/
def started (id : U16) : LcdDev :=
  { width := 0, height := 0, id := id, dir := 0, wramcmd := 0, setxcmd := 0, setycmd := 0 }

/-- A controller that shows one colour, and no access so far. -/
def shows (color : U16) : Wire Panel where
  panel :=
    { ctrl := { cmd := 0, args := 0, col := ⟨0, 0, 0, 0⟩, row := ⟨0, 0, 0, 0⟩, madctl := 0 }
      ptr := (0, 0), gram := fun _ => color, taken := 0, clock := 0 }
  log := []

end RtosExample.Lcd.Calls
