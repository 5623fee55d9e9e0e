import Mathlib.Tactic.IntervalCases
import RtosExample.Lcd.Calls

/-! # The screen as a memory

`lcd_draw_point` cuts a colour to five, six and five bits, and the cursor to bytes; `lcd_read_point`
comes back with the colour through another command, three reads (two from a `0x7796`) and shifts.

* `word_pixel`: the shifts undo the packing of the controller, whatever its filler bits.
* `drawPoint_gram`, `readPoint_inside`: the two functions write and read one address.
* `readPoint_last`: after any points, what is read is the last colour drawn there. -/

namespace RtosExample.Lcd.Screen

open RtosExample.Cint RtosExample.Lib.Memory RtosExample.Lib.Raster RtosExample.Lib.Runs
open RtosExample.Lcd.Dev RtosExample.Lcd.Draw RtosExample.Lcd.Text RtosExample.Lcd.Controller
open RtosExample.Lcd.Calls

theorem word_pixel (pixel n₁ n₂ : U16) :
    (word1 pixel n₁ >>> 11 <<< 11) ||| ((word1 pixel n₁ &&& 0xFF) <<< 8 >>> 10 <<< 5) |||
      (word2 pixel n₂ >>> 11) = pixel := by
  apply BitVec.eq_of_getLsbD_eq
  intro i hi
  simp only [word1, word2, BitVec.getLsbD_or, BitVec.getLsbD_and, BitVec.getLsbD_shiftLeft,
    BitVec.getLsbD_ushiftRight]
  interval_cases i <;> simp

/-! ### One call -/

section

variable {lcddev : LcdDev} (hid : lcddev.id ≠ 0x1963) (hc : Commands lcddev) (noise : ℕ → U16)
  (w : Wire Panel)

include hid hc

/-- **`lcd_draw_point` writes one pixel**, wherever the window ends. -/
theorem drawPoint_gram (x y : U16) (color : U32) :
    (send (port lcddev.id noise) (paint lcddev (lcdDrawPoint x y color)) w).panel.gram =
      Function.update w.panel.gram (x.toNat, y.toNat) (color.setWidth 16) := by
  obtain ⟨ctrl, ptr, h⟩ := port_span hid hc noise ⟨x, y, [color.setWidth 16]⟩ w.panel rfl
  rw [send_panel, lcdDrawPoint, paint_cons, paint_nil, List.append_nil, h]
  rfl

/-- **`lcd_read_point` reads one pixel** of the screen. -/
theorem readPoint_inside {x y : U16} (hx : x < lcddev.width) (hy : y < lcddev.height) :
    (lcdReadPoint (port lcddev.id noise) lcddev x y w).1 =
      (w.panel.gram (x.toNat, y.toNat)).setWidth 32 := by
  have ho : ¬ (x ≥ lcddev.width ∨ y ≥ lcddev.height) := by
    rw [not_or, ge_iff_le, ge_iff_le, BitVec.not_le, BitVec.not_le]
    exact ⟨hx, hy⟩
  have hcur := port_cursor hid hc noise x y (v := readCmd lcddev.id) (.inr rfl) w.panel
  rw [← send_panel, send_append, readCmd] at hcur
  simp only [lcdReadPoint, if_neg ho, if_neg hid, lcdRdData]
  generalize send _ [BusOp.reg _] _ = w₁ at hcur ⊢
  by_cases h : lcddev.id = 0x7796
  · simp only [if_pos h, send_panel, List.foldl_cons, List.foldl_nil, hcur]
    simp only [port, Port.access, Panel.word, if_pos h]
  · simp only [if_neg h, send_panel, List.foldl_cons, List.foldl_nil, hcur]
    simp only [port, Port.access, Panel.word, if_neg h, word_pixel]

end

/-! ### Any points -/

/-- The arguments of a call of `lcd_draw_point`. -/
structure Point where
  x : U16
  y : U16
  color : U32

def Point.call (p : Point) : Call := .draw (.point p.x p.y p.color)

/-- The pixel that a point writes. -/
def Point.write (p : Point) : (ℕ × ℕ) × U16 := ((p.x.toNat, p.y.toNat), p.color.setWidth 16)

/-- The last colour drawn at `(x, y)`. -/
def lastColor (points : List Point) (x y : U16) : Option U32 :=
  ((points.filter fun p => p.x = x ∧ p.y = y).getLast?).map Point.color

theorem writes_points (points : List Point) (x y : U16) (mem : ℕ × ℕ → U16) :
    writes (points.map Point.write) mem (x.toNat, y.toNat) =
      ((lastColor points x y).map (BitVec.setWidth 16)).getD (mem (x.toNat, y.toNat)) := by
  have hat : ((fun ws : (ℕ × ℕ) × U16 => decide (ws.1 = (x.toNat, y.toNat))) ∘ Point.write) =
      fun p : Point => decide (p.x = x ∧ p.y = y) := by
    funext p
    simp only [Function.comp_apply, Point.write, Prod.mk.injEq, BitVec.toNat_inj]
  rw [writes_apply, List.filter_map, hat, List.getLast?_map, lastColor, Option.map_map,
    Option.map_map]
  rfl

section

variable {lcddev : LcdDev} (hid : lcddev.id ≠ 0x1963) (hc : Commands lcddev) (noise : ℕ → U16)
  (env : TextEnv)

include hid hc

theorem run_points : ∀ (points : List Point) (w : Wire Panel),
    ∃ w', run (Call.exec (port lcddev.id noise) env) (points.map Point.call) (lcddev, w) =
        some (lcddev, w') ∧
      w'.panel.gram = writes (points.map Point.write) w.panel.gram
  | [], w => ⟨w, rfl, rfl⟩
  | p :: points, w => by
    have hp := drawPoint_gram hid hc noise w p.x p.y p.color
    obtain ⟨w', hrun, hgram⟩ := run_points points
      (send (port lcddev.id noise) (paint lcddev (lcdDrawPoint p.x p.y p.color)) w)
    refine ⟨w', (run_cons _).mpr ⟨_, rfl, hrun⟩, ?_⟩
    rw [hgram, hp]
    rfl

/-- **The screen is a memory.** After any points, `lcd_read_point` returns the low half of the last
colour drawn there (and what was stored before where none was); outside the screen it returns 0 and
sends nothing. The commands of `lcddev` are those that `lcd_display_dir` stores. -/
theorem readPoint_last (w : Wire Panel) (points : List Point) (x y : U16) :
    ∃ w', run (Call.exec (port lcddev.id noise) env) (points.map Point.call) (lcddev, w) =
        some (lcddev, w') ∧
      (x < lcddev.width → y < lcddev.height →
        (∀ color, lastColor points x y = some color →
          (lcdReadPoint (port lcddev.id noise) lcddev x y w').1 = color &&& 0xFFFF) ∧
        (lastColor points x y = none →
          (lcdReadPoint (port lcddev.id noise) lcddev x y w').1 =
            (w.panel.gram (x.toNat, y.toNat)).setWidth 32)) ∧
      (x ≥ lcddev.width ∨ y ≥ lcddev.height →
        lcdReadPoint (port lcddev.id noise) lcddev x y w' = (0, w')) := by
  obtain ⟨w', hrun, hgram⟩ := run_points hid hc noise env points w
  refine ⟨w', hrun, fun hx hy => ?_, fun ho => if_pos ho⟩
  rw [readPoint_inside hid hc noise w' hx hy, hgram, writes_points]
  constructor
  · intro color hcolor
    rw [hcolor, Option.map_some, Option.getD_some]
    apply BitVec.eq_of_toNat_eq
    rw [BitVec.toNat_setWidth, BitVec.toNat_setWidth, BitVec.toNat_and]
    change _ = color.toNat &&& 2 ^ 16 - 1
    rw [Nat.and_two_pow_sub_one_eq_mod]
    omega
  · intro hnone
    rw [hnone, Option.map_none, Option.getD_none]

end

/-- Two points at one place and one beside them. -/
theorem readPoint_last_twice :
    ∃ w', run (Call.exec (port 0x9341 fun n => n) plain)
        ([⟨10, 20, 0xF81F⟩, ⟨10, 20, 0x123456⟩, ⟨20, 10, 0x07E0⟩].map Point.call)
        (displayDev (started 0x9341) 0, shows 0) = some (displayDev (started 0x9341) 0, w') ∧
      (lcdReadPoint (port 0x9341 fun n => n) (displayDev (started 0x9341) 0) 10 20 w').1
        = 0x3456 := by
  obtain ⟨w', hrun, hin, -⟩ :=
    @readPoint_last (displayDev (started 0x9341) 0) (by decide) ⟨rfl, rfl, rfl⟩
      (fun n => n) plain (shows 0) [⟨10, 20, 0xF81F⟩, ⟨10, 20, 0x123456⟩, ⟨20, 10, 0x07E0⟩] 10 20
  exact ⟨w', hrun, (hin (by decide) (by decide)).1 0x123456 (by decide)⟩

end RtosExample.Lcd.Screen
