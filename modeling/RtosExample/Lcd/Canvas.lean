import RtosExample.Lcd.Geometry

/-! # The canvas

What a list of spans does to a picture, without the controller: the words of a span go to the pixels
of a row, one after the other. The memory of the controller does the same as long as no span passes
the right edge of the screen (`paint_gram`); a single pixel may be anywhere.

* `canvas`, `changes_iff`: the picture, and the pixels that may change.
* `Full`: the window is the whole screen, as after `lcd_display_dir`.
* `paint_gram`: the controller refines the canvas. -/

namespace RtosExample.Lcd.Canvas

open RtosExample.Cint RtosExample.Lib.Memory RtosExample.Lib.Raster RtosExample.Lcd.Dev
open RtosExample.Lcd.Draw RtosExample.Lcd.Text RtosExample.Lcd.Controller RtosExample.Lcd.Calls
open RtosExample.Lcd.Geometry

/-! ### The picture -/

/-- The words of a row from a column on. -/
def row (x y : ℕ) : List U16 → List ((ℕ × ℕ) × U16)
  | [] => []
  | c :: cs => ((x, y), c) :: row (x + 1) y cs

def Span.pixels (s : Span) : List ((ℕ × ℕ) × U16) := row s.x.toNat s.y.toNat s.colors

/-- The pixels that a list of spans writes. -/
def pixels (spans : List Span) : List ((ℕ × ℕ) × U16) := spans.flatMap Span.pixels

/-- **The picture** after a list of spans. -/
def canvas (spans : List Span) (mem : ℕ × ℕ → U16) : ℕ × ℕ → U16 := writes (pixels spans) mem

theorem mem_row {x y : ℕ} {colors : List U16} {p : ℕ × ℕ} {c : U16} :
    (p, c) ∈ row x y colors ↔ p.2 = y ∧ ∃ k, p.1 = x + k ∧ colors[k]? = some c := by
  induction colors generalizing x with
  | nil => simp [row]
  | cons b colors ih =>
    obtain ⟨px, py⟩ := p
    rw [row, List.mem_cons, ih, Prod.mk.injEq, Prod.mk.injEq]
    simp only
    constructor
    · rintro (⟨⟨rfl, rfl⟩, rfl⟩ | ⟨rfl, k, rfl, hk⟩)
      · exact ⟨rfl, 0, rfl, rfl⟩
      · exact ⟨rfl, k + 1, by omega, hk⟩
    · rintro ⟨rfl, _ | k, rfl, hk⟩
      · exact Or.inl ⟨⟨rfl, rfl⟩, (Option.some.inj hk).symm⟩
      · exact Or.inr ⟨rfl, k, by omega, hk⟩

theorem mem_pixels {spans : List Span} {p : ℕ × ℕ} {c : U16} :
    (p, c) ∈ pixels spans ↔
      ∃ s ∈ spans, p.2 = s.y.toNat ∧ ∃ k, p.1 = s.x.toNat + k ∧ s.colors[k]? = some c := by
  simp only [pixels, List.mem_flatMap, Span.pixels, mem_row]

@[simp] theorem pixels_nil : pixels [] = [] := rfl

@[simp] theorem pixels_append (s t : List Span) : pixels (s ++ t) = pixels s ++ pixels t :=
  List.flatMap_append

theorem mem_pixels_flatMap {α : Type} {l : List α} {f : α → List Span} {w : (ℕ × ℕ) × U16} :
    w ∈ pixels (l.flatMap f) ↔ ∃ a ∈ l, w ∈ pixels (f a) := by
  rw [pixels, List.flatMap_assoc, List.mem_flatMap]
  rfl

theorem canvas_cons (s : Span) (spans : List Span) (mem : ℕ × ℕ → U16) :
    canvas (s :: spans) mem =
      canvas spans (writes (row s.x.toNat s.y.toNat s.colors) mem) := by
  rw [canvas, pixels, List.flatMap_cons, writes_append]
  rfl

instance : Nontrivial U16 := ⟨0, 1, by decide⟩

/-- The pixel changes in some picture. -/
def Changes (spans : List Span) (p : ℕ × ℕ) : Prop := ∃ mem, canvas spans mem p ≠ mem p

theorem changes_iff {spans : List Span} {p : ℕ × ℕ} :
    Changes spans p ↔ ∃ c, (p, c) ∈ pixels spans := by
  unfold Changes canvas
  rw [writes_changes_iff]
  constructor
  · rintro ⟨⟨q, c⟩, hw, rfl⟩
    exact ⟨c, hw⟩
  · rintro ⟨c, hw⟩
    exact ⟨_, hw, rfl⟩

/-! ### The controller -/

/-- **The window is the whole screen.** -/
structure Full (lcddev : LcdDev) (c : Ctrl) : Prop where
  commands : Commands lcddev
  right : c.col.last + 1 = lcddev.width.toNat
  bottom : c.row.last + 1 = lcddev.height.toNat

theorem inStep_full {lcddev : LcdDev} {c : Ctrl} (h : InStep lcddev c) : Full lcddev c := by
  obtain ⟨hw, hh⟩ := h.pos
  refine ⟨h.commands, ?_, ?_⟩
  · rw [h.right]
    omega
  · rw [h.bottom]
    omega

theorem full_paint {lcddev : LcdDev} (hid : lcddev.id ≠ 0x1963) {c : Ctrl} (h : Full lcddev c)
    (spans : List Span) : Full lcddev (decode lcddev.id (paint lcddev spans) c) := by
  obtain ⟨hcol, hrow, -⟩ := decode_paint hid h.commands spans c
  exact ⟨h.commands, by rw [hcol, h.right], by rw [hrow, h.bottom]⟩

/-- The span is one pixel, or ends on the screen. -/
def Flat (width : ℕ) (s : Span) : Prop :=
  s.colors.length ≤ 1 ∨ s.x.toNat + s.colors.length ≤ width

theorem store_row {w : Window} (y : ℕ) : ∀ (colors : List U16) (x : ℕ) (mem : ℕ × ℕ → U16),
    colors.length ≤ 1 ∨ x + colors.length ≤ w.ex + 1 →
    store w.next colors (x, y) mem = writes (row x y colors) mem
  | [], _, _, _ => rfl
  | [c], _, _, _ => rfl
  | c :: d :: colors, x, mem, h => by
    have hlen : x + ((d :: colors).length + 1) ≤ w.ex + 1 := by
      rcases h with h | h
      · simp at h
      · exact h
    have hnext : w.next (x, y) = (x + 1, y) := by
      rw [List.length_cons] at hlen
      rw [Window.next, if_neg (show x ≠ w.ex by omega)]
    rw [store, hnext, store_row y (d :: colors) (x + 1) _ (Or.inr (by omega))]
    rfl

section

variable {lcddev : LcdDev} (hid : lcddev.id ≠ 0x1963) (noise : ℕ → U16)

include hid

/-- **The controller refines the canvas.** -/
theorem paint_gram : ∀ (spans : List Span) {p : Panel}, Full lcddev p.ctrl →
    (∀ s ∈ spans, Flat lcddev.width.toNat s) →
    ((paint lcddev spans).foldl (port lcddev.id noise).access p).gram = canvas spans p.gram
  | [], _, _, _ => rfl
  | s :: spans, p, h, hflat => by
    obtain ⟨hs, hspans⟩ := List.forall_mem_cons.mp hflat
    have hfull := full_paint hid h [s]
    rw [← port_ctrl lcddev.id noise] at hfull
    obtain ⟨ctrl, ptr, hspan⟩ := port_span hid h.commands noise s p rfl
    rw [paint_cons, paint_nil, List.append_nil, hspan] at hfull
    rw [paint_cons, List.foldl_append, hspan, paint_gram spans hfull hspans]
    rw [canvas_cons, store_row s.y.toNat s.colors s.x.toNat p.gram (by rw [h.right]; exact hs)]

/-- The memory of the controller after a call that draws; `none` if the call does not come back. -/
def drawn (lcddev : LcdDev) (noise : ℕ → U16) (env : TextEnv) (w : Wire Panel) (d : Drawing) :
    Option (ℕ × ℕ → U16) :=
  ((Call.draw d).exec (port lcddev.id noise) env (lcddev, w)).map fun s => s.2.panel.gram

omit hid in
theorem drawn_spans (env : TextEnv) (w : Wire Panel) {d : Drawing} {spans : List Span}
    (hd : d.spans env lcddev = some spans) :
    drawn lcddev noise env w d =
      some ((paint lcddev spans).foldl (port lcddev.id noise).access w.panel).gram := by
  simp only [drawn, Call.exec, hd, Option.map_some, send_panel]

theorem drawn_canvas (env : TextEnv) {w : Wire Panel} (h : Full lcddev w.panel.ctrl) {d : Drawing}
    {spans : List Span} (hd : d.spans env lcddev = some spans)
    (hflat : ∀ s ∈ spans, Flat lcddev.width.toNat s) :
    drawn lcddev noise env w d = some (canvas spans w.panel.gram) := by
  rw [drawn_spans noise env w hd, paint_gram hid noise spans h hflat]

end

/-! ### A screen to draw on -/

/-- The screen that `lcd_display_dir(0)` leaves, black. -/
def upright : LcdDev := (lcdDisplayDir (started 0x9341) 0).1

def black : Wire Panel :=
  send (port 0x9341 fun _ => 0) (lcdDisplayDir (started 0x9341) 0).2 (shows 0)

theorem upright_full : Full upright black.panel.ctrl := by
  rw [black, send_panel, port_ctrl]
  exact inStep_full (@displayDir_inStep (started 0x9341) (by decide) 0 _).1

theorem upright_sides : Sides upright := scanSwap_sides (displayDev_sides (started 0x9341) 0) _

end RtosExample.Lcd.Canvas
