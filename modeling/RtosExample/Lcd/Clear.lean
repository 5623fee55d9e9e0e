import RtosExample.Lcd.Geometry

/-! # Clearing the screen

`lcd_clear` sets the cursor to the corner and writes as many pixels as the screen has. The cursor
says where the window starts, not where it ends, so after an `lcd_set_window` that stops short of
the last column or row the pixels go round in a smaller window.

* `windowEnd`, `runEnd`: where the window ends after a call and after a run.
* `bounded_step`, `bounded_run`: the controller has just these ends, and they lie on the screen.
* `clear_gram`: what `lcd_clear` does to the memory.
* `clear_iff`: when it clears the screen. -/

namespace RtosExample.Lcd.Clear

open RtosExample.Cint RtosExample.Lib.Memory RtosExample.Lib.Raster RtosExample.Lib.Runs
open RtosExample.Lcd.Dev RtosExample.Lcd.Draw RtosExample.Lcd.Text RtosExample.Lcd.Controller
open RtosExample.Lcd.Calls RtosExample.Lcd.Geometry

/-! ### The ends of the window -/

/-- The last column and row of the screen. -/
def lastPixel (lcddev : LcdDev) : ℕ × ℕ := (lcddev.width.toNat - 1, lcddev.height.toNat - 1)

/-- The arguments of `lcd_set_window` name a window of the screen. -/
def OnScreen (lcddev : LcdDev) : Call → Prop
  | .setWindow sx sy width height =>
    0 < width.toNat ∧ 0 < height.toNat ∧ sx.toNat + width.toNat ≤ lcddev.width.toNat ∧
      sy.toNat + height.toNat ≤ lcddev.height.toNat
  | _ => True

/-- The last column and row of the window after a call, if they were `e` before. -/
def windowEnd (lcddev : LcdDev) (e : ℕ × ℕ) : Call → ℕ × ℕ
  | .displayDir dir => lastPixel (lcdDisplayDir lcddev dir).1
  | .scanDir dir => lastPixel (lcdScanDir lcddev dir).1
  | .setWindow sx sy width height =>
    (sx.toNat + width.toNat - 1, sy.toNat + height.toNat - 1)
  | _ => e

/-- Every call of the list is `OnScreen` where it is made. -/
def RunOnScreen : LcdDev → List Call → Prop
  | _, [] => True
  | lcddev, c :: calls => OnScreen lcddev c ∧ RunOnScreen (c.dev lcddev) calls

/-- The last column and row of the window after a list of calls. -/
def runEnd : LcdDev → ℕ × ℕ → List Call → ℕ × ℕ
  | _, e, [] => e
  | lcddev, e, c :: calls => runEnd (c.dev lcddev) (windowEnd lcddev e c) calls

/-- **The window ends at `e`**, and that is on the screen. -/
structure Bounded (lcddev : LcdDev) (c : Ctrl) (e : ℕ × ℕ) : Prop extends Ready lcddev where
  col : c.col.last = e.1
  row : c.row.last = e.2
  right : e.1 < lcddev.width.toNat
  bottom : e.2 < lcddev.height.toNat

theorem inStep_bounded {lcddev : LcdDev} {c : Ctrl} (h : InStep lcddev c) :
    Bounded lcddev c (lastPixel lcddev) := by
  obtain ⟨hw, hh⟩ := h.pos
  exact ⟨h.toReady, h.right, h.bottom, by simp only [lastPixel]; omega,
    by simp only [lastPixel]; omega⟩

theorem toNat_end {s n m : U16} (hn : 0 < n.toNat) (h : s.toNat + n.toNat ≤ m.toNat) :
    (int (u16 (int s + int n - 1))).toNat = s.toNat + n.toNat - 1 := by
  have hm := m.isLt
  unfold int u16
  rw [Int.toNat_natCast, BitVec.toNat_ofInt]
  omega

theorem bounded_step {lcddev : LcdDev} (hid : lcddev.id ≠ 0x1963) {c : Call}
    (hc : OnScreen lcddev c) {ops : List BusOp} (hs : c.Sends lcddev ops) {ctrl : Ctrl}
    {e : ℕ × ℕ} (h : Bounded lcddev ctrl e) :
    Bounded (c.dev lcddev) (decode lcddev.id ops ctrl) (windowEnd lcddev e c) ∧
      (c.dev lcddev).id = lcddev.id := by
  have hpixels : Call.IsPixels c →
      Bounded (c.dev lcddev) (decode lcddev.id ops ctrl) e ∧ (c.dev lcddev).id = lcddev.id := by
    intro hp
    obtain ⟨hdev, hcol, hrow, -⟩ := pixels_keep hid h.commands hp hs ctrl
    rw [hdev]
    exact ⟨⟨h.toReady, hcol.trans h.col, hrow.trans h.row, h.right, h.bottom⟩, rfl⟩
  cases c with
  | displayDir dir =>
    obtain rfl := hs
    obtain ⟨hstep, hsame⟩ := displayDir_inStep hid dir ctrl
    exact ⟨inStep_bounded hstep, hsame⟩
  | scanDir dir =>
    obtain rfl := hs
    obtain ⟨hstep, hsame⟩ := scanDir_inStep hid h.toReady dir ctrl
    exact ⟨inStep_bounded hstep, hsame⟩
  | setWindow sx sy width height =>
    obtain rfl := hs
    obtain ⟨hw, hh, hx, hy⟩ := hc
    obtain ⟨hcol, hrow, -⟩ := decode_setWindow h.commands ctrl (fun hm => hid hm.1) sx sy width
      height
    refine ⟨⟨h.toReady, ?_, ?_, ?_, ?_⟩, rfl⟩
    · rw [hcol, last_setAll (by unfold int; omega) (by unfold int; omega), toNat_end hw hx]
      rfl
    · rw [hrow, last_setAll (by unfold int; omega) (by unfold int; omega), toNat_end hh hy]
      rfl
    · simp only [windowEnd, Call.dev]
      omega
    · simp only [windowEnd, Call.dev]
      omega
  | readPoint x y => exact hpixels trivial
  | draw d => exact hpixels trivial

/-! ### The runs -/

/-- A call of `lcd_clear` leaves every pixel of the screen in the colour. -/
def Clears (P : Port Panel) (env : TextEnv) (s : LcdDev × Wire Panel) (color : U16) : Prop :=
  ∃ t, (Call.draw (.clear color)).exec P env s = some t ∧
    ∀ px py : ℕ, px < t.1.width.toNat → py < t.1.height.toNat → t.2.panel.gram (px, py) = color

theorem totalpoint_toNat (width height : U16) :
    (width.setWidth 32 * height.setWidth 32 : U32).toNat = width.toNat * height.toNat := by
  have hw := width.isLt
  have hh := height.isLt
  have hwh : width.toNat * height.toNat ≤ 65535 * 65535 :=
    Nat.mul_le_mul (by omega) (by omega)
  rw [BitVec.toNat_mul, BitVec.toNat_setWidth, BitVec.toNat_setWidth,
    Nat.mod_eq_of_lt (show width.toNat < 2 ^ 32 by omega),
    Nat.mod_eq_of_lt (show height.toNat < 2 ^ 32 by omega), Nat.mod_eq_of_lt (by omega)]

section

variable {id : U16} (hid : id ≠ 0x1963) (noise : ℕ → U16) (env : TextEnv)

include hid

theorem bounded_run : ∀ {calls : List Call} {s t : LcdDev × Wire Panel} {e : ℕ × ℕ},
    RunOnScreen s.1 calls → s.1.id = id → Bounded s.1 s.2.panel.ctrl e →
    run (Call.exec (port id noise) env) calls s = some t →
    t.1.id = id ∧ Bounded t.1 t.2.panel.ctrl (runEnd s.1 e calls)
  | [], s, t, e, _, hsame, h, hrun => by
    cases hrun
    exact ⟨hsame, h⟩
  | c :: calls, s, t, e, ⟨hc, hcalls⟩, hsame, h, hrun => by
    obtain ⟨s', hexec, hrest⟩ := (run_cons _).mp hrun
    obtain ⟨ops, rfl, hsends⟩ := exec_send _ env hexec
    obtain ⟨h', hsame'⟩ := bounded_step (by rw [hsame]; exact hid) hc hsends h
    rw [hsame, ← port_ctrl id noise] at h'
    exact bounded_run (s := (c.dev s.1, send _ ops s.2)) hcalls (hsame'.trans hsame) h' hrest

theorem bounded_from_displayDir {lcddev : LcdDev} (hsame : lcddev.id = id) {w : Wire Panel}
    {dir : U8} {calls : List Call} {s : LcdDev × Wire Panel}
    (hcalls : RunOnScreen (lcdDisplayDir lcddev dir).1 calls)
    (hrun : run (Call.exec (port id noise) env) (.displayDir dir :: calls) (lcddev, w) = some s) :
    s.1.id = id ∧ Bounded s.1 s.2.panel.ctrl (runEnd lcddev (0, 0) (.displayDir dir :: calls)) := by
  subst hsame
  obtain ⟨s', hexec, hrest⟩ := (run_cons _).mp hrun
  cases hexec
  obtain ⟨hstep, hsame⟩ := displayDir_inStep hid dir w.panel.ctrl
  rw [← port_ctrl lcddev.id noise] at hstep
  exact bounded_run hid noise env
    (s := ((lcdDisplayDir lcddev dir).1,
      send (port lcddev.id noise) (lcdDisplayDir lcddev dir).2 w))
    hcalls hsame (inStep_bounded hstep) hrest

/-- **What `lcd_clear` does**: it paints what lies in the window, and nothing else. -/
theorem clear_gram {lcddev : LcdDev} (hsame : lcddev.id = id) {w : Wire Panel} {e : ℕ × ℕ}
    (h : Bounded lcddev w.panel.ctrl e) (color : U16) (px py : ℕ) :
    (send (port id noise) (paint lcddev (lcdClear lcddev color)) w).panel.gram (px, py) =
      if px ≤ e.1 ∧ py ≤ e.2 then color else w.panel.gram (px, py) := by
  subst hsame
  obtain ⟨ctrl, ptr, hspan⟩ := port_span hid h.commands noise
    ⟨0, 0, List.replicate (lcddev.width.setWidth 32 * lcddev.height.setWidth 32 : U32).toNat color⟩
    w.panel (w := ⟨0, e.1, 0, e.2⟩) (by rw [h.col, h.row]; rfl)
  rw [send_panel, lcdClear, paint_cons, paint_nil, List.append_nil, hspan, totalpoint_toNat]
  change store _ _ (0, 0) w.panel.gram (px, py) = _
  split_ifs with hin
  · obtain ⟨k, hk, hp⟩ := exists_iterate (w := ⟨0, e.1, 0, e.2⟩)
      (p := (px, py)) ⟨Nat.zero_le _, hin.1, Nat.zero_le _, hin.2⟩
    refine store_replicate _ color _ (0, 0) _ ⟨k, ?_, hp⟩
    calc k < (e.1 - 0 + 1) * (e.2 - 0 + 1) := hk
      _ ≤ lcddev.width.toNat * lcddev.height.toNat := Nat.mul_le_mul h.right h.bottom
  · refine store_of_ne _ _ (0, 0) _ fun k _ hp => hin ?_
    obtain ⟨-, h1, -, h2⟩ := has_iterate (w := ⟨0, e.1, 0, e.2⟩) (Nat.zero_le _) (Nat.zero_le _) k
    rw [hp] at h1 h2
    exact ⟨h1, h2⟩

/-! ### When it clears the screen -/

theorem clears_iff {s : LcdDev × Wire Panel} {e : ℕ × ℕ} (hsame : s.1.id = id)
    (h : Bounded s.1 s.2.panel.ctrl e) (color : U16) :
    Clears (port id noise) env s color ↔
      ∀ px py : ℕ, px < s.1.width.toNat → py < s.1.height.toNat → e.1 < px ∨ e.2 < py →
        s.2.panel.gram (px, py) = color := by
  have hgram := clear_gram hid noise hsame h color
  constructor
  · rintro ⟨t, ht, hpixels⟩ px py hx hy hout
    cases ht
    have hcolor := hpixels px py hx hy
    rw [hgram, if_neg (by omega)] at hcolor
    exact hcolor
  · intro hout
    refine ⟨_, rfl, fun px py hx hy => ?_⟩
    rw [hgram]
    split_ifs with hin
    · rfl
    · exact hout px py hx hy (by omega)

theorem clears_all_iff {s : LcdDev × Wire Panel} {e : ℕ × ℕ} (hsame : s.1.id = id)
    (h : Bounded s.1 s.2.panel.ctrl e) :
    (∀ color, Clears (port id noise) env s color) ↔ e = lastPixel s.1 := by
  have hright := h.right
  have hbottom := h.bottom
  simp only [clears_iff hid noise env hsame h]
  constructor
  · intro hall
    -- a pixel beyond the window would have two colours
    have hno : ∀ px py : ℕ, px < s.1.width.toNat → py < s.1.height.toNat →
        ¬ (e.1 < px ∨ e.2 < py) := by
      intro px py hx hy hout
      have h0 := hall 0 px py hx hy hout
      rw [hall 1 px py hx hy hout] at h0
      exact absurd h0 (by decide)
    have hcol := hno (s.1.width.toNat - 1) 0 (by omega) (by omega)
    have hrow := hno 0 (s.1.height.toNat - 1) (by omega) (by omega)
    exact Prod.ext (by simp only [lastPixel]; omega) (by simp only [lastPixel]; omega)
  · rintro rfl color px py hx hy hout
    simp only [lastPixel] at hout
    omega

end

variable (noise : ℕ → U16) (env : TextEnv)

/-- **When `lcd_clear` clears the screen**, after any run from `lcd_display_dir` on: for one colour,
exactly if the pixels beyond the window have it already; for every colour, exactly if the window
that the run leaves ends at the last column and row. -/
theorem clear_iff {lcddev : LcdDev} (hid : lcddev.id ≠ 0x1963) (w : Wire Panel) (dir : U8)
    (calls : List Call) (hcalls : RunOnScreen (lcdDisplayDir lcddev dir).1 calls)
    {s : LcdDev × Wire Panel}
    (hrun : run (Call.exec (port lcddev.id noise) env) (.displayDir dir :: calls) (lcddev, w) =
      some s) :
    (∀ color, Clears (port lcddev.id noise) env s color ↔
      ∀ px py : ℕ, px < s.1.width.toNat → py < s.1.height.toNat →
        (runEnd lcddev (0, 0) (.displayDir dir :: calls)).1 < px ∨
          (runEnd lcddev (0, 0) (.displayDir dir :: calls)).2 < py →
        s.2.panel.gram (px, py) = color) ∧
    ((∀ color, Clears (port lcddev.id noise) env s color) ↔
      runEnd lcddev (0, 0) (.displayDir dir :: calls) = lastPixel s.1) := by
  obtain ⟨hsame, h⟩ := bounded_from_displayDir hid noise env rfl hcalls hrun
  exact ⟨clears_iff hid noise env hsame h, clears_all_iff hid noise env hsame h⟩

/-- The theorem after a turn of the scan direction, which ends a smaller window. -/
theorem clear_iff_turn :
    ∃ s, run (Call.exec (port 0x9341 fun _ => 0) plain)
        [.displayDir 0, .setWindow 10 10 20 20, .scanDir 4] (started 0x9341, shows 0) = some s ∧
      ∀ color, Clears (port 0x9341 fun _ => 0) plain s color :=
  ⟨_, rfl, (@clear_iff (fun _ => 0) plain (started 0x9341) (by decide) (shows 0) 0
    [.setWindow 10 10 20 20, .scanDir 4]
    ⟨⟨by decide, by decide, by decide, by decide⟩, trivial, trivial⟩ _ rfl).2.mpr (by decide)⟩

/-- **A small window stays.** After `lcd_set_window(0, 0, 10, 10)` the pixel at `(100, 100)` is not
cleared. -/
theorem clear_after_window :
    ∃ s, run (Call.exec (port 0x9341 fun _ => 0) plain) [.displayDir 0, .setWindow 0 0 10 10]
        (started 0x9341, shows 0xFFFF) = some s ∧
      RunOnScreen (lcdDisplayDir (started 0x9341) 0).1 [.setWindow 0 0 10 10] ∧
      ¬ Clears (port 0x9341 fun _ => 0) plain s 0xF800 := by
  have hcalls : RunOnScreen (lcdDisplayDir (started 0x9341) 0).1 [.setWindow 0 0 10 10] :=
    ⟨⟨by decide, by decide, by decide, by decide⟩, trivial⟩
  refine ⟨_, rfl, hcalls, fun hclears => ?_⟩
  obtain ⟨hsame, h⟩ := bounded_from_displayDir (by decide) (fun _ => 0) plain
    (w := shows 0xFFFF) rfl hcalls rfl
  have hgram := (clears_iff (by decide) (fun _ => 0) plain hsame h 0xF800).mp hclears 100 100
    (by decide) (by decide) (by decide)
  exact absurd hgram (by decide)

end RtosExample.Lcd.Clear
