import RtosExample.Lcd.Calls

/-! # The geometry over whole runs

Three things describe the screen: the two sides in `lcddev`, the exchange bit of the controller's
direction register, and the window that the controller has programmed. They stay in step
(`InStep`) in every run that begins with `lcd_display_dir` and does without `lcd_set_window`:

* `scanDir_inStep`: `lcd_scan_dir` puts them in step, whatever the direction;
* `inStep_step`: every other call leaves them so, since drawing touches the window's start only;
* `geometry_invariant`: the runs. -/

namespace RtosExample.Lcd.Geometry

open RtosExample.Cint RtosExample.Lib.Runs RtosExample.Lcd.Dev RtosExample.Lcd.Draw
open RtosExample.Lcd.Text RtosExample.Lcd.Controller RtosExample.Lcd.Calls

/-- The width and height of the screen of a controller, upright. -/
def native (id : U16) : U16 × U16 :=
  if id = 0x5510 ∨ id = 0x9806 then (480, 800)
  else if id = 0x5310 ∨ id = 0x7796 then (320, 480)
  else (240, 320)

/-- `lcddev` has the commands of its controller and its two sides, in some order. -/
structure Ready (lcddev : LcdDev) : Prop where
  commands : Commands lcddev
  sides : (lcddev.width, lcddev.height) = native lcddev.id ∨
    (lcddev.height, lcddev.width) = native lcddev.id

/-- **The geometry is in step.** -/
structure InStep (lcddev : LcdDev) (c : Ctrl) : Prop extends Ready lcddev where
  dir : lcddev.height < lcddev.width ↔ c.madctl &&& 0x20 ≠ 0
  right : c.col.last = lcddev.width.toNat - 1
  bottom : c.row.last = lcddev.height.toNat - 1

/-! ### The two directions -/

theorem native_lt (id : U16) : (native id).1 < (native id).2 := by
  unfold native
  split_ifs <;> decide

theorem native_pos (id : U16) : 0 < (native id).1.toNat := by
  unfold native
  split_ifs <;> decide

theorem displayDev_eq {lcddev : LcdDev} (hid : lcddev.id ≠ 0x1963) (dir : U8) :
    displayDev lcddev dir =
      { width := if dir = 0 then (native lcddev.id).1 else (native lcddev.id).2
        height := if dir = 0 then (native lcddev.id).2 else (native lcddev.id).1
        id := lcddev.id, dir := dir, wramcmd := writeCmd lcddev.id, setxcmd := colCmd lcddev.id
        setycmd := rowCmd lcddev.id } := by
  rcases lcddev with ⟨width, height, id, dir₀, wramcmd, setxcmd, setycmd⟩
  change id ≠ 0x1963 at hid
  have hdir : (dir = 0) = True ∨ (dir = 0) = False := Classical.propComplete _
  simp only [displayDev, native, writeCmd, colCmd, rowCmd, eq_false hid, if_false, false_or]
  by_cases h1 : id = 0x5510
  · simp only [h1]
    rcases hdir with hd | hd <;> simp only [hd, if_true, if_false] <;> rfl
  by_cases h2 : id = 0x9806
  · simp only [h2]
    rcases hdir with hd | hd <;> simp only [hd, if_true, if_false] <;> rfl
  simp only [eq_false h1, eq_false h2, if_false, false_or]
  by_cases h3 : id = 0x5310 ∨ id = 0x7796
  · rcases hdir with hd | hd <;> simp only [hd, eq_true h3, eq_false h2, if_true, if_false]
  · rcases hdir with hd | hd <;> simp only [hd, eq_false h3, eq_false h2, if_true, if_false]

theorem displayDev_ready {lcddev : LcdDev} (hid : lcddev.id ≠ 0x1963) (dir : U8) :
    Ready (displayDev lcddev dir) := by
  rw [displayDev_eq hid]
  refine ⟨⟨rfl, rfl, rfl⟩, ?_⟩
  by_cases hd : dir = 0
  · simp only [if_pos hd, true_or]
  · simp only [if_neg hd, or_true]

theorem displayDev_id {lcddev : LcdDev} (hid : lcddev.id ≠ 0x1963) (dir : U8) :
    (displayDev lcddev dir).id = lcddev.id := by
  rw [displayDev_eq hid]

theorem scanSwap_ready {lcddev : LcdDev} (h : Ready lcddev) (regval : U16) :
    Ready (scanSwap lcddev regval) ∧ (scanSwap lcddev regval).id = lcddev.id := by
  obtain ⟨⟨hw, hx, hy⟩, hs⟩ := h
  unfold scanSwap
  split_ifs
  · exact ⟨⟨⟨hw, hx, hy⟩, hs.symm⟩, rfl⟩
  · exact ⟨⟨⟨hw, hx, hy⟩, hs⟩, rfl⟩
  · exact ⟨⟨⟨hw, hx, hy⟩, hs.symm⟩, rfl⟩
  · exact ⟨⟨⟨hw, hx, hy⟩, hs⟩, rfl⟩
  · exact ⟨⟨⟨hw, hx, hy⟩, hs⟩, rfl⟩

theorem Ready.ne {lcddev : LcdDev} (h : Ready lcddev) :
    lcddev.width.toNat ≠ lcddev.height.toNat := by
  have hlt := native_lt lcddev.id
  rw [BitVec.lt_def] at hlt
  rcases h.sides with hs | hs <;> rw [← hs] at hlt <;> simp only at hlt <;> omega

theorem Ready.pos {lcddev : LcdDev} (h : Ready lcddev) :
    0 < lcddev.width.toNat ∧ 0 < lcddev.height.toNat := by
  have hpos := native_pos lcddev.id
  have hlt := native_lt lcddev.id
  rw [BitVec.lt_def] at hlt
  rcases h.sides with hs | hs <;> rw [← hs] at hpos hlt <;> simp only at hpos hlt <;> omega

/-- The longer side is the width exactly if the register says so. -/
theorem scanSwap_lt {lcddev : LcdDev} (hid : lcddev.id ≠ 0x1963) (h : Ready lcddev)
    (regval : U16) :
    (scanSwap lcddev regval).height < (scanSwap lcddev regval).width ↔ regval &&& 0x20 ≠ 0 := by
  have hne := h.ne
  unfold scanSwap
  rw [if_pos hid]
  split_ifs with h1 h2 h2
  · simpa only [h1, ne_eq, not_false_eq_true, iff_true] using h2
  · rw [BitVec.lt_def] at h2 ⊢
    simp only [h1, ne_eq, not_false_eq_true, iff_true]
    omega
  · rw [gt_iff_lt, BitVec.lt_def] at h2
    rw [BitVec.lt_def]
    simp only [h1, iff_false, not_lt]
    exact h2.le
  · simpa only [h1, iff_false] using h2

theorem decode_dirreg (id v : U16) (ops : List BusOp) (c : Ctrl) :
    decode id ([.reg (if id = 0x5510 then 0x3600 else 0x36), .ram v] ++ ops) c =
      decode id ops { c with cmd := dirCmd id, args := 0, madctl := v } := by
  change decode id ops (Ctrl.param id v { c with cmd := dirCmd id, args := 0 }) = _
  rw [Ctrl.param, if_pos rfl]

theorem scanDir_inStep {lcddev : LcdDev} (hid : lcddev.id ≠ 0x1963) (h : Ready lcddev) (dir : U8)
    (c : Ctrl) :
    InStep (lcdScanDir lcddev dir).1 (decode lcddev.id (lcdScanDir lcddev dir).2 c) ∧
      (lcdScanDir lcddev dir).1.id = lcddev.id := by
  unfold lcdScanDir
  obtain ⟨hready, hsame⟩ := scanSwap_ready h (scanRegval lcddev dir)
  have hlt := scanSwap_lt hid h (scanRegval lcddev dir)
  simp only
  generalize scanRegval lcddev dir = regval at *
  set d := scanSwap lcddev regval
  rw [decode_dirreg, ← hsame]
  obtain ⟨hcol, hrow, hdir⟩ := decode_scanWindow hready.commands
    { c with cmd := dirCmd d.id, args := 0, madctl := regval }
  have hpos := hready.pos
  have hw := d.width.isLt
  have hh := d.height.isLt
  refine ⟨⟨hready, ?_, ?_, ?_⟩, rfl⟩
  · rw [hdir]
    exact hlt
  · rw [hcol, last_setAll (by unfold int; omega) (by unfold int; omega)]
    unfold int
    omega
  · rw [hrow, last_setAll (by unfold int; omega) (by unfold int; omega)]
    unfold int
    omega

theorem displayDir_inStep {lcddev : LcdDev} (hid : lcddev.id ≠ 0x1963) (dir : U8) (c : Ctrl) :
    InStep (lcdDisplayDir lcddev dir).1 (decode lcddev.id (lcdDisplayDir lcddev dir).2 c) ∧
      (lcdDisplayDir lcddev dir).1.id = lcddev.id := by
  have hsame := displayDev_id hid dir
  rw [← hsame]
  exact scanDir_inStep (by rw [hsame]; exact hid) (displayDev_ready hid dir) DFT_SCAN_DIR c

/-! ### The runs -/

/-- The call is `lcd_set_window`. -/
def Call.IsWindow : Call → Prop
  | .setWindow .. => True
  | _ => False

theorem decode_reads (id : U16) : ∀ (n : ℕ) (c : Ctrl), decode id (List.replicate n .rd) c = c
  | 0, _ => rfl
  | n + 1, c => decode_reads id n c

/-- The call reads or writes pixels. -/
def Call.IsPixels : Call → Prop
  | .readPoint .. => True
  | .draw _ => True
  | _ => False

theorem pixels_keep {lcddev : LcdDev} (hid : lcddev.id ≠ 0x1963) (hcmd : Commands lcddev) {c : Call}
    (hc : Call.IsPixels c) {ops : List BusOp} (hs : c.Sends lcddev ops) (ctrl : Ctrl) :
    c.dev lcddev = lcddev ∧ (decode lcddev.id ops ctrl).col.last = ctrl.col.last ∧
      (decode lcddev.id ops ctrl).row.last = ctrl.row.last ∧
      (decode lcddev.id ops ctrl).madctl = ctrl.madctl := by
  cases c with
  | displayDir dir => exact hc.elim
  | scanDir dir => exact hc.elim
  | setWindow sx sy width height => exact hc.elim
  | readPoint x y =>
    rcases hs with rfl | ⟨v, n, rfl⟩
    · exact ⟨rfl, rfl, rfl, rfl⟩
    · rw [decode_append, decode_reads, decode_cursor hid hcmd]
      exact ⟨rfl, last_setStart x _, last_setStart y _, rfl⟩
  | draw d =>
    obtain ⟨spans, rfl⟩ := hs
    exact ⟨rfl, decode_paint hid hcmd spans ctrl⟩

/-- **Every call but `lcd_set_window`** leaves the geometry in step. -/
theorem inStep_step {lcddev : LcdDev} (hid : lcddev.id ≠ 0x1963) {c : Call}
    (hc : ¬ Call.IsWindow c) {ops : List BusOp} (hs : c.Sends lcddev ops) {ctrl : Ctrl}
    (h : InStep lcddev ctrl) :
    InStep (c.dev lcddev) (decode lcddev.id ops ctrl) ∧ (c.dev lcddev).id = lcddev.id := by
  have hpixels : Call.IsPixels c →
      InStep (c.dev lcddev) (decode lcddev.id ops ctrl) ∧ (c.dev lcddev).id = lcddev.id := by
    intro hp
    obtain ⟨hdev, hcol, hrow, hmad⟩ := pixels_keep hid h.commands hp hs ctrl
    rw [hdev]
    exact ⟨⟨h.toReady, by rw [hmad]; exact h.dir, by rw [hcol]; exact h.right,
      by rw [hrow]; exact h.bottom⟩, rfl⟩
  cases c with
  | displayDir dir =>
    obtain rfl := hs
    exact displayDir_inStep hid dir ctrl
  | scanDir dir =>
    obtain rfl := hs
    exact scanDir_inStep hid h.toReady dir ctrl
  | setWindow sx sy width height => exact absurd trivial hc
  | readPoint x y => exact hpixels trivial
  | draw d => exact hpixels trivial

variable {σ : Type} (P : Port σ) (env : TextEnv)

/-- **The geometry is in step in every state of a run** that begins with `lcd_display_dir` and does
without `lcd_set_window`, whatever `lcddev`, the controller and its answers were before. -/
theorem geometry_invariant {lcddev : LcdDev} (hid : lcddev.id ≠ 0x1963) (w : Wire σ) (dir : U8)
    (calls : List Call) (hcalls : ∀ c ∈ calls, ¬ Call.IsWindow c) {s : LcdDev × Wire σ}
    (hrun : run (Call.exec P env) (.displayDir dir :: calls) (lcddev, w) = some s) (c : Ctrl) :
    ∃ ops, s.2.log = w.log ++ ops ∧ s.1.id = lcddev.id ∧
      ((s.1.width, s.1.height) = native lcddev.id ∨
        (s.1.height, s.1.width) = native lcddev.id) ∧
      (s.1.height < s.1.width ↔ (decode lcddev.id ops c).madctl &&& 0x20 ≠ 0) ∧
      (decode lcddev.id ops c).col.last = s.1.width.toNat - 1 ∧
      (decode lcddev.id ops c).row.last = s.1.height.toNat - 1 := by
  obtain ⟨s₀, h₀, hrest⟩ := (run_cons _).mp hrun
  cases h₀
  have hinit := displayDir_inStep hid dir c
  obtain ⟨ops, hlog, hsame, hstep⟩ := run_inv
    (I := fun s : LcdDev × Wire σ => ∃ ops, s.2.log = w.log ++ ops ∧ s.1.id = lcddev.id ∧
      InStep s.1 (decode lcddev.id ops c))
    (fun call hcall s s' ⟨ops, hlog, hsame, h⟩ he => by
      obtain ⟨ops', rfl, hsends⟩ := exec_send P env he
      obtain ⟨h', hid'⟩ := inStep_step (by rw [hsame]; exact hid) (hcalls call hcall) hsends h
      refine ⟨ops ++ ops', by rw [send_log, hlog, List.append_assoc], hid'.trans hsame, ?_⟩
      rw [decode_append, ← hsame]
      rwa [← hsame] at h')
    ⟨_, rfl, hinit.2, hinit.1⟩ hrest
  have hsides := hstep.sides
  rw [hsame] at hsides
  exact ⟨ops, hlog, hsame, hsides, hstep.dir, hstep.right, hstep.bottom⟩

/-- A landscape screen, a point, and two changes of the scan direction. -/
theorem geometry_invariant_turn :
    ∃ s ops, run (Call.exec (port 0x9341 fun _ => 0) plain)
        [.displayDir 1, .draw (.point 5 6 0xF800), .scanDir 0, .scanDir 4] (started 0x9341, shows 0)
        = some s ∧ s.2.log = ops ∧
      (s.1.height < s.1.width ↔ (decode 0x9341 ops (shows 0).panel.ctrl).madctl &&& 0x20 ≠ 0) ∧
      (decode 0x9341 ops (shows 0).panel.ctrl).col.last = s.1.width.toNat - 1 ∧
      (decode 0x9341 ops (shows 0).panel.ctrl).row.last = s.1.height.toNat - 1 := by
  obtain ⟨ops, hlog, -, -, hdir, hright, hbottom⟩ :=
    @geometry_invariant Panel (port 0x9341 fun _ => 0) plain (started 0x9341) (by decide)
      (shows 0) 1 [.draw (.point 5 6 0xF800), .scanDir 0, .scanDir 4]
      (by simp [Call.IsWindow]) _ rfl (shows 0).panel.ctrl
  exact ⟨_, ops, rfl, hlog, hdir, hright, hbottom⟩

/-! ### The size of the screen -/

/-- No side is longer than 800. -/
def Sides (lcddev : LcdDev) : Prop := lcddev.width.toNat ≤ 800 ∧ lcddev.height.toNat ≤ 800

theorem displayDev_sides (lcddev : LcdDev) (dir : U8) : Sides (displayDev lcddev dir) := by
  unfold displayDev Sides
  simp only
  split_ifs <;> exact ⟨Nat.le_of_ble_eq_true rfl, Nat.le_of_ble_eq_true rfl⟩

theorem scanSwap_sides {lcddev : LcdDev} (h : Sides lcddev) (regval : U16) :
    Sides (scanSwap lcddev regval) := by
  unfold scanSwap
  split_ifs
  · exact h.symm
  · exact h
  · exact h.symm
  · exact h
  · exact h

theorem dev_sides {lcddev : LcdDev} (h : Sides lcddev) (c : Call) : Sides (c.dev lcddev) := by
  cases c with
  | displayDir dir => exact scanSwap_sides (displayDev_sides lcddev dir) _
  | scanDir dir => exact scanSwap_sides h _
  | setWindow sx sy width height => exact h
  | readPoint x y => exact h
  | draw d => exact h

/-- **The sides in every state of a run**; at first `lcddev` is all zeros. -/
theorem run_sides {calls : List Call} {s t : LcdDev × Wire σ} (h : Sides s.1)
    (hrun : run (Call.exec P env) calls s = some t) : Sides t.1 := by
  refine run_inv (I := fun s : LcdDev × Wire σ => Sides s.1) (fun c _ s s' hs he => ?_) h hrun
  obtain ⟨ops, rfl, -⟩ := exec_send P env he
  exact dev_sides hs c

end RtosExample.Lcd.Geometry
