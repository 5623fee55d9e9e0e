import RtosExample.Lcd.CircleShape
import RtosExample.Lcd.Fill

/-! # Shapes of one colour

Spans of one colour leave it on the pixels they paint and every other pixel as it was, whatever their
order (`canvas_oneColor`), so two calls that paint the same pixels leave the same memory.

* `line_rectangle_exact`: a horizontal line is the same drawn point by point and as one run, and a
  rectangle is the frame of its box;
* `fillCircle_exact`: the filled circle is its `Shape`. -/

namespace RtosExample.Lcd.Shapes

open RtosExample.Cint RtosExample.Lib.Memory RtosExample.Lcd.Dev RtosExample.Lcd.Draw
open RtosExample.Lcd.FillCircle RtosExample.Lcd.CircleShape RtosExample.Lcd.Line
open RtosExample.Lcd.Text RtosExample.Lcd.Controller RtosExample.Lcd.Calls
open RtosExample.Lcd.Geometry RtosExample.Lcd.Canvas RtosExample.Lcd.Fill

/-! ### One colour -/

/-- All the words have one colour. -/
def OneColor (spans : List Span) (color : U16) : Prop := ∀ s ∈ spans, ∀ c ∈ s.colors, c = color

theorem OneColor.append {s t : List Span} {color : U16} (hs : OneColor s color)
    (ht : OneColor t color) : OneColor (s ++ t) color :=
  List.forall_mem_append.mpr ⟨hs, ht⟩

theorem mem_paints_iff {spans : List Span} {p : ℕ × ℕ} :
    p ∈ paints spans ↔ ∃ w ∈ pixels spans, w.1 = p := by
  constructor
  · rintro ⟨s, hs, hy, hle, hlt⟩
    obtain ⟨k, hk⟩ := Nat.exists_eq_add_of_le hle
    have hlen : k < s.colors.length := by omega
    exact ⟨(p, s.colors[k]),
      mem_pixels.mpr ⟨s, hs, hy, k, hk, List.getElem?_eq_getElem hlen⟩, rfl⟩
  · rintro ⟨⟨q, c⟩, hw, hq⟩
    obtain rfl : q = p := hq
    obtain ⟨s, hs, hy, k, hk, hc⟩ := mem_pixels.mp hw
    obtain ⟨hlt, -⟩ := List.getElem?_eq_some_iff.mp hc
    exact ⟨s, hs, hy, by omega, by omega⟩

theorem canvas_oneColor {spans : List Span} {color : U16} (h : OneColor spans color)
    (mem : ℕ × ℕ → U16) : FilledOn (· ∈ paints spans) color mem (canvas spans mem) := by
  have hcolor : ∀ w ∈ pixels spans, w.2 = color := by
    rintro ⟨q, c⟩ hw
    obtain ⟨s, hs, -, k, -, hc⟩ := mem_pixels.mp hw
    exact h s hs c (List.mem_of_getElem? hc)
  have hset : (· ∈ paints spans) = fun p => ∃ w ∈ pixels spans, w.1 = p :=
    funext fun p => propext mem_paints_iff
  rw [hset]
  exact writes_filledOn hcolor mem

theorem flat_of_paints {spans : List Span} {width : ℕ} (h : ∀ p ∈ paints spans, p.1 < width) :
    ∀ s ∈ spans, Flat width s := by
  intro s hs
  rcases Nat.eq_zero_or_pos s.colors.length with h0 | hpos
  · exact Or.inl (by omega)
  · have hlast := h (s.x.toNat + (s.colors.length - 1), s.y.toNat)
      ⟨s, hs, rfl, Nat.le_add_right _ _, by simp only; omega⟩
    simp only at hlast
    exact Or.inr (by omega)

theorem drawn_oneColor {lcddev : LcdDev} (hid : lcddev.id ≠ 0x1963) (noise : ℕ → U16)
    (env : TextEnv) {w : Wire Panel} (hfull : Full lcddev w.panel.ctrl) {d : Drawing}
    {spans : List Span} {color : U16} (hd : d.spans env lcddev = some spans)
    (hone : OneColor spans color) {S : ℕ × ℕ → Prop} (hS : ∀ p, p ∈ paints spans ↔ S p)
    (hin : ∀ p, S p → p.1 < lcddev.width.toNat) :
    ∃ mem, drawn lcddev noise env w d = some mem ∧ FilledOn S color w.panel.gram mem := by
  have hflat := flat_of_paints fun p hp => hin p ((hS p).mp hp)
  refine ⟨_, drawn_canvas hid noise env hfull hd hflat, fun p => ?_⟩
  rw [← hS]
  exact canvas_oneColor hone w.panel.gram p

theorem fillLoop_oneColor {sx ey xlen : U16} {color : U32} :
    ∀ (fuel : ℕ) {i : U16} {spans : List Span},
    fillLoop sx ey xlen color fuel i = some spans → OneColor spans (color.setWidth 16)
  | fuel + 1, i, spans, h => by
    rw [fillLoop] at h
    split_ifs at h with hi
    · obtain ⟨rest, hrest, rfl⟩ := Option.map_eq_some_iff.mp h
      refine List.forall_mem_cons.mpr ⟨fun c hc => ?_, fillLoop_oneColor fuel hrest⟩
      exact List.eq_of_mem_replicate hc
    · obtain rfl := Option.some.inj h
      exact List.forall_mem_nil _

theorem hline_oneColor {lcddev : LcdDev} {x y len color : U16} {spans : List Span}
    (h : lcdDrawHline lcddev x y len color = some spans) : OneColor spans color := by
  rw [lcdDrawHline] at h
  split_ifs at h with hguard
  · obtain rfl := Option.some.inj h
    exact List.forall_mem_nil _
  · have hone := fillLoop_oneColor _ h
    rwa [BitVec.setWidth_setWidth_of_le color (by decide), BitVec.setWidth_eq] at hone

/-! ### Lines and rectangles -/

/-- The box with these corners. -/
def OnBox (x1 y1 x2 y2 : U16) (p : ℕ × ℕ) : Prop :=
  (min x1.toNat x2.toNat ≤ p.1 ∧ p.1 ≤ max x1.toNat x2.toNat) ∧
    min y1.toNat y2.toNat ≤ p.2 ∧ p.2 ≤ max y1.toNat y2.toNat

/-- The pixels of the box that lie in one of the two columns or rows. -/
def OnFrame (x1 y1 x2 y2 : U16) (p : ℕ × ℕ) : Prop :=
  OnBox x1 y1 x2 y2 p ∧ (p.1 = x1.toNat ∨ p.1 = x2.toNat ∨ p.2 = y1.toNat ∨ p.2 = y2.toNat)

instance (x1 y1 x2 y2 : U16) (p : ℕ × ℕ) : Decidable (OnBox x1 y1 x2 y2 p) :=
  inferInstanceAs (Decidable (_ ∧ _ ∧ _))

instance (x1 y1 x2 y2 : U16) (p : ℕ × ℕ) : Decidable (OnFrame x1 y1 x2 y2 p) :=
  inferInstanceAs (Decidable (_ ∧ _))

theorem line_paints {x1 y1 x2 y2 : U16} (h : x1 = x2 ∨ y1 = y2)
    (hD : lineDistance x1 y1 x2 y2 < 65534) (color : U16) :
    ∃ spans, lcdDrawLine x1 y1 x2 y2 color = some spans ∧ OneColor spans color ∧
      ∀ p, p ∈ paints spans ↔ OnBox x1 y1 x2 y2 p := by
  have hdots : lcdDrawLine x1 y1 x2 y2 color =
      some ((linePoints x1 y1 x2 y2).map (dot color)) := by
    rw [lcdDrawLine_eq hD, linePoints, List.map_map]
    rfl
  refine ⟨_, hdots, ?_, fun p => ?_⟩
  · intro s hs c hc
    obtain ⟨q, -, rfl⟩ := List.mem_map.mp hs
    exact List.mem_singleton.mp hc
  · have hpoint : OnBox x1 y1 x2 y2 p ↔
        ((p.1 : ℤ), (p.2 : ℤ)) ∈ linePoints x1 y1 x2 y2 := by
      rw [mem_linePoints_straight h]
      unfold OnBox int
      omega
    have hat : ∀ q ∈ linePoints x1 y1 x2 y2,
        p ∈ paints [dot color q] ↔ ((p.1 : ℤ), (p.2 : ℤ)) = q := by
      rintro ⟨u, v⟩ hq
      obtain ⟨hu, hv⟩ := Prod.mk.inj (place_linePoints hq color)
      rw [mem_paints_singleton, Prod.mk.injEq]
      simp only [dot, int, List.length_singleton] at hu hv ⊢
      omega
    rw [hpoint]
    constructor
    · rintro ⟨s, hs, hp⟩
      obtain ⟨q, hq, rfl⟩ := List.mem_map.mp hs
      rw [(hat q hq).mp ⟨_, List.mem_singleton_self _, hp⟩]
      exact hq
    · intro hq
      obtain ⟨s, hs, hp⟩ := (hat _ hq).mpr rfl
      exact ⟨s, List.mem_map.mpr ⟨_, hq, (List.mem_singleton.mp hs).symm⟩, hp⟩

theorem rectangle_paints {x1 y1 x2 y2 : U16} (hD : lineDistance x1 y1 x2 y2 < 65534)
    (color : U16) :
    ∃ spans, lcdDrawRectangle x1 y1 x2 y2 color = some spans ∧ OneColor spans color ∧
      ∀ p, p ∈ paints spans ↔ OnFrame x1 y1 x2 y2 p := by
  obtain ⟨hDx, hDy⟩ := max_lt_iff.mp hD
  have hrow : ∀ y, lineDistance x1 y x2 y < 65534 := fun y => by
    rwa [lineDistance, sub_self, Int.natAbs_zero, Nat.max_zero]
  have hcol : ∀ x, lineDistance x y1 x y2 < 65534 := fun x => by
    rwa [lineDistance, sub_self, Int.natAbs_zero, Nat.zero_max]
  obtain ⟨a, ha, ha1, ha2⟩ := line_paints (Or.inr rfl) (hrow y1) color
  obtain ⟨b, hb, hb1, hb2⟩ := line_paints (Or.inl rfl) (hcol x1) color
  obtain ⟨c, hc, hc1, hc2⟩ := line_paints (Or.inr rfl) (hrow y2) color
  obtain ⟨d, hd, hd1, hd2⟩ := line_paints (Or.inl rfl) (hcol x2) color
  refine ⟨a ++ b ++ c ++ d, ?_, ((ha1.append hb1).append hc1).append hd1, fun p => ?_⟩
  · simp only [lcdDrawRectangle, ha, hb, hc, hd, Option.bind_eq_bind, Option.bind_some,
      Option.pure_def]
  · rw [mem_paints_append, mem_paints_append, mem_paints_append, ha2, hb2, hc2, hd2]
    unfold OnFrame OnBox
    omega

section

variable {lcddev : LcdDev} (hid : lcddev.id ≠ 0x1963) (noise : ℕ → U16) (env : TextEnv)
  {w : Wire Panel} (hfull : Full lcddev w.panel.ctrl) (hsides : Sides lcddev)
  {x1 y1 x2 y2 : U16} (hx1 : x1.toNat < lcddev.width.toNat)
  (hx2 : x2.toNat < lcddev.width.toNat) (hy1 : y1.toNat < lcddev.height.toNat)

include hid hfull hsides hx1 hx2 hy1

/-- **Point by point or as one run** a horizontal line leaves the same memory. -/
theorem line_hline (color : U16) :
    ∃ mem, drawn lcddev noise env w (.line x1 y1 x2 y1 color) = some mem ∧
      drawn lcddev noise env w (.hline (u16 (min (int x1) (int x2))) y1
        (u16 (|int x2 - int x1| + 1)) color) = some mem := by
  obtain ⟨hw, hh⟩ := hsides
  have hD : lineDistance x1 y1 x2 y1 < 65534 := by
    unfold lineDistance int
    omega
  have hx : (u16 (min (int x1) (int x2))).toNat = min x1.toNat x2.toNat := by
    rw [u16_toNat]
    unfold int
    omega
  have hlen : (u16 (|int x2 - int x1| + 1)).toNat =
      max x1.toNat x2.toNat - min x1.toNat x2.toNat + 1 := by
    rw [u16_toNat, Int.abs_eq_natAbs]
    unfold int
    omega
  obtain ⟨points, hs, hone, hbox⟩ := line_paints (Or.inr rfl) hD color
  obtain ⟨mem, hline, hmem⟩ :=
    drawn_oneColor hid noise env hfull (d := .line x1 y1 x2 y1 color) hs hone hbox fun p hp => by
      unfold OnBox at hp
      omega
  obtain ⟨spans, hs', hrun⟩ := hline_paints lcddev color hx (y := y1) rfl hlen (by omega) hy1
  have hbox' : ∀ p, p ∈ paints spans ↔ OnBox x1 y1 x2 y1 p := by
    intro p
    rw [hrun, OnBox]
    omega
  obtain ⟨mem', hhline, hmem'⟩ :=
    drawn_oneColor hid noise env hfull (d := .hline _ y1 _ color) hs' (hline_oneColor hs') hbox'
      fun p hp => by
        unfold OnBox at hp
        omega
  obtain rfl := hmem.unique hmem'
  exact ⟨mem, hline, hhline⟩

/-- **Lines and rectangles are exact**: a horizontal line is the same drawn point by point and as one
run, and a rectangle colours the pixels of its frame and no others. -/
theorem line_rectangle_exact (hy2 : y2.toNat < lcddev.height.toNat) (color : U16) :
    (∃ mem, drawn lcddev noise env w (.line x1 y1 x2 y1 color) = some mem ∧
      drawn lcddev noise env w (.hline (u16 (min (int x1) (int x2))) y1
        (u16 (|int x2 - int x1| + 1)) color) = some mem) ∧
    ∃ mem, drawn lcddev noise env w (.rectangle x1 y1 x2 y2 color) = some mem ∧
      ∀ p, mem p = if OnFrame x1 y1 x2 y2 p then color else w.panel.gram p := by
  have hD : lineDistance x1 y1 x2 y2 < 65534 := by
    obtain ⟨hw, hh⟩ := hsides
    unfold lineDistance int
    omega
  obtain ⟨spans, hs, hone, hframe⟩ := rectangle_paints hD color
  obtain ⟨mem, hrect, hmem⟩ :=
    drawn_oneColor hid noise env hfull (d := .rectangle x1 y1 x2 y2 color) hs hone hframe
      fun p hp => by
        unfold OnFrame OnBox at hp
        omega
  exact ⟨line_hline hid noise env hfull hsides hx1 hx2 hy1 color, mem, hrect, hmem.eq_ite⟩

end

/-- The theorem at the corners of a square, from the right to the left. -/
theorem line_rectangle_exact_square :
    ∃ mem, drawn upright (fun _ => 0) plain black (.rectangle 239 310 230 319 7) = some mem ∧
      ∀ p, mem p = if OnFrame 239 310 230 319 p then 7 else black.panel.gram p :=
  (@line_rectangle_exact upright (by decide) (fun _ => 0) plain black upright_full upright_sides
    239 310 230 319 (by decide) (by decide) (by decide) (by decide) 7).2

/-! ### The filled circle -/

theorem oneColor_pair {f g : Option (List Span)} {color : U16}
    (hf : ∀ s, f = some s → OneColor s color) (hg : ∀ s, g = some s → OneColor s color)
    {spans : List Span} (h : (do
      let a ← f
      let b ← g
      return a ++ b) = some spans) : OneColor spans color := by
  obtain ⟨a, ha, h⟩ := Option.bind_eq_some_iff.mp h
  obtain ⟨b, hb, h⟩ := Option.bind_eq_some_iff.mp h
  obtain rfl := Option.some.inj h
  exact (hf a ha).append (hg b hb)

theorem circleOutside_oneColor {lcddev : LcdDev} {x y color : U16} {imax sqmax i xr : U32}
    {spans : List Span} (h : circleOutside lcddev x y color imax sqmax i xr = some spans) :
    OneColor spans color := by
  rw [circleOutside] at h
  split_ifs at h with htest
  · exact oneColor_pair (fun _ => hline_oneColor) (fun _ => hline_oneColor) h
  · obtain rfl := Option.some.inj h
    exact List.forall_mem_nil _

theorem fillCircleLoop_oneColor {lcddev : LcdDev} {x y color : U16} {imax sqmax : U32} :
    ∀ (n : ℕ) {i xr : U32} {spans : List Span},
    fillCircleLoop lcddev x y color imax sqmax n i xr = some spans → OneColor spans color
  | 0, _, _, spans, h => by
    obtain rfl := Option.some.inj h
    exact List.forall_mem_nil _
  | n + 1, i, xr, spans, h => by
    obtain ⟨a, ha, h⟩ := Option.bind_eq_some_iff.mp h
    obtain ⟨b, hb, h⟩ := Option.bind_eq_some_iff.mp h
    obtain ⟨c, hc, h⟩ := Option.bind_eq_some_iff.mp h
    obtain rfl := Option.some.inj h
    have hinside : OneColor b color :=
      oneColor_pair (fun _ => hline_oneColor) (fun _ => hline_oneColor) hb
    exact ((circleOutside_oneColor ha).append hinside).append (fillCircleLoop_oneColor n hc)

/-- **The filled circle in the memory** is its shape about the centre. -/
theorem fillCircle_exact {lcddev : LcdDev} (hid : lcddev.id ≠ 0x1963) (noise : ℕ → U16)
    (env : TextEnv) {w : Wire Panel} (hfull : Full lcddev w.panel.ctrl) {x y r : U16}
    (h : Inside lcddev x y r) (hr : 1 ≤ r.toNat) (color : U16) :
    ∃ mem, drawn lcddev noise env w (.fillCircle x y r color) = some mem ∧
      FilledOn (fun p => Shape r.toNat (p.1 - x.toNat) (p.2 - y.toNat)) color w.panel.gram mem := by
  obtain ⟨spans, hs, hshape⟩ := painted_iff h hr color
  have hpaints : ∀ p : ℕ × ℕ,
      p ∈ paints spans ↔ Shape r.toNat (p.1 - x.toNat) (p.2 - y.toNat) := by
    intro p
    rw [← hshape, add_sub_cancel, add_sub_cancel]
    constructor
    · exact fun hp => ⟨p, hp, rfl, rfl⟩
    · rintro ⟨q, hq, hx, hy⟩
      rwa [← Prod.ext (Nat.cast_injective hx) (Nat.cast_injective hy)]
  have hone : OneColor spans color :=
    oneColor_pair (fun _ => hline_oneColor) (fun _ => fillCircleLoop_oneColor _) hs
  refine drawn_oneColor hid noise env hfull (d := .fillCircle x y r color) hs hone hpaints
    fun p hp => ?_
  have hbox := shape_box hr hp
  have hright := h.right
  omega

end RtosExample.Lcd.Shapes
