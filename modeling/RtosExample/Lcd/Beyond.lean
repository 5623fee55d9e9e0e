import RtosExample.Lcd.Glyph

/-! # Points beyond the screen

`lcd_show_char` draws a point before it looks for the edges of the screen. From a place below the
screen it goes through one bit before it stops; from a place to the right of it through one column.
Row 65535 is followed by row 0, and there the column has no end but the bottom of the screen.

* `showChar_beyond`: the bits that are gone through beyond the screen.
* `showChar_within_iff`: when no point lies there. -/

namespace RtosExample.Lcd.Beyond

open RtosExample.Cint RtosExample.Lib.Raster RtosExample.Lcd.Dev RtosExample.Lcd.Draw
open RtosExample.Lcd.Text RtosExample.Lcd.Glyph

variable (env : TextEnv) (lcddev : LcdDev)

/-- Every point lies on the screen. -/
def Within (spans : List Span) : Prop :=
  ∀ s ∈ spans, s.x.toNat < lcddev.width.toNat ∧ s.y.toNat < lcddev.height.toNat

/-- The number of bits that are gone through beyond the screen, from a place beyond it. -/
def beyond (x y : U16) (size : U8) : ℕ :=
  if y.toNat < lcddev.height.toNat then cellRows lcddev y size
  else if y = 0xFFFF ∧ lcddev.width.toNat ≤ x.toNat then
    min (8 * (size.toNat / 2 * ((size.toNat + 7) / 8))) (lcddev.height.toNat + 1)
  else 1

section

variable {env lcddev}

theorem within_nil : Within lcddev [] := by simp [Within]

theorem within_append {s t : List Span} :
    Within lcddev (s ++ t) ↔ Within lcddev s ∧ Within lcddev t := List.forall_mem_append

theorem within_flatMap {α : Type} {l : List α} {f : α → List Span} :
    Within lcddev (l.flatMap f) ↔ ∀ a ∈ l, Within lcddev (f a) := by
  unfold Within
  constructor
  · intro h a ha s hs
    exact h s (List.mem_flatMap.mpr ⟨a, ha, hs⟩)
  · intro h s hs
    obtain ⟨a, ha, hmem⟩ := List.mem_flatMap.mp hs
    exact h a ha s hmem

variable {mode : U8} {color : U16}

/-! ### One point -/

theorem mem_bitDot {bit : Bool} {a b : ℕ} {s : Span} (h : s ∈ bitDot env mode color bit a b) :
    s.x = BitVec.ofNat 16 a ∧ s.y = BitVec.ofNat 16 b := by
  unfold bitDot at h
  split_ifs at h
  · rw [List.mem_singleton.mp h]
    exact ⟨rfl, rfl⟩
  · rw [List.mem_singleton.mp h]
    exact ⟨rfl, rfl⟩
  · exact absurd h (by simp)

theorem bitDot_eq_nil {bit : Bool} {a b : ℕ} :
    bitDot env mode color bit a b = [] ↔ mode ≠ 0 ∧ bit = false := by
  unfold bitDot
  split_ifs with hbit hmode
  · simp [hbit]
  · simp [hmode]
  · exact iff_of_true rfl ⟨hmode, Bool.eq_false_of_not_eq_true hbit⟩

theorem bitDot_within (bit : Bool) {a b : ℕ} (ha : a < lcddev.width.toNat)
    (hb : b < lcddev.height.toNat) : Within lcddev (bitDot env mode color bit a b) := by
  intro s hs
  obtain ⟨hx, hy⟩ := mem_bitDot hs
  have hw := lcddev.width.isLt
  have hh := lcddev.height.isLt
  rw [hx, hy, BitVec.toNat_ofNat, BitVec.toNat_ofNat]
  omega

/-- A place beyond the screen. -/
def Off (lcddev : LcdDev) (a b : ℕ) : Prop :=
  lcddev.width.toNat ≤ a % 65536 ∨ lcddev.height.toNat ≤ b % 65536

theorem bitDot_within_iff {bit : Bool} {a b : ℕ} (h : Off lcddev a b) :
    Within lcddev (bitDot env mode color bit a b) ↔ mode ≠ 0 ∧ bit = false := by
  rw [← @bitDot_eq_nil env mode color bit a b]
  constructor
  · intro hwithin
    rw [List.eq_nil_iff_forall_not_mem]
    intro s hs
    obtain ⟨hx, hy⟩ := mem_bitDot hs
    have hs' := hwithin s hs
    rw [hx, hy, BitVec.toNat_ofNat, BitVec.toNat_ofNat] at hs'
    unfold Off at h
    omega
  · intro hnil
    rw [hnil]
    exact within_nil

theorem column_within (bit : ℕ → Bool) {a b n : ℕ} (ha : a < lcddev.width.toNat)
    (hb : b + n ≤ lcddev.height.toNat) : Within lcddev (column env mode color bit a b n) := by
  refine within_flatMap.mpr fun k hk => bitDot_within _ ha ?_
  rw [List.mem_range] at hk
  omega

theorem column_within_iff {bit : ℕ → Bool} {a b n : ℕ} (hn : 0 < n)
    (h : ∀ k < n, Off lcddev a (b + k)) :
    Within lcddev (column env mode color bit a b n) ↔ mode ≠ 0 ∧ ∀ k < n, bit k = false := by
  have hdot : Within lcddev (column env mode color bit a b n) ↔
      ∀ k < n, mode ≠ 0 ∧ bit k = false := by
    rw [column, within_flatMap]
    refine forall_congr' fun k => ?_
    rw [List.mem_range]
    exact forall_congr' fun hk => bitDot_within_iff (h k hk)
  rw [hdot]
  exact ⟨fun h => ⟨(h 0 hn).1, fun k hk => (h k hk).2⟩, fun h k hk => ⟨h.1, h.2 k hk⟩⟩

theorem column_wrap (bit : ℕ → Bool) (a b n : ℕ) :
    column env mode color bit a (b + 65536) n = column env mode color bit a b n := by
  have hrow : ∀ k, BitVec.ofNat 16 (b + 65536 + k) = BitVec.ofNat 16 (b + k) := by
    intro k
    apply BitVec.eq_of_toNat_eq
    rw [BitVec.toNat_ofNat, BitVec.toNat_ofNat]
    omega
  simp only [column, bitDot, hrow]

/-! ### The three ways beyond the screen -/

section

variable {x y0 : U16} {size : U8}

theorem charBytes_long : ∀ (bytes : List U8) {y : U16} {rows : ℕ} {bit : ℕ → Bool},
    8 * bytes.length < rows →
    (∀ k < 8 * bytes.length, (bytes.getD (k / 8) 0).getLsbD (7 - k % 8) = bit k) →
    y0.toNat + size.toNat = y.toNat + rows → y.toNat < lcddev.height.toNat →
    charBytes env lcddev y0 size mode color bytes x y =
      column env mode color bit x.toNat y.toNat
        (min (8 * bytes.length) (lcddev.height.toNat - y.toNat))
  | [], y, rows, bit, _, _, _, _ => by
    rw [charBytes, List.length_nil, Nat.mul_zero, Nat.zero_min]
    simp [column]
  | b :: bytes, y, rows, bit, hlen, hbit, hy, hh => by
    rw [List.length_cons] at hlen hbit ⊢
    have hbyte : ∀ k < min 8 rows, b.getLsbD (7 - k) = bit k := by
      rw [Nat.min_eq_left (show 8 ≤ rows by omega)]
      exact firstByte le_rfl fun k hk => hbit k (by omega)
    have hbits := @charBits_eq env lcddev y0 size mode color x 8 b y rows bit le_rfl hbyte hy
      (by omega) hh
    have hrows : ¬ rows ≤ 8 := by omega
    rw [Nat.min_eq_left (show 8 ≤ rows by omega), if_neg hrows, ← Nat.min_assoc,
      Nat.min_eq_left (show 8 ≤ rows by omega)] at hbits
    rw [charBytes, hbits]
    by_cases hbottom : lcddev.height.toNat - y.toNat ≤ 8
    · have hall : min 8 (lcddev.height.toNat - y.toNat) =
          min (8 * (bytes.length + 1)) (lcddev.height.toNat - y.toNat) := by omega
      rw [if_pos hbottom, hall]
    · have hlt := lcddev.height.isLt
      have hy8 : (BitVec.ofNat 16 (y.toNat + 8)).toNat = y.toNat + 8 := by
        rw [BitVec.toNat_ofNat, Nat.mod_eq_of_lt (by omega)]
      have hnext : ∀ k < 8 * bytes.length,
          (bytes.getD (k / 8) 0).getLsbD (7 - k % 8) = bit (8 + k) := by
        intro k hk
        exact nextByte hbit k (by omega)
      have ih := @charBytes_long bytes (BitVec.ofNat 16 (y.toNat + 8)) (rows - 8) _
        (by omega) hnext (by omega) (by omega)
      have hsum : min (8 * (bytes.length + 1)) (lcddev.height.toNat - y.toNat) =
          8 + min (8 * bytes.length) (lcddev.height.toNat - (y.toNat + 8)) := by omega
      rw [if_neg hbottom, Nat.min_eq_left (show 8 ≤ lcddev.height.toNat - y.toNat by omega)]
      simp only [ih, hy8, hsum, column_add]

theorem charBytes_below {y : U16} (b : U8) (bytes : List U8)
    (hy : lcddev.height.toNat ≤ (y + 1).toNat) :
    charBytes env lcddev y0 size mode color (b :: bytes) x y =
      bitDot env mode color (b.getLsbD 7) x.toNat y.toNat := by
  rw [charBytes, charBits, dot_eq]
  simp only [ge_iff_le, BitVec.le_def]
  rw [if_pos hy]

/-- The first byte in the last row of all: after the first bit it goes on in row 0, and there is no
end of the column, for the row is counted from 65535. -/
theorem charBits_last (hsize : 0 < size.toNat) (hh : 0 < lcddev.height.toNat) {b : U8}
    {bit : ℕ → Bool} (hbit : ∀ k < 8, b.getLsbD (7 - k) = bit k) :
    charBits env lcddev 0xFFFF size mode color 8 b x 0xFFFF =
      (bitDot env mode color (bit 0) x.toNat 65535 ++
        column env mode color (fun k => bit (k + 1)) x.toNat 0 (min 7 lcddev.height.toNat),
      if lcddev.height.toNat ≤ 7 then none else some (x, BitVec.ofNat 16 7)) := by
  have hdot := @dot_eq env mode color b x 0xFFFF
  rw [show b.getLsbD 7 = bit 0 from hbit 0 (by omega)] at hdot
  have hgo : ¬ (0xFFFF + 1 : U16) ≥ lcddev.height := by
    rw [ge_iff_le, BitVec.le_def]
    exact Nat.not_le.mpr hh
  have hend : ¬ int (0xFFFF + 1 : U16) - int (0xFFFF : U16) = int size := by
    show ¬ (0 : ℤ) - 65535 = int size
    unfold int
    omega
  have hshift : ∀ k < min 7 (65535 + size.toNat), (b <<< 1).getLsbD (7 - k) = bit (k + 1) := by
    intro k hk
    rw [shiftBit b (by omega), hbit (k + 1) (by omega)]
  have hbits := @charBits_eq env lcddev 0xFFFF size mode color x 7 (b <<< 1) 0
    (65535 + size.toNat) (fun k => bit (k + 1)) (by omega) hshift (by simp) (by omega) hh
  have hzero : (0 : U16).toNat = 0 := rfl
  have hrows : ¬ 65535 + size.toNat ≤ 7 := by omega
  rw [hzero, Nat.sub_zero, Nat.min_eq_left (show 7 ≤ 65535 + size.toNat by omega), if_neg hrows,
    ← Nat.min_assoc, Nat.min_eq_left (show 7 ≤ 65535 + size.toNat by omega), Nat.zero_add] at hbits
  rw [charBits, hdot]
  simp only
  rw [if_neg hgo, if_neg hend, show (0xFFFF + 1 : U16) = 0 from rfl, hbits]
  rfl

theorem charBytes_last (hsize : 0 < size.toNat) (hh : 0 < lcddev.height.toNat) (b : U8)
    (bytes : List U8) {bit : ℕ → Bool} (hlen : bytes.length < 8000)
    (hbit : ∀ k < 8 * (bytes.length + 1),
      ((b :: bytes).getD (k / 8) 0).getLsbD (7 - k % 8) = bit k) :
    charBytes env lcddev 0xFFFF size mode color (b :: bytes) x 0xFFFF =
      bitDot env mode color (bit 0) x.toNat 65535 ++
        column env mode color (fun k => bit (k + 1)) x.toNat 0
          (min (8 * bytes.length + 7) lcddev.height.toNat) := by
  rw [charBytes, @charBits_last env lcddev mode color x size hsize hh b bit
    (firstByte le_rfl fun k hk => hbit k (by omega))]
  by_cases hbottom : lcddev.height.toNat ≤ 7
  · rw [if_pos hbottom, Nat.min_eq_right hbottom, Nat.min_eq_right (by omega)]
  · have hnext : ∀ k < 8 * bytes.length,
        (bytes.getD (k / 8) 0).getLsbD (7 - k % 8) = bit (7 + k + 1) := by
      intro k hk
      rw [Nat.add_right_comm]
      exact nextByte hbit k (by omega)
    have hlong := @charBytes_long env lcddev mode color x 0xFFFF size bytes (BitVec.ofNat 16 7)
      (65528 + size.toNat) (fun k => bit (7 + k + 1)) (by omega) hnext
      (show 65535 + size.toNat = 7 + (65528 + size.toNat) by omega)
      (show 7 < lcddev.height.toNat by omega)
    have hsum : min (8 * bytes.length + 7) lcddev.height.toNat =
        7 + min (8 * bytes.length) (lcddev.height.toNat - 7) := by omega
    rw [if_neg hbottom, Nat.min_eq_left (show 7 ≤ lcddev.height.toNat by omega), hsum, column_add]
    simp only [hlong, List.append_assoc, Nat.zero_add]
    rfl

end

/-! ### Characters -/

section

variable {x y : U16} {size : U8} (hsize : IsSize size) (chr mode : U8) (color : U16)

include hsize

theorem csize_pos : 0 < size.toNat / 2 * ((size.toNat + 7) / 8) := by
  have h12 := hsize.toNat
  exact Nat.mul_pos (by omega) (by omega)

theorem showChar_font (env : TextEnv) :
    ∃ (b : U8) (bytes : List U8),
      bytes.length + 1 = size.toNat / 2 * ((size.toNat + 7) / 8) ∧
      (∀ k < 8 * (bytes.length + 1),
        ((b :: bytes).getD (k / 8) 0).getLsbD (7 - k % 8) = fontBit env chr size 0 k) ∧
      lcdShowChar env lcddev x y chr size mode color =
        charBytes env lcddev y size mode color (b :: bytes) x y := by
  obtain ⟨byte, hbit, hshow⟩ := @showChar_bytes env lcddev size hsize chr mode color x y
  obtain ⟨m, hm⟩ : ∃ m, size.toNat / 2 * ((size.toNat + 7) / 8) = m + 1 :=
    Nat.exists_eq_succ_of_ne_zero (csize_pos hsize).ne'
  have hbits := @columnBytes byte (fontBit env chr size 0) (m + 1) (8 * (m + 1)) 0 le_rfl
    fun r _ => by rw [← hbit 0 r, Nat.zero_mul, Nat.zero_mul]
  simp only [Nat.zero_mul, Nat.zero_add] at hbits
  rw [List.range_succ_eq_map, List.map_cons] at hbits
  refine ⟨byte 0, (List.map Nat.succ (List.range m)).map byte, ?_, ?_, ?_⟩
  · rw [List.length_map, List.length_map, List.length_range, hm]
  · rwa [List.length_map, List.length_map, List.length_range]
  · rw [hshow, hm, List.range_succ_eq_map, List.map_cons]

theorem showChar_right (env : TextEnv) (hy : y.toNat < lcddev.height.toNat) :
    ∃ rest, Within lcddev rest ∧
      lcdShowChar env lcddev x y chr size mode color =
        column env mode color (fontBit env chr size 0) x.toNat y.toNat (cellRows lcddev y size) ++
          rest := by
  have h12 := hsize.toNat
  obtain ⟨byte, hbit, hshow⟩ := @showChar_bytes env lcddev size hsize chr mode color x y
  obtain ⟨m, hm⟩ : ∃ m, size.toNat / 2 = m + 1 := ⟨size.toNat / 2 - 1, by omega⟩
  have hcolumn := fun rest => @charBytes_column env lcddev y size mode color x rest _ y size.toNat
    (fontBit env chr size 0) (by rw [List.length_map, List.length_range])
    (columnBytes (n := (size.toNat + 7) / 8) 0 (by omega) fun r _ => hbit 0 r) rfl (by omega) hy
  rw [hshow, hm, map_range_mul, List.range_succ_eq_map, List.flatMap_cons, hcolumn]
  refine ⟨_, ?_, rfl⟩
  split_ifs with hstop hright
  · exact within_nil
  · exact within_nil
  · -- column 65535 is followed by column 0
    rw [ge_iff_le, BitVec.le_def, not_le] at hright
    have hcolumns := @charBytes_columns env lcddev y size mode color (by omega) hy byte _
      (fun c r _ => hbit c r) m 1 (x + 1) hright
    have hshift : ∀ c, 1 + c = c + 1 := fun c => Nat.add_comm 1 c
    simp only [hshift] at hcolumns
    rw [List.flatMap_map]
    simp only [Nat.succ_eq_add_one, hcolumns]
    refine within_flatMap.mpr fun c hc => column_within _ ?_ (by omega)
    rw [List.mem_range] at hc
    split_ifs at hc <;> omega

/-- Below the screen: one bit, as long as the next row is below the screen too. -/
theorem showChar_below (env : TextEnv) (hy : lcddev.height.toNat ≤ (y + 1).toNat) :
    lcdShowChar env lcddev x y chr size mode color =
      column env mode color (fontBit env chr size 0) x.toNat y.toNat 1 := by
  obtain ⟨b, bytes, -, hbit, hshow⟩ := @showChar_font lcddev x y size hsize chr mode color env
  have hfirst : b.getLsbD 7 = fontBit env chr size 0 0 := hbit 0 (by omega)
  rw [hshow, charBytes_below b bytes hy, hfirst]
  simp [column]

/-- In row 65535: a column that goes on from row 0. -/
theorem showChar_last (env : TextEnv) (hh : 0 < lcddev.height.toNat) :
    lcdShowChar env lcddev x 0xFFFF chr size mode color =
      column env mode color (fontBit env chr size 0) x.toNat 65535 1 ++
        column env mode color (fun k => fontBit env chr size 0 (k + 1)) x.toNat 0
          (min (8 * (size.toNat / 2 * ((size.toNat + 7) / 8)) - 1) lcddev.height.toNat) := by
  have h12 := hsize.toNat
  obtain ⟨b, bytes, hlen, hbit, hshow⟩ := @showChar_font lcddev x 0xFFFF size hsize chr mode color
    env
  have hcount : 8 * (size.toNat / 2 * ((size.toNat + 7) / 8)) - 1 = 8 * bytes.length + 7 := by
    omega
  have hsmall : bytes.length < 8000 := by
    rcases h12 with h | h | h | h <;> rw [h] at hlen <;> omega
  rw [hshow, hcount, charBytes_last (by omega) hh b bytes hsmall hbit]
  simp [column]

/-- **What is gone through beyond the screen**, and nothing after it. -/
theorem showChar_beyond (env : TextEnv)
    (h : ¬ (x.toNat < lcddev.width.toNat ∧ y.toNat < lcddev.height.toNat)) :
    ∃ rest, Within lcddev rest ∧
      lcdShowChar env lcddev x y chr size mode color =
        column env mode color (fontBit env chr size 0) x.toNat y.toNat (beyond lcddev x y size) ++
          rest := by
  unfold beyond
  split_ifs with hy hlast
  · exact showChar_right hsize chr mode color env hy
  · obtain ⟨rfl, -⟩ := hlast
    have hpos := csize_pos hsize
    refine ⟨[], within_nil, ?_⟩
    rw [List.append_nil]
    rcases Nat.eq_zero_or_pos lcddev.height.toNat with h0 | hh
    · rw [showChar_below hsize chr mode color env (by rw [h0]; exact Nat.zero_le _), h0,
        Nat.min_eq_right (show 0 + 1 ≤ _ by omega)]
    · have hsum : min (8 * (size.toNat / 2 * ((size.toNat + 7) / 8))) (lcddev.height.toNat + 1) =
          1 + min (8 * (size.toNat / 2 * ((size.toNat + 7) / 8)) - 1) lcddev.height.toNat := by
        omega
      have hshift : (fun k => fontBit env chr size 0 (k + 1)) =
          fun k => fontBit env chr size 0 (1 + k) := funext fun k => by rw [Nat.add_comm]
      rw [showChar_last hsize chr mode color env hh, hsum, column_add, hshift,
        ← column_wrap _ _ 0]
      rfl
  · by_cases hnext : lcddev.height.toNat ≤ (y + 1).toNat
    · exact ⟨[], within_nil, by
        rw [List.append_nil, showChar_below hsize chr mode color env hnext]⟩
    · -- row 0 follows, on the screen
      obtain rfl : y = 0xFFFF := by
        rw [← BitVec.toNat_inj]
        rw [BitVec.toNat_add] at hnext
        change ¬ _ ≤ (y.toNat + 1) % 65536 at hnext
        have hlt := y.isLt
        change y.toNat = 65535
        omega
      have hx : x.toNat < lcddev.width.toNat := Nat.lt_of_not_le fun hx => hlast ⟨rfl, hx⟩
      exact ⟨_, column_within _ hx (by rw [Nat.zero_add]; exact min_le_right _ _),
        showChar_last hsize chr mode color env (by omega)⟩

theorem showChar_within (env : TextEnv) (hx : x.toNat < lcddev.width.toNat)
    (hy : y.toNat < lcddev.height.toNat) :
    Within lcddev (lcdShowChar env lcddev x y chr size mode color) := by
  rw [showChar_eq hsize hx hy]
  refine within_flatMap.mpr fun c hc => ?_
  rw [List.mem_range] at hc
  unfold cellColumns at hc
  refine column_within _ ?_ ?_
  · split_ifs at hc <;> omega
  · unfold cellRows
    omega

/-- **When a character keeps to the screen**: if it begins there, or if it is not in mode 0 and has
no dot among the bits that are gone through beyond it. -/
theorem showChar_within_iff (env : TextEnv) :
    Within lcddev (lcdShowChar env lcddev x y chr size mode color) ↔
      (x.toNat < lcddev.width.toNat ∧ y.toNat < lcddev.height.toNat) ∨
      mode ≠ 0 ∧ ∀ k < beyond lcddev x y size, fontBit env chr size 0 k = false := by
  by_cases h : x.toNat < lcddev.width.toNat ∧ y.toNat < lcddev.height.toNat
  · exact iff_of_true (showChar_within hsize chr mode color env h.1 h.2) (Or.inl h)
  · have h12 := hsize.toNat
    obtain ⟨rest, hrest, hshow⟩ := showChar_beyond hsize chr mode color env h
    have hcsize := csize_pos hsize
    have hpos : 0 < beyond lcddev x y size := by
      unfold beyond cellRows
      split_ifs <;> omega
    have hoff : ∀ k < beyond lcddev x y size, Off lcddev x.toNat (y.toNat + k) := by
      intro k hk
      have hx := x.isLt
      have hy := y.isLt
      unfold beyond at hk
      unfold Off
      split_ifs at hk <;> omega
    rw [hshow, within_append, and_iff_left hrest, column_within_iff hpos hoff, or_iff_right h]

end

end

end RtosExample.Lcd.Beyond
