import RtosExample.Lcd.Layout

/-! # Numbers

`lcd_show_num` and `lcd_show_xnum` divide by the powers of ten that `lcd_pow` computes in 32 bits.
From `10 ^ 10` on these are remainders, and from `10 ^ 32` on they are zero, while the number itself
has at most ten digits.

* `digitCalls_eq`: the loop shows the digits that it computes, with the leading zeros replaced.
* `numberShown_iff`: when these are the digits of the number. -/

namespace RtosExample.Lcd.Number

open RtosExample.Cint RtosExample.Lcd.Dev RtosExample.Lcd.Draw RtosExample.Lcd.Text
open RtosExample.Lcd.Layout

/-! ### The calls -/

/-- `temp` of the two loops: the digit at position `t`. -/
def temp (num : U32) (len t : ℕ) : U8 := (num / lcdPow 10 (len - t - 1) % 10).setWidth 8

/-- A call for position `t` of the field. -/
def digitCall (x y : U16) (size mode : U8) (color : U16) (t : ℕ) (chr : U8) : CharCall :=
  ⟨u16 (int x + int (size / 2) * t), y, chr, size, mode, color⟩

/-- The calls that the loop of `lcd_show_num` and `lcd_show_xnum` makes. -/
def digitCalls (x y : U16) (num : U32) (len size blank mode : U8) (color : U16) :
    ℕ → ℕ → Bool → List CharCall
  | 0, _, _ => []
  | n + 1, t, enshow =>
    if !enshow ∧ (t : ℤ) < int len - 1 then
      if temp num len.toNat t = 0 then
        digitCall x y size mode color t blank ::
          digitCalls x y num len size blank mode color n (t + 1) false
      else
        digitCall x y size mode color t (temp num len.toNat t + 0x30) ::
          digitCalls x y num len size blank mode color n (t + 1) true
    else
      digitCall x y size mode color t (temp num len.toNat t + 0x30) ::
        digitCalls x y num len size blank mode color n (t + 1) enshow

/-- The calls of `lcd_show_num`. -/
def showNumCalls (x y : U16) (num : U32) (len size : U8) (color : U16) : List CharCall :=
  digitCalls x y num len size 0x20 0 color len.toNat 0 false

/-- The calls of `lcd_show_xnum`. -/
def showXnumCalls (x y : U16) (num : U32) (len size mode : U8) (color : U16) : List CharCall :=
  digitCalls x y num len size (if mode &&& 0x80 ≠ 0 then 0x30 else 0x20) (mode &&& 0x01) color
    len.toNat 0 false

section

variable (env : TextEnv) (lcddev : LcdDev) (x y : U16) (num : U32) (len size : U8) (color : U16)

theorem showDigits_calls (blank mode : U8) : ∀ (n t : ℕ) (enshow : Bool),
    showDigits env lcddev x y num len size blank mode color n t enshow =
      (digitCalls x y num len size blank mode color n t enshow).flatMap (CharCall.spans env lcddev)
  | 0, _, _ => rfl
  | n + 1, t, enshow => by
    rw [showDigits, digitCalls]
    simp only [showDigits_calls blank mode n]
    change (if _ then (if temp num len.toNat t = 0 then _ else _) else _) = _
    split_ifs <;> rfl

theorem showNum_calls :
    lcdShowNum env lcddev x y num len size color =
      (showNumCalls x y num len size color).flatMap (CharCall.spans env lcddev) :=
  showDigits_calls env lcddev x y num len size color _ _ _ _ _

theorem showXnum_calls (mode : U8) :
    lcdShowXnum env lcddev x y num len size mode color =
      (showXnumCalls x y num len size mode color).flatMap (CharCall.spans env lcddev) :=
  showDigits_calls env lcddev x y num len size color _ _ _ _ _

end

theorem digitCalls_eq (x y : U16) (num : U32) (len size blank mode : U8) (color : U16) :
    ∀ (n t : ℕ) (enshow : Bool), t + n = len.toNat →
      (enshow = false ↔ ∀ i < t, temp num len.toNat i = 0) →
      digitCalls x y num len size blank mode color n t enshow =
        (List.range' t n).map fun i => digitCall x y size mode color i
          (if i + 1 < len.toNat ∧ ∀ j < i + 1, temp num len.toNat j = 0 then blank
            else temp num len.toNat i + 0x30)
  | 0, _, _, _, _ => rfl
  | n + 1, t, enshow, hlen, henshow => by
    have ih := digitCalls_eq x y num len size blank mode color n (t + 1)
    have hlast : (t : ℤ) < int len - 1 ↔ t + 1 < len.toNat := by
      unfold int
      omega
    have hzeros : (∀ j < t + 1, temp num len.toNat j = 0) ↔
        enshow = false ∧ temp num len.toNat t = 0 := by
      rw [henshow]
      exact Nat.forall_lt_succ_right
    rw [digitCalls, List.range'_succ, List.map_cons]
    simp only [hlast, hzeros, Bool.not_eq_true']
    by_cases hshow : enshow = false ∧ t + 1 < len.toNat
    · obtain ⟨rfl, ht⟩ := hshow
      by_cases hzero : temp num len.toNat t = 0
      · rw [if_pos ⟨rfl, ht⟩, if_pos hzero, if_pos ⟨ht, rfl, hzero⟩,
          ih false (by omega) (iff_of_true rfl (hzeros.mpr ⟨rfl, hzero⟩))]
      · rw [if_pos ⟨rfl, ht⟩, if_neg hzero, if_neg fun h => hzero h.2.2,
          ih true (by omega) (iff_of_false (by simp) fun h => hzero (hzeros.mp h).2)]
    · rw [if_neg hshow, if_neg fun h => hshow ⟨h.2.1, h.1⟩]
      rcases Nat.eq_zero_or_pos n with rfl | hn
      · rfl
      · obtain rfl : enshow = true := by
          by_contra hfalse
          exact hshow ⟨Bool.eq_false_of_not_eq_true hfalse, by omega⟩
        rw [ih true (by omega) (iff_of_false (by simp) fun h => by simpa using (hzeros.mp h).1)]

/-! ### The digits of a number -/

/-- **The digit at position `t`** of a field of `len` digits. -/
def fieldDigit (num len t : ℕ) : ℕ := num % 10 ^ len / 10 ^ (len - 1 - t) % 10

/-- A leading zero, but for the last position. -/
def Leading (num len t : ℕ) : Prop := t + 1 < len ∧ ∀ i < t + 1, fieldDigit num len i = 0

instance (num len t : ℕ) : Decidable (Leading num len t) := inferInstanceAs (Decidable (_ ∧ _))

/-- The character for position `t`, with `blank` for the leading zeros. -/
def fieldChar (blank : U8) (num len t : ℕ) : U8 :=
  if Leading num len t then blank else BitVec.ofNat 8 (0x30 + fieldDigit num len t)

/-- **The number in a field.** -/
def fieldCalls (x y : U16) (num : U32) (len size blank mode : U8) (color : U16) : List CharCall :=
  (List.range len.toNat).map fun t =>
    digitCall x y size mode color t (fieldChar blank num.toNat len.toNat t)

/-- The numbers below this are below all the powers that are computed for `len` digits and are not
exact. -/
def powLimit (len : ℕ) : ℕ :=
  if len ≤ 10 then 2 ^ 32
  else if len = 11 then 1410065408
  else if len ≤ 14 then 1215752192
  else if len ≤ 28 then 276447232
  else if len ≤ 32 then 268435456
  else 0

/-- **Both functions show the number**, without a division by zero, and the same in mode 0. -/
structure NumberShown (x y : U16) (num : U32) (len size : U8) (color : U16) : Prop where
  divisors : ∀ t < len.toNat, lcdPow 10 (len.toNat - t - 1) ≠ 0
  showNum : showNumCalls x y num len size color = fieldCalls x y num len size 0x20 0 color
  showXnum : ∀ mode : U8, showXnumCalls x y num len size mode color =
    fieldCalls x y num len size (if mode &&& 0x80 ≠ 0 then 0x30 else 0x20) (mode &&& 0x01) color
  same : showXnumCalls x y num len size 0 color = showNumCalls x y num len size color

theorem lcdPow_toNat : ∀ n : ℕ, (lcdPow 10 n).toNat = 10 ^ n % 2 ^ 32
  | 0 => rfl
  | n + 1 => by
    rw [lcdPow, BitVec.toNat_mul, lcdPow_toNat n, pow_succ, Nat.mod_mul_mod]
    rfl

theorem lcdPow_ne_zero_iff {n : ℕ} : lcdPow 10 n ≠ 0 ↔ n < 32 := by
  have hzero : lcdPow 10 n = 0 ↔ 10 ^ n % 2 ^ 32 = 0 := by
    rw [← lcdPow_toNat, ← BitVec.toNat_inj]
    rfl
  rw [ne_eq, hzero]
  constructor
  · intro h
    by_contra hn
    refine h (Nat.mod_eq_zero_of_dvd ?_)
    exact (pow_dvd_pow 2 (not_lt.mp hn)).trans (pow_dvd_pow_of_dvd (by decide) n)
  · have hpowers : ∀ n < 32, 10 ^ n % 2 ^ 32 ≠ 0 := by decide
    exact hpowers n

theorem fieldDigit_eq {num len t : ℕ} (h : t < len) :
    fieldDigit num len t = num / 10 ^ (len - 1 - t) % 10 := by
  have hsplit : 10 ^ len = 10 ^ (len - 1 - t) * 10 ^ (t + 1) := by
    rw [← pow_add]
    congr 1
    omega
  rw [fieldDigit, hsplit, Nat.mod_mul_right_div_self,
    Nat.mod_mod_of_dvd _ (dvd_pow_self 10 (Nat.succ_ne_zero t))]

theorem temp_toNat (num : U32) (len t : ℕ) :
    (temp num len t).toNat = num.toNat / (10 ^ (len - t - 1) % 2 ^ 32) % 10 := by
  rw [temp, BitVec.toNat_setWidth, BitVec.toNat_umod, BitVec.toNat_udiv, lcdPow_toNat]
  have hmod : ∀ n : ℕ, n % 10 % 2 ^ 8 = n % 10 := fun n => Nat.mod_eq_of_lt (by omega)
  exact hmod _

theorem powLimit_le {len e : ℕ} (hlen : len ≤ 32) (he : 10 ≤ e) (h : e < len) :
    powLimit len ≤ 10 ^ e % 2 ^ 32 := by
  have hpowers : ∀ e < 32, 10 ≤ e → powLimit (e + 1) ≤ 10 ^ e % 2 ^ 32 := by decide
  refine le_trans ?_ (hpowers e (by omega) he)
  unfold powLimit
  split_ifs <;> omega

theorem temp_eq {num : U32} {len t : ℕ} (ht : t < len) (h : num.toNat < powLimit len) :
    (temp num len t).toNat = fieldDigit num.toNat len t := by
  have hlen : len ≤ 32 := by
    by_contra hlen
    unfold powLimit at h
    split_ifs at h <;> omega
  have hnum := num.isLt
  rw [temp_toNat, fieldDigit_eq ht, Nat.sub_right_comm]
  rcases Nat.lt_or_ge (len - 1 - t) 10 with he | he
  · have hexact : ∀ e < 10, 10 ^ e % 2 ^ 32 = 10 ^ e := by decide
    rw [hexact _ he]
  · have hsmall := powLimit_le hlen he (by omega)
    have hpow : 10 ^ 10 ≤ 10 ^ (len - 1 - t) := Nat.pow_le_pow_right (by omega) he
    rw [Nat.div_eq_of_lt (by omega), Nat.div_eq_of_lt (by omega)]

/-- A number of more than ten digits has leading zeros. -/
theorem leading_of_long {num : U32} {len t : ℕ} (ht : t + 10 < len) :
    Leading num.toNat len t := by
  have hnum := num.isLt
  refine ⟨by omega, fun i hi => ?_⟩
  have hpow : 10 ^ 10 ≤ 10 ^ (len - 1 - i) := Nat.pow_le_pow_right (by omega) (by omega)
  rw [fieldDigit_eq (by omega), Nat.div_eq_of_lt (by omega)]

section

variable {x y : U16} {num : U32} {len size : U8} {color : U16}

theorem digitCalls_field (h : num.toNat < powLimit len.toNat) (blank mode : U8) :
    digitCalls x y num len size blank mode color len.toNat 0 false =
      fieldCalls x y num len size blank mode color := by
  rw [digitCalls_eq x y num len size blank mode color len.toNat 0 false (Nat.zero_add _)
    (iff_of_true rfl fun i hi => absurd hi (Nat.not_lt_zero i)), ← List.range_eq_range', fieldCalls]
  refine List.map_congr_left fun t ht => ?_
  rw [List.mem_range] at ht
  have hzero : ∀ j < len.toNat, temp num len.toNat j = 0 ↔
      fieldDigit num.toNat len.toNat j = 0 := by
    intro j hj
    rw [← temp_eq hj h, ← BitVec.toNat_inj]
    rfl
  have hleading : (t + 1 < len.toNat ∧ ∀ j < t + 1, temp num len.toNat j = 0) ↔
      Leading num.toNat len.toNat t := by
    refine and_congr_right fun hlast => forall₂_congr fun j hj => hzero j (by omega)
  have hchar : temp num len.toNat t + 0x30 =
      BitVec.ofNat 8 (0x30 + fieldDigit num.toNat len.toNat t) := by
    rw [← temp_eq ht h, BitVec.ofNat_add, BitVec.ofNat_toNat, BitVec.setWidth_eq, BitVec.add_comm]
    rfl
  rw [fieldChar, ← hchar]
  simp only [hleading]

/-- Where the number has leading zeros, a digit that is computed has to be zero too. -/
theorem temp_zero_of_field (h : showNumCalls x y num len size color =
      fieldCalls x y num len size 0x20 0 color) {t : ℕ} (ht : t + 10 < len.toNat) :
    (temp num len.toNat t).toNat = 0 := by
  rw [showNumCalls, digitCalls_eq x y num len size 0x20 0 color len.toNat 0 false (Nat.zero_add _)
    (iff_of_true rfl fun i hi => absurd hi (Nat.not_lt_zero i)), ← List.range_eq_range', fieldCalls,
    List.map_inj_left] at h
  have hcall := congrArg CharCall.chr (h t (List.mem_range.mpr (by omega)))
  have hlt := temp_toNat num len.toNat t
  simp only [digitCall, fieldChar, if_pos (leading_of_long ht)] at hcall
  split_ifs at hcall with hzero
  · rw [hzero.2 t (Nat.lt_succ_self t)]
    rfl
  · have hsum := congrArg BitVec.toNat hcall
    rw [BitVec.toNat_add] at hsum
    change ((temp num len.toNat t).toNat + 48) % 256 = 32 at hsum
    omega

/-- **When a number is shown**: if it is below the powers that are not exact. -/
theorem numberShown_iff :
    NumberShown x y num len size color ↔ num.toNat < powLimit len.toNat := by
  have hnum := num.isLt
  constructor
  · intro h
    have hlen : len.toNat ≤ 32 := by
      by_contra hlen
      have hdivisor := h.divisors (len.toNat - 33) (by omega)
      rw [lcdPow_ne_zero_iff] at hdivisor
      omega
    have hdigit : ∀ e, 10 ≤ e → e < len.toNat → num.toNat / (10 ^ e % 2 ^ 32) % 10 = 0 := by
      intro e he hlt
      have hzero := temp_zero_of_field h.showNum (t := len.toNat - 1 - e) (by omega)
      rwa [temp_toNat, show len.toNat - (len.toNat - 1 - e) - 1 = e by omega] at hzero
    -- the four powers that are smaller than those before them
    have h10 : 10 < len.toNat → num.toNat / 1410065408 % 10 = 0 := hdigit 10 (by omega)
    have h11 : 11 < len.toNat → num.toNat / 1215752192 % 10 = 0 := hdigit 11 (by omega)
    have h14 : 14 < len.toNat → num.toNat / 276447232 % 10 = 0 := hdigit 14 (by omega)
    have h28 : 28 < len.toNat → num.toNat / 268435456 % 10 = 0 := hdigit 28 (by omega)
    unfold powLimit
    split_ifs <;> omega
  · intro h
    refine ⟨fun t ht => lcdPow_ne_zero_iff.mpr ?_, digitCalls_field h 0x20 0,
      fun mode => digitCalls_field h _ _, rfl⟩
    unfold powLimit at h
    split_ifs at h <;> omega

end

/-- **Eleven digits**: the first is `3`, the quotient by `10 ^ 10` in 32 bits. -/
theorem showNum_wrapped :
    (showNumCalls 0 0 4294967295 11 16 0xF800)[0]? = some ⟨0, 0, 0x33, 16, 0, 0xF800⟩ ∧
    ¬ ∀ (x y : U16) (num : U32) (len size : U8) (color : U16), 1 ≤ len.toNat →
      NumberShown x y num len size color := by
  have hcall : (showNumCalls 0 0 4294967295 11 16 0xF800)[0]? =
      some ⟨0, 0, 0x33, 16, 0, 0xF800⟩ := by decide
  refine ⟨hcall, fun h => ?_⟩
  have hfield := congrArg (fun calls => calls[0]?)
    (h 0 0 4294967295 11 16 0xF800 (by decide)).showNum
  simp only [hcall] at hfield
  exact absurd hfield (by decide)

end RtosExample.Lcd.Number
