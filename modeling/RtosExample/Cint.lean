import Mathlib.Tactic.Linarith

/-! # The integer types of the C sources

`rt_uint8_t`, `rt_uint16_t` and `rt_uint32_t` are bit vectors, whose arithmetic wraps as the C
types' does. An expression that C computes in `int` is computed here in `ℤ`, and only the
conversion to the parameter or variable that receives it cuts it to size. -/

namespace RtosExample.Cint

/-- `rt_uint8_t`. -/
abbrev U8 := BitVec 8

/-- `rt_uint16_t`. -/
abbrev U16 := BitVec 16

/-- `rt_uint32_t`. -/
abbrev U32 := BitVec 32

/-- The conversion of an `int` value to `rt_uint16_t`. -/
def u16 (v : ℤ) : U16 := BitVec.ofInt 16 v

/-- The value of a variable of an unsigned type, promoted to `int`. -/
def int {w : ℕ} (v : BitVec w) : ℤ := v.toNat

/-- `v >> 8` of an `int` expression, as it is passed to a 16-bit parameter. -/
def hiByte (v : ℤ) : U16 := u16 (v / 256)

/-- `v & 0xFF` of an `int` expression, as it is passed to a 16-bit parameter. -/
def loByte (v : ℤ) : U16 := u16 (v % 256)

theorem u16_toNat (v : ℤ) : (u16 v).toNat = (v % 65536).toNat := by
  simp [u16]

theorem int_u16 {v : ℤ} (h : 0 ≤ v ∧ v < 65536) : int (u16 v) = v := by
  have := u16_toNat v
  unfold int
  omega

theorem int_bounds (v : U16) : 0 ≤ int v ∧ int v < 65536 := by
  have := v.isLt
  unfold int
  omega

theorem hiByte_lt {v : ℤ} (h : 0 ≤ v ∧ v < 65536) : (hiByte v).toNat < 256 := by
  rw [hiByte, u16_toNat]
  omega

theorem loByte_lt (v : ℤ) : (loByte v).toNat < 256 := by
  rw [loByte, u16_toNat]
  omega

/-- **The two bytes recombine.** A device that keeps the low eight bits of each of the two words
reads the value back. -/
theorem hiByte_loByte {v : ℤ} (h0 : 0 ≤ v) (h : v < 65536) :
    ((hiByte v).toNat % 256 * 256 + (loByte v).toNat % 256 : ℤ) = v := by
  have h1 := u16_toNat (v / 256)
  have h2 := u16_toNat (v % 256)
  unfold hiByte loByte
  omega

end RtosExample.Cint
