import RtosExample.Lcd.CircleShape

/-! # The words of the filled circle

`lcd_fill_circle` computes in 32 bits, and for the largest radii the sum of the two squares in a
round comes within a few thousand of `2 ^ 32`. It stays below because `xr` is the half width of the
row before (`xrAt_toNat`): the sum of the squares before a round is at most `sqmax`, and the round
adds one odd number to it.

* `fillCircle_rounds`: the rounds of the loop, whose variable `xr` is `xrAt`.
* `fillCircle_noWrap`: they compute as over the integers, for every radius but zero. -/

namespace RtosExample.Lcd.CircleWords

open RtosExample.Cint RtosExample.Lcd.Dev RtosExample.Lcd.Draw RtosExample.Lcd.FillCircle
open RtosExample.Lcd.CircleShape

/-! ### The rounds -/

/-- Round `k + 1`. -/
def circleRound (lcddev : LcdDev) (x y r color : U16) (k : ℕ) : Option (List Span) := do
  let outside ← circleOutside lcddev x y color (circleImax r) (circleSqmax r)
    (BitVec.ofNat 32 (k + 1)) (xrAt r k)
  let inside ← circleInside lcddev x y color (BitVec.ofNat 32 (k + 1)) (xrAt r (k + 1))
  return outside ++ inside

theorem fillCircleLoop_rounds (lcddev : LcdDev) (x y r color : U16) : ∀ n j : ℕ,
    fillCircleLoop lcddev x y color (circleImax r) (circleSqmax r) n (BitVec.ofNat 32 (j + 1))
        (xrAt r j) =
      ((List.range' j n).mapM (circleRound lcddev x y r color)).map List.flatten
  | 0, _ => rfl
  | n + 1, j => by
    have hnext : BitVec.ofNat 32 (j + 1) + 1 = BitVec.ofNat 32 (j + 1 + 1) :=
      (BitVec.ofNat_add (j + 1) 1).symm
    have ih := fillCircleLoop_rounds lcddev x y r color n (j + 1)
    have hxr : circleXr (circleSqmax r) (BitVec.ofNat 32 (j + 1)) (xrAt r j) = xrAt r (j + 1) := rfl
    simp only [fillCircleLoop, hnext, hxr, ih, List.range'_succ, List.mapM_cons, circleRound,
      Option.bind_eq_bind, Option.bind_assoc, Option.pure_def, Option.map_bind, Option.bind_some,
      Option.map_some, Option.bind_map, Function.comp_def, List.flatten_cons]

/-- **`lcd_fill_circle`** is its middle row and its rounds. -/
theorem fillCircle_rounds (lcddev : LcdDev) (x y r color : U16) :
    lcdFillCircle lcddev x y r color = (do
      let middle ← lcdDrawHline lcddev (u16 (int x - int r)) y (u16 (2 * int r)) color
      let rounds ← (List.range (circleImax r).toNat).mapM (circleRound lcddev x y r color)
      return middle ++ rounds.flatten) := by
  have hloop := fillCircleLoop_rounds lcddev x y r color (circleImax r).toNat 0
  change fillCircleLoop lcddev x y color (circleImax r) (circleSqmax r) (circleImax r).toNat 1
    (r.setWidth 32) = _ at hloop
  simp only [lcdFillCircle, hloop, ← List.range_eq_range', Option.bind_eq_bind, Option.bind_map,
    Function.comp_def]

/-! ### No overflow -/

/-- **Round `i` computes as over the integers**: what the rounds before leave lies inside the circle,
the sum of the squares is not cut, and `xr` goes down by one or not at all, never from zero. -/
structure Exact (r : U16) (i : ℕ) : Prop where
  inside : (i - 1) * (i - 1) + (xrAt r (i - 1)).toNat * (xrAt r (i - 1)).toNat ≤
    r.toNat * r.toNat + r.toNat / 2
  fits : i * i + (xrAt r (i - 1)).toNat * (xrAt r (i - 1)).toNat < 2 ^ 32
  squares : (BitVec.ofNat 32 i * BitVec.ofNat 32 i + xrAt r (i - 1) * xrAt r (i - 1)).toNat =
    i * i + (xrAt r (i - 1)).toNat * (xrAt r (i - 1)).toNat
  next : ((xrAt r i).toNat : ℤ) =
    if i * i + (xrAt r (i - 1)).toNat * (xrAt r (i - 1)).toNat >
        r.toNat * r.toNat + r.toNat / 2 then
      ((xrAt r (i - 1)).toNat : ℤ) - 1
    else (xrAt r (i - 1)).toNat

theorem round_exact {r : U16} (hr : 1 ≤ r.toNat) {j : ℕ} (hj : j < imax r.toNat) :
    Exact r (j + 1) := by
  have hlt := round_lt hr r.isLt hj
  have hpos := half_pos hr hj
  have hi : (BitVec.ofNat 32 (j + 1)).toNat = j + 1 := by
    have := r.isLt
    have := imax_le hr
    rw [BitVec.toNat_ofNat]
    omega
  have hxr := xrAt_toNat hr j hj.le
  have hnext := xrAt_toNat hr (j + 1) hj
  constructor
  · rw [Nat.add_sub_cancel, hxr]
    exact (half_halfWidth hr hj.le).1
  · rw [Nat.add_sub_cancel, hxr]
    exact hlt
  · rw [Nat.add_sub_cancel, toNat_squares (by rw [hi, hxr]; exact hlt), hi]
  · rw [Nat.add_sub_cancel, hnext, hxr, half_succ]
    unfold sqmax
    split_ifs <;> omega

/-- **The arithmetic of `lcd_fill_circle` never wraps**, for every radius but zero. -/
theorem fillCircle_noWrap {r : U16} (hr : 1 ≤ r.toNat) :
    (r.toNat * 707 < 2 ^ 32 ∧ (circleImax r).toNat = r.toNat * 707 / 1000 + 1) ∧
    (r.toNat * r.toNat + r.toNat / 2 < 2 ^ 32 ∧
      (circleSqmax r).toNat = r.toNat * r.toNat + r.toNat / 2) ∧
    ∀ i, 1 ≤ i → i ≤ (circleImax r).toNat → Exact r i := by
  have hlt := r.isLt
  have hsq : r.toNat * r.toNat ≤ 65535 * 65535 := Nat.mul_self_le_mul_self (by omega)
  refine ⟨⟨by omega, circleImax_toNat r⟩, ⟨by omega, circleSqmax_toNat r⟩, fun i h1 hi => ?_⟩
  obtain ⟨j, rfl⟩ : ∃ j, i = j + 1 := Nat.exists_eq_succ_of_ne_zero (by omega)
  rw [circleImax_toNat] at hi
  exact round_exact hr hi

/-- The theorem at the last round of the largest circle. -/
theorem fillCircle_noWrap_largest : Exact 65535 46334 :=
  (fillCircle_noWrap (r := 65535) (by decide)).2.2 46334 (by decide) (by decide)

end RtosExample.Lcd.CircleWords
