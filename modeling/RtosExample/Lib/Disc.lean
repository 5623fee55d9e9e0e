import Mathlib.Order.Bounds.Basic
import Mathlib.Data.Nat.Sqrt
import Mathlib.Tactic.Linarith

/-! # The half widths of a disc, row by row

The disc of the points with `x * x + y * y ≤ S` has in row `k` the half width `x` for which
`HalfWidth S k x` holds. `walk S r` goes up the rows from row `0`, where the half width is `r`, and
makes it smaller by one where the point would lie outside.

* `walk_halfWidth`: the walk is exact, up to a row `m` such that the rows below it are wider than
  high. One step down in each row is enough there.
* `exists_crossing`: the rows above the walk's last half width are the half widths it stepped down
  from, and their half widths are the rows where it did so (`crossing_halfWidth`). -/

namespace RtosExample.Lib.Disc

variable {S r m k x : ℕ}

/-- Row `k` reaches to `x`, and no further. -/
def HalfWidth (S k x : ℕ) : Prop := k * k + x * x ≤ S ∧ S < k * k + (x + 1) * (x + 1)

theorem HalfWidth.isGreatest (h : HalfWidth S k x) : IsGreatest {w | w * w + k * k ≤ S} x := by
  obtain ⟨h1, h2⟩ := h
  refine ⟨by rw [Set.mem_ofPred_eq]; omega, fun w hw => ?_⟩
  rw [Set.mem_ofPred_eq] at hw
  by_contra hn
  have hsq : (x + 1) * (x + 1) ≤ w * w := Nat.mul_self_le_mul_self (by omega)
  omega

theorem HalfWidth.unique {x' : ℕ} (h : HalfWidth S k x) (h' : HalfWidth S k x') : x = x' :=
  h.isGreatest.unique h'.isGreatest

theorem exists_halfWidth (h : k * k ≤ S) : ∃ x, HalfWidth S k x := by
  refine ⟨Nat.sqrt (S - k * k), ?_, ?_⟩
  · have := Nat.sqrt_le (S - k * k)
    omega
  · have := Nat.lt_succ_sqrt (S - k * k)
    rw [Nat.succ_eq_add_one] at this
    omega

/-- One row up. -/
def next (S k x : ℕ) : ℕ := if k * k + x * x > S then x - 1 else x

/-- The walk up the rows. -/
def walk (S r : ℕ) : ℕ → ℕ
  | 0 => r
  | k + 1 => next S (k + 1) (walk S r k)

theorem next_le (S k x : ℕ) : next S k x ≤ x ∧ x ≤ next S k x + 1 := by
  unfold next
  split_ifs <;> omega

theorem walk_le (S r : ℕ) : ∀ k, walk S r k ≤ r
  | 0 => le_rfl
  | k + 1 => (next_le S (k + 1) _).1.trans (walk_le S r k)

theorem next_halfWidth (h : HalfWidth S k x) (hk : k < x ∨ 2 * (k * k) + 2 ≤ S) :
    HalfWidth S (k + 1) (next S (k + 1) x) := by
  obtain ⟨h1, h2⟩ := h
  unfold next
  split_ifs with ht
  · obtain ⟨z, rfl⟩ : ∃ z, x = z + 1 := by
      refine Nat.exists_eq_succ_of_ne_zero fun hx => ?_
      subst hx
      omega
    refine ⟨?_, by simpa using ht⟩
    rw [Nat.add_sub_cancel]
    rcases Nat.lt_or_ge k (z + 1) with hlt | hge
    · nlinarith
    · -- as high as wide: the point below the diagonal
      have hs := hk.resolve_left (by omega)
      have hz : k = z + 1 := by
        by_contra hne
        have hsq : (z + 1 + 1) * (z + 1 + 1) ≤ k * k := Nat.mul_self_le_mul_self (by omega)
        omega
      subst hz
      nlinarith
  · exact ⟨Nat.le_of_not_lt ht, by nlinarith⟩

section

variable (hr : 0 < r) (h1 : r * r ≤ S) (h2 : S < (r + 1) * (r + 1))
  (hm : ∀ k, 0 < k → k < m → 2 * (k * k) + 2 ≤ S)

include hr h1 h2 hm

theorem walk_halfWidth : ∀ k ≤ m, HalfWidth S k (walk S r k)
  | 0, _ => ⟨by simpa [walk] using h1, by simpa [walk] using h2⟩
  | k + 1, hk => by
    refine next_halfWidth (walk_halfWidth k (by omega)) ?_
    rcases Nat.eq_zero_or_pos k with rfl | hpos
    · exact Or.inl hr
    · exact Or.inr (hm k hpos hk)

/-- It never steps down from zero. -/
theorem walk_pos (hk : k < m) : 0 < walk S r k := by
  rcases Nat.eq_zero_or_pos k with rfl | hpos
  · exact hr
  · by_contra hz
    obtain ⟨-, hw⟩ := walk_halfWidth hr h1 h2 hm k hk.le
    have := hm k hpos hk
    rw [Nat.eq_zero_of_not_pos hz] at hw
    omega

/-- A row it steps down from has the half width it has come to. -/
theorem crossing_halfWidth (hk : k < m) (hc : walk S r (k + 1) ≠ walk S r k) :
    HalfWidth S (walk S r k) k := by
  obtain ⟨hw, -⟩ := walk_halfWidth hr h1 h2 hm k hk.le
  refine ⟨by omega, ?_⟩
  by_contra hn
  refine hc (if_neg ?_)
  omega

end

theorem exists_crossing {d : ℕ} : ∀ {m : ℕ}, walk S r m < d → d ≤ r →
    ∃ k < m, walk S r k = d ∧ walk S r (k + 1) ≠ walk S r k
  | 0, h, hd => absurd (h : r < d) (not_lt.mpr hd)
  | m + 1, h, hd => by
    rcases Nat.lt_or_ge (walk S r m) d with hlt | hge
    · obtain ⟨k, hk, hc⟩ := exists_crossing hlt hd
      exact ⟨k, by omega, hc⟩
    · have hn : walk S r m ≤ walk S r (m + 1) + 1 := (next_le S (m + 1) _).2
      exact ⟨m, by omega, by omega, by omega⟩

end RtosExample.Lib.Disc
