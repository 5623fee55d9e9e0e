import Mathlib.Logic.Function.Iterate
import Mathlib.Tactic.Linarith
import Mathlib.Tactic.Ring

/-! # A raster scan

A pointer that goes through a window of cells row by row: at the last column it goes on with the
first column of the next row, and at the last row with the first one (`Window.next`).

* `next_iterate_row`: up to the last column it stays in its row.
* `exists_iterate`: from the first cell it comes to every cell of the window, within as many steps
  as the window has cells.
* `has_iterate`: it never leaves the window.
* `map_range_mul`: the cells of a raster, numbered row by row. -/

namespace RtosExample.Lib.Raster

/-- The columns `sx` to `ex` of the rows `sy` to `ey`. -/
structure Window where
  sx : ℕ
  ex : ℕ
  sy : ℕ
  ey : ℕ

/-- The cell lies in the window. -/
def Window.Has (w : Window) (p : ℕ × ℕ) : Prop :=
  w.sx ≤ p.1 ∧ p.1 ≤ w.ex ∧ w.sy ≤ p.2 ∧ p.2 ≤ w.ey

/-- The next cell. -/
def Window.next (w : Window) (p : ℕ × ℕ) : ℕ × ℕ :=
  if p.1 = w.ex then (w.sx, if p.2 = w.ey then w.sy else p.2 + 1) else (p.1 + 1, p.2)

variable (w : Window)

theorem next_iterate_row {x : ℕ} (y : ℕ) : ∀ {k : ℕ}, x + k ≤ w.ex →
    w.next^[k] (x, y) = (x + k, y)
  | 0, _ => rfl
  | k + 1, h => by
    rw [Function.iterate_succ_apply', next_iterate_row y (by omega), Window.next,
      if_neg (show x + k ≠ w.ex by omega)]
    rfl

variable {w}

theorem next_iterate_width (hx : w.sx ≤ w.ex) {y : ℕ} (hy : y ≠ w.ey) :
    w.next^[w.ex - w.sx + 1] (w.sx, y) = (w.sx, y + 1) := by
  rw [Function.iterate_succ_apply', next_iterate_row w y (by omega), Window.next,
    if_pos (show w.sx + (w.ex - w.sx) = w.ex by omega), if_neg (show y ≠ w.ey from hy)]

theorem next_iterate_rows (hx : w.sx ≤ w.ex) : ∀ {j : ℕ}, w.sy + j ≤ w.ey →
    w.next^[j * (w.ex - w.sx + 1)] (w.sx, w.sy) = (w.sx, w.sy + j)
  | 0, _ => by simp
  | j + 1, h => by
    rw [Nat.succ_mul, Nat.add_comm (j * _), Function.iterate_add_apply,
      next_iterate_rows hx (by omega), next_iterate_width hx (by omega)]
    rfl

theorem exists_iterate {p : ℕ × ℕ} (h : w.Has p) :
    ∃ k < (w.ex - w.sx + 1) * (w.ey - w.sy + 1), w.next^[k] (w.sx, w.sy) = p := by
  obtain ⟨h1, h2, h3, h4⟩ := h
  have hx : w.sx ≤ w.ex := by omega
  obtain ⟨i, hi⟩ : ∃ i, p.1 = w.sx + i := ⟨p.1 - w.sx, by omega⟩
  obtain ⟨j, hj⟩ : ∃ j, p.2 = w.sy + j := ⟨p.2 - w.sy, by omega⟩
  refine ⟨i + j * (w.ex - w.sx + 1), ?_, ?_⟩
  · have hjle : j * (w.ex - w.sx + 1) ≤ (w.ey - w.sy) * (w.ex - w.sx + 1) :=
      Nat.mul_le_mul_right _ (by omega)
    have hcells : (w.ex - w.sx + 1) * (w.ey - w.sy + 1) =
        (w.ey - w.sy) * (w.ex - w.sx + 1) + (w.ex - w.sx + 1) := by ring
    omega
  · rw [Function.iterate_add_apply, next_iterate_rows hx (by omega),
      next_iterate_row w _ (by omega), ← hi, ← hj]

theorem has_next (hx : w.sx ≤ w.ex) (hy : w.sy ≤ w.ey) {p : ℕ × ℕ} (h : w.Has p) :
    w.Has (w.next p) := by
  obtain ⟨h1, h2, h3, h4⟩ := h
  unfold Window.next
  split_ifs with hc hr
  · exact ⟨le_rfl, hx, le_rfl, hy⟩
  · exact ⟨le_rfl, hx, by simp only; omega, by simp only; omega⟩
  · exact ⟨by simp only; omega, by simp only; omega, h3, h4⟩

theorem has_iterate (hx : w.sx ≤ w.ex) (hy : w.sy ≤ w.ey) :
    ∀ k : ℕ, w.Has (w.next^[k] (w.sx, w.sy))
  | 0 => ⟨le_rfl, hx, le_rfl, hy⟩
  | k + 1 => by
    rw [Function.iterate_succ_apply']
    exact has_next hx hy (has_iterate hx hy k)

/-- **Row by row.** The numbers below `h * w` are those of `h` rows of `w`. -/
theorem map_range_mul {α : Type} (f : ℕ → α) (h w : ℕ) :
    (List.range (h * w)).map f =
      (List.range h).flatMap fun i => (List.range w).map fun j => f (i * w + j) := by
  induction h with
  | zero => simp
  | succ h ih =>
    rw [Nat.succ_mul, List.range_add, List.map_append, List.map_map, ih, List.range_succ,
      List.flatMap_append, List.flatMap_singleton]
    rfl

end RtosExample.Lib.Raster
