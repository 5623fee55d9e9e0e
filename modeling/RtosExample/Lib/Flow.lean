import Mathlib.Logic.Function.Iterate
import Mathlib.Tactic.Linarith
import Mathlib.Tactic.Ring

/-! # Text flow

A cursor goes to the right in steps of one width. At the right edge it goes on with the next line,
and every line but the first begins at the left edge, wherever the first one began. A thing is put
where the cursor is when it has been wrapped (`wrap`), and then the cursor moves on (`advance`).

* `wrap_iterate`: the place of thing `k` (`cell`).
* `cell_left`: if the first line begins at the left edge too, the places are a grid.
* `forall_grid_iff`, `cells_lt_iff`: bounds on all the places that begin above some row. -/

namespace RtosExample.Lib.Flow

/-- The two edges, and the width and the height of a place. -/
structure Margins where
  left : ℕ
  right : ℕ
  step : ℕ
  line : ℕ

variable (f : Margins)

def Margins.wrap (p : ℕ × ℕ) : ℕ × ℕ := if f.right ≤ p.1 then (f.left, p.2 + f.line) else p

def Margins.advance (p : ℕ × ℕ) : ℕ × ℕ := ((f.wrap p).1 + f.step, (f.wrap p).2)

/-- The number of places in a line from column `a` on. -/
def Margins.fit (a : ℕ) : ℕ := (f.right - a + f.step - 1) / f.step

/-- The places in a line that is not the first: one, if it begins at the right edge. -/
def Margins.perLine : ℕ := max 1 (f.fit f.left)

/-- **The place of thing `k`**, from `(x, y)` on. -/
def Margins.cell (x y k : ℕ) : ℕ × ℕ :=
  if k < f.fit x then (x + k * f.step, y)
  else (f.left + (k - f.fit x) % f.perLine * f.step,
    y + (1 + (k - f.fit x) / f.perLine) * f.line)

variable {f}

/-- A wrap goes down by at most one line. -/
theorem wrap_row (p : ℕ × ℕ) : p.2 ≤ (f.wrap p).2 ∧ (f.wrap p).2 ≤ p.2 + f.line := by
  unfold Margins.wrap
  split_ifs <;> simp

theorem cell_first {x y k : ℕ} (h : k < f.fit x) : f.cell x y k = (x + k * f.step, y) := if_pos h

theorem cell_next (x y j : ℕ) : f.cell x y (f.fit x + j) =
    (f.left + j % f.perLine * f.step, y + (1 + j / f.perLine) * f.line) := by
  rw [Margins.cell, if_neg (by omega), Nat.add_sub_cancel_left]

theorem succ_div_mod_of_lt {n j : ℕ} (h : j % n + 1 < n) :
    (j + 1) / n = j / n ∧ (j + 1) % n = j % n + 1 := by
  rw [Nat.div_mod_unique (by omega)]
  have hj := Nat.mod_add_div j n
  exact ⟨by omega, h⟩

theorem succ_div_mod_of_eq {n j : ℕ} (h : j % n + 1 = n) :
    (j + 1) / n = j / n + 1 ∧ (j + 1) % n = 0 := by
  rw [Nat.div_mod_unique (by omega), Nat.mul_succ]
  have hj := Nat.mod_add_div j n
  exact ⟨by omega, by omega⟩

theorem perLine_pos : 0 < f.perLine := lt_of_lt_of_le Nat.one_pos (le_max_left _ _)

theorem cell_row_mono (x y : ℕ) {i k : ℕ} (h : i ≤ k) : (f.cell x y i).2 ≤ (f.cell x y k).2 := by
  rcases Nat.lt_or_ge k (f.fit x) with hk | hk
  · rw [cell_first hk, cell_first (h.trans_lt hk)]
  · obtain ⟨j, rfl⟩ := Nat.exists_eq_add_of_le hk
    rcases Nat.lt_or_ge i (f.fit x) with hi | hi
    · rw [cell_next, cell_first hi]
      exact Nat.le_add_right _ _
    · obtain ⟨m, rfl⟩ := Nat.exists_eq_add_of_le hi
      rw [cell_next, cell_next]
      exact Nat.add_le_add_left (Nat.mul_le_mul_right _
        (Nat.add_le_add_left (Nat.div_le_div_right (by omega)) 1)) y

theorem cell_left {x : ℕ} (hx : x = f.left) (hfit : 0 < f.fit x) (y k : ℕ) :
    f.cell x y k = (x + k % f.fit x * f.step, y + k / f.fit x * f.line) := by
  have hper : f.perLine = f.fit x := by
    rw [Margins.perLine, ← hx, max_eq_right hfit]
  rcases Nat.lt_or_ge k (f.fit x) with hk | hk
  · rw [cell_first hk, Nat.mod_eq_of_lt hk, Nat.div_eq_of_lt hk]
    simp
  · obtain ⟨j, rfl⟩ := Nat.exists_eq_add_of_le hk
    rw [cell_next, hper, ← hx, Nat.add_mod_left, Nat.add_div_left j hfit, Nat.add_comm 1]

section

variable (hstep : 0 < f.step)

include hstep

theorem lt_fit {a k : ℕ} : k < f.fit a ↔ a + k * f.step < f.right := by
  rw [Margins.fit, Nat.lt_iff_add_one_le, Nat.le_div_iff_mul_le hstep, Nat.succ_mul]
  omega

theorem cell_column (x y k : ℕ) : (f.cell x y k).1 < f.right ∨ (f.cell x y k).1 = f.left := by
  rcases Nat.lt_or_ge k (f.fit x) with hk | hk
  · rw [cell_first hk]
    exact Or.inl ((lt_fit hstep).mp hk)
  · obtain ⟨j, rfl⟩ := Nat.exists_eq_add_of_le hk
    rw [cell_next]
    have hmod := Nat.mod_lt j (perLine_pos (f := f))
    rcases Nat.eq_zero_or_pos (j % f.perLine) with h0 | hpos
    · rw [h0, Nat.zero_mul]
      exact Or.inr rfl
    · refine Or.inl ((lt_fit hstep).mp ?_)
      unfold Margins.perLine at hmod hpos ⊢
      omega

theorem wrap_cell (x y k : ℕ) :
    f.wrap ((f.cell x y k).1 + f.step, (f.cell x y k).2) = f.cell x y (k + 1) := by
  rcases Nat.lt_or_ge (k + 1) (f.fit x) with hk | hk
  · have hlt := (lt_fit hstep).mp hk
    rw [Nat.succ_mul] at hlt
    rw [cell_first hk, cell_first (Nat.lt_of_succ_lt hk), Margins.wrap,
      if_neg (show ¬ f.right ≤ x + k * f.step + f.step by omega), Nat.succ_mul, Nat.add_assoc]
  · rcases Nat.eq_or_lt_of_le hk with hend | hnext
    · -- the end of the first line
      have hk' : k < f.fit x := by omega
      have hge : ¬ k + 1 < f.fit x := by omega
      rw [lt_fit hstep, Nat.succ_mul] at hge
      have hzero := cell_next (f := f) x y 0
      rw [Nat.add_zero, hend, Nat.zero_mod, Nat.zero_div] at hzero
      rw [hzero, cell_first hk', Margins.wrap,
        if_pos (show f.right ≤ x + k * f.step + f.step by omega)]
      simp
    · obtain ⟨j, rfl⟩ : ∃ j, k = f.fit x + j := Nat.exists_eq_add_of_le (by omega)
      rw [Nat.add_assoc, cell_next, cell_next]
      have hpos := perLine_pos (f := f)
      have hmod := Nat.mod_lt j hpos
      have hfit : j % f.perLine + 1 < f.perLine ↔
          f.left + (j % f.perLine + 1) * f.step < f.right := by
        rw [← lt_fit hstep]
        unfold Margins.perLine at hmod ⊢
        omega
      rw [Nat.succ_mul] at hfit
      unfold Margins.wrap
      by_cases hlast : j % f.perLine + 1 < f.perLine
      · obtain ⟨hdiv, hrem⟩ := succ_div_mod_of_lt hlast
        rw [if_neg (show ¬ f.right ≤ f.left + j % f.perLine * f.step + f.step by omega), hdiv, hrem,
          Nat.succ_mul, Nat.add_assoc]
      · obtain ⟨hdiv, hrem⟩ := succ_div_mod_of_eq (show j % f.perLine + 1 = f.perLine by omega)
        rw [if_pos (show f.right ≤ f.left + j % f.perLine * f.step + f.step by omega), hdiv, hrem,
          Nat.zero_mul, Nat.add_zero, Nat.add_assoc y, ← Nat.succ_mul]
        rfl

/-- **The place of thing `k`.** -/
theorem wrap_iterate (x y k : ℕ) : f.wrap (f.advance^[k] (x, y)) = f.cell x y k := by
  induction k with
  | zero =>
    rw [Function.iterate_zero, id]
    rcases Nat.eq_zero_or_pos (f.fit x) with h0 | hpos
    · have hge : ¬ 0 < f.fit x := by omega
      rw [lt_fit hstep] at hge
      have hzero := cell_next (f := f) x y 0
      rw [h0, Nat.zero_add, Nat.zero_mod, Nat.zero_div] at hzero
      rw [hzero, Margins.wrap, if_pos (show f.right ≤ x by omega)]
      simp
    · have hlt := (lt_fit hstep).mp hpos
      rw [cell_first hpos, Margins.wrap, if_neg (show ¬ f.right ≤ x by omega)]
      simp
  | succ k ih =>
    rw [Function.iterate_succ_apply', Margins.advance, ih, wrap_cell hstep]

theorem cell_zero (x y : ℕ) : f.cell x y 0 = f.wrap (x, y) := (wrap_iterate hstep x y 0).symm

theorem cell_succ (x y k : ℕ) :
    f.cell x y (k + 1) = f.cell (f.advance (x, y)).1 (f.advance (x, y)).2 k := by
  rw [← wrap_iterate hstep, ← wrap_iterate hstep, Function.iterate_succ_apply]

end

/-! ### All the places above some row -/

/-- **The last column of the first line and the last line** decide for a grid of `L` things with `n`
in a line, if the lines after the first ask for no more of a column. -/
theorem forall_grid_iff {n line : ℕ} (hn : 0 < n) (hline : 0 < line) (L height : ℕ)
    {P : ℕ → ℕ → Prop} {Q : ℕ → Prop} (hP : ∀ ⦃a b r : ℕ⦄, a ≤ b → P b 0 → P a r)
    (hQ : Antitone Q) :
    (∀ k < L, k / n * line < height → P (k % n) (k / n) ∧ Q (k / n)) ↔
      L = 0 ∨ height = 0 ∨
        P (min L n - 1) 0 ∧ Q (min ((L - 1) / n) ((height - 1) / line)) := by
  constructor
  · intro h
    by_cases hL : L = 0
    · exact Or.inl hL
    by_cases hheight : height = 0
    · exact Or.inr (Or.inl hheight)
    refine Or.inr (Or.inr ⟨?_, ?_⟩)
    · have hcolumn : min L n - 1 < n := by omega
      have hk := h (min L n - 1) (by omega)
      rw [Nat.mod_eq_of_lt hcolumn, Nat.div_eq_of_lt hcolumn, Nat.zero_mul] at hk
      exact (hk (by omega)).1
    · set r := min ((L - 1) / n) ((height - 1) / line)
      have hfirst : r * n ≤ L - 1 :=
        (Nat.mul_le_mul_right n (min_le_left _ _)).trans (Nat.div_mul_le_self _ _)
      have hrow : r * line ≤ height - 1 :=
        (Nat.mul_le_mul_right line (min_le_right _ _)).trans (Nat.div_mul_le_self _ _)
      have hk := (h (r * n) (by omega) (by rw [Nat.mul_div_cancel r hn]; omega)).2
      rwa [Nat.mul_div_cancel r hn] at hk
  · intro h k hk hrow
    rcases h with rfl | rfl | ⟨hcolumn, hlast⟩
    · exact absurd hk (Nat.not_lt_zero k)
    · exact absurd hrow (Nat.not_lt_zero _)
    · have hmod := Nat.mod_lt k hn
      have hle := Nat.mod_le k n
      refine ⟨hP (show k % n ≤ min L n - 1 by omega) hcolumn, hQ (le_min ?_ ?_) hlast⟩
      · exact Nat.div_le_div_right (by omega)
      · rw [Nat.le_div_iff_mul_le hline]
        omega

/-- **When all the places lie before a column and above a row**, of those that begin above `height`
rows. -/
theorem cells_lt_iff (hline : 0 < f.line) (x y L height W H : ℕ) :
    (∀ k < L, (f.cell x y k).2 < y + height → (f.cell x y k).1 < W ∧ (f.cell x y k).2 < H) ↔
      (L = 0 ∨ f.fit x = 0 ∨ height = 0 ∨ x + (min L (f.fit x) - 1) * f.step < W ∧ y < H) ∧
      (L ≤ f.fit x ∨ height ≤ f.line ∨
        f.left + (min (L - f.fit x) f.perLine - 1) * f.step < W ∧
        y + (1 + min ((L - f.fit x - 1) / f.perLine) ((height - f.line - 1) / f.line)) * f.line
          < H) := by
  have hcolumns : ∀ ⦃a b r : ℕ⦄, a ≤ b → f.left + b * f.step < W → f.left + a * f.step < W :=
    fun a b _ hab h => lt_of_le_of_lt (Nat.add_le_add_left (Nat.mul_le_mul_right _ hab) _) h
  have hrows : Antitone fun r => y + (1 + r) * f.line < H := fun a b hab h =>
    lt_of_le_of_lt (Nat.add_le_add_left (Nat.mul_le_mul_right _ (Nat.add_le_add_left hab 1)) y) h
  have hgrid := forall_grid_iff (P := fun c _ => f.left + c * f.step < W) (perLine_pos (f := f))
    hline (L - f.fit x) (height - f.line) hcolumns hrows
  have hshown : ∀ r, y + (1 + r) * f.line < y + height ↔ r * f.line < height - f.line := by
    intro r
    rw [Nat.add_mul, Nat.one_mul]
    omega
  rw [Nat.sub_eq_zero_iff_le, Nat.sub_eq_zero_iff_le] at hgrid
  rw [← hgrid]
  constructor
  · intro h
    constructor
    · by_cases hsome : L = 0 ∨ f.fit x = 0 ∨ height = 0
      · rcases hsome with h0 | h0 | h0
        · exact Or.inl h0
        · exact Or.inr (Or.inl h0)
        · exact Or.inr (Or.inr (Or.inl h0))
      · have hk := h (min L (f.fit x) - 1) (by omega)
        rw [cell_first (by omega)] at hk
        exact Or.inr (Or.inr (Or.inr (hk (by omega))))
    · intro j hj hrow
      have hk := h (f.fit x + j) (by omega)
      rw [cell_next] at hk
      exact hk ((hshown _).mpr hrow)
  · rintro ⟨hfirst, hnext⟩ k hk hrow
    rcases Nat.lt_or_ge k (f.fit x) with hlt | hge
    · rw [cell_first hlt] at hrow ⊢
      simp only at hrow ⊢
      have hle : k * f.step ≤ (min L (f.fit x) - 1) * f.step :=
        Nat.mul_le_mul_right _ (by omega)
      omega
    · obtain ⟨j, rfl⟩ := Nat.exists_eq_add_of_le hge
      rw [cell_next] at hrow ⊢
      exact hnext j (by omega) ((hshown _).mp hrow)

end RtosExample.Lib.Flow
