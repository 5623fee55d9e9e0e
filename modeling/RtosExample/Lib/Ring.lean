import Mathlib.Data.Int.Interval
import Mathlib.Data.List.Nodup
import Mathlib.Data.List.Range
import Mathlib.Logic.Function.Iterate
import Mathlib.Tactic.IntervalCases
import Mathlib.Tactic.Linarith

/-! # Rings of points

A ring is a closed walk through points of the plane, from each one to one that touches it, which
comes to no point twice. A quarter of a ring, from the vertical axis to just before the horizontal
one, makes a ring with its three quarter turns (`around_isRing`); an octant, from the vertical axis
to the diagonal, makes a quarter with its mirror image (`Octant`).

* `Octant.isRing`: the eight mirror images of an octant are a ring. -/

namespace RtosExample.Lib.Ring

/-- Two points touch if they are neighbours in one of the eight directions, or the same. -/
def Touch (p q : ℤ × ℤ) : Prop := |q.1 - p.1| ≤ 1 ∧ |q.2 - p.2| ≤ 1

/-- **A ring.** -/
structure IsRing (l : List (ℤ × ℤ)) : Prop where
  ne_nil : l ≠ []
  nodup : l.Nodup
  chain : l.IsChain Touch
  closed : ∀ p ∈ l.getLast?, ∀ q ∈ l.head?, Touch p q

/-! ### Quarter turns -/

/-- A quarter turn about the origin. -/
def turn (p : ℤ × ℤ) : ℤ × ℤ := (p.2, -p.1)

@[simp] theorem turn_mk (x y : ℤ) : turn (x, y) = (y, -x) := rfl

theorem turn_four (p : ℤ × ℤ) : turn^[4] p = p := by
  obtain ⟨x, y⟩ := p
  simp [Function.iterate_succ_apply]

theorem touch_turn {p q : ℤ × ℤ} (h : Touch p q) : ∀ j, Touch (turn^[j] p) (turn^[j] q) := by
  intro j
  induction j with
  | zero => exact h
  | succ j ih =>
    rw [Function.iterate_succ_apply', Function.iterate_succ_apply']
    obtain ⟨h1, h2⟩ := ih
    refine ⟨h2, ?_⟩
    rwa [turn, turn, ← neg_sub', abs_neg]

/-- The points of the first quarter, with the vertical axis and without the horizontal one. -/
def Quarter (p : ℤ × ℤ) : Prop := 0 ≤ p.1 ∧ 0 < p.2

theorem exists_turn {p : ℤ × ℤ} (hp : p ≠ (0, 0)) : ∃ j < 4, ∃ q, Quarter q ∧ turn^[j] q = p := by
  obtain ⟨x, y⟩ := p
  have hne : ¬ (x = 0 ∧ y = 0) := fun h => hp (by rw [h.1, h.2])
  rcases (by omega : (0 ≤ x ∧ 0 < y) ∨ (0 < x ∧ y ≤ 0) ∨ (x ≤ 0 ∧ y < 0) ∨ (x < 0 ∧ 0 ≤ y))
    with h | h | h | h
  · exact ⟨0, by omega, (x, y), h, rfl⟩
  · exact ⟨1, by omega, (-y, x), ⟨by simp only; omega, by simp only; omega⟩, by simp⟩
  · exact ⟨2, by omega, (-x, -y), ⟨by simp only; omega, by simp only; omega⟩,
      by simp [Function.iterate_succ_apply]⟩
  · exact ⟨3, by omega, (y, -x), ⟨by simp only; omega, by simp only; omega⟩,
      by simp [Function.iterate_succ_apply]⟩

/-- The turned quarters do not meet. -/
theorem turn_inj {i j : ℕ} (hi : i < 4) (hj : j < 4) {p q : ℤ × ℤ} (hp : Quarter p)
    (hq : Quarter q) (h : turn^[i] p = turn^[j] q) : i = j ∧ p = q := by
  obtain ⟨x, y⟩ := p
  obtain ⟨u, v⟩ := q
  obtain ⟨hx, hy⟩ := hp
  obtain ⟨hu, hv⟩ := hq
  simp only at hx hy hu hv
  interval_cases i <;> interval_cases j <;>
    simp [Function.iterate_succ_apply, Prod.mk.injEq] at h ⊢ <;> omega

/-! ### A ring from a quarter -/

section

variable (quarter : ℕ → ℤ × ℤ) (K : ℕ)

/-- The walk through the four turns of a quarter of `K` points. -/
def walk (k : ℕ) : ℤ × ℤ := turn^[k / K] (quarter (k % K))

/-- The points of the walk. -/
def around : List (ℤ × ℤ) := (List.range (4 * K)).map (walk quarter K)

variable {quarter K}

theorem walk_turn (j : ℕ) {k : ℕ} (hk : k < K) :
    walk quarter K (K * j + k) = turn^[j] (quarter k) := by
  rw [walk, Nat.mul_add_div (Nat.zero_lt_of_lt hk), Nat.div_eq_of_lt hk, Nat.mul_add_mod,
    Nat.mod_eq_of_lt hk, Nat.add_zero]

theorem exists_walk_turn (hK : 0 < K) (n : ℕ) : ∃ j, ∃ k < K, n = K * j + k :=
  ⟨n / K, n % K, Nat.mod_lt n hK, (Nat.div_add_mod n K).symm⟩

theorem turn_lt {j k : ℕ} (hk : k < K) : K * j + k < 4 * K ↔ j < 4 := by
  constructor
  · intro h
    by_contra hj
    have hle : K * 4 ≤ K * j := Nat.mul_le_mul_left K (Nat.le_of_not_lt hj)
    omega
  · intro hj
    have hle : K * (j + 1) ≤ K * 4 := Nat.mul_le_mul_left K hj
    rw [Nat.mul_succ] at hle
    omega

theorem mem_around (hK : 0 < K) {p : ℤ × ℤ} :
    p ∈ around quarter K ↔ ∃ j < 4, ∃ k < K, turn^[j] (quarter k) = p := by
  unfold around
  rw [List.mem_map]
  constructor
  · rintro ⟨n, hn, rfl⟩
    obtain ⟨j, k, hk, rfl⟩ := exists_walk_turn hK n
    rw [List.mem_range, turn_lt hk] at hn
    exact ⟨j, hn, k, hk, (walk_turn j hk).symm⟩
  · rintro ⟨j, hj, k, hk, rfl⟩
    exact ⟨K * j + k, List.mem_range.mpr ((turn_lt hk).mpr hj), walk_turn j hk⟩

variable (hK : 0 < K) (hstep : ∀ k < K, Touch (quarter k) (quarter (k + 1)))
  (hturn : quarter K = turn (quarter 0))

section

include hK hstep hturn

theorem walk_touch (n : ℕ) : Touch (walk quarter K n) (walk quarter K (n + 1)) := by
  obtain ⟨j, k, hk, rfl⟩ := exists_walk_turn hK n
  have htouch := touch_turn (hstep k hk) j
  rw [walk_turn j hk]
  by_cases hnext : k + 1 < K
  · rwa [Nat.add_assoc, walk_turn j hnext]
  · -- the next point begins the next quarter
    obtain rfl : K = k + 1 := by omega
    rw [hturn, ← Function.iterate_succ_apply] at htouch
    have hzero : walk quarter (k + 1) ((k + 1) * j + (k + 1)) = turn^[j + 1] (quarter 0) :=
      walk_turn (j + 1) hK
    rwa [Nat.add_assoc, hzero]

end

include hK in
theorem walk_inj (hin : ∀ k < K, Quarter (quarter k))
    (hinj : ∀ i < K, ∀ k < K, quarter i = quarter k → i = k) {m n : ℕ} (hm : m < 4 * K)
    (hn : n < 4 * K) (h : walk quarter K m = walk quarter K n) : m = n := by
  obtain ⟨i, k, hk, rfl⟩ := exists_walk_turn hK m
  obtain ⟨j, l, hl, rfl⟩ := exists_walk_turn hK n
  rw [turn_lt hk] at hm
  rw [turn_lt hl] at hn
  rw [walk_turn i hk, walk_turn j hl] at h
  obtain ⟨rfl, hkl⟩ := turn_inj hm hn (hin k hk) (hin l hl) h
  rw [hinj k hk l hl hkl]

include hK hstep hturn in
/-- **A quarter makes a ring** with its turns. -/
theorem around_isRing (hin : ∀ k < K, Quarter (quarter k))
    (hinj : ∀ i < K, ∀ k < K, quarter i = quarter k → i = k) : IsRing (around quarter K) := by
  have hlen : ∃ n, 4 * K = n + 1 := Nat.exists_eq_succ_of_ne_zero (by omega)
  have hback : walk quarter K (4 * K) = walk quarter K 0 := by
    have hend : walk quarter K (K * 4 + 0) = turn^[4] (quarter 0) := walk_turn 4 hK
    have hzero : walk quarter K (K * 0 + 0) = quarter 0 := walk_turn 0 hK
    rw [turn_four, ← hzero] at hend
    rwa [Nat.mul_comm 4 K]
  constructor
  · obtain ⟨n, hn⟩ := hlen
    rw [around, hn, List.range_succ]
    simp
  · refine List.Nodup.map_on ?_ List.nodup_range
    intro m hm n hn h
    exact walk_inj hK hin hinj (List.mem_range.mp hm) (List.mem_range.mp hn) h
  · obtain ⟨n, hn⟩ := hlen
    rw [around, hn, List.isChain_map, List.isChain_range_succ]
    exact fun m _ => walk_touch hK hstep hturn m
  · obtain ⟨n, hn⟩ := hlen
    have htouch := walk_touch hK hstep hturn n
    rw [← hn, hback] at htouch
    intro p hp q hq
    rw [around, hn, List.range_succ, List.map_append, List.map_singleton, List.getLast?_concat,
      Option.mem_some] at hp
    rw [around, hn, List.range_succ_eq_map, List.map_cons, List.head?_cons, Option.mem_some] at hq
    rwa [← hp, ← hq]

end

/-! ### A quarter from an octant -/

/-- The eight mirror images of a point. -/
def mirrors (a b : ℤ) : List (ℤ × ℤ) :=
  [(a, -b), (b, -a), (b, a), (a, b), (-a, b), (-b, a), (-a, -b), (-b, -a)]

theorem mem_mirrors {a b : ℤ} {p : ℤ × ℤ} :
    p ∈ mirrors a b ↔
      (|p.1| = |a| ∧ |p.2| = |b|) ∨ (|p.1| = |b| ∧ |p.2| = |a|) := by
  obtain ⟨x, y⟩ := p
  simp only [mirrors, List.mem_cons, List.not_mem_nil, or_false, Prod.mk.injEq, abs_eq_abs]
  tauto

theorem turn_mem_mirrors {a b : ℤ} {p : ℤ × ℤ} :
    turn p ∈ mirrors a b ↔ p ∈ mirrors a b := by
  rw [mem_mirrors, mem_mirrors, turn, abs_neg, or_comm, and_comm, and_comm (a := |p.2| = |a|)]

theorem turns_mem_mirrors {a b : ℤ} {p : ℤ × ℤ} (j : ℕ) :
    turn^[j] p ∈ mirrors a b ↔ p ∈ mirrors a b := by
  induction j with
  | zero => rfl
  | succ j ih => rw [Function.iterate_succ_apply', turn_mem_mirrors, ih]

/-- **An octant**: columns `0` to `N - 1`, from the vertical axis down to the diagonal. -/
structure Octant (c : ℕ → ℤ) (N : ℕ) : Prop where
  pos : 0 < N
  start : 1 ≤ c 0
  down : ∀ k, c (k + 1) ≤ c k ∧ c k ≤ c (k + 1) + 1
  above : ∀ k < N, k ≤ c k
  stop : c N < N

section

variable (c : ℕ → ℤ) (N : ℕ)

/-- The number of points of a quarter: the columns and then the rows that are not columns. -/
def quarterLength : ℕ := if c (N - 1) = (N - 1 : ℕ) then 2 * N - 2 else 2 * N - 1

/-- The columns of the octant, and then its rows back to the axis. -/
def quarterPoint (k : ℕ) : ℤ × ℤ :=
  if k < N then (k, c k) else (c (quarterLength c N - k), (quarterLength c N - k : ℕ))

variable {c N}

theorem quarterPoint_column {k : ℕ} (hk : k < N) : quarterPoint c N k = ((k : ℤ), c k) := if_pos hk

theorem quarterPoint_row {k : ℕ} (hk : ¬ k < N) :
    quarterPoint c N k = (c (quarterLength c N - k), ((quarterLength c N - k : ℕ) : ℤ)) := if_neg hk

variable (h : Octant c N)

include h

theorem Octant.anti {i j : ℕ} (hij : i ≤ j) : c j ≤ c i := by
  induction j, hij using Nat.le_induction with
  | base => exact le_rfl
  | succ j _ ih => exact (h.down j).1.trans ih

theorem Octant.last : c (N - 1) = (N - 1 : ℕ) ∧ 2 ≤ N ∨ c (N - 1) = N := by
  have hpos := h.pos
  have habove := h.above (N - 1) (by omega)
  obtain ⟨-, hdown⟩ := h.down (N - 1)
  rw [Nat.sub_add_cancel hpos] at hdown
  have hstop := h.stop
  rcases (by omega : c (N - 1) = (N - 1 : ℕ) ∨ c (N - 1) = N) with hlast | hlast
  · refine Or.inl ⟨hlast, ?_⟩
    by_contra hN
    obtain rfl : N = 1 := by omega
    have hstart := h.start
    rw [Nat.sub_self] at hlast
    omega
  · exact Or.inr hlast

theorem Octant.quarterLength_eq :
    (c (N - 1) = (N - 1 : ℕ) ∧ 2 ≤ N ∧ quarterLength c N = 2 * N - 2) ∨
      c (N - 1) = N ∧ quarterLength c N = 2 * N - 1 := by
  have hpos := h.pos
  rcases h.last with ⟨hlast, hN⟩ | hlast
  · exact Or.inl ⟨hlast, hN, if_pos hlast⟩
  · refine Or.inr ⟨hlast, if_neg ?_⟩
    omega

theorem Octant.le_quarterLength : N ≤ quarterLength c N := by
  have hpos := h.pos
  rcases h.quarterLength_eq with ⟨-, hN, hK⟩ | ⟨-, hK⟩ <;> omega

theorem Octant.row {m : ℕ} : m + N ≤ quarterLength c N ↔ m < N ∧ m < c m := by
  have hpos := h.pos
  constructor
  · intro hm
    have hanti := h.anti (i := m) (j := N - 1)
    rcases h.quarterLength_eq with ⟨hlast, hN, hK⟩ | ⟨hlast, hK⟩ <;> omega
  · rintro ⟨hm, habove⟩
    rcases h.quarterLength_eq with ⟨hlast, hN, hK⟩ | ⟨hlast, hK⟩
    · obtain hlt | rfl : m < N - 1 ∨ m = N - 1 := by omega
      · omega
      · omega
    · omega

theorem Octant.touch {k : ℕ} (hk : k < quarterLength c N) :
    Touch (quarterPoint c N k) (quarterPoint c N (k + 1)) := by
  have hpos := h.pos
  unfold Touch
  rw [abs_le, abs_le]
  by_cases hcol : k + 1 < N
  · have hdown := h.down k
    rw [quarterPoint_column (Nat.lt_of_succ_lt hcol), quarterPoint_column hcol]
    simp only
    omega
  · rw [quarterPoint_row hcol]
    by_cases hlast : k < N
    · -- over the diagonal
      obtain rfl : k = N - 1 := by omega
      rw [quarterPoint_column hlast, Nat.sub_add_cancel hpos]
      simp only
      rcases h.quarterLength_eq with ⟨hend, hN, hK⟩ | ⟨hend, hK⟩
      · have hdown := h.down (N - 2)
        rw [(by omega : N - 2 + 1 = N - 1)] at hdown
        rw [hend, hK, (by omega : 2 * N - 2 - N = N - 2)]
        omega
      · rw [hK, (by omega : 2 * N - 1 - N = N - 1), hend]
        omega
    · have hdown := h.down (quarterLength c N - (k + 1))
      rw [(by omega : quarterLength c N - (k + 1) + 1 = quarterLength c N - k)] at hdown
      rw [quarterPoint_row hlast]
      simp only
      omega

theorem Octant.turn_start : quarterPoint c N (quarterLength c N) = turn (quarterPoint c N 0) := by
  rw [quarterPoint_row (Nat.not_lt.mpr h.le_quarterLength), Nat.sub_self,
    quarterPoint_column h.pos]
  rfl

theorem Octant.column_pos {k : ℕ} (hk : k < N) : 0 < c k := by
  have hstart := h.start
  have habove := h.above k hk
  rcases Nat.eq_zero_or_pos k with rfl | hk0 <;> omega

theorem Octant.quarter {k : ℕ} (hk : k < quarterLength c N) : Quarter (quarterPoint c N k) := by
  by_cases hcol : k < N
  · rw [quarterPoint_column hcol]
    exact ⟨Int.natCast_nonneg k, h.column_pos hcol⟩
  · have hrow := (h.row (m := quarterLength c N - k)).mp (by omega)
    rw [quarterPoint_row hcol]
    exact ⟨by simp only; omega, by simp only; omega⟩

theorem Octant.inj {i j : ℕ} (hi : i < quarterLength c N) (hj : j < quarterLength c N)
    (hij : quarterPoint c N i = quarterPoint c N j) : i = j := by
  -- a column ends on the diagonal or above it, and a row below it
  have hcross : ∀ k m : ℕ, k < N → m + N ≤ quarterLength c N →
      ((k : ℤ), c k) ≠ (c m, (m : ℤ)) := by
    intro k m hk hm heq
    rw [Prod.mk.injEq] at heq
    have habove := h.above k hk
    have hrow := h.row.mp hm
    omega
  by_cases hci : i < N <;> by_cases hcj : j < N
  · rw [quarterPoint_column hci, quarterPoint_column hcj, Prod.mk.injEq] at hij
    omega
  · rw [quarterPoint_column hci, quarterPoint_row hcj] at hij
    exact absurd hij (hcross i _ hci (by omega))
  · rw [quarterPoint_row hci, quarterPoint_column hcj] at hij
    exact absurd hij.symm (hcross j _ hcj (by omega))
  · rw [quarterPoint_row hci, quarterPoint_row hcj, Prod.mk.injEq] at hij
    omega

theorem Octant.quarterPoint_mem {k : ℕ} (hk : k < quarterLength c N) :
    ∃ m < N, quarterPoint c N k ∈ mirrors m (c m) := by
  by_cases hcol : k < N
  · refine ⟨k, hcol, ?_⟩
    rw [quarterPoint_column hcol, mem_mirrors]
    exact Or.inl ⟨rfl, rfl⟩
  · refine ⟨quarterLength c N - k, (h.row.mp (by omega)).1, ?_⟩
    rw [quarterPoint_row hcol, mem_mirrors]
    exact Or.inr ⟨rfl, rfl⟩

theorem Octant.exists_quarterPoint {m : ℕ} (hm : m < N) {q : ℤ × ℤ} (hq : Quarter q)
    (hmem : q ∈ mirrors m (c m)) : ∃ k < quarterLength c N, quarterPoint c N k = q := by
  obtain ⟨x, y⟩ := q
  obtain ⟨hx, hy⟩ := hq
  have hpos := h.column_pos hm
  have habove := h.above m hm
  have hcolumn : (x, y) = ((m : ℤ), c m) →
      ∃ k < quarterLength c N, quarterPoint c N k = (x, y) := fun heq =>
    ⟨m, hm.trans_le h.le_quarterLength, by rw [quarterPoint_column hm, heq]⟩
  rw [mem_mirrors, abs_of_nonneg hx, abs_of_pos hy, abs_of_pos hpos, Nat.abs_cast] at hmem
  simp only at hx hy hmem
  rcases hmem with ⟨rfl, rfl⟩ | ⟨rfl, rfl⟩
  · exact hcolumn rfl
  · by_cases hdiag : (m : ℤ) = c m
    · exact hcolumn (by rw [← hdiag])
    · have hrow := h.row.mpr ⟨hm, lt_of_le_of_ne habove hdiag⟩
      refine ⟨quarterLength c N - m, by omega, ?_⟩
      rw [quarterPoint_row (by omega), (by omega : quarterLength c N - (quarterLength c N - m) = m)]

theorem Octant.mem_around {p : ℤ × ℤ} :
    p ∈ around (quarterPoint c N) (quarterLength c N) ↔ ∃ m < N, p ∈ mirrors m (c m) := by
  rw [Ring.mem_around (h.pos.trans_le h.le_quarterLength)]
  constructor
  · rintro ⟨j, -, k, hk, rfl⟩
    obtain ⟨m, hm, hmem⟩ := h.quarterPoint_mem hk
    exact ⟨m, hm, (turns_mem_mirrors j).mpr hmem⟩
  · rintro ⟨m, hm, hmem⟩
    have hp : p ≠ (0, 0) := by
      rintro rfl
      have hpos := h.column_pos hm
      rw [mem_mirrors, abs_of_pos hpos] at hmem
      simp only [abs_zero] at hmem
      omega
    obtain ⟨j, hj, q, hq, rfl⟩ := exists_turn hp
    obtain ⟨k, hk, rfl⟩ := h.exists_quarterPoint hm hq ((turns_mem_mirrors j).mp hmem)
    exact ⟨j, hj, k, hk, rfl⟩

/-- **The mirror images of an octant are a ring.** -/
theorem Octant.isRing : ∃ l, IsRing l ∧ ∀ p, p ∈ l ↔ ∃ m < N, p ∈ mirrors m (c m) := by
  refine ⟨around (quarterPoint c N) (quarterLength c N), ?_, fun p => h.mem_around⟩
  exact around_isRing (h.pos.trans_le h.le_quarterLength) (fun k hk => h.touch hk) h.turn_start
    (fun k hk => h.quarter hk) fun i hi j hj => h.inj hi hj

end

end RtosExample.Lib.Ring
