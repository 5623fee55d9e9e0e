import Mathlib.Algebra.BigOperators.Group.List.Basic
import Mathlib.Algebra.GroupWithZero.Nat
import Mathlib.Logic.Function.Iterate

/-! # Round robin

A list of tasks that share a processor, each with the number of ticks it has left; the first one
runs. `tick` is a tick of the clock, and `tick_round` says who runs when: after the ticks that the
first tasks have left, they stand behind the others, each with a new quantum. -/

namespace RtosExample.Lib.RoundRobin

variable {α : Type} (quantum : α → ℕ)

/-- The first task has one tick less, and with its last one goes to the end. -/
def tick : List (α × ℕ) → List (α × ℕ)
  | [] => []
  | (a, n) :: l => if n ≤ 1 then l ++ [(a, quantum a)] else (a, n - 1) :: l

variable {quantum} {a : α} {l : List (α × ℕ)}

theorem mem_tick {x : α × ℕ} (h : x ∈ tick quantum l) : x.1 ∈ l.map Prod.fst := by
  cases l with
  | nil => exact absurd h List.not_mem_nil
  | cons y l =>
    obtain ⟨b, n⟩ := y
    rw [tick] at h
    split_ifs at h
    · rcases List.mem_append.mp h with h | h
      · exact List.mem_cons_of_mem _ (List.mem_map_of_mem h)
      · obtain rfl := List.mem_singleton.mp h
        exact List.mem_cons_self
    · rcases List.mem_cons.mp h with rfl | h
      · exact List.mem_cons_self
      · exact List.mem_cons_of_mem _ (List.mem_map_of_mem h)

theorem tick_turn : ∀ {n : ℕ}, 0 < n → (tick quantum)^[n] ((a, n) :: l) = l ++ [(a, quantum a)]
  | 1, _ => by simp [tick]
  | n + 2, _ => by
    rw [Function.iterate_succ_apply]
    have hstep : tick quantum ((a, n + 2) :: l) = (a, n + 1) :: l := by simp [tick]
    rw [hstep, tick_turn (Nat.succ_pos n)]

/-- **The tasks in front get what they have left**, and then wait for the others. -/
theorem tick_round : ∀ {front back : List (α × ℕ)}, (∀ x ∈ front, 0 < x.2) →
    (tick quantum)^[(front.map Prod.snd).sum] (front ++ back) =
      back ++ front.map fun x => (x.1, quantum x.1)
  | [], back, _ => by simp
  | (a, n) :: front, back, h => by
    rw [List.map_cons, List.sum_cons, Nat.add_comm, Function.iterate_add_apply, List.cons_append,
      tick_turn (h _ List.mem_cons_self), List.append_assoc,
      tick_round fun x hx => h x (List.mem_cons_of_mem _ hx), List.append_assoc]
    rfl

end RtosExample.Lib.RoundRobin
