import Mathlib.Logic.Function.Iterate
import Mathlib.Logic.Nontrivial.Basic
import Mathlib.Tactic.Linarith

/-! # Memories with an address counter

A memory is a function from addresses, and a device walks through it with a counter that goes from
an address `p` to `next p`. `store` writes a list from `p` on, `load` reads `n` values from `p` on,
each with a counter of its own: a device may count differently when it writes and when it reads.
`writes` writes single values, each at an address of its own; `writes_changes_iff` says which
addresses that may change, and `writes_filledOn` what is there if all the values are one. -/

namespace RtosExample.Lib.Memory

variable {α β : Type}

/-- Write a list from `p` on. -/
def store [DecidableEq α] (next : α → α) : List β → α → (α → β) → α → β
  | [], _, mem => mem
  | b :: bs, p, mem => store next bs (next p) (Function.update mem p b)

/-- Read `n` values from `p` on. -/
def load (next : α → α) (mem : α → β) : ℕ → α → List β
  | 0, _ => []
  | n + 1, p => mem p :: load next mem n (next p)

/-- Write values at addresses, one after the other. -/
def writes [DecidableEq α] (ws : List (α × β)) (mem : α → β) : α → β :=
  ws.foldl (fun mem w => Function.update mem w.1 w.2) mem

variable (next : α → α)

@[simp] theorem length_load (mem : α → β) : ∀ (n : ℕ) (p : α), (load next mem n p).length = n
  | 0, _ => rfl
  | n + 1, p => by rw [load, List.length_cons, length_load mem n]

theorem getElem?_load (mem : α → β) : ∀ {n k : ℕ} {p : α}, k < n →
    (load next mem n p)[k]? = some (mem (next^[k] p))
  | n + 1, 0, p, _ => rfl
  | n + 1, k + 1, p, h => by
    rw [load, List.getElem?_cons_succ, getElem?_load mem (by omega), Function.iterate_succ_apply]

variable [DecidableEq α]

/-- **Frame.** An address the counter does not pass is unchanged. -/
theorem store_of_ne : ∀ (bs : List β) (p : α) (mem : α → β) {a : α},
    (∀ k < bs.length, next^[k] p ≠ a) → store next bs p mem a = mem a
  | [], _, _, _, _ => rfl
  | b :: bs, p, mem, a, h => by
    have h0 : p ≠ a := h 0 (by simp)
    rw [store, store_of_ne bs (next p) _ fun k hk => by
      rw [← Function.iterate_succ_apply]
      exact h (k + 1) (by simpa using hk)]
    exact Function.update_of_ne h0.symm _ _

/-- **Read back.** If the counter passes no address twice, each value is where it was put. -/
theorem store_iterate : ∀ (bs : List β) (p : α) (mem : α → β) {k : ℕ},
    (∀ i < bs.length, ∀ j < bs.length, next^[i] p = next^[j] p → i = j) → k < bs.length →
    bs[k]? = some (store next bs p mem (next^[k] p))
  | b :: bs, p, mem, 0, h, _ => by
    rw [store, store_of_ne next bs (next p) _ fun k hk he => by
      rw [← Function.iterate_succ_apply] at he
      have := h (k + 1) (by simpa using hk) 0 (by simp) he
      omega]
    simp
  | b :: bs, p, mem, k + 1, h, hk => by
    have h' : ∀ i < bs.length, ∀ j < bs.length, next^[i] (next p) = next^[j] (next p) → i = j :=
      fun i hi j hj he => by
        rw [← Function.iterate_succ_apply, ← Function.iterate_succ_apply] at he
        have := h (i + 1) (by simpa using hi) (j + 1) (by simpa using hj) he
        omega
    rw [store, List.getElem?_cons_succ, Function.iterate_succ_apply]
    exact store_iterate bs (next p) _ h' (by simpa using hk)

theorem store_replicate (b : β) : ∀ (n : ℕ) (p : α) (mem : α → β) {a : α},
    (∃ k < n, next^[k] p = a) → store next (List.replicate n b) p mem a = b
  | n + 1, p, mem, a, h => by
    rw [List.replicate_succ, store]
    by_cases hlater : ∃ k < n, next^[k] (next p) = a
    · exact store_replicate b n (next p) _ hlater
    · obtain ⟨_ | k, hk, rfl⟩ := h
      · rw [store_of_ne next _ (next p) _ fun j hj he =>
          hlater ⟨j, by rwa [List.length_replicate] at hj, he⟩]
        exact Function.update_self _ _ _
      · exact absurd ⟨k, by omega, (Function.iterate_succ_apply next k p).symm⟩ hlater

/-- **The last write counts**, and writes elsewhere do not. -/
theorem writes_apply (a : α) : ∀ (ws : List (α × β)) (mem : α → β),
    writes ws mem a = ((ws.filter (·.1 = a)).getLast?.map Prod.snd).getD (mem a)
  | [], _ => rfl
  | w :: ws, mem => by
    have ih := writes_apply a ws (Function.update mem w.1 w.2)
    change writes ws (Function.update mem w.1 w.2) a = _
    by_cases h : w.1 = a
    · subst h
      rw [ih, List.filter_cons_of_pos (by simp), List.getLast?_cons, Function.update_self]
      cases (ws.filter fun v => decide (v.1 = w.1)).getLast? <;> rfl
    · rw [ih, List.filter_cons_of_neg (by simpa using h), Function.update_of_ne (Ne.symm h)]

theorem writes_append (ws ws' : List (α × β)) (mem : α → β) :
    writes (ws ++ ws') mem = writes ws' (writes ws mem) := List.foldl_append

/-- **Frame.** An address that is not written is unchanged. -/
theorem writes_of_ne {ws : List (α × β)} {a : α} (h : ∀ w ∈ ws, w.1 ≠ a) (mem : α → β) :
    writes ws mem a = mem a := by
  have hnone : ws.filter (·.1 = a) = [] := by
    rw [List.filter_eq_nil_iff]
    intro w hw
    simpa using h w hw
  rw [writes_apply, hnone]
  rfl

theorem writes_of_mem {ws : List (α × β)} {a : α} {b : β} (hmem : (a, b) ∈ ws)
    (h : ∀ w ∈ ws, w.1 = a → w.2 = b) (mem : α → β) : writes ws mem a = b := by
  have hne : ws.filter (·.1 = a) ≠ [] :=
    List.ne_nil_of_mem (List.mem_filter.mpr ⟨hmem, by simp⟩)
  obtain ⟨w, hw⟩ := Option.isSome_iff_exists.mp (List.getLast?_isSome.mpr hne)
  obtain ⟨hin, hat⟩ := List.mem_filter.mp (List.mem_of_getLast? hw)
  rw [writes_apply, hw]
  exact h w hin (by simpa using hat)

/-- `mem` is `old` with one value on `S`. -/
def FilledOn (S : α → Prop) (b : β) (old mem : α → β) : Prop :=
  ∀ a, (S a → mem a = b) ∧ (¬ S a → mem a = old a)

section

variable {S : α → Prop} {b : β} {old mem mem' : α → β}

omit [DecidableEq α]

theorem FilledOn.eq_ite [DecidablePred S] (h : FilledOn S b old mem) (a : α) :
    mem a = if S a then b else old a := by
  split_ifs with ha
  · exact (h a).1 ha
  · exact (h a).2 ha

theorem FilledOn.unique (h : FilledOn S b old mem) (h' : FilledOn S b old mem') : mem = mem' := by
  classical
  funext a
  rw [h.eq_ite, h'.eq_ite]

end

theorem writes_filledOn {ws : List (α × β)} {b : β} (h : ∀ w ∈ ws, w.2 = b) (mem : α → β) :
    FilledOn (fun a => ∃ w ∈ ws, w.1 = a) b mem (writes ws mem) := by
  intro a
  constructor
  · rintro ⟨⟨a, c⟩, hw, rfl⟩
    obtain rfl : c = b := h _ hw
    exact writes_of_mem hw (fun v hv _ => h v hv) mem
  · exact fun hn => writes_of_ne (fun w hw he => hn ⟨w, hw, he⟩) mem

/-- **What may change** is what is written. -/
theorem writes_changes_iff [Nontrivial β] {ws : List (α × β)} {a : α} :
    (∃ mem : α → β, writes ws mem a ≠ mem a) ↔ ∃ w ∈ ws, w.1 = a := by
  constructor
  · rintro ⟨mem, h⟩
    by_contra hn
    exact h (writes_of_ne (fun w hw he => hn ⟨w, hw, he⟩) mem)
  · rintro ⟨w, hw, he⟩
    have hne : ws.filter (·.1 = a) ≠ [] :=
      List.ne_nil_of_mem (List.mem_filter.mpr ⟨hw, by simpa using he⟩)
    obtain ⟨v, hv⟩ := Option.isSome_iff_exists.mp (List.getLast?_isSome.mpr hne)
    obtain ⟨b, hb⟩ := exists_ne v.2
    refine ⟨fun _ => b, ?_⟩
    rw [writes_apply, hv]
    exact hb.symm

end RtosExample.Lib.Memory
