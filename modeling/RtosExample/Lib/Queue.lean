import Mathlib.Data.List.Sort
import Mathlib.Logic.Function.Basic

/-! # Queues in the order of a key

A walk along a list that stops at the first element with a property, and inserts in front of it
(`insertWhere`). Where the property is "has a larger key", that keeps a list sorted by the key and
puts the new element behind its equals (`enqueue`).

* `enqueue_split`: what stands before and behind the new element;
* `sorted_enqueue`, `nodup_insertWhere`: what an insertion keeps;
* `mem_update_insertWhere`, `nodup_update_insertWhere`: the same for one of several queues. -/

namespace RtosExample.Lib.Queue

variable {α κ : Type} [LinearOrder κ]

/-- `a` goes in front of the first element that is `later`. -/
def insertWhere (later : α → Bool) (a : α) (l : List α) : List α :=
  l.orderedInsert (fun _ b => later b = true) a

/-- `a` goes behind everything whose key is not larger. -/
def enqueue (key : α → κ) (a : α) (l : List α) : List α :=
  insertWhere (fun b => key a < key b) a l

/-- The keys do not decrease along the list. -/
def Sorted (key : α → κ) (l : List α) : Prop := l.Pairwise fun a b => key a ≤ key b

@[simp] theorem insertWhere_nil (later : α → Bool) (a : α) : insertWhere later a [] = [a] := rfl

theorem insertWhere_cons (later : α → Bool) (a b : α) (l : List α) :
    insertWhere later a (b :: l) =
      if later b then a :: b :: l else b :: insertWhere later a l := rfl

@[simp] theorem mem_insertWhere {later : α → Bool} {a x : α} {l : List α} :
    x ∈ insertWhere later a l ↔ x = a ∨ x ∈ l := List.mem_orderedInsert _

theorem nodup_insertWhere {later : α → Bool} {a : α} {l : List α} (h : l.Nodup) (ha : a ∉ l) :
    (insertWhere later a l).Nodup :=
  (List.perm_orderedInsert _ a l).nodup_iff.mpr (List.nodup_cons.mpr ⟨ha, h⟩)

section Several

variable {ι : Type} [DecidableEq ι] {queues : ι → List α} {later : α → Bool} {a x : α} {i : ι}

theorem mem_update_insertWhere {j : ι} :
    x ∈ Function.update queues i (insertWhere later a (queues i)) j ↔
      x = a ∧ j = i ∨ x ∈ queues j := by
  by_cases hj : j = i
  · subst hj
    simp
  · simp [hj]

theorem nodup_update_insertWhere (h : ∀ j, (queues j).Nodup) (ha : a ∉ queues i) (j : ι) :
    (Function.update queues i (insertWhere later a (queues i)) j).Nodup := by
  by_cases hj : j = i
  · subst hj
    rw [Function.update_self]
    exact nodup_insertWhere (h j) ha
  · rw [Function.update_of_ne hj]
    exact h j

end Several

/-- The walk only asks the elements of the list. -/
theorem insertWhere_congr {p q : α → Bool} {a : α} : ∀ {l : List α}, (∀ b ∈ l, p b = q b) →
    insertWhere p a l = insertWhere q a l
  | [], _ => rfl
  | b :: l, h => by
    rw [insertWhere_cons, insertWhere_cons, h b List.mem_cons_self,
      insertWhere_congr fun c hc => h c (List.mem_cons_of_mem b hc)]

variable {key : α → κ}

/-- **Behind its equals.** In a sorted list the new element stands between the keys that are not
larger than its own and the larger ones. -/
theorem enqueue_split {a : α} : ∀ {l : List α}, Sorted key l → ∃ front back, l = front ++ back ∧
    enqueue key a l = front ++ a :: back ∧ (∀ b ∈ front, key b ≤ key a) ∧
    ∀ b ∈ back, key a < key b
  | [], _ => ⟨[], [], rfl, rfl, by simp, by simp⟩
  | b :: l, h => by
    obtain ⟨hb, hl⟩ := List.pairwise_cons.mp h
    by_cases hab : key a < key b
    · refine ⟨[], b :: l, rfl, ?_, by simp, ?_⟩
      · simp only [enqueue, insertWhere_cons, hab, decide_true, if_true, List.nil_append]
      · intro c hc
        rcases List.mem_cons.mp hc with rfl | hc
        · exact hab
        · exact hab.trans_le (hb c hc)
    · obtain ⟨front, back, rfl, he, hf, hk⟩ := enqueue_split (a := a) hl
      refine ⟨b :: front, back, rfl, ?_, ?_, hk⟩
      · rw [enqueue, insertWhere_cons, if_neg (by simpa using hab)]
        exact congrArg (b :: ·) he
      · intro c hc
        rcases List.mem_cons.mp hc with rfl | hc
        · exact not_lt.mp hab
        · exact hf c hc

theorem sorted_enqueue {a : α} {l : List α} (h : Sorted key l) : Sorted key (enqueue key a l) := by
  obtain ⟨front, back, rfl, he, hf, hk⟩ := enqueue_split (a := a) h
  obtain ⟨h1, h2, h3⟩ := List.pairwise_append.mp h
  rw [he]
  refine List.pairwise_append.mpr ⟨h1, List.pairwise_cons.mpr ⟨fun c hc => (hk c hc).le, h2⟩, ?_⟩
  intro b hb c hc
  rcases List.mem_cons.mp hc with rfl | hc
  · exact hf b hb
  · exact h3 b hb c hc

theorem Sorted.sublist {l l' : List α} (h : Sorted key l) (hl : l'.Sublist l) : Sorted key l' :=
  List.Pairwise.sublist hl h

theorem Sorted.congr {key' : α → κ} {l : List α} (h : Sorted key l) (he : ∀ a ∈ l, key' a = key a) :
    Sorted key' l :=
  List.Pairwise.imp_of_mem (fun ha hb hab => by rwa [he _ ha, he _ hb]) h

end RtosExample.Lib.Queue
