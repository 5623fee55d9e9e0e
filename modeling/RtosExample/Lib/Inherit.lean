import RtosExample.Lib.Queue
import Mathlib.Logic.Function.Basic
import Mathlib.Order.MinMax

/-! # Locks with priority inheritance

Who owns which lock, who waits for it, and the priorities, where the smaller key is the more
urgent. A waiter lends its priority to the owner, and a lock that is released goes to the first
waiter; its owner then has the priority back that the lock has saved. `Move` are the moves of this
protocol, and `Step` what they do.

* `exact_step`: as long as nobody asks for a lock while it owns another one, and nobody gives up
  waiting, the priority of every owner is exactly the most urgent one of its own and its waiters'
  (`Exact`), and a thread that owns nothing has its own priority. -/

namespace RtosExample.Lib.Inherit

open RtosExample.Lib.Queue

/-- The state of the locks `μ`, owned and waited for by threads `τ`. -/
structure Locks (τ μ π : Type) where
  owner : μ → Option τ
  saved : μ → π
  waiting : μ → List τ
  prio : τ → π

inductive Move (τ μ : Type)
  | acquire (t : τ) (m : μ)
  | wait (t : τ) (m : μ)
  | pass (t : τ) (m : μ)
  | free (t : τ) (m : μ)
  | expire

variable {τ μ π : Type} [DecidableEq τ] [DecidableEq μ] [LinearOrder π]

/-- **The protocol.** What a free lock has saved does not matter. -/
inductive Step : Move τ μ → Locks τ μ π → Locks τ μ π → Prop
  | acquire {s : Locks τ μ π} {t : τ} {m : μ} (ho : s.owner m = none)
      (hw : ∀ m, t ∉ s.waiting m) : Step (.acquire t m) s { s with
        owner := Function.update s.owner m (some t)
        saved := Function.update s.saved m (s.prio t) }
  | wait {s : Locks τ μ π} {t o : τ} {m : μ} (ho : s.owner m = some o) (hot : o ≠ t)
      (hw : ∀ m, t ∉ s.waiting m) : Step (.wait t m) s { s with
        prio := Function.update s.prio o (min (s.prio o) (s.prio t))
        waiting := Function.update s.waiting m (enqueue s.prio t (s.waiting m)) }
  | pass {s : Locks τ μ π} {t next : τ} {rest : List τ} {m : μ} (ho : s.owner m = some t)
      (hw : s.waiting m = next :: rest) : Step (.pass t m) s {
        prio := Function.update s.prio t (s.saved m)
        owner := Function.update s.owner m (some next)
        saved := Function.update s.saved m (s.prio next)
        waiting := fun m => (s.waiting m).erase next }
  | free {s : Locks τ μ π} {t : τ} {m : μ} (x : π) (ho : s.owner m = some t)
      (hw : s.waiting m = []) : Step (.free t m) s { s with
        prio := Function.update s.prio t (s.saved m)
        owner := Function.update s.owner m none
        saved := Function.update s.saved m x }
  | expire {s : Locks τ μ π} {waiting : μ → List τ} (hw : ∀ m, (waiting m).Sublist (s.waiting m)) :
      Step .expire s { s with waiting }

omit [DecidableEq τ] in
theorem update_some {owner : μ → Option τ} {m m' : μ} {t u : τ}
    (h : Function.update owner m (some t) m' = some u) :
    m' = m ∧ u = t ∨ m' ≠ m ∧ owner m' = some u := by
  by_cases hm : m' = m
  · subst hm
    rw [Function.update_self] at h
    exact Or.inl ⟨rfl, (Option.some.inj h).symm⟩
  · rw [Function.update_of_ne hm] at h
    exact Or.inr ⟨hm, h⟩

omit [DecidableEq τ] in
theorem update_none {owner : μ → Option τ} {m m' : μ} {u : τ}
    (h : Function.update owner m none m' = some u) : m' ≠ m ∧ owner m' = some u := by
  by_cases hm : m' = m
  · subst hm
    rw [Function.update_self] at h
    cases h
  · rw [Function.update_of_ne hm] at h
    exact ⟨hm, h⟩

/-- Whoever owns a lock after a move has owned it, has asked for it, or has waited for it. -/
theorem owner_of_step {mv : Move τ μ} {s s' : Locks τ μ π} {t : τ} {m : μ} (h : Step mv s s')
    (ho : s'.owner m = some t) :
    s.owner m = some t ∨ mv = .acquire t m ∨ t ∈ s.waiting m := by
  cases h with
  | acquire =>
    rcases update_some ho with ⟨rfl, rfl⟩ | ⟨-, ho⟩
    · exact Or.inr (Or.inl rfl)
    · exact Or.inl ho
  | wait => exact Or.inl ho
  | pass _ hw =>
    rcases update_some ho with ⟨rfl, rfl⟩ | ⟨-, ho⟩
    · exact Or.inr (Or.inr (hw ▸ List.mem_cons_self))
    · exact Or.inl ho
  | free _ _ _ => exact Or.inl (update_none ho).2
  | expire => exact Or.inl ho

/-- Thread `t` owns no lock. -/
def Bare (s : Locks τ μ π) (t : τ) : Prop := ∀ m, s.owner m ≠ some t

/-- The moves of threads that ask for one lock at a time, and wait for it as long as it takes. -/
def Disciplined (s : Locks τ μ π) : Move τ μ → Prop
  | .acquire t _ => Bare s t
  | .wait t _ => Bare s t
  | .expire => False
  | _ => True

/-- **Priorities are inherited exactly**, where `base` are the threads' own ones. -/
structure Exact (base : τ → π) (s : Locks τ μ π) : Prop where
  bare : ∀ t, Bare s t → s.prio t = base t
  saved : ∀ m t, s.owner m = some t → s.saved m = base t
  single : ∀ m m' t, s.owner m = some t → s.owner m' = some t → m = m'
  waiter : ∀ m, ∀ t ∈ s.waiting m, Bare s t
  once : ∀ m m' t, t ∈ s.waiting m → t ∈ s.waiting m' → m = m'
  nodup : ∀ m, (s.waiting m).Nodup
  sorted : ∀ m, Sorted s.prio (s.waiting m)
  owned : ∀ m, s.owner m = none → s.waiting m = []
  low : ∀ m t, s.owner m = some t → s.prio t ≤ base t ∧ ∀ w ∈ s.waiting m, s.prio t ≤ s.prio w
  high : ∀ m t, s.owner m = some t →
    s.prio t = base t ∨ ∃ w ∈ s.waiting m, s.prio t = s.prio w

variable {base : τ → π} {s s' : Locks τ μ π} {t o : τ} {m : μ}

omit [DecidableEq μ] in
/-- Threads that own nothing keep their priorities when an owner's changes. -/
theorem sorted_update (h : Exact base s) (hb : ∀ t ∈ s.waiting m, t ≠ o) (x : π) :
    Sorted (Function.update s.prio o x) (s.waiting m) :=
  (h.sorted m).congr fun t ht => Function.update_of_ne (hb t ht) ..

theorem exact_acquire (h : Exact base s) (ho : s.owner m = none) (hw : ∀ m, t ∉ s.waiting m)
    (hd : Bare s t) : Exact base { s with
      owner := Function.update s.owner m (some t)
      saved := Function.update s.saved m (s.prio t) } := by
  have hbare : ∀ u, u ≠ t → (Bare { s with
      owner := Function.update s.owner m (some t)
      saved := Function.update s.saved m (s.prio t) } u ↔ Bare s u) := by
    intro u hu
    refine forall_congr' fun m' => ?_
    by_cases hm : m' = m
    · subst hm
      simp [ho, hu.symm]
    · simp [hm]
  refine ⟨fun u hu => ?_, fun m' u hu => ?_, fun m₁ m₂ u h₁ h₂ => ?_, fun m' u hu => ?_, h.once,
    h.nodup, h.sorted, fun m' hn => ?_, fun m' u hu => ?_, fun m' u hu => ?_⟩
  · by_cases hut : u = t
    · subst hut
      exact absurd (Function.update_self ..) (hu m)
    · exact h.bare u ((hbare u hut).mp hu)
  · rcases update_some hu with ⟨rfl, rfl⟩ | ⟨hm, hu⟩
    · exact (Function.update_self ..).trans (h.bare u hd)
    · exact (Function.update_of_ne hm ..).trans (h.saved m' u hu)
  · rcases update_some h₁ with ⟨hm₁, hu₁⟩ | ⟨-, ho₁⟩ <;>
      rcases update_some h₂ with ⟨hm₂, hu₂⟩ | ⟨-, ho₂⟩
    · exact hm₁.trans hm₂.symm
    · exact absurd (hu₁ ▸ ho₂) (hd m₂)
    · exact absurd (hu₂ ▸ ho₁) (hd m₁)
    · exact h.single m₁ m₂ u ho₁ ho₂
  · exact (hbare u fun hut => hw m' (hut ▸ hu)).mpr (h.waiter m' u hu)
  · by_cases hm : m' = m
    · subst hm
      exact absurd hn (by simp)
    · exact h.owned m' (by simpa [hm] using hn)
  · rcases update_some hu with ⟨rfl, rfl⟩ | ⟨-, hu⟩
    · refine ⟨(h.bare u hd).le, fun w hx => ?_⟩
      rw [show s.waiting m' = [] from h.owned m' ho] at hx
      exact absurd hx List.not_mem_nil
    · exact h.low m' u hu
  · rcases update_some hu with ⟨rfl, rfl⟩ | ⟨-, hu⟩
    · exact Or.inl (h.bare u hd)
    · exact h.high m' u hu

theorem exact_wait (h : Exact base s) (ho : s.owner m = some o) (hot : o ≠ t)
    (hw : ∀ m, t ∉ s.waiting m) (hd : Bare s t) : Exact base { s with
      prio := Function.update s.prio o (min (s.prio o) (s.prio t))
      waiting := Function.update s.waiting m (enqueue s.prio t (s.waiting m)) } := by
  have hne : ∀ m', ∀ u ∈ s.waiting m', u ≠ o := fun m' u hu huo => h.waiter m' u hu m (huo ▸ ho)
  have hmem : ∀ m' u, u ∈ Function.update s.waiting m (enqueue s.prio t (s.waiting m)) m' ↔
      u = t ∧ m' = m ∨ u ∈ s.waiting m' := fun _ _ => mem_update_insertWhere
  refine ⟨fun u hu => ?_, h.saved, h.single, fun m' u hu => ?_, fun m₁ m₂ u h₁ h₂ => ?_, fun m' => ?_,
    fun m' => ?_, fun m' hn => ?_, fun m' u hu => ?_, fun m' u hu => ?_⟩
  all_goals try dsimp only
  · have huo : u ≠ o := fun huo => hu m (huo ▸ ho)
    exact (Function.update_of_ne huo ..).trans (h.bare u hu)
  · rcases (hmem m' u).mp hu with ⟨rfl, -⟩ | hu
    · exact hd
    · exact h.waiter m' u hu
  · rcases (hmem m₁ u).mp h₁ with ⟨hu₁, hm₁⟩ | hw₁ <;>
      rcases (hmem m₂ u).mp h₂ with ⟨hu₂, hm₂⟩ | hw₂
    · exact hm₁.trans hm₂.symm
    · exact absurd (hu₁ ▸ hw₂) (hw m₂)
    · exact absurd (hu₂ ▸ hw₁) (hw m₁)
    · exact h.once m₁ m₂ u hw₁ hw₂
  · exact nodup_update_insertWhere h.nodup (hw m) m'
  · by_cases hm : m' = m
    · subst hm
      rw [Function.update_self]
      refine (sorted_enqueue (h.sorted m')).congr fun u hu => Function.update_of_ne ?_ ..
      rcases mem_insertWhere.mp hu with rfl | hu
      · exact hot.symm
      · exact hne m' u hu
    · rw [Function.update_of_ne hm]
      exact sorted_update h (hne m') _
  · by_cases hm : m' = m
    · subst hm
      rw [ho] at hn
      exact absurd hn (by simp)
    · rw [Function.update_of_ne hm]
      exact h.owned m' hn
  · by_cases hm : m' = m
    · subst hm
      obtain rfl := Option.some.inj (ho.symm.trans hu)
      obtain ⟨h1, h2⟩ := h.low m' o ho
      refine ⟨?_, fun w hx => ?_⟩
      · rw [Function.update_self]
        exact (min_le_left ..).trans h1
      · rw [Function.update_self]
        rcases (hmem m' w).mp hx with ⟨rfl, -⟩ | hx
        · rw [Function.update_of_ne hot.symm]
          exact min_le_right ..
        · rw [Function.update_of_ne (hne m' w hx)]
          exact (min_le_left ..).trans (h2 w hx)
    · have huo : u ≠ o := fun huo => hm (h.single m' m o (huo ▸ hu) ho)
      obtain ⟨h1, h2⟩ := h.low m' u hu
      rw [Function.update_of_ne huo]
      refine ⟨h1, fun w hx => ?_⟩
      rw [Function.update_of_ne hm] at hx
      rw [Function.update_of_ne (hne m' w hx)]
      exact h2 w hx
  · by_cases hm : m' = m
    · subst hm
      obtain rfl := Option.some.inj (ho.symm.trans hu)
      rw [Function.update_self]
      rcases min_choice (s.prio o) (s.prio t) with he | he
      · rw [he]
        rcases h.high m' o ho with hb | ⟨w, hx, hw'⟩
        · exact Or.inl hb
        · refine Or.inr ⟨w, (hmem m' w).mpr (Or.inr hx), ?_⟩
          rw [Function.update_of_ne (hne m' w hx)]
          exact hw'
      · rw [he]
        refine Or.inr ⟨t, (hmem m' t).mpr (Or.inl ⟨rfl, rfl⟩), ?_⟩
        rw [Function.update_of_ne hot.symm]
    · have huo : u ≠ o := fun huo => hm (h.single m' m o (huo ▸ hu) ho)
      rw [Function.update_of_ne huo]
      rcases h.high m' u hu with hb | ⟨w, hx, hw'⟩
      · exact Or.inl hb
      · refine Or.inr ⟨w, (hmem m' w).mpr (Or.inr hx), ?_⟩
        rw [Function.update_of_ne (hne m' w hx)]
        exact hw'

theorem exact_pass (h : Exact base s) {next : τ} {rest : List τ} (ho : s.owner m = some t)
    (hw : s.waiting m = next :: rest) : Exact base {
      prio := Function.update s.prio t (s.saved m)
      owner := Function.update s.owner m (some next)
      saved := Function.update s.saved m (s.prio next)
      waiting := fun m => (s.waiting m).erase next } := by
  have hin : next ∈ s.waiting m := hw ▸ List.mem_cons_self
  have hbn : Bare s next := h.waiter m next hin
  have hpn : s.prio next = base next := h.bare next hbn
  have hnt : next ≠ t := fun he => hbn m (he ▸ ho)
  have hsaved : s.saved m = base t := h.saved m t ho
  have hwt : ∀ m', ∀ u ∈ s.waiting m', u ≠ t := fun m' u hu hut => h.waiter m' u hu m (hut ▸ ho)
  have hmem : ∀ m' u, u ∈ (s.waiting m').erase next ↔ u ≠ next ∧ u ∈ s.waiting m' :=
    fun m' u => (h.nodup m').mem_erase_iff
  refine ⟨fun u hu => ?_, fun m' u hu => ?_, fun m₁ m₂ u h₁ h₂ => ?_, fun m' u hu m₁ hm₁ => ?_,
    fun m₁ m₂ u h₁ h₂ => ?_, fun m' => ?_, fun m' => ?_, fun m' hn => ?_, fun m' u hu => ?_,
    fun m' u hu => ?_⟩
  all_goals try dsimp only
  · by_cases hut : u = t
    · subst hut
      rw [Function.update_self]
      exact hsaved
    · rw [Function.update_of_ne hut]
      refine h.bare u fun m' ho' => ?_
      by_cases hm : m' = m
      · subst hm
        exact hut (Option.some.inj (ho'.symm.trans ho))
      · exact hu m' ((Function.update_of_ne hm ..).trans ho')
  · rcases update_some hu with ⟨rfl, rfl⟩ | ⟨hm, hu⟩
    · exact (Function.update_self ..).trans hpn
    · exact (Function.update_of_ne hm ..).trans (h.saved m' u hu)
  · rcases update_some h₁ with ⟨hm₁, hu₁⟩ | ⟨-, ho₁⟩ <;>
      rcases update_some h₂ with ⟨hm₂, hu₂⟩ | ⟨-, ho₂⟩
    · exact hm₁.trans hm₂.symm
    · exact absurd (hu₁ ▸ ho₂) (hbn m₂)
    · exact absurd (hu₂ ▸ ho₁) (hbn m₁)
    · exact h.single m₁ m₂ u ho₁ ho₂
  · obtain ⟨hun, hu⟩ := (hmem m' u).mp hu
    rcases update_some hm₁ with ⟨-, hn⟩ | ⟨-, ho₁⟩
    · exact hun hn
    · exact h.waiter m' u hu m₁ ho₁
  · exact h.once m₁ m₂ u ((hmem m₁ u).mp h₁).2 ((hmem m₂ u).mp h₂).2
  · exact (h.nodup m').sublist List.erase_sublist
  · refine ((h.sorted m').sublist List.erase_sublist).congr fun u hu => ?_
    exact Function.update_of_ne (hwt m' u ((hmem m' u).mp hu).2) ..
  · by_cases hm : m' = m
    · subst hm
      exact absurd ((Function.update_self ..).symm.trans hn) nofun
    · rw [h.owned m' ((Function.update_of_ne hm ..).symm.trans hn)]
      rfl
  · rcases update_some hu with ⟨rfl, rfl⟩ | ⟨hm, hu⟩
    · rw [Function.update_of_ne hnt]
      refine ⟨hpn.le, fun w hx => ?_⟩
      obtain ⟨hwn, hx⟩ := (hmem m' w).mp hx
      rw [Function.update_of_ne (hwt m' w hx)]
      have hs := h.sorted m'
      rw [hw] at hs hx
      exact (List.pairwise_cons.mp hs).1 w ((List.mem_cons.mp hx).resolve_left hwn)
    · have hut : u ≠ t := fun hut => hm (h.single m' m t (hut ▸ hu) ho)
      obtain ⟨h1, h2⟩ := h.low m' u hu
      rw [Function.update_of_ne hut]
      refine ⟨h1, fun w hx => ?_⟩
      obtain ⟨-, hx⟩ := (hmem m' w).mp hx
      rw [Function.update_of_ne (hwt m' w hx)]
      exact h2 w hx
  · rcases update_some hu with ⟨rfl, rfl⟩ | ⟨hm, hu⟩
    · rw [Function.update_of_ne hnt]
      exact Or.inl hpn
    · have hut : u ≠ t := fun hut => hm (h.single m' m t (hut ▸ hu) ho)
      rw [Function.update_of_ne hut]
      refine (h.high m' u hu).imp id fun ⟨w, hx, hw'⟩ => ⟨w, (hmem m' w).mpr ⟨?_, hx⟩, ?_⟩
      · exact fun hwn => hm (h.once m' m next (hwn ▸ hx) hin)
      · rw [Function.update_of_ne (hwt m' w hx)]
        exact hw'

theorem exact_free (h : Exact base s) (x : π) (ho : s.owner m = some t) (hw : s.waiting m = []) :
    Exact base { s with
      prio := Function.update s.prio t (s.saved m)
      owner := Function.update s.owner m none
      saved := Function.update s.saved m x } := by
  -- nobody has lent anything, so the priority is the old one
  have hprio : Function.update s.prio t (s.saved m) = s.prio := by
    rw [Function.update_eq_self_iff, h.saved m t ho]
    refine ((h.high m t ho).resolve_right fun ⟨w, hx, _⟩ => ?_).symm
    rw [hw] at hx
    exact absurd hx List.not_mem_nil
  rw [hprio]
  refine ⟨fun u hu => ?_, fun m' u hu => ?_,
    fun m₁ m₂ u h₁ h₂ => h.single m₁ m₂ u (update_none h₁).2 (update_none h₂).2,
    fun m' u hu m₁ hm₁ => h.waiter m' u hu m₁ (update_none hm₁).2, h.once, h.nodup, h.sorted,
    fun m' hn => ?_, fun m' u hu => h.low m' u (update_none hu).2,
    fun m' u hu => h.high m' u (update_none hu).2⟩
  · by_cases hut : u = t
    · subst hut
      refine (h.high m u ho).resolve_right fun ⟨w, hx, _⟩ => ?_
      rw [hw] at hx
      exact absurd hx List.not_mem_nil
    · refine h.bare u fun m' ho' => ?_
      by_cases hm : m' = m
      · subst hm
        exact hut (Option.some.inj (ho'.symm.trans ho))
      · exact hu m' ((Function.update_of_ne hm ..).trans ho')
  · obtain ⟨hm, hu⟩ := update_none hu
    exact (Function.update_of_ne hm ..).trans (h.saved m' u hu)
  · by_cases hm : m' = m
    · subst hm
      exact hw
    · exact h.owned m' ((Function.update_of_ne hm ..).symm.trans hn)

/-- **Disciplined moves keep the priorities exact.** -/
theorem exact_step {mv : Move τ μ} (h : Exact base s) (hs : Step mv s s')
    (hd : Disciplined s mv) : Exact base s' := by
  cases hs with
  | acquire ho hw => exact exact_acquire h ho hw hd
  | wait ho hot hw => exact exact_wait h ho hot hw hd
  | pass ho hw => exact exact_pass h ho hw
  | free x ho hw => exact exact_free h x ho hw
  | expire hw => exact absurd hd id

theorem eq_foldr_min {b p : π} : ∀ {l : List π}, p ≤ b → (∀ x ∈ l, p ≤ x) → p = b ∨ p ∈ l →
    p = l.foldr min b
  | [], _, _, h => by simpa using h
  | x :: l, hb, hl, h => by
    have hlow : ∀ l : List π, (∀ x ∈ l, p ≤ x) → p ≤ l.foldr min b := fun l => by
      induction l with
      | nil => exact fun _ => hb
      | cons y l ih =>
        exact fun hl => le_min (hl y List.mem_cons_self)
          (ih fun z hz => hl z (List.mem_cons_of_mem y hz))
    have hl' : ∀ y ∈ l, p ≤ y := fun y hy => hl y (List.mem_cons_of_mem x hy)
    have hx : p ≤ x := hl x List.mem_cons_self
    rw [List.foldr_cons]
    rcases h with he | hm
    · rw [← eq_foldr_min hb hl' (Or.inl he), min_eq_right hx]
    · rcases List.mem_cons.mp hm with rfl | hm
      · rw [min_eq_left (hlow l hl')]
      · rw [← eq_foldr_min hb hl' (Or.inr hm), min_eq_right hx]

omit [DecidableEq μ] [DecidableEq τ] in
/-- **An owner's priority** is the most urgent one of its own and its waiters'. -/
theorem Exact.prio_eq (h : Exact base s) (ho : s.owner m = some t) :
    s.prio t = ((s.waiting m).map base).foldr min (base t) := by
  have hbase : ∀ w ∈ s.waiting m, s.prio w = base w := fun w hw => h.bare w (h.waiter m w hw)
  obtain ⟨h1, h2⟩ := h.low m t ho
  refine eq_foldr_min h1 (fun x hx => ?_) ((h.high m t ho).imp_right fun ⟨w, hw, he⟩ => ?_)
  · obtain ⟨w, hw, rfl⟩ := List.mem_map.mp hx
    exact hbase w hw ▸ h2 w hw
  · exact List.mem_map.mpr ⟨w, hw, (hbase w hw).symm.trans he.symm⟩

end RtosExample.Lib.Inherit
