import Mathlib.Data.List.Basic
import Mathlib.Tactic.SplitIfs

/-! # Runs of partial steps

A machine does the actions of a list one after the other; an action that does not come back ends
the run without a state. `run_inv` is the invariant rule.

A `Path` is a run in which each action is also allowed where it is taken; `path_inv` is the
invariant rule for paths, and `walk` finds the path of a list of actions, if there is one. -/

namespace RtosExample.Lib.Runs

variable {γ σ : Type} (exec : γ → σ → Option σ)

/-- The state after a list of actions. -/
def run : List γ → σ → Option σ
  | [], s => some s
  | c :: cs, s => (exec c s).bind (run cs)

theorem run_cons {c : γ} {cs : List γ} {s t : σ} :
    run exec (c :: cs) s = some t ↔ ∃ s', exec c s = some s' ∧ run exec cs s' = some t :=
  Option.bind_eq_some_iff

variable {exec}

/-- **What every action of the run keeps, the run keeps.** -/
theorem run_inv {I : σ → Prop} : ∀ {cs : List γ} {s t : σ},
    (∀ c ∈ cs, ∀ s s', I s → exec c s = some s' → I s') → I s → run exec cs s = some t → I t
  | [], s, t, _, hs, h => by
    cases h
    exact hs
  | c :: cs, s, t, hstep, hs, h => by
    obtain ⟨s', hc, h'⟩ := (run_cons exec).mp h
    exact run_inv (fun d hd => hstep d (List.mem_cons_of_mem c hd))
      (hstep c List.mem_cons_self s s' hs hc) h'

/-- A run from `s` to `t`, each of whose actions is allowed in the state in which it is taken. -/
def Path (ok : σ → γ → Prop) (exec : γ → σ → Option σ) : List γ → σ → σ → Prop
  | [], s, t => t = s
  | c :: cs, s, t => ok s c ∧ ∃ s', exec c s = some s' ∧ Path ok exec cs s' t

variable {ok : σ → γ → Prop}

/-- **What every allowed action keeps, a path keeps.** -/
theorem path_inv {I : σ → Prop} (hstep : ∀ s c s', I s → ok s c → exec c s = some s' → I s') :
    ∀ {cs : List γ} {s t : σ}, Path ok exec cs s t → I s → I t
  | [], _, _, h, hs => h ▸ hs
  | c :: _, s, _, ⟨hc, s', he, h⟩, hs => path_inv hstep h (hstep s c s' hs hc he)

/-- The state after a list of actions, if each of them is allowed. -/
def walk (ok : σ → γ → Prop) [∀ s c, Decidable (ok s c)] (exec : γ → σ → Option σ) :
    List γ → σ → Option σ
  | [], s => some s
  | c :: cs, s => if ok s c then (exec c s).bind (walk ok exec cs) else none

theorem walk_path [∀ s c, Decidable (ok s c)] : ∀ {cs : List γ} {s t : σ},
    walk ok exec cs s = some t → Path ok exec cs s t
  | [], _, _, h => (Option.some.inj h).symm
  | c :: cs, s, t, h => by
    rw [walk] at h
    split_ifs at h with hc
    obtain ⟨s', he, h'⟩ := Option.bind_eq_some_iff.mp h
    exact ⟨hc, s', he, walk_path h'⟩

/-- A path is found by evaluation, with what is to be seen at its end. -/
theorem walk_any [∀ s c, Decidable (ok s c)] {p : σ → Bool} {cs : List γ} {s : σ}
    (h : (walk ok exec cs s).any p = true) : ∃ t, Path ok exec cs s t ∧ p t = true := by
  obtain ⟨t, ht, hp⟩ := (Option.any_eq_true ..).mp h
  exact ⟨t, walk_path ht, hp⟩

end RtosExample.Lib.Runs
