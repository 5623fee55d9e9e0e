import Mathlib.Data.List.Basic

/-! # Two threads of atomic actions

A thread is a list of atomic actions on its own locals and a state it shares with the other thread.
A schedule is the list of the threads that move (`run`). Without interruption a list of actions is
`alone`, and one thread after the other is `serial`; `run_serial` says that this is the run of the
schedule in which the actions of each thread stand together. -/

namespace RtosExample.Lib.Interleave

/-- An atomic action, on the locals of its thread and the shared state. It may fail. -/
abbrev Action (ε ℓ σ : Type) := ℓ × σ → Except ε (ℓ × σ)

/-- A thread: the actions to go and its locals. -/
structure Thread (ε ℓ σ : Type) where
  todo : List (Action ε ℓ σ)
  loc : ℓ

/-- Two threads and the state they share. -/
structure Conf (ε ℓ σ : Type) where
  threads : Bool → Thread ε ℓ σ
  shared : σ

variable {ε ℓ σ : Type}

/-- Thread `t` has come to the actions `fs` and the locals and the shared state `p`. -/
def Conf.move (c : Conf ε ℓ σ) (t : Bool) (fs : List (Action ε ℓ σ)) (p : ℓ × σ) : Conf ε ℓ σ :=
  { threads := fun u => if u = t then ⟨fs, p.1⟩ else c.threads u, shared := p.2 }

@[simp] theorem move_self (c : Conf ε ℓ σ) (t : Bool) (fs : List (Action ε ℓ σ)) (p : ℓ × σ) :
    (c.move t fs p).threads t = ⟨fs, p.1⟩ := if_pos rfl

@[simp] theorem move_other (c : Conf ε ℓ σ) (t : Bool) (fs : List (Action ε ℓ σ)) (p : ℓ × σ) :
    (c.move t fs p).threads (!t) = c.threads !t := if_neg (by cases t <;> decide)

@[simp] theorem move_shared (c : Conf ε ℓ σ) (t : Bool) (fs : List (Action ε ℓ σ)) (p : ℓ × σ) :
    (c.move t fs p).shared = p.2 := rfl

@[simp] theorem move_move (c : Conf ε ℓ σ) (t : Bool) (fs gs : List (Action ε ℓ σ))
    (p q : ℓ × σ) : (c.move t fs p).move t gs q = c.move t gs q := by
  unfold Conf.move
  congr 1
  funext u
  by_cases h : u = t
  · rw [if_pos h, if_pos h]
  · rw [if_neg h, if_neg h]
    exact if_neg h

theorem move_stay {c : Conf ε ℓ σ} {t : Bool} {fs : List (Action ε ℓ σ)}
    (h : (c.threads t).todo = fs) : c.move t fs ((c.threads t).loc, c.shared) = c := by
  subst h
  rcases c with ⟨threads, shared⟩
  simp only [Conf.move, Conf.mk.injEq, and_true]
  funext u
  by_cases h : u = t
  · rw [if_pos h, h]
  · rw [if_neg h]

/-- Actions in a row that nobody interrupts. -/
def alone : List (Action ε ℓ σ) → Action ε ℓ σ
  | [], p => .ok p
  | f :: fs, p => f p >>= alone fs

/-- Thread `t` does its next action, if it has one. -/
def step (c : Conf ε ℓ σ) (t : Bool) : Except ε (Conf ε ℓ σ) :=
  match (c.threads t).todo with
  | [] => .ok c
  | f :: fs => (f ((c.threads t).loc, c.shared)).map (c.move t fs)

/-- The threads move as the schedule says. -/
def run : List Bool → Conf ε ℓ σ → Except ε (Conf ε ℓ σ)
  | [], c => .ok c
  | t :: ts, c => step c t >>= run ts

/-- Thread `t` to its end and then the other one. -/
def serial (t : Bool) (c : Conf ε ℓ σ) : Except ε (Conf ε ℓ σ) := do
  let p ← alone (c.threads t).todo ((c.threads t).loc, c.shared)
  let q ← alone (c.threads !t).todo ((c.threads !t).loc, p.2)
  return (c.move t [] p).move (!t) [] q

theorem step_cons {c : Conf ε ℓ σ} {t : Bool} {f : Action ε ℓ σ} {fs : List (Action ε ℓ σ)}
    (h : (c.threads t).todo = f :: fs) :
    step c t = (f ((c.threads t).loc, c.shared)).map (c.move t fs) := by
  unfold step
  rw [h]

theorem run_append : ∀ (ts us : List Bool) (c : Conf ε ℓ σ),
    run (ts ++ us) c = run ts c >>= run us
  | [], _, _ => rfl
  | t :: ts, us, c => by
    rw [List.cons_append, run, run, bind_assoc]
    congr 1
    exact funext fun c' => run_append ts us c'

theorem run_replicate (t : Bool) : ∀ (fs : List (Action ε ℓ σ)) (c : Conf ε ℓ σ),
    (c.threads t).todo = fs →
    run (List.replicate fs.length t) c =
      (alone fs ((c.threads t).loc, c.shared)).map (c.move t [])
  | [], c, h => congrArg Except.ok (move_stay h).symm
  | f :: fs, c, h => by
    rw [List.length_cons, List.replicate_succ, run, step_cons h, alone]
    rcases f ((c.threads t).loc, c.shared) with e | p
    · rfl
    · have ih := run_replicate t fs (c.move t fs p) (by simp)
      simp only [move_self, move_shared] at ih
      change run (List.replicate fs.length t) (c.move t fs p) = (alone fs p).map (c.move t [])
      rw [ih]
      exact congrArg (fun g => (alone fs p).map g) (funext fun q => move_move c t fs [] p q)

theorem run_serial (t : Bool) (c : Conf ε ℓ σ) :
    run (List.replicate (c.threads t).todo.length t ++
      List.replicate (c.threads !t).todo.length !t) c = serial t c := by
  rw [run_append, run_replicate t _ c rfl, serial]
  rcases alone (c.threads t).todo ((c.threads t).loc, c.shared) with e | p
  · rfl
  · have hs := run_replicate (!t) _ (c.move t [] p) (congrArg Thread.todo (move_other c t [] p))
    rw [move_other, move_shared] at hs
    exact hs

end RtosExample.Lib.Interleave
