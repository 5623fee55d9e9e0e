import RtosExample.Cint

/-! # The byte level of an I2C bus

What a master can see of whatever hangs on the bus. A *slave* has a state and answers what a master
does: a START, a repeated START and a STOP condition, a byte clocked out, a byte clocked in, and the
ninth clock after a byte clocked in, where the master acknowledges or not. Each of them can fail,
because a line is held low: then the condition is not made, or the byte is cut off.

* `puts`, `AcksAll`: a list of bytes clocked out in a row, and that all of them are acknowledged.
* `takes`: `n` bytes clocked in, all but the last one acknowledged.
* `putEvents`, `takeEvents`: what these leave on the bus.
* `Willing`: a slave on which nothing fails. -/

namespace RtosExample.Lib.ByteBus

open RtosExample.Cint

/-- The answer to a byte clocked out. -/
inductive Answer
  | ack
  | nack
  /-- SCL stayed low when so many bits had been clocked; with `8` the ninth clock failed. -/
  | timeout (clocked : ℕ)
  deriving DecidableEq, Repr

/-- One event on the bus. -/
inductive Event
  | start
  | stop
  /-- The master clocks a byte out, or begins to. -/
  | put (b : U8) (a : Answer)
  /-- The master clocks a byte in. -/
  | get (b : U8)
  /-- The ninth clock after a byte clocked in: acknowledged or not. -/
  | reply (ack : Bool)
  /-- SCL stayed low while the master was clocking a byte in. -/
  | stuck
  deriving DecidableEq, Repr

/-- A START or a STOP on the bus, if it was made. -/
def made (m : Bool) (e : Event) : List Event := if m then [e] else []

@[simp] theorem made_true (e : Event) : made true e = [e] := rfl

@[simp] theorem made_false (e : Event) : made false e = [] := rfl

/-- A byte on the bus, if any of its bits was clocked. -/
def clocked (b : U8) : Answer → List Event
  | .timeout 0 => []
  | a => [.put b a]

@[simp] theorem clocked_ack (b : U8) : clocked b .ack = [.put b .ack] := rfl

@[simp] theorem clocked_nack (b : U8) : clocked b .nack = [.put b .nack] := rfl

theorem clocked_eq_nil {b : U8} {a : Answer} : clocked b a = [] ↔ a = .timeout 0 := by
  cases a with
  | ack => simp
  | nack => simp
  | timeout k => cases k <;> simp [clocked]

/-- **A slave**: how it answers, in a state `s`, and the state it goes to. -/
structure Slave (σ : Type) where
  /-- `false`: a line is held low, and no START is made. -/
  start : σ → Bool × σ
  /-- The same for a START that releases both lines first. -/
  restart : σ → Bool × σ
  /-- `false`: a line is held low, and no STOP is made. -/
  stop : σ → Bool × σ
  put : U8 → σ → Answer × σ
  /-- `none`: SCL stays low. -/
  get : σ → Option U8 × σ
  /-- `false`: SCL stays low. -/
  reply : Bool → σ → Bool × σ

variable {σ : Type} (S : Slave σ)

/-- The state after a list of bytes clocked out. -/
def puts : List U8 → σ → σ
  | [], s => s
  | b :: bs, s => puts bs (S.put b s).2

/-- All the bytes of the list are acknowledged. -/
def AcksAll : List U8 → σ → Prop
  | [], _ => True
  | b :: bs, s => (S.put b s).1 = .ack ∧ AcksAll bs (S.put b s).2

/-- `n` bytes clocked in, all but the last one acknowledged; `none` if SCL stays low. -/
def takes : ℕ → σ → Option (List U8 × σ)
  | 0, s => some ([], s)
  | n + 1, s =>
    match S.get s with
    | (none, _) => none
    | (some b, s₁) =>
      match S.reply (n != 0) s₁ with
      | (false, _) => none
      | (true, s₂) => (takes n s₂).map fun r => (b :: r.1, r.2)

/-- The events of a list of acknowledged bytes. -/
def putEvents (bs : List U8) : List Event := bs.map fun b => .put b .ack

/-- The events of bytes clocked in, all but the last one acknowledged. -/
def takeEvents : List U8 → List Event
  | [] => []
  | b :: bs => .get b :: .reply (bs.length != 0) :: takeEvents bs

@[simp] theorem puts_nil (s : σ) : puts S [] s = s := rfl

@[simp] theorem puts_cons (b : U8) (bs : List U8) (s : σ) :
    puts S (b :: bs) s = puts S bs (S.put b s).2 := rfl

/-- One byte clocked in and acknowledged as it should be. -/
theorem takes_succ {n : ℕ} {s s₁ s₂ : σ} {b : U8} (hg : S.get s = (some b, s₁))
    (hr : S.reply (n != 0) s₁ = (true, s₂)) :
    takes S (n + 1) s = (takes S n s₂).map fun r => (b :: r.1, r.2) := by
  simp only [takes, hg, hr]

/-- **Inversion.** A successful row of bytes starts with a byte and an answered ninth clock. -/
theorem takes_succ_inv {n : ℕ} {s s' : σ} {bs : List U8} (h : takes S (n + 1) s = some (bs, s')) :
    ∃ b bs' s₁ s₂, bs = b :: bs' ∧ S.get s = (some b, s₁) ∧ S.reply (n != 0) s₁ = (true, s₂) ∧
      takes S n s₂ = some (bs', s') := by
  rcases hg : S.get s with ⟨_ | b, s₁⟩
  · simp [takes, hg] at h
  rcases hr : S.reply (n != 0) s₁ with ⟨_ | _, s₂⟩
  · simp [takes, hg, hr] at h
  rw [takes_succ S hg hr, Option.map_eq_some_iff] at h
  obtain ⟨⟨bs', s''⟩, ht, he⟩ := h
  cases he
  exact ⟨b, bs', s₁, s₂, rfl, rfl, hr, ht⟩

theorem length_takes {n : ℕ} : ∀ {s s' : σ} {bs : List U8}, takes S n s = some (bs, s') →
    bs.length = n := by
  induction n with
  | zero =>
    intro s s' bs h
    cases h
    rfl
  | succ n ih =>
    intro s s' bs h
    obtain ⟨b, bs', s₁, s₂, rfl, -, -, ht⟩ := takes_succ_inv S h
    rw [List.length_cons, ih ht]

theorem takeEvents_concat (bs : List U8) (b : U8) :
    takeEvents (bs ++ [b]) =
      bs.flatMap (fun b => [.get b, .reply true]) ++ [.get b, .reply false] := by
  induction bs with
  | nil => rfl
  | cons c bs ih => simp [takeEvents, ih]

/-! ### Slaves that always answer -/

/-- The slave acknowledges every byte, and never holds a line low for too long. -/
structure Willing : Prop where
  start : ∀ s, (S.start s).1 = true
  stop : ∀ s, (S.stop s).1 = true
  put : ∀ b s, (S.put b s).1 = .ack
  get : ∀ s, (S.get s).1.isSome
  reply : ∀ a s, (S.reply a s).1 = true

variable {S}

theorem Willing.acksAll (h : Willing S) : ∀ (bs : List U8) (s : σ), AcksAll S bs s
  | [], _ => trivial
  | b :: bs, s => ⟨h.put b s, h.acksAll bs _⟩

theorem Willing.takes (h : Willing S) (n : ℕ) : ∀ s : σ, ∃ bs s', takes S n s = some (bs, s') := by
  induction n with
  | zero => exact fun s => ⟨[], s, rfl⟩
  | succ n ih =>
    intro s
    obtain ⟨b, hb⟩ := Option.isSome_iff_exists.mp (h.get s)
    have hg : S.get s = (some b, (S.get s).2) := Prod.ext hb rfl
    have hr : S.reply (n != 0) (S.get s).2 = (true, (S.reply (n != 0) (S.get s).2).2) :=
      Prod.ext (h.reply _ _) rfl
    obtain ⟨bs, s', ht⟩ := ih (S.reply (n != 0) (S.get s).2).2
    refine ⟨b :: bs, s', ?_⟩
    rw [takes_succ S hg hr, ht]
    rfl

end RtosExample.Lib.ByteBus
