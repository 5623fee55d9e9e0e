import Mathlib.Tactic.Linarith

/-! # Two open-drain lines

A bus of a clock line SCL and a data line SDA. A line is high unless the master's pin or a target
pulls it low. A *target* hangs on the bus: it pulls lines, and reacts to what it sees on them, which
is the `Edge` from one pair of levels to the next.

* `Wire`: the master's two pins, the target and the recorded levels; `Wire.move` is one change.
* `decode`: what a monitor of the lines reads: START, STOP and the bits. A bit counts once SCL falls
  again, so SDA kept still while SCL was high.
* `Port`: the same bus by its edges alone; `Shows` says that the wire looks like it, and
  `Shows.move` is the rule for one change. -/

namespace RtosExample.Lib.TwoWire

/-- The levels of the two lines. -/
structure Lines where
  scl : Bool
  sda : Bool
  deriving DecidableEq, Repr

/-- The lines of a bus where nobody pulls. -/
def Lines.idle : Lines := ⟨true, true⟩

/-- What is seen when the levels change. -/
inductive Edge
  | still
  /-- SCL rises, with SDA at that level. -/
  | rise (sda : Bool)
  | fall
  | start
  | stop
  deriving DecidableEq, Repr

def edge (old new : Lines) : Edge :=
  match old.scl, new.scl with
  | false, false => .still
  | false, true => .rise new.sda
  | true, false => .fall
  | true, true => if old.sda = new.sda then .still else if new.sda then .stop else .start

/-- SCL after an edge. -/
def Edge.scl : Edge → Bool → Bool
  | .rise _, _ => true
  | .fall, _ => false
  | .still, b | .start, b | .stop, b => b

theorem edge_self (l : Lines) : edge l l = .still := by
  rcases l with ⟨_ | _, _ | _⟩ <;> rfl

theorem scl_edge (old new : Lines) : (edge old new).scl old.scl = new.scl := by
  rcases old with ⟨_ | _, _ | _⟩ <;> rcases new with ⟨_ | _, _ | _⟩ <;> rfl

/-- While SCL is low, nothing is seen of SDA. -/
theorem edge_low {old new : Lines} (h : old.scl = false) (h' : new.scl = false) :
    edge old new = .still := by
  simp [edge, h, h']

theorem edge_rise {old new : Lines} (h : old.scl = false) (h' : new.scl = true) :
    edge old new = .rise new.sda := by
  simp [edge, h, h']

theorem edge_fall {old new : Lines} (h : old.scl = true) (h' : new.scl = false) :
    edge old new = .fall := by
  simp [edge, h, h']

theorem edge_eq_start {old new : Lines} (h : edge old new = .start) :
    old = ⟨true, true⟩ ∧ new = ⟨true, false⟩ := by
  rcases old with ⟨_ | _, _ | _⟩ <;> rcases new with ⟨_ | _, _ | _⟩ <;> cases h
  exact ⟨rfl, rfl⟩

theorem edge_eq_stop {old new : Lines} (h : edge old new = .stop) :
    old = ⟨true, false⟩ ∧ new = ⟨true, true⟩ := by
  rcases old with ⟨_ | _, _ | _⟩ <;> rcases new with ⟨_ | _, _ | _⟩ <;> cases h
  exact ⟨rfl, rfl⟩

/-! ### The monitor -/

/-- What is sent over the lines. -/
inductive Symbol
  | start
  | stop
  | bit (b : Bool)
  deriving DecidableEq, Repr

/-- The symbols read so far, and the bit that stands on SDA while SCL is high. -/
structure Monitor where
  pending : Option Bool
  seen : List Symbol
  deriving DecidableEq, Repr

def Monitor.react : Edge → Monitor → Monitor
  | .still, m => m
  | .rise b, m => { m with pending := some b }
  | .fall, m => ⟨none, m.seen ++ m.pending.toList.map .bit⟩
  | .start, m => ⟨none, m.seen ++ [.start]⟩
  | .stop, m => ⟨none, m.seen ++ [.stop]⟩

/-- The monitor after the recorded levels, the newest first. -/
def decode : List Lines → Monitor
  | [] | [_] => ⟨none, []⟩
  | l' :: l :: ls => (decode (l :: ls)).react (edge l l')

theorem decode_cons {l' l : Lines} {ls : List Lines} (h : ls.head? = some l) :
    decode (l' :: ls) = (decode ls).react (edge l l') := by
  obtain ⟨ls, rfl⟩ := List.head?_eq_some_iff.mp h
  rfl

/-! ### Targets -/

/-- **A target**: the lines it leaves alone (`true`), how it reacts to an edge, and what it does when
a tick passes. It takes hold of SCL only at a falling edge, and while SCL is up it neither takes hold
of SDA nor lets go of it. -/
structure Target (τ : Type) where
  scl : τ → Bool
  sda : τ → Bool
  react : Edge → τ → τ
  tick : τ → τ
  react_still : ∀ t, react .still t = t
  scl_react : ∀ e t, e ≠ .fall → scl t = true → scl (react e t) = true
  sda_rise : ∀ b t, sda (react (.rise b) t) = sda t
  sda_react : ∀ e t, e ≠ .fall → sda t = true → sda (react e t) = true
  scl_tick : ∀ t, scl t = true → scl (tick t) = true
  sda_tick : ∀ t, scl t = true → sda (tick t) = sda t

variable {τ : Type} (T : Target τ)

/-! ### The wire -/

/-- The master's pins (`true` is released), the target, the time in ticks, and the levels of the
lines so far, the newest first. -/
structure Wire (τ : Type) where
  scl : Bool
  sda : Bool
  target : τ
  time : ℕ
  trace : List Lines

def Wire.lines (w : Wire τ) : Lines := ⟨w.scl && T.scl w.target, w.sda && T.sda w.target⟩

/-- Something moves: `w'` is `w` with other pins or another state of the target. The target reacts
to what this does to the lines, and the levels before and after its reaction are recorded. -/
def Wire.move (w w' : Wire τ) : Wire τ :=
  let t := T.react (edge (w.lines T) (w'.lines T)) w'.target
  { w' with
    target := t
    trace := { w' with target := t }.lines T :: w'.lines T :: w.trace }

/-- A wire with both pins released, on a target that does not pull either. -/
def Wire.released (t : τ) (time : ℕ) : Wire τ := ⟨true, true, t, time, [.idle]⟩

/-! ### The bus by its edges -/

/-- The bus as the edges leave it: the target, the time, SCL and what the monitor has read. -/
structure Port (τ : Type) where
  target : τ
  time : ℕ
  up : Bool
  mon : Monitor

def Port.react (e : Edge) (p : Port τ) : Port τ :=
  { p with target := T.react e p.target, up := e.scl p.up, mon := p.mon.react e }

/-- The state of an idle bus before anything was sent. -/
def Port.released (t : τ) (time : ℕ) : Port τ := ⟨t, time, true, ⟨none, []⟩⟩

/-- **The wire looks like the port.** -/
structure Shows (w : Wire τ) (p : Port τ) : Prop where
  target : w.target = p.target
  time : w.time = p.time
  scl : (w.scl && T.scl w.target) = p.up
  head : w.trace.head? = some (w.lines T)
  mon : decode w.trace = p.mon

variable {T}

theorem Port.react_still (p : Port τ) : p.react T .still = p := by
  rcases p with ⟨t, n, u, m⟩
  simp [Port.react, T.react_still, Edge.scl, Monitor.react]

theorem Shows.released {t : τ} (n : ℕ) (h : T.scl t = true) (h' : T.sda t = true) :
    Shows T (.released t n) (.released t n) :=
  ⟨rfl, rfl, by simp [Wire.released, Port.released, h],
    by simp [Wire.released, Wire.lines, Lines.idle, h, h'], rfl⟩

/-- Once the target has reacted the lines are still: it only lets go of SDA at a falling edge, and a
pin of the master holds SCL down then. -/
theorem edge_settled {l : Lines} {w' : Wire τ} (hf : edge l (w'.lines T) = .fall → w'.scl = false)
    (hs : edge l (w'.lines T) = .start → w'.sda = false) :
    edge (w'.lines T) ({ w' with target := T.react (edge l (w'.lines T)) w'.target }.lines T) =
      .still := by
  cases he : edge l (w'.lines T) with
  | still => rw [T.react_still, edge_self]
  | fall => exact edge_low (by simp [Wire.lines, hf he]) (by simp [Wire.lines, hf he])
  | rise b =>
    have hu : (w'.lines T).scl = true := by rw [← scl_edge l, he]; rfl
    rw [Wire.lines, Bool.and_eq_true] at hu
    simp [edge, Wire.lines, hu, T.scl_react (.rise b) _ (by simp) hu.2, T.sda_rise]
  | start =>
    have hu : (w'.lines T).scl = true := by rw [(edge_eq_start he).2]
    rw [Wire.lines, Bool.and_eq_true] at hu
    simp [edge, Wire.lines, hu, T.scl_react .start _ (by simp) hu.2, hs he]
  | stop =>
    have hu : (w'.lines T).scl = true := by rw [(edge_eq_stop he).2]
    have hd : (w'.lines T).sda = true := by rw [(edge_eq_stop he).2]
    rw [Wire.lines, Bool.and_eq_true] at hu hd
    simp [edge, Wire.lines, hu, hd, T.scl_react .stop _ (by simp) hu.2,
      T.sda_react .stop _ (by simp) hd.2]

/-- **One change of the wire is one edge of the port.** -/
theorem Shows.move {w : Wire τ} {p q : Port τ} (h : Shows T w p) (w' : Wire τ)
    (hf : edge (w.lines T) (w'.lines T) = .fall → w'.scl = false)
    (hs : edge (w.lines T) (w'.lines T) = .start → w'.sda = false)
    (ht : w'.target = q.target) (hn : w'.time = q.time) (hu : q.up = p.up) (hm : q.mon = p.mon) :
    Shows T (w.move T w') (q.react T (edge (w.lines T) (w'.lines T))) := by
  have hstill := edge_settled hf hs
  have hscl := scl_edge (w'.lines T)
    ({ w' with target := T.react (edge (w.lines T) (w'.lines T)) w'.target }.lines T)
  rw [hstill] at hscl
  refine ⟨by rw [Wire.move, Port.react, ht], hn, ?_, rfl, ?_⟩
  · calc ((w.move T w').lines T).scl = (w'.lines T).scl := hscl.symm
      _ = (edge (w.lines T) (w'.lines T)).scl p.up := by rw [← h.scl]; exact (scl_edge _ _).symm
      _ = _ := by rw [Port.react, hu]
  · rw [Wire.move, decode_cons rfl, hstill, Monitor.react, decode_cons h.head, h.mon, Port.react, hm]

end RtosExample.Lib.TwoWire
