import RtosExample.I2c.Bytes
import RtosExample.I2c.Pins
import RtosExample.I2c.Simulation

/-! # The two lines, byte by byte

What a target on the two lines is as a slave of `Lib.ByteBus`. `edges` answers each primitive by the
edges that the functions of `I2c.Pins` make, on a `Port` of `Lib.TwoWire`, where the pins of the
master no longer occur: a START is seen if SDA was up while SCL was, a byte is cut off where the
wait for SCL ends.

* `sclH_waited`: the wait for SCL, which every primitive but `i2c_start` makes.
* `i2cStart_shows` to `i2cSendAckOrNack_shows`: what each primitive leaves on the wire.
* `Looks`, `pins_sim`: the wire shows the state of the slave, and `Bus.held` is the level of the
  master's pin; each primitive keeps this and returns the same on both sides. -/

namespace RtosExample.I2c.Edges

open RtosExample.Cint RtosExample.Lib.ByteBus RtosExample.Lib.TwoWire
open RtosExample.I2c.BitOps RtosExample.I2c.Bytes RtosExample.I2c.Pins RtosExample.I2c.Simulation

variable {τ : Type} (cpu : Cpu) (T : Target τ)

/-! ### The edges of the primitives -/

/-- The master's SCL pin goes down. -/
def lower (p : Port τ) : Port τ := if p.up then p.react T .fall else p

/-- Nobody holds SCL down any longer, if the target does not; SDA is at `sda` for the master. -/
def rising (sda : Bool) (p : Port τ) : Port τ :=
  if !p.up && T.scl p.target then p.react T (.rise (sda && T.sda p.target)) else p

/-- One tick passes, with the SCL pin released. -/
def pass (sda : Bool) (p : Port τ) : Port τ :=
  rising T sda { p with target := T.tick p.target, time := p.time + 1 }

/-- The wait of `SCL_H`; whether SCL came up. -/
def await (sda : Bool) (start : U32) : ℕ → Port τ → Bool × Port τ
  | 0, p => (false, p)
  | fuel + 1, p =>
    if p.up then (true, p)
    else if BitVec.ofNat 32 p.time - start > timeout then (false, p)
    else await sda start fuel
      ((pass T sda)^[((timeout + 1) >>> 1).toNat + cpu.late p.time] p)

/-- `SCL_H`. -/
def raise (sda : Bool) (p : Port τ) : Bool × Port τ :=
  await cpu T sda (BitVec.ofNat 32 p.time) 4 (rising T sda p)

/-- The master's SDA pin goes down: a START where both lines are up. -/
def pull (p : Port τ) : Port τ := if p.up && T.sda p.target then p.react T .start else p

/-- `i2c_start` with both pins released. -/
def start (p : Port τ) : Bool × Port τ := (p.up && T.sda p.target, lower T (pull T p))

/-- `i2c_restart`. -/
def restart (p : Port τ) : Bool × Port τ := start T (raise cpu T true p).2

/-- `i2c_stop`. -/
def stop (p : Port τ) : Bool × Port τ :=
  let r := raise cpu T false (pull T p)
  if r.1 && T.sda r.2.target then (true, r.2.react T .stop) else (false, r.2)

/-- `i2c_waitack`. -/
def waitack (p : Port τ) : Answer × Port τ :=
  let r := raise cpu T true p
  if r.1 then (if T.sda r.2.target then .nack else .ack, lower T r.2) else (.timeout 8, r.2)

/-- The bits below `i` of a byte clocked out, and the acknowledge. -/
def putBits (data : U8) : ℕ → Port τ → Answer × Port τ
  | 0, p => waitack cpu T (lower T p)
  | i + 1, p =>
    let r := raise cpu T (data.getLsbD i) (lower T p)
    if r.1 then putBits data i r.2 else (.timeout (7 - i), r.2)

/-- So many more bits clocked in. -/
def getBits : ℕ → U8 → Port τ → Option U8 × Port τ
  | 0, data, p => (some data, p)
  | i + 1, data, p =>
    let r := raise cpu T true p
    if r.1 then
      getBits i (if T.sda r.2.target then data <<< 1 ||| 1 else data <<< 1) (lower T r.2)
    else (none, r.2)

/-- `i2c_send_ack_or_nack`. -/
def reply (ack : Bool) (p : Port τ) : Bool × Port τ :=
  let r := raise cpu T (!ack) p
  if r.1 then (true, lower T r.2) else (false, r.2)

/-- **The target as a slave.** -/
def edges : Slave (Port τ) where
  start := start T
  restart := restart cpu T
  stop := stop cpu T
  put data := putBits cpu T data 8
  get := getBits cpu T 8 0
  reply := reply cpu T

variable {T}

/-! ### One move of the wire -/

theorem up_lower (p : Port τ) : (lower T p).up = false := by
  unfold lower
  rcases hu : p.up with _ | _
  · simp [hu]
  · simp [Port.react, Edge.scl]

theorem setSda_shows {w : Wire τ} {p : Port τ} (h : Shows T w p) {v : Bool} {e : Edge}
    (he : edge (w.lines T) ({ w with sda := v }.lines T) = e) (hs : e = .start → v = false) :
    Shows T (setSda T v w) (p.react T e) := by
  subst he
  refine h.move { w with sda := v } (fun hf => ?_) hs h.target h.time rfl rfl
  -- SCL stays as it is, so this is no falling edge
  have hc := scl_edge (w.lines T) ({ w with sda := v }.lines T)
  rw [hf] at hc
  have hl : (w.lines T).scl = false := hc.symm
  rw [edge_low hl hc.symm] at hf
  cases hf

/-- While SCL is low nothing is seen of SDA. -/
theorem setSda_low {w : Wire τ} {p : Port τ} (h : Shows T w p) (hu : p.up = false) (v : Bool) :
    Shows T (setSda T v w) p := by
  have hl : (w.lines T).scl = false := h.scl.trans hu
  have hm := setSda_shows h (v := v) (edge_low hl hl) (by simp)
  rwa [p.react_still] at hm

theorem setSda_same {w : Wire τ} {p : Port τ} (h : Shows T w p) {v : Bool} (hv : w.sda = v) :
    Shows T (setSda T v w) p := by
  have hm := setSda_shows h (v := v) (e := .still) (by rw [← hv]; exact edge_self _) (by simp)
  rwa [p.react_still] at hm

/-- SDA goes down while SCL is up: a START, unless the target held it down already. -/
theorem setSda_start {w : Wire τ} {p : Port τ} (h : Shows T w p) (hu : p.up = true)
    (hv : w.sda = true) :
    Shows T (setSda T false w) (if T.sda p.target then p.react T .start else p) := by
  have hl : (w.scl && T.scl p.target) = true := h.target ▸ h.scl.trans hu
  rcases hd : T.sda p.target with _ | _
  · have hm := setSda_shows h (v := false) (e := .still)
      (by simp [edge, Wire.lines, hl, hv, h.target, hd]) (by simp)
    rwa [p.react_still] at hm
  · exact setSda_shows h (by simp [edge, Wire.lines, hl, hv, h.target, hd]) fun _ => rfl

/-- SDA goes up while SCL is up: a STOP, unless the target holds it down. -/
theorem setSda_stop {w : Wire τ} {p : Port τ} (h : Shows T w p) (hu : p.up = true)
    (hv : w.sda = false) :
    Shows T (setSda T true w) (if T.sda p.target then p.react T .stop else p) := by
  have hl : (w.scl && T.scl p.target) = true := h.target ▸ h.scl.trans hu
  rcases hd : T.sda p.target with _ | _
  · have hm := setSda_shows h (v := true) (e := .still)
      (by simp [edge, Wire.lines, hl, hv, h.target, hd]) (by simp)
    rwa [p.react_still] at hm
  · exact setSda_shows h (by simp [edge, Wire.lines, hl, hv, h.target, hd]) (by simp)

theorem setScl_false {w : Wire τ} {p : Port τ} (h : Shows T w p) :
    Shows T (setScl T false w) (lower T p) := by
  have hn : ({ w with scl := false }.lines T).scl = false := by simp [Wire.lines]
  have hm := h.move { w with scl := false } (fun _ => rfl)
    (fun hs => by rw [(edge_eq_start hs).2] at hn; cases hn) h.target h.time rfl rfl
  unfold lower
  rcases hu : p.up with _ | _
  · rw [edge_low (h.scl.trans hu) hn, p.react_still] at hm
    exact hm
  · rw [edge_fall (h.scl.trans hu) hn] at hm
    exact hm

theorem setScl_true {w : Wire τ} {p : Port τ} (h : Shows T w p) :
    Shows T (setScl T true w) (rising T w.sda p) := by
  have hn : ({ w with scl := true }.lines T) = ⟨T.scl p.target, w.sda && T.sda p.target⟩ := by
    simp [Wire.lines, h.target]
  have hm := fun hf hs => h.move { w with scl := true } hf hs h.target h.time rfl rfl
  rw [hn] at hm
  unfold rising
  rcases hu : p.up with _ | _
  · have hl : (w.lines T).scl = false := h.scl.trans hu
    rcases ht : T.scl p.target with _ | _
    · rw [ht, edge_low hl rfl, p.react_still] at hm
      exact hm (by simp) (by simp)
    · rw [ht, edge_rise hl rfl] at hm
      exact hm (by simp) (by simp)
  · -- SCL was up: the pin was released, and nothing moves
    have hl : (w.scl && T.scl p.target) = true := h.target ▸ h.scl.trans hu
    rw [Bool.and_eq_true] at hl
    rw [show w.lines T = ⟨T.scl p.target, w.sda && T.sda p.target⟩ by
      simp [Wire.lines, h.target, hl], edge_self, p.react_still] at hm
    exact hm (by simp) (by simp)

/-- One tick with the SCL pin released. The target only lets go of SCL in it. -/
theorem tick_shows {w : Wire τ} {p : Port τ} (h : Shows T w p) (hc : w.scl = true) :
    Shows T (tick T w) (pass T w.sda p) := by
  have hm := fun hf hs => h.move (q := { p with target := T.tick p.target, time := p.time + 1 })
    { w with target := T.tick w.target, time := w.time + 1 } hf hs (by rw [h.target])
    (by rw [h.time]) rfl rfl
  have hn : ({ w with target := T.tick w.target, time := w.time + 1 }.lines T) =
      ⟨T.scl (T.tick p.target), w.sda && T.sda (T.tick p.target)⟩ := by
    simp [Wire.lines, h.target, hc]
  have hl : w.lines T = ⟨T.scl p.target, w.sda && T.sda p.target⟩ := by
    simp [Wire.lines, h.target, hc]
  have hu : T.scl p.target = p.up := by rw [← h.scl, h.target, hc, Bool.true_and]
  rw [hn, hl] at hm
  change Shows T (w.move T _) _
  unfold pass rising
  rcases hp : p.up with _ | _
  · rcases ht : T.scl (T.tick p.target) with _ | _
    · rw [ht, hu, hp, edge_low rfl rfl, Port.react_still] at hm
      simpa [ht] using hm (by simp) (by simp)
    · rw [ht, hu, hp, edge_rise rfl rfl] at hm
      simpa [ht] using hm (by simp) (by simp)
  · rw [T.scl_tick _ (hu.trans hp), T.sda_tick _ (hu.trans hp), hu, hp, edge_self,
      Port.react_still] at hm
    simpa using hm (by simp) (by simp)

/-- What is the same of the master's pins. -/
structure Still (w w' : Wire τ) : Prop where
  scl : w'.scl = w.scl
  sda : w'.sda = w.sda

theorem iterate_tick_shows : ∀ (n : ℕ) {w : Wire τ} {p : Port τ}, Shows T w p → w.scl = true →
    Shows T ((tick T)^[n] w) ((pass T w.sda)^[n] p) ∧ Still w ((tick T)^[n] w)
  | 0, _, _, h, _ => ⟨h, rfl, rfl⟩
  | n + 1, w, _, h, hc => by
    obtain ⟨h', hs⟩ := iterate_tick_shows n (tick_shows h hc) hc
    exact ⟨h', hs.scl, hs.sda⟩

/-- What `SCL_H` returns. -/
def raised (b : Bool) : ℤ := if b then RT_EOK else -RT_ETIMEOUT

theorem raised_neg {b : Bool} : raised b < 0 ↔ b = false := by
  cases b <;> simp [raised, RT_EOK, RT_ETIMEOUT]

theorem raised_inj {b c : Bool} (h : raised b = raised c) : b = c := by
  revert h
  cases b <;> cases c <;> simp [raised, RT_EOK, RT_ETIMEOUT]

theorem sclWait_shows (start : U32) : ∀ (fuel : ℕ) {w : Wire τ} {p : Port τ}, Shows T w p →
    w.scl = true →
    (sclWait cpu T start fuel w).1 = raised (await cpu T w.sda start fuel p).1 ∧
      Shows T (sclWait cpu T start fuel w).2 (await cpu T w.sda start fuel p).2 ∧
      Still w (sclWait cpu T start fuel w).2
  | 0, _, _, h, _ => ⟨rfl, h, rfl, rfl⟩
  | fuel + 1, w, p, h, hc => by
    have hg : getScl T w = p.up := h.scl
    have ht : rtTickGet w = BitVec.ofNat 32 p.time := by rw [rtTickGet, h.time]
    simp only [sclWait, await, hg, ht]
    by_cases hu : p.up = true
    · simp only [hu, if_true]
      exact ⟨rfl, h, rfl, rfl⟩
    · simp only [hu, Bool.false_eq_true, if_false]
      by_cases hd : BitVec.ofNat 32 p.time - start > timeout
      · simp only [hd, if_true]
        exact ⟨rfl, h, rfl, rfl⟩
      · simp only [hd, if_false]
        obtain ⟨h', hs⟩ := iterate_tick_shows (((timeout + 1) >>> 1).toNat + cpu.late p.time) h hc
        rw [rtThreadDelay, h.time]
        obtain ⟨h1, h2, h3⟩ := sclWait_shows start fuel h' (hs.scl.trans hc)
        rw [hs.sda] at h1 h2
        exact ⟨h1, h2, h3.scl.trans hs.scl, h3.sda.trans hs.sda⟩

/-- **What the wire is after `SCL_H`**, for what the port comes to: the SCL pin is released, SDA is
where it was, and SCL is up exactly if the wait went well. -/
structure Waited (T : Target τ) (sda : Bool) (r : ℤ × Wire τ) (q : Bool × Port τ) : Prop where
  ret : r.1 = raised q.1
  shows : Shows T r.2 q.2
  scl : r.2.scl = true
  sda : r.2.sda = sda
  up : q.2.up = q.1

theorem sclH_waited {w : Wire τ} {p : Port τ} (h : Shows T w p) :
    Waited T w.sda (sclH cpu T w) (raise cpu T w.sda p) := by
  have hs := setScl_true h
  have ht : rtTickGet (setScl T true w) = BitVec.ofNat 32 p.time := by
    rw [rtTickGet, ← h.time]
    rfl
  have hw := sclWait_shows cpu (rtTickGet (setScl T true w)) 4 hs rfl
  have he := (sclH_ends cpu T (setScl T true w)).2
  rw [ht] at hw he
  obtain ⟨h1, h2, h3⟩ := hw
  rw [sclH, ht]
  refine ⟨h1, h2, h3.scl, h3.sda, ?_⟩
  -- the line is up exactly if the wait returns `RT_EOK`
  refine (h2.scl.symm.trans (raised_inj ?_))
  exact he.symm.trans h1

/-! ### The primitives -/

theorem setSda_true_shows {w : Wire τ} {p : Port τ} (h : Shows T w p)
    (hf : p.up = true → w.sda = true) : Shows T (setSda T true w) p := by
  rcases hu : p.up with _ | _
  · exact setSda_low h hu true
  · exact setSda_same h (hf hu)

theorem setSda_false_shows {w : Wire τ} {p : Port τ} (h : Shows T w p)
    (hf : p.up = true → w.sda = true) : Shows T (setSda T false w) (pull T p) := by
  unfold pull
  rcases hu : p.up with _ | _
  · exact setSda_low h hu false
  · exact setSda_start h hu (hf hu)

theorem i2cStart_shows {w : Wire τ} {p : Port τ} (h : Shows T w p)
    (hf : p.up = true → w.sda = true) : Shows T (Pins.i2cStart T w) (start T p).2 :=
  setScl_false (setSda_false_shows h hf)

theorem i2cRestart_shows {w : Wire τ} {p : Port τ} (h : Shows T w p)
    (hf : p.up = true → w.sda = true) :
    Shows T (Pins.i2cRestart cpu T w) (restart cpu T p).2 := by
  have hw := sclH_waited cpu (setSda_true_shows h hf)
  exact i2cStart_shows hw.shows fun _ => hw.sda

theorem i2cStop_shows {w : Wire τ} {p : Port τ} (h : Shows T w p)
    (hf : p.up = true → w.sda = true) :
    Shows T (Pins.i2cStop cpu T w) (stop cpu T p).2 ∧ (Pins.i2cStop cpu T w).scl = true := by
  have hw : Waited T false (sclH cpu T (setSda T false w)) (raise cpu T false (pull T p)) :=
    sclH_waited cpu (setSda_false_shows h hf)
  refine ⟨?_, hw.scl⟩
  simp only [stop, Pins.i2cStop]
  generalize raise cpu T false (pull T p) = q at hw ⊢
  rcases q with ⟨_ | _, q⟩
  · exact setSda_low hw.shows hw.up true
  · have hs := setSda_stop hw.shows hw.up hw.sda
    rcases hd : T.sda q.target with _ | _
    · simpa [hd] using hs
    · simpa [hd] using hs

/-- What the wire is after a byte was clocked out, for the answer of the slave. -/
structure Answered (T : Target τ) (r : ℤ × Wire τ) (q : Answer × Port τ) : Prop where
  ret : r.1 = Bytes.ret q.1
  shows : Shows T r.2 q.2
  scl : r.2.scl = !holds q.1
  up : q.2.up = false

theorem i2cWaitack_answered {w : Wire τ} {p : Port τ} (h : Shows T w p) (hu : p.up = false) :
    Answered T (i2cWaitack cpu T w) (waitack cpu T p) := by
  have hw := sclH_waited cpu (setSda_low h hu true)
  change Waited T true (sclH cpu T (setSda T true w)) (raise cpu T true p) at hw
  have hd : getSda T (sclH cpu T (setSda T true w)).2 = T.sda (raise cpu T true p).2.target := by
    rw [getSda, Wire.lines, hw.sda, hw.shows.target, Bool.true_and]
  simp only [i2cWaitack, waitack, hw.ret, raised_neg, hd]
  rcases hq : (raise cpu T true p).1 with _ | _
  · exact ⟨rfl, hw.shows, hw.scl, hw.up.trans hq⟩
  · rcases T.sda (raise cpu T true p).2.target with _ | _
    · exact ⟨rfl, setScl_false hw.shows, rfl, up_lower _⟩
    · exact ⟨rfl, setScl_false hw.shows, rfl, up_lower _⟩

theorem writeBits_answered (data : U8) : ∀ (i : ℕ) {w : Wire τ} {p : Port τ}, Shows T w p →
    Answered T (writeBits cpu T data i w) (putBits cpu T data i p)
  | 0, _, p, h => i2cWaitack_answered cpu (setScl_false h) (up_lower p)
  | i + 1, w, p, h => by
    have hw := sclH_waited cpu (setSda_low (setScl_false h) (up_lower p) (data.getLsbD i))
    change Waited T (data.getLsbD i) (sclH cpu T (setSda T (data.getLsbD i) (setScl T false w)))
      (raise cpu T (data.getLsbD i) (lower T p)) at hw
    simp only [writeBits, putBits, hw.ret, raised_neg]
    rcases hq : (raise cpu T (data.getLsbD i) (lower T p)).1 with _ | _
    · exact ⟨rfl, hw.shows, hw.scl, hw.up.trans hq⟩
    · exact writeBits_answered data i hw.shows

/-- What the wire is after a byte was clocked in, for what the slave hands out. -/
structure Got (T : Target τ) (r : ℤ × Wire τ) (q : Option U8 × Port τ) : Prop where
  ret : r.1 = (q.1.map int).getD (-RT_ETIMEOUT)
  shows : Shows T r.2 q.2
  scl : r.2.scl = !q.1.isSome
  sda : r.2.sda = true
  up : q.2.up = false

theorem readBits_got : ∀ (i : ℕ) (data : U8) {w : Wire τ} {p : Port τ}, Shows T w p →
    w.sda = true → (i = 0 → w.scl = false) →
    Got T (readBits cpu T i data w) (getBits cpu T i data p)
  | 0, data, w, p, h, hd, hc => by
    refine ⟨rfl, h, hc rfl, hd, ?_⟩
    rw [getBits, ← h.scl, hc rfl, Bool.false_and]
  | i + 1, data, w, p, h, hd, _ => by
    have hw := sclH_waited cpu h
    rw [hd] at hw
    have hb : getSda T (sclH cpu T w).2 = T.sda (raise cpu T true p).2.target := by
      rw [getSda, Wire.lines, hw.sda, hw.shows.target, Bool.true_and]
    simp only [readBits, getBits, hw.ret, raised_neg, hb]
    rcases hq : (raise cpu T true p).1 with _ | _
    · exact ⟨rfl, hw.shows, hw.scl, hw.sda, hw.up.trans hq⟩
    · exact readBits_got i _ (setScl_false hw.shows) hw.sda fun _ => rfl

theorem i2cSendAckOrNack_shows (n : ℤ) {w : Wire τ} {p : Port τ} (h : Shows T w p)
    (hu : p.up = false) (hd : w.sda = true) :
    (Pins.i2cSendAckOrNack cpu T n w).1 = raised (reply cpu T (n != 0) p).1 ∧
      Shows T (Pins.i2cSendAckOrNack cpu T n w).2 (reply cpu T (n != 0) p).2 ∧
      (Pins.i2cSendAckOrNack cpu T n w).2.scl = !(reply cpu T (n != 0) p).1 ∧
      (reply cpu T (n != 0) p).2.up = false := by
  have hv : Shows T (if n ≠ 0 then setSda T false w else w) p ∧
      (if n ≠ 0 then setSda T false w else w).sda = !(n != 0) := by
    by_cases hn : n = 0
    · simpa [hn] using ⟨h, hd⟩
    · simp only [ne_eq, hn, not_false_eq_true, if_true]
      refine ⟨setSda_low h hu false, ?_⟩
      calc (setSda T false w).sda = false := rfl
        _ = !(n != 0) := by simp [hn]
  have hw := sclH_waited cpu hv.1
  rw [hv.2] at hw
  simp only [Pins.i2cSendAckOrNack, reply, hw.ret, raised_neg]
  rcases hq : (raise cpu T (!(n != 0)) p).1 with _ | _
  · exact ⟨rfl, hw.shows, hw.scl, hw.up.trans hq⟩
  · exact ⟨rfl, setScl_false hw.shows, rfl, up_lower _⟩

/-! ### The two sides -/

/-- **The wire looks like the bus of the slave `edges`.** -/
structure Looks (T : Target τ) (retries : ℕ) (w : Wire τ) (bus : Bus (Port τ)) : Prop where
  shows : Shows T w bus.dev
  scl : w.scl = !bus.held
  retries : bus.retries = retries
  free : bus.dev.up = true → w.sda = true

theorem Looks.low {n : ℕ} {w : Wire τ} {bus : Bus (Port τ)} (h : Shows T w bus.dev)
    (hc : w.scl = !bus.held) (hr : bus.retries = n) (hu : bus.dev.up = false) :
    Looks T n w bus :=
  ⟨h, hc, hr, fun hu' => by rw [hu] at hu'; cases hu'⟩

theorem Looks.released {t : τ} (n time : ℕ) (h : T.scl t = true) (h' : T.sda t = true) :
    Looks T n (.released t time) ⟨.released t time, false, n, []⟩ :=
  ⟨.released time h h', rfl, rfl, fun _ => rfl⟩

theorem i2cStart_looks {n : ℕ} {w : Wire τ} {bus : Bus (Port τ)} (h : Looks T n w bus) :
    Looks T n (Pins.i2cStart T w) (Bytes.i2cStart (edges cpu T) bus) := by
  have hs := i2cStart_shows h.shows h.free
  rcases hh : bus.held with _ | _
  · rw [Bytes.i2cStart_released _ hh]
    exact .low hs rfl h.retries (up_lower _)
  · -- SCL is held down: nothing is seen of what the pins do
    have hu : bus.dev.up = false := by
      rw [← h.shows.scl, h.scl, hh]
      rfl
    rw [Bytes.i2cStart, hh, if_pos rfl]
    simp only [start, pull, lower, hu, Bool.false_and, Bool.false_eq_true, if_false] at hs
    exact .low hs (by rw [hh]; rfl) h.retries hu

/-- **The primitives on the pins do what those on the slave `edges` do.** -/
theorem pins_sim (n : ℕ) : Sim (pins cpu T n) (bytewise (edges cpu T)) (Looks T n) where
  retries h := h.retries.symm
  start h := i2cStart_looks cpu h
  restart {w bus} h := .low (i2cRestart_shows cpu h.shows h.free) rfl h.retries (up_lower _)
  stop {w bus} h :=
    ⟨(i2cStop_shows cpu h.shows h.free).1, (i2cStop_shows cpu h.shows h.free).2, h.retries,
      fun _ => rfl⟩
  writeb d {w bus} h := by
    have ha := writeBits_answered cpu d 8 h.shows
    exact ⟨ha.ret, .low ha.shows ha.scl h.retries ha.up⟩
  readb {w bus} h := by
    have hg := readBits_got cpu 8 0 (setSda_true_shows h.shows h.free) rfl (by simp)
    change Agree _ (readBits cpu T 8 0 (setSda T true w)) (Bytes.i2cReadb (edges cpu T) bus)
    unfold Bytes.i2cReadb
    change Got T _ ((edges cpu T).get bus.dev) at hg
    rcases hq : (edges cpu T).get bus.dev with ⟨_ | b, p⟩
    · rw [hq] at hg
      exact ⟨hg.ret, .low hg.shows hg.scl h.retries hg.up⟩
    · rw [hq] at hg
      exact ⟨hg.ret, .low hg.shows hg.scl h.retries hg.up⟩
  reply m {w bus} h h0 := by
    have hg := readBits_got cpu 8 0 (setSda_true_shows h.shows h.free) rfl (by simp)
    change Got T ((pins cpu T n).readb w) ((edges cpu T).get bus.dev) at hg
    change Agree _ _ (Bytes.i2cSendAckOrNack (edges cpu T) m (Bytes.i2cReadb (edges cpu T) bus).2)
    unfold Bytes.i2cReadb
    rcases hq : (edges cpu T).get bus.dev with ⟨_ | b, p⟩
    · -- no byte came in
      rw [hq] at hg
      rw [hg.ret] at h0
      simp [RT_ETIMEOUT] at h0
    · rw [hq] at hg
      obtain ⟨h1, h2, h3, h4⟩ := i2cSendAckOrNack_shows cpu m hg.shows hg.up hg.sda
      unfold Bytes.i2cSendAckOrNack
      change _ = raised ((edges cpu T).reply (m != 0) p).1 at h1
      change Shows T _ ((edges cpu T).reply (m != 0) p).2 at h2
      change _ = !((edges cpu T).reply (m != 0) p).1 at h3
      change ((edges cpu T).reply (m != 0) p).2.up = false at h4
      simp only [emit_dev]
      rcases hr : (edges cpu T).reply (m != 0) p with ⟨_ | _, p'⟩
      · rw [hr] at h1 h2 h3 h4
        exact ⟨h1, .low h2 h3 h.retries h4⟩
      · rw [hr] at h1 h2 h3 h4
        exact ⟨h1, .low h2 h3 h.retries h4⟩

end RtosExample.I2c.Edges
