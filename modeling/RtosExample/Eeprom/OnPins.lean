import RtosExample.Eeprom.Driver
import RtosExample.I2c.Edges

/-! # The EEPROM module on the two lines

`write_data` and `read_data` down to the pins. Whatever hangs on the lines, a row of calls hands
back what it hands back on the slave that the target is byte by byte (`I2c.Edges.edges`), and the
levels recorded on the lines are those of its edges (`session_on_pins`). So what the other modules
of this directory say about every slave, they say about the pins. -/

namespace RtosExample.Eeprom.OnPins

open RtosExample.Cint RtosExample.Lib.TwoWire RtosExample.I2c.BitOps RtosExample.I2c.Bytes
open RtosExample.I2c.Core RtosExample.I2c.Simulation RtosExample.I2c.Pins RtosExample.I2c.Edges
open RtosExample.Eeprom.Driver

/-- A call of the module with its arguments. -/
inductive Req
  | write (data : List U8) (len : U32) (page : U8)
  | read (buf : List U8) (len : U32) (page : U8)

/-- The call, with its buffer as it leaves it. -/
def Req.run {β : Type} (P : Prims β) (bus : β) : Req → Except Fault (List U8 × β)
  | .write data len page => (writeData P (some bus) data len page).map fun r => (data, r.2)
  | .read buf len page => (readData P (some bus) buf len page).map fun r => r.2

/-- A row of calls, with all their buffers. -/
def session {β : Type} (P : Prims β) : List Req → β → Except Fault (List (List U8) × β)
  | [], bus => .ok ([], bus)
  | c :: cs, bus => do
    let r ← c.run P bus
    let rs ← session P cs r.2
    return (r.1 :: rs.1, rs.2)

/-! ### On primitives that do the same -/

section Simulation

variable {α β : Type} {A : Prims α} {B : Prims β} {R : α → β → Prop}

theorem writeData_sim (h : Sim A B R) (data : List U8) (len : U32) (page : U8) {a : α} {b : β}
    (hr : R a b) : ∃ a' b', writeData A (some a) data len page = .ok (none, a') ∧
      writeData B (some b) data len page = .ok (none, b') ∧ R a' b' := by
  obtain ⟨r₁, a₁, b₁, ha₁, hb₁, hr₁⟩ :=
    h.rtI2cMasterSend AT24C02_ADDRESS (RT_I2C_WR ||| RT_I2C_NO_STOP) [page] 1 hr
  obtain ⟨r₂, a₂, b₂, ha₂, hb₂, hr₂⟩ :=
    h.rtI2cMasterSend AT24C02_ADDRESS (RT_I2C_WR ||| RT_I2C_NO_START) data len hr₁
  exact ⟨a₂, b₂, writeData_ok ha₁ ha₂, writeData_ok hb₁ hb₂, hr₂⟩

theorem readData_sim (h : Sim A B R) (buf : List U8) (len : U32) (page : U8) {a : α} {b : β}
    (hr : R a b) : ∃ buf' a' b', readData A (some a) buf len page = .ok (none, buf', a') ∧
      readData B (some b) buf len page = .ok (none, buf', b') ∧ R a' b' := by
  obtain ⟨r₁, a₁, b₁, ha₁, hb₁, hr₁⟩ :=
    h.rtI2cMasterSend AT24C02_ADDRESS RT_I2C_WR [page] 1 hr
  obtain ⟨r₂, buf', a₂, b₂, ha₂, hb₂, hr₂⟩ :=
    h.rtI2cMasterRecv AT24C02_ADDRESS RT_I2C_RD buf len hr₁
  exact ⟨buf', a₂, b₂, readData_ok ha₁ ha₂, readData_ok hb₁ hb₂, hr₂⟩

theorem run_sim (h : Sim A B R) (c : Req) {a : α} {b : β} (hr : R a b) :
    ∃ buf a' b', c.run A a = .ok (buf, a') ∧ c.run B b = .ok (buf, b') ∧ R a' b' := by
  cases c with
  | write data len page =>
    obtain ⟨a', b', ha, hb, hr'⟩ := writeData_sim h data len page hr
    exact ⟨data, a', b', by rw [Req.run, ha]; rfl, by rw [Req.run, hb]; rfl, hr'⟩
  | read buf len page =>
    obtain ⟨buf', a', b', ha, hb, hr'⟩ := readData_sim h buf len page hr
    exact ⟨buf', a', b', by rw [Req.run, ha]; rfl, by rw [Req.run, hb]; rfl, hr'⟩

/-- **A row of calls** hands back the same buffers and keeps the relation. -/
theorem session_sim (h : Sim A B R) : ∀ (cs : List Req) {a : α} {b : β}, R a b →
    ∃ bufs a' b', session A cs a = .ok (bufs, a') ∧ session B cs b = .ok (bufs, b') ∧ R a' b'
  | [], a, b, hr => ⟨[], a, b, rfl, rfl, hr⟩
  | c :: cs, a, b, hr => by
    obtain ⟨buf, a₁, b₁, ha₁, hb₁, hr₁⟩ := run_sim h c hr
    obtain ⟨bufs, a₂, b₂, ha₂, hb₂, hr₂⟩ := session_sim h cs hr₁
    refine ⟨buf :: bufs, a₂, b₂, ?_, ?_, hr₂⟩
    · rw [session, ha₁]
      change (session A cs a₁ >>= _) = _
      rw [ha₂]
      rfl
    · rw [session, hb₁]
      change (session B cs b₁ >>= _) = _
      rw [hb₂]
      rfl

end Simulation

/-! ### On the pins -/

/-- **The module on the pins.** For every target, every way the thread is kept waiting and every
row of calls, from an idle bus: the calls come back with the buffers they come back with on the
slave that the target is, the target ends in the same state at the same tick, and the levels of the
two lines, as they were recorded, read as the START, STOP and bits of that slave's edges. -/
theorem session_on_pins {τ : Type} (cpu : Cpu) (T : Target τ) (retries : ℕ) {t : τ} (time : ℕ)
    (hc : T.scl t = true) (hd : T.sda t = true) (cs : List Req) :
    ∃ bufs w bus, session (pins cpu T retries) cs (.released t time) = .ok (bufs, w) ∧
      session (bytewise (edges cpu T)) cs ⟨.released t time, false, retries, []⟩ =
        .ok (bufs, bus) ∧
      w.target = bus.dev.target ∧ w.time = bus.dev.time ∧ decode w.trace = bus.dev.mon ∧
      w.scl = !bus.held := by
  obtain ⟨bufs, w, bus, hw, hb, h⟩ :=
    session_sim (pins_sim cpu (T := T) retries) cs (Looks.released retries time hc hd)
  exact ⟨bufs, w, bus, hw, hb, h.shows.target, h.shows.time, h.shows.mon, h.scl⟩

/-- A target that acknowledges every byte: it counts the falling edges after a START and pulls SDA
at the eighth bit. -/
def eager : Target ℕ where
  scl _ := true
  sda n := n != 8
  react e n :=
    match e with
    | .fall => if n < 8 then n + 1 else 0
    | .start => 9
    | .still | .rise _ | .stop => n
  tick n := n
  react_still _ := rfl
  scl_react _ _ _ _ := rfl
  sda_rise _ _ := rfl
  sda_react e n he hn := by cases e <;> simp_all
  scl_tick _ h := h
  sda_tick _ _ := rfl

/-- A thread that is never kept waiting. -/
def punctual : Cpu := ⟨fun _ => 0, fun _ => by norm_num⟩

/-- The theorem at that target, for a write of one byte. -/
theorem session_on_pins_eager :
    ∃ bufs w bus, session (pins punctual eager 0) [.write [0x55] 1 0x10] (.released 0 0) =
        .ok (bufs, w) ∧
      session (bytewise (edges punctual eager)) [.write [0x55] 1 0x10]
        ⟨.released 0 0, false, 0, []⟩ = .ok (bufs, bus) ∧
      w.target = bus.dev.target ∧ w.time = bus.dev.time ∧ decode w.trace = bus.dev.mon ∧
      w.scl = !bus.held :=
  session_on_pins punctual eager 0 0 rfl rfl [.write [0x55] 1 0x10]

/-- The bits of a byte on the lines, the highest one first. -/
def bits (b : U8) : List Symbol := (List.range 8).reverse.map fun i => .bit (b.getLsbD i)

/-- What stands on the lines then. -/
example : ((session (pins punctual eager 0) [.write [0x55] 1 0x10] (.released 0 0)).toOption.map
      fun r => (decode r.2.trace).seen) =
    some (.start :: bits 0xA0 ++ .bit false :: bits 0x10 ++ .bit false :: bits 0x55 ++
      [.bit false, .stop]) := by
  decide +kernel

end RtosExample.Eeprom.OnPins
