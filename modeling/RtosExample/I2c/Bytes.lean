import RtosExample.I2c.BitOps
import RtosExample.Lib.ByteBus

/-! # The bus byte by byte

The primitives of the driver as a slave of `Lib.ByteBus` sees them: what they return is the slave's
answer, and what they put on the bus goes to a log. `i2c_restart` and `i2c_stop` do not look at what
`SCL_H` returns, so with SCL held low they go on, and then no START or STOP is on the bus. A byte is
on the bus once a bit of it was clocked.

`Bus.held` is the master's own SCL pin between two primitives: low (`true`) from a START on, and
released by a STOP, and where the wait of `SCL_H` fails. It matters for `i2c_start`, which pulls SDA
and then SCL low without releasing SCL first: while a transfer without STOP has left SCL low, this
makes no START condition. -/

namespace RtosExample.I2c.Bytes

open RtosExample.Cint RtosExample.Lib.ByteBus RtosExample.I2c.BitOps

/-- The state of what hangs on the bus, the master's SCL pin, the `retries` field of the bus device
and the events so far. -/
structure Bus (σ : Type) where
  dev : σ
  held : Bool
  retries : ℕ
  log : List Event

variable {σ : Type} (S : Slave σ)

/-- The slave moves to `s`, the pin to `held`, and `es` are logged. -/
def Bus.emit (bus : Bus σ) (es : List Event) (held : Bool) (s : σ) : Bus σ :=
  { bus with dev := s, held := held, log := bus.log ++ es }

@[simp] theorem emit_dev (bus : Bus σ) (es : List Event) (held : Bool) (s : σ) :
    (bus.emit es held s).dev = s := rfl
@[simp] theorem emit_held (bus : Bus σ) (es : List Event) (held : Bool) (s : σ) :
    (bus.emit es held s).held = held := rfl
@[simp] theorem emit_retries (bus : Bus σ) (es : List Event) (held : Bool) (s : σ) :
    (bus.emit es held s).retries = bus.retries := rfl
@[simp] theorem emit_log (bus : Bus σ) (es : List Event) (held : Bool) (s : σ) :
    (bus.emit es held s).log = bus.log ++ es := rfl

/-- `i2c_start`. -/
def i2cStart (bus : Bus σ) : Bus σ :=
  if bus.held then bus
  else bus.emit (made (S.start bus.dev).1 .start) true (S.start bus.dev).2

/-- `i2c_restart`. -/
def i2cRestart (bus : Bus σ) : Bus σ :=
  bus.emit (made (S.restart bus.dev).1 .start) true (S.restart bus.dev).2

/-- `i2c_stop`. -/
def i2cStop (bus : Bus σ) : Bus σ :=
  bus.emit (made (S.stop bus.dev).1 .stop) false (S.stop bus.dev).2

/-- What `i2c_waitack`, and with it `i2c_writeb`, returns for an answer. -/
def ret : Answer → ℤ
  | .ack => 1
  | .nack => 0
  | .timeout _ => -RT_ETIMEOUT

/-- The master's SCL pin after an answer. -/
def holds : Answer → Bool
  | .ack | .nack => true
  | .timeout _ => false

/-- `i2c_writeb`. -/
def i2cWriteb (data : U8) (bus : Bus σ) : ℤ × Bus σ :=
  let r := S.put data bus.dev
  (ret r.1, bus.emit (clocked data r.1) (holds r.1) r.2)

/-- `i2c_readb`. -/
def i2cReadb (bus : Bus σ) : ℤ × Bus σ :=
  match S.get bus.dev with
  | (some b, s) => (int b, bus.emit [.get b] true s)
  | (none, s) => (-RT_ETIMEOUT, bus.emit [.stuck] false s)

/-- `i2c_send_ack_or_nack`. -/
def i2cSendAckOrNack (ack : ℤ) (bus : Bus σ) : ℤ × Bus σ :=
  match S.reply (ack != 0) bus.dev with
  | (true, s) => (RT_EOK, bus.emit [.reply (ack != 0)] true s)
  | (false, s) => (-RT_ETIMEOUT, bus.emit [.stuck] false s)

/-- The primitives at the byte level. -/
def bytewise : Prims (Bus σ) where
  retries := Bus.retries
  start := i2cStart S
  restart := i2cRestart S
  stop := i2cStop S
  writeb := i2cWriteb S
  readb := i2cReadb S
  sendAckOrNack := i2cSendAckOrNack S

@[simp] theorem bytewise_retries (bus : Bus σ) : (bytewise S).retries bus = bus.retries := rfl
@[simp] theorem bytewise_start (bus : Bus σ) : (bytewise S).start bus = i2cStart S bus := rfl
@[simp] theorem bytewise_stop (bus : Bus σ) : (bytewise S).stop bus = i2cStop S bus := rfl
@[simp] theorem bytewise_writeb (b : U8) (bus : Bus σ) :
    (bytewise S).writeb b bus = i2cWriteb S b bus := rfl
@[simp] theorem bytewise_readb (bus : Bus σ) : (bytewise S).readb bus = i2cReadb S bus := rfl
@[simp] theorem bytewise_sendAckOrNack (n : ℤ) (bus : Bus σ) :
    (bytewise S).sendAckOrNack n bus = i2cSendAckOrNack S n bus := rfl

/-! ### What they do to an idle bus -/

theorem i2cStart_released {bus : Bus σ} (hh : bus.held = false) :
    i2cStart S bus = bus.emit (made (S.start bus.dev).1 .start) true (S.start bus.dev).2 := by
  rw [i2cStart, hh]
  simp

end RtosExample.I2c.Bytes
