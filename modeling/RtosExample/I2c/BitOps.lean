import RtosExample.Cint

/-! # The bit-banging I2C driver

`i2c-bit-ops.c`, from `i2c_send_bytes` up to `i2c_bit_xfer`, statement by statement. The six
functions below these are the only ones that touch the pins, `i2c_start`, `i2c_restart`, `i2c_stop`,
`i2c_writeb`, `i2c_readb` and `i2c_send_ack_or_nack`; they are a record `Prims` here. It has two
instances: the functions of the source on the two lines (`I2c.Pins`), and what a slave sees of them
byte by byte (`I2c.Bytes`), on which the calls of the drivers above are looked at. -/

namespace RtosExample.I2c.BitOps

open RtosExample.Cint

/-! ### Constants of `i2c.h` and `rtdef.h` -/

def RT_I2C_WR : U16 := 0x0000
def RT_I2C_RD : U16 := 0x0001
def RT_I2C_ADDR_10BIT : U16 := 0x0004
def RT_I2C_NO_START : U16 := 0x0010
def RT_I2C_IGNORE_NACK : U16 := 0x0020
def RT_I2C_NO_READ_ACK : U16 := 0x0040
def RT_I2C_NO_STOP : U16 := 0x0080

def RT_EOK : ℤ := 0
def RT_ERROR : ℤ := 1
def RT_ETIMEOUT : ℤ := 2
def RT_EIO : ℤ := 8

/-- `flags & f` is not zero. -/
def has (flags f : U16) : Bool := flags &&& f != 0

/-- `struct rt_i2c_msg`; `buf` is the memory from the buffer pointer on. -/
structure Msg where
  addr : U16
  flags : U16
  len : U16
  buf : List U8
  deriving DecidableEq, Repr

/-- The functions of the driver that touch the pins, on a state `β` of the bus, and the `retries`
field of the bus device. Nothing in the sources writes that field, so in a static bus object it is
`0`; any value that is not negative as an `int` is allowed here. -/
structure Prims (β : Type) where
  retries : β → ℕ
  start : β → β
  restart : β → β
  stop : β → β
  writeb : U8 → β → ℤ × β
  readb : β → ℤ × β
  sendAckOrNack : ℤ → β → ℤ × β

variable {β : Type} (P : Prims β)

/-! ### The byte loops -/

/-- The loop of `i2c_send_bytes` over the bytes still to send. -/
def sendLoop (ignoreNack : Bool) : List U8 → ℤ → β → ℤ × β
  | [], bytes, bus => (bytes, bus)
  | p :: ps, bytes, bus =>
    let r := P.writeb p bus
    if r.1 > 0 ∨ (ignoreNack = true ∧ r.1 = 0) then sendLoop ignoreNack ps (bytes + 1) r.2
    else if r.1 = 0 then (0, r.2)
    else (r.1, r.2)

/-- `i2c_send_bytes`. -/
def i2cSendBytes (msg : Msg) (bus : β) : ℤ × β :=
  sendLoop P (has msg.flags RT_I2C_IGNORE_NACK) (msg.buf.take msg.len.toNat) 0 bus

/-- The loop of `i2c_recv_bytes`: `count` bytes to go, `bytes` received and `stored`. The counter
is already decremented when the ninth clock is answered. -/
def recvLoop (flags : U16) : ℕ → ℤ → List U8 → β → ℤ × List U8 × β
  | 0, bytes, stored, bus => (bytes, stored, bus)
  | count + 1, bytes, stored, bus =>
    let v := P.readb bus
    if v.1 ≥ 0 then
      let stored := stored ++ [BitVec.ofInt 8 v.1]
      if has flags RT_I2C_NO_READ_ACK then recvLoop flags count (bytes + 1) stored v.2
      else
        let w := P.sendAckOrNack count v.2
        if w.1 < 0 then (w.1, stored, w.2) else recvLoop flags count (bytes + 1) stored w.2
    else (bytes, stored, v.2)

/-- `i2c_recv_bytes`, with the message whose buffer it fills. -/
def i2cRecvBytes (msg : Msg) (bus : β) : ℤ × Msg × β :=
  let r := recvLoop P msg.flags msg.len.toNat 0 [] bus
  (r.1, { msg with buf := r.2.1 ++ msg.buf.drop r.2.1.length }, r.2.2)

/-! ### Addressing -/

/-- `i2c_send_address`: after every answer but an acknowledge a STOP and a new START, unless it was
the last try. -/
def i2cSendAddress (addr : U8) : ℕ → β → ℤ × β
  | 0, bus => P.writeb addr bus
  | retries + 1, bus =>
    let r := P.writeb addr bus
    if r.1 = 1 then r else i2cSendAddress addr retries (P.start (P.stop r.2))

/-- `addr1` for a 7-bit address. -/
def addr7 (addr flags : U16) : U8 :=
  let addr1 : U8 := (addr <<< 1).setWidth 8
  if has flags RT_I2C_RD then addr1 ||| 1 else addr1

/-- `i2c_bit_send_address`. -/
def i2cBitSendAddress (msg : Msg) (bus : β) : ℤ × β :=
  let ignoreNack := has msg.flags RT_I2C_IGNORE_NACK
  let retries := if ignoreNack then 0 else P.retries bus
  if has msg.flags RT_I2C_ADDR_10BIT then
    let addr1 : U8 := 0xf0 ||| ((msg.addr >>> 7) &&& 0x06).setWidth 8
    let addr2 : U8 := (msg.addr &&& 0xff).setWidth 8
    let r := i2cSendAddress P addr1 retries bus
    if r.1 ≠ 1 ∧ !ignoreNack then (- RT_EIO, r.2)
    else
      let r := P.writeb addr2 r.2
      if r.1 ≠ 1 ∧ !ignoreNack then (- RT_EIO, r.2)
      else if has msg.flags RT_I2C_RD then
        let r := i2cSendAddress P (addr1 ||| 0x01) retries (P.restart r.2)
        if r.1 ≠ 1 ∧ !ignoreNack then (- RT_EIO, r.2) else (RT_EOK, r.2)
      else (RT_EOK, r.2)
  else
    let r := i2cSendAddress P (addr7 msg.addr msg.flags) retries bus
    if r.1 ≠ 1 ∧ !ignoreNack then (- RT_EIO, r.2) else (RT_EOK, r.2)

/-! ### A transfer -/

/-- The head of the loop body of `i2c_bit_xfer`, for message number `i`: START and address unless
`RT_I2C_NO_START`. `some ret` is a `goto out` with that `ret`. -/
def xferAddress (i : ℕ) (msg : Msg) (bus : β) : Option ℤ × β :=
  if has msg.flags RT_I2C_NO_START then (none, bus)
  else
    let bus := if i ≠ 0 then P.restart bus else P.start bus
    let r := i2cBitSendAddress P msg bus
    if r.1 ≠ RT_EOK ∧ !has msg.flags RT_I2C_IGNORE_NACK then (some r.1, r.2) else (none, r.2)

/-- The rest of the loop body: the bytes of the message. -/
def xferBytes (msg : Msg) (bus : β) : Option ℤ × Msg × β :=
  if has msg.flags RT_I2C_RD then
    let r := i2cRecvBytes P msg bus
    (if r.1 < msg.len.toNat then some (if r.1 ≥ 0 then - RT_EIO else r.1) else none, r.2.1, r.2.2)
  else
    let r := i2cSendBytes P msg bus
    (if r.1 < msg.len.toNat then some (if r.1 ≥ 0 then -RT_ERROR else r.1) else none, msg, r.2)

/-- The loop body of `i2c_bit_xfer`. -/
def xferMsg (i : ℕ) (msg : Msg) (bus : β) : Option ℤ × Msg × β :=
  match xferAddress P i msg bus with
  | (some e, bus) => (some e, msg, bus)
  | (none, bus) => xferBytes P msg bus

/-- The loop of `i2c_bit_xfer` from message number `i` on. It gives `ret`, the messages as left,
the message the label `out` looks at, and the bus. -/
def xferLoop : ℕ → Msg → List Msg → β → ℤ × List Msg × Msg × β
  | i, msg, [], bus =>
    let r := xferMsg P i msg bus
    (r.1.getD (i + 1), [r.2.1], msg, r.2.2)
  | i, msg, m :: ms, bus =>
    match xferMsg P i msg bus with
    | (some e, msg', bus') => (e, msg' :: m :: ms, msg, bus')
    | (none, msg', bus') =>
      let r := xferLoop (i + 1) m ms bus'
      (r.1, msg' :: r.2.1, r.2.2)

/-- `i2c_bit_xfer`: the messages, then at `out` a STOP unless `RT_I2C_NO_STOP`. A negative `ret`
leaves it as an `rt_size_t`. -/
def i2cBitXfer (msgs : List Msg) (bus : β) : U32 × List Msg × β :=
  match msgs with
  | [] => (0, [], bus)
  | m :: ms =>
    let r := xferLoop P 0 m ms bus
    (BitVec.ofInt 32 r.1, r.2.1,
      if has r.2.2.1.flags RT_I2C_NO_STOP then r.2.2.2 else P.stop r.2.2.2)

end RtosExample.I2c.BitOps
