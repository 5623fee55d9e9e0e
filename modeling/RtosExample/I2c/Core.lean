import RtosExample.I2c.BitOps

/-! # The I2C core

`rt_i2c_transfer`, `rt_i2c_master_send` and `rt_i2c_master_recv` of `i2c_core.c`, for a bus that
`rt_i2c_bit_add_bus` registered: `bus->ops->master_xfer` is `i2c_bit_xfer`. A bus pointer that is
`RT_NULL` is `none`; what happens to a caller that passes it on is a `Fault`. -/

namespace RtosExample.I2c.Core

open RtosExample.Cint RtosExample.I2c.BitOps

/-- A call that does not return. -/
inductive Fault
  /-- A member of the object at `RT_NULL` is read. -/
  | nullDeref
  /-- `RT_ASSERT` fails. -/
  | assertFailed
  deriving DecidableEq, Repr

variable {β : Type} (P : Prims β)

/-- `rt_i2c_transfer`: `i2c_bit_xfer` between `rt_mutex_take` and `rt_mutex_release`, so one step
to every other thread. -/
def rtI2cTransfer (bus : Option β) (msgs : List Msg) :
    Except Fault (U32 × List Msg × β) :=
  match bus with
  | none => .error .nullDeref
  | some bus => .ok (i2cBitXfer P msgs bus)

/-- The message that `rt_i2c_master_send` and `rt_i2c_master_recv` build; `msg.len` is 16 bits. -/
def mkMsg (addr flags : U16) (buf : List U8) (count : U32) : Msg :=
  { addr, flags, len := count.setWidth 16, buf }

/-- The value returned for what `rt_i2c_transfer` returns, which is looked at as an `rt_err_t`. -/
def result (ret count : U32) : U32 := if ret.toInt > 0 then count else ret

/-- `rt_i2c_master_send`. -/
def rtI2cMasterSend (bus : Option β) (addr flags : U16) (buf : List U8) (count : U32) :
    Except Fault (U32 × β) := do
  let r ← rtI2cTransfer P bus [mkMsg addr flags buf count]
  return (result r.1 count, r.2.2)

/-- `rt_i2c_master_recv`, with the buffer as it leaves it. -/
def rtI2cMasterRecv (bus : Option β) (addr flags : U16) (buf : List U8) (count : U32) :
    Except Fault (U32 × List U8 × β) := do
  if bus.isNone then throw .assertFailed
  let r ← rtI2cTransfer P bus [mkMsg addr (flags ||| RT_I2C_RD) buf count]
  return (result r.1 count, (r.2.1.map Msg.buf).flatten, r.2.2)

end RtosExample.I2c.Core
