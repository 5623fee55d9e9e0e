import RtosExample.I2c.Core

/-! # The EEPROM module

`eeprom.c`. The file's static `i2c_bus` is a parameter: `none` is `RT_NULL`, which it keeps when
`init_eeprom` does not find the bus. `write_data` and `read_data` store the results of their two
transfers in `res` and return nothing; the value they return is `none`. -/

namespace RtosExample.Eeprom.Driver

open RtosExample.Cint RtosExample.I2c.BitOps RtosExample.I2c.Core

def AHT10_I2C_BUS_NAME : String := "i2c1"
def AT24C02_ADDRESS : U16 := 0x50

variable {β : Type} (P : Prims β)

/-- `init_eeprom`: the value it gives `i2c_bus`, from what `rt_device_find` finds under a name. -/
def initEeprom (rtDeviceFind : String → Option β) : Option β :=
  rtDeviceFind AHT10_I2C_BUS_NAME

/-- `write_data`. -/
def writeData (i2cBus : Option β) (data : List U8) (len : U32) (page : U8) :
    Except Fault (Option U32 × β) := do
  let wrData := [page]
  let (_, bus) ← rtI2cMasterSend P i2cBus AT24C02_ADDRESS (RT_I2C_WR ||| RT_I2C_NO_STOP) wrData 1
  let (_, bus) ←
    rtI2cMasterSend P (some bus) AT24C02_ADDRESS (RT_I2C_WR ||| RT_I2C_NO_START) data len
  return (none, bus)

/-- `read_data`, with the buffer as it leaves it. -/
def readData (i2cBus : Option β) (data : List U8) (len : U32) (page : U8) :
    Except Fault (Option U32 × List U8 × β) := do
  let wrData := [page]
  let (_, bus) ← rtI2cMasterSend P i2cBus AT24C02_ADDRESS RT_I2C_WR wrData 1
  let (_, data, bus) ← rtI2cMasterRecv P (some bus) AT24C02_ADDRESS RT_I2C_RD data len
  return (none, data, bus)

variable {P}

theorem writeData_ok {bus bus₁ bus₂ : β} {data : List U8} {len : U32} {page : U8} {r₁ r₂ : U32}
    (h₁ : rtI2cMasterSend P (some bus) AT24C02_ADDRESS (RT_I2C_WR ||| RT_I2C_NO_STOP) [page] 1 =
      .ok (r₁, bus₁))
    (h₂ : rtI2cMasterSend P (some bus₁) AT24C02_ADDRESS (RT_I2C_WR ||| RT_I2C_NO_START) data len =
      .ok (r₂, bus₂)) :
    writeData P (some bus) data len page = .ok (none, bus₂) := by
  change (rtI2cMasterSend P (some bus) _ _ [page] 1 >>= fun r =>
    rtI2cMasterSend P (some r.2) _ _ data len >>= fun r => pure (none, r.2)) = _
  rw [h₁]
  change (rtI2cMasterSend P (some bus₁) _ _ data len >>= fun r => pure (none, r.2)) = _
  rw [h₂]
  rfl

theorem readData_ok {bus bus₁ bus₂ : β} {buf buf' : List U8} {len : U32} {page : U8}
    {r₁ r₂ : U32}
    (h₁ : rtI2cMasterSend P (some bus) AT24C02_ADDRESS RT_I2C_WR [page] 1 = .ok (r₁, bus₁))
    (h₂ : rtI2cMasterRecv P (some bus₁) AT24C02_ADDRESS RT_I2C_RD buf len =
      .ok (r₂, buf', bus₂)) :
    readData P (some bus) buf len page = .ok (none, buf', bus₂) := by
  change (rtI2cMasterSend P (some bus) _ _ [page] 1 >>= fun r =>
    rtI2cMasterRecv P (some r.2) _ _ buf len >>= fun r => pure (none, r.2.1, r.2.2)) = _
  rw [h₁]
  change (rtI2cMasterRecv P (some bus₁) _ _ buf len >>= fun r => pure (none, r.2.1, r.2.2)) = _
  rw [h₂]
  rfl

end RtosExample.Eeprom.Driver
