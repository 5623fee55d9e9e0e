import RtosExample.Eeprom.Driver
import RtosExample.I2c.Transfer

/-! # The EEPROM module on a bus that answers

What `write_data` and `read_data` put on the bus, from the four transfers they are made of: the
address transfer that stays open (`sendOpen`), the data transfer that goes on in it (`sendMore`),
the address transfer that closes (`sendClosed`) and the receiving transfer (`recvClosed`).

`writeData_acks` and `readData_takes` describe the two calls on any slave that acknowledges the
bytes it is sent; `eeprom_framing` is the case of one that acknowledges everything. Both calls
leave the bus idle, so a bus that starts idle is idle at every call. -/

namespace RtosExample.Eeprom.Framing

open RtosExample.Cint RtosExample.Lib.ByteBus RtosExample.I2c.BitOps RtosExample.I2c.Bytes
open RtosExample.I2c.Core RtosExample.I2c.Transfer RtosExample.Eeprom.Driver

variable {σ : Type} (S : Slave σ)

/-- The address bytes of the chip, for writing and for reading. -/
def writeAddr : U8 := 0xA0
def readAddr : U8 := 0xA1

theorem setWidth_toNat {len : U32} (h : len.toNat ≤ 65535) :
    (BitVec.setWidth 16 len).toNat = len.toNat := by
  rw [BitVec.toNat_setWidth]
  omega

/-! ### The four transfers -/

theorem sendOpen {page : U8} {bus : Bus σ} (hh : bus.held = false)
    (h : AcksAll S [writeAddr, page] (S.start bus.dev).2) :
    rtI2cMasterSend (bytewise S) (some bus) AT24C02_ADDRESS (RT_I2C_WR ||| RT_I2C_NO_STOP) [page]
        1 =
      .ok (1, { bus with
        dev := puts S [writeAddr, page] (S.start bus.dev).2, held := true
        log := bus.log ++ (made (S.start bus.dev).1 .start ++ putEvents [writeAddr, page]) }) := by
  obtain ⟨bus', rfl, hr⟩ := masterSend_start S AT24C02_ADDRESS (RT_I2C_WR ||| RT_I2C_NO_STOP) [page]
    1 (by decide) (by decide) (by decide) (by simp) hh h
  exact hr

theorem sendMore {data : List U8} {len : U32} (bus : Bus σ) (hl : len.toNat ≤ 65535)
    (hd : len.toNat ≤ data.length) (hh : bus.held = true)
    (h : AcksAll S (data.take len.toNat) bus.dev) :
    rtI2cMasterSend (bytewise S) (some bus) AT24C02_ADDRESS (RT_I2C_WR ||| RT_I2C_NO_START) data
        len =
      .ok (len, { bus with
        dev := (S.stop (puts S (data.take len.toNat) bus.dev)).2, held := false
        log := bus.log ++ putEvents (data.take len.toNat) ++
          made (S.stop (puts S (data.take len.toNat) bus.dev)).1 .stop }) := by
  rw [← setWidth_toNat hl] at h hd
  obtain ⟨bus', rfl, hr⟩ := masterSend_more S AT24C02_ADDRESS (RT_I2C_WR ||| RT_I2C_NO_START)
    (by decide) (by decide) hd hh h
  rw [hr, if_neg (by decide), setWidth_toNat hl]
  rfl

theorem sendClosed {page : U8} {bus : Bus σ} (hh : bus.held = false)
    (h : AcksAll S [writeAddr, page] (S.start bus.dev).2) :
    rtI2cMasterSend (bytewise S) (some bus) AT24C02_ADDRESS RT_I2C_WR [page] 1 =
      .ok (1, { bus with
        dev := (S.stop (puts S [writeAddr, page] (S.start bus.dev).2)).2, held := false
        log := bus.log ++ (made (S.start bus.dev).1 .start ++ putEvents [writeAddr, page]) ++
          made (S.stop (puts S [writeAddr, page] (S.start bus.dev).2)).1 .stop }) := by
  obtain ⟨bus', rfl, hr⟩ := masterSend_start S AT24C02_ADDRESS RT_I2C_WR [page] 1 (by decide)
    (by decide) (by decide) (by simp) hh h
  exact hr

theorem recvClosed (buf : List U8) (bus : Bus σ) {bs : List U8} {len : U32} {s' : σ}
    (hl : len.toNat ≤ 65535) (hh : bus.held = false)
    (h : (S.put readAddr (S.start bus.dev).2).1 = .ack)
    (ht : takes S len.toNat (S.put readAddr (S.start bus.dev).2).2 = some (bs, s')) :
    rtI2cMasterRecv (bytewise S) (some bus) AT24C02_ADDRESS RT_I2C_RD buf len =
      .ok (len, bs ++ buf.drop bs.length, { bus with
        dev := (S.stop s').2, held := false
        log := bus.log ++ (made (S.start bus.dev).1 .start ++
          .put readAddr .ack :: takeEvents bs) ++ made (S.stop s').1 .stop }) := by
  rw [← setWidth_toNat hl] at ht
  obtain ⟨bus', rfl, hr⟩ := masterRecv_start S AT24C02_ADDRESS RT_I2C_RD (by decide) (by decide)
    (by decide) (by decide) hh h ht
  rw [hr, if_neg (by decide), show addr7 AT24C02_ADDRESS (RT_I2C_RD ||| RT_I2C_RD) = readAddr from
    by decide]
  rfl

/-! ### The two calls -/

/-- **`write_data`** on a slave that acknowledges the chip's address, the start address and the
data. -/
theorem writeData_acks {data : List U8} {len : U32} (page : U8) {bus : Bus σ} {s₁ : σ}
    (hl : len.toNat ≤ 65535) (hd : len.toNat ≤ data.length) (hh : bus.held = false)
    (h : AcksAll S (writeAddr :: page :: data.take len.toNat) (S.start bus.dev).2)
    (h1 : s₁ = puts S (writeAddr :: page :: data.take len.toNat) (S.start bus.dev).2) :
    writeData (bytewise S) (some bus) data len page = .ok (none, { bus with
      dev := (S.stop s₁).2, held := false
      log := bus.log ++ (made (S.start bus.dev).1 .start ++
        putEvents (writeAddr :: page :: data.take len.toNat) ++ made (S.stop s₁).1 .stop) }) := by
  obtain ⟨hw, hp, hb⟩ := h
  have ho := sendOpen S hh ⟨hw, hp, trivial⟩
  have hm := sendMore S { bus with
    dev := puts S [writeAddr, page] (S.start bus.dev).2, held := true
    log := bus.log ++ (made (S.start bus.dev).1 .start ++ putEvents [writeAddr, page]) }
    hl hd rfl hb
  rw [writeData_ok ho hm]
  simp [putEvents, h1]

/-- **`read_data`** on a slave that acknowledges the chip's addresses and the start address and
hands out the bytes. -/
theorem readData_takes (buf : List U8) {bs : List U8} {len : U32} {page : U8} {bus : Bus σ}
    {s₁ s₂ s' : σ} (hl : len.toNat ≤ 65535) (hh : bus.held = false)
    (h : AcksAll S [writeAddr, page] (S.start bus.dev).2)
    (h1 : s₁ = puts S [writeAddr, page] (S.start bus.dev).2) (h2 : s₂ = (S.stop s₁).2)
    (h3 : (S.put readAddr (S.start s₂).2).1 = .ack)
    (ht : takes S len.toNat (S.put readAddr (S.start s₂).2).2 = some (bs, s')) :
    readData (bytewise S) (some bus) buf len page = .ok (none, bs ++ buf.drop bs.length, { bus with
      dev := (S.stop s').2, held := false
      log := bus.log ++ (made (S.start bus.dev).1 .start ++ putEvents [writeAddr, page] ++
        made (S.stop s₁).1 .stop ++ made (S.start s₂).1 .start ++
        .put readAddr .ack :: takeEvents bs ++ made (S.stop s').1 .stop) }) := by
  subst h1 h2
  have hc := sendClosed S hh h
  have hr := recvClosed S buf { bus with
    dev := (S.stop (puts S [writeAddr, page] (S.start bus.dev).2)).2, held := false
    log := bus.log ++ (made (S.start bus.dev).1 .start ++ putEvents [writeAddr, page]) ++
      made (S.stop (puts S [writeAddr, page] (S.start bus.dev).2)).1 .stop } hl rfl h3 ht
  rw [readData_ok hc hr]
  simp

/-- **Framing.** On an idle bus with a slave that acknowledges everything, `write_data` is one
transaction that carries the start address and the data, and `read_data` is one transaction for
the start address and one in which `len` bytes come in, stored in order, the last one alone not
acknowledged. -/
theorem eeprom_framing (hS : Willing S) (bus : Bus σ) (hh : bus.held = false)
    (data buf : List U8) (len : U32) (page : U8) (h1 : 1 ≤ len.toNat) (hl : len.toNat ≤ 65535)
    (hd : data.length = len.toNat) (hb : buf.length = len.toNat) :
    (∃ bus' : Bus σ, writeData (bytewise S) (some bus) data len page = .ok (none, bus') ∧
      bus'.held = false ∧
      bus'.log = bus.log ++ ([.start, .put 0xA0 .ack, .put page .ack] ++
        data.map (fun b => .put b .ack) ++ [.stop])) ∧
    ∃ (bytes : List U8) (last : U8) (bus' : Bus σ),
      readData (bytewise S) (some bus) buf len page = .ok (none, bytes ++ [last], bus') ∧
      (bytes ++ [last]).length = len.toNat ∧ bus'.held = false ∧
      bus'.log = bus.log ++ ([.start, .put 0xA0 .ack, .put page .ack, .stop, .start,
        .put 0xA1 .ack] ++ bytes.flatMap (fun b => [.get b, .reply true]) ++
          [.get last, .reply false, .stop]) := by
  constructor
  · have hw := writeData_acks S page hl hd.ge hh (hS.acksAll _ _) rfl
    rw [List.take_of_length_le hd.le] at hw
    exact ⟨_, hw, rfl, by simp [putEvents, writeAddr, hS.start, hS.stop]⟩
  · obtain ⟨bs, s', ht⟩ := hS.takes len.toNat
      (S.put readAddr (S.start (S.stop (puts S [writeAddr, page] (S.start bus.dev).2)).2).2).2
    have hr := readData_takes S buf hl hh (hS.acksAll _ _) rfl rfl (hS.put _ _) ht
    have hlen := length_takes S ht
    obtain ⟨bytes, last, rfl⟩ : ∃ bytes last, bs = bytes ++ [last] := by
      rcases List.eq_nil_or_concat bs with rfl | ⟨bytes, last, h⟩
      · rw [List.length_nil] at hlen
        omega
      · exact ⟨bytes, last, by rw [h, List.concat_eq_append]⟩
    rw [List.drop_of_length_le (by omega), List.append_nil] at hr
    refine ⟨bytes, last, _, hr, hlen, rfl, ?_⟩
    simp [putEvents, writeAddr, readAddr, takeEvents_concat, hS.start, hS.stop]

/-- A slave that acknowledges every byte and hands out the last one it was sent. -/
def parrot : Slave U8 where
  start s := (true, s)
  restart s := (true, s)
  stop s := (true, s)
  put b _ := (.ack, b)
  get s := (some s, s)
  reply _ s := (true, s)

theorem parrot_willing : Willing parrot :=
  ⟨fun _ => rfl, fun _ => rfl, fun _ _ => rfl, fun _ => rfl, fun _ _ => rfl⟩

/-- The theorem at two bytes, on such a slave. -/
theorem eeprom_framing_parrot :
    ∃ bus' : Bus U8,
      writeData (bytewise parrot) (some ⟨0, false, 0, []⟩) [0x11, 0x22] 2 0x10 = .ok (none, bus') ∧
      bus'.held = false ∧
      bus'.log = [] ++ ([.start, .put 0xA0 .ack, .put 0x10 .ack] ++
        [0x11, 0x22].map (fun b => .put b .ack) ++ [.stop]) :=
  (eeprom_framing parrot parrot_willing ⟨0, false, 0, []⟩ rfl [0x11, 0x22] [0, 0] 2 0x10
    (by decide) (by decide) rfl rfl).1

end RtosExample.Eeprom.Framing
