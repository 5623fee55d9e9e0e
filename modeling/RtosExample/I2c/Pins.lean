import RtosExample.I2c.BitOps
import RtosExample.Lib.TwoWire

/-! # The pins of the I2C bus

The functions of `i2c-bit-ops.c` that touch the pins, with the operations of `drv_soft_i2c.c` behind
them: both pins are open-drain outputs, so `set_sda` and `set_scl` are moves of a `Wire`, and what
`get_sda` and `get_scl` read is the level of the line. `i2c_delay` and `i2c_delay2` only space the
moves, in microseconds, and leave no trace here; time is counted in ticks, and it passes while the
thread sleeps in `SCL_H`. -/

namespace RtosExample.I2c.Pins

open RtosExample.Cint RtosExample.Lib.TwoWire RtosExample.I2c.BitOps

/-- The `timeout` of `stm32_bit_ops_default`, in ticks. -/
def timeout : U32 := 100

/-- What the rest of the system does to a thread that sleeps: how many ticks later than asked it
goes on, when it falls asleep at a tick. It gets the processor again some time. -/
structure Cpu where
  late : ℕ → ℕ
  late_lt : ∀ n, late n < 2 ^ 31

variable {τ : Type} (cpu : Cpu) (T : Target τ)

/-! ### The bus operations -/

/-- `stm32_set_sda`. -/
def setSda (state : Bool) (w : Wire τ) : Wire τ := w.move T { w with sda := state }

/-- `stm32_set_scl`. -/
def setScl (state : Bool) (w : Wire τ) : Wire τ := w.move T { w with scl := state }

/-- `stm32_get_sda`. -/
def getSda (w : Wire τ) : Bool := (w.lines T).sda

/-- `stm32_get_scl`. -/
def getScl (w : Wire τ) : Bool := (w.lines T).scl

/-- One tick passes. -/
def tick (w : Wire τ) : Wire τ :=
  w.move T { w with target := T.tick w.target, time := w.time + 1 }

/-- `rt_tick_get`. -/
def rtTickGet (w : Wire τ) : U32 := BitVec.ofNat 32 w.time

/-- `rt_thread_delay`. -/
def rtThreadDelay (n : U32) (w : Wire τ) : Wire τ := (tick T)^[n.toNat + cpu.late w.time] w

/-! ### The primitives -/

/-- The loop of `SCL_H`, which ends at the fourth look at the line at the latest (`sclH_ends`). -/
def sclWait (start : U32) : ℕ → Wire τ → ℤ × Wire τ
  | 0, w => (-RT_ETIMEOUT, w)
  | fuel + 1, w =>
    if getScl T w then (RT_EOK, w)
    else if rtTickGet w - start > timeout then (-RT_ETIMEOUT, w)
    else sclWait start fuel (rtThreadDelay cpu T ((timeout + 1) >>> 1) w)

/-- `SCL_H`. -/
def sclH (w : Wire τ) : ℤ × Wire τ :=
  let w := setScl T true w
  sclWait cpu T (rtTickGet w) 4 w

/-- `i2c_start`. -/
def i2cStart (w : Wire τ) : Wire τ := setScl T false (setSda T false w)

/-- `i2c_restart`; what `SCL_H` returns is not looked at. -/
def i2cRestart (w : Wire τ) : Wire τ :=
  setScl T false (setSda T false (sclH cpu T (setSda T true w)).2)

/-- `i2c_stop`; what `SCL_H` returns is not looked at. -/
def i2cStop (w : Wire τ) : Wire τ := setSda T true (sclH cpu T (setSda T false w)).2

/-- `i2c_waitack`. -/
def i2cWaitack (w : Wire τ) : ℤ × Wire τ :=
  let r := sclH cpu T (setSda T true w)
  if r.1 < 0 then (-RT_ETIMEOUT, r.2)
  else (if getSda T r.2 then 0 else 1, setScl T false r.2)

/-- The loop of `i2c_writeb` over the bits below `i`, and what follows it. -/
def writeBits (data : U8) : ℕ → Wire τ → ℤ × Wire τ
  | 0, w => i2cWaitack cpu T (setScl T false w)
  | i + 1, w =>
    let r := sclH cpu T (setSda T (data.getLsbD i) (setScl T false w))
    if r.1 < 0 then (-RT_ETIMEOUT, r.2) else writeBits data i r.2

/-- `i2c_writeb`. -/
def i2cWriteb (data : U8) (w : Wire τ) : ℤ × Wire τ := writeBits cpu T data 8 w

/-- The loop of `i2c_readb`, for so many more bits. -/
def readBits : ℕ → U8 → Wire τ → ℤ × Wire τ
  | 0, data, w => (int data, w)
  | i + 1, data, w =>
    let data := data <<< 1
    let r := sclH cpu T w
    if r.1 < 0 then (-RT_ETIMEOUT, r.2)
    else readBits i (if getSda T r.2 then data ||| 1 else data) (setScl T false r.2)

/-- `i2c_readb`. -/
def i2cReadb (w : Wire τ) : ℤ × Wire τ := readBits cpu T 8 0 (setSda T true w)

/-- `i2c_send_ack_or_nack`; SDA is not released for a NACK, it is already. -/
def i2cSendAckOrNack (ack : ℤ) (w : Wire τ) : ℤ × Wire τ :=
  let r := sclH cpu T (if ack ≠ 0 then setSda T false w else w)
  if r.1 < 0 then (-RT_ETIMEOUT, r.2) else (RT_EOK, setScl T false r.2)

/-- The primitives on the pins, for a bus with so many `retries`. -/
def pins (retries : ℕ) : Prims (Wire τ) where
  retries _ := retries
  start := i2cStart T
  restart := i2cRestart cpu T
  stop := i2cStop cpu T
  writeb := i2cWriteb cpu T
  readb := i2cReadb cpu T
  sendAckOrNack := i2cSendAckOrNack cpu T

/-! ### The wait for SCL -/

theorem time_tick (n : ℕ) (w : Wire τ) : ((tick T)^[n] w).time = w.time + n := by
  induction n generalizing w with
  | zero => rfl
  | succ n ih =>
    rw [Function.iterate_succ_apply, ih]
    change w.time + 1 + n = _
    omega

theorem expired_iff (t : ℕ) {e : ℕ} (he : e < 2 ^ 32) :
    BitVec.ofNat 32 (t + e) - BitVec.ofNat 32 t > timeout ↔ 100 < e := by
  rw [gt_iff_lt, BitVec.lt_def, BitVec.toNat_sub, BitVec.toNat_ofNat, BitVec.toNat_ofNat]
  change 100 < _ ↔ _
  omega

/-- Each sleep takes 50 ticks, so once `e` and the sleeps to come exceed the timeout, more looks at
the line change nothing; and what is returned tells whether it is up. -/
theorem sclWait_ends (t k : ℕ) : ∀ (fuel e : ℕ) (w : Wire τ), w.time = t + e → e < 2 ^ 31 + 151 →
    100 < e + 50 * fuel →
    sclWait cpu T (BitVec.ofNat 32 t) (fuel + 1 + k) w =
        sclWait cpu T (BitVec.ofNat 32 t) (fuel + 1) w ∧
      (sclWait cpu T (BitVec.ofNat 32 t) (fuel + 1) w).1 =
        if getScl T (sclWait cpu T (BitVec.ofNat 32 t) (fuel + 1) w).2 then RT_EOK
        else -RT_ETIMEOUT
  | fuel, e, w, hw, he, hf => by
    rw [Nat.add_right_comm fuel 1 k]
    simp only [sclWait]
    by_cases hg : getScl T w = true
    · simp [hg]
    · simp only [hg, Bool.false_eq_true, if_false, rtTickGet, hw,
        expired_iff t (by omega : e < 2 ^ 32)]
      by_cases hd : 100 < e
      · simp [hd, hg]
      · obtain ⟨fuel, rfl⟩ : ∃ f, fuel = f + 1 := ⟨fuel - 1, by omega⟩
        simp only [hd, if_false]
        have hl := cpu.late_lt w.time
        have hn : ((timeout + 1) >>> 1).toNat = 50 := by decide
        have hs := time_tick T (50 + cpu.late w.time) w
        rw [rtThreadDelay, hn]
        have ih := sclWait_ends t k fuel (e + (50 + cpu.late w.time)) _
          (hs.trans (by rw [hw]; omega)) (by omega) (by omega)
        rw [Nat.add_right_comm fuel 1 k] at ih ⊢
        exact ih

/-- **The wait of `SCL_H` ends** after four looks at the line, and returns `RT_EOK` exactly if the
line is up. -/
theorem sclH_ends (w : Wire τ) :
    (∀ k, sclWait cpu T (rtTickGet w) (4 + k) w = sclWait cpu T (rtTickGet w) 4 w) ∧
      (sclWait cpu T (rtTickGet w) 4 w).1 =
        if getScl T (sclWait cpu T (rtTickGet w) 4 w).2 then RT_EOK else -RT_ETIMEOUT :=
  ⟨fun k => (sclWait_ends cpu T w.time k 3 0 w rfl (by norm_num) (by norm_num)).1,
    (sclWait_ends cpu T w.time 0 3 0 w rfl (by norm_num) (by norm_num)).2⟩

end RtosExample.I2c.Pins
