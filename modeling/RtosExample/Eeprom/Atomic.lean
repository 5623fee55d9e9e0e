import RtosExample.Eeprom.At24c02
import RtosExample.Lib.Interleave
import Mathlib.Data.Bool.Count

/-! # Two threads and the EEPROM module

`rt_i2c_transfer` takes the bus mutex and gives it back, so a transfer is what one thread does while
the other one waits (an action of `Lib.Interleave`). `write_data` and `read_data` are two transfers
each, and nothing is held between them.

`serialisable_iff`: for any two of the four kinds of calls, all runs of a schedule end as one call
after the other would if and only if the schedule is one call after the other. -/

namespace RtosExample.Eeprom.Atomic

open RtosExample.Cint RtosExample.Lib.Interleave
open RtosExample.I2c.BitOps RtosExample.I2c.Bytes RtosExample.I2c.Core RtosExample.Eeprom.Driver
open RtosExample.Eeprom.At24c02

/-! ### The calls and their transfers -/

/-- The two calls of the module. -/
inductive Kind
  | write
  | read
  deriving DecidableEq, Repr

/-- A call with its arguments; the buffer is data to write or room to read into. -/
structure Call where
  kind : Kind
  data : List U8
  len : U32
  page : U8

/-- What the caller promises: the buffer has `len` bytes, which fit the 16 bits of a message, and a
write stays in one page of the chip. -/
def Call.Fits (c : Call) : Prop :=
  1 ≤ c.len.toNat ∧ c.len.toNat ≤ 65535 ∧ c.data.length = c.len.toNat ∧
    (c.kind = .write → c.page.toNat % 8 + c.len.toNat ≤ 8)

/-- A transfer of a thread whose local is its buffer. -/
abbrev Transfer := Action Fault (List U8) (Bus Chip)

def send (flags : U16) (buf : List U8) (count : U32) : Transfer := fun p =>
  (rtI2cMasterSend (bytewise chip) (some p.2) AT24C02_ADDRESS flags buf count).map fun r =>
    (p.1, r.2)

def recv (count : U32) : Transfer := fun p =>
  (rtI2cMasterRecv (bytewise chip) (some p.2) AT24C02_ADDRESS RT_I2C_RD p.1 count).map fun r =>
    (r.2.1, r.2.2)

/-- The transfers of a call. -/
def Call.transfers (c : Call) : List Transfer :=
  match c.kind with
  | .write => [send (RT_I2C_WR ||| RT_I2C_NO_STOP) [c.page] 1,
      send (RT_I2C_WR ||| RT_I2C_NO_START) c.data c.len]
  | .read => [send RT_I2C_WR [c.page] 1, recv c.len]

/-- The call itself, with its buffer as it leaves it. -/
def Call.exec (c : Call) (bus : Bus Chip) : Except Fault (List U8 × Bus Chip) :=
  match c.kind with
  | .write => (writeData (bytewise chip) (some bus) c.data c.len c.page).map fun r => (c.data, r.2)
  | .read => (readData (bytewise chip) (some bus) c.data c.len c.page).map fun r => (r.2.1, r.2.2)

theorem alone_transfers (c : Call) (bus : Bus Chip) :
    alone c.transfers (c.data, bus) = c.exec bus := by
  rcases c with ⟨_ | _, data, len, page⟩ <;> rfl

/-! ### The runs of two calls -/

/-- One thread at the start of each call. -/
def conf (a b : Call) (bus : Bus Chip) : Conf Fault (List U8) (Bus Chip) :=
  { threads := fun t => if t then ⟨a.transfers, a.data⟩ else ⟨b.transfers, b.data⟩, shared := bus }

/-- What is left of a run: the contents of the chip and the buffers of the two threads. -/
def outcome (c : Conf Fault (List U8) (Bus Chip)) : (U8 → U8) × List U8 × List U8 :=
  (c.shared.dev.mem, (c.threads true).loc, (c.threads false).loc)

/-- The two calls with their transfers in the order of the schedule. -/
def interleaved (sched : List Bool) (a b : Call) (bus : Bus Chip) :
    Except Fault ((U8 → U8) × List U8 × List U8) :=
  (run sched (conf a b bus)).map outcome

/-- One call and then the other. -/
def inTurn (a b : Call) (bus : Bus Chip) : Except Fault ((U8 → U8) × List U8 × List U8) := do
  let r ← a.exec bus
  let r' ← b.exec r.2
  return (r'.2.dev.mem, r.1, r'.1)

/-- The outcome of the schedule is that of one call after the other, in some order. -/
def Serialisable (sched : List Bool) (a b : Call) (bus : Bus Chip) : Prop :=
  interleaved sched a b bus = inTurn a b bus ∨
    interleaved sched a b bus = (inTurn b a bus).map fun r => (r.1, r.2.2, r.2.1)

/-- Each thread does its two transfers. -/
def Complete (sched : List Bool) : Prop := ∀ t, sched.count t = 2

theorem transfers_length (c : Call) : c.transfers.length = 2 := by
  rcases c with ⟨_ | _, data, len, page⟩ <;> rfl

/-- **A schedule that lets one call pass is serialisable.** -/
theorem serialisable_of_adjacent (t : Bool) (a b : Call) (bus : Bus Chip) :
    Serialisable [t, t, !t, !t] a b bus := by
  have h := run_serial t (conf a b bus)
  rcases t with _ | _
  · right
    change run (List.replicate b.transfers.length _ ++ List.replicate a.transfers.length _) _ =
      alone b.transfers (b.data, bus) >>= fun p => alone a.transfers (a.data, p.2) >>= _ at h
    simp only [transfers_length, alone_transfers] at h
    refine (congrArg (Except.map outcome) h).trans ?_
    rw [inTurn]
    rcases b.exec bus with e | r
    · rfl
    · change ((a.exec r.2 >>= _).map outcome) = (a.exec r.2 >>= _).map _
      rcases a.exec r.2 with e | r' <;> rfl
  · left
    change run (List.replicate a.transfers.length _ ++ List.replicate b.transfers.length _) _ =
      alone a.transfers (a.data, bus) >>= fun p => alone b.transfers (b.data, p.2) >>= _ at h
    simp only [transfers_length, alone_transfers] at h
    refine (congrArg (Except.map outcome) h).trans ?_
    rw [inTurn]
    rcases a.exec bus with e | r
    · rfl
    · change ((b.exec r.2 >>= _).map outcome) = b.exec r.2 >>= _
      rcases b.exec r.2 with e | r' <;> rfl

/-! ### A transfer between the two of the other thread -/

theorem complete_cases {sched : List Bool} (h : Complete sched) :
    (∃ t, sched = [t, t, !t, !t]) ∨ ∃ t, sched = [t, !t, t, !t] ∨ sched = [t, !t, !t, t] := by
  have hlen : sched.length = 4 := by
    rw [← List.count_not_add_count sched true, h, h]
  obtain ⟨x, y, z, w, rfl⟩ : ∃ x y z w, sched = [x, y, z, w] := by
    match sched, hlen with
    | [x, y, z, w], _ => exact ⟨x, y, z, w, rfl⟩
  have h' := h true
  revert h'
  cases x <;> cases y <;> cases z <;> cases w <;> decide

/-- A call for one byte, at address `0x10` of the first thread and at `0x20` of the second. -/
def sample (k : Kind) (first : Bool) : Call :=
  { kind := k, data := [if first then 0x11 else 0x22], len := 1
    page := if first then 0x10 else 0x20 }

/-- A chip that holds its addresses, on an idle bus. -/
def sampleBus : Bus Chip := ⟨⟨fun a => a, 0, .idle⟩, false, 0, []⟩

/-- What is looked at: the two addresses, and the buffers. -/
def glance (r : Except Fault ((U8 → U8) × List U8 × List U8)) :
    Option (U8 × U8 × List U8 × List U8) :=
  r.toOption.map fun r => (r.1 0x10, r.1 0x20, r.2)

/-- **The samples of any two kinds fail** on every schedule in which a transfer falls between the
two of the other thread. -/
theorem sample_split (ka kb : Kind) (t : Bool) (sched : List Bool)
    (h : sched = [t, !t, t, !t] ∨ sched = [t, !t, !t, t]) :
    ¬ Serialisable sched (sample ka true) (sample kb false) sampleBus := by
  rintro (he | he) <;> replace he := congrArg glance he <;> revert he
  · rcases h with rfl | rfl <;> cases ka <;> cases kb <;> cases t <;> decide
  · rcases h with rfl | rfl <;> cases ka <;> cases kb <;> cases t <;> decide

theorem sample_fits (k : Kind) (first : Bool) : (sample k first).Fits := by
  cases k <;> cases first <;> exact ⟨by decide, by decide, by decide, by decide⟩

/-- **The calls are atomic exactly if no transfer falls between the two of the other thread**, for
each of the four pairs of kinds. -/
theorem serialisable_iff {sched : List Bool} (hs : Complete sched) (ka kb : Kind) :
    (∀ a b : Call, a.kind = ka → b.kind = kb → a.Fits → b.Fits →
      ∀ bus : Bus Chip, bus.held = false → Serialisable sched a b bus) ↔
    ∃ t, sched = [t, t, !t, !t] := by
  constructor
  · intro h
    rcases complete_cases hs with ht | ⟨t, ht⟩
    · exact ht
    · exact absurd (h (sample ka true) (sample kb false) rfl rfl (sample_fits ka true)
        (sample_fits kb false) sampleBus rfl) (sample_split ka kb t sched ht)
  · rintro ⟨t, rfl⟩ a b - - - - bus -
    exact serialisable_of_adjacent t a b bus

/-- The theorem at two writes that start before either goes on. -/
theorem serialisable_iff_writes :
    (∀ a b : Call, a.kind = .write → b.kind = .write → a.Fits → b.Fits →
      ∀ bus : Bus Chip, bus.held = false → Serialisable [true, false, true, false] a b bus) ↔
    ∃ t, [true, false, true, false] = [t, t, !t, !t] :=
  serialisable_iff (fun t => by cases t <;> decide) .write .write

/-- **Two writes, one byte each**, the second one starting while the first is open: its address
bytes are stored as data of the first, and the data of both calls is lost. -/
theorem writes_not_atomic :
    glance (interleaved [true, false, true, false] (sample .write true) (sample .write false)
      sampleBus) = some (0xA0, 0x20, [0x11], [0x22]) ∧
    ¬ ∀ (sched : List Bool) (a b : Call), Complete sched → a.Fits → b.Fits →
      ∀ bus : Bus Chip, bus.held = false → Serialisable sched a b bus := by
  refine ⟨by decide, fun h => ?_⟩
  exact sample_split .write .write true _ (.inl rfl) (h [true, false, true, false]
    (sample .write true) (sample .write false) (fun t => by cases t <;> decide)
    (sample_fits .write true) (sample_fits .write false) sampleBus rfl)

end RtosExample.Eeprom.Atomic
