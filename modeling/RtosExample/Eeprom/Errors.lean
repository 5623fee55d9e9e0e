import RtosExample.Eeprom.Framing

/-! # The EEPROM module when something fails

A monitor reads the events of a call (`watch`): a byte after START is the address of the chip, the
next one the start address, and whatever follows is data. `Opened` says that a transaction stands
whose address and start address were both acknowledged.

`write_data` throws away the result of its first transfer and returns nothing, so:

* `writeData_any`: the data goes out whether or not the addresses were acknowledged, and a STOP is
  tried in every case;
* `writeData_null`: a bus that was not found is dereferenced;
* `writeData_never_reports`: there is no way to read a result out of it, on any input. -/

namespace RtosExample.Eeprom.Errors

open RtosExample.Cint RtosExample.Lib.ByteBus RtosExample.I2c.BitOps RtosExample.I2c.Bytes
open RtosExample.I2c.Core RtosExample.I2c.Transfer RtosExample.Eeprom.Driver
open RtosExample.Eeprom.Framing

/-! ### The monitor -/

/-- Where the monitor is in a transaction. -/
inductive Stage
  | idle
  /-- After START. -/
  | called
  /-- The chip's address was acknowledged. -/
  | device
  /-- The start address was acknowledged too. -/
  | opened
  /-- One of the two was not. -/
  | refused
  deriving DecidableEq, Repr

/-- One event; a byte outside a transaction, or in a refused one, changes nothing. -/
def watchStep : Stage → Event → Stage
  | _, .start => .called
  | _, .stop => .idle
  | .called, .put _ a => if a = .ack then .device else .refused
  | .device, .put _ a => if a = .ack then .opened else .refused
  | s, _ => s

/-- The events of a call. -/
def watch (s : Stage) (l : List Event) : Stage := l.foldl watchStep s

/-- After these events a transaction stands whose two addresses were acknowledged. -/
def Opened (l : List Event) : Prop := watch .idle l = .opened

instance (l : List Event) : Decidable (Opened l) := by
  unfold Opened; infer_instance

/-- A byte may go out: an address, or data after two addresses that were acknowledged. -/
def Stage.Expects (s : Stage) : Prop := s = .called ∨ s = .device ∨ s = .opened

instance (s : Stage) : Decidable s.Expects := by
  unfold Stage.Expects; infer_instance

/-- No byte goes out where none may. -/
def Guarded (l : List Event) : Prop :=
  ∀ l₀ b a l₁, l = l₀ ++ .put b a :: l₁ → (watch .idle l₀).Expects

theorem watch_append (s : Stage) (l₁ l₂ : List Event) :
    watch s (l₁ ++ l₂) = watch (watch s l₁) l₂ := List.foldl_append

@[simp] theorem watch_nil (s : Stage) : watch s [] = s := rfl

@[simp] theorem watch_cons (s : Stage) (e : Event) (l : List Event) :
    watch s (e :: l) = watch (watchStep s e) l := rfl

/-! ### The monitor and the tries of the address -/

/-- The transaction is none, or it is refused. -/
def Stage.Shut (s : Stage) : Prop := s = .idle ∨ s = .refused

/-- The monitor before a try of the address: a START stands, or the transaction is shut. -/
def Stage.Ready (st : Bool) (s : Stage) : Prop := if st then s = .called else s.Shut

theorem Stage.Shut.put {s : Stage} (h : s.Shut) (b : U8) (a : Answer) :
    watchStep s (.put b a) = s := by
  rcases h with rfl | rfl <;> rfl

variable {σ : Type} (S : Slave σ)

theorem watch_clocked_ack {st : Bool} {s : Stage} (h : s.Ready st) (a : U8) :
    watch s (clocked a .ack) = if st then .device else s := by
  rcases st with _ | _
  · exact Stage.Shut.put h a .ack
  · obtain rfl : s = .called := h
    rfl

theorem watch_clocked {st : Bool} {s : Stage} (h : s.Ready st) (b : U8) {a : Answer}
    (ha : a ≠ .ack) : (watch s (clocked b a)).Ready (st && clocked b a = []) := by
  by_cases h0 : a = .timeout 0
  · subst h0
    simpa [clocked] using h
  · have hn : clocked b a ≠ [] := fun h => h0 (clocked_eq_nil.mp h)
    have hc : clocked b a = [.put b a] := by
      rcases a with _ | _ | _ | k
      · rfl
      · rfl
      · exact absurd rfl h0
      · rfl
    simp only [hc, watch_cons, watch_nil, List.cons_ne_nil, decide_false, Bool.and_false]
    rcases st with _ | _
    · rw [Stage.Shut.put h]
      exact h
    · obtain rfl : s = .called := h
      exact .inr (if_neg ha)

theorem watch_failed {st : Bool} {s : Stage} (h : s.Ready st) {a : U8} {t : σ}
    (ha : (S.put a t).1 ≠ .ack) :
    (watch s (failed S a t ++ made (restarted S a t) .start)).Ready
      (restarted S a t || (st && failed S a t = [])) := by
  rw [watch_append]
  rcases hr : restarted S a t with _ | _
  · have hc := watch_clocked h a ha
    unfold failed
    rcases (S.stop (S.put a t).2).1 with _ | _
    · simpa using hc
    · rw [watch_append]
      simp [Stage.Ready, Stage.Shut, watchStep]
  · simp [Stage.Ready, watchStep]

/-- Where the monitor stands after the tries of the address, by what came of them. -/
def Stage.Tried : Option (Bool × σ) → Stage → Prop
  | some (true, _), s => s = .device
  | some (false, _), s => s.Shut
  | none, s => s = .called ∨ s.Shut

/-- **The tries of the address** leave the chip addressed exactly if one of them is answered that
came right after a START. -/
theorem watch_tries (a : U8) : ∀ (n : ℕ) (st : Bool) (t : σ) {s : Stage}, s.Ready st →
    (watch s (tries S a n t)).Tried (addressed S a n st t)
  | 0, st, t, s, h => by
    by_cases ha : (S.put a t).1 = .ack
    · simp only [addressed, tries, ha, watch_clocked_ack h, if_true]
      rcases st with _ | _
      exacts [h, rfl]
    · simp only [addressed, tries, ha, if_false]
      have hc := watch_clocked h a ha
      rcases hst : (st && decide (clocked a (S.put a t).1 = [])) with _ | _
      · rw [hst] at hc
        exact .inr hc
      · rw [hst] at hc
        exact .inl hc
  | n + 1, st, t, s, h => by
    by_cases ha : (S.put a t).1 = .ack
    · simp only [addressed, tries, ha, ← clocked_ack, watch_clocked_ack h, if_true]
      rcases st with _ | _
      exacts [h, rfl]
    · have ih := watch_tries a n _ (retried S a t) (watch_failed S h ha)
      simp only [addressed, tries, ha, if_false, watch_append] at ih ⊢
      exact ih

/-! ### The two transfers of `write_data` -/

/-- The chip's address, within the retries of the bus, is acknowledged right after a START, and
then the start address is. -/
def AddressAnswered (bus : Bus σ) (page : U8) : Prop :=
  ∃ s, addressed S writeAddr bus.retries (S.start bus.dev).1 (S.start bus.dev).2 = some (true, s) ∧
    (S.put page s).1 = .ack

theorem ready_start (t : σ) :
    (watch .idle (made (S.start t).1 .start)).Ready (S.start t).1 := by
  rcases (S.start t).1 with _ | _
  exacts [.inl rfl, rfl]

/-- **The first transfer**, whatever is answered: it leaves an open transaction exactly if both
addresses were acknowledged. -/
theorem send_page {bus : Bus σ} (hh : bus.held = false) (page : U8) :
    ∃ r bus' l, rtI2cMasterSend (bytewise S) (some bus) AT24C02_ADDRESS
        (RT_I2C_WR ||| RT_I2C_NO_STOP) [page] 1 = .ok (r, bus') ∧
      bus'.log = bus.log ++ l ∧ (Opened l ↔ AddressAnswered S bus page) := by
  obtain ⟨r, bus', hr, hl⟩ := masterSend_open S AT24C02_ADDRESS (RT_I2C_WR ||| RT_I2C_NO_STOP)
    (b := page) (by decide) (by decide) (by decide) (by decide) (by decide) hh
  rw [show addr7 AT24C02_ADDRESS (RT_I2C_WR ||| RT_I2C_NO_STOP) = writeAddr from by decide] at hl
  refine ⟨r, bus', _, hr, hl, ?_⟩
  have ht := watch_tries S writeAddr bus.retries _ (S.start bus.dev).2 (ready_start S bus.dev)
  unfold Opened AddressAnswered
  rw [watch_append, watch_append]
  generalize watch (watch .idle _) _ = s at ht ⊢
  generalize addressed S writeAddr bus.retries _ _ = r at ht ⊢
  rcases r with _ | ⟨_ | _, t⟩
  · -- never answered: no start address is sent
    rcases ht with rfl | rfl | rfl <;> simp
  · -- answered, but not right after a START: the transaction is shut
    have hs : watch s (clocked page (S.put page t).1) = s := by
      rcases (S.put page t).1 with _ | _ | _ | k
      exacts [Stage.Shut.put ht _ _, Stage.Shut.put ht _ _, rfl, Stage.Shut.put ht _ _]
    rcases ht with rfl | rfl <;> simp [hs]
  · -- answered: it is up to the start address
    obtain rfl : s = .device := ht
    rcases h : (S.put page t).1 with _ | _ | _ | k <;> simp [h, clocked, watchStep]

/-- **What `write_data` does on any answers.** The first transfer leaves the events `l` and the
second one the data bytes `d` and a STOP, which is made or not; the data goes out unless not a bit
of its first byte is clocked. Nothing is returned, and the lines are released. -/
theorem writeData_any {bus : Bus σ} (hh : bus.held = false) (data : List U8) (len : U32)
    (page : U8) :
    ∃ r bus₁ bus₂ l d s,
      rtI2cMasterSend (bytewise S) (some bus) AT24C02_ADDRESS (RT_I2C_WR ||| RT_I2C_NO_STOP) [page]
        1 = .ok (r, bus₁) ∧
      writeData (bytewise S) (some bus) data len page = .ok (none, bus₂) ∧ bus₂.held = false ∧
      bus₁.log = bus.log ++ l ∧ (Opened l ↔ AddressAnswered S bus page) ∧
      bus₂.log = bus₁.log ++ sent d ++ made (S.stop s).1 .stop ∧ bus₂.dev = (S.stop s).2 ∧
      d.map Prod.fst <+: data.take (len.setWidth 16).toNat ∧
      (d = [] ↔ ∀ b ∈ (data.take (len.setWidth 16).toNat).head?,
        (S.put b bus₁.dev).1 = .timeout 0) := by
  obtain ⟨r₁, bus₁, l, h₁, hl, hopen⟩ := send_page S hh page
  obtain ⟨r₂, bus₂, d, s, h₂, hd, hs, hp, hn⟩ := masterSend_noStart S AT24C02_ADDRESS
    (RT_I2C_WR ||| RT_I2C_NO_START) data len (by decide) (by decide) (by decide) bus₁
  have hi : bus₂.held = false := by
    rw [← congrArg (fun r => (Prod.snd r).held) (Except.ok.inj h₂)]
    exact i2cBitXfer_idle S (by decide) bus₁
  exact ⟨r₁, bus₁, bus₂, l, d, s, h₁, writeData_ok h₁ h₂, hi, hl, hopen, hd, hs, hp, hn⟩

theorem writeData_none (bus : Bus σ) (data : List U8) (len : U32) (page : U8) :
    ∃ bus', writeData (bytewise S) (some bus) data len page = .ok (none, bus') := ⟨_, rfl⟩

/-- With no bus the member `ops` of the object at `RT_NULL` is read. -/
theorem writeData_null (data : List U8) (len : U32) (page : U8) :
    writeData (bytewise S) none data len page = .error .nullDeref := rfl

/-- **After an `init_eeprom` that found no bus** both calls end there. -/
theorem initEeprom_null {rtDeviceFind : String → Option (Bus σ)}
    (h : rtDeviceFind AHT10_I2C_BUS_NAME = none) (data : List U8) (len : U32) (page : U8) :
    writeData (bytewise S) (initEeprom rtDeviceFind) data len page = .error .nullDeref ∧
      readData (bytewise S) (initEeprom rtDeviceFind) data len page = .error .nullDeref := by
  unfold initEeprom
  rw [h]
  exact ⟨writeData_null S data len page, rfl⟩

/-! ### The contract of a write that reports -/

/-- The events of a write of which every byte was acknowledged. -/
def Complete (data : List U8) (len : U32) (l : List Event) : Prop :=
  ∃ l₀, Opened l₀ ∧ l = l₀ ++ putEvents (data.take len.toNat) ++ [.stop]

/-- **The contract.** With `decode` telling a success from a failure by the value returned: on a
bus, no byte goes out where none may, the value tells a complete write from any other outcome, and
the last event is a STOP if there is one; without a bus, the value is a failure. -/
def Reports (decode : U32 → Bool) (i2cBus : Option (Bus σ)) (data : List U8) (len : U32)
    (page : U8) : Prop :=
  match i2cBus with
  | none =>
    ∃ v, (writeData (bytewise S) none data len page).map Prod.fst = .ok (some v) ∧ decode v = false
  | some bus => ∃ v bus' l, writeData (bytewise S) (some bus) data len page = .ok (some v, bus') ∧
      bus'.log = bus.log ++ l ∧ Guarded l ∧ (decode v = true ↔ Complete data len l) ∧
      (l = [] ∨ l.getLast? = some .stop)

theorem ends_iff (l : List Event) (d : List (U8 × Answer)) (m : Bool) :
    (l ++ sent d ++ made m .stop = [] ∨ (l ++ sent d ++ made m .stop).getLast? = some .stop) ↔
      m = true ∨ d = [] ∧ (l = [] ∨ l.getLast? = some .stop) := by
  rcases m with _ | _
  · rcases List.eq_nil_or_concat d with rfl | ⟨d, p, rfl⟩
    · simp [sent]
    · simp [sent]
  · simp

/-- **`write_data` never reports**: on no input, and however the value returned is read, does it
keep the contract, for no value ever comes back. Of its other parts: data goes out in a transaction
whose addresses were acknowledged exactly if they are, or not a bit of data is clocked at all; the
last event is a STOP exactly if the one at the end is made, or nothing came after an earlier one;
and a bus that was not found is dereferenced. -/
theorem writeData_never_reports (i2cBus : Option (Bus σ)) (data : List U8) (len : U32)
    (page : U8) :
    (∀ decode, ¬ Reports S decode i2cBus data len page) ∧
    (∀ bus ∈ i2cBus, bus.held = false → ∃ r bus₁ bus₂ l d s,
      rtI2cMasterSend (bytewise S) (some bus) AT24C02_ADDRESS (RT_I2C_WR ||| RT_I2C_NO_STOP) [page]
        1 = .ok (r, bus₁) ∧
      writeData (bytewise S) (some bus) data len page = .ok (none, bus₂) ∧ bus₂.held = false ∧
      bus₁.log = bus.log ++ l ∧ bus₂.log = bus₁.log ++ sent d ++ made (S.stop s).1 .stop ∧
      bus₂.dev = (S.stop s).2 ∧ d.map Prod.fst <+: data.take (len.setWidth 16).toNat ∧
      (d = [] ↔ ∀ b ∈ (data.take (len.setWidth 16).toNat).head?,
        (S.put b bus₁.dev).1 = .timeout 0) ∧
      ((d = [] ∨ Opened l) ↔ (d = [] ∨ AddressAnswered S bus page)) ∧
      ((l ++ sent d ++ made (S.stop s).1 .stop = [] ∨
          (l ++ sent d ++ made (S.stop s).1 .stop).getLast? = some .stop) ↔
        (S.stop s).1 = true ∨ d = [] ∧ (l = [] ∨ l.getLast? = some .stop))) ∧
    (i2cBus = none → writeData (bytewise S) i2cBus data len page = .error .nullDeref) := by
  refine ⟨?_, ?_, ?_⟩
  · rintro decode h
    rcases i2cBus with _ | bus
    · obtain ⟨v, hv, -⟩ := h
      rw [writeData_null] at hv
      cases hv
    · obtain ⟨v, bus', l, hv, -⟩ := h
      obtain ⟨bus'', hn⟩ := writeData_none S bus data len page
      rw [hn] at hv
      cases hv
  · intro bus _ hh
    obtain ⟨r, bus₁, bus₂, l, d, s, h₁, h₂, hi, hl, ho, hd, hs, hp, hn⟩ :=
      writeData_any S hh data len page
    exact ⟨r, bus₁, bus₂, l, d, s, h₁, h₂, hi, hl, hd, hs, hp, hn, by rw [ho], ends_iff l d _⟩
  · rintro rfl
    exact writeData_null S data len page

/-- A slave that acknowledges nothing: no chip on the bus. -/
def absent : Slave Unit where
  start s := (true, s)
  restart s := (true, s)
  stop s := (true, s)
  put _ s := (.nack, s)
  get s := (some 0xFF, s)
  reply _ s := (true, s)

/-- The theorem at a bus without a chip. -/
theorem writeData_never_reports_absent :
    ∀ decode, ¬ Reports absent decode (some ⟨(), false, 0, []⟩) [0x55] 1 0x10 :=
  (writeData_never_reports absent (some ⟨(), false, 0, []⟩) [0x55] 1 0x10).1

/-- **The data goes out to a chip that is not there**, and nobody hears of it. -/
theorem writeData_absent :
    (∃ bus', writeData (bytewise absent) (some ⟨(), false, 0, []⟩) [0x55] 1 0x10 =
        .ok (none, bus') ∧
      bus'.log = [.start, .put 0xA0 .nack, .put 0x55 .nack, .stop] ∧ ¬ Guarded bus'.log) ∧
    ¬ ∃ decode : U32 → Bool, ∀ (data : List U8) (len : U32) (page : U8), 1 ≤ len.toNat →
      len.toNat ≤ data.length → Reports absent decode (some ⟨(), false, 0, []⟩) data len page := by
  refine ⟨⟨_, rfl, by decide, fun h => ?_⟩, ?_⟩
  · exact absurd (h [.start, .put 0xA0 .nack] 0x55 .nack [.stop] (by decide)) (by decide)
  rintro ⟨decode, h⟩
  obtain ⟨v, bus', l, hv, -⟩ := h [0x55] 1 0x10 (by decide) (by decide)
  obtain ⟨bus'', hn⟩ := writeData_none absent ⟨(), false, 0, []⟩ [0x55] 1 0x10
  rw [hn] at hv
  cases hv

end RtosExample.Eeprom.Errors
