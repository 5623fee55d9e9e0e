import RtosExample.I2c.Core
import RtosExample.I2c.Bytes

/-! # What a transfer does

One lemma for each function of the driver, so that nothing above unfolds it again.

* on bytes that are acknowledged (`AcksAll`) and bytes that are there (`takes`): the byte loops
  `sendLoop_acks` and `recvLoop_takes`, and the two halves of a message, `xferAddress_ack` and
  `xferBytes_send`, `xferBytes_recv`;
* on any answers: `masterSend_noStart`, a transfer with `RT_I2C_NO_START` goes on to its bytes at
  once, and `i2cSendAddress_tries`, what the retries of the address leave on the bus. -/

namespace RtosExample.I2c.Transfer

open RtosExample.Cint RtosExample.Lib.ByteBus RtosExample.I2c.BitOps RtosExample.I2c.Bytes
open RtosExample.I2c.Core

variable {σ : Type} (S : Slave σ)

/-! ### The byte loops -/

theorem sendLoop_acks (ign : Bool) : ∀ (bs : List U8) (n : ℤ) (bus : Bus σ), bus.held = true →
    AcksAll S bs bus.dev →
    sendLoop (bytewise S) ign bs n bus =
      (n + bs.length, { bus with dev := puts S bs bus.dev, log := bus.log ++ putEvents bs })
  | [], n, bus, _, _ => by simp [sendLoop, putEvents]
  | b :: bs, n, bus, hh, ha => by
    obtain ⟨h1, h2⟩ := ha
    have ih := sendLoop_acks ign bs (n + 1) (bus.emit [.put b .ack] true (S.put b bus.dev).2) rfl h2
    simp only [sendLoop, bytewise_writeb, i2cWriteb, h1, ret, clocked_ack, holds]
    rw [if_pos (Or.inl (by norm_num)), ih]
    simp only [Bus.emit, puts_cons, putEvents, List.map_cons, List.length_cons,
      List.append_assoc, List.singleton_append, hh]
    congr 1
    push_cast
    omega

theorem i2cReadb_some {bus : Bus σ} {b : U8} {s : σ} (h : S.get bus.dev = (some b, s)) :
    i2cReadb S bus = (int b, bus.emit [.get b] true s) := by
  unfold i2cReadb
  rw [h]

theorem i2cSendAckOrNack_true (bus : Bus σ) {n : ℕ} {s : σ}
    (h : S.reply (n != 0) bus.dev = (true, s)) :
    i2cSendAckOrNack S n bus = (RT_EOK, bus.emit [.reply (n != 0)] true s) := by
  have hn : ((n : ℤ) != 0) = (n != 0) := by
    rcases n with _ | n
    · rfl
    · simp [bne]
      omega
  unfold i2cSendAckOrNack
  rw [hn, h]

theorem ofInt_int (b : U8) : BitVec.ofInt 8 (int b) = b := by
  simp [int]

theorem recvLoop_takes {flags : U16} (hf : has flags RT_I2C_NO_READ_ACK = false) : ∀ (n : ℕ)
    (bytes : ℤ) (stored : List U8) (bus : Bus σ) {bs : List U8} {s' : σ}, bus.held = true →
    takes S n bus.dev = some (bs, s') →
    recvLoop (bytewise S) flags n bytes stored bus =
      (bytes + n, stored ++ bs, { bus with dev := s', log := bus.log ++ takeEvents bs })
  | 0, bytes, stored, bus, bs, s', _, h => by
    cases h
    simp [recvLoop, takeEvents]
  | n + 1, bytes, stored, bus, bs, s', hh, h => by
    obtain ⟨b, bs', s₁, s₂, rfl, hg, hr, ht⟩ := takes_succ_inv S h
    have hlen := length_takes S ht
    have ih := recvLoop_takes hf n (bytes + 1) (stored ++ [b])
      ((bus.emit [.get b] true s₁).emit [.reply (n != 0)] true s₂) rfl ht
    have hb : (int b : ℤ) ≥ 0 := Int.natCast_nonneg _
    simp only [recvLoop, bytewise_readb, i2cReadb_some S hg, if_pos hb, hf, ofInt_int,
      bytewise_sendAckOrNack, i2cSendAckOrNack_true S (bus.emit [.get b] true s₁) hr]
    rw [if_neg (by simp), if_neg (by simp [RT_EOK]), ih]
    simp only [Bus.emit, takeEvents, hlen, List.append_assoc, List.cons_append, List.nil_append, hh]
    congr 1
    push_cast
    omega

/-! ### Addressing -/

theorem i2cSendAddress_ack {a : U8} {bus : Bus σ} (h : (S.put a bus.dev).1 = .ack) (n : ℕ) :
    i2cSendAddress (bytewise S) a n bus = (1, bus.emit [.put a .ack] true (S.put a bus.dev).2) := by
  rcases n with _ | n <;> simp [i2cSendAddress, i2cWriteb, h, ret, holds]

theorem i2cBitSendAddress_ack {msg : Msg} (bus : Bus σ)
    (h10 : has msg.flags RT_I2C_ADDR_10BIT = false)
    (h : (S.put (addr7 msg.addr msg.flags) bus.dev).1 = .ack) :
    i2cBitSendAddress (bytewise S) msg bus =
      (RT_EOK, bus.emit [.put (addr7 msg.addr msg.flags) .ack] true
        (S.put (addr7 msg.addr msg.flags) bus.dev).2) := by
  simp [i2cBitSendAddress, h10, i2cSendAddress_ack S h]

/-! ### One message -/

theorem i2cBitXfer_one (msg : Msg) (bus : Bus σ) :
    i2cBitXfer (bytewise S) [msg] bus =
      (BitVec.ofInt 32 ((xferMsg (bytewise S) 0 msg bus).1.getD 1),
        [(xferMsg (bytewise S) 0 msg bus).2.1],
        if has msg.flags RT_I2C_NO_STOP then (xferMsg (bytewise S) 0 msg bus).2.2
        else i2cStop S (xferMsg (bytewise S) 0 msg bus).2.2) := by
  simp [i2cBitXfer, xferLoop]

theorem i2cBitXfer_idle {addr flags : U16} {buf : List U8} {count : U32}
    (hp : has flags RT_I2C_NO_STOP = false) (bus : Bus σ) :
    (i2cBitXfer (bytewise S) [mkMsg addr flags buf count] bus).2.2.held = false := by
  simp only [i2cBitXfer_one, mkMsg, hp]
  rfl

theorem xferAddress_ack (msg : Msg) {bus : Bus σ} (hs : has msg.flags RT_I2C_NO_START = false)
    (h10 : has msg.flags RT_I2C_ADDR_10BIT = false) (hh : bus.held = false)
    (h : (S.put (addr7 msg.addr msg.flags) (S.start bus.dev).2).1 = .ack) :
    xferAddress (bytewise S) 0 msg bus =
      (none, { bus with
        dev := (S.put (addr7 msg.addr msg.flags) (S.start bus.dev).2).2, held := true,
        log := bus.log ++
          (made (S.start bus.dev).1 .start ++ [.put (addr7 msg.addr msg.flags) .ack]) }) := by
  have hd := i2cBitSendAddress_ack S
    (bus.emit (made (S.start bus.dev).1 .start) true (S.start bus.dev).2) h10 h
  simp only [xferAddress, hs, Bool.false_eq_true, if_false, ne_eq, not_true_eq_false,
    bytewise_start, i2cStart_released S hh, hd]
  simp [Bus.emit]

theorem xferBytes_send (msg : Msg) (bus : Bus σ) (hr : has msg.flags RT_I2C_RD = false)
    (hl : msg.len.toNat ≤ msg.buf.length) (hh : bus.held = true)
    (h : AcksAll S (msg.buf.take msg.len.toNat) bus.dev) :
    xferBytes (bytewise S) msg bus =
      (none, msg, { bus with
        dev := puts S (msg.buf.take msg.len.toNat) bus.dev
        log := bus.log ++ putEvents (msg.buf.take msg.len.toNat) }) := by
  have hb : i2cSendBytes (bytewise S) msg bus = _ := sendLoop_acks S _ _ 0 bus hh h
  simp [xferBytes, hr, hb, hl]

theorem xferBytes_recv (msg : Msg) (bus : Bus σ) {bs : List U8} {s' : σ}
    (hr : has msg.flags RT_I2C_RD = true) (hn : has msg.flags RT_I2C_NO_READ_ACK = false)
    (hh : bus.held = true) (h : takes S msg.len.toNat bus.dev = some (bs, s')) :
    xferBytes (bytewise S) msg bus =
      (none, { msg with buf := bs ++ msg.buf.drop bs.length },
        { bus with dev := s', log := bus.log ++ takeEvents bs }) := by
  have hb := recvLoop_takes S hn msg.len.toNat 0 [] bus hh h
  simp [xferBytes, hr, i2cRecvBytes, hb]

/-! ### Sending and receiving on an idle bus, and going on -/

theorem result_one (count : U32) : result 1#32 count = count := if_pos (by decide)

/-- **`rt_i2c_master_send` with START**, on an idle bus, every byte acknowledged. -/
theorem masterSend_start (addr flags : U16) (buf : List U8) (count : U32) {bus : Bus σ}
    (hs : has flags RT_I2C_NO_START = false) (h10 : has flags RT_I2C_ADDR_10BIT = false)
    (hr : has flags RT_I2C_RD = false) (hl : (count.setWidth 16).toNat ≤ buf.length)
    (hh : bus.held = false)
    (h : AcksAll S (addr7 addr flags :: buf.take (count.setWidth 16).toNat) (S.start bus.dev).2) :
    ∃ bus' : Bus σ, bus' = { bus with
        dev := puts S (addr7 addr flags :: buf.take (count.setWidth 16).toNat) (S.start bus.dev).2
        held := true
        log := bus.log ++ (made (S.start bus.dev).1 .start ++
          putEvents (addr7 addr flags :: buf.take (count.setWidth 16).toNat)) } ∧
      rtI2cMasterSend (bytewise S) (some bus) addr flags buf count =
        .ok (count, if has flags RT_I2C_NO_STOP then bus' else i2cStop S bus') := by
  obtain ⟨h1, h2⟩ := h
  have ha := xferAddress_ack S (mkMsg addr flags buf count) hs h10 hh h1
  have hb := xferBytes_send S (mkMsg addr flags buf count)
    { bus with
      dev := (S.put (addr7 addr flags) (S.start bus.dev).2).2, held := true
      log := bus.log ++ (made (S.start bus.dev).1 .start ++ [.put (addr7 addr flags) .ack]) }
    hr hl rfl h2
  refine ⟨_, rfl, ?_⟩
  simp only [rtI2cMasterSend, rtI2cTransfer, i2cBitXfer_one, xferMsg, ha]
  simp only [mkMsg] at hb ⊢
  simp [hb, result_one, putEvents, pure, Except.pure, bind, Except.bind]

/-- **`rt_i2c_master_send` without START**, on a bus that a transfer left open, every byte
acknowledged. -/
theorem masterSend_more (addr flags : U16) {buf : List U8} {count : U32} {bus : Bus σ}
    (hs : has flags RT_I2C_NO_START = true) (hr : has flags RT_I2C_RD = false)
    (hl : (count.setWidth 16).toNat ≤ buf.length) (hh : bus.held = true)
    (h : AcksAll S (buf.take (count.setWidth 16).toNat) bus.dev) :
    ∃ bus' : Bus σ, bus' = { bus with
        dev := puts S (buf.take (count.setWidth 16).toNat) bus.dev
        log := bus.log ++ putEvents (buf.take (count.setWidth 16).toNat) } ∧
      rtI2cMasterSend (bytewise S) (some bus) addr flags buf count =
        .ok (count, if has flags RT_I2C_NO_STOP then bus' else i2cStop S bus') := by
  have hb := xferBytes_send S (mkMsg addr flags buf count) bus hr hl hh h
  refine ⟨_, rfl, ?_⟩
  simp only [rtI2cMasterSend, rtI2cTransfer, i2cBitXfer_one, xferMsg, xferAddress]
  simp only [mkMsg] at hb ⊢
  simp [hs, hb, result_one, pure, Except.pure, bind, Except.bind]

/-- **`rt_i2c_master_recv`** on an idle bus, the address acknowledged and the bytes there. -/
theorem masterRecv_start (addr flags : U16) {buf bs : List U8} {count : U32} {bus : Bus σ}
    {s' : σ} (hs : has (flags ||| RT_I2C_RD) RT_I2C_NO_START = false)
    (h10 : has (flags ||| RT_I2C_RD) RT_I2C_ADDR_10BIT = false)
    (hr : has (flags ||| RT_I2C_RD) RT_I2C_RD = true)
    (hn : has (flags ||| RT_I2C_RD) RT_I2C_NO_READ_ACK = false) (hh : bus.held = false)
    (h : (S.put (addr7 addr (flags ||| RT_I2C_RD)) (S.start bus.dev).2).1 = .ack)
    (ht : takes S (count.setWidth 16).toNat
      (S.put (addr7 addr (flags ||| RT_I2C_RD)) (S.start bus.dev).2).2 = some (bs, s')) :
    ∃ bus' : Bus σ, bus' = { bus with
        dev := s', held := true
        log := bus.log ++ (made (S.start bus.dev).1 .start ++
          .put (addr7 addr (flags ||| RT_I2C_RD)) .ack :: takeEvents bs) } ∧
      rtI2cMasterRecv (bytewise S) (some bus) addr flags buf count =
        .ok (count, bs ++ buf.drop bs.length,
          if has (flags ||| RT_I2C_RD) RT_I2C_NO_STOP then bus' else i2cStop S bus') := by
  have ha := xferAddress_ack S (mkMsg addr (flags ||| RT_I2C_RD) buf count) hs h10 hh h
  have hb := xferBytes_recv S (mkMsg addr (flags ||| RT_I2C_RD) buf count)
    { bus with
      dev := (S.put (addr7 addr (flags ||| RT_I2C_RD)) (S.start bus.dev).2).2, held := true
      log := bus.log ++ (made (S.start bus.dev).1 .start ++
        [.put (addr7 addr (flags ||| RT_I2C_RD)) .ack]) } hr hn rfl ht
  refine ⟨_, rfl, ?_⟩
  simp only [rtI2cMasterRecv, rtI2cTransfer, i2cBitXfer_one, xferMsg, ha]
  simp only [mkMsg] at hb ⊢
  simp [hb, result_one, pure, Except.pure, bind, Except.bind]

/-! ### Any answers -/

/-- Bytes on the bus, with their answers. -/
def sent (l : List (U8 × Answer)) : List Event := l.map fun p => .put p.1 p.2

/-- The bytes of the send loop are on the bus from the first one on, unless not a bit of that one
is clocked. -/
theorem sendLoop_sent (ign : Bool) : ∀ (bs : List U8) (n : ℤ) (bus : Bus σ),
    ∃ l, (sendLoop (bytewise S) ign bs n bus).2.log = bus.log ++ sent l ∧ l.map Prod.fst <+: bs ∧
      (l = [] ↔ ∀ b ∈ bs.head?, (S.put b bus.dev).1 = .timeout 0)
  | [], n, bus => ⟨[], by simp [sendLoop, sent]⟩
  | b :: bs, n, bus => by
    obtain ⟨l, hl, hp, -⟩ := sendLoop_sent ign bs (n + 1) ((bytewise S).writeb b bus).2
    by_cases h0 : (S.put b bus.dev).1 = .timeout 0
    · -- nothing is clocked, and the loop ends with the timeout
      exact ⟨[], by simp [sendLoop, i2cWriteb, h0, ret, clocked, RT_ETIMEOUT, sent]⟩
    · have hc : clocked b (S.put b bus.dev).1 = [.put b (S.put b bus.dev).1] := by
        cases h : (S.put b bus.dev).1 with
        | ack => rfl
        | nack => rfl
        | timeout k =>
          cases k
          · exact absurd h h0
          · rfl
      simp only [sendLoop]
      split_ifs
      · refine ⟨(b, (S.put b bus.dev).1) :: l, by rw [hl]; simp [i2cWriteb, sent, hc], ?_, ?_⟩
        · exact List.cons_prefix_cons.mpr ⟨rfl, hp⟩
        · simp [h0]
      · exact ⟨[(b, (S.put b bus.dev).1)], by simp [i2cWriteb, sent, hc, h0]⟩
      · exact ⟨[(b, (S.put b bus.dev).1)], by simp [i2cWriteb, sent, hc, h0]⟩

/-- **With `RT_I2C_NO_START` and a STOP at the end**, the bytes go out at once, whatever came
before, and the last thing done is the STOP, which is made or not. -/
theorem masterSend_noStart (addr flags : U16) (buf : List U8) (count : U32)
    (hs : has flags RT_I2C_NO_START = true) (hr : has flags RT_I2C_RD = false)
    (hp : has flags RT_I2C_NO_STOP = false) (bus : Bus σ) :
    ∃ r bus' l s, rtI2cMasterSend (bytewise S) (some bus) addr flags buf count = .ok (r, bus') ∧
      bus'.log = bus.log ++ sent l ++ made (S.stop s).1 .stop ∧ bus'.dev = (S.stop s).2 ∧
      l.map Prod.fst <+: buf.take (count.setWidth 16).toNat ∧
      (l = [] ↔ ∀ b ∈ (buf.take (count.setWidth 16).toNat).head?,
        (S.put b bus.dev).1 = .timeout 0) := by
  obtain ⟨l, hl, hp', hn⟩ := sendLoop_sent S (has flags RT_I2C_IGNORE_NACK)
    (buf.take (count.setWidth 16).toNat) 0 bus
  have hx : (xferMsg (bytewise S) 0 (mkMsg addr flags buf count) bus).2.2.log =
      bus.log ++ sent l := by
    rw [← hl]
    simp [xferMsg, xferAddress, hs, xferBytes, hr, i2cSendBytes, mkMsg]
  refine ⟨_, _, l, (xferMsg (bytewise S) 0 (mkMsg addr flags buf count) bus).2.2.dev, rfl, ?_, ?_,
    hp', hn⟩
  · rw [← hx]
    simp [i2cBitXfer_one, hp, i2cStop, mkMsg]
  · simp [i2cBitXfer_one, hp, i2cStop, mkMsg]

/-! ### The tries of `i2c_send_address` -/

/-- The state after a failed try: the byte, a STOP and a START, the last two made or not. -/
def retried (a : U8) (s : σ) : σ := (S.start (S.stop (S.put a s).2).2).2

/-- What a failed try puts on the bus before its new START. -/
def failed (a : U8) (s : σ) : List Event :=
  clocked a (S.put a s).1 ++ made (S.stop (S.put a s).2).1 .stop

/-- Whether a START was made for the next try. -/
def restarted (a : U8) (s : σ) : Bool := (S.start (S.stop (S.put a s).2).2).1

/-- The state once the address byte is acknowledged within `n` retries, if it is, and whether it
came right after a START; `st` says so of the first try. -/
def addressed (a : U8) : ℕ → Bool → σ → Option (Bool × σ)
  | 0, st, s => if (S.put a s).1 = .ack then some (st, (S.put a s).2) else none
  | n + 1, st, s =>
    if (S.put a s).1 = .ack then some (st, (S.put a s).2)
    else addressed a n (restarted S a s || (st && failed S a s = [])) (retried S a s)

/-- The events of the tries, from after the first START on. -/
def tries (a : U8) : ℕ → σ → List Event
  | 0, s => clocked a (S.put a s).1
  | n + 1, s =>
    if (S.put a s).1 = .ack then [.put a .ack]
    else failed S a s ++ made (restarted S a s) .start ++ tries a n (retried S a s)

theorem ret_eq_one {a : Answer} : ret a = 1 ↔ a = .ack := by
  cases a <;> simp [ret, RT_ETIMEOUT]

/-- **`i2c_send_address` makes the tries**, and returns `1` exactly when one is answered. -/
theorem i2cSendAddress_tries (a : U8) : ∀ (n : ℕ) (st : Bool) (bus : Bus σ),
    (i2cSendAddress (bytewise S) a n bus).2.log = bus.log ++ tries S a n bus.dev ∧
    ((i2cSendAddress (bytewise S) a n bus).1 = 1 ↔ (addressed S a n st bus.dev).isSome) ∧
    ∀ r, addressed S a n st bus.dev = some r → (i2cSendAddress (bytewise S) a n bus).2.dev = r.2
  | 0, st, bus => by
    simp only [i2cSendAddress, bytewise_writeb, i2cWriteb, tries, addressed, ret_eq_one]
    by_cases h : (S.put a bus.dev).1 = .ack <;> simp [h]
  | n + 1, st, bus => by
    simp only [i2cSendAddress, bytewise_writeb, bytewise_start, bytewise_stop, i2cWriteb, tries,
      addressed, ret_eq_one]
    by_cases h : (S.put a bus.dev).1 = .ack
    · simp [h, ret]
    · obtain ⟨h1, h2, h3⟩ := i2cSendAddress_tries a n
        (restarted S a bus.dev || (st && failed S a bus.dev = []))
        (i2cStart S (i2cStop S (i2cWriteb S a bus).2))
      simp only [h, if_false]
      refine ⟨?_, h2, h3⟩
      rw [show (i2cWriteb S a bus).2 = _ from rfl] at h1
      refine h1.trans ?_
      simp [i2cStart, i2cStop, i2cWriteb, failed, restarted, retried]

theorem xferAddress_tries (msg : Msg) {bus : Bus σ} (hs : has msg.flags RT_I2C_NO_START = false)
    (h10 : has msg.flags RT_I2C_ADDR_10BIT = false)
    (hi : has msg.flags RT_I2C_IGNORE_NACK = false) (hh : bus.held = false) :
    ∃ e, xferAddress (bytewise S) 0 msg bus = (e, (i2cSendAddress (bytewise S)
        (addr7 msg.addr msg.flags) bus.retries (i2cStart S bus)).2) ∧
      (e = none ↔ (addressed S (addr7 msg.addr msg.flags) bus.retries (S.start bus.dev).1
        (S.start bus.dev).2).isSome) := by
  have hb := i2cStart_released S hh
  obtain ⟨-, h1, -⟩ := i2cSendAddress_tries S (addr7 msg.addr msg.flags) bus.retries
    (S.start bus.dev).1 (i2cStart S bus)
  rw [hb, emit_dev, ← hb] at h1
  have hr : (i2cStart S bus).retries = bus.retries := by rw [hb, emit_retries]
  simp only [xferAddress, hs, Bool.false_eq_true, if_false, ne_eq, not_true_eq_false,
    bytewise_start, i2cBitSendAddress, h10, hi, bytewise_retries, hr, Bool.not_false, and_true,
    ← h1]
  by_cases h : (i2cSendAddress (bytewise S) (addr7 msg.addr msg.flags) bus.retries
      (i2cStart S bus)).1 = 1 <;> simp [h, RT_EOK, RT_EIO]

theorem masterSend_open (addr flags : U16) {b : U8} {bus : Bus σ}
    (hs : has flags RT_I2C_NO_START = false) (h10 : has flags RT_I2C_ADDR_10BIT = false)
    (hi : has flags RT_I2C_IGNORE_NACK = false) (hr : has flags RT_I2C_RD = false)
    (hp : has flags RT_I2C_NO_STOP = true) (hh : bus.held = false) :
    ∃ r bus', rtI2cMasterSend (bytewise S) (some bus) addr flags [b] 1 = .ok (r, bus') ∧
      bus'.log = bus.log ++ (made (S.start bus.dev).1 .start ++
        tries S (addr7 addr flags) bus.retries (S.start bus.dev).2 ++
        (match addressed S (addr7 addr flags) bus.retries (S.start bus.dev).1
            (S.start bus.dev).2 with
        | none => []
        | some r => clocked b (S.put b r.2).1)) := by
  obtain ⟨e, hx, he⟩ := xferAddress_tries S (mkMsg addr flags [b] 1) hs h10 hi hh
  obtain ⟨hlog, -, hdev⟩ := i2cSendAddress_tries S (addr7 addr flags) bus.retries
    (S.start bus.dev).1 (i2cStart S bus)
  have hb := i2cStart_released S hh
  rw [hb, emit_dev, emit_log, ← hb] at hlog
  rw [hb, emit_dev, ← hb] at hdev
  simp only [mkMsg] at hx he
  refine ⟨_, _, rfl, ?_⟩
  simp only [i2cBitXfer_one, mkMsg, hp, if_true, xferMsg, hx]
  rcases ha : addressed S (addr7 addr flags) bus.retries (S.start bus.dev).1
    (S.start bus.dev).2 with _ | r
  · -- never answered: `goto out`, and no STOP there
    rw [ha] at he
    obtain ⟨v, rfl⟩ := Option.ne_none_iff_exists'.mp (fun h => by simpa using he.mp h)
    simp [hlog]
  · -- answered: the byte goes out
    rw [ha] at he
    obtain rfl : e = none := he.mpr rfl
    have hs := hdev r ha
    simp only [xferBytes, hr, Bool.false_eq_true, if_false, i2cSendBytes]
    change (sendLoop (bytewise S) _ [b] 0 _).2.log = _
    rw [sendLoop, apply_ite Prod.snd, apply_ite Bus.log]
    simp [i2cWriteb, sendLoop, apply_ite Prod.snd, hlog, hs]

end RtosExample.I2c.Transfer
