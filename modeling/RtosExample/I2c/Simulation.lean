import RtosExample.I2c.Core

/-! # Two drivers on primitives that do the same

`Sim A B R`: the primitives `A` and `B` return the same and keep the relation `R` between their
buses. Then so does all that is written in them: one lemma for each function of the driver, up to a
transfer (`Sim.i2cBitXfer`) and the two calls of the core (`Sim.rtI2cMasterSend`,
`Sim.rtI2cMasterRecv`). -/

namespace RtosExample.I2c.Simulation

open RtosExample.Cint RtosExample.I2c.BitOps RtosExample.I2c.Core

variable {α β : Type}

/-- The same value, and related buses. -/
def Agree {γ : Type} (R : α → β → Prop) (x : γ × α) (y : γ × β) : Prop := x.1 = y.1 ∧ R x.2 y.2

/-- **The primitives do the same on related buses.** The ninth clock is only asked for after a byte
clocked in. -/
structure Sim (A : Prims α) (B : Prims β) (R : α → β → Prop) : Prop where
  retries : ∀ {a b}, R a b → A.retries a = B.retries b
  start : ∀ {a b}, R a b → R (A.start a) (B.start b)
  restart : ∀ {a b}, R a b → R (A.restart a) (B.restart b)
  stop : ∀ {a b}, R a b → R (A.stop a) (B.stop b)
  writeb : ∀ d {a b}, R a b → Agree R (A.writeb d a) (B.writeb d b)
  readb : ∀ {a b}, R a b → Agree R (A.readb a) (B.readb b)
  reply : ∀ n {a b}, R a b → 0 ≤ (A.readb a).1 →
    Agree R (A.sendAckOrNack n (A.readb a).2) (B.sendAckOrNack n (B.readb b).2)

namespace Sim

variable {A : Prims α} {B : Prims β} {R : α → β → Prop} (h : Sim A B R)
include h

theorem sendLoop (ign : Bool) : ∀ (bs : List U8) (n : ℤ) {a : α} {b : β}, R a b →
    Agree R (sendLoop A ign bs n a) (sendLoop B ign bs n b)
  | [], n, _, _, hr => ⟨rfl, hr⟩
  | d :: bs, n, a, b, hr => by
    obtain ⟨he, hr'⟩ := h.writeb d hr
    simp only [BitOps.sendLoop, he]
    split_ifs
    · exact sendLoop ign bs (n + 1) hr'
    · exact ⟨rfl, hr'⟩
    · exact ⟨rfl, hr'⟩

theorem recvLoop (flags : U16) : ∀ (count : ℕ) (n : ℤ) (stored : List U8) {a : α} {b : β}, R a b →
    (recvLoop A flags count n stored a).1 = (recvLoop B flags count n stored b).1 ∧
      Agree R (recvLoop A flags count n stored a).2 (recvLoop B flags count n stored b).2
  | 0, n, stored, _, _, hr => ⟨rfl, rfl, hr⟩
  | count + 1, n, stored, a, b, hr => by
    obtain ⟨he, hr'⟩ := h.readb hr
    by_cases hv : (A.readb a).1 ≥ 0
    · obtain ⟨hw, hr''⟩ := h.reply count hr hv
      have hb : (B.readb b).1 ≥ 0 := he ▸ hv
      simp only [BitOps.recvLoop, he, if_pos hb, hw]
      split_ifs
      · exact recvLoop flags count _ _ hr'
      · exact ⟨rfl, rfl, hr''⟩
      · exact recvLoop flags count _ _ hr''
    · have hb : ¬ (B.readb b).1 ≥ 0 := he ▸ hv
      simp only [BitOps.recvLoop, he, if_neg hb]
      exact ⟨trivial, rfl, hr'⟩

theorem i2cSendAddress (addr : U8) : ∀ (n : ℕ) {a : α} {b : β}, R a b →
    Agree R (i2cSendAddress A addr n a) (i2cSendAddress B addr n b)
  | 0, _, _, hr => h.writeb addr hr
  | n + 1, a, b, hr => by
    obtain ⟨he, hr'⟩ := h.writeb addr hr
    simp only [BitOps.i2cSendAddress, he]
    split_ifs
    · exact ⟨he, hr'⟩
    · exact i2cSendAddress addr n (h.start (h.stop hr'))

theorem i2cBitSendAddress (msg : Msg) {a : α} {b : β} (hr : R a b) :
    Agree R (i2cBitSendAddress A msg a) (i2cBitSendAddress B msg b) := by
  simp only [BitOps.i2cBitSendAddress, h.retries hr]
  generalize (if has msg.flags RT_I2C_IGNORE_NACK then 0 else B.retries b) = n
  by_cases h10 : has msg.flags RT_I2C_ADDR_10BIT = true
  · -- 10 bits: two bytes, and for reading the first one again after a repeated START
    have h₁ := fun d => h.i2cSendAddress d n hr
    have h₂ := fun d d' => h.writeb d' (h₁ d).2
    have h₃ := fun d d' d'' => h.i2cSendAddress d'' n (h.restart (h₂ d d').2)
    simp only [h10, if_true, (h₁ _).1, (h₂ _ _).1, (h₃ _ _ _).1]
    split_ifs
    · exact ⟨rfl, (h₁ _).2⟩
    · exact ⟨rfl, (h₂ _ _).2⟩
    · exact ⟨rfl, (h₃ _ _ _).2⟩
    · exact ⟨rfl, (h₃ _ _ _).2⟩
    · exact ⟨rfl, (h₂ _ _).2⟩
  · obtain ⟨he, hr₁⟩ := h.i2cSendAddress (addr7 msg.addr msg.flags) n hr
    simp only [h10, Bool.false_eq_true, if_false, he]
    split_ifs <;> exact ⟨rfl, hr₁⟩

theorem xferAddress (i : ℕ) (msg : Msg) {a : α} {b : β} (hr : R a b) :
    Agree R (xferAddress A i msg a) (xferAddress B i msg b) := by
  have hs : R (if i ≠ 0 then A.restart a else A.start a)
      (if i ≠ 0 then B.restart b else B.start b) := by
    split_ifs
    exacts [h.restart hr, h.start hr]
  simp only [BitOps.xferAddress]
  generalize (if i ≠ 0 then A.restart a else A.start a) = a' at hs ⊢
  generalize (if i ≠ 0 then B.restart b else B.start b) = b' at hs ⊢
  obtain ⟨he, hr'⟩ := h.i2cBitSendAddress msg hs
  rw [he]
  split_ifs
  exacts [⟨rfl, hr⟩, ⟨rfl, hr'⟩, ⟨rfl, hr'⟩]

theorem xferBytes (msg : Msg) {a : α} {b : β} (hr : R a b) :
    (xferBytes A msg a).1 = (xferBytes B msg b).1 ∧
      Agree R (xferBytes A msg a).2 (xferBytes B msg b).2 := by
  by_cases hrd : has msg.flags RT_I2C_RD = true
  · obtain ⟨he, hs, hr'⟩ := h.recvLoop msg.flags msg.len.toNat 0 [] hr
    simp only [BitOps.xferBytes, i2cRecvBytes, hrd, if_true, he, hs]
    exact ⟨rfl, rfl, hr'⟩
  · obtain ⟨he, hr'⟩ := h.sendLoop (has msg.flags RT_I2C_IGNORE_NACK)
      (msg.buf.take msg.len.toNat) 0 hr
    simp only [BitOps.xferBytes, i2cSendBytes, hrd, Bool.false_eq_true, if_false, he]
    exact ⟨rfl, rfl, hr'⟩

theorem xferMsg (i : ℕ) (msg : Msg) {a : α} {b : β} (hr : R a b) :
    (xferMsg A i msg a).1 = (xferMsg B i msg b).1 ∧
      Agree R (xferMsg A i msg a).2 (xferMsg B i msg b).2 := by
  obtain ⟨he, hr'⟩ := h.xferAddress i msg hr
  simp only [BitOps.xferMsg]
  rcases hA : BitOps.xferAddress A i msg a with ⟨eA, a'⟩
  rcases hB : BitOps.xferAddress B i msg b with ⟨eB, b'⟩
  rw [hA, hB] at he hr'
  obtain rfl : eA = eB := he
  rcases eA with _ | e
  · exact h.xferBytes msg hr'
  · exact ⟨rfl, rfl, hr'⟩

theorem xferLoop : ∀ (ms : List Msg) (i : ℕ) (msg : Msg) {a : α} {b : β}, R a b →
    (xferLoop A i msg ms a).1 = (xferLoop B i msg ms b).1 ∧
      (xferLoop A i msg ms a).2.1 = (xferLoop B i msg ms b).2.1 ∧
      Agree R (xferLoop A i msg ms a).2.2 (xferLoop B i msg ms b).2.2
  | [], i, msg, a, b, hr => by
    obtain ⟨he, hm, hr'⟩ := h.xferMsg i msg hr
    simp only [BitOps.xferLoop, he, hm]
    exact ⟨trivial, trivial, rfl, hr'⟩
  | m :: ms, i, msg, a, b, hr => by
    obtain ⟨he, hm, hr'⟩ := h.xferMsg i msg hr
    simp only [BitOps.xferLoop]
    rcases hA : BitOps.xferMsg A i msg a with ⟨eA, mA, a'⟩
    rcases hB : BitOps.xferMsg B i msg b with ⟨eB, mB, b'⟩
    rw [hA, hB] at he hm hr'
    obtain rfl : eA = eB := he
    obtain rfl : mA = mB := hm
    rcases eA with _ | e
    · obtain ⟨h1, h2, h3⟩ := xferLoop ms (i + 1) m hr'
      exact ⟨h1, congrArg (mA :: ·) h2, h3⟩
    · exact ⟨rfl, rfl, rfl, hr'⟩

/-- **The two drivers do the same**: they return the same, leave the same messages and related
buses. -/
theorem i2cBitXfer (msgs : List Msg) {a : α} {b : β} (hr : R a b) :
    (i2cBitXfer A msgs a).1 = (i2cBitXfer B msgs b).1 ∧
      Agree R (i2cBitXfer A msgs a).2 (i2cBitXfer B msgs b).2 := by
  rcases msgs with _ | ⟨m, ms⟩
  · exact ⟨rfl, rfl, hr⟩
  · obtain ⟨he, hs, hm, hr'⟩ := h.xferLoop ms 0 m hr
    simp only [BitOps.i2cBitXfer, he, hs, hm]
    refine ⟨trivial, rfl, ?_⟩
    split_ifs
    exacts [hr', h.stop hr']

theorem rtI2cMasterSend (addr flags : U16) (buf : List U8) (count : U32) {a : α} {b : β}
    (hr : R a b) : ∃ r a' b', rtI2cMasterSend A (some a) addr flags buf count = .ok (r, a') ∧
      rtI2cMasterSend B (some b) addr flags buf count = .ok (r, b') ∧ R a' b' := by
  obtain ⟨he, -, hr'⟩ := h.i2cBitXfer [mkMsg addr flags buf count] hr
  refine ⟨_, _, _, rfl, ?_, hr'⟩
  rw [he]
  rfl

theorem rtI2cMasterRecv (addr flags : U16) (buf : List U8) (count : U32) {a : α} {b : β}
    (hr : R a b) : ∃ r buf' a' b',
      rtI2cMasterRecv A (some a) addr flags buf count = .ok (r, buf', a') ∧
      rtI2cMasterRecv B (some b) addr flags buf count = .ok (r, buf', b') ∧ R a' b' := by
  obtain ⟨he, hm, hr'⟩ := h.i2cBitXfer [mkMsg addr (flags ||| RT_I2C_RD) buf count] hr
  refine ⟨_, _, _, _, rfl, ?_, hr'⟩
  rw [he, hm]
  rfl

end Sim

end RtosExample.I2c.Simulation
