import RtosExample.Kernel.Calls
import RtosExample.Kernel.System
import RtosExample.Kernel.Tick

/-! # What holds in every state of the system

`Ledger` ties what the threads are in the middle of to what the kernel has on its books: who waits
for which mutex, whose timer runs, who owns what, and what a call will return. It is made of a
condition for each thread, on what the kernel and the history know of it (`Seat`), and one for each
mutex, so that a step has to account for the few it touches.

`seat_plain`, `seat_parked`, `seat_woken`, `seat_given` and `seat_closed` are what may become of the
books on a thread, and `tick_ledger` is what the tick does to those of the system. -/

namespace RtosExample.Kernel.Books

open RtosExample.Cint RtosExample.Lib.Queue RtosExample.Kernel.TimerList
open RtosExample.Kernel.Deadlines RtosExample.Kernel.Sched RtosExample.Kernel.Mutex
open RtosExample.Kernel.ReadyQueue RtosExample.Kernel.Dispatch RtosExample.Kernel.Effects
open RtosExample.Kernel.Invariant RtosExample.Kernel.Tick RtosExample.Kernel.Calls
open RtosExample.Kernel.System

variable {τ μ : Type}

/-! ### The books on a thread -/

/-- The call a thread is in the middle of. -/
def Pc.call : Pc τ μ → Option (Call τ μ)
  | .user => none
  | .sched c => some c
  | .after c => some c

/-- The mutex a call is about to get. -/
def aim : Call τ μ → Option μ
  | .take m _ => some m
  | _ => none

/-- What is known of a thread. -/
structure Seat (τ μ : Type) where
  level : Stat
  error : ℤ
  busy : Option (Call τ μ)
  waits : μ → Prop
  armed : Prop
  owns : μ → ℕ
  depth : μ → ℕ

/-- What the state of a thread says about the call it is in the middle of. -/
def Fits : Stat → Option (Call τ μ) → Prop
  | .init, b => b = none
  | .suspend, b => ∃ c, b = some c ∧ ((∃ m time, c = .take m time) ∨ ∃ n, c = .sleep n)
  | .close, b => b = some .exit
  | .ready, b => b ≠ some .exit
  | .running, _ => False

/-- **The books on a thread are in order.** -/
structure SeatOk (v : Seat τ μ) : Prop where
  fits : Fits v.level v.busy
  unborn : v.level = .init → ∀ m, v.owns m = 0
  waits : ∀ m, v.waits m ↔ v.level = .suspend ∧ v.busy.bind aim = some m
  armed : v.armed ↔ v.level = .suspend ∧ (v.busy.bind Call.ticks).isSome
  taking : ∀ m time, v.busy = some (.take m time) →
    (v.level = .suspend → v.error = RT_EOK ∧ v.owns m = 0) ∧
    (v.level = .ready → v.error = RT_EOK ∧ v.owns m = 1 ∨
      v.error = -RT_ETIMEOUT ∧ v.owns m = 0 ∧ 0 < time)
  sleeping : ∀ n, v.busy = some (.sleep n) →
    (v.level = .suspend → v.error = RT_EOK) ∧ (v.level = .ready → v.error = -RT_ETIMEOUT)
  aimed : ∀ m, v.busy.bind aim = some m → v.depth m = 0
  depth : ∀ m, v.busy.bind aim ≠ some m → v.depth m = v.owns m

theorem SeatOk.taking_of_waits {v : Seat τ μ} {m : μ} (h : SeatOk v) (hw : v.waits m) :
    v.level = .suspend ∧ ∃ time, v.busy = some (.take m time) := by
  obtain ⟨hl, haim⟩ := (h.waits m).mp hw
  obtain ⟨call, hb, hm⟩ := Option.bind_eq_some_iff.mp haim
  refine ⟨hl, ?_⟩
  cases call with
  | take m' time =>
    obtain rfl : m' = m := by simpa [aim] using hm
    exact ⟨time, hb⟩
  | _ => cases hm

/-- A thread that can run is not in the middle of a call, or of one that has done what it was to. -/
def Plain : Option (Call τ μ) → Prop
  | some (.take _ _) => False
  | some (.sleep _) => False
  | some .exit => False
  | _ => True

theorem seat_plain {v : Seat τ μ} (hb : Plain v.busy) (hl : v.level = .ready)
    (hw : ∀ m, ¬ v.waits m) (ha : ¬ v.armed) (hd : ∀ m, v.depth m = v.owns m) : SeatOk v where
  fits := by
    rw [hl]
    intro he
    rw [he] at hb
    exact hb
  unborn hi := by
    rw [hl] at hi
    exact absurd hi (by decide)
  waits m := by
    rw [hl]
    exact iff_of_false (hw m) fun h => absurd h.1 (by decide)
  armed := by
    rw [hl]
    exact iff_of_false ha fun h => absurd h.1 (by decide)
  taking m time h := by
    rw [h] at hb
    exact absurd hb id
  sleeping n h := by
    rw [h] at hb
    exact absurd hb id
  aimed m h := by
    obtain ⟨c, hc, hm⟩ := Option.bind_eq_some_iff.mp h
    rw [hc] at hb
    cases c <;> simp [aim, Plain] at hm hb
  depth m _ := hd m

/-- A thread that has not been started. -/
theorem seat_unborn {v : Seat τ μ} (hb : v.busy = none) (hl : v.level = .init)
    (hw : ∀ m, ¬ v.waits m) (ha : ¬ v.armed) (hown : ∀ m, v.owns m = 0)
    (hd : ∀ m, v.depth m = 0) : SeatOk v where
  fits := by
    rw [hl]
    exact hb
  unborn _ := hown
  waits m := by
    rw [hl]
    exact iff_of_false (hw m) fun hx => absurd hx.1 (by decide)
  armed := by
    rw [hl]
    exact iff_of_false ha fun hx => absurd hx.1 (by decide)
  taking m time hx := by
    rw [hb] at hx
    cases hx
  sleeping n hx := by
    rw [hb] at hx
    cases hx
  aimed m _ := hd m
  depth m _ := (hd m).trans (hown m).symm

theorem seat_closed {v : Seat τ μ} (hb : v.busy = some .exit) (hl : v.level = .close)
    (hw : ∀ m, ¬ v.waits m) (ha : ¬ v.armed) (hd : ∀ m, v.depth m = v.owns m) : SeatOk v where
  fits := by
    rw [hl, hb]
    rfl
  unborn hi := by
    rw [hl] at hi
    exact absurd hi (by decide)
  waits m := by
    rw [hl]
    exact iff_of_false (hw m) fun hx => absurd hx.1 (by decide)
  armed := by
    rw [hl]
    exact iff_of_false ha fun hx => absurd hx.1 (by decide)
  taking m time hx := by
    rw [hb] at hx
    cases hx
  sleeping n hx := by
    rw [hb] at hx
    cases hx
  aimed m hx := by
    rw [hb] at hx
    cases hx
  depth m _ := hd m

/-- **The caller waits.** Its books while it does. -/
theorem seat_parked {v : Seat τ μ} {call : Call τ μ} (hb : v.busy = some call)
    (hcall : (∃ m time, call = .take m time) ∨ ∃ n, call = .sleep n) (hl : v.level = .suspend)
    (he : v.error = RT_EOK) (hw : ∀ m, v.waits m ↔ aim call = some m)
    (ha : v.armed ↔ call.ticks.isSome) (hown : ∀ m, aim call = some m → v.owns m = 0)
    (hd : ∀ m, v.depth m = v.owns m) : SeatOk v where
  fits := by
    rw [hl]
    exact ⟨call, hb, hcall⟩
  unborn hi := by
    rw [hl] at hi
    exact absurd hi (by decide)
  waits m := by
    rw [hb, hw, hl]
    simp
  armed := by
    rw [hb, ha, hl]
    simp
  taking m time hx := by
    rw [hb] at hx
    obtain rfl := Option.some.inj hx
    refine ⟨fun _ => ⟨he, hown m rfl⟩, fun hr => ?_⟩
    rw [hl] at hr
    exact absurd hr (by decide)
  sleeping n hx := by
    refine ⟨fun _ => he, fun hr => ?_⟩
    rw [hl] at hr
    exact absurd hr (by decide)
  aimed m hx := by
    rw [hb] at hx
    rw [hd, hown m (by simpa using hx)]
  depth m _ := hd m

theorem seat_woken {v v' : Seat τ μ} (h : SeatOk v) (ha : v.armed) (hl : v.level = .suspend)
    (hl' : v'.level = .ready) (he : v'.error = -RT_ETIMEOUT) (hb : v'.busy = v.busy)
    (hw : ∀ m, ¬ v'.waits m) (ha' : ¬ v'.armed) (ho : v'.owns = v.owns) (hd : v'.depth = v.depth) :
    SeatOk v' where
  fits := by
    have hf := h.fits
    rw [hl] at hf
    obtain ⟨c, hc, hcc⟩ := hf
    rw [hl', hb, hc]
    rintro heq
    obtain rfl := Option.some.inj heq
    rcases hcc with ⟨m, time, hcc⟩ | ⟨n, hcc⟩ <;> cases hcc
  unborn hi := by
    rw [hl'] at hi
    exact absurd hi (by decide)
  waits m := by
    rw [hl']
    exact iff_of_false (hw m) fun hx => absurd hx.1 (by decide)
  armed := by
    rw [hl']
    exact iff_of_false ha' fun hx => absurd hx.1 (by decide)
  taking m time hx := by
    rw [hb] at hx
    rw [hl', he, ho]
    refine ⟨fun hx => absurd hx (by decide), fun _ => Or.inr ⟨rfl, ?_, ?_⟩⟩
    · exact ((h.taking m time hx).1 hl).2
    · have hsome := (h.armed.mp ha).2
      rw [hx] at hsome
      by_contra hneg
      simp [Call.ticks, hneg] at hsome
  sleeping n hx := by
    rw [hl', he]
    exact ⟨fun hx => absurd hx (by decide), fun _ => rfl⟩
  aimed m hx := by
    rw [hb] at hx
    rw [hd]
    exact h.aimed m hx
  depth m hx := by
    rw [hb] at hx
    rw [hd, ho]
    exact h.depth m hx

theorem seat_given {v v' : Seat τ μ} {m : μ} (h : SeatOk v) (hw : v.waits m)
    (hl' : v'.level = .ready) (he : v'.error = v.error) (hb : v'.busy = v.busy)
    (hw' : ∀ m, ¬ v'.waits m) (ha : ¬ v'.armed) (hone : v'.owns m = 1)
    (ho : ∀ m', m' ≠ m → v'.owns m' = v.owns m') (hd : v'.depth = v.depth) : SeatOk v' := by
  obtain ⟨hl, time, hcall⟩ := h.taking_of_waits hw
  have haim := ((h.waits m).mp hw).2
  refine ⟨?_, fun hi => ?_, fun m' => ?_, ?_, fun m' time' hx => ?_, fun n hx => ?_, fun m' hx => ?_,
    fun m' hx => ?_⟩
  · rw [hl', hb, hcall]
    exact nofun
  · rw [hl'] at hi
    exact absurd hi (by decide)
  · rw [hl']
    exact iff_of_false (hw' m') fun hx => absurd hx.1 (by decide)
  · rw [hl']
    exact iff_of_false ha fun hx => absurd hx.1 (by decide)
  · rw [hb, hcall] at hx
    obtain ⟨rfl, rfl⟩ := Call.take.inj (Option.some.inj hx)
    rw [hl', he]
    exact ⟨fun hx => absurd hx (by decide),
      fun _ => Or.inl ⟨((h.taking m time hcall).1 hl).1, hone⟩⟩
  · rw [hb, hcall] at hx
    cases hx
  · rw [hb] at hx
    rw [hd]
    exact h.aimed m' hx
  · rw [hb] at hx
    rw [hd, ho m' fun he => hx (he ▸ haim)]
    exact h.depth m' hx

/-! ### The books on a mutex -/

/-- **The books on a mutex are in order**, where `waiting` is the list of those who wait. -/
def MutexOk (x : Mutex τ) (waiting : List τ) : Prop :=
  match x.owner with
  | none => x = mutexInit ∧ waiting = []
  | some _ => x.value = 0 ∧ x.hold ≠ 0 ∧ x.originalPriority.toNat < 32

theorem mutexOk_init : MutexOk (mutexInit : Mutex τ) [] := ⟨rfl, rfl⟩

variable [DecidableEq τ] [DecidableEq μ]

/-- How often a thread holds a mutex. -/
def owns (x : Mutex τ) (t : τ) : ℕ := if x.owner = some t then x.hold.toNat else 0

def seat (s : Sys τ μ) (t : τ) : Seat τ μ where
  level := lvl s.os t
  error := (s.os.thread t).error
  busy := Pc.call (s.pc t)
  waits m := t ∈ s.os.waiting m
  armed := t ∈ s.os.timers.list
  owns m := owns (s.os.mutex m) t
  depth m := depth t m s.history

/-- **The system is in order.** -/
structure Ledger (idle : τ) (s : Sys τ μ) : Prop where
  sound : Sound idle s.clock s.clock s.deadline s.os
  expiring : s.os.timers.expiring = []
  current : ∀ c, s.os.current = some c → lvl s.os c = .ready ∨ ∃ call, s.pc c = .sched call
  seats : ∀ t, SeatOk (seat s t)
  mutexes : ∀ m, MutexOk (s.os.mutex m) (s.os.waiting m)

variable {idle c t : τ} {s s' : Sys τ μ}

omit [DecidableEq τ] [DecidableEq μ] in
theorem mutexOk_mono {x : Mutex τ} {l l' : List τ} (h : MutexOk x l) (hl : l'.Sublist l) :
    MutexOk x l' := by
  unfold MutexOk at *
  split at h
  · rw [h.2] at hl
    exact ⟨h.1, List.sublist_nil.mp hl⟩
  · exact h

omit [DecidableEq μ] in
theorem owns_pos {x : Mutex τ} {l : List τ} (h : MutexOk x l) :
    owns x t ≠ 0 ↔ x.owner = some t := by
  unfold owns
  split_ifs with ho
  · simp only [MutexOk, ho] at h
    exact iff_of_true (fun hz => h.2.1 (BitVec.eq_of_toNat_eq hz)) ho
  · exact iff_of_false (by simp) ho

omit [DecidableEq τ] [DecidableEq μ] in
theorem mutexOk_some {x : Mutex τ} {l : List τ} (h : MutexOk x l) (ho : x.owner = some t) :
    x.value = 0 ∧ x.hold ≠ 0 ∧ x.originalPriority.toNat < 32 := by
  simpa only [MutexOk, ho] using h

omit [DecidableEq τ] [DecidableEq μ] in
theorem mutexOk_none {x : Mutex τ} {l : List τ} (h : MutexOk x l) (ho : x.owner = none) :
    x = mutexInit ∧ l = [] := by
  simpa only [MutexOk, ho] using h

/-! ### The tick -/

theorem rouses_seats {P : τ → Prop} {k : Os τ μ} (h : ∀ t, SeatOk (seat s t))
    (hr : Rouses P s.os k) (hP : ∀ t, P t → t ∈ s.os.timers.list) (hos : s'.os = k)
    (hpc : ∀ t, Pc.call (s'.pc t) = Pc.call (s.pc t)) (hh : s'.history = s.history) (t : τ) :
    SeatOk (seat s' t) := by
  have hown : (seat s' t).owns = (seat s t).owns := by
    simp only [seat, hos, hr.mutex]
  have hdep : (seat s' t).depth = (seat s t).depth := by
    simp only [seat, hh]
  by_cases ht : P t
  · obtain ⟨hl, hl', he⟩ := hr.woken t ht
    refine seat_woken (h t) (hP t ht) hl ?_ ?_ (hpc t) (fun m hm => ?_) (fun hm => ?_) hown hdep
    · simp only [seat, hos, hl']
    · simp only [seat, hos, he]
    · simp only [seat, hos] at hm
      exact (((hr.waiting m).2 t).mp hm).2 ht
    · simp only [seat, hos] at hm
      exact ((hr.list t).mp hm).2 ht
  · obtain ⟨hl, he⟩ := hr.same t ht
    have hsame : seat s' t = seat s t := by
      simp only [seat, hos, hl, he, hr.mutex, hh, hpc]
      congr 1
      · funext m
        exact propext (((hr.waiting m).2 t).trans (and_iff_left ht))
      · exact propext ((hr.list t).trans (and_iff_left ht))
    rw [hsame]
    exact h t

theorem tick_ledger (h : Ledger idle s) : ∃ s', step .tick s = some s' ∧ Ledger idle s' ∧
    s'.pc = s.pc ∧ s'.history = s.history ∧ s'.clock = s.clock + 1 ∧ s'.deadline = s.deadline ∧
    Rouses (fun t => t ∈ s.os.timers.list ∧ s.deadline t ≤ s.clock + 1) s.os s'.os := by
  obtain ⟨k, hk, hs, he, hr⟩ := tick_sound h.sound h.expiring
  refine ⟨{ s with os := k, clock := s.clock + 1 }, ?_, ⟨hs, he, fun c hc => ?_,
    rouses_seats h.seats hr (fun t ht => ht.1) rfl (fun _ => rfl) rfl,
    fun m => ?_⟩, rfl, rfl, rfl, rfl, hr⟩
  · simp only [step, hk, Option.map_some]
  · rcases hr.current with hcur | ⟨-, c', hc', hl⟩
    · rcases h.current c (hcur ▸ hc) with hl | hp
      · left
        by_contra hn
        by_cases hP : c ∈ s.os.timers.list ∧ s.deadline c ≤ s.clock + 1
        · exact hn (hr.woken c hP).2.1
        · exact hn ((hr.same c hP).1.trans hl)
      · exact Or.inr hp
    · left
      obtain rfl := Option.some.inj (hc'.symm.trans hc)
      exact hl
  · change MutexOk (k.mutex m) (k.waiting m)
    rw [hr.mutex]
    exact mutexOk_mono (h.mutexes m) (hr.waiting m).1

end RtosExample.Kernel.Books
