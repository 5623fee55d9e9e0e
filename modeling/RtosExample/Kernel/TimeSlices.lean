import RtosExample.Kernel.Service
import RtosExample.Lib.RoundRobin

/-! # Time slices

Threads of one priority that have nothing but work to do, while no thread of a higher one is ready
and no timer runs out: the kernel refines `Lib.RoundRobin` (`turn_run`), so each has the processor
for its time slice, in the order of the ready list (`round_robin`). -/

namespace RtosExample.Kernel.TimeSlices

open RtosExample.Cint RtosExample.Lib.Runs RtosExample.Lib.RoundRobin
open RtosExample.Kernel.TimerList RtosExample.Kernel.Deadlines RtosExample.Kernel.Sched
open RtosExample.Kernel.ReadyQueue RtosExample.Kernel.Dispatch RtosExample.Kernel.Effects
open RtosExample.Kernel.Invariant RtosExample.Kernel.Tick RtosExample.Kernel.System
open RtosExample.Kernel.Books RtosExample.Kernel.Bookkeeping RtosExample.Kernel.Steps
open RtosExample.Kernel.Service

variable {τ μ : Type} [DecidableEq τ]

/-- After how many ticks a time slice is over, with `remaining_tick` as given; it is decremented
before it is compared with 0. -/
def slot (remaining : U32) : ℕ := (remaining - 1).toNat + 1

/-- The time slice of a thread. -/
def quantum (k : Os τ μ) (t : τ) : ℕ := slot (k.thread t).initTick

/-- **The threads of `l` take turns**, with the ticks they have left: the first one runs, and the
rest is the ready list of its priority `p`; they are in code of their own. -/
structure Turn (k : Os τ μ) (p : ℕ) (l : List (τ × ℕ)) : Prop where
  order : ∃ c, k.current = some c ∧ (k.thread c).stat = .running ∧ k.prio c = p ∧
    l.map Prod.fst = c :: k.table p
  left : ∀ x ∈ l, x.2 = slot (k.thread x.1).remainingTick
  top : ∀ u, (k.thread u).stat = .ready → p ≤ k.prio u

theorem slot_sub {r : U32} (h : r - 1 ≠ 0) : slot (r - 1) + 1 = slot r ∧ 1 < slot r := by
  have hn : (r - 1).toNat ≠ 0 := fun hz => h (BitVec.eq_of_toNat_eq hz)
  have hs : (r - 1 - 1).toNat = (r - 1).toNat - 1 := by
    generalize r - 1 = x at *
    bv_omega
  unfold slot
  rw [hs]
  omega

theorem slot_one {r : U32} (h : r - 1 = 0) : slot r = 1 := by
  rw [slot, h]
  rfl

variable {idle c : τ} {lo now p : ℕ} {d : τ → ℕ} {k k' : Os τ μ} {l : List (τ × ℕ)}

theorem tick_quiet (h : Sound idle now now d k) (hq : ∀ t ∈ k.timers.list, now + 1 < d t) :
    rtTickIncrease k = tickSlice k := by
  obtain ⟨k₁, hk₁, h₁, -, htm⟩ := slice_spec h
  have hl : k₁.timers.list = k.timers.list := by rw [htm]
  simp only [rtTickIncrease, hk₁, Option.bind_eq_bind, Option.bind_some]
  rw [rtTimerCheck]
  split
  · rfl
  · next i rest hcons =>
    have hi : i ∈ k₁.timers.list := hcons ▸ List.mem_cons_self
    rw [if_neg]
    intro hexp
    have := (expired_iff h₁.timers hi).mp hexp
    have := hq i (hl ▸ hi)
    omega

/-- Something happens to the time slice of the thread that runs. -/
theorem turn_charge (h : Sound idle lo now d k) {n : ℕ} (ht : Turn k p ((c, n) :: l))
    (hcur : k'.current = k.current) (htable : k'.table = k.table)
    (hself : (k'.thread c).stat = (k.thread c).stat ∧ k'.prio c = k.prio c)
    (hne : ∀ u, u ≠ c → k'.thread u = k.thread u) :
    Turn k' p ((c, slot (k'.thread c).remainingTick) :: l) := by
  obtain ⟨⟨c', hc, hr, hp, hl⟩, hleft, htop⟩ := ht
  obtain ⟨rfl, hlist⟩ := List.cons.inj hl
  -- the threads of the list differ
  have hothers : ∀ x ∈ l, x.1 ≠ c := fun x hx he => by
    have hm : c ∈ k.table p := hlist ▸ he ▸ List.mem_map_of_mem hx
    rw [h.queues.mem] at hm
    exact absurd (hm.2.1.symm.trans hr) (by decide)
  refine ⟨⟨c, hcur.trans hc, hself.1.trans hr, hself.2.trans hp, ?_⟩, fun x hx => ?_,
    fun u hu => ?_⟩
  · rw [htable]
    exact congrArg (c :: ·) hlist
  · rcases List.mem_cons.mp hx with rfl | hx
    · rfl
    · rw [hne _ (hothers x hx)]
      exact hleft x (List.mem_cons_of_mem _ hx)
  · by_cases huc : u = c
    · subst huc
      exact absurd (hu.symm.trans (hself.1.trans hr)) (by decide)
    · rw [Os.prio, hne u huc]
      exact htop u (hne u huc ▸ hu)

theorem turn_switch (h : Sound idle lo now d k) (hc : k.current = some c)
    (hy : (k.thread c).yield = true) {n : ℕ} {l : List (τ × ℕ)} (ht : Turn k p ((c, n) :: l)) :
    ∃ k', rtSchedule k = some k' ∧ Turn k' p (l ++ [(c, n)]) ∧
      ∀ t, (k'.thread t).initTick = (k.thread t).initTick := by
  obtain ⟨k', c', hk, hw, -⟩ := schedule_sound h hc
  obtain ⟨⟨c₀, hc₀, hr, hp, hl⟩, hleft, htop⟩ := ht
  obtain rfl := Option.some.inj (hc.symm.trans hc₀)
  have hlist : l.map Prod.fst = k.table p := (List.cons.inj hl).2
  have hsame : ∀ t, (k'.thread t).remainingTick = (k.thread t).remainingTick ∧
      (k'.thread t).initTick = (k.thread t).initTick := fun t => by
    rw [hw.thread t]
    exact ⟨rfl, rfl⟩
  have hleft' : ∀ x ∈ l ++ [(c, n)], x.2 = slot (k'.thread x.1).remainingTick := by
    intro x hx
    rw [(hsame x.1).1]
    refine hleft x ?_
    simpa [or_comm] using hx
  refine ⟨k', hk, ⟨?_, hleft', ?_⟩, fun t => (hsame t).2⟩
  · have hmem : ∀ u, u ∈ k.table p ↔ (k.thread u).stat = .ready ∧ k.prio u = p := fun u => by
      rw [h.queues.mem]
      simp
    by_cases hcc : c' = c
    · -- nobody else is there
      have hnil : k.table p = [] := by
        refine List.eq_nil_iff_forall_not_mem.mpr fun u hu => ?_
        obtain ⟨hus, hup⟩ := (hmem u).mp hu
        exact hw.preempts.mp ⟨u, hus, fun _ => Or.inr ⟨hup.trans hp.symm, hy⟩⟩ hcc
      have hl0 : l = [] := List.map_eq_nil_iff.mp (hlist.trans hnil)
      refine ⟨c, hcc ▸ hw.current, hcc ▸ hw.running, (hw.prio c).trans hp, ?_⟩
      rw [hw.table p, if_neg fun hx => hx.1 hcc, hnil, hl0]
      rfl
    · -- the first one of the list is next
      obtain ⟨hready, hhead⟩ := hw.chosen hcc
      have hcr : (k'.thread c).stat = .ready := by rw [hw.left hcc, if_pos hr]
      have hpc : k.prio c' = p := by
        refine le_antisymm ?_ (htop c' hready)
        have := hw.top c hcr
        rw [hw.prio, hw.prio] at this
        omega
      rw [hpc] at hhead
      obtain ⟨rest, hrest⟩ : ∃ rest, k.table p = c' :: rest := by
        cases htab : k.table p with
        | nil =>
          rw [htab] at hhead
          cases hhead
        | cons u rest =>
          rw [htab] at hhead
          obtain rfl := Option.some.inj hhead
          exact ⟨rest, rfl⟩
      refine ⟨c', hw.current, hw.running, (hw.prio c').trans hpc, ?_⟩
      rw [hw.table p, if_pos ⟨hcc, hr, hp.symm⟩, hrest, List.map_append, hlist, hrest]
      simp
  · intro u hu
    rw [hw.prio]
    by_cases huc : u = c
    · rw [huc, hp]
    · by_cases huc' : u = c'
      · rw [huc', hw.running] at hu
        exact absurd hu (by decide)
      · rw [hw.other u huc huc'] at hu
        exact htop u hu

theorem turn_tick (h : Sound idle now now d k) (hq : ∀ t ∈ k.timers.list, now + 1 < d t)
    (ht : Turn k p l) : ∃ k', rtTickIncrease k = some k' ∧ Turn k' p (tick (quantum k) l) ∧
      ∀ t, (k'.thread t).initTick = (k.thread t).initTick := by
  obtain ⟨⟨c, hc, -, -, hl⟩, hleft, -⟩ := id ht
  obtain ⟨⟨c', n⟩, l, rfl⟩ := List.exists_cons_of_ne_nil fun hn : l = [] => by
    rw [hn] at hl
    cases hl
  obtain rfl : c' = c := (List.cons.inj hl).1
  have hn : n = slot (k.thread c').remainingTick := hleft _ List.mem_cons_self
  rw [tick_quiet h hq]
  -- the tick itself
  let k₁ := k.setTimers { k.timers with tick := k.timers.tick + 1 }
  let k₂ := k₁.modify c' fun th => { th with remainingTick := th.remainingTick - 1 }
  have h₁ : Sound idle now (now + 1) d k₁ :=
    { h with queues := setTimers_queues h.queues _, timers := tick_good h.timers }
  have h₂ : Sound idle now (now + 1) d k₂ := modify_sound h₁ rfl rfl rfl rfl
  have hself : k₂.thread c' = { k.thread c' with
      remainingTick := (k.thread c').remainingTick - 1 } := ReadyQueue.modify_self ..
  have hne : ∀ u, u ≠ c' → k₂.thread u = k.thread u := fun u hu =>
    ReadyQueue.modify_of_ne k₁ _ hu
  have hc' : (k.setTimers { k.timers with tick := k.timers.tick + 1 }).current = some c' := hc
  by_cases hz : (k.thread c').remainingTick - 1 = 0
  · -- the time slice is over
    let k₃ := k₂.modify c' fun th => { th with remainingTick := th.initTick, yield := true }
    have h₃ : Sound idle now (now + 1) d k₃ := modify_sound h₂ rfl rfl rfl rfl
    have hself₃ : k₃.thread c' = { k.thread c' with
        remainingTick := (k.thread c').initTick, yield := true } := by
      change (k₂.modify c' _).thread c' = _
      rw [ReadyQueue.modify_self, hself]
    have hne₃ : ∀ u, u ≠ c' → k₃.thread u = k.thread u := fun u hu =>
      (ReadyQueue.modify_of_ne k₂ _ hu).trans (hne u hu)
    have ht₃ : Turn k₃ p ((c', quantum k c') :: l) := by
      have hcharge : Turn k₃ p ((c', slot (k₃.thread c').remainingTick) :: l) :=
        turn_charge h ht rfl rfl ⟨by rw [hself₃], by rw [Os.prio, hself₃, Os.prio]⟩ hne₃
      rwa [hself₃] at hcharge
    obtain ⟨k', hk', ht', hi⟩ := turn_switch h₃ hc (by rw [hself₃]) ht₃
    refine ⟨k', ?_, ?_, fun t => (hi t).trans ?_⟩
    · simp only [tickSlice, hc', Option.bind_eq_bind, Option.bind_some]
      rw [if_pos ((congrArg Thread.remainingTick hself).trans hz)]
      exact hk'
    · rwa [tick, if_pos (by rw [hn, slot_one hz])]
    · by_cases hu : t = c'
      · rw [hu, hself₃]
      · rw [hne₃ t hu]
  · -- it goes on
    obtain ⟨hs1, hs2⟩ := slot_sub hz
    have hcharge : Turn k₂ p ((c', slot (k₂.thread c').remainingTick) :: l) :=
      turn_charge h ht rfl rfl ⟨by rw [hself], by rw [Os.prio, hself, Os.prio]⟩ hne
    refine ⟨k₂, ?_, ?_, fun t => ?_⟩
    · simp only [tickSlice, hc', Option.bind_eq_bind, Option.bind_some]
      rw [if_neg (mt (congrArg Thread.remainingTick hself).symm.trans hz)]
      rfl
    · rw [tick, if_neg (by omega)]
      rw [hself] at hcharge
      have hleft₂ : n - 1 = slot ((k.thread c').remainingTick - 1) := by omega
      rwa [hleft₂]
    · by_cases hu : t = c'
      · rw [hu, hself]
      · rw [hne t hu]

/-! ### Runs -/

variable [DecidableEq μ]

/-- **The kernel refines round robin**, in a run of ticks at which no timer runs out. -/
theorem turn_run : ∀ {acts : List (Act τ μ)} {s s' : Sys τ μ} {l : List (τ × ℕ)}, Ledger idle s →
    Turn s.os p l → (∀ x ∈ l, s.pc x.1 = .user) → (∀ a ∈ acts, a = .tick ∨ a = .go) →
    (∀ t ∈ s.os.timers.list, s.clock + ticks acts < s.deadline t) → Runs idle acts s s' →
    Turn s'.os p ((tick (quantum s.os))^[ticks acts] l)
  | [], _, _, _, _, ht, _, _, _, hr => hr ▸ ht
  | a :: acts, s, s', l, h, ht, hu, ha, hq, ⟨hl, s₁, hs, hr⟩ => by
    have ha' := fun b hb => ha b (List.mem_cons_of_mem a hb)
    rcases ha a List.mem_cons_self with rfl | rfl
    · -- the tick
      obtain ⟨s₂, hs₂, h₂, hpc, -, hclock, hd, hro⟩ := tick_ledger h
      obtain rfl := Option.some.inj (hs.symm.trans hs₂)
      simp only [ticks] at hq ⊢
      obtain ⟨k', hk', ht', hi⟩ := turn_tick h.sound (fun t hm => by have := hq t hm; omega) ht
      have hos : s₁.os = k' := by
        simp only [step, hk', Option.map_some, Option.some.injEq] at hs
        rw [← hs]
      subst hos
      have hquantum : quantum s.os = quantum s₁.os := funext fun t => by rw [quantum, quantum, hi]
      rw [Function.iterate_succ_apply, hquantum]
      refine turn_run h₂ (hquantum ▸ ht') (fun x hx => ?_) ha' (fun t hm => ?_) hr
      · obtain ⟨y, hy, he⟩ := List.mem_map.mp (mem_tick hx)
        rw [hpc, ← he]
        exact hu y hy
      · have := hq t ((hro.list t).mp hm).1
        rw [hclock, hd]
        omega
    · -- the thread that runs goes on
      obtain ⟨⟨c, hc, -, -, hlist⟩, -⟩ := id ht
      have hcu : s.pc c = .user := by
        have hmem : c ∈ l.map Prod.fst := hlist ▸ List.mem_cons_self
        obtain ⟨x, hx, rfl⟩ := List.mem_map.mp hmem
        exact hu x hx
      obtain rfl : s = s₁ := by simpa [step, hc, hcu] using hs
      have hrest := turn_run h ht hu ha' (fun t hm => hq t hm) hr
      exact hrest

theorem slot_inj {a b : U32} : slot a = slot b ↔ a = b := by
  unfold slot
  rw [Nat.add_right_cancel_iff, BitVec.toNat_inj]
  constructor
  · intro h
    bv_omega
  · rintro rfl
    rfl

/-- **Round robin.** Take threads of one priority that are in code of their own, the first of which
runs while the rest make up its ready list, no thread of a higher priority being ready. When as many
ticks have come as those of `front` had left, and no timer has run out, the first one of `back` runs,
with what it had left; those of `front` stand at the end of the list, each with a new time slice. -/
theorem round_robin (app : Application τ) : ∃ s₀ : Sys τ μ, app.boot = some s₀ ∧
    ∀ acts s, Runs app.idle acts s₀ s → ∀ c front back, s.os.current = some c →
    c :: s.os.table (s.os.prio c) = front ++ back →
    (∀ u, (s.os.thread u).stat = .ready → s.os.prio c ≤ s.os.prio u) →
    (∀ t ∈ front ++ back, s.pc t = .user) →
    ∀ acts' s', Runs app.idle acts' s s' → (∀ a ∈ acts', a = .tick ∨ a = .go) →
    ticks acts' = (front.map fun t => slot (s.os.thread t).remainingTick).sum →
    (∀ t ∈ s.os.timers.list, s.clock + ticks acts' < s.deadline t) →
    ∃ c', s'.os.current = some c' ∧ (s'.os.thread c').stat = .running ∧
      c' :: s'.os.table (s.os.prio c) = back ++ front ∧
      (∀ t ∈ front, (s'.os.thread t).remainingTick = (s.os.thread t).initTick) ∧
      ∀ t ∈ back, (s'.os.thread t).remainingTick = (s.os.thread t).remainingTick := by
  refine boot_runs app fun s h c front back hc hlist htop huser acts' s' hr ha hn hq => ?_
  let give : τ → τ × ℕ := fun t => (t, slot (s.os.thread t).remainingTick)
  have hfst : ∀ l : List τ, (l.map give).map Prod.fst = l := fun l => by
    rw [List.map_map]
    exact List.map_id l
  have hrun : (s.os.thread c).stat = .running := by
    refine (caller h hc (huser c ?_)).1
    rw [← hlist]
    exact List.mem_cons_self
  have ht : Turn s.os (s.os.prio c) ((front ++ back).map give) := by
    refine ⟨⟨c, hc, hrun, rfl, ?_⟩, fun x hx => ?_, htop⟩
    · rw [hfst, hlist]
    · obtain ⟨t, -, rfl⟩ := List.mem_map.mp hx
      rfl
  have hsum : ticks acts' = ((front.map give).map Prod.snd).sum := by
    rw [hn, List.map_map]
    rfl
  have hturn := turn_run h ht (fun x hx => by
    obtain ⟨t, hm, rfl⟩ := List.mem_map.mp hx
    exact huser t hm) ha hq hr
  have hround : (tick (quantum s.os))^[((front.map give).map Prod.snd).sum]
      (front.map give ++ back.map give) = _ := tick_round fun x hx => by
    obtain ⟨t, -, rfl⟩ := List.mem_map.mp hx
    exact Nat.succ_pos _
  rw [hsum, List.map_append, hround] at hturn
  obtain ⟨⟨c', hc', hr', -, hl'⟩, hleft, -⟩ := hturn
  refine ⟨c', hc', hr', ?_, fun t hm => ?_, fun t hm => ?_⟩
  · rw [← hl', List.map_append, hfst, List.map_map]
    simp [give, Function.comp_def]
  · refine (slot_inj.mp (hleft (t, quantum s.os t) (List.mem_append_right _ ?_))).symm
    exact List.mem_map.mpr ⟨give t, List.mem_map_of_mem hm, rfl⟩
  · exact (slot_inj.mp (hleft (give t) (List.mem_append_left _ (List.mem_map_of_mem hm)))).symm

/-- Two threads of one priority, with different time slices, and the idle thread 2. -/
def twins : Application (Fin 3) where
  priority t := if t = 2 then 31 else 10
  slice t := if t = 0 then 5 else 3
  now := 0
  startups := [0, 1, 2]
  idle := 2
  valid := by decide
  nodup := by decide
  idle_mem := by decide

theorem round_robin_twins : ∃ s₀ s : Sys (Fin 3) Unit, twins.boot = some s₀ ∧
    Runs 2 (List.replicate 5 .tick) s₀ s ∧ ∃ c, s.os.current = some c ∧
      c :: s.os.table 10 = [1, 0] ∧ (s.os.thread 0).remainingTick = 5 := by
  obtain ⟨s₀, hs₀, h⟩ := round_robin (μ := Unit) twins
  obtain ⟨s, rfl, hv⟩ := boot_walk hs₀ (Legal 2) []
    (fun s => decide (s.os.current = some 0 ∧ s.os.prio 0 = 10 ∧
      0 :: s.os.table (s.os.prio 0) = [0] ++ [1] ∧
      (∀ u, (s.os.thread u).stat = .ready → s.os.prio 0 ≤ s.os.prio u) ∧
      (∀ t ∈ [0] ++ [1], s.pc t = .user) ∧ s.os.timers.list = [] ∧
      (s.os.thread 0).remainingTick = 5 ∧ (s.os.thread 0).initTick = 5)) (by decide +kernel)
  obtain ⟨hc, hprio, htable, htop, huser, htimers, hleft, hinit⟩ := of_decide_eq_true hv
  obtain ⟨s', hs', -⟩ := boot_walk hs₀ (Legal 2) (List.replicate 5 .tick) (fun _ => true)
    (by decide +kernel)
  obtain ⟨c, hc', -, hlist, hnew, -⟩ := h [] s rfl 0 [0] [1] hc htable htop huser _ s' hs'
    (fun a ha => Or.inl (List.eq_of_mem_replicate ha)) (by simp [hleft]; rfl) (by simp [htimers])
  rw [hprio] at hlist
  exact ⟨s, s', hs₀, hs', c, hc', hlist, (hnew 0 List.mem_cons_self).trans hinit⟩

end RtosExample.Kernel.TimeSlices
