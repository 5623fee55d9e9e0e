import RtosExample.Kernel.Service

/-! # Priority inheritance

* `refines_protocol`: in every run, what a step does to mutexes, waiting lists and priorities is a
  move of the protocol of `Lib.Inherit`, or nothing;
* `inherits_exactly`: in a run in which each thread asks for a mutex only while it has no other, and
  waits for it without a limit of time, an owner's priority is exactly the highest one of its own
  and its waiters';
* `inversion_bounded`: in such a run, a thread that waits is kept waiting by threads of its own
  priority or a higher one only, if the owner can run. -/

namespace RtosExample.Kernel.Inheritance

open RtosExample.Cint RtosExample.Lib.Runs RtosExample.Lib.Inherit RtosExample.Kernel.TimerList
open RtosExample.Kernel.Sched RtosExample.Kernel.Mutex RtosExample.Kernel.Effects
open RtosExample.Kernel.Tick RtosExample.Kernel.System RtosExample.Kernel.Books
open RtosExample.Kernel.Bookkeeping RtosExample.Kernel.Boot RtosExample.Kernel.Deeds
open RtosExample.Kernel.Steps RtosExample.Kernel.Service

variable {τ μ : Type} [DecidableEq τ] [DecidableEq μ] (app : Application τ)

/-- **The kernel refines the protocol**: it starts with no mutex taken, and each step is a move or
none. The move is that of the thread that calls, or at a tick that waiters give up; so the locks go
through moves of the protocol in every run. -/
theorem refines_protocol : ∃ s₀ : Sys τ μ, app.boot = some s₀ ∧
    (∀ m, (locks s₀.os).owner m = none ∧ (locks s₀.os).waiting m = []) ∧
    (∀ t, (locks s₀.os).prio t = (app.priority t).toNat) ∧
    ∀ acts s, Runs app.idle acts s₀ s →
      Relation.ReflTransGen (fun l l' => ∃ mv, Step mv l l') (locks s₀.os) (locks s.os) ∧
      ∀ a s', Legal app.idle s a → step a s = some s' →
        locks s'.os = locks s.os ∨ ∃ mv, Step mv (locks s.os) (locks s'.os) ∧
          (a = .tick ∧ mv = .expire ∨
            ∃ c call, a = .call call ∧ s.os.current = some c ∧ Makes c call mv) := by
  obtain ⟨s₀, hs₀, h₀, -, -, hp, ho⟩ := app_boots (μ := μ) app
  refine ⟨s₀, hs₀, fun m => ⟨ho m, (mutexOk_none (h₀.mutexes m) (ho m)).2⟩, hp, fun acts s hr => ?_⟩
  obtain ⟨h, hmoves⟩ := path_inv (I := fun s => Ledger app.idle s ∧
    Relation.ReflTransGen (fun l l' => ∃ mv, Step mv l l') (locks s₀.os) (locks s.os))
    (fun s a s' hs hl he => by
      refine ⟨next_ledger hs.1 hl he, ?_⟩
      rcases locks_step (step_does hs.1 hl he) with hsame | ⟨mv, hmv, -⟩
      · rw [hsame]
        exact hs.2
      · exact hs.2.tail ⟨mv, hmv⟩) hr ⟨h₀, .refl⟩
  refine ⟨hmoves, fun a s' hl he => ?_⟩
  rcases locks_step (step_does h hl he) with hsame | ⟨mv, hmv, hact⟩
  · exact Or.inl hsame
  · refine Or.inr ⟨mv, hmv, hact.imp_right ?_⟩
    rintro ⟨c, call, ha, hc, -, hm⟩
    exact ⟨c, call, ha, hc, hm⟩

theorem refines_protocol_quartet : ∃ s₀ s s' : Sys (Fin 4) Unit, quartet.boot = some s₀ ∧
    Runs 3 [.call (.take () (-1)), .call (.startup 1), .go] s₀ s ∧
    step (.call (.take () (-1))) s = some s' ∧ ∃ mv, Step mv (locks s.os) (locks s'.os) := by
  obtain ⟨s₀, hs₀, -, -, h⟩ := refines_protocol (μ := Unit) quartet
  obtain ⟨s, hs, hv⟩ := boot_walk hs₀ (Legal 3) [.call (.take () (-1)), .call (.startup 1), .go]
    (fun s => decide (s.os.prio 0 = 10) && (walk (Legal 3) step [.call (.take () (-1))] s).any
      fun s : Sys (Fin 4) Unit => decide (s.os.prio 0 = 5)) (by decide +kernel)
  obtain ⟨hprio, hstep⟩ := (Bool.and_eq_true ..).mp hv
  obtain ⟨s', ⟨hl, _, hs', rfl⟩, hv⟩ := walk_any hstep
  have hprio := of_decide_eq_true hprio
  have hprio' := of_decide_eq_true hv
  obtain hsame | ⟨mv, hmv, -⟩ := (h _ s hs).2 _ s' hl hs'
  · have hsame' : s'.os.prio 0 = s.os.prio 0 := congrFun (congrArg Locks.prio hsame) 0
    omega
  · exact ⟨s₀, s, s', hs₀, hs, hs', mv, hmv⟩

/-! ### One mutex at a time -/

/-- A thread asks for a mutex only while it has no other one, and does not give up waiting. -/
def OneAtATime (s : Sys τ μ) : Act τ μ → Prop
  | .call (.take m time) => time ≤ 0 ∧
    ∀ c, s.os.current = some c → ∀ m', m' ≠ m → depth c m' s.history = 0
  | _ => True

instance [Fintype τ] [Fintype μ] (s : Sys τ μ) : ∀ a : Act τ μ, Decidable (OneAtATime s a)
  | .call (.take m time) => inferInstanceAs (Decidable (time ≤ 0 ∧
      ∀ c, s.os.current = some c → ∀ m', m' ≠ m → depth c m' s.history = 0))
  | .call (.release _) => inferInstanceAs (Decidable True)
  | .call (.sleep _) => inferInstanceAs (Decidable True)
  | .call .yield => inferInstanceAs (Decidable True)
  | .call (.startup _) => inferInstanceAs (Decidable True)
  | .call .exit => inferInstanceAs (Decidable True)
  | .tick => inferInstanceAs (Decidable True)
  | .go => inferInstanceAs (Decidable True)
  | .reap _ => inferInstanceAs (Decidable True)

/-- What holds in such a run. -/
structure Modest (app : Application τ) (s : Sys τ μ) : Prop where
  ledger : Ledger app.idle s
  exact : Exact (fun t => (app.priority t).toNat) (locks s.os)
  patient : ∀ t m time, Pc.call (s.pc t) = some (.take m time) → time ≤ 0
  settled : Settled s

variable {app} {s s' : Sys τ μ} {a : Act τ μ} {t c : τ}

/-- Nobody gives up waiting, so the tick leaves the lists of the mutexes alone. -/
theorem patient_waiting (h : Modest app s) {P : τ → Prop} {k : Os τ μ} (hr : Rouses P s.os k)
    (hP : ∀ t, P t → t ∈ s.os.timers.list) (m : μ) : k.waiting m = s.os.waiting m := by
  obtain ⟨hsub, hmem⟩ := hr.waiting m
  refine hsub.eq_of_length_le ((h.ledger.sound.nodup m).subperm fun t ht => ?_).length_le
  refine (hmem t).mpr ⟨ht, fun hPt => ?_⟩
  have hok := h.ledger.seats t
  obtain ⟨-, time, hb⟩ := hok.taking_of_waits ht
  obtain ⟨-, hsome⟩ := hok.armed.mp (hP t hPt)
  rw [hb] at hsome
  simp [Call.ticks, not_lt.mpr (h.patient t m time hb)] at hsome

theorem modest_disciplined (h : Modest app s) (ha : OneAtATime s a) {call : Call τ μ}
    (hac : a = .call call) (hc : s.os.current = some c) (hp : s.pc c = .user) {mv : Move τ μ}
    (hm : Makes c call mv) (hs : Step mv (locks s.os) (locks s'.os)) :
    Disciplined (locks s.os) mv := by
  obtain ⟨-, -, -, hdep⟩ := caller h.ledger hc hp
  -- the caller has no other mutex, and not this one
  have hbare : ∀ m time, call = .take m time → (locks s.os).owner m ≠ some c →
      Bare (locks s.os) c := by
    rintro m time rfl hno m'
    by_cases hmm : m' = m
    · exact hmm ▸ hno
    · subst hac
      intro ho
      have h0 := (hdep m').symm.trans (ha.2 c hc m' hmm)
      exact (owns_pos (t := c) (h.ledger.mutexes m')).mpr ho h0
  generalize locks s'.os = l at hs
  cases hs with
  | acquire ho hw =>
    obtain ⟨rfl, time, hcall⟩ := hm
    exact hbare _ time hcall (by rw [ho]; exact nofun)
  | wait ho hot hw =>
    obtain ⟨rfl, time, hcall, -⟩ := hm
    exact hbare _ time hcall fun he => hot (Option.some.inj (ho.symm.trans he))
  | pass ho hw => trivial
  | free x ho hw => trivial
  | expire hw => exact absurd hm id

/-- Nobody who has no waiters has a higher priority than its own. -/
theorem modest_steady (h : Modest app s) : Steady s a := by
  intro c m hc _ ho _ hw
  refine BitVec.le_def.mpr (le_of_eq ?_)
  have hsaved : (s.os.mutex m).originalPriority.toNat = (app.priority c).toNat :=
    h.exact.saved m c ho
  rw [hsaved]
  refine ((h.exact.high m c ho).resolve_right fun ⟨w, hwm, _⟩ => ?_).symm
  change w ∈ s.os.waiting m at hwm
  rw [hw] at hwm
  exact absurd hwm List.not_mem_nil

theorem modest_step (h : Modest app s) (hl : Legal app.idle s a) (ha : OneAtATime s a)
    (hs : step a s = some s') : Modest app s' := by
  have hd := step_does h.ledger hl hs
  refine ⟨next_ledger h.ledger hl hs, ?_, fun t m time hb => ?_,
    settled_step hd h.settled (modest_steady h)⟩
  · rcases locks_step hd with hsame | ⟨mv, hmv, ⟨rfl, rfl⟩ | ⟨c, call, hac, hc, hp, hm⟩⟩
    · rw [hsame]
      exact h.exact
    · -- the tick
      have hsame : locks s'.os = locks s.os := by
        cases hd with
        | tick hr =>
          refine locks_same (fun m => by rw [hr.mutex]; exact ⟨rfl, rfl⟩)
            (funext fun m => patient_waiting h hr (fun t ht => ht.1) m)
            fun t => congrArg BitVec.toNat (hr.prio t)
      rw [hsame]
      exact h.exact
    · exact exact_step h.exact hmv (modest_disciplined h ha hac hc hp hm hmv)
  · -- the calls that are in progress
    rcases call_step hd hb with hb | ⟨rfl, -⟩
    · exact h.patient t m time hb
    · exact ha.1

variable (app)

theorem modest_runs : ∃ s₀ : Sys τ μ, app.boot = some s₀ ∧
    ∀ acts s, Path (fun s a => Legal app.idle s a ∧ OneAtATime s a) step acts s₀ s →
      Modest app s := by
  obtain ⟨s₀, hs₀, h₀, ht, hpc, hp, ho⟩ := app_boots (μ := μ) app
  have hw : ∀ m, (locks s₀.os).waiting m = [] :=
    fun m => (mutexOk_none (h₀.mutexes m) (ho m)).2
  have hexact : Exact (fun t => (app.priority t).toNat) (locks s₀.os) := by
    refine ⟨fun t _ => hp t, fun m t hm => ?_, fun m m' t hm => ?_, fun m t hm => ?_,
      fun m m' t hm => ?_, fun m => ?_, fun m => ?_, fun m _ => hw m, fun m t hm => ?_,
      fun m t hm => ?_⟩
    · exact absurd ((ho m).symm.trans hm) nofun
    · exact absurd ((ho m).symm.trans hm) nofun
    · exact absurd (hw m ▸ hm) List.not_mem_nil
    · exact absurd (hw m ▸ hm) List.not_mem_nil
    · rw [hw]
      exact List.nodup_nil
    · rw [hw]
      exact List.Pairwise.nil
    · exact absurd ((ho m).symm.trans hm) nofun
    · exact absurd ((ho m).symm.trans hm) nofun
  refine ⟨s₀, hs₀, fun acts s hr => ?_⟩
  refine path_inv (I := Modest app) (fun s a s' hs ha he => modest_step hs ha.1 ha.2 he) hr
    ⟨h₀, hexact, fun t m time hb => ?_, Or.inl ht⟩
  rw [hpc] at hb
  cases hb

/-- **Priorities are inherited exactly.** In a run of threads that ask for one mutex at a time, an
owner's priority is the highest one of its own and those of the threads that wait for the mutex; a
thread that owns nothing has its own; and the threads that wait stand in the order of their
priorities. -/
theorem inherits_exactly : ∃ s₀ : Sys τ μ, app.boot = some s₀ ∧
    ∀ acts s, Path (fun s a => Legal app.idle s a ∧ OneAtATime s a) step acts s₀ s →
    (∀ t, (∀ m, (s.os.mutex m).owner ≠ some t) → s.os.prio t = (app.priority t).toNat) ∧
    ∀ m t, (s.os.mutex m).owner = some t →
      s.os.prio t = ((s.os.waiting m).map fun w => (app.priority w).toNat).foldr min
        (app.priority t).toNat ∧
      (s.os.waiting m).Pairwise fun w w' => app.priority w ≤ app.priority w' := by
  obtain ⟨s₀, hs₀, h⟩ := modest_runs (μ := μ) app
  refine ⟨s₀, hs₀, fun acts s hr => ?_⟩
  have hx := (h acts s hr).exact
  have hbase : ∀ m, ∀ w ∈ s.os.waiting m, s.os.prio w = (app.priority w).toNat :=
    fun m w hw => hx.bare w (hx.waiter m w hw)
  refine ⟨hx.bare, fun m t ho => ⟨?_, ?_⟩⟩
  · exact hx.prio_eq ho
  · refine List.Pairwise.imp_of_mem (fun {w w'} hw hw' hle => ?_) (hx.sorted m)
    change s.os.prio w ≤ s.os.prio w' at hle
    rwa [hbase m w hw, hbase m w' hw'] at hle

theorem inherits_exactly_quartet : ∃ s₀ s : Sys (Fin 4) Unit, quartet.boot = some s₀ ∧
    Path (fun s a => Legal 3 s a ∧ OneAtATime s a) step
      [.call (.take () (-1)), .call (.startup 1), .go, .call (.take () (-1)), .go] s₀ s ∧
    s.os.prio 0 = 5 := by
  obtain ⟨s₀, hs₀, h⟩ := inherits_exactly (μ := Unit) quartet
  obtain ⟨s, hs, hv⟩ := boot_walk hs₀ (fun s a => Legal 3 s a ∧ OneAtATime s a)
    [.call (.take () (-1)), .call (.startup 1), .go, .call (.take () (-1)), .go]
    (fun s => decide ((s.os.mutex ()).owner = some 0 ∧ s.os.waiting () = [1])) (by decide +kernel)
  obtain ⟨ho, hw⟩ := of_decide_eq_true hv
  refine ⟨s₀, s, hs₀, hs, ((h _ s hs).2 () 0 ho).1.trans ?_⟩
  rw [hw]
  rfl

/-- **Priority inversion is bounded.** In such a run, when a thread waits for a mutex whose owner can
run, the thread that runs has the waiting thread's priority or a higher one. -/
theorem inversion_bounded : ∃ s₀ : Sys τ μ, app.boot = some s₀ ∧
    ∀ acts s, Path (fun s a => Legal app.idle s a ∧ OneAtATime s a) step acts s₀ s →
    ∀ c, s.os.current = some c → (∀ call, s.pc c ≠ .sched call) → ∀ m t w,
    (s.os.mutex m).owner = some t → (s.os.thread t).stat ≠ .suspend →
    (s.os.thread t).stat ≠ .close → w ∈ s.os.waiting m →
    s.os.prio c ≤ (app.priority w).toNat := by
  obtain ⟨s₀, hs₀, h⟩ := modest_runs (μ := μ) app
  refine ⟨s₀, hs₀, fun acts s hr c hc hp m t w ho hsus hclose hw => ?_⟩
  obtain ⟨h, hx, -, ht⟩ := h acts s hr
  have hle : s.os.prio t ≤ (app.priority w).toNat := by
    have hb : s.os.prio w = (app.priority w).toNat := hx.bare w (hx.waiter m w hw)
    exact hb ▸ (hx.low m t ho).2 w hw
  refine le_trans ?_ hle
  by_cases htc : t = c
  · rw [htc]
  have hrun : (s.os.thread c).stat = .running := by
    have hlv := (h.current c hc).resolve_right fun ⟨call, hcall⟩ => hp call hcall
    obtain ⟨c', hc', hne⟩ := h.sound.current
    obtain rfl := Option.some.inj (hc.symm.trans hc')
    exact (level_eq_ready.mp hlv).resolve_left hne
  refine settled_user ht hc hp c hc hrun t ?_
  cases hst : (s.os.thread t).stat with
  | ready => rfl
  | running => exact absurd (Option.some.inj ((h.sound.running t hst).symm.trans hc)) htc
  | suspend => exact absurd hst hsus
  | close => exact absurd hst hclose
  | init =>
    have := (h.seats t).unborn (lvl_init.mpr hst) m
    exact absurd this ((owns_pos (t := t) (h.mutexes m)).mpr ho)

-- Thread 2, of a lower priority than the waiting thread 1, is ready but does not keep 0 waiting.
theorem inversion_bounded_quartet : ∃ s₀ s : Sys (Fin 4) Unit, quartet.boot = some s₀ ∧
    Path (fun s a => Legal 3 s a ∧ OneAtATime s a) step
      [.call (.take () (-1)), .call (.startup 1), .go, .call (.take () (-1)), .go, .go,
        .call (.startup 2), .go, .go] s₀ s ∧
    (s.os.thread 2).stat = .ready ∧ ∃ c, s.os.current = some c ∧ s.os.prio c ≤ 5 := by
  obtain ⟨s₀, hs₀, h⟩ := inversion_bounded (μ := Unit) quartet
  obtain ⟨s, hs, hv⟩ := boot_walk hs₀ (fun s a => Legal 3 s a ∧ OneAtATime s a)
    [.call (.take () (-1)), .call (.startup 1), .go, .call (.take () (-1)), .go, .go,
      .call (.startup 2), .go, .go]
    (fun s => decide (s.os.current = some 0 ∧ s.pc 0 = .user ∧ (s.os.mutex ()).owner = some 0 ∧
      (s.os.thread 0).stat = .running ∧ (s.os.thread 2).stat = .ready ∧ 1 ∈ s.os.waiting ()))
    (by decide +kernel)
  obtain ⟨hc, hp, ho, hrun, hready, hw⟩ := of_decide_eq_true hv
  have hle := h _ s hs 0 hc (by rw [hp]; exact nofun) () 0 1 ho (by rw [hrun]; decide)
    (by rw [hrun]; decide) hw
  exact ⟨s₀, s, hs₀, hs, hready, 0, hc, hle⟩

end RtosExample.Kernel.Inheritance
