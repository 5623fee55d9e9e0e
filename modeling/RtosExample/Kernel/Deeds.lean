import RtosExample.Kernel.Bookkeeping
import RtosExample.Lib.Inherit

/-! # What a call does to the others

A call changes no other thread's error, and of mutexes, waiting lists and priorities it changes what
one move of the protocol of `Lib.Inherit` changes, or nothing (`enter_deed`). So the kernel refines
that protocol: `locks` is what the protocol sees of the kernel. -/

namespace RtosExample.Kernel.Deeds

open RtosExample.Cint RtosExample.Lib.Queue RtosExample.Lib.Inherit RtosExample.Kernel.TimerList
open RtosExample.Kernel.Deadlines RtosExample.Kernel.Sched RtosExample.Kernel.Mutex
open RtosExample.Kernel.ReadyQueue RtosExample.Kernel.Dispatch RtosExample.Kernel.Effects
open RtosExample.Kernel.Invariant RtosExample.Kernel.Tick RtosExample.Kernel.Calls
open RtosExample.Kernel.System RtosExample.Kernel.Books RtosExample.Kernel.Bookkeeping

variable {τ μ : Type}

/-- The mutexes as locks of the protocol. -/
def locks (k : Os τ μ) : Locks τ μ ℕ where
  owner m := (k.mutex m).owner
  saved m := (k.mutex m).originalPriority.toNat
  waiting := k.waiting
  prio := k.prio

/-- The moves of the protocol a thread makes in a call. -/
def Makes (c : τ) (call : Call τ μ) : Move τ μ → Prop
  | .acquire t m => t = c ∧ ∃ time, call = .take m time
  | .wait t m => t = c ∧ ∃ time, call = .take m time ∧ time ≠ 0
  | .pass t m => t = c ∧ call = .release m
  | .free t m => t = c ∧ call = .release m
  | .expire => False

variable [DecidableEq τ] [DecidableEq μ]

/-- What becomes of another thread `u` in a call. -/
inductive Fate (call : Call τ μ) (k k' : Os τ μ) (u : τ) : Prop
  | same (h : lvl k' u = lvl k u)
  | started (h : call = .startup u)
  | given (m : μ) (h : call = .release m) (hw : (k.waiting m).head? = some u)
      (hl : lvl k' u = .ready) (ho : (k'.mutex m).owner = some u)

/-- **What thread `c` does to the others in a call**, which stops at `stop`. -/
structure Deed (c : τ) (call : Call τ μ) (k k' : Os τ μ) (stop : Stop) : Prop where
  error : ∀ u, u ≠ c → (k'.thread u).error = (k.thread u).error
  fate : ∀ u, u ≠ c → Fate call k k' u
  locks : locks k' = locks k ∨ ∃ mv, Makes c call mv ∧ Step mv (locks k) (locks k')
  current : stop = .scheduled ∨ k'.current = k.current
  calm : ∀ r, stop = .returns r → ∀ u, (k'.thread u).stat = (k.thread u).stat ∧
    (k'.prio u = k.prio u ∨ u = c ∧ ∃ m, call = .release m ∧ (k.mutex m).owner = some c ∧
      (k.mutex m).hold = 1 ∧ k.waiting m = [] ∧
      (k'.thread u).currentPriority = (k.mutex m).originalPriority)
  top : stop = .scheduled → Top k'

variable {k k' : Os τ μ} {c t idle : τ} {call : Call τ μ} {stop : Stop}

omit [DecidableEq τ] [DecidableEq μ] in
theorem locks_same (ho : ∀ m, (k'.mutex m).owner = (k.mutex m).owner ∧
      (k'.mutex m).originalPriority = (k.mutex m).originalPriority)
    (hw : k'.waiting = k.waiting) (hp : ∀ t, k'.prio t = k.prio t) : locks k' = locks k := by
  simp only [locks, hw, fun m => (ho m).1, fun m => (ho m).2, funext hp]

omit [DecidableEq τ] in
theorem owner_update (f : μ → Mutex τ) (m : μ) (x : Mutex τ) :
    (fun m' => (Function.update f m x m').owner) =
      Function.update (fun m' => (f m').owner) m x.owner :=
  funext fun m' => Function.apply_update (fun _ => Mutex.owner) f m x m'

omit [DecidableEq τ] in
theorem saved_update (f : μ → Mutex τ) (m : μ) (x : Mutex τ) :
    (fun m' => (Function.update f m x m').originalPriority.toNat) =
      Function.update (fun m' => (f m').originalPriority.toNat) m x.originalPriority.toNat :=
  funext fun m' => Function.apply_update (fun _ x => x.originalPriority.toNat) f m x m'

omit [DecidableEq τ] in
theorem locks_mutex {m : μ} {x : Mutex τ} (hk : k'.mutex = Function.update k.mutex m x) :
    locks k' = {
      owner := Function.update (locks k).owner m x.owner
      saved := Function.update (locks k).saved m x.originalPriority.toNat
      waiting := k'.waiting
      prio := k'.prio } := by
  simp only [locks, hk, owner_update, saved_update]

/-- A call in which nothing but the thread's own error and hold count change. -/
theorem deed_modest {e r : ℤ} (hth : k'.thread = (k.modify c fun th => { th with error := e }).thread)
    (hcur : k'.current = k.current) (hw : k'.waiting = k.waiting)
    (ho : ∀ m, (k'.mutex m).owner = (k.mutex m).owner ∧
      (k'.mutex m).originalPriority = (k.mutex m).originalPriority) :
    Deed c call k k' (.returns r) := by
  have hne : ∀ u, u ≠ c → k'.thread u = k.thread u := fun u hu => by
    rw [hth, ReadyQueue.modify_of_ne _ _ hu]
  have hself : k'.thread c = { k.thread c with error := e } := by
    rw [hth, ReadyQueue.modify_self]
  have hprio : ∀ u, k'.prio u = k.prio u := fun u => by
    by_cases hu : u = c
    · rw [hu, Os.prio, hself, Os.prio]
    · rw [Os.prio, hne u hu, Os.prio]
  refine ⟨fun u hu => by rw [hne u hu], fun u hu => .same (by rw [lvl, hne u hu, lvl]),
    Or.inl (locks_same ho hw hprio), Or.inr hcur, fun _ _ u => ⟨?_, Or.inl (hprio u)⟩, by rintro ⟨⟩⟩
  by_cases hu : u = c
  · rw [hu, hself]
  · rw [hne u hu]

omit [DecidableEq τ] in
theorem setMutex_same {m : μ} {x : Mutex τ} (hx : x.owner = (k.mutex m).owner ∧
      x.originalPriority = (k.mutex m).originalPriority) (m' : μ) :
    (Function.update k.mutex m x m').owner = (k.mutex m').owner ∧
      (Function.update k.mutex m x m').originalPriority = (k.mutex m').originalPriority := by
  by_cases hm : m' = m
  · subst hm
    rw [Function.update_self]
    exact hx
  · rw [Function.update_of_ne hm]
    exact ⟨rfl, rfl⟩

theorem boost_prio (c o : τ) (thread : τ → Thread) (u : τ) :
    (boost c o thread u).currentPriority.toNat =
      Function.update (fun u => (thread u).currentPriority.toNat) o
        (min (thread o).currentPriority.toNat (thread c).currentPriority.toNat) u := by
  unfold boost
  by_cases hu : u = o
  · subst hu
    rw [Function.update_self]
    split_ifs with hlt
    · rw [Function.update_self, min_eq_right (le_of_lt hlt)]
    · rw [min_eq_left (not_lt.mp hlt)]
  · rw [Function.update_of_ne hu]
    split_ifs
    · rw [Function.update_of_ne hu]
    · rfl

theorem blocked_prio {c o : τ} (hoc : o ≠ c) (thread : τ → Thread) (u : τ) :
    (Function.update (boost c o thread) c
      { thread c with error := RT_EOK, stat := .suspend } u).currentPriority.toNat =
      Function.update (fun u => (thread u).currentPriority.toNat) o
        (min (thread o).currentPriority.toNat (thread c).currentPriority.toNat) u := by
  refine Eq.trans ?_ (boost_prio c o thread u)
  by_cases hu : u = c
  · subst hu
    rw [Function.update_self, (boost_fields u o thread u).2.2.2 (Ne.symm hoc)]
  · rw [Function.update_of_ne hu]

theorem restored_prio (c : τ) (orig : U8) (thread : τ → Thread) (u : τ) :
    (restored c orig thread u).currentPriority.toNat =
      Function.update (fun u => (thread u).currentPriority.toNat) c orig.toNat u := by
  unfold restored
  by_cases hu : u = c
  · subst hu
    rw [Function.update_self, Function.update_self]
  · rw [Function.update_of_ne hu, Function.update_of_ne hu]

section Call

variable {s : Sys τ μ} (h : Ledger idle s) (hc : s.os.current = some c) (hp : s.pc c = .user)

include h

theorem owner_not_waiting {m : μ} {o : τ} (ho : (s.os.mutex m).owner = some o) :
    o ∉ s.os.waiting m := by
  intro hw
  have hok := h.seats o
  obtain ⟨hl, time, hb⟩ := hok.taking_of_waits hw
  exact (owns_pos (h.mutexes m)).mpr ho ((hok.taking m time hb).1 hl).2

include hc hp

theorem free_deed {m : μ} {time : ℤ} (ho : (s.os.mutex m).owner = none)
    (he : enter (.take m time) s.os = some (k, stop)) : Deed c (.take m time) s.os k stop := by
  obtain ⟨-, hcw, -, -⟩ := caller h hc hp
  obtain ⟨hx, -⟩ := mutexOk_none (h.mutexes m) ho
  rw [enter, take_free m time h.sound.unlocked hc ho (by rw [hx]; rfl) (by rw [hx]; rfl)] at he
  obtain ⟨rfl, rfl⟩ := Prod.mk.inj (Option.some.inj he)
  have hth : ∀ u, ((s.os.modify c fun th => { th with error := RT_EOK }).thread u) =
      { s.os.thread u with error := if u = c then RT_EOK else (s.os.thread u).error } := by
    intro u
    by_cases hu : u = c
    · subst hu
      rw [ReadyQueue.modify_self, if_pos rfl]
    · rw [ReadyQueue.modify_of_ne _ _ hu, if_neg hu]
  have hpr : ∀ u, (s.os.modify c fun th => { th with error := RT_EOK }).prio u =
      s.os.prio u := fun u => by rw [Os.prio, hth u, Os.prio]
  refine ⟨fun u hu => ?_, fun u hu => .same ?_,
    Or.inr ⟨.acquire c m, ⟨rfl, time, rfl⟩, ?_⟩, Or.inr rfl,
    fun _ _ u => ⟨?_, Or.inl (hpr u)⟩, by rintro ⟨⟩⟩
  · change ((s.os.modify c fun th => { th with error := RT_EOK }).thread u).error = _
    rw [hth u, if_neg hu]
  · change lvl (s.os.modify c fun th => { th with error := RT_EOK }) u = _
    exact modify_lvl rfl u
  · refine (congrArg (Step (.acquire c m) (locks s.os)) (Eq.trans ?_
      (locks_mutex (k := s.os) (m := m) rfl).symm)).mp
      (Step.acquire (s := locks s.os) (t := c) (m := m) ho hcw)
    simp only [setMutex]
    congr 1
    exact (funext hpr).symm
  · change ((s.os.modify c fun th => { th with error := RT_EOK }).thread u).stat = _
    rw [hth u]

theorem blocks_deed {m : μ} {time : ℤ} (hok : (Call.take (τ := τ) m time).Allowed idle c s.os)
    {o : τ} (hoc : o ≠ c) (ho : (s.os.mutex m).owner = some o) (ht : time ≠ 0)
    (he : enter (.take m time) s.os = some (k, stop)) : Deed c (.take m time) s.os k stop := by
  obtain ⟨hr, hcw, -, -⟩ := caller h hc hp
  have hv := (mutexOk_some (h.mutexes m) ho).1
  have hobj : (s.os.thread c).currentPriority < (s.os.thread o).currentPriority →
      (s.os.thread o).type = .thread := by
    intro hlt
    by_contra hn
    rw [enter, take_asserts m time h.sound.unlocked hc hoc ho hv ht hlt hn] at he
    cases he
  obtain ⟨table, group, hk, -⟩ := take_blocks m time h.sound hc hr hok.1 hoc ho hv ht hok.2 hobj
  rw [enter, hk] at he
  obtain ⟨rfl, rfl⟩ := Prod.mk.inj (Option.some.inj he)
  have hb := boost_fields c o s.os.thread
  have hpr := blocked_prio hoc s.os.thread
  refine ⟨fun u hu => ?_, fun u hu => .same ?_, Or.inr ⟨.wait c m, ⟨rfl, time, rfl, ht⟩, ?_⟩,
    Or.inr rfl, by rintro _ ⟨⟩, by rintro ⟨⟩⟩
  · simp only [Function.update_of_ne hu]
    exact (hb u).2.1
  · simp only [lvl, Function.update_of_ne hu]
    rw [(hb u).1]
  · refine (congrArg (Step (.wait c m) (locks s.os)) ?_).mp
      (Step.wait (s := locks s.os) (t := c) (m := m) ho hoc hcw)
    simp only [locks]
    congr 1
    · refine congrArg (Function.update s.os.waiting m) (insertWhere_congr fun b hbw => ?_)
      have hbo : b ≠ o := fun he => owner_not_waiting h ho (he ▸ hbw)
      simp only [BitVec.lt_def, hpr, Function.update_of_ne hbo,
        Function.update_of_ne (Ne.symm hoc)]
      rfl
    · exact (funext hpr).symm

theorem take_deed {m : μ} {time : ℤ} (hok : (Call.take (τ := τ) m time).Allowed idle c s.os)
    (he : enter (.take m time) s.os = some (k, stop)) : Deed c (.take m time) s.os k stop := by
  have hlock := h.sound.unlocked
  rcases ho : (s.os.mutex m).owner with _ | o
  · exact free_deed h hc hp ho he
  by_cases hoc : o = c
  · -- its own mutex
    subst hoc
    rw [enter, take_own m time hlock hc ho] at he
    split_ifs at he
    · obtain ⟨rfl, rfl⟩ := Prod.mk.inj (Option.some.inj he)
      apply deed_modest (e := RT_EOK)
      · rfl
      · rfl
      · rfl
      · exact setMutex_same ⟨rfl, rfl⟩
    · obtain ⟨rfl, rfl⟩ := Prod.mk.inj (Option.some.inj he)
      exact deed_modest rfl rfl rfl fun _ => ⟨rfl, rfl⟩
  by_cases ht : time = 0
  · -- it does not wait
    have hne : (s.os.mutex m).owner ≠ some c := fun he => hoc (Option.some.inj (ho.symm.trans he))
    subst ht
    rw [enter, take_busy m hlock hc hne (mutexOk_some (h.mutexes m) ho).1] at he
    obtain ⟨rfl, rfl⟩ := Prod.mk.inj (Option.some.inj he)
    exact deed_modest rfl rfl rfl fun _ => ⟨rfl, rfl⟩
  · exact blocks_deed h hc hp hok hoc ho ht he

theorem release_deed {m : μ} (he : enter (.release m) s.os = some (k, stop)) :
    Deed c (.release m) s.os k stop := by
  obtain ⟨hr, hcw, -, -⟩ := caller h hc hp
  by_cases ho : (s.os.mutex m).owner = some c
  swap
  · rw [enter, release_foreign m hc ho] at he
    obtain ⟨rfl, rfl⟩ := Prod.mk.inj (Option.some.inj he)
    exact deed_modest rfl rfl rfl fun _ => ⟨rfl, rfl⟩
  obtain ⟨hv, -, hpr⟩ := mutexOk_some (h.mutexes m) ho
  by_cases hone : (s.os.mutex m).hold = 1
  swap
  · rw [enter, release_nested m hc ho hone] at he
    obtain ⟨rfl, rfl⟩ := Prod.mk.inj (Option.some.inj he)
    apply deed_modest (e := (s.os.thread c).error)
    · exact (Function.update_eq_self ..).symm
    · rfl
    · rfl
    · exact setMutex_same ⟨rfl, rfl⟩
  have hf := restored_fields c (s.os.mutex m).originalPriority s.os.thread
  have hold := restored_prio c (s.os.mutex m).originalPriority s.os.thread
  rcases hw : s.os.waiting m with _ | ⟨next, rest⟩
  · -- nobody waits
    obtain ⟨table, group, hk, -⟩ := release_frees m h.sound hc hr ho hone hv hpr hw
    rw [enter, hk] at he
    obtain ⟨rfl, rfl⟩ := Prod.mk.inj (Option.some.inj he)
    refine ⟨fun u _ => (hf u).2.1, fun u _ => .same (lvl_eq (hf u).1),
      Or.inr ⟨.free c m, ⟨rfl, rfl⟩, ?_⟩, Or.inr rfl, fun _ _ u => ⟨(hf u).1, ?_⟩, by rintro ⟨⟩⟩
    swap
    · by_cases hu : u = c
      · subst hu
        refine Or.inr ⟨rfl, m, rfl, ho, hone, hw, ?_⟩
        simp [restored]
      · exact Or.inl (congrArg (fun th => th.currentPriority.toNat) ((hf u).2.2.2 hu))
    refine (congrArg (Step (.free c m) (locks s.os)) (Eq.trans ?_
      (locks_mutex (k := s.os) (m := m) rfl).symm)).mp
      (Step.free (s := locks s.os) (t := c) (m := m) 255 ho hw)
    congr 1
    exact (funext hold).symm
  · -- the mutex goes to the first one
    obtain ⟨table, group, hk, -⟩ := release_hands m h.sound hc hr ho hone hpr hw
    rw [enter, hk] at he
    obtain ⟨rfl, rfl⟩ := Prod.mk.inj (Option.some.inj he)
    have hne : next ≠ c := fun he => hcw m (he ▸ hw ▸ List.mem_cons_self)
    refine ⟨fun u _ => ?_, fun u _ => ?_, Or.inr ⟨.pass c m, ⟨rfl, rfl⟩, ?_⟩, Or.inr rfl,
      by rintro _ ⟨⟩, by rintro ⟨⟩⟩
    · by_cases hu : u = next
      · subst hu
        simp only [Function.update_self]
      · simp only [Function.update_of_ne hu]
        exact (hf u).2.1
    · by_cases hu : u = next
      · subst hu
        refine .given m rfl (by rw [hw]; rfl) ?_ ?_
        · simp [lvl, level]
        · simp
      · refine .same (lvl_eq ?_)
        simp only [Function.update_of_ne hu]
        exact (hf u).1
    · refine (congrArg (Step (.pass c m) (locks s.os)) (Eq.trans ?_
        (locks_mutex (k := s.os) (m := m) rfl).symm)).mp
        (Step.pass (s := locks s.os) (t := c) (m := m) ho hw)
      congr 1
      refine (funext fun u => ?_ : Os.prio _ = _).symm
      by_cases hu : u = next
      · subst hu
        simp only [Os.prio, Function.update_self, Function.update_of_ne hne]
        rfl
      · simp only [Os.prio, Function.update_of_ne hu]
        exact hold u

theorem sleep_deed {n : U32} (hok : (Call.sleep (τ := τ) (μ := μ) n).Allowed idle c s.os)
    (he : enter (.sleep n) s.os = some (k, stop)) : Deed c (.sleep n) s.os k stop := by
  obtain ⟨hr, -, -, -⟩ := caller h hc hp
  obtain ⟨table, group, hk, -⟩ := sleep_spec h.sound hc hr hok.1 hok.2
  rw [enter, hk] at he
  obtain ⟨rfl, rfl⟩ := Prod.mk.inj (Option.some.inj he)
  refine ⟨fun u hu => ?_, fun u hu => .same (lvl_eq ?_),
    Or.inl (locks_same (fun _ => ⟨rfl, rfl⟩) rfl fun u => ?_), Or.inr rfl,
    by rintro _ ⟨⟩, by rintro ⟨⟩⟩
  · simp only [Function.update_of_ne hu]
  · simp only [Function.update_of_ne hu]
  · by_cases hu : u = c
    · subst hu
      simp [Os.prio]
    · simp [Os.prio, hu]

theorem startup_deed (hok : (Call.startup (μ := μ) t).Allowed idle c s.os)
    (he : enter (.startup t) s.os = some (k, stop)) : Deed c (.startup t) s.os k stop := by
  obtain ⟨hr, -, -, -⟩ := caller h hc hp
  have hct : s.os.current ≠ some t := fun hcur => by
    obtain rfl := Option.some.inj (hc.symm.trans hcur)
    exact absurd (hr.symm.trans hok) (by decide)
  obtain ⟨table, group, hk, -⟩ := startup_sound h.sound hok hct
  rw [enter, hk] at he
  obtain ⟨rfl, rfl⟩ := Prod.mk.inj (Option.some.inj he)
  refine ⟨fun u _ => ?_, fun u _ => ?_,
    Or.inl (locks_same (fun _ => ⟨rfl, rfl⟩) rfl fun u => ?_), Or.inr rfl,
    by rintro _ ⟨⟩, by rintro ⟨⟩⟩
  · by_cases hu : u = t
    · subst hu
      simp [started]
    · simp [hu]
  · by_cases hu : u = t
    · exact .started (by rw [hu])
    · exact .same (lvl_eq (by simp [hu]))
  · by_cases hu : u = t
    · subst hu
      simp [Os.prio, started]
    · simp [Os.prio, hu]

theorem exit_deed (hok : (Call.exit (τ := τ) (μ := μ)).Allowed idle c s.os)
    (he : enter .exit s.os = some (k, stop)) : Deed c .exit s.os k stop := by
  obtain ⟨hr, -, -, -⟩ := caller h hc hp
  obtain ⟨table, group, tm, hk, -⟩ := exit_spec h.sound hc hr hok
  rw [enter, hk] at he
  obtain ⟨rfl, rfl⟩ := Prod.mk.inj (Option.some.inj he)
  refine ⟨fun u hu => ?_, fun u hu => .same (lvl_eq ?_),
    Or.inl (locks_same (fun _ => ⟨rfl, rfl⟩) rfl fun u => ?_), Or.inr rfl,
    by rintro _ ⟨⟩, by rintro ⟨⟩⟩
  · simp only [Function.update_of_ne hu]
  · simp only [Function.update_of_ne hu]
  · by_cases hu : u = c
    · subst hu
      simp [Os.prio]
    · simp [Os.prio, hu]

theorem yield_deed (he : enter .yield s.os = some (k, stop)) : Deed c .yield s.os k stop := by
  obtain ⟨k', k₁, c', hk, rfl, hw, -⟩ := yield_yields h hc hp
  rw [enter, hk] at he
  obtain ⟨rfl, rfl⟩ := Prod.mk.inj (Option.some.inj he)
  obtain ⟨-, hr₁⟩ := slice_sound (t := c) h.sound
    (fun th => { th with remainingTick := th.initTick, yield := true })
    fun _ => ⟨rfl, rfl, rfl, rfl, rfl⟩
  have hro := hr₁.trans (switch_rouses hw)
  refine ⟨fun u _ => (hro.same u (by simp)).2, fun u _ => .same (hro.same u (by simp)).1,
    Or.inl (locks_same (fun m => ?_) hw.waiting fun u => congrArg BitVec.toNat (hro.prio u)),
    Or.inl rfl, by rintro _ ⟨⟩, fun _ => switch_top hw⟩
  rw [hro.mutex]
  exact ⟨rfl, rfl⟩

theorem enter_deed (hok : call.Allowed idle c s.os) (he : enter call s.os = some (k, stop)) :
    Deed c call s.os k stop := by
  cases call with
  | take m time => exact take_deed h hc hp hok he
  | release m => exact release_deed h hc hp he
  | sleep n => exact sleep_deed h hc hp hok he
  | yield => exact yield_deed h hc hp he
  | startup t => exact startup_deed h hc hp hok he
  | exit => exact exit_deed h hc hp hok he

end Call

end RtosExample.Kernel.Deeds
