/-
  Avp64.Psp.Core.Interrupts — the interrupt lines of a core.

  A line has a level that `hint(HINT_WFI)` reads, and each change of it is passed on
  to the engine by `interrupt`, which also notifies `m_irqev`.  A notification that
  comes while nobody waits is lost.

    • `no_lost_wakeup`        — a thread that waits without a notification has all
                                lines low,
    • `seesLines_step`        — what one step does to the engine's view of the lines,
    • `engine_sees_lines_iff` — which runs keep that view equal to their levels.
-/
import Avp64.Psp.Core.Thread

namespace Avp64.Psp

open Avp64.Lib

variable {σ : Type} {O : Ocx σ} {F : Set (List RegWrite)} {lines : List U64}

/-! ## §1. Lines and notifications. -/

structure IrqState (σ : Type) extends ThreadState σ where
  /-- `irq[i]->read()`. -/
  level : U64 → Bool
  /-- `m_irqev` was notified while the thread waited for it. -/
  notified : Bool

/-- The thread is suspended in `wait_for_interrupt`. -/
def Thread.waiting : Thread → Bool
  | .inStep _ .wait => true
  | _ => false

theorem Thread.waiting_iff {t : Thread} : t.waiting = true ↔ ∃ i, t = .inStep i .wait := by
  constructor
  · intro h
    cases t with
    | idle => cases h
    | inStep i place =>
        cases place with
        | wait => exact ⟨i, rfl⟩
        | _ => cases h
  · rintro ⟨i, rfl⟩
    rfl

/-- The line gets the level `set`, with `interrupt(irq, set)`: the engine is told, and an
immediate notification reaches the thread if it waits. -/
def IrqState.interrupt (O : Ocx σ) (irq : U64) (set : Bool) (s : IrqState σ) : IrqState σ :=
  { s with
    core := (s.core.call O (.interrupt irq set)).2
    level := Function.update s.level irq set
    notified := s.notified || s.thread.waiting }

inductive IrqEvent where
  | interrupt (irq : U64) (set : Bool)
  | thread (e : ThreadEvent)

/-- `hint` scans the lines when `sync()` has returned, and `wait_for_interrupt` returns
when it was notified. -/
def IrqState.admits (lines : List U64) (s : IrqState σ) : ThreadEvent → Prop
  | .syncReturns irq => irq = lines.any s.level
  | .wakes _ => s.notified = true
  | _ => True

/-- The thread returns from `wait_for_interrupt`. -/
def ThreadEvent.consumes : ThreadEvent → Bool
  | .wakes _ => true
  | _ => false

/-- `lines` are the interrupts that are bound.  A line may change at any time, also while
the engine runs: a callback of the engine can reach the interrupt controller. -/
inductive IrqStep (O : Ocx σ) (F : Set (List RegWrite)) (lines : List U64) :
    IrqState σ → IrqEvent → IrqState σ → Prop
  | interrupt (s : IrqState σ) {irq : U64} (set : Bool) : irq ∈ lines →
      s.core.mCore.isSome = true →
      IrqStep O F lines s (.interrupt irq set) (s.interrupt O irq set)
  | thread (s : IrqState σ) {e : ThreadEvent} {t : ThreadState σ} : s.admits lines e →
      ThreadStep O F s.toThreadState e t →
      IrqStep O F lines s (.thread e)
        { toThreadState := t, level := s.level, notified := s.notified && !e.consumes }

/-- A constructed core with all lines low. -/
def irqCore (O : Ocx σ) (F : Set (List RegWrite)) (lines : List U64) :
    Lts (IrqState σ) IrqEvent where
  init s := ∃ procid coreid,
    s = ⟨⟨(Core.construct O procid coreid 0 true).2, .idle, [], 1⟩, fun _ => false, false⟩
  step := IrqStep O F lines

/-! ## §2. Waiting for an interrupt. -/

variable {s s' : IrqState σ}

/-- A notification is pending for a waiting thread only, and a thread that waits without
one found all lines low, and none has changed since. -/
structure WaitInv (lines : List U64) (s : IrqState σ) : Prop where
  waits : s.notified = true → s.thread.waiting = true
  low : s.thread.waiting = true → s.notified = false → ∀ irq ∈ lines, s.level irq = false

theorem WaitInv.of_not_waiting (hw : s.thread.waiting = false) (hn : s.notified = false) :
    WaitInv lines s := by
  constructor
  · intro h
    rw [hn] at h
    cases h
  · intro h _
    rw [hw] at h
    cases h

/-- The thread does not wait in a state from which it takes a step of its own, unless
it wakes up. -/
theorem WaitInv.not_notified (h : WaitInv lines s) {i : Nat} {place : Place}
    (ht : s.thread = .inStep i place) (hp : place ≠ .wait) : s.notified = false := by
  cases hn : s.notified with
  | false => rfl
  | true =>
      obtain ⟨j, hj⟩ := Thread.waiting_iff.mp (h.waits hn)
      rw [ht] at hj
      injection hj with _ hplace
      exact absurd hplace hp

theorem waitInv_thread {e : ThreadEvent} {t : ThreadState σ} (h : WaitInv lines s)
    (hadm : s.admits lines e) (hst : ThreadStep O F s.toThreadState e t) :
    WaitInv lines
      ({ toThreadState := t, level := s.level, notified := s.notified && !e.consumes } :
        IrqState σ) := by
  cases hst with
  | simulate hidle _ =>
      have hn : s.notified = false := by
        cases hn : s.notified with
        | false => rfl
        | true =>
            have hw := h.waits hn
            rw [hidle] at hw
            cases hw
      exact .of_not_waiting rfl (by rw [hn]; rfl)
  | engineRuns ht _ _ =>
      have hn := h.not_notified ht nofun
      exact .of_not_waiting (by rw [show _ = _ from ht]; rfl) (by rw [hn]; rfl)
  | stepReturns ht => exact .of_not_waiting rfl (by rw [h.not_notified ht nofun]; rfl)
  | hint kind ht _ => exact .of_not_waiting rfl (by rw [h.not_notified ht nofun]; rfl)
  | syncReturns irq ht =>
      have hn := h.not_notified ht nofun
      have hirq : irq = lines.any s.level := hadm
      cases irq with
      | true => exact .of_not_waiting rfl (by rw [hn]; rfl)
      | false =>
          -- the scan has found no line high
          refine ⟨fun _ => rfl, fun _ _ => ?_⟩
          intro line hline
          have hlow := List.any_eq_false.mp hirq.symm line hline
          simpa using hlow
  | wakes cycles ht _ => exact .of_not_waiting rfl (by simp [ThreadEvent.consumes])
  | transportBegins tx ht => exact .of_not_waiting rfl (by rw [h.not_notified ht nofun]; rfl)
  | transportReturns resp ht =>
      exact .of_not_waiting rfl (by rw [h.not_notified ht nofun]; rfl)
  | reset flush created _ _ =>
      constructor
      · intro hn
        exact h.waits (by simpa [ThreadEvent.consumes] using hn)
      · intro hw hn
        exact h.low hw (by simpa [ThreadEvent.consumes] using hn)

/-- A change of a line while the thread waits notifies it. -/
theorem waitInv_interrupt (irq : U64) (set : Bool) (h : WaitInv lines s) :
    WaitInv lines (s.interrupt O irq set) := by
  constructor
  · intro hn
    rcases Bool.or_eq_true_iff.mp hn with hn | hw
    · exact h.waits hn
    · exact hw
  · intro hw hn
    have hnot : s.thread.waiting = false := (Bool.or_eq_false_iff.mp hn).2
    have hw : s.thread.waiting = true := hw
    rw [hnot] at hw
    cases hw

theorem waitInv_of_reachable (hr : (irqCore O F lines).Reachable s) : WaitInv lines s := by
  refine hr.invariant ?_ ?_
  · intro t h0
    obtain ⟨procid, coreid, rfl⟩ := h0
    exact .of_not_waiting rfl rfl
  · intro t e t' h hst
    cases hst with
    | interrupt set _ _ => exact waitInv_interrupt _ set h
    | thread hadm hst => exact waitInv_thread h hadm hst

/-- With an engine, `wait_for_interrupt` can return. -/
theorem wakeUp_ok {core : Core σ} (h : core.mCore.isSome = true) (cycles : U64) :
    ∃ core', core.wakeUp O cycles true = (.ok (), core') := by
  obtain ⟨inst, hinst⟩ := Option.isSome_iff_exists.mp h
  have hslept : ({ core with mSleepCycles := core.mSleepCycles + cycles } : Core σ).mCore
      = some inst := hinst
  unfold Core.wakeUp
  simp only [Bool.not_true, Bool.false_eq_true, if_false]
  rw [Core.call_of_some hslept]
  exact ⟨_, rfl⟩

/-- **No wake-up is lost**: in every reachable state, a thread that waits and was not
notified has all lines low; a scan that finds a line high returns to the engine; and a
thread that waits is notified by the next change of any line, and can go on. -/
theorem no_lost_wakeup (O : Ocx σ) (F : Set (List RegWrite)) (lines : List U64)
    (hr : (irqCore O F lines).Reachable s) :
    (∀ i, s.thread = .inStep i .wait → s.notified = false →
      ∀ irq ∈ lines, s.level irq = false)
    ∧ (∀ high s', IrqStep O F lines s (.thread (.syncReturns high)) s' →
      (∃ irq ∈ lines, s.level irq = true) → ∃ i, s'.thread = .inStep i .engine)
    ∧ (∀ i irq set s', s.thread = .inStep i .wait →
      IrqStep O F lines s (.interrupt irq set) s' →
      s'.notified = true
        ∧ ∀ cycles, ∃ s'', IrqStep O F lines s' (.thread (.wakes cycles)) s'') := by
  have hinv : WaitInv lines s := waitInv_of_reachable hr
  refine ⟨?_, ?_, ?_⟩
  · intro i ht hn
    exact hinv.low (Thread.waiting_iff.mpr ⟨i, ht⟩) hn
  · rintro high s' hst ⟨irq, hirq, hlevel⟩
    cases hst with
    | thread hadm hst =>
        have hhigh : high = lines.any s.level := hadm
        have hany : lines.any s.level = true := List.any_eq_true.mpr ⟨irq, hirq, hlevel⟩
        cases hst with
        | @syncReturns i _ ht =>
            refine ⟨i, ?_⟩
            show Thread.inStep i (if high then .engine else .wait) = _
            rw [hhigh, hany]
            rfl
  · intro i irq set s' ht hst
    cases hst with
    | interrupt _ _ hengine =>
        have hn : (s.interrupt O irq set).notified = true := by
          show (s.notified || s.thread.waiting) = true
          rw [ht]
          exact Bool.or_true _
        refine ⟨hn, fun cycles => ?_⟩
        have hengine' : (s.interrupt O irq set).core.mCore.isSome = true :=
          (Core.call_kept O (.interrupt irq set) s.core).isSome.trans hengine
        obtain ⟨core', hwake⟩ := wakeUp_ok (O := O) hengine' cycles
        exact ⟨_, .thread _ hn (.wakes _ cycles ht hwake)⟩

/-- A core that waits for an interrupt. -/
theorem no_lost_wakeup_waiting :
    ∃ s : IrqState SmallEngine,
      (irqCore smallOcx {Core.tableWrites (fun _ => 0)} [0#64, 1#64]).Reachable s
      ∧ s.thread = .inStep 0 .wait
      ∧ (∀ i, s.thread = .inStep i .wait → s.notified = false →
        ∀ irq ∈ [0#64, 1#64], s.level irq = false)
      ∧ (∀ high s', IrqStep smallOcx {Core.tableWrites (fun _ => 0)} [0#64, 1#64] s
          (.thread (.syncReturns high)) s' →
        (∃ irq ∈ [0#64, 1#64], s.level irq = true) → ∃ i, s'.thread = .inStep i .engine)
      ∧ (∀ i irq set s', s.thread = .inStep i .wait →
        IrqStep smallOcx {Core.tableWrites (fun _ => 0)} [0#64, 1#64] s
          (.interrupt irq set) s' →
        s'.notified = true
          ∧ ∀ cycles, ∃ s'', IrqStep smallOcx {Core.tableWrites (fun _ => 0)} [0#64, 1#64]
              s' (.thread (.wakes cycles)) s'') := by
  have h₀ : (irqCore smallOcx {Core.tableWrites (fun _ => 0)} [0#64, 1#64]).Run [] _ :=
    .start ⟨0, 0, rfl⟩
  have h₁ := h₀.snoc (IrqStep.thread _ (e := .simulate) trivial
    (ThreadStep.simulate _ rfl rfl))
  have h₂ := h₁.snoc (IrqStep.thread _ (e := .hint .wfi) trivial
    (ThreadStep.hint _ .wfi rfl rfl))
  have h₃ := h₂.snoc (IrqStep.thread _ (e := .syncReturns false) rfl
    (ThreadStep.syncReturns _ false rfl))
  exact ⟨_, ⟨_, h₃⟩, rfl,
    no_lost_wakeup smallOcx {Core.tableWrites (fun _ => 0)} [0#64, 1#64] ⟨_, h₃⟩⟩

/-! ## §3. The engine's view of the lines. -/

/-- What is relied on about an engine that has the lines at the levels `told st`: low in
a new instance, set by `interrupt`, and left alone by any other call and by `step`. -/
structure LineLaws (O : Ocx σ) (told : σ → U64 → Bool) : Prop where
  created : ∀ irq, told O.create irq = false
  interrupt : ∀ st irq set,
    told (O.call (.interrupt irq set) st).2 = Function.update (told st) irq set
  other : ∀ c st, (∀ irq set, c ≠ .interrupt irq set) → told (O.call c st).2 = told st
  stepped : ∀ st st', O.step st st' → told st' = told st

variable {told : σ → U64 → Bool}

/-- A new engine was told nothing, whatever was written to its registers. -/
theorem told_initialised (laws : LineLaws O told) {st : σ} (h : Core.Initialised O st)
    (irq : U64) : told st irq = false := by
  induction h with
  | opened procId coreId =>
      rw [laws.other (.setId procId coreId) _ nofun]
      exact laws.created irq
  | @written st regid value _ ih =>
      rw [laws.other (.writeReg regid value) st nofun]
      exact ih

/-- The current engine, if there is one, has the lines as they are. -/
def SeesLines (told : σ → U64 → Bool) (lines : List U64) (s : IrqState σ) : Prop :=
  ∀ inst, s.core.mCore = some inst → ∀ irq ∈ lines, told inst.state irq = s.level irq

/-- The event makes no new engine while a line is high. -/
def IrqEvent.sparesLines (lines : List U64) (s : IrqState σ) : IrqEvent → Prop
  | .thread (.reset true _) => ∀ irq ∈ lines, s.level irq = false
  | _ => True

theorem threadStep_loaded {t t' : ThreadState σ} {e : ThreadEvent} (h : t.core.Loaded)
    (hst : ThreadStep O F t e t') : t'.core.Loaded := by
  cases hst with
  | simulate _ hinst =>
      rw [Core.simulate_of_some hinst]
      exact h
  | engineRuns _ _ _ => exact h
  | stepReturns _ => exact h
  | hint kind _ _ => exact h
  | syncReturns irq _ => exact h
  | wakes cycles _ hwake =>
      rw [show _ = _ from wakeUp_eq hwake]
      exact (Core.call_kept O .stop
        { t.core with mSleepCycles := t.core.mSleepCycles + cycles }).loaded.mpr h
  | transportBegins tx _ => exact h
  | transportReturns resp _ => exact h
  | reset flush created _ _ => exact (Core.reset_engine h flush t.next created).loaded

theorem irqCore_loaded (hr : (irqCore O F lines).Reachable s) : s.core.Loaded := by
  refine hr.invariant (I := fun t => t.core.Loaded) ?_ ?_
  · intro t h0
    obtain ⟨procid, coreid, rfl⟩ := h0
    exact ⟨rfl, rfl⟩
  · intro t e t' h hst
    cases hst with
    | interrupt set _ _ => exact (Core.call_kept O (.interrupt _ set) t.core).loaded.mpr h
    | thread _ hst => exact threadStep_loaded h hst

/-- **A step other than a reset tells the engine nothing**: no call of it is
`interrupt`. -/
theorem threadStep_told (laws : LineLaws O told) {t t' : ThreadState σ} {e : ThreadEvent}
    (hst : ThreadStep O F t e t') (he : ∀ created res, e ≠ .reset created res)
    {inst' : OcxInstance σ} (hinst' : t'.core.mCore = some inst') :
    ∃ inst, t.core.mCore = some inst ∧ told inst'.state = told inst.state := by
  cases hst with
  | simulate _ hinst =>
      rw [Core.simulate_of_some hinst] at hinst'
      exact ⟨inst', hinst', rfl⟩
  | @engineRuns inst st _ hinst hst =>
      injection hinst' with hinst'
      exact ⟨inst, hinst, by rw [← hinst']; exact laws.stepped inst.state st hst⟩
  | stepReturns _ => exact ⟨inst', hinst', rfl⟩
  | hint kind _ _ => exact ⟨inst', hinst', rfl⟩
  | syncReturns irq _ => exact ⟨inst', hinst', rfl⟩
  | wakes cycles _ hwake =>
      -- the call of `stop`
      rw [show _ = _ from wakeUp_eq hwake] at hinst'
      obtain ⟨inst, hinst, rfl⟩ := Core.call_instance hinst'
      exact ⟨inst, hinst, laws.other .stop inst.state nofun⟩
  | transportBegins tx _ => exact ⟨inst', hinst', rfl⟩
  | transportReturns resp _ => exact ⟨inst', hinst', rfl⟩
  | reset flush created _ _ => exact absurd rfl (he _ _)

/-- A change of a line is told to the engine. -/
theorem seesLines_interrupt (laws : LineLaws O told) (h : SeesLines told lines s)
    (line : U64) (set : Bool) : SeesLines told lines (s.interrupt O line set) := by
  intro inst' hinst' irq hirq
  obtain ⟨inst, hinst, rfl⟩ := Core.call_instance hinst'
  show told (O.call (.interrupt line set) inst.state).2 irq
    = Function.update s.level line set irq
  rw [laws.interrupt]
  by_cases heq : irq = line
  · rw [heq, Function.update_self, Function.update_self]
  · rw [Function.update_of_ne heq, Function.update_of_ne heq]
    exact h inst hinst irq hirq

/-- A step of the thread keeps the view, unless it is a reset that makes a new engine
while a line is high. -/
theorem seesLines_thread (laws : LineLaws O told) {e : ThreadEvent} {u : ThreadState σ}
    {notified : Bool} (h : SeesLines told lines s) (hloaded : s.core.Loaded)
    (hst : ThreadStep O F s.toThreadState e u) :
    SeesLines told lines { toThreadState := u, level := s.level, notified := notified }
      ↔ (IrqEvent.thread e).sparesLines lines s := by
  rcases threadStep_reset_or hst with ⟨flush, created, rfl, rfl⟩ | he
  · have hlife := Core.reset_engine (O := O) hloaded flush s.next created
    cases created with
    | false =>
        refine iff_of_true ?_ trivial
        intro inst hinst
        have hsome : (s.core.reset O flush s.next false).2.2.mCore.isSome = true :=
          Option.isSome_of_eq_some hinst
        rw [hlife.isSome] at hsome
        cases hsome
    | true =>
        -- the new engine has all lines low
        obtain ⟨inst, hinst⟩ := Option.isSome_iff_exists.mp hlife.isSome
        have hlow : ∀ irq, told inst.state irq = false :=
          told_initialised laws (Core.reset_new hinst).2
        constructor
        · intro hsees irq hirq
          exact (hsees inst hinst irq hirq).symm.trans (hlow irq)
        · intro hlevels inst' hinst' irq hirq
          have heq : inst = inst' := Option.some.inj (hinst.symm.trans hinst')
          rw [← heq, hlow irq]
          exact (hlevels irq hirq).symm
  · have hspares : (IrqEvent.thread e).sparesLines lines s := by
      cases e with
      | reset created res => exact absurd rfl (he created res)
      | _ => trivial
    refine iff_of_true ?_ hspares
    intro inst' hinst' irq hirq
    obtain ⟨inst, hinst, htold⟩ := threadStep_told laws hst he hinst'
    rw [htold]
    exact h inst hinst irq hirq

/-- **What one step does to the engine's view of the lines.** -/
theorem seesLines_step (laws : LineLaws O told) {e : IrqEvent} (h : SeesLines told lines s)
    (hloaded : s.core.Loaded) (hst : IrqStep O F lines s e s') :
    SeesLines told lines s' ↔ e.sparesLines lines s := by
  cases hst with
  | interrupt set _ _ => exact iff_of_true (seesLines_interrupt laws h _ set) trivial
  | thread _ hst => exact seesLines_thread laws h hloaded hst

/-- **The engine sees the lines as they are**: throughout a run every line has, in the
current engine, the level that `hint` reads, exactly if no reset makes a new engine while
a line is high. -/
theorem engine_sees_lines_iff (O : Ocx σ) (F : Set (List RegWrite)) (lines : List U64)
    (told : σ → U64 → Bool) (laws : LineLaws O told)
    {tr : List (IrqState σ × IrqEvent)} (hr : (irqCore O F lines).Run tr s) :
    Always (fun _ t => SeesLines told lines t) tr s
      ↔ ∀ x ∈ tr, x.2.sparesLines lines x.1 := by
  refine hr.always_iff (C := fun t e => e.sparesLines lines t) ?_ ?_
  · intro t h0 inst hinst irq _
    obtain ⟨procid, coreid, rfl⟩ := h0
    injection hinst with hinst
    rw [← hinst]
    exact told_initialised laws (.opened procid coreid) irq
  · intro tr t e t' hpre h hst
    exact seesLines_step laws h (irqCore_loaded ⟨tr, hpre⟩) hst

/-- An engine that has interrupt lines and nothing else. -/
def lineOcx : Ocx (U64 → Bool) where
  create _ := false
  call
    | .interrupt irq set, st => (true, Function.update st irq set)
    | _, st => (true, st)
  readReg _ _ := some 0
  pcRegid _ := 32#64
  insnCount _ := 0
  pageSize := 4096#64
  step st st' := st' = st

theorem lineOcx_laws : LineLaws lineOcx id where
  created _ := rfl
  interrupt _ _ _ := rfl
  other c st hc := by
    cases c with
    | interrupt irq set => exact absurd rfl (hc irq set)
    | _ => rfl
  stepped _ _ h := h

/-- A line rises, and the engine is told. -/
theorem engine_sees_lines_one :
    ∃ (tr : List (IrqState (U64 → Bool) × IrqEvent)) (s : IrqState (U64 → Bool)),
      (irqCore lineOcx {Core.tableWrites (fun _ => 0)} [0#64]).Run tr s
      ∧ s.level 0#64 = true
      ∧ (Always (fun _ t => SeesLines id [0#64] t) tr s
        ↔ ∀ x ∈ tr, x.2.sparesLines [0#64] x.1) := by
  have hr : (irqCore lineOcx {Core.tableWrites (fun _ => 0)} [0#64]).Run _ _ :=
    .snoc (.start ⟨0, 0, rfl⟩) (IrqStep.interrupt _ true List.mem_cons_self rfl)
  exact ⟨_, _, hr, rfl, engine_sees_lines_iff lineOcx {Core.tableWrites (fun _ => 0)}
    [0#64] id lineOcx_laws hr⟩

/-- A line rises and the core is reset: the new engine was told nothing, and `hint` finds
the line high. -/
theorem reset_loses_lines :
    ¬ ∀ (tr : List (IrqState (U64 → Bool) × IrqEvent)) (s : IrqState (U64 → Bool)),
      (irqCore lineOcx {Core.tableWrites (fun _ => 0)} [0#64]).Run tr s →
      SeesLines id [0#64] s := by
  intro hall
  have h₁ : (irqCore lineOcx {Core.tableWrites (fun _ => 0)} [0#64]).Run _ _ :=
    .snoc (.start ⟨0, 0, rfl⟩) (IrqStep.interrupt _ true List.mem_cons_self rfl)
  have h₂ := h₁.snoc
    (IrqStep.thread _ (e := .reset true _) trivial (ThreadStep.reset _ _ true rfl nofun))
  obtain ⟨inst, hinst⟩ := Option.isSome_iff_exists.mp
    (Core.reset_engine (O := lineOcx) (irqCore_loaded ⟨_, h₁⟩)
      (Core.tableWrites (fun _ => 0)) 1 true).isSome
  have hhigh := hall _ _ h₂ inst hinst 0#64 List.mem_cons_self
  have hlow := told_initialised lineOcx_laws (Core.reset_new hinst).2 0#64
  rw [hlow] at hhigh
  cases hhigh

end Avp64.Psp
