/-
  Avp64.Psp.Core.Cycles — the cycle count of a core.

  The engine counts the instructions of its latest `step` and begins again at the
  next one.  `simulate` adds the count of the step before to `m_run_cycles`, and
  `cycle_count` reports both together; a reset begins with a new engine at zero.

    • `InsnCountLaws`       — what is known of the engine's counter,
    • `cycleCount_step`     — what one step adds,
    • `cycleCount_of_run`   — the count is the number of executed instructions.
-/
import Avp64.Psp.Core.Thread

namespace Avp64.Psp

open Avp64.Lib

variable {σ : Type} {O : Ocx σ} {F : Set (List RegWrite)}

/-! ## §1. The count and the engine's counter. -/

/-- `cycle_count()`; there is none through a null `m_core`. -/
def Core.cycleCount (O : Ocx σ) (core : Core σ) : Option U64 :=
  core.mCore.map (fun inst => core.mRunCycles + O.insnCount inst.state)

/-- What `step` does to an engine. -/
structure OcxExecution (σ : Type) where
  begins : σ → σ → Prop
  /-- A stretch in which this many instructions are executed. -/
  executes : Nat → σ → σ → Prop

/-- `insn_count` counts the instructions of the latest `step` from its beginning on. -/
structure InsnCountLaws (O : Ocx σ) (X : OcxExecution σ) : Prop where
  create : O.insnCount O.create = 0
  call : ∀ c st, O.insnCount (O.call c st).2 = O.insnCount st
  begins : ∀ {st st'}, X.begins st st' → O.insnCount st' = 0
  executes : ∀ {k st st'}, X.executes k st st' →
    O.insnCount st' = O.insnCount st + BitVec.ofNat 64 k

/-! ## §2. Steps. -/

/-- The engine executes nothing in the event: it calls back or returns, or the core is
reset. -/
def ThreadEvent.passive : ThreadEvent → Prop
  | .simulate => False
  | .engineRuns => False
  | _ => True

inductive CycleEvent where
  | simulate
  | executes (k : Nat)
  /-- Any call through `m_core`, also one that comes within a step. -/
  | call (c : OcxCall)
  | thread (e : ThreadEvent)

inductive CycleStep (O : Ocx σ) (X : OcxExecution σ) (F : Set (List RegWrite)) :
    ThreadState σ → CycleEvent → ThreadState σ → Prop
  | simulate (s : ThreadState σ) {t : ThreadState σ} {inst : OcxInstance σ} {st : σ} :
      ThreadStep O F s .simulate t → t.core.mCore = some inst →
      X.begins inst.state st →
      CycleStep O X F s .simulate
        { t with core := { t.core with mCore := some ⟨inst.id, st⟩ } }
  | executes (s : ThreadState σ) {k : Nat} {inst : OcxInstance σ} {st : σ} :
      s.thread = .inStep inst.id .engine → s.core.mCore = some inst →
      X.executes k inst.state st →
      CycleStep O X F s (.executes k)
        { s with core := { s.core with mCore := some ⟨inst.id, st⟩ } }
  | call (s : ThreadState σ) (c : OcxCall) : s.core.mCore.isSome = true →
      CycleStep O X F s (.call c) { s with core := (s.core.call O c).2 }
  | thread (s : ThreadState σ) {e : ThreadEvent} {t : ThreadState σ} :
      e.passive → ThreadStep O F s e t → CycleStep O X F s (.thread e) t

/-- A constructed core. -/
def coreCycles (O : Ocx σ) (X : OcxExecution σ) (F : Set (List RegWrite)) (procid coreid : U64) :
    Lts (ThreadState σ) CycleEvent where
  init s := s = ⟨(Core.construct O procid coreid 0 true).2, .idle, [], 1⟩
  step := CycleStep O X F

/-! ### The instructions executed since the last reset. -/

def CycleEvent.count (n : Nat) : CycleEvent → Nat
  | .executes k => n + k
  | .thread (.reset _ _) => 0
  | _ => n

def executed (tr : List (ThreadState σ × CycleEvent)) : Nat :=
  tr.foldl (fun n x => x.2.count n) 0

theorem executed_snoc (tr : List (ThreadState σ × CycleEvent)) (x : ThreadState σ × CycleEvent) :
    executed (tr ++ [x]) = x.2.count (executed tr) := by
  unfold executed
  rw [List.foldl_append]
  rfl

def CycleEvent.isReset : CycleEvent → Bool
  | .thread (.reset _ _) => true
  | _ => false

/-- Between two resets the number only grows. -/
theorem executed_mono (pre : List (ThreadState σ × CycleEvent)) :
    ∀ suf : List (ThreadState σ × CycleEvent), (∀ x ∈ suf, x.2.isReset = false) →
      executed pre ≤ executed (pre ++ suf) := by
  intro suf
  induction suf using List.reverseRecOn with
  | nil => intro _; simp
  | append_singleton suf x ih =>
      intro hsuf
      have hprev := ih (fun y hy => hsuf y (List.mem_append_left _ hy))
      have hx : x.2.isReset = false := hsuf x (by simp)
      rw [← List.append_assoc, executed_snoc]
      refine Nat.le_trans hprev ?_
      unfold CycleEvent.count
      split
      · exact Nat.le_add_right _ _
      · next heq => rw [heq] at hx; cases hx
      · exact Nat.le_refl _

/-! ## §3. What the operations do to the count. -/

namespace Core

variable {X : OcxExecution σ} {core core' : Core σ}

theorem cycleCount_call (hO : InsnCountLaws O X) (c : OcxCall) (core : Core σ) :
    (core.call O c).2.cycleCount O = core.cycleCount O := by
  cases h : core.mCore with
  | none => rw [call_of_none h]
  | some inst =>
      rw [call_of_some h]
      unfold cycleCount
      rw [h]
      simp [hO.call]

theorem cycleCount_wakeUp (hO : InsnCountLaws O X) {cycles : U64}
    (h : core.wakeUp O cycles true = (.ok (), core')) :
    core'.cycleCount O = core.cycleCount O := by
  rw [wakeUp_eq h]
  exact cycleCount_call hO .stop { core with mSleepCycles := core.mSleepCycles + cycles }

/-- An engine that has only been set up has executed nothing. -/
theorem insnCount_initialised (hO : InsnCountLaws O X) {st : σ} (h : Initialised O st) :
    O.insnCount st = 0 := by
  induction h with
  | opened procId coreId => rw [hO.call, hO.create]
  | written regid value _ ih => rw [hO.call, ih]

/-- The core has executed `n` instructions, by its own count. -/
def Counted (O : Ocx σ) (n : Nat) (core : Core σ) : Prop :=
  ∀ c, core.cycleCount O = some c → c = BitVec.ofNat 64 n

theorem Counted.congr {n : Nat} (h : core.Counted O n)
    (heq : core'.cycleCount O = core.cycleCount O) : core'.Counted O n := by
  intro c hc
  rw [heq] at hc
  exact h c hc

/-- A core with a new engine starts at zero. -/
theorem counted_fresh (hO : InsnCountLaws O X)
    (hinit : ∀ inst, core.mCore = some inst → Initialised O inst.state)
    (hrun : core.mRunCycles = 0) : core.Counted O 0 := by
  intro c hc
  unfold cycleCount at hc
  obtain ⟨inst, hinst, rfl⟩ := Option.map_eq_some_iff.mp hc
  rw [hrun, insnCount_initialised hO (hinit inst hinst)]
  rfl

theorem counted_reset (hO : InsnCountLaws O X) (flush : List RegWrite) (fresh : Nat) (created : Bool)
    (core : Core σ) : (core.reset O flush fresh created).2.2.Counted O 0 :=
  counted_fresh hO (fun _ hinst => (reset_new hinst).2)
    (reset_case O flush fresh created core).mRunCycles

/-- `simulate` moves the count of the last step to `m_run_cycles` before the engine
clears it. -/
theorem counted_simulate (hO : InsnCountLaws O X) {n : Nat} {inst : OcxInstance σ} {st : σ}
    (hcore : core.mCore = some inst) (hbegins : X.begins inst.state st)
    (h : core.Counted O n) :
    ({ (core.simulate O).2 with mCore := some ⟨inst.id, st⟩ } : Core σ).Counted O n := by
  have hn := h (core.mRunCycles + O.insnCount inst.state) (by
    unfold cycleCount
    rw [hcore]
    rfl)
  intro c hc
  unfold cycleCount simulate at hc
  rw [hcore, Option.map_some, hO.begins hbegins] at hc
  injection hc with hc
  rw [← hc, ← hn]
  exact BitVec.add_zero _

theorem counted_executes (hO : InsnCountLaws O X) {n k : Nat} {inst : OcxInstance σ} {st : σ}
    (hcore : core.mCore = some inst) (hexec : X.executes k inst.state st)
    (h : core.Counted O n) :
    ({ core with mCore := some ⟨inst.id, st⟩ } : Core σ).Counted O (n + k) := by
  have hn := h (core.mRunCycles + O.insnCount inst.state) (by
    unfold cycleCount
    rw [hcore]
    rfl)
  intro c hc
  unfold cycleCount at hc
  rw [Option.map_some, hO.executes hexec] at hc
  injection hc with hc
  rw [← hc, BitVec.ofNat_add, ← hn, BitVec.add_assoc]

end Core

/-! ## §4. Runs. -/

variable {X : OcxExecution σ} {s s' : ThreadState σ}

/-- A passive step that is no reset leaves the count alone. -/
theorem cycleCount_passive (hO : InsnCountLaws O X) {e : ThreadEvent}
    (hst : ThreadStep O F s e s') (he : e.passive)
    (hreset : ∀ created res, e ≠ .reset created res) :
    s'.core.cycleCount O = s.core.cycleCount O := by
  cases hst with
  | simulate _ _ => exact he.elim
  | engineRuns _ _ _ => exact he.elim
  | stepReturns _ => rfl
  | hint kind _ _ => rfl
  | syncReturns irq _ => rfl
  | wakes cycles _ hwake => exact Core.cycleCount_wakeUp hO hwake
  | transportBegins tx _ => rfl
  | transportReturns resp _ => rfl
  | reset flush created _ _ => exact absurd rfl (hreset _ _)

theorem counted_passive (hO : InsnCountLaws O X) {e : ThreadEvent} {n : Nat}
    (h : s.core.Counted O n) (hst : ThreadStep O F s e s') (he : e.passive) :
    s'.core.Counted O ((CycleEvent.thread e).count n) := by
  rcases threadStep_reset_or hst with ⟨flush, created, rfl, rfl⟩ | hreset
  · exact Core.counted_reset hO flush s.next created s.core
  · have hcount : (CycleEvent.thread e).count n = n := by
      cases e with
      | reset created res => exact absurd rfl (hreset created res)
      | _ => rfl
    rw [hcount]
    exact h.congr (cycleCount_passive hO hst he hreset)

/-- **One step** adds what it executes, and a reset begins again. -/
theorem cycleCount_step (hO : InsnCountLaws O X) {e : CycleEvent} {n : Nat}
    (h : s.core.Counted O n) (hst : CycleStep O X F s e s') :
    s'.core.Counted O (e.count n) := by
  cases hst with
  | simulate hthread hinst hbegins =>
      cases hthread with
      | simulate _ hcore =>
          -- `simulate` itself keeps the engine
          unfold Core.simulate at hinst
          rw [hcore] at hinst
          injection hinst with hinst
          rw [← hinst] at hbegins
          have hnew := Core.counted_simulate hO hcore hbegins h
          rw [← hinst]
          exact hnew
  | executes _ hcore hexec => exact Core.counted_executes hO hcore hexec h
  | call c _ => exact h.congr (Core.cycleCount_call hO c s.core)
  | thread he hthread => exact counted_passive hO h hthread he

/-- **The count of a run** is the number of instructions that were executed in it. -/
theorem cycleCount_of_run (hO : InsnCountLaws O X) {procid coreid : U64}
    {tr : List (ThreadState σ × CycleEvent)}
    (hr : (coreCycles O X F procid coreid).Run tr s) :
    s.core.Counted O (executed tr) := by
  induction hr with
  | @start t h0 =>
      rw [show t = _ from h0]
      obtain ⟨st, _, hinit, hnew⟩ := Core.construct_opened O procid coreid 0
      refine Core.counted_fresh hO ?_ ?_
      · intro inst hinst
        rw [hnew] at hinst
        injection hinst with hinst
        rw [← hinst]
        exact hinit
      · rw [hnew]
        rfl
  | @snoc tr t t' e hpre hst ih =>
      rw [executed_snoc]
      exact cycleCount_step hO ih hst

end Avp64.Psp
