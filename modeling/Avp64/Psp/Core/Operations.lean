/-
  Avp64.Psp.Core.Operations — what the operations of `core` do to the engine and
  to the fields of the core.

  Every operation reaches the engine through `call`, which replaces the state of
  the instance and nothing else.  `reset_case` lists the ways in which a reset can
  end; what is said about resets elsewhere is proved from it.

    • `call_kept`, `writeRegsDbg_kept` — calls keep the instance and the fields,
    • `openCore_case`, `reset_case`    — the outcomes of opening and resetting,
    • `reset_error_text`               — the errors a reset raises,
    • `reset_new`, `reset_engine`      — the engine a reset leaves, and the core.
-/
import Avp64.Psp.Core.Def

namespace Avp64.Psp.Core

variable {σ : Type} {O : Ocx σ} {core core' : Core σ}

/-! ## §1. Calls through `m_core`. -/

theorem call_of_some {inst : OcxInstance σ} (h : core.mCore = some inst) (c : OcxCall) :
    core.call O c = (.ok (O.call c inst.state).1,
      { core with mCore := some { inst with state := (O.call c inst.state).2 } }) := by
  unfold call
  rw [h]

theorem call_of_none (h : core.mCore = none) (c : OcxCall) :
    core.call O c = (.error .nullCore, core) := by
  unfold call
  rw [h]

/-- The instance after a call is the one before it, in the state the call has led to. -/
theorem call_instance {c : OcxCall} {inst' : OcxInstance σ}
    (h : (core.call O c).2.mCore = some inst') :
    ∃ inst, core.mCore = some inst ∧ inst' = ⟨inst.id, (O.call c inst.state).2⟩ := by
  cases hinst : core.mCore with
  | none => rw [call_of_none hinst, hinst] at h; cases h
  | some inst =>
      rw [call_of_some hinst] at h
      injection h with h
      exact ⟨inst, rfl, h.symm⟩

/-- `core'` is `core` with the same instance in another state. -/
structure Kept (core core' : Core σ) : Prop where
  frame : core' = { core with mCore := core'.mCore }
  id : core'.mCore.map (·.id) = core.mCore.map (·.id)

theorem Kept.refl (core : Core σ) : Kept core core := ⟨rfl, rfl⟩

theorem Kept.trans {core'' : Core σ} (h : Kept core core') (h' : Kept core' core'') :
    Kept core core'' := by
  refine ⟨?_, h'.id.trans h.id⟩
  have h2 := h'.frame
  rw [h.frame] at h2
  exact h2

theorem Kept.isSome (h : Kept core core') : core'.mCore.isSome = core.mCore.isSome := by
  have hid := congrArg Option.isSome h.id
  simpa using hid

/-- The engine is in the same instance, if there is one. -/
theorem Kept.exists_some (h : Kept core core') {inst : OcxInstance σ}
    (hs : core.mCore = some inst) : ∃ st, core'.mCore = some ⟨inst.id, st⟩ := by
  have hid := h.id
  rw [hs] at hid
  obtain ⟨inst', hs', heq⟩ := Option.map_eq_some_iff.mp hid
  refine ⟨inst'.state, ?_⟩
  rw [hs', show inst.id = inst'.id from heq.symm]

theorem call_kept (O : Ocx σ) (c : OcxCall) (core : Core σ) :
    Kept core (core.call O c).2 := by
  cases h : core.mCore with
  | none => rw [call_of_none h]; exact .refl core
  | some inst => rw [call_of_some h]; exact ⟨rfl, by rw [h]; rfl⟩

/-- `simulate` adds the count of the last step to `m_run_cycles`. -/
theorem simulate_of_some {inst : OcxInstance σ} (h : core.mCore = some inst) :
    core.simulate O
      = (.ok (), { core with mRunCycles := core.mRunCycles + O.insnCount inst.state }) := by
  unfold simulate
  rw [h]

/-! ## §2. `write_reg_dbg`. -/

/-- `write_reg_dbg` leaves the core alone or makes one call of `write_reg`. -/
theorem writeRegDbg_cases (O : Ocx σ) (regno value : U64) (len : Nat) (core : Core σ) :
    (core.writeRegDbg O regno value len).2 = core
    ∨ core.writeRegDbg O regno value len = core.call O (.writeReg regno value) := by
  unfold writeRegDbg
  cases core.mCore with
  | none => exact .inl rfl
  | some inst =>
      simp only
      split
      · split
        · exact .inl rfl
        · cases core.programCounter O with
          | error e => exact .inl rfl
          | ok pc =>
              simp only
              split
              · exact .inl rfl
              · split
                · exact .inl rfl
                · exact .inr rfl
      · exact .inr rfl

theorem writeRegDbg_kept (O : Ocx σ) (regno value : U64) (len : Nat) (core : Core σ) :
    Kept core (core.writeRegDbg O regno value len).2 := by
  rcases writeRegDbg_cases O regno value len core with h | h
  · rw [h]; exact .refl core
  · rw [h]; exact call_kept O _ core

/-- The write of another value to the program counter. -/
theorem writeRegDbg_pc {inst : OcxInstance σ} (h : core.mCore = some inst) {pc value : U64}
    (hpc : O.readReg inst.state (O.pcRegid inst.state) = some pc) (hne : value ≠ pc) :
    core.writeRegDbg O (O.pcRegid inst.state) value 8 =
      if core.mTransport then (.ok false, core)
      else core.call O (.writeReg (O.pcRegid inst.state) value) := by
  unfold writeRegDbg programCounter
  rw [h]
  simp [hpc, hne]

/-- What every write of a register keeps, a sequence of them keeps. -/
theorem writeRegsDbg_invariant {P : Core σ → Prop}
    (hwrite : ∀ (w : RegWrite) core, P core →
      P (core.writeRegDbg O w.regno w.value w.len).2) :
    ∀ (ws : List RegWrite) (core : Core σ), P core → P (core.writeRegsDbg O ws).2 := by
  intro ws
  induction ws with
  | nil => intro core h; exact h
  | cons w ws ih =>
      intro core h
      have hw := hwrite w core h
      -- an error ends the sequence, with the core as the failed write left it
      unfold writeRegsDbg
      revert hw
      cases core.writeRegDbg O w.regno w.value w.len with
      | mk res core₁ =>
          intro hw
          cases res with
          | error e => exact hw
          | ok b => exact ih core₁ hw

theorem writeRegsDbg_kept (O : Ocx σ) (ws : List RegWrite) (core : Core σ) :
    Kept core (core.writeRegsDbg O ws).2 := by
  refine writeRegsDbg_invariant ?_ ws core (.refl core)
  intro w core' h
  exact h.trans (writeRegDbg_kept O w.regno w.value w.len core')

/-! ## §3. New engines. -/

/-- The states `open_core` and writes of registers can leave a new engine in. -/
inductive Initialised (O : Ocx σ) : σ → Prop
  | opened (procId coreId : U64) : Initialised O (O.call (.setId procId coreId) O.create).2
  | written {st : σ} (regid value : U64) : Initialised O st →
      Initialised O (O.call (.writeReg regid value) st).2

theorem writeRegsDbg_initialised (O : Ocx σ) (ws : List RegWrite) (core : Core σ)
    (hin : ∀ inst, core.mCore = some inst → Initialised O inst.state) :
    ∀ inst, (core.writeRegsDbg O ws).2.mCore = some inst → Initialised O inst.state := by
  refine writeRegsDbg_invariant
    (P := fun core => ∀ inst, core.mCore = some inst → Initialised O inst.state)
    ?_ ws core hin
  intro w core hin inst hs
  -- the register was refused, or written by one call
  rcases writeRegDbg_cases O w.regno w.value w.len core with h | h
  · rw [h] at hs
    exact hin inst hs
  · rw [h] at hs
    cases hc : core.mCore with
    | none => rw [call_of_none hc, hc] at hs; cases hs
    | some inst₀ =>
        rw [call_of_some hc] at hs
        injection hs with hs
        rw [← hs]
        exact .written w.regno w.value (hin inst₀ hc)

/-- The library was loaded, as every constructed core has it. -/
def Loaded (core : Core σ) : Prop := core.mOcxHandle = true ∧ core.mCreateInstance = true

theorem Kept.loaded (h : Kept core core') : core'.Loaded ↔ core.Loaded := by
  rw [h.frame]
  exact Iff.rfl

/-- **The outcomes of `open_core`** on a core without an engine. -/
inductive OpenCase (O : Ocx σ) (fresh : Nat) (created : Bool) (core : Core σ) :
    Except CoreError Unit → Core σ → Prop
  | failed (e : CoreError) : ¬ (core.Loaded ∧ created = true) →
      OpenCase O fresh created core (.error e) core
  | opened (st : σ) : core.Loaded → created = true → Initialised O st →
      OpenCase O fresh created core (.ok ()) { core with mCore := some ⟨fresh, st⟩ }

theorem openCore_case (O : Ocx σ) (fresh : Nat) (created : Bool)
    (hnone : core.mCore = none) :
    OpenCase O fresh created core (core.openCore O fresh created).1
      (core.openCore O fresh created).2 := by
  unfold openCore
  rw [if_neg (by rw [hnone]; simp)]
  -- the checks of the source, one after the other
  by_cases hh : core.mOcxHandle = true
  · rw [if_neg (by rw [hh]; simp)]
    by_cases hf : core.mCreateInstance = true
    · rw [if_neg (by rw [hf]; simp)]
      by_cases hc : created = true
      · rw [if_neg (by rw [hc]; simp)]
        exact .opened _ ⟨hh, hf⟩ hc (.opened core.mProcId core.mCoreId)
      · rw [if_pos (by simpa using hc)]
        exact .failed _ (fun h => hc h.2)
    · rw [if_pos (by simpa using hf)]
      exact .failed _ (fun h => hf h.1.2)
  · rw [if_pos (by simpa using hh)]
    exact .failed _ (fun h => hh h.1.1)

/-! ## §4. `reset`. -/

theorem closeCore_eq (core : Core σ) :
    core.closeCore = ((core.mCore.map (·.id)).toList, { core with mCore := none }) := by
  unfold closeCore
  cases h : core.mCore with
  | none =>
      show ([], core) = ([], { core with mCore := none })
      rw [← h]
  | some inst => rfl

/-- The core with its counters and its flag reset. -/
def cleared (core : Core σ) : Core σ :=
  { core with mRunCycles := 0, mSleepCycles := 0, mTransport := false }

/-- **The outcomes of `reset`.** -/
inductive ResetCase (O : Ocx σ) (fresh : Nat) (created : Bool) (core : Core σ) :
    Except CoreError Unit → Core σ → Prop
  /-- No new engine: the core is left without one. -/
  | closed (e : CoreError) : ¬ (core.Loaded ∧ created = true) →
      ResetCase O fresh created core (.error e) { core.cleared with mCore := none }
  /-- A register cannot be written back. -/
  | unflushed (e : CoreError) (st : σ) : core.Loaded → created = true →
      Initialised O st →
      ResetCase O fresh created core (.error e)
        { core.cleared with mCore := some ⟨fresh, st⟩ }
  | completed (st : σ) : core.Loaded → created = true → Initialised O st →
      ResetCase O fresh created core (.ok ())
        { core.cleared with
          mCore := some ⟨fresh, st⟩
          timerIrqOut := fun _ => false
          timerEvents := fun _ => none }

section

variable {flush : List RegWrite} {fresh : Nat} {created : Bool} {core₁ core₂ : Core σ}
  {e : CoreError}

theorem reset_of_failed
    (hopen : ({ core.cleared with mCore := none } : Core σ).openCore O fresh created
      = (.error e, core₁)) :
    core.reset O flush fresh created
      = (.error e, (core.mCore.map (·.id)).toList, core₁) := by
  unfold reset
  simp only [closeCore_eq]
  simp only [cleared] at hopen
  rw [hopen]

theorem reset_of_unflushed
    (hopen : ({ core.cleared with mCore := none } : Core σ).openCore O fresh created
      = (.ok (), core₁))
    (hflush : core₁.writeRegsDbg O flush = (.error e, core₂)) :
    core.reset O flush fresh created
      = (.error e, (core.mCore.map (·.id)).toList, core₂) := by
  unfold reset
  simp only [closeCore_eq]
  simp only [cleared] at hopen
  rw [hopen]
  simp only [hflush]

theorem reset_of_flushed
    (hopen : ({ core.cleared with mCore := none } : Core σ).openCore O fresh created
      = (.ok (), core₁))
    (hflush : core₁.writeRegsDbg O flush = (.ok (), core₂)) :
    core.reset O flush fresh created
      = (.ok (), (core.mCore.map (·.id)).toList,
          { core₂ with timerIrqOut := fun _ => false, timerEvents := fun _ => none }) := by
  unfold reset
  simp only [closeCore_eq]
  simp only [cleared] at hopen
  rw [hopen]
  simp only [hflush]

end

theorem reset_deleted (O : Ocx σ) (flush : List RegWrite) (fresh : Nat) (created : Bool)
    (core : Core σ) :
    (core.reset O flush fresh created).2.1 = (core.mCore.map (·.id)).toList := by
  unfold reset
  simp only [closeCore_eq]
  split
  · rfl
  · split <;> rfl

theorem reset_case (O : Ocx σ) (flush : List RegWrite) (fresh : Nat) (created : Bool)
    (core : Core σ) :
    ResetCase O fresh created core (core.reset O flush fresh created).1
      (core.reset O flush fresh created).2.2 := by
  have hcase : OpenCase O fresh created { core.cleared with mCore := none } _ _ :=
    openCore_case O fresh created rfl
  cases hopen : ({ core.cleared with mCore := none } : Core σ).openCore O fresh created with
  | mk res core₁ =>
      rw [hopen] at hcase
      cases hcase with
      | failed e hno =>
          rw [reset_of_failed hopen]
          exact .closed e hno
      | opened st hl hc hin =>
          -- the registers are written back to the new engine
          have hkept := writeRegsDbg_kept O flush
            { core.cleared with mCore := some ⟨fresh, st⟩ }
          -- the instance stays; only its state is another one
          obtain ⟨st', hst'⟩ := hkept.exists_some rfl
          have hin' : Initialised O st' :=
            writeRegsDbg_initialised O flush _
              (fun inst h => by injection h with h; rw [← h]; exact hin) _ hst'
          have hframe := hkept.frame
          rw [hst'] at hframe
          cases hflush : ({ core.cleared with mCore := some ⟨fresh, st⟩ } :
              Core σ).writeRegsDbg O flush with
          | mk res₂ core₂ =>
              rw [hflush] at hframe
              have hcore : core₂ = { core.cleared with mCore := some ⟨fresh, st'⟩ } := hframe
              cases res₂ with
              | error e =>
                  rw [reset_of_unflushed hopen hflush, hcore]
                  exact .unflushed e st' hl hc hin'
              | ok u =>
                  rw [reset_of_flushed hopen hflush, hcore]
                  exact .completed st' hl hc hin'

/-- A constructed core has an engine. -/
theorem construct_opened (O : Ocx σ) (procid coreid : U64) (fresh : Nat) :
    ∃ st, (construct O procid coreid fresh true).1 = .ok ()
      ∧ Initialised O st
      ∧ (construct O procid coreid fresh true).2
        = { (initial procid coreid : Core σ) with mCore := some ⟨fresh, st⟩ } :=
  ⟨_, rfl, .opened procid coreid, rfl⟩

/-! ### Errors. -/

theorem openCore_error_text {fresh : Nat} {created : Bool} {e : CoreError}
    (h : (core.openCore O fresh created).1 = .error e) : e.text.isSome = true := by
  unfold openCore at h
  split at h
  · injection h with h; rw [← h]; rfl
  · split at h
    · injection h with h; rw [← h]; rfl
    · split at h
      · injection h with h; rw [← h]; rfl
      · split at h
        · injection h with h; rw [← h]; rfl
        · cases h

/-- With an engine there, a register write that is raised as an error could not read the
program counter. -/
theorem writeRegDbg_error_text {w : RegWrite} {e : CoreError}
    (hsome : core.mCore.isSome = true)
    (h : (core.writeRegDbg O w.regno w.value w.len).1 = .error e) :
    e.text.isSome = true := by
  obtain ⟨inst, hinst⟩ := Option.isSome_iff_exists.mp hsome
  unfold writeRegDbg programCounter at h
  simp only [hinst, call_of_some hinst] at h
  split at h
  · split at h
    · cases h
    · cases hr : O.readReg inst.state (O.pcRegid inst.state) with
      | none =>
          simp only [hr] at h
          injection h with h
          rw [← h]
          rfl
      | some pc =>
          simp only [hr] at h
          split at h
          · cases h
          · split at h <;> cases h
  · cases h

theorem writeRegsDbg_error_text {e : CoreError} :
    ∀ (ws : List RegWrite) (core : Core σ), core.mCore.isSome = true →
      (core.writeRegsDbg O ws).1 = .error e → e.text.isSome = true := by
  intro ws
  induction ws with
  | nil => intro core _ h; cases h
  | cons w ws ih =>
      intro core hsome h
      have hkept := writeRegDbg_kept O w.regno w.value w.len core
      unfold writeRegsDbg at h
      cases hw : core.writeRegDbg O w.regno w.value w.len with
      | mk res core₁ =>
          rw [hw] at h hkept
          cases res with
          | error e' =>
              injection h with h
              rw [← h]
              exact writeRegDbg_error_text hsome (congrArg Prod.fst hw)
          | ok b => exact ih core₁ (hkept.isSome.trans hsome) h

/-- **Every error that a `reset` raises is one of the source**: it never calls a null
`m_core`, since it opens the new engine first. -/
theorem reset_error_text {flush : List RegWrite} {fresh : Nat} {created : Bool}
    {e : CoreError} (h : (core.reset O flush fresh created).1 = .error e) :
    e.text.isSome = true := by
  cases hopen : ({ core.cleared with mCore := none } : Core σ).openCore O fresh created with
  | mk res core₁ =>
      cases res with
      | error e' =>
          rw [reset_of_failed hopen] at h
          injection h with h
          rw [← h]
          exact openCore_error_text (congrArg Prod.fst hopen)
      | ok u =>
          cases hflush : core₁.writeRegsDbg O flush with
          | mk res₂ core₂ =>
              cases res₂ with
              | error e' =>
                  rw [reset_of_unflushed hopen hflush] at h
                  injection h with h
                  rw [← h]
                  have hcase : OpenCase O fresh created { core.cleared with mCore := none } _ _ :=
                    openCore_case O fresh created rfl
                  rw [hopen] at hcase
                  refine writeRegsDbg_error_text flush core₁ ?_ (congrArg Prod.fst hflush)
                  cases hcase with
                  | opened st _ _ _ => rfl
              | ok u => rw [reset_of_flushed hopen hflush] at h; cases h

section

variable {fresh : Nat} {created : Bool} {res : Except CoreError Unit}

/-- The engine a reset leaves is a new instance with its registers written. -/
theorem ResetCase.new (h : ResetCase O fresh created core res core') {inst : OcxInstance σ}
    (hinst : core'.mCore = some inst) : inst.id = fresh ∧ Initialised O inst.state := by
  cases h with
  | closed e _ => cases hinst
  | unflushed e st _ _ hin =>
      injection hinst with hinst
      rw [← hinst]
      exact ⟨rfl, hin⟩
  | completed st _ _ hin =>
      injection hinst with hinst
      rw [← hinst]
      exact ⟨rfl, hin⟩

theorem ResetCase.mRunCycles (h : ResetCase O fresh created core res core') :
    core'.mRunCycles = 0 := by
  cases h <;> rfl

/-- A completed reset cancels all notifications, one that raises an error none. -/
theorem ResetCase.timerEvents (h : ResetCase O fresh created core res core') :
    core'.timerEvents = fun id => if res.isOk then none else core.timerEvents id := by
  cases h <;> rfl

/-- What a reset leaves of a core that has loaded its library, completed or not. -/
structure ResetLife (core : Core σ) (created : Bool) (core' : Core σ) : Prop where
  isSome : core'.mCore.isSome = created
  loaded : core'.Loaded
  subscribers : core'.mSyscallSubscriber = core.mSyscallSubscriber
  transport : core'.mTransport = false

theorem ResetCase.life (h : ResetCase O fresh created core res core') (hl : core.Loaded) :
    ResetLife core created core' := by
  cases h with
  | closed e hno =>
      have hfalse : created = false := by
        cases created with
        | false => rfl
        | true => exact absurd ⟨hl, rfl⟩ hno
      exact ⟨hfalse.symm, hl, rfl, rfl⟩
  | unflushed e st _ hc _ => exact ⟨hc.symm, hl, rfl, rfl⟩
  | completed st _ hc _ => exact ⟨hc.symm, hl, rfl, rfl⟩

end

theorem reset_new {flush : List RegWrite} {fresh : Nat} {created : Bool} {inst : OcxInstance σ}
    (h : (core.reset O flush fresh created).2.2.mCore = some inst) :
    inst.id = fresh ∧ Initialised O inst.state :=
  (reset_case O flush fresh created core).new h

/-- **After a reset a core has an engine exactly when it got a new one.** -/
theorem reset_engine (hl : core.Loaded) (flush : List RegWrite) (fresh : Nat) (created : Bool) :
    ResetLife core created (core.reset O flush fresh created).2.2 :=
  (reset_case O flush fresh created core).life hl

end Avp64.Psp.Core
