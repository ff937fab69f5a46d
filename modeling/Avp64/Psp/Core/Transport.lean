/-
  Avp64.Psp.Core.Transport — the program counter during bus accesses.

  `transport` sets the flag `m_transport` before the access and clears it after;
  `write_reg_dbg` refuses to change the program counter while the flag is set.
  Accesses can overlap (a debug access while another one is suspended), end by an
  exception, and be outlived by a reset, so one flag stands for a number of calls.

    • `pcGuarded_iff`      — the guard works exactly while the flag agrees with the
                             number of outstanding calls,
    • `pc_guarded_run_iff` — which runs keep them in agreement.
-/
import Avp64.Lib.Transition
import Avp64.Psp.Core.Operations

namespace Avp64.Psp

open Avp64.Lib

variable {σ : Type} {O : Ocx σ} {F : Set (List RegWrite)}

/-! ## §1. The bus accesses of one core. -/

/-- The core, the number of `transport` calls that have begun and not ended, and the
number of the next engine instance. -/
structure BusState (σ : Type) where
  core : Core σ
  outstanding : Nat
  next : Nat

inductive BusEvent where
  | transportBegins (tx : Transaction) (access : DataAccess)
  | transportReturns (resp : TlmResponse) (answer : OcxResponse)
  /-- `data.read` or `data.write` throws, which ends the call. -/
  | transportThrows
  | reset (created : Bool) (res : Except CoreError Unit)
  | writeRegDbg (regno value : U64) (len : Nat) (res : Bool)

inductive BusStep (O : Ocx σ) (F : Set (List RegWrite)) :
    BusState σ → BusEvent → BusState σ → Prop
  | transportBegins (s : BusState σ) (tx : Transaction) :
      BusStep O F s (.transportBegins tx (s.core.transportBegin tx).1)
        { s with core := (s.core.transportBegin tx).2, outstanding := s.outstanding + 1 }
  | transportReturns (s : BusState σ) (resp : TlmResponse) (n : Nat) :
      s.outstanding = n + 1 →
      BusStep O F s (.transportReturns resp (s.core.transportEnd resp).1)
        { s with core := (s.core.transportEnd resp).2, outstanding := n }
  | transportThrows (s : BusState σ) (n : Nat) : s.outstanding = n + 1 →
      BusStep O F s .transportThrows { s with outstanding := n }
  | reset (s : BusState σ) (flush : List RegWrite) (created : Bool) : flush ∈ F →
      BusStep O F s (.reset created (s.core.reset O flush s.next created).1)
        { s with core := (s.core.reset O flush s.next created).2.2, next := s.next + 1 }
  | writeRegDbg (s : BusState σ) (regno v : U64) (len : Nat) (res : Bool) :
      (s.core.writeRegDbg O regno v len).1 = .ok res →
      BusStep O F s (.writeRegDbg regno v len res)
        { s with core := (s.core.writeRegDbg O regno v len).2 }

/-- The accesses of a constructed core. -/
def bus (O : Ocx σ) (F : Set (List RegWrite)) : Lts (BusState σ) BusEvent where
  init s := ∃ procid coreid, s = ⟨(Core.construct O procid coreid 0 true).2, 0, 1⟩
  step := BusStep O F

theorem bus_loaded_step {s s' : BusState σ} {e : BusEvent} (hl : s.core.Loaded)
    (hs : BusStep O F s e s') : s'.core.Loaded := by
  cases hs with
  | transportBegins _ => exact hl
  | transportReturns _ _ _ => exact hl
  | transportThrows _ _ => exact hl
  | reset flush created _ => exact (Core.reset_engine hl flush s.next created).loaded
  | writeRegDbg regno v len res _ =>
      have hframe := (Core.writeRegDbg_kept O regno v len s.core).frame
      show (s.core.writeRegDbg O regno v len).2.Loaded
      rw [hframe]
      exact hl

theorem loaded_of_reachable {s : BusState σ} (hr : (bus O F).Reachable s) :
    s.core.Loaded := by
  refine hr.invariant (I := fun t => t.core.Loaded) ?_ ?_
  · intro s h0
    obtain ⟨procid, coreid, rfl⟩ := h0
    exact ⟨rfl, rfl⟩
  · intro s e s' hl hs
    exact bus_loaded_step hl hs

/-! ## §2. The guard of the program counter. -/

/-- The program counter of an instance can be read, and written. -/
structure PcLaws (O : Ocx σ) : Prop where
  readable : ∀ st, ∃ pc, O.readReg st (O.pcRegid st) = some pc
  writable : ∀ st v, (O.call (.writeReg (O.pcRegid st) v) st).1 = true

/-- While a `transport` call is outstanding, the debugger's write of another program
counter returns false and changes nothing; while none is, it is passed on. -/
def PcGuarded (O : Ocx σ) (s : BusState σ) : Prop :=
  ∀ inst pc, s.core.mCore = some inst →
    O.readReg inst.state (O.pcRegid inst.state) = some pc → ∀ v, v ≠ pc →
    (0 < s.outstanding →
      (s.core.writeRegDbg O (O.pcRegid inst.state) v 8).1 = .ok false
      ∧ (s.core.writeRegDbg O (O.pcRegid inst.state) v 8).2.programCounter O = .ok pc)
    ∧ (s.outstanding = 0 →
      s.core.writeRegDbg O (O.pcRegid inst.state) v 8
        = s.core.call O (.writeReg (O.pcRegid inst.state) v))

theorem programCounter_of_some {core : Core σ} {inst : OcxInstance σ} {pc : U64}
    (h : core.mCore = some inst)
    (hpc : O.readReg inst.state (O.pcRegid inst.state) = some pc) :
    core.programCounter O = .ok pc := by
  unfold Core.programCounter
  rw [h]
  simp [hpc]

/-- **The guard works exactly when the flag says whether a call is outstanding**, or
there is no engine to guard. -/
theorem pcGuarded_iff (laws : PcLaws O) {s : BusState σ} :
    PcGuarded O s ↔
      (s.core.mCore.isSome = true → (s.core.mTransport = true ↔ 0 < s.outstanding)) := by
  constructor
  · intro hguard hs
    obtain ⟨inst, hinst⟩ := Option.isSome_iff_exists.mp hs
    obtain ⟨pc, hpc⟩ := laws.readable inst.state
    -- any other value shows which way the write goes
    have hne : pc + 1#64 ≠ pc := by
      intro h
      simp at h
    obtain ⟨hbusy, hidle⟩ := hguard inst pc hinst hpc (pc + 1#64) hne
    rw [Core.writeRegDbg_pc hinst hpc hne] at hbusy hidle
    constructor
    · intro hflag
      by_contra hzero
      have hcall := hidle (by omega)
      rw [if_pos hflag, Core.call_of_some hinst] at hcall
      have hres := congrArg Prod.fst hcall
      rw [laws.writable] at hres
      simp at hres
    · intro hpos
      cases hflag : s.core.mTransport with
      | true => rfl
      | false =>
          have hres := (hbusy hpos).1
          rw [hflag, if_neg (by simp), Core.call_of_some hinst, laws.writable] at hres
          simp at hres
  · intro hagree inst pc hinst hpc v hne
    -- the flag says which branch `write_reg_dbg` takes
    have hagree := hagree (by rw [hinst]; rfl)
    rw [Core.writeRegDbg_pc hinst hpc hne]
    constructor
    · intro hpos
      rw [if_pos (hagree.mpr hpos)]
      exact ⟨rfl, programCounter_of_some hinst hpc⟩
    · intro hzero
      rw [if_neg]
      intro hflag
      have hpos := hagree.mp hflag
      omega

/-! ## §3. Runs. -/

/-- The step keeps the flag in agreement: while the core has an engine, an access that
returns is the only one outstanding and one that throws is not; no engine is replaced
during an access. -/
def BusEvent.keepsFlag (s : BusState σ) : BusEvent → Prop
  | .transportReturns _ _ => s.core.mCore.isSome = true → s.outstanding = 1
  | .transportThrows => s.core.mCore.isSome = true → s.outstanding ≠ 1
  | .reset created _ => created = true → s.outstanding = 0
  | _ => True

/-- **What one step does to the guard.** -/
theorem pcGuarded_step (laws : PcLaws O) {s s' : BusState σ} {e : BusEvent}
    (hl : s.core.Loaded) (hguard : PcGuarded O s) (hst : BusStep O F s e s') :
    PcGuarded O s' ↔ e.keepsFlag s := by
  rw [pcGuarded_iff laws] at hguard ⊢
  cases hst with
  | transportBegins tx =>
      show (s.core.mCore.isSome = true → (true = true ↔ 0 < s.outstanding + 1)) ↔ True
      simp
  | transportReturns resp n hn =>
      show (s.core.mCore.isSome = true → (false = true ↔ 0 < n))
        ↔ (s.core.mCore.isSome = true → s.outstanding = 1)
      refine imp_congr_right (fun _ => ?_)
      simp
      omega
  | transportThrows n hn =>
      show (s.core.mCore.isSome = true → (s.core.mTransport = true ↔ 0 < n))
        ↔ (s.core.mCore.isSome = true → s.outstanding ≠ 1)
      refine imp_congr_right (fun hs => ?_)
      -- the flag stays set, so a call must be left
      have hflag : s.core.mTransport = true := (hguard hs).mpr (by omega)
      rw [hflag]
      simp
      omega
  | reset flush created _ =>
      -- a reset clears the flag, whatever is outstanding
      have hlife := Core.reset_engine (O := O) hl flush s.next created
      show ((s.core.reset O flush s.next created).2.2.mCore.isSome = true →
          ((s.core.reset O flush s.next created).2.2.mTransport = true
            ↔ 0 < s.outstanding))
        ↔ (created = true → s.outstanding = 0)
      rw [hlife.isSome, hlife.transport]
      simp
  | writeRegDbg regno v len res _ =>
      -- a debugger's write changes neither the instance nor the flag
      have hkept := Core.writeRegDbg_kept O regno v len s.core
      have hflag : (s.core.writeRegDbg O regno v len).2.mTransport = s.core.mTransport := by
        rw [hkept.frame]
      refine iff_of_true ?_ trivial
      show (s.core.writeRegDbg O regno v len).2.mCore.isSome = true →
        ((s.core.writeRegDbg O regno v len).2.mTransport = true ↔ 0 < s.outstanding)
      rw [hkept.isSome, hflag]
      exact hguard

/-- **When the program counter is guarded throughout a run.** -/
theorem pc_guarded_run_iff (O : Ocx σ) (F : Set (List RegWrite)) (laws : PcLaws O)
    {tr : List (BusState σ × BusEvent)} {s : BusState σ} (hr : (bus O F).Run tr s) :
    Always (fun _ t => PcGuarded O t) tr s ↔ ∀ x ∈ tr, x.2.keepsFlag x.1 := by
  refine hr.always_iff (C := fun t e => e.keepsFlag t) ?_ ?_
  · intro s h0
    obtain ⟨procid, coreid, rfl⟩ := h0
    rw [pcGuarded_iff laws]
    show true = true → (false = true ↔ 0 < 0)
    simp
  · intro tr s e s' hr hP hst
    exact pcGuarded_step laws (loaded_of_reachable ⟨tr, hr⟩) hP hst

theorem smallOcx_pcLaws : PcLaws smallOcx := by
  constructor
  · intro st
    exact ⟨st.pc, rfl⟩
  · intro st v
    rfl

/-- One access that returns. -/
theorem pc_guarded_one_access :
    Always (fun _ t => PcGuarded smallOcx t)
      [(⟨(Core.construct smallOcx 0 0 0 true).2, 0, 1⟩,
        BusEvent.transportBegins ⟨0, 8, true, false, false, false⟩ (.read 0 8 {}))]
      ⟨{ (Core.construct smallOcx 0 0 0 true).2 with mTransport := true }, 1, 1⟩
    ↔ ∀ x ∈ [((⟨(Core.construct smallOcx 0 0 0 true).2, 0, 1⟩ : BusState SmallEngine),
        BusEvent.transportBegins ⟨0, 8, true, false, false, false⟩ (.read 0 8 {}))],
        x.2.keepsFlag x.1 := by
  have hr : (bus smallOcx {Core.tableWrites (fun _ => 0)}).Run _ _ :=
    .snoc (.start ⟨0, 0, rfl⟩) (.transportBegins _ ⟨0, 8, true, false, false, false⟩)
  exact pc_guarded_run_iff smallOcx {Core.tableWrites (fun _ => 0)} smallOcx_pcLaws hr

/-- A debug access begins and returns while another access is suspended: the flag is
cleared, and the program counter can be changed. -/
theorem nested_access_unguarded :
    ¬ ∀ (tr : List (BusState SmallEngine × BusEvent)) (s : BusState SmallEngine),
      (bus smallOcx {Core.tableWrites (fun _ => 0)}).Run tr s → PcGuarded smallOcx s := by
  intro hall
  have hr : (bus smallOcx {Core.tableWrites (fun _ => 0)}).Run _ _ :=
    .snoc (.snoc (.snoc (.start ⟨0, 0, rfl⟩)
      (.transportBegins _ ⟨0, 8, true, false, false, false⟩))
      (.transportBegins _ ⟨16, 8, true, true, false, false⟩))
      (.transportReturns _ .ok 1 rfl)
  -- the outer access is still outstanding
  have hguard := hall _ _ hr ⟨0, {}⟩ 0#64 rfl rfl 4#64 (by decide)
  have hres := (hguard.1 (by decide)).1
  exact absurd hres (by intro h; cases h)

end Avp64.Psp
