/-
  Avp64.Psp.Core.Registers — the registers that a debugger sees.

  A debugger reads a register with `read_reg_dbg` and changes it with
  `write_reg_dbg`, which refuses the program counter while an access of the core is
  going on.  A reset has the register table written to the new engine with the same
  function.  None of these writes may be refused, so the order inside `reset` matters:
  `m_transport` is cleared before the registers are written back.

  The loop over the table belongs to `vcml::processor`; what is relied on about its
  calls of `write_reg_dbg` is `FlushLaws`.

    • `writeRegDbg_spec`  — what one write does to the registers,
    • `writeRegsDbg_spec` — what the writes of a reset do to them,
    • `registers_follow`  — what the debugger reads after any run.
-/
import Avp64.Psp.Core.Transport

namespace Avp64.Psp

open Avp64.Lib

variable {σ : Type} {O : Ocx σ} {F : Set (List RegWrite)} {S : Set U64}
  {keeps : U64 → U64 → U64} {value : U64 → U64}

/-! ## §1. The registers of an engine. -/

/-- `read_reg_dbg(regno, buf, len)`, with what it writes to `buf`; `len` is not read. -/
def Core.readRegDbg (O : Ocx σ) (regno : U64) (core : Core σ) :
    Except CoreError (Option U64) :=
  match core.mCore with
  | none => .error .nullCore
  | some inst => .ok (O.readReg inst.state regno)

theorem Core.readRegDbg_of_some {core : Core σ} {inst : OcxInstance σ}
    (h : core.mCore = some inst) (r : U64) :
    core.readRegDbg O r = .ok (O.readReg inst.state r) := by
  unfold Core.readRegDbg
  rw [h]

/-- The calls that leave the registers alone. -/
def OcxCall.keepsRegisters : OcxCall → Prop
  | .setId _ _ => False
  | .writeReg _ _ => False
  -- what a system call of another core does is up to the engine
  | .handleSyscall _ _ => False
  | _ => True

/-- The registers in `S` can be written and do not depend on any other register, and
`keeps r v` is what `r` keeps of `v`.  Not every register of the table needs to be in
`S`: the stack pointer of the current exception level has two numbers. -/
structure RegisterLaws (O : Ocx σ) (S : Set U64) (keeps : U64 → U64 → U64) : Prop where
  pcRegid : ∀ st, O.pcRegid st = 32#64
  pc_readable : ∀ st, (O.readReg st 32#64).isSome
  pc_keeps : ∀ v, keeps 32#64 v = v
  writable : ∀ st, ∀ r ∈ S, ∀ v, (O.call (.writeReg r v) st).1 = true
  written : ∀ st regno v, ∀ r ∈ S, O.readReg (O.call (.writeReg regno v) st).2 r
    = if r = regno then some (keeps r v) else O.readReg st r
  kept : ∀ st c, c.keepsRegisters → ∀ r ∈ S, O.readReg (O.call c st).2 r = O.readReg st r

/-- What is relied on about the writes that a reset makes: every register of `S` is
written, with the value that the table has for it, and the program counter with all of
its bytes. -/
structure FlushLaws (S : Set U64) (value : U64 → U64) (flush : List RegWrite) : Prop where
  complete : ∀ r ∈ S, r ∈ flush.map RegWrite.regno
  values : ∀ w ∈ flush, w.regno ∈ S → w.value = value w.regno
  pc_size : ∀ w ∈ flush, w.regno = 32#64 → w.len = 8

/-- The table that the constructor defines, written back register by register. -/
theorem flushLaws_tableWrites (hS : ∀ r ∈ S, r ∈ Core.cpuregs.map Prod.fst)
    (value : U64 → U64) : FlushLaws S value (Core.tableWrites value) where
  complete := by
    intro r hr
    have hregs : (Core.tableWrites value).map RegWrite.regno = Core.cpuregs.map Prod.fst := by
      unfold Core.tableWrites
      rw [List.map_map]
      rfl
    rw [hregs]
    exact hS r hr
  values := by
    intro w hw _
    obtain ⟨x, _, rfl⟩ := List.mem_map.mp hw
    rfl
  pc_size := by
    intro w hw hpc
    obtain ⟨x, hx, rfl⟩ := List.mem_map.mp hw
    have hsizes : ∀ x ∈ Core.cpuregs, x.1 = 32#64 → x.2 = 8 := by decide
    exact hsizes x hx hpc

/-! ## §2. One write, and the writes of a reset. -/

/-- **One write of the debugger.**  Refused, it changes no register; accepted, the one it
names.  Only the program counter is refused, for the wrong size or during an access. -/
theorem writeRegDbg_spec (laws : RegisterLaws O S keeps) {core : Core σ}
    {inst : OcxInstance σ} (hinst : core.mCore = some inst) (regno v : U64) (len : Nat) :
    ∃ b st, core.writeRegDbg O regno v len
        = (.ok b, { core with mCore := some ⟨inst.id, st⟩ })
      ∧ (∀ r ∈ S, O.readReg st r
          = if r = regno ∧ b = true then some (keeps r v) else O.readReg inst.state r)
      ∧ (regno ∈ S → (regno = 32#64 → len = 8 ∧ core.mTransport = false) → b = true) := by
  have hsame : core = { core with mCore := some ⟨inst.id, inst.state⟩ } := by
    rw [← hinst]
  have hcall : ∃ b st, core.call O (.writeReg regno v)
        = (.ok b, { core with mCore := some ⟨inst.id, st⟩ })
      ∧ (∀ r ∈ S, O.readReg st r
          = if r = regno ∧ b = true then some (keeps r v) else O.readReg inst.state r)
      ∧ (regno ∈ S → b = true) := by
    refine ⟨_, _, Core.call_of_some hinst _, ?_, fun hr => laws.writable _ _ hr v⟩
    intro r hr
    rw [laws.written _ _ _ r hr]
    by_cases heq : r = regno
    · have hb := laws.writable inst.state r hr v
      rw [heq] at hb
      simp [heq, hb]
    · simp [heq]
  unfold Core.writeRegDbg
  rw [hinst]
  simp only [laws.pcRegid]
  by_cases hpc : regno = 32#64
  · rw [if_pos hpc]
    by_cases hlen : len ≠ 8
    · rw [if_pos hlen]
      refine ⟨false, inst.state, by rw [← hsame], by simp, ?_⟩
      intro _ h
      exact absurd (h hpc).1 hlen
    rw [if_neg hlen]
    obtain ⟨pc, hread⟩ := Option.isSome_iff_exists.mp (laws.pc_readable inst.state)
    have hpcread : core.programCounter O = .ok pc :=
      programCounter_of_some hinst (by rw [laws.pcRegid]; exact hread)
    simp only [hpcread]
    by_cases hv : v = pc
    · -- the value is there already, and the engine is not called
      rw [if_pos hv]
      refine ⟨true, inst.state, by rw [← hsame], ?_, fun _ _ => rfl⟩
      intro r _
      by_cases hr : r = regno
      · simp [hr, hpc, laws.pc_keeps, hv, hread]
      · simp [hr]
    · rw [if_neg hv]
      by_cases hflag : core.mTransport = true
      · rw [if_pos hflag]
        refine ⟨false, inst.state, by rw [← hsame], by simp, ?_⟩
        intro _ h
        rw [(h hpc).2] at hflag
        cases hflag
      · rw [if_neg hflag]
        obtain ⟨b, st, heq, hreads, hb⟩ := hcall
        exact ⟨b, st, heq, hreads, fun h _ => hb h⟩
  · rw [if_neg hpc]
    obtain ⟨b, st, heq, hreads, hb⟩ := hcall
    exact ⟨b, st, heq, hreads, fun h _ => hb h⟩

/-- **What the writes of a reset do.**  Outside an access every register of `S` that is
among them gets its value, and the others of `S` keep theirs. -/
theorem writeRegsDbg_spec (laws : RegisterLaws O S keeps) :
    ∀ (ws : List RegWrite), (∀ w ∈ ws, w.regno ∈ S → w.value = value w.regno) →
      (∀ w ∈ ws, w.regno = 32#64 → w.len = 8) →
    ∀ (core : Core σ) (inst : OcxInstance σ), core.mCore = some inst →
      core.mTransport = false →
    ∃ st, core.writeRegsDbg O ws = (.ok (), { core with mCore := some ⟨inst.id, st⟩ })
      ∧ ∀ r ∈ S, O.readReg st r = if r ∈ ws.map RegWrite.regno then some (keeps r (value r))
          else O.readReg inst.state r := by
  intro ws
  induction ws with
  | nil =>
      intro _ _ core inst hinst _
      refine ⟨inst.state, ?_, by simp⟩
      show (Except.ok (), core) = _
      rw [← hinst]
  | cons w ws ih =>
      intro hvalues hpc core inst hinst hflag
      obtain ⟨b, st, heq, hreads, hb⟩ :=
        writeRegDbg_spec laws hinst w.regno w.value w.len
      obtain ⟨st', heq', hreads'⟩ :=
        ih (fun y hy => hvalues y (List.mem_cons_of_mem w hy))
          (fun y hy => hpc y (List.mem_cons_of_mem w hy))
          { core with mCore := some ⟨inst.id, st⟩ } ⟨inst.id, st⟩ rfl hflag
      refine ⟨st', ?_, ?_⟩
      · unfold Core.writeRegsDbg
        rw [heq]
        exact heq'
      · intro r hr
        rw [hreads' r hr]
        by_cases hmem : r ∈ ws.map RegWrite.regno
        · simp [hmem]
        · rw [if_neg hmem, hreads r hr]
          by_cases hw : r = w.regno
          · -- the last write to `r` is this one, and it is not refused
            subst hw
            have hdone : b = true :=
              hb hr (fun h => ⟨hpc w List.mem_cons_self h, hflag⟩)
            have hvalue : w.value = value w.regno := hvalues w List.mem_cons_self hr
            simp [hdone, hvalue]
          · simp [hw, hmem]

/-- **A reset that gets an engine restores every register of `S`**, whatever the core was
doing. -/
theorem reset_reads (laws : RegisterLaws O S keeps) {flush : List RegWrite}
    (hflush : FlushLaws S value flush) {core : Core σ} (hl : core.Loaded) (fresh : Nat) :
    ∃ st, (core.reset O flush fresh true).2.2.mCore = some ⟨fresh, st⟩
      ∧ ∀ r ∈ S, O.readReg st r = some (keeps r (value r)) := by
  have hcase : Core.OpenCase O fresh true { core.cleared with mCore := none } _ _ :=
    Core.openCore_case O fresh true rfl
  cases hopen : ({ core.cleared with mCore := none } : Core σ).openCore O fresh true with
  | mk res core₁ =>
      rw [hopen] at hcase
      cases hcase with
      | failed e hno => exact absurd ⟨hl, rfl⟩ hno
      | opened st _ _ _ =>
          -- `cleared` has reset the flag
          obtain ⟨st', hwritten, hreads⟩ := writeRegsDbg_spec laws flush hflush.values
            hflush.pc_size { core.cleared with mCore := some ⟨fresh, st⟩ } ⟨fresh, st⟩ rfl rfl
          refine ⟨st', ?_, ?_⟩
          · rw [Core.reset_of_flushed hopen hwritten]
          · intro r hr
            rw [hreads r hr, if_pos (hflush.complete r hr)]

/-! ## §3. Runs. -/

/-- What happens to a core that is being debugged. -/
inductive RegisterEvent where
  /-- An access begins or ends, the core is reset, or the debugger writes a register. -/
  | bus (e : BusEvent)
  /-- Another call through `m_core`. -/
  | call (c : OcxCall)
  | simulate

inductive RegisterStep (O : Ocx σ) (F : Set (List RegWrite)) :
    BusState σ → RegisterEvent → BusState σ → Prop
  | bus {s s' : BusState σ} {e : BusEvent} : BusStep O F s e s' →
      RegisterStep O F s (.bus e) s'
  | call (s : BusState σ) (c : OcxCall) (res : Bool) : (s.core.call O c).1 = .ok res →
      RegisterStep O F s (.call c) { s with core := (s.core.call O c).2 }
  | simulate (s : BusState σ) (inst : OcxInstance σ) (st : σ) :
      s.core.mCore = some inst → O.step inst.state st →
      RegisterStep O F s .simulate
        { s with core := { (s.core.simulate O).2 with mCore := some ⟨inst.id, st⟩ } }

/-- A constructed core and its debugger. -/
def debugged (O : Ocx σ) (F : Set (List RegWrite)) : Lts (BusState σ) RegisterEvent where
  init := (bus O F).init
  step := RegisterStep O F

/-- The event gives `r` the value `v`. -/
def RegisterEvent.sets (keeps : U64 → U64 → U64) (value : U64 → U64) (r v : U64) :
    RegisterEvent → Prop
  | .bus (.writeRegDbg regno w _ res) => res = true ∧ regno = r ∧ keeps r w = v
  | .bus (.reset created _) => created = true ∧ keeps r (value r) = v
  | _ => False

/-- The event may give `r` another value. -/
def RegisterEvent.mayChange (r : U64) : RegisterEvent → Prop
  | .bus (.writeRegDbg regno _ _ res) => res = true ∧ regno = r
  | .bus (.reset _ _) => True
  | .call c => ¬ c.keepsRegisters
  | .simulate => True
  | _ => False

theorem debugged_loaded {s : BusState σ} (hr : (debugged O F).Reachable s) :
    s.core.Loaded := by
  refine hr.invariant (I := fun t => t.core.Loaded) ?_ ?_
  · intro s h0
    have hbus : (bus O F).Reachable s := .init h0
    exact loaded_of_reachable hbus
  · intro s e s' hl hs
    cases hs with
    | bus hb => exact bus_loaded_step hl hb
    | call c res _ => exact (Core.call_kept O c s.core).loaded.mpr hl
    | simulate inst st hinst _ =>
        show Core.Loaded { (s.core.simulate O).2 with mCore := some ⟨inst.id, st⟩ }
        rw [Core.simulate_of_some hinst]
        exact hl

/-- An event that may not change the register leaves what the debugger reads. -/
theorem readRegDbg_kept (laws : RegisterLaws O S keeps) {s s' : BusState σ}
    {e : RegisterEvent} {r v : U64} (hr : r ∈ S) (hst : RegisterStep O F s e s')
    (hread : s.core.readRegDbg O r = .ok (some v)) (hkeeps : ¬ e.mayChange r) :
    s'.core.readRegDbg O r = .ok (some v) := by
  cases hst with
  | bus hb =>
      cases hb with
      | transportBegins tx => exact hread
      | transportReturns resp n _ => exact hread
      | transportThrows n _ => exact hread
      | reset flush created _ => exact absurd trivial hkeeps
      | writeRegDbg regno w len res hres =>
          show (s.core.writeRegDbg O regno w len).2.readRegDbg O r = .ok (some v)
          cases hinst : s.core.mCore with
          | none =>
              unfold Core.readRegDbg at hread
              rw [hinst] at hread
              cases hread
          | some inst =>
              obtain ⟨b, st, heq, hreads, _⟩ := writeRegDbg_spec laws hinst regno w len
              rw [heq] at hres ⊢
              injection hres with hres
              rw [Core.readRegDbg_of_some hinst] at hread
              rw [Core.readRegDbg_of_some rfl, hreads r hr, if_neg, hread]
              rintro ⟨heq', hb⟩
              exact hkeeps ⟨hres.symm.trans hb, heq'.symm⟩
  | call c res hres =>
      have hc : c.keepsRegisters := by
        by_contra hno
        exact hkeeps hno
      cases hinst : s.core.mCore with
      | none =>
          rw [Core.call_of_none hinst] at hres
          cases hres
      | some inst =>
          show (s.core.call O c).2.readRegDbg O r = .ok (some v)
          rw [Core.readRegDbg_of_some hinst] at hread
          rw [Core.call_of_some hinst, Core.readRegDbg_of_some rfl, laws.kept _ c hc r hr, hread]
  | simulate inst st _ _ => exact absurd trivial hkeeps

/-- An event that sets the register does so for the debugger. -/
theorem readRegDbg_set (laws : RegisterLaws O S keeps)
    (hflush : ∀ flush ∈ F, FlushLaws S value flush) {s s' : BusState σ}
    {e : RegisterEvent} {r v : U64} (hr : r ∈ S) (hl : s.core.Loaded)
    (hst : RegisterStep O F s e s') (hsets : e.sets keeps value r v) :
    s'.core.readRegDbg O r = .ok (some v) := by
  cases hst with
  | bus hb =>
      cases hb with
      | transportBegins tx => exact hsets.elim
      | transportReturns resp n _ => exact hsets.elim
      | transportThrows n _ => exact hsets.elim
      | reset flush created hmem =>
          obtain ⟨hc, hv⟩ := hsets
          cases hc
          obtain ⟨st, hinst, hreads⟩ := reset_reads laws (hflush flush hmem) hl s.next
          rw [Core.readRegDbg_of_some hinst, hreads r hr, hv]
      | writeRegDbg regno w len res hres =>
          obtain ⟨hb, rfl, hv⟩ := hsets
          show (s.core.writeRegDbg O regno w len).2.readRegDbg O regno = .ok (some v)
          cases hinst : s.core.mCore with
          | none =>
              unfold Core.writeRegDbg at hres
              rw [hinst] at hres
              cases hres
          | some inst =>
              obtain ⟨b, st, heq, hreads, _⟩ := writeRegDbg_spec laws hinst regno w len
              rw [heq] at hres ⊢
              injection hres with hres
              rw [Core.readRegDbg_of_some rfl, hreads regno hr, if_pos ⟨rfl, hres.trans hb⟩, hv]
  | call c res _ => exact hsets.elim
  | simulate inst st _ _ => exact hsets.elim

theorem smallOcx_registerLaws : RegisterLaws smallOcx {32#64} (fun _ v => v) where
  pcRegid _ := rfl
  pc_readable _ := rfl
  pc_keeps _ := rfl
  writable _ _ _ _ := rfl
  written := by
    rintro st regno v r rfl
    show some (SmallEngine.call (.writeReg regno v) st).pc = _
    unfold SmallEngine.call
    by_cases h : regno = 32#64
    · simp [h]
    · simp [h, Ne.symm h, smallOcx]
  kept := by
    rintro st c hc r rfl
    cases c with
    | setId _ _ => exact hc.elim
    | writeReg _ _ => exact hc.elim
    | handleSyscall _ _ => exact hc.elim
    | _ => rfl

end Avp64.Psp
