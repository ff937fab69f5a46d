/-
  Avp64.Lib.MappedMemory — copies of what is reached through a mapping.

  The users of a memory name its cells by addresses of their own.  Several addresses may
  lead to one cell, so a store through one of them shows at the others, and the mapping
  itself may change.  Clients keep copies of what they have read.  If every step drops the
  copies of all addresses at which it may show, nobody can tell the copies from the memory.

    • `changes`          — the addresses at which a step may show,
    • `CopyCoherent`     — every copy is what its addresses read now,
    • `copiedRefinement` — a run with copies is, use by use, a run without.
-/
import Avp64.Lib.Transition

namespace Avp64.Lib

variable {ι κ α β γ : Type*} [DecidableEq β]

/-! ## §1. The memory. -/

structure MappedMemory (α β γ : Type*) where
  mapping : α → Option β
  memory : β → γ

inductive MappedEvent (α β γ : Type*) where
  /-- Somebody works on what is found at the addresses. -/
  | use (addrs : List α) (vs : List γ)
  | store (a : α) (v : γ)
  /-- The cell is written by somebody who does not need the mapping. -/
  | write (b : β) (v : γ)
  /-- The mapping may change in `S`. -/
  | remap (S : Set α)
  | idle

namespace MappedMemory

def read (m : MappedMemory α β γ) (a : α) : Option γ := (m.mapping a).map m.memory

def set (m : MappedMemory α β γ) (b : β) (v : γ) : MappedMemory α β γ :=
  ⟨m.mapping, Function.update m.memory b v⟩

end MappedMemory

inductive MappedStep :
    MappedMemory α β γ → MappedEvent α β γ → MappedMemory α β γ → Prop
  | use (m : MappedMemory α β γ) {addrs : List α} {vs : List γ} :
      addrs.map m.read = vs.map some → MappedStep m (.use addrs vs) m
  | store (m : MappedMemory α β γ) {a : α} {b : β} (v : γ) : m.mapping a = some b →
      MappedStep m (.store a v) (m.set b v)
  | write (m : MappedMemory α β γ) (b : β) (v : γ) : MappedStep m (.write b v) (m.set b v)
  | remap (m : MappedMemory α β γ) {S : Set α} {mapping : α → Option β} :
      (∀ a, a ∉ S → mapping a = m.mapping a) → MappedStep m (.remap S) ⟨mapping, m.memory⟩
  | idle (m : MappedMemory α β γ) : MappedStep m .idle m

/-- Any mapping and any contents at the start. -/
def mappedMemory (α β γ : Type*) [DecidableEq β] :
    Lts (MappedMemory α β γ) (MappedEvent α β γ) where
  init _ := True
  step := MappedStep

namespace MappedMemory

/-- The addresses at which the event may show. -/
def changes (m : MappedMemory α β γ) : MappedEvent α β γ → Set α
  | .store a _ => { x | m.mapping x = m.mapping a }
  | .write b _ => { x | m.mapping x = some b }
  | .remap S => S
  | _ => ∅

variable {m m' : MappedMemory α β γ} {e : MappedEvent α β γ}

/-- What is written to one cell is not read from another. -/
theorem read_set {a : α} {b : β} (h : m.mapping a ≠ some b) (v : γ) :
    (m.set b v).read a = m.read a := by
  unfold read set
  cases ha : m.mapping a with
  | none => rfl
  | some b' =>
      have hb : b' ≠ b := fun heq => h (by rw [ha, heq])
      exact congrArg some (Function.update_of_ne hb v m.memory)

/-- **Elsewhere a step does not show.** -/
theorem read_of_step (hst : MappedStep m e m') {a : α} (ha : a ∉ m.changes e) :
    m'.read a = m.read a := by
  cases hst with
  | use _ => rfl
  | store v hb => exact read_set (fun heq => ha (heq.trans hb.symm)) v
  | write b v => exact read_set (fun heq => ha heq) v
  | remap hmap => exact congrArg (Option.map m.memory) (hmap a ha)
  | idle => rfl

end MappedMemory

/-! ## §2. Copies. -/

/-- `copy i k` is the copy that the client `i` has of the part `k`. -/
structure CopiedMemory (ι κ α β γ : Type*) extends MappedMemory α β γ where
  copy : ι → κ → Option (List γ)

/-- A part `k` consists of the addresses `cells k`.  A new copy is what they read, and the
copies that a step leaves are of parts at which it does not show. -/
inductive CopiedStep (cells : κ → List α) :
    CopiedMemory ι κ α β γ → MappedEvent α β γ → CopiedMemory ι κ α β γ → Prop
  | hit (s : CopiedMemory ι κ α β γ) {i : ι} {k : κ} {vs : List γ} :
      s.copy i k = some vs → CopiedStep cells s (.use (cells k) vs) s
  | fill (s : CopiedMemory ι κ α β γ) {i : ι} {k : κ} {vs : List γ}
      {copy : ι → κ → Option (List γ)} :
      (cells k).map s.read = vs.map some →
      (∀ j k' vs', copy j k' = some vs' →
        s.copy j k' = some vs' ∨ (j = i ∧ k' = k ∧ vs' = vs)) →
      CopiedStep cells s (.use (cells k) vs) ⟨s.toMappedMemory, copy⟩
  | other (s : CopiedMemory ι κ α β γ) {e : MappedEvent α β γ} {m : MappedMemory α β γ}
      {copy : ι → κ → Option (List γ)} :
      MappedStep s.toMappedMemory e m →
      (∀ j k vs, copy j k = some vs →
        s.copy j k = some vs ∧ ∀ a ∈ cells k, a ∉ s.changes e) →
      CopiedStep cells s e ⟨m, copy⟩

/-- Nobody has a copy at the start. -/
def copiedMemory (ι β γ : Type*) [DecidableEq β] (cells : κ → List α) :
    Lts (CopiedMemory ι κ α β γ) (MappedEvent α β γ) where
  init s := ∀ j k, s.copy j k = none
  step := CopiedStep cells

variable {cells : κ → List α}

/-- Every copy is what the addresses of its part read now. -/
def CopyCoherent (cells : κ → List α) (s : CopiedMemory ι κ α β γ) : Prop :=
  ∀ j k vs, s.copy j k = some vs → (cells k).map s.read = vs.map some

theorem copyCoherent_step {s s' : CopiedMemory ι κ α β γ} {e : MappedEvent α β γ}
    (h : CopyCoherent cells s) (hst : CopiedStep cells s e s') : CopyCoherent cells s' := by
  cases hst with
  | hit _ => exact h
  | fill hread hcopy =>
      intro j k vs hvs
      rcases hcopy j k vs hvs with hold | ⟨_, rfl, rfl⟩
      · exact h j k vs hold
      · exact hread
  | @other _ m _ hm hcopy =>
      intro j k vs hvs
      obtain ⟨hold, hcells⟩ := hcopy j k vs hvs
      -- the part reads as before
      have hsame : (cells k).map m.read = (cells k).map s.read :=
        List.map_congr_left (fun a ha => MappedMemory.read_of_step hm (hcells a ha))
      exact hsame.trans (h j k vs hold)

theorem copyCoherent_of_reachable {s : CopiedMemory ι κ α β γ}
    (hr : (copiedMemory ι β γ cells).Reachable s) : CopyCoherent cells s := by
  refine hr.invariant ?_ ?_
  · intro s h0 j k vs hvs
    rw [h0 j k] at hvs
    cases hvs
  · intro s e s' h hst
    exact copyCoherent_step h hst

/-- **Copies cannot be told from what the mapping leads to.** -/
def copiedRefinement (ι β γ : Type*) [DecidableEq β] (cells : κ → List α) :
    (copiedMemory ι β γ cells).Simulation (mappedMemory α β γ) where
  label _ e := e
  rel m s := m = s.toMappedMemory
  init s _ := ⟨s.toMappedMemory, trivial, rfl⟩
  step := by
    rintro m s e s' hr rfl hst
    have hc := copyCoherent_of_reachable hr
    cases hst with
    | hit hvs => exact ⟨_, .use _ (hc _ _ _ hvs), rfl⟩
    | fill hread _ => exact ⟨_, .use _ hread, rfl⟩
    | other hm _ => exact ⟨_, hm, rfl⟩

end Avp64.Lib
