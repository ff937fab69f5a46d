/-
  Avp64.Lib.CoherentCache — clients that work on copies of parts of a memory.

  A client keeps a copy of what it has read from a part of the memory and goes on using
  it.  If every store drops the copies of all parts it reaches, nobody can tell the
  system from one that reads the memory each time.

    • `Coherent`         — every copy is what the memory holds now,
    • `cachedRefinement` — a run with copies is, use by use, a run without.
-/
import Avp64.Lib.Transition

namespace Avp64.Lib

variable {ι κ α β γ : Type*} [DecidableEq α]

/-! ## §1. Parts of a memory. -/

/-- The parts `κ` of a memory with the cells `α`: what is read from a part depends on
its own cells only. -/
structure Parts (κ α β γ : Type*) where
  cells : κ → Set α
  read : κ → (α → β) → γ
  read_congr : ∀ k m m', (∀ a ∈ cells k, m' a = m a) → read k m' = read k m

variable {P : Parts κ α β γ}

/-- A store elsewhere leaves the part as it is. -/
theorem Parts.read_update (P : Parts κ α β γ) {k : κ} {a : α} (h : a ∉ P.cells k)
    (b : β) (m : α → β) : P.read k (Function.update m a b) = P.read k m := by
  refine P.read_congr k m _ ?_
  intro a' ha'
  refine Function.update_of_ne ?_ b m
  rintro rfl
  exact h ha'

/-! ## §2. The plain system. -/

inductive MemoryEvent (κ α β γ : Type*) where
  /-- Somebody works on what the part `k` holds. -/
  | use (k : κ) (v : γ)
  | store (a : α) (b : β)
  | idle

inductive MemoryStep (P : Parts κ α β γ) :
    (α → β) → MemoryEvent κ α β γ → (α → β) → Prop
  | use (m : α → β) (k : κ) : MemoryStep P m (.use k (P.read k m)) m
  | store (m : α → β) (a : α) (b : β) : MemoryStep P m (.store a b) (Function.update m a b)
  | idle (m : α → β) : MemoryStep P m .idle m

/-- Every use reads the memory. -/
def plainMemory (P : Parts κ α β γ) (init : Set (α → β)) :
    Lts (α → β) (MemoryEvent κ α β γ) where
  init m := m ∈ init
  step := MemoryStep P

/-! ## §3. The system with copies. -/

/-- `copy i k` is the copy that the client `i` has of the part `k`. -/
structure CachedMemory (ι κ α β γ : Type*) where
  memory : α → β
  copy : ι → κ → Option γ

/-- Copies may be lost at any time.  A new one is taken from the memory, and a store
loses all copies of the parts it reaches. -/
inductive CachedStep (P : Parts κ α β γ) :
    CachedMemory ι κ α β γ → MemoryEvent κ α β γ → CachedMemory ι κ α β γ → Prop
  | hit (s : CachedMemory ι κ α β γ) {i : ι} {k : κ} {v : γ} : s.copy i k = some v →
      CachedStep P s (.use k v) s
  | fill (s : CachedMemory ι κ α β γ) {i : ι} {k : κ} {copy : ι → κ → Option γ} :
      (∀ j k' v, copy j k' = some v →
        s.copy j k' = some v ∨ (j = i ∧ k' = k ∧ v = P.read k s.memory)) →
      CachedStep P s (.use k (P.read k s.memory)) ⟨s.memory, copy⟩
  | store (s : CachedMemory ι κ α β γ) (a : α) (b : β) {copy : ι → κ → Option γ} :
      (∀ j k v, copy j k = some v → s.copy j k = some v ∧ a ∉ P.cells k) →
      CachedStep P s (.store a b) ⟨Function.update s.memory a b, copy⟩
  | lose (s : CachedMemory ι κ α β γ) {copy : ι → κ → Option γ} :
      (∀ j k v, copy j k = some v → s.copy j k = some v) →
      CachedStep P s .idle ⟨s.memory, copy⟩

/-- Nobody has a copy at the start. -/
def cachedMemory (ι : Type*) (P : Parts κ α β γ) (init : Set (α → β)) :
    Lts (CachedMemory ι κ α β γ) (MemoryEvent κ α β γ) where
  init s := s.memory ∈ init ∧ ∀ j k, s.copy j k = none
  step := CachedStep P

/-! ## §4. Coherence. -/

/-- Every copy is what the memory holds now. -/
def Coherent (P : Parts κ α β γ) (s : CachedMemory ι κ α β γ) : Prop :=
  ∀ j k v, s.copy j k = some v → v = P.read k s.memory

theorem coherent_step {s s' : CachedMemory ι κ α β γ} {e : MemoryEvent κ α β γ}
    (h : Coherent P s) (hst : CachedStep P s e s') : Coherent P s' := by
  cases hst with
  | hit _ => exact h
  | fill hcopy =>
      intro j k v hv
      rcases hcopy j k v hv with hold | ⟨_, rfl, rfl⟩
      · exact h j k v hold
      · rfl
  | store a b hcopy =>
      intro j k v hv
      obtain ⟨hold, ha⟩ := hcopy j k v hv
      -- the copies that are left are of parts the store does not reach
      rw [P.read_update ha]
      exact h j k v hold
  | lose hcopy =>
      intro j k v hv
      exact h j k v (hcopy j k v hv)

theorem coherent_of_reachable {init : Set (α → β)} {s : CachedMemory ι κ α β γ}
    (hr : (cachedMemory ι P init).Reachable s) : Coherent P s := by
  refine hr.invariant ?_ ?_
  · intro s h0 j k v hv
    rw [h0.2 j k] at hv
    cases hv
  · intro s e s' h hst
    exact coherent_step h hst

/-- **Copies cannot be told from the memory.** -/
def cachedRefinement (ι : Type*) (P : Parts κ α β γ) (init : Set (α → β)) :
    (cachedMemory ι P init).Simulation (plainMemory P init) where
  label _ e := e
  rel m s := m = s.memory
  init s h0 := ⟨s.memory, h0.1, rfl⟩
  step := by
    rintro m s e s' hr rfl hst
    have hc := coherent_of_reachable hr
    cases hst with
    | hit hv =>
        rw [hc _ _ _ hv]
        exact ⟨_, .use _ _, rfl⟩
    | fill _ => exact ⟨_, .use _ _, rfl⟩
    | store a b _ => exact ⟨_, .store _ a b, rfl⟩
    | lose _ => exact ⟨_, .idle _, rfl⟩

end Avp64.Lib
