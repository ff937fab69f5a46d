/-
  Avp64.Psp.Core.Debug — what the debugger has armed, and resets.

  Breakpoints, watchpoints and the basic-block trace live in the engine; the
  debugger keeps its own account of what it inserted.  `reset` replaces the engine
  and restores the identifiers and the registers only, and a read-write watchpoint
  is two calls of the engine of which the second can fail alone.

    • `armed_initialised`    — a new engine has nothing armed,
    • `armed_step`           — what one event does to the armed items,
    • `debug_state_run_iff`  — which runs keep the engine and the account equal.
-/
import Avp64.Lib.Transition
import Avp64.Psp.Core.Operations

namespace Avp64.Psp

open Avp64.Lib

variable {σ : Type} {O : Ocx σ} {F : Set (List RegWrite)}

/-! ## §1. Items, and what the engine does with them. -/

/-- What a debugger can arm in the engine. -/
inductive DebugItem where
  | breakpoint (addr : U64)
  | watchpoint (addr size : U64) (iswr : Bool)
  | trace
  deriving DecidableEq, Repr

namespace OcxCall

def arms : OcxCall → Set DebugItem
  | .addBreakpoint a => {.breakpoint a}
  | .addWatchpoint a n w => {.watchpoint a n w}
  | .traceBasicBlocks on => if on then {.trace} else ∅
  | _ => ∅

def disarms : OcxCall → Set DebugItem
  | .removeBreakpoint a => {.breakpoint a}
  | .removeWatchpoint a n w => {.watchpoint a n w}
  | .traceBasicBlocks on => if on then ∅ else {.trace}
  | _ => ∅

/-- What a call that takes effect makes of the items `D`. -/
def effect (c : OcxCall) (D : Set DebugItem) : Set DebugItem := (D \ c.disarms) ∪ c.arms

/-- A call takes effect if it returns true, or nothing at all (`void`). -/
def takesEffect : OcxCall → Bool → Bool
  | .addBreakpoint _, b => b
  | .removeBreakpoint _, b => b
  | .addWatchpoint _ _ _, b => b
  | .removeWatchpoint _ _ _, b => b
  | _, _ => true

end OcxCall

/-- What is relied on about an engine that has the items `armed st` armed. -/
structure DebugLaws (O : Ocx σ) (armed : σ → Set DebugItem) : Prop where
  created : armed O.create = ∅
  changed : ∀ c st, c.takesEffect (O.call c st).1 = true →
    armed (O.call c st).2 = (armed st \ c.disarms) ∪ c.arms
  unchanged : ∀ c st, c.takesEffect (O.call c st).1 = false →
    armed (O.call c st).2 = armed st
  stepped : ∀ st st', O.step st st' → armed st' = armed st

/-- What is relied on about one of the calls. -/
structure CallLaw (O : Ocx σ) (armed : σ → Set DebugItem) (c : OcxCall) : Prop where
  changed : ∀ st, c.takesEffect (O.call c st).1 = true →
    armed (O.call c st).2 = (armed st \ c.disarms) ∪ c.arms
  unchanged : ∀ st, c.takesEffect (O.call c st).1 = false →
    armed (O.call c st).2 = armed st

/-- What is relied on about the calls for watchpoints. -/
structure WatchpointLaws (O : Ocx σ) (armed : σ → Set DebugItem) : Prop where
  add : ∀ a n w, CallLaw O armed (.addWatchpoint a n w)
  remove : ∀ a n w, CallLaw O armed (.removeWatchpoint a n w)

variable {armed : σ → Set DebugItem}

theorem DebugLaws.callLaw (laws : DebugLaws O armed) (c : OcxCall) : CallLaw O armed c :=
  ⟨laws.changed c, laws.unchanged c⟩

theorem DebugLaws.watchpointLaws (laws : DebugLaws O armed) : WatchpointLaws O armed :=
  ⟨fun _ _ _ => laws.callLaw _, fun _ _ _ => laws.callLaw _⟩

/-- A call that neither arms nor disarms leaves the items alone. -/
theorem armed_call_of_empty (laws : DebugLaws O armed) {c : OcxCall} (ha : c.arms = ∅)
    (hd : c.disarms = ∅) (st : σ) : armed (O.call c st).2 = armed st := by
  cases h : c.takesEffect (O.call c st).1 with
  | true => rw [laws.changed c st h, ha, hd]; simp
  | false => exact laws.unchanged c st h

/-- **A new engine has nothing armed**, whatever was written to its registers. -/
theorem armed_initialised (laws : DebugLaws O armed) {st : σ}
    (h : Core.Initialised O st) : armed st = ∅ := by
  induction h with
  | opened procId coreId =>
      rw [armed_call_of_empty laws rfl rfl, laws.created]
  | written regid v _ ih =>
      rw [armed_call_of_empty laws rfl rfl, ih]

/-! ## §2. A debugging session. -/

/-- The core, and the number of the next engine instance. -/
structure DebugState (σ : Type) where
  core : Core σ
  next : Nat

inductive DebugEvent where
  | insertBreakpoint (addr : U64) (res : Bool)
  | removeBreakpoint (addr : U64) (res : Bool)
  | insertWatchpoint (mem : Range) (acs : VcmlAccess) (res : Bool)
  | removeWatchpoint (mem : Range) (acs : VcmlAccess) (res : Bool)
  | startBasicBlockTrace (res : Bool)
  | stopBasicBlockTrace (res : Bool)
  | simulate
  | reset (created : Bool) (res : Except CoreError Unit)

/-- The watchpoints of the engine that stand for one of the debugger. -/
def Range.watchpoints (mem : Range) : VcmlAccess → Set DebugItem
  | .none => ∅
  | .read => {.watchpoint mem.start mem.length false}
  | .write => {.watchpoint mem.start mem.length true}
  | .readWrite =>
      {.watchpoint mem.start mem.length true, .watchpoint mem.start mem.length false}

namespace DebugEvent

/-- The items the debugger takes to be armed by the event. -/
def arms : DebugEvent → Set DebugItem
  | .insertBreakpoint a res => if res then {.breakpoint a} else ∅
  | .insertWatchpoint mem acs res => if res then mem.watchpoints acs else ∅
  | .startBasicBlockTrace res => if res then {.trace} else ∅
  | _ => ∅

/-- The items the debugger takes to be disarmed by the event. -/
def disarms : DebugEvent → Set DebugItem
  | .removeBreakpoint a res => if res then {.breakpoint a} else ∅
  | .removeWatchpoint mem acs res => if res then mem.watchpoints acs else ∅
  | .stopBasicBlockTrace res => if res then {.trace} else ∅
  | _ => ∅

end DebugEvent

inductive DebugStep (O : Ocx σ) (F : Set (List RegWrite)) :
    DebugState σ → DebugEvent → DebugState σ → Prop
  | insertBreakpoint (s : DebugState σ) (addr : U64) {res : Bool} {core : Core σ} :
      s.core.insertBreakpoint O addr = (.ok res, core) →
      DebugStep O F s (.insertBreakpoint addr res) { s with core := core }
  | removeBreakpoint (s : DebugState σ) (addr : U64) {res : Bool} {core : Core σ} :
      s.core.removeBreakpoint O addr = (.ok res, core) →
      DebugStep O F s (.removeBreakpoint addr res) { s with core := core }
  | insertWatchpoint (s : DebugState σ) (mem : Range) (acs : VcmlAccess) {res : Bool}
      {core : Core σ} : s.core.insertWatchpoint O mem acs = (.ok res, core) →
      DebugStep O F s (.insertWatchpoint mem acs res) { s with core := core }
  | removeWatchpoint (s : DebugState σ) (mem : Range) (acs : VcmlAccess) {res : Bool}
      {core : Core σ} : s.core.removeWatchpoint O mem acs = (.ok res, core) →
      DebugStep O F s (.removeWatchpoint mem acs res) { s with core := core }
  | startBasicBlockTrace (s : DebugState σ) {res : Bool} {core : Core σ} :
      s.core.startBasicBlockTrace O = (.ok res, core) →
      DebugStep O F s (.startBasicBlockTrace res) { s with core := core }
  | stopBasicBlockTrace (s : DebugState σ) {res : Bool} {core : Core σ} :
      s.core.stopBasicBlockTrace O = (.ok res, core) →
      DebugStep O F s (.stopBasicBlockTrace res) { s with core := core }
  | simulate (s : DebugState σ) {inst : OcxInstance σ} {st : σ} :
      s.core.mCore = some inst → O.step inst.state st →
      DebugStep O F s .simulate
        { s with core := { (s.core.simulate O).2 with mCore := some ⟨inst.id, st⟩ } }
  | reset (s : DebugState σ) (flush : List RegWrite) (created : Bool) : flush ∈ F →
      DebugStep O F s (.reset created (s.core.reset O flush s.next created).1)
        ⟨(s.core.reset O flush s.next created).2.2, s.next + 1⟩

/-- The debugging of a constructed core. -/
def debugSession (O : Ocx σ) (F : Set (List RegWrite)) : Lts (DebugState σ) DebugEvent where
  init s := ∃ procid coreid, s = ⟨(Core.construct O procid coreid 0 true).2, 1⟩
  step := DebugStep O F

/-! ## §3. One event. -/

/-- The items armed in the current engine. -/
def armedIn (armed : σ → Set DebugItem) (core : Core σ) : Set DebugItem :=
  { x | ∃ inst, core.mCore = some inst ∧ x ∈ armed inst.state }

theorem armedIn_of_some {core : Core σ} {inst : OcxInstance σ}
    (h : core.mCore = some inst) : armedIn armed core = armed inst.state := by
  ext x
  constructor
  · intro hx
    obtain ⟨inst', h', hx⟩ := hx
    rw [h] at h'
    injection h' with h'
    exact h' ▸ hx
  · intro hx
    exact ⟨inst, h, hx⟩

/-- **A reset leaves nothing armed**, with a new engine or with none. -/
theorem armedIn_reset (laws : DebugLaws O armed) (flush : List RegWrite) (fresh : Nat)
    (created : Bool) (core : Core σ) :
    armedIn armed (core.reset O flush fresh created).2.2 = ∅ := by
  rw [Set.eq_empty_iff_forall_notMem]
  intro x hx
  obtain ⟨inst, hinst, hmem⟩ := hx
  rw [armed_initialised laws (Core.reset_new hinst).2] at hmem
  exact hmem

/-- One call that returned: the items changed as the call says. -/
theorem armedIn_call {c : OcxCall} (law : CallLaw O armed c) {core core' : Core σ}
    {b : Bool} (h : core.call O c = (.ok b, core')) :
    armedIn armed core' =
      if c.takesEffect b then c.effect (armedIn armed core) else armedIn armed core := by
  cases hm : core.mCore with
  | none =>
      rw [Core.call_of_none hm] at h
      simp at h
  | some inst =>
      rw [Core.call_of_some hm] at h
      simp only [Prod.mk.injEq, Except.ok.injEq] at h
      obtain ⟨rfl, rfl⟩ := h
      rw [armedIn_of_some hm, armedIn_of_some rfl]
      cases he : c.takesEffect (O.call c inst.state).1 with
      | true => exact law.changed inst.state he
      | false => exact law.unchanged inst.state he

/-- The first call succeeds and the second fails. -/
def HalfDone (O : Ocx σ) (a b : OcxCall) (core : Core σ) : Prop :=
  ∃ inst, core.mCore = some inst ∧ (O.call a inst.state).1 = true
    ∧ (O.call b (O.call a inst.state).2).1 = false

theorem halfDone_iff {core : Core σ} {inst : OcxInstance σ} (hm : core.mCore = some inst)
    (a b : OcxCall) :
    HalfDone O a b core ↔ (O.call a inst.state).1 = true
      ∧ (O.call b (O.call a inst.state).2).1 = false := by
  constructor
  · intro hd
    obtain ⟨inst', hm', hd⟩ := hd
    rw [hm] at hm'
    injection hm' with hm'
    exact hm' ▸ hd
  · intro hd
    exact ⟨inst, hm, hd⟩

/-- The outcomes of two calls joined by `&&`. -/
inductive CallAndCase (O : Ocx σ) (a b : OcxCall) (core : Core σ) : Bool → Core σ → Prop
  | firstFailed {core' : Core σ} : core.call O a = (.ok false, core') →
      ¬ HalfDone O a b core → CallAndCase O a b core false core'
  | secondFailed {core₁ core' : Core σ} : core.call O a = (.ok true, core₁) →
      core₁.call O b = (.ok false, core') → HalfDone O a b core →
      CallAndCase O a b core false core'
  | done {core₁ core' : Core σ} : core.call O a = (.ok true, core₁) →
      core₁.call O b = (.ok true, core') → ¬ HalfDone O a b core →
      CallAndCase O a b core true core'

theorem callAnd_case {core core' : Core σ} {a b : OcxCall} {res : Bool}
    (h : core.callAnd O a b = (.ok res, core')) : CallAndCase O a b core res core' := by
  unfold Core.callAnd at h
  cases hm : core.mCore with
  | none =>
      rw [Core.call_of_none hm] at h
      simp at h
  | some inst =>
      have ha := Core.call_of_some (O := O) hm a
      rw [ha] at h
      have hb : ({ core with
          mCore := some { inst with state := (O.call a inst.state).2 } } : Core σ).call O b
          = _ := Core.call_of_some rfl b
      have hhalf := halfDone_iff (O := O) hm a b
      cases hra : (O.call a inst.state).1 with
      | false =>
          rw [hra] at h ha hhalf
          simp only [Prod.mk.injEq, Except.ok.injEq] at h
          obtain ⟨rfl, rfl⟩ := h
          exact .firstFailed ha (by rw [hhalf]; simp)
      | true =>
          rw [hra] at h ha hhalf
          simp only at h
          rw [hb] at h
          simp only [Prod.mk.injEq, Except.ok.injEq] at h
          obtain ⟨rfl, rfl⟩ := h
          cases hrb : (O.call b (O.call a inst.state).2).1 with
          | false =>
              rw [hrb] at hb hhalf
              exact .secondFailed ha hb (hhalf.mpr ⟨rfl, rfl⟩)
          | true =>
              rw [hrb] at hb hhalf
              exact .done ha hb (by rw [hhalf]; simp)

/-- What the debugger's account makes of the items `D`. -/
def DebugEvent.account (e : DebugEvent) (D : Set DebugItem) : Set DebugItem :=
  (D \ e.disarms) ∪ e.arms

/-- The event changes the engine's items as it changes the debugger's account: no
read-write watchpoint is left half inserted or half removed, and no reset drops
anything. -/
def DebugEvent.keepsItems (O : Ocx σ) (armed : σ → Set DebugItem) (core : Core σ) :
    DebugEvent → Prop
  | .insertWatchpoint mem .readWrite _ =>
      HalfDone O (.addWatchpoint mem.start mem.length true)
        (.addWatchpoint mem.start mem.length false) core →
      .watchpoint mem.start mem.length true ∈ armedIn armed core
  | .removeWatchpoint mem .readWrite _ =>
      HalfDone O (.removeWatchpoint mem.start mem.length true)
        (.removeWatchpoint mem.start mem.length false) core →
      .watchpoint mem.start mem.length true ∉ armedIn armed core
  | .reset _ _ => armedIn armed core = ∅
  | _ => True

/-- An event that is one call of the engine. -/
theorem account_call {c : OcxCall} (law : CallLaw O armed c) {core core' : Core σ}
    {b : Bool} (h : core.call O c = (.ok b, core')) {e : DebugEvent}
    (ha : e.arms = if c.takesEffect b then c.arms else ∅)
    (hd : e.disarms = if c.takesEffect b then c.disarms else ∅) :
    armedIn armed core' = e.account (armedIn armed core) := by
  unfold DebugEvent.account
  rw [armedIn_call law h, ha, hd]
  cases c.takesEffect b with
  | true => rfl
  | false => simp

/-- An event that neither arms nor disarms leaves the account alone. -/
theorem account_of_empty {e : DebugEvent} (ha : e.arms = ∅) (hd : e.disarms = ∅)
    (D : Set DebugItem) : e.account D = D := by
  unfold DebugEvent.account
  rw [ha, hd]
  simp

theorem account_insert_iff {D : Set DebugItem} {x : DebugItem} :
    D ∪ {x} = D ↔ x ∈ D := by
  rw [Set.union_eq_left, Set.singleton_subset_iff]

theorem account_remove_iff {D : Set DebugItem} {x : DebugItem} :
    D \ {x} = D ↔ x ∉ D := by
  rw [sdiff_eq_left, Set.disjoint_singleton_right]

/-- Two calls joined by `&&` change the items by both or not at all, exactly if the first
one changes nothing where the second fails after it. -/
theorem armedIn_callAnd {a b : OcxCall} (lawA : CallLaw O armed a)
    (lawB : CallLaw O armed b) (hta : ∀ r, a.takesEffect r = r)
    (htb : ∀ r, b.takesEffect r = r) {core core' : Core σ} {res : Bool}
    (h : core.callAnd O a b = (.ok res, core')) :
    armedIn armed core'
        = (if res then b.effect (a.effect (armedIn armed core)) else armedIn armed core)
      ↔ (HalfDone O a b core → a.effect (armedIn armed core) = armedIn armed core) := by
  have hcase := callAnd_case h
  cases hcase with
  | firstFailed ha hno =>
      rw [armedIn_call lawA ha, hta]
      exact iff_of_true rfl (fun hhalf => absurd hhalf hno)
  | secondFailed ha hb hhalf =>
      rw [armedIn_call lawB hb, htb, armedIn_call lawA ha, hta]
      exact ⟨fun heq _ => heq, fun himp => himp hhalf⟩
  | done ha hb hno =>
      rw [armedIn_call lawB hb, htb, armedIn_call lawA ha, hta]
      exact iff_of_true rfl (fun hhalf => absurd hhalf hno)

/-- The two calls for a read-write watchpoint, inserted. -/
theorem account_insert_readWrite (laws : WatchpointLaws O armed) {core core' : Core σ}
    {mem : Range} {res : Bool}
    (h : core.insertWatchpoint O mem .readWrite = (.ok res, core')) :
    armedIn armed core'
        = (DebugEvent.insertWatchpoint mem .readWrite res).account (armedIn armed core)
      ↔ (DebugEvent.insertWatchpoint mem .readWrite res).keepsItems O armed core := by
  have hiff := armedIn_callAnd (laws.add _ _ _) (laws.add _ _ _) (fun _ => rfl)
    (fun _ => rfl) h
  have hboth : (DebugEvent.insertWatchpoint mem .readWrite res).account (armedIn armed core)
      = if res then
          (OcxCall.addWatchpoint mem.start mem.length false).effect
            ((OcxCall.addWatchpoint mem.start mem.length true).effect (armedIn armed core))
        else armedIn armed core := by
    cases res with
    | false => exact account_of_empty rfl rfl _
    | true =>
        show (armedIn armed core \ ∅) ∪ {DebugItem.watchpoint mem.start mem.length true,
            DebugItem.watchpoint mem.start mem.length false}
          = ((armedIn armed core \ ∅ ∪ {DebugItem.watchpoint mem.start mem.length true}) \ ∅)
            ∪ {DebugItem.watchpoint mem.start mem.length false}
        rw [Set.sdiff_empty, Set.sdiff_empty, Set.union_assoc, Set.singleton_union]
  rw [hboth, hiff]
  show (_ → (armedIn armed core \ ∅) ∪ {_} = armedIn armed core) ↔ (_ → _)
  rw [Set.sdiff_empty, account_insert_iff]

/-- The two calls for a read-write watchpoint, removed. -/
theorem account_remove_readWrite (laws : WatchpointLaws O armed) {core core' : Core σ}
    {mem : Range} {res : Bool}
    (h : core.removeWatchpoint O mem .readWrite = (.ok res, core')) :
    armedIn armed core'
        = (DebugEvent.removeWatchpoint mem .readWrite res).account (armedIn armed core)
      ↔ (DebugEvent.removeWatchpoint mem .readWrite res).keepsItems O armed core := by
  have hiff := armedIn_callAnd (laws.remove _ _ _) (laws.remove _ _ _) (fun _ => rfl)
    (fun _ => rfl) h
  have hboth : (DebugEvent.removeWatchpoint mem .readWrite res).account (armedIn armed core)
      = if res then
          (OcxCall.removeWatchpoint mem.start mem.length false).effect
            ((OcxCall.removeWatchpoint mem.start mem.length true).effect
              (armedIn armed core))
        else armedIn armed core := by
    cases res with
    | false => exact account_of_empty rfl rfl _
    | true =>
        show (armedIn armed core \ {DebugItem.watchpoint mem.start mem.length true,
            DebugItem.watchpoint mem.start mem.length false}) ∪ ∅
          = ((armedIn armed core \ {DebugItem.watchpoint mem.start mem.length true} ∪ ∅)
            \ {DebugItem.watchpoint mem.start mem.length false}) ∪ ∅
        rw [Set.union_empty, Set.union_empty, Set.union_empty, sdiff_sdiff_left]
        rfl
  rw [hboth, hiff]
  show (_ → (armedIn armed core \ {_}) ∪ ∅ = armedIn armed core) ↔ (_ → _)
  rw [Set.union_empty, account_remove_iff]

/-- **Inserting a watchpoint** of any kind. -/
theorem account_insert (laws : WatchpointLaws O armed) {core core' : Core σ} {mem : Range}
    {acs : VcmlAccess} {res : Bool}
    (h : core.insertWatchpoint O mem acs = (.ok res, core')) :
    armedIn armed core'
        = (DebugEvent.insertWatchpoint mem acs res).account (armedIn armed core)
      ↔ (DebugEvent.insertWatchpoint mem acs res).keepsItems O armed core := by
  cases acs with
  | readWrite => exact account_insert_readWrite laws h
  | none =>
      -- an unsupported access changes nothing and returns false
      obtain ⟨rfl, rfl⟩ : res = false ∧ core' = core := by
        simpa [Core.insertWatchpoint, Core.changeWatchpoint, eq_comm] using h
      exact iff_of_true (account_of_empty rfl rfl _).symm trivial
  | read =>
      exact iff_of_true (account_call (laws.add _ _ _) h (by cases res <;> rfl)
        (by cases res <;> rfl)) trivial
  | write =>
      exact iff_of_true (account_call (laws.add _ _ _) h (by cases res <;> rfl)
        (by cases res <;> rfl)) trivial

/-- **Removing a watchpoint** of any kind. -/
theorem account_remove (laws : WatchpointLaws O armed) {core core' : Core σ} {mem : Range}
    {acs : VcmlAccess} {res : Bool}
    (h : core.removeWatchpoint O mem acs = (.ok res, core')) :
    armedIn armed core'
        = (DebugEvent.removeWatchpoint mem acs res).account (armedIn armed core)
      ↔ (DebugEvent.removeWatchpoint mem acs res).keepsItems O armed core := by
  cases acs with
  | readWrite => exact account_remove_readWrite laws h
  | none =>
      obtain ⟨rfl, rfl⟩ : res = false ∧ core' = core := by
        simpa [Core.removeWatchpoint, Core.changeWatchpoint, eq_comm] using h
      exact iff_of_true (account_of_empty rfl rfl _).symm trivial
  | read =>
      exact iff_of_true (account_call (laws.remove _ _ _) h (by cases res <;> rfl)
        (by cases res <;> rfl)) trivial
  | write =>
      exact iff_of_true (account_call (laws.remove _ _ _) h (by cases res <;> rfl)
        (by cases res <;> rfl)) trivial

/-- The two trace calls return true, and take effect. -/
theorem account_trace (laws : DebugLaws O armed) {core core' : Core σ} {on : Bool}
    {res : Bool} (h : core.traceBasicBlocks O on = (.ok res, core')) {e : DebugEvent}
    (ha : res = true → e.arms = (OcxCall.traceBasicBlocks on).arms)
    (hd : res = true → e.disarms = (OcxCall.traceBasicBlocks on).disarms) :
    armedIn armed core' = e.account (armedIn armed core) := by
  unfold Core.traceBasicBlocks at h
  cases hm : core.mCore with
  | none =>
      rw [Core.call_of_none hm] at h
      simp at h
  | some inst =>
      have hcall := Core.call_of_some (O := O) hm (.traceBasicBlocks on)
      rw [hcall] at h
      simp only [Prod.mk.injEq, Except.ok.injEq] at h
      obtain ⟨hres, rfl⟩ := h
      exact account_call (laws.callLaw _) hcall (ha hres.symm) (hd hres.symm)

/-- **What one event does to the armed items**: what the debugger's account says,
exactly when the event keeps the items. -/
theorem armed_step (laws : DebugLaws O armed) {s s' : DebugState σ} {e : DebugEvent}
    (hst : DebugStep O F s e s') :
    armedIn armed s'.core = e.account (armedIn armed s.core)
      ↔ e.keepsItems O armed s.core := by
  cases hst with
  | @insertBreakpoint addr res core h =>
      exact iff_of_true (account_call (laws.callLaw _) h (by cases res <;> rfl)
        (by cases res <;> rfl)) trivial
  | @removeBreakpoint addr res core h =>
      exact iff_of_true (account_call (laws.callLaw _) h (by cases res <;> rfl)
        (by cases res <;> rfl)) trivial
  | insertWatchpoint mem acs h => exact account_insert laws.watchpointLaws h
  | removeWatchpoint mem acs h => exact account_remove laws.watchpointLaws h
  | @startBasicBlockTrace res core h =>
      exact iff_of_true (account_trace laws h (fun hres => by rw [hres]; rfl)
        (fun hres => by rw [hres]; rfl)) trivial
  | @stopBasicBlockTrace res core h =>
      exact iff_of_true (account_trace laws h (fun hres => by rw [hres]; rfl)
        (fun hres => by rw [hres]; rfl)) trivial
  | @simulate inst st hm hstep =>
      refine iff_of_true ?_ trivial
      rw [armedIn_of_some rfl, armedIn_of_some hm, laws.stepped _ _ hstep]
      exact (account_of_empty rfl rfl _).symm
  | reset flush created _ =>
      rw [armedIn_reset laws flush s.next created s.core, account_of_empty rfl rfl]
      exact eq_comm

/-! ## §4. Runs. -/

/-- The items armed in the current engine are those that were successfully inserted
and not successfully removed since. -/
def DebugAgrees (armed : σ → Set DebugItem) (tr : List (DebugState σ × DebugEvent))
    (s : DebugState σ) : Prop :=
  ∀ x, x ∈ armedIn armed s.core ↔
    Since (fun y => x ∈ y.2.arms) (fun y => x ∈ y.2.disarms) tr

theorem debugAgrees_snoc {tr : List (DebugState σ × DebugEvent)} {s s' : DebugState σ}
    {e : DebugEvent} (h : DebugAgrees armed tr s) :
    DebugAgrees armed (tr ++ [(s, e)]) s'
      ↔ armedIn armed s'.core = e.account (armedIn armed s.core) := by
  have hmem : ∀ x, x ∈ e.account (armedIn armed s.core) ↔
      Since (fun y => x ∈ y.2.arms) (fun y => x ∈ y.2.disarms) (tr ++ [(s, e)]) := by
    -- an item is in the account if this event arms it, or it was and is not disarmed
    intro x
    rw [since_snoc, ← h x, or_comm]
    rfl
  constructor
  · intro h'
    ext x
    rw [h' x, hmem x]
  · intro heq x
    rw [heq, hmem x]

/-- **When the debug state of the engine is the debugger's account throughout a
run.** -/
theorem debug_state_run_iff (O : Ocx σ) (F : Set (List RegWrite))
    (armed : σ → Set DebugItem) (laws : DebugLaws O armed)
    {tr : List (DebugState σ × DebugEvent)} {s : DebugState σ}
    (hr : (debugSession O F).Run tr s) :
    Always (DebugAgrees armed) tr s ↔
      ∀ y ∈ tr, y.2.keepsItems O armed y.1.core := by
  refine hr.always_iff (C := fun t e => e.keepsItems O armed t.core) ?_ ?_
  · intro s h0 x
    obtain ⟨procid, coreid, rfl⟩ := h0
    -- nothing is armed in a new engine, and nothing was inserted yet
    obtain ⟨st, _, hin, hcore⟩ := Core.construct_opened O procid coreid 0
    show x ∈ armedIn armed (Core.construct O procid coreid 0 true).2 ↔ _
    rw [hcore, armedIn_of_some rfl, armed_initialised laws hin]
    exact iff_of_false (fun h => h) not_since_nil
  · intro tr s e s' hr hP hst
    rw [debugAgrees_snoc hP]
    exact armed_step laws hst

/-- The items of the small engine. -/
def smallArmed (st : SmallEngine) : Set DebugItem :=
  { x | match x with
    | .breakpoint a => a ∈ st.breakpoints
    | .watchpoint a n w => (a, n, w) ∈ st.watchpoints
    | .trace => st.tracing = true }

theorem smallArmed_laws : DebugLaws smallOcx smallArmed := by
  constructor
  · ext x
    cases x <;> simp [smallArmed, smallOcx]
  · intro c st _
    show smallArmed (st.call c) = (smallArmed st \ c.disarms) ∪ c.arms
    unfold SmallEngine.call
    ext x
    cases c with
    | traceBasicBlocks on =>
        cases on <;> cases x <;> simp [smallArmed, OcxCall.arms, OcxCall.disarms]
    | writeReg r v =>
        by_cases hr : r = 32#64 <;>
          cases x <;> simp [smallArmed, OcxCall.arms, OcxCall.disarms, hr]
    | removeWatchpoint a n w =>
        cases x <;> simp [smallArmed, OcxCall.arms, OcxCall.disarms]
        tauto
    | _ => cases x <;> simp [smallArmed, OcxCall.arms, OcxCall.disarms, and_comm]
  · intro c st h
    cases c <;> cases h
  · intro st st' h
    rw [show st' = { st with pc := st'.pc } from h]
    rfl

/-- A breakpoint, inserted. -/
theorem debug_state_inserted :
    Always (DebugAgrees smallArmed)
      [(⟨(Core.construct smallOcx 0 0 0 true).2, 1⟩,
        DebugEvent.insertBreakpoint 0x100#64 true)]
      ⟨((Core.construct smallOcx 0 0 0 true).2.insertBreakpoint smallOcx 0x100#64).2, 1⟩
    ↔ ∀ y ∈ [((⟨(Core.construct smallOcx 0 0 0 true).2, 1⟩ : DebugState SmallEngine),
        DebugEvent.insertBreakpoint 0x100#64 true)],
        y.2.keepsItems smallOcx smallArmed y.1.core := by
  have hr : (debugSession smallOcx {Core.tableWrites (fun _ => 0)}).Run _ _ :=
    .snoc (.start ⟨0, 0, rfl⟩) (.insertBreakpoint _ 0x100#64 rfl)
  exact debug_state_run_iff smallOcx {Core.tableWrites (fun _ => 0)} smallArmed smallArmed_laws hr

/-- A breakpoint is inserted, and a reset follows: the new engine does not have it. -/
theorem reset_drops_breakpoint :
    ¬ ∀ (tr : List (DebugState SmallEngine × DebugEvent)) (s : DebugState SmallEngine),
      (debugSession smallOcx {Core.tableWrites (fun _ => 0)}).Run tr s → DebugAgrees smallArmed tr s := by
  intro hall
  have hr : (debugSession smallOcx {Core.tableWrites (fun _ => 0)}).Run _ _ :=
    .snoc (.snoc (.start ⟨0, 0, rfl⟩) (.insertBreakpoint _ 0x100#64 rfl)) (.reset _ _ true rfl)
  have hinserted := (hall _ _ hr (.breakpoint 0x100#64)).mpr
    (since_snoc.mpr (.inr ⟨since_snoc.mpr (.inl rfl), Set.notMem_empty _⟩))
  rw [armedIn_reset smallArmed_laws] at hinserted
  exact hinserted

end Avp64.Psp
