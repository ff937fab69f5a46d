/-
  Avp64.Psp.Core.Watchpoints — inserting and removing a watchpoint, or failing to.

  A watchpoint on reads and writes is two of the engine's, and `insert_watchpoint` and
  `remove_watchpoint` join the two calls with `&&`.  If the second one fails, the first
  is not undone.

    • `insert_true`, `remove_true`  — what succeeds is done completely,
    • `all_or_nothing_iff`          — when what fails changes nothing,
    • `half_inserted`               — an engine with one slot left.
-/
import Avp64.Psp.Core.Debug

namespace Avp64.Psp

variable {σ : Type} {O : Ocx σ} {armed : σ → Set DebugItem} {core core' : Core σ}
  {mem : Range} {acs : VcmlAccess}

/-! ## §1. Two calls. -/

theorem callAnd_of_halfDone {a b : OcxCall} (h : HalfDone O a b core) :
    ∃ core', core.callAnd O a b = (.ok false, core') := by
  obtain ⟨inst, hm, ha, hb⟩ := h
  unfold Core.callAnd
  rw [Core.call_of_some hm, ha]
  show ∃ core', Core.call O b _ = (.ok false, core')
  rw [Core.call_of_some rfl, hb]
  exact ⟨_, rfl⟩

theorem not_halfDone_of_true {a b : OcxCall} (h : core.callAnd O a b = (.ok true, core')) :
    ¬ HalfDone O a b core := by
  have hcase := callAnd_case h
  cases hcase with
  | done _ _ hno => exact hno

/-! ## §2. What succeeds. -/

/-- **A watchpoint that was inserted is armed**, and nothing else changed. -/
theorem insert_true (laws : WatchpointLaws O armed)
    (h : core.insertWatchpoint O mem acs = (.ok true, core')) :
    armedIn armed core' = armedIn armed core ∪ mem.watchpoints acs := by
  have hkeeps : (DebugEvent.insertWatchpoint mem acs true).keepsItems O armed core := by
    cases acs with
    | readWrite => exact fun hhalf => absurd hhalf (not_halfDone_of_true h)
    | _ => trivial
  rw [(account_insert laws h).mpr hkeeps]
  show (armedIn armed core \ ∅) ∪ mem.watchpoints acs = _
  rw [Set.sdiff_empty]

/-- **A watchpoint that was removed is not armed**, and nothing else changed. -/
theorem remove_true (laws : WatchpointLaws O armed)
    (h : core.removeWatchpoint O mem acs = (.ok true, core')) :
    armedIn armed core' = armedIn armed core \ mem.watchpoints acs := by
  have hkeeps : (DebugEvent.removeWatchpoint mem acs true).keepsItems O armed core := by
    cases acs with
    | readWrite => exact fun hhalf => absurd hhalf (not_halfDone_of_true h)
    | _ => trivial
  rw [(account_remove laws h).mpr hkeeps]
  show (armedIn armed core \ mem.watchpoints acs) ∪ ∅ = _
  rw [Set.union_empty]

/-! ## §3. What fails. -/

/-- What a debugger expects of a watchpoint that it inserts or removes. -/
structure AllOrNothing (O : Ocx σ) (armed : σ → Set DebugItem) (mem : Range)
    (acs : VcmlAccess) (core : Core σ) : Prop where
  insert : ∀ core', core.insertWatchpoint O mem acs = (.ok false, core') →
    armedIn armed core' = armedIn armed core
  remove : ∀ core', core.removeWatchpoint O mem acs = (.ok false, core') →
    armedIn armed core' = armedIn armed core
  /-- Of a range that was not armed, an insertion can be undone. -/
  restore : ∀ core₁ core₂, (∀ x ∈ mem.watchpoints acs, x ∉ armedIn armed core) →
    core.insertWatchpoint O mem acs = (.ok true, core₁) →
    core₁.removeWatchpoint O mem acs = (.ok true, core₂) →
    armedIn armed core₂ = armedIn armed core

/-- If the second of two calls fails after the first succeeded, the first one changed
nothing. -/
structure HalvesHarmless (O : Ocx σ) (armed : σ → Set DebugItem) (mem : Range)
    (core : Core σ) : Prop where
  insert : HalfDone O (.addWatchpoint mem.start mem.length true)
      (.addWatchpoint mem.start mem.length false) core →
    .watchpoint mem.start mem.length true ∈ armedIn armed core
  remove : HalfDone O (.removeWatchpoint mem.start mem.length true)
      (.removeWatchpoint mem.start mem.length false) core →
    .watchpoint mem.start mem.length true ∉ armedIn armed core

/-- An operation with the outcome `r`, which the debugger records as `e`. -/
theorem false_iff {r : Except CoreError Bool × Core σ} {e : DebugEvent} (ha : e.arms = ∅)
    (hd : e.disarms = ∅)
    (haccount : ∀ core', r = (.ok false, core') →
      (armedIn armed core' = e.account (armedIn armed core) ↔ e.keepsItems O armed core))
    (hfails : ¬ e.keepsItems O armed core → ∃ core', r = (.ok false, core')) :
    (∀ core', r = (.ok false, core') → armedIn armed core' = armedIn armed core)
      ↔ e.keepsItems O armed core := by
  rw [account_of_empty ha hd] at haccount
  constructor
  · intro hall
    by_contra hno
    obtain ⟨core', h⟩ := hfails hno
    exact hno ((haccount core' h).mp (hall core' h))
  · intro hkeeps core' h
    exact (haccount core' h).mpr hkeeps

theorem insert_false_iff (laws : WatchpointLaws O armed) :
    (∀ core', core.insertWatchpoint O mem acs = (.ok false, core') →
        armedIn armed core' = armedIn armed core)
      ↔ (DebugEvent.insertWatchpoint mem acs false).keepsItems O armed core := by
  refine false_iff rfl rfl (fun _ h => account_insert laws h) ?_
  intro hno
  cases acs with
  | readWrite => exact callAnd_of_halfDone (Classical.not_imp.mp hno).1
  | _ => exact absurd trivial hno

theorem remove_false_iff (laws : WatchpointLaws O armed) :
    (∀ core', core.removeWatchpoint O mem acs = (.ok false, core') →
        armedIn armed core' = armedIn armed core)
      ↔ (DebugEvent.removeWatchpoint mem acs false).keepsItems O armed core := by
  refine false_iff rfl rfl (fun _ h => account_remove laws h) ?_
  intro hno
  cases acs with
  | readWrite => exact callAnd_of_halfDone (Classical.not_imp.mp hno).1
  | _ => exact absurd trivial hno

/-- **Inserting and removing are all or nothing exactly if half of a read-write
watchpoint never changes anything.** -/
theorem all_or_nothing_iff (laws : WatchpointLaws O armed) (mem : Range) (acs : VcmlAccess)
    (core : Core σ) :
    AllOrNothing O armed mem acs core
      ↔ (acs = .readWrite → HalvesHarmless O armed mem core) := by
  constructor
  · rintro h rfl
    exact ⟨(insert_false_iff laws).mp h.insert, (remove_false_iff laws).mp h.remove⟩
  · intro h
    refine ⟨(insert_false_iff laws).mpr ?_, (remove_false_iff laws).mpr ?_, ?_⟩
    · cases acs with
      | readWrite => exact (h rfl).insert
      | _ => trivial
    · cases acs with
      | readWrite => exact (h rfl).remove
      | _ => trivial
    · intro core₁ core₂ hfree hins hrem
      rw [remove_true laws hrem, insert_true laws hins, Set.union_sdiff_right]
      ext x
      exact ⟨fun hx => hx.1, fun hx => ⟨hx, fun hmem => hfree x hmem hx⟩⟩

/-! ### An engine with a number of slots. -/

/-- A watchpoint needs a free slot, and one that is not there cannot be removed. -/
def SmallEngine.refuses (slots : Nat) : OcxCall → SmallEngine → Bool
  | .addWatchpoint _ _ _, st => decide (slots ≤ st.watchpoints.length)
  | .removeWatchpoint a n w, st => decide ((a, n, w) ∉ st.watchpoints)
  | _, _ => false

def slotOcx (slots : Nat) : Ocx SmallEngine :=
  { smallOcx with
    call := fun c st => if st.refuses slots c then (false, st) else (true, st.call c) }

theorem slotOcx_call (slots : Nat) (c : OcxCall) (st : SmallEngine) :
    (slotOcx slots).call c st
      = if st.refuses slots c then (false, st) else (true, st.call c) := rfl

theorem slotOcx_callLaw (slots : Nat) {c : OcxCall} (hc : ∀ b, c.takesEffect b = b) :
    CallLaw (slotOcx slots) smallArmed c := by
  constructor
  · intro st heffect
    rw [hc, slotOcx_call] at heffect
    rw [slotOcx_call]
    cases hr : st.refuses slots c with
    | true => simp [hr] at heffect
    | false => exact smallArmed_laws.changed c st (hc true)
  · intro st hno
    rw [hc, slotOcx_call] at hno
    rw [slotOcx_call]
    cases hr : st.refuses slots c with
    | true => rfl
    | false => simp [hr] at hno

theorem slotOcx_laws (slots : Nat) : WatchpointLaws (slotOcx slots) smallArmed :=
  ⟨fun _ _ _ => slotOcx_callLaw slots (fun _ => rfl),
    fun _ _ _ => slotOcx_callLaw slots (fun _ => rfl)⟩

/-- Two slots for a watchpoint on four bytes. -/
theorem all_or_nothing_two_slots :
    AllOrNothing (slotOcx 2) smallArmed ⟨0x1000#64, 0x1003#64⟩ .readWrite
        (Core.construct (slotOcx 2) 0 0 0 true).2
      ↔ (VcmlAccess.readWrite = .readWrite →
        HalvesHarmless (slotOcx 2) smallArmed ⟨0x1000#64, 0x1003#64⟩
          (Core.construct (slotOcx 2) 0 0 0 true).2) :=
  all_or_nothing_iff (slotOcx_laws 2) _ _ _

/-- With one slot the insertion fails, and leaves the watchpoint on writes armed. -/
theorem half_inserted :
    ¬ ∀ (mem : Range) (acs : VcmlAccess) (core : Core SmallEngine),
      AllOrNothing (slotOcx 1) smallArmed mem acs core := by
  intro hall
  have hfalse := (hall ⟨0x1000#64, 0x1003#64⟩ .readWrite
    (Core.construct (slotOcx 1) 0 0 0 true).2).insert _ rfl
  have hmem : DebugItem.watchpoint 0x1000#64 4#64 true
      ∈ armedIn smallArmed (Core.construct (slotOcx 1) 0 0 0 true).2 := by
    rw [← hfalse]
    exact ⟨_, rfl, List.mem_singleton.mpr rfl⟩
  obtain ⟨inst, hinst, harmed⟩ := hmem
  cases hinst
  cases harmed

end Avp64.Psp
