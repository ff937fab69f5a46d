/-
  Avp64.Psp.Platform.Watches — the protector watches memory that is mapped.

  An engine protects a page through the pointer it holds to it.  The protector stores
  that pointer as a host address, and only a deregistration takes it out again.  A
  withdrawal deregisters what it covers; an entry it cuts, or one that finds no core any
  more, would go on watching memory that the target uses for something else.

    • `stored_of_invalidated` — what a withdrawal leaves is not covered by it,
    • `entries_in_force`      — every stored entry names the memory of its page.
-/
import Avp64.Psp.Platform.Lifetime
import Avp64.Psp.Platform.Pointers

namespace Avp64.Psp

open Avp64.Lib MemProtector Platform Avp64.Psp.Core

variable {σ κ : Type} {H : Host} {O : Ocx σ} {K : Kernel} {X : OcxPointers σ}
  {D : SocketDmi κ} {t t' : Platform σ} {s s' : PointerState σ κ}

/-! ## §1. Entries over withdrawals. -/

/-- The protector stores the entry. -/
def Stored (t : Platform σ) (tp : TargetPageData Nat) : Prop :=
  ∃ k hp, t.protector.lookup k = some hp ∧ tp ∈ hp.targetPages

/-- The range reaches a byte of the page. -/
def Reached (O : Ocx σ) (start end_ p : U64) : Prop :=
  ∃ i < O.pageSize.toNat, start ≤ p + BitVec.ofNat 64 i ∧ p + BitVec.ofNat 64 i ≤ end_

theorem stored_of_invalidateDmi {c : Nat} {start end_ : U64} {res : Except Error Unit}
    (hi : Inv H t.protector)
    (hst : PlatformStep H O Kernel.reliable t (.invalidateDmi c start end_ res) t')
    {tp : TargetPageData Nat} (h : Stored t' tp) :
    Stored t tp ∧ coveredBy start end_ tp = false := by
  obtain ⟨k, hp', hl, hmem⟩ := h
  have hpart := platformStep_protector hst
  revert hpart hl
  generalize t'.protector = r'
  intro hl hpart
  cases hpart with
  | deregistered hs =>
      obtain ⟨ok, hok, walk, heq⟩ := step_deregisterRange hs
      -- the page is what the sweep has left of it
      have hsweep := ((deregister_reliable hok hi (coveredBy start end_) walk).2 k).1
      rw [← heq, hl] at hsweep
      obtain ⟨hp, hl₀, hsw⟩ := Option.bind_eq_some_iff.mp hsweep.symm
      unfold sweep at hsw
      split at hsw
      · cases hsw
      · injection hsw with hsw
        subst hsw
        obtain ⟨hold, hcov⟩ := List.mem_filter.mp hmem
        exact ⟨⟨k, hp, hl₀, hold⟩, by simpa using hcov⟩
  | quiet hq => exact absurd hq (fun h => h)

/-- **What a withdrawal leaves** was stored before, and is not covered, if there was a
core to tell. -/
theorem stored_of_invalidated {start end_ : U64} {cs : List Nat} (hi : Inv H t.protector)
    (h : Invalidated H O Kernel.reliable start end_ cs t t') {tp : TargetPageData Nat}
    (hs : Stored t' tp) :
    Stored t tp ∧ (cs ≠ [] → coveredBy start end_ tp = false) := by
  induction h with
  | nil s => exact ⟨hs, fun hne => absurd rfl hne⟩
  | cons hst _ ih =>
      obtain ⟨hold, _⟩ := ih (inv_of_step hi hst) hs
      obtain ⟨hold, hcov⟩ := stored_of_invalidateDmi hi hst hold
      exact ⟨hold, fun _ => hcov⟩

theorem protector_of_invalidated {start end_ : U64} {cs : List Nat}
    (hr : (protector H (fun _ => O.pageSize) K).Reachable t.protector)
    (h : Invalidated H O K start end_ cs t t') :
    (protector H (fun _ => O.pageSize) K).Reachable t'.protector := by
  induction h with
  | nil s => exact hr
  | cons hst _ ih => exact ih (protector_step hr hst)

theorem protector_pointerStep {e : PointerEvent}
    (hr : (protector H (fun _ => O.pageSize) K).Reachable s.platform.protector)
    (hst : PointerStep H O K X D s e s') :
    (protector H (fun _ => O.pageSize) K).Reachable s'.platform.protector := by
  cases hst with
  | call hst => exact protector_step hr hst
  | engineRuns _ _ _ => exact hr
  | fetch _ _ _ _ _ _ _ => exact hr
  | withdraw _ hinv _ => exact protector_of_invalidated hr hinv

/-- The protector is in one of its own reachable states. -/
theorem protector_of_pointerRun (hr : (pointerSystem H O K X D).Reachable s) :
    (protector H (fun _ => O.pageSize) K).Reachable s.platform.protector := by
  refine hr.invariant (I := fun s =>
    (protector H (fun _ => O.pageSize) K).Reachable s.platform.protector) ?_ ?_
  · intro s h0
    have hplat : s.platform = {} := h0
    rw [hplat]
    exact .init rfl
  · intro s e s' hs hst
    exact protector_pointerStep hs hst

/-! ## §2. Runs. -/

/-- Pages are protected through the pointers that the engines hold, grants are no smaller
than a page, and a withdrawal covers the entries it reaches and finds a core. -/
def PointerEvent.pageWise (O : Ocx σ) (X : OcxPointers σ) (D : SocketDmi κ)
    (s : PointerState σ κ) : PointerEvent → Prop
  | .call (.protectPage c pagePtr p _) => HasPointer X s.platform c .read p pagePtr
  | .withdraw start end_ => ∀ tp, Stored s.platform tp → Reached O start end_ tp.pageAddr →
      coveredBy start end_ tp = true ∧ ∃ c, (s.platform.cores c).isSome = true
  | e => e.grants O D O.pageSize.toNat s

theorem PointerEvent.pageWise.grants {e : PointerEvent} (h : e.pageWise O X D s) :
    e.grants O D O.pageSize.toNat s := by
  cases e with
  | fetch c cmd p target => exact h
  | _ => trivial

/-- The entry names the host memory that the target maps to its page. -/
def InForce (O : Ocx σ) (s : PointerState σ κ) (tp : TargetPageData Nat) : Prop :=
  ∀ i < O.pageSize.toNat, s.mapping (.read, tp.pageAddr + BitVec.ofNat 64 i)
    = some (tp.hostAddress + BitVec.ofNat 64 i)

/-- An entry comes from a pointer in force, and is taken out before its memory is used for
something else. -/
theorem inForce_of_stored (laws : PointerLaws O X) (dlaws : SocketLaws D)
    {tr : List (PointerState σ κ × PointerEvent)} {s : PointerState σ κ}
    (hr : (pointerSystem H O Kernel.reliable X D).Run tr s)
    (hpages : ∀ x ∈ tr, x.2.pageWise O X D x.1) :
    ∀ tp, Stored s.platform tp → InForce O s tp := by
  induction hr with
  | start h0 =>
      intro tp hs
      obtain ⟨k, hp, hl, _⟩ := hs
      have hplat : _ = ({} : Platform σ) := h0
      rw [hplat] at hl
      cases hl
  | @snoc tr s s' e hr hst ih =>
      have hpre : ∀ x ∈ tr, x.2.pageWise O X D x.1 :=
        fun x hx => hpages x (List.mem_append_left _ hx)
      have hlast : e.pageWise O X D s := hpages (s, e) (by simp)
      intro tp hs
      cases hst with
      | call hst =>
          obtain ⟨k, hp, hl, hmem⟩ := hs
          rcases entry_step hst hl hmem with ⟨hp₀, hl₀, hmem₀⟩ | ⟨res, rfl⟩
          · exact ih hpre tp ⟨k, hp₀, hl₀, hmem₀⟩
          · -- a new entry comes from a pointer that is in force
            intro i hi
            exact pointers_sound laws dlaws (Nat.le_refl _) hr
              (fun x hx => (hpre x hx).grants) hlast hi
      | engineRuns _ _ _ => exact ih hpre tp hs
      | fetch _ _ _ _ _ _ _ => exact ih hpre tp hs
      | @withdraw start end_ cs u mapping hcs hinv hmap =>
          obtain ⟨hold, hcov⟩ := stored_of_invalidated
            (inv_of_reachable (protector_of_pointerRun ⟨tr, hr⟩)) hinv hs
          have hout : ¬ Reached O start end_ tp.pageAddr := by
            intro hreach
            obtain ⟨hcovered, c, hc⟩ := hlast tp hold hreach
            rw [hcov (List.ne_nil_of_mem (hcs c hc))] at hcovered
            cases hcovered
          -- where the entry points to, nothing has changed
          intro i hi
          exact (hmap _ _ (fun hin => hout ⟨i, hi, hin⟩)).trans (ih hpre tp hold i hi)

/-- **The protector watches the memory of its pages**, in every run in which pages are
protected through pointers in use and withdrawn as a whole. -/
theorem entries_in_force (H : Host) (O : Ocx σ) (X : OcxPointers σ) (D : SocketDmi κ)
    (laws : PointerLaws O X) (dlaws : SocketLaws D)
    {tr : List (PointerState σ κ × PointerEvent)} {s : PointerState σ κ}
    (hr : (pointerSystem H O Kernel.reliable X D).Run tr s)
    (hpages : ∀ x ∈ tr, x.2.pageWise O X D x.1) :
    ∀ tp, Stored s.platform tp → InForce O s tp :=
  inForce_of_stored laws dlaws hr hpages

/-- A core fetches a page and protects it. -/
theorem entries_in_force_second_page :
    mapsRegion twoPages (.read, 0x2000#64 + BitVec.ofNat 64 8)
      = some (0x70001000#64 + BitVec.ofNat 64 8) := by
  obtain ⟨s₀, s₁, s, hr, hq, hmap, hempty⟩ := secondPage_fetched
  have hengine : (s.platform.engine 0).isSome = true := by
    obtain ⟨st, hst, _⟩ := hq
    obtain ⟨core, hc, hm⟩ := Option.bind_eq_some_iff.mp hst
    obtain ⟨inst, hinst, _⟩ := Option.map_eq_some_iff.mp hm
    simp [Platform.engine, hc, hinst]
  have hok : (fun _ => true) ∈ Kernel.reliable := fun _ => rfl
  have hr' := hr.snoc (.call s (.protectPage s.platform 0x70001000#64 0x2000#64 hok hengine))
  have hstored : Stored (s.platform.protectPage Host.kib4 pointerOcx (fun _ => true) 0
      0x70001000#64 0x2000#64).2 ⟨0, 0x2000#64, 4096#64, 0x70001000#64⟩ := by
    refine ⟨0x70001000#64, ⟨[⟨0, 0x2000#64, 4096#64, 0x70001000#64⟩], true⟩, ?_,
      List.mem_singleton_self _⟩
    unfold Platform.protectPage
    rw [hempty]
    rfl
  have h := entries_in_force Host.kib4 pointerOcx tablePointers listDmi tablePointers_laws
    listDmi_laws hr' ?_ _ hstored 8 (by decide)
  · rw [← hmap]
    exact h
  · intro x hx
    simp only [List.cons_append, List.nil_append, List.mem_cons, List.not_mem_nil,
      or_false] at hx
    rcases hx with rfl | rfl | rfl
    · trivial
    · exact secondPage_grants rfl .read
    · exact hq

end Avp64.Psp
