/-
  Avp64.Psp.MemProtector.Reclaim — what is left after every page was deregistered.

  A deregistration that takes the last entry of a host page removes the host page
  from the map, but only if the page is locked.  A write unlocks it before; the
  emptied host page then stays in the map.

    • `since_of_stored`          — a stored entry was registered and not deregistered
                                   since,
    • `noResidue_step`           — the steps that leave no empty host page,
    • `reclaims_everything_iff`  — the runs that leave nothing behind.
-/
import Avp64.Psp.MemProtector.Protection

namespace Avp64.Psp

open Avp64.Lib MemProtector

variable {C : Type} {H : Host} {pageSize : C → U64} {K : Kernel}
  {s s' : MemProtector C} {e : Event C}

/-! ## §1. Registered, and not deregistered since. -/

namespace Event

/-- A `register_page` that completed, a write, or a deregistration. -/
def completed : Event C → Prop
  | .register _ _ _ res => res = .ok ()
  | .notify _ _ _ _ => False
  | _ => True

/-- A deregistration that names the target page of `size` bytes at `p`, or whose range
contains all of it. -/
def takesPage (p size : U64) : Event C → Prop
  | .deregister _ p' _ => p' = p
  | .deregisterRange _ start end_ _ =>
      start.toNat ≤ p.toNat ∧ p.toNat + size.toNat ≤ end_.toNat + 1
  | _ => False

/-- A page taken as a whole passes the test of the source. -/
theorem takesPage.covered {tp : TargetPageData C} (hsize : tp.pageSize ≠ 0)
    (h : e.takesPage tp.pageAddr tp.pageSize) : e.covered tp = true := by
  cases e with
  | deregister cpu p res =>
      show (tp.pageAddr == p) = true
      rw [show p = tp.pageAddr from h, beq_self_eq_true]
  | deregisterRange cpu start end_ res =>
      obtain ⟨hlo, hhi⟩ := h
      -- the page is not empty, so its last byte is computed without a wrap
      have hpos : 0 < tp.pageSize.toNat := Nat.pos_of_ne_zero (fun h0 =>
        hsize (BitVec.eq_of_toNat_eq h0))
      have hend : (tp.pageAddr + tp.pageSize - 1#64).toNat
          = tp.pageAddr.toNat + tp.pageSize.toNat - 1 := by
        have := end_.isLt
        rw [BitVec.toNat_sub, BitVec.toNat_add]
        simp only [BitVec.toNat_ofNat]
        omega
      show (decide (start ≤ tp.pageAddr)
        && decide (tp.pageAddr + tp.pageSize - 1#64 ≤ end_)) = true
      rw [Bool.and_eq_true, decide_eq_true_eq, decide_eq_true_eq, BitVec.le_def,
        BitVec.le_def, hend]
      omega
  | _ => exact absurd h (fun h => h)

end Event

theorem pageSize_ne_zero_of_registered {core : C} {p h : U64}
    (hs : Step H pageSize K s (.register core p h (.ok ())) s') : pageSize core ≠ 0 := by
  intro hz
  generalize hres : (Except.ok () : Except Error Unit) = res at hs
  cases hs with
  | @register _ _ _ ok _ =>
      obtain ⟨e, heq⟩ := registerPage_of_pageSize (H := H) (.inr hz) ok p h s
      rw [heq] at hres
      cases hres

/-- What a step leaves in the list of a page, when `mprotect` succeeds: the entries it
does not cover. -/
theorem not_covered_of_stored (hi : Inv H s)
    (hs : Step H pageSize Kernel.reliable s e s') {k : U64} {hp' : HostPageData C}
    (hl' : s'.lookup k = some hp') {tp : TargetPageData C} (hmem : tp ∈ hp'.targetPages) :
    e.covered tp = false := by
  have hswept : ∀ covered : TargetPageData C → Bool,
      some hp' = (s.lookup k).bind (sweep covered) → covered tp = false := by
    intro covered heq
    obtain ⟨hp, _, hsw⟩ := Option.bind_eq_some_iff.mp heq.symm
    unfold sweep at hsw
    split at hsw
    · cases hsw
    · injection hsw with hsw
      rw [← hsw] at hmem
      simpa using (List.mem_filter.mp hmem).2
  cases e with
  | deregister cpu p res =>
      obtain ⟨ok, hok, walk, heq⟩ := step_deregister hs
      have hex := ((deregister_reliable hok hi (namesPage p) walk).2 k).1
      rw [← heq] at hex
      exact hswept _ (hl'.symm.trans hex)
  | deregisterRange cpu start end_ res =>
      obtain ⟨ok, hok, walk, heq⟩ := step_deregisterRange hs
      have hex := ((deregister_reliable hok hi (coveredBy start end_) walk).2 k).1
      rw [← heq] at hex
      exact hswept _ (hl'.symm.trans hex)
  | register core p h res => rfl
  | notify a granted res calls => rfl
  | write a log => rfl

/-- **A stored entry was registered by a completed call, and no deregistration has
covered it since.** -/
theorem since_of_stored {tr : List (MemProtector C × Event C)}
    (hr : ((protector H pageSize Kernel.reliable).restrict Event.completed).Run tr s) :
    ∀ k hp tp, s.lookup k = some hp → tp ∈ hp.targetPages →
      tp.pageSize = pageSize tp.c ∧ tp.pageSize ≠ 0
      ∧ Since (fun x => x.2 = .register tp.c tp.pageAddr tp.hostAddress (.ok ()))
          (fun x => x.2.covered tp = true) tr := by
  induction hr with
  | start h0 =>
      intro k hp tp hl
      rw [show _ = ({} : MemProtector C) from h0] at hl
      cases hl
  | @snoc tr t t' e hpre hst ih =>
      intro k hp tp hl hmem
      have hi : Inv H t := inv_of_reachable ⟨tr, hpre.of_restrict⟩
      obtain ⟨hst, he⟩ := hst
      rcases pageStep_mem (step_page hst k) hl hmem with ⟨hp₀, hl₀, hmem₀⟩ | ⟨hsz, res, heq⟩
      · obtain ⟨hsz, hne, hold⟩ := ih k hp₀ tp hl₀ hmem₀
        refine ⟨hsz, hne, since_snoc.mpr (.inr ⟨hold, ?_⟩)⟩
        show ¬ e.covered tp = true
        rw [not_covered_of_stored hi hst hl hmem]
        simp
      · subst heq
        have hres : res = .ok () := he
        subst hres
        refine ⟨hsz, ?_, since_snoc.mpr (.inl rfl)⟩
        rw [hsz]
        exact pageSize_ne_zero_of_registered hst

/-! ## §2. Host pages without entries. -/

/-- No host page is stored with an empty list. -/
def NoResidue (s : MemProtector C) : Prop :=
  ∀ k hp, s.lookup k = some hp → hp.targetPages ≠ []

/-- A host page that loses all its entries is locked. -/
def EmptiesLocked (covered : TargetPageData C → Bool) (s : MemProtector C) : Prop :=
  ∀ k hp, s.lookup k = some hp → (∀ tp ∈ hp.targetPages, covered tp = true) →
    hp.locked = true

/-- A deregistration, if it is one, takes the last entry of locked host pages only. -/
def Event.emptiesLocked (s : MemProtector C) : Event C → Prop
  | .deregister _ p _ => EmptiesLocked (namesPage p) s
  | .deregisterRange _ start end_ _ => EmptiesLocked (coveredBy start end_) s
  | _ => True

/-- What a deregistration leaves, page by page. -/
theorem noResidue_iff_of_sweep {covered : TargetPageData C → Bool}
    (hsweep : ∀ k, s'.lookup k = (s.lookup k).bind (sweep covered)) :
    NoResidue s' ↔ EmptiesLocked covered s := by
  have hempty : ∀ hp : HostPageData C, (withoutCovered covered hp).targetPages = [] ↔
      ∀ tp ∈ hp.targetPages, covered tp = true := by
    intro hp
    simp [withoutCovered, List.filter_eq_nil_iff]
  constructor
  · intro hno k hp hl hall
    by_contra hopen
    -- an emptied page that is not locked stays in the map
    have hl' : s'.lookup k = some (withoutCovered covered hp) := by
      rw [hsweep k, hl, Option.bind_some, sweep, if_neg (by unfold reclaims; simp [hopen])]
    exact hno k _ hl' ((hempty hp).mpr hall)
  · intro hlocked k hp' hl' hnil
    rw [hsweep k] at hl'
    obtain ⟨hp, hl, hsw⟩ := Option.bind_eq_some_iff.mp hl'
    unfold sweep at hsw
    split at hsw
    · cases hsw
    · next hnr =>
        injection hsw with hsw
        subst hsw
        apply hnr
        unfold reclaims
        rw [hnil, hlocked k hp hl ((hempty hp).mp hnil)]
        rfl

/-- **Which steps leave no empty host page behind.** -/
theorem noResidue_step (hi : Inv H s) (hno : NoResidue s)
    (hs : Step H pageSize Kernel.reliable s e s') (he : e.completed) :
    NoResidue s' ↔ e.emptiesLocked s := by
  cases e with
  | deregister cpu p res =>
      obtain ⟨ok, hok, walk, heq⟩ := step_deregister hs
      have hex := (deregister_reliable hok hi (namesPage p) walk).2
      rw [← heq] at hex
      exact noResidue_iff_of_sweep (fun k => (hex k).1)
  | deregisterRange cpu start end_ res =>
      obtain ⟨ok, hok, walk, heq⟩ := step_deregisterRange hs
      have hex := (deregister_reliable hok hi (coveredBy start end_) walk).2
      rw [← heq] at hex
      exact noResidue_iff_of_sweep (fun k => (hex k).1)
  | register core p h res =>
      refine iff_of_true ?_ trivial
      have hres : res = .ok () := he
      subst hres
      obtain ⟨ok, _, hcase⟩ := step_register hs
      cases hcase with
      | alreadyLocked _ _ _ _ _ _ => exact hno
      | @locked hp _ hrec hagree _ _ =>
          obtain ⟨tp, hmem, _⟩ := hrec.exists_mem hagree
          intro k hp' hl'
          rw [lookup_setReadOnly, lookup_setHostPage] at hl'
          split at hl'
          · injection hl' with hl'
            subst hl'
            exact List.ne_nil_of_mem hmem
          · exact hno k hp' hl'
  | write a log =>
      refine iff_of_true ?_ trivial
      obtain ⟨ok, _, hcase⟩ := step_write hs
      cases hcase with
      | direct _ => exact hno
      | unclaimed _ _ => exact hno
      | @trapped hp _ hl _ =>
          -- the handler opens the page and keeps its list
          intro k hp' hl'
          unfold unlock at hl'
          rw [lookup_setReadOnly, lookup_setHostPage] at hl'
          split at hl'
          · injection hl' with hl'
            subst hl'
            exact hno _ hp hl
          · exact hno k hp' hl'
  | notify a granted res calls => exact absurd he (fun h => h)

/-! ## §3. Runs. -/

/-- Every completed `register_page` of the run is followed by a deregistration that
names its target page or covers all of it. -/
def AllDeregistered (pageSize : C → U64) (tr : List (MemProtector C × Event C)) : Prop :=
  ∀ pre t c p h suf, tr = pre ++ (t, .register c p h (.ok ())) :: suf →
    ∃ y ∈ suf, y.2.takesPage p (pageSize c)

/-- Without residue, a protector whose pages were all deregistered is empty. -/
theorem empty_of_allDeregistered {tr : List (MemProtector C × Event C)}
    (hr : ((protector H pageSize Kernel.reliable).restrict Event.completed).Run tr s)
    (hno : NoResidue s) (hall : AllDeregistered pageSize tr) :
    s.protectedPages = ∅ ∧ ∀ k, s.readOnly k = false := by
  have hnone : ∀ k, s.lookup k = none := by
    intro k
    cases hl : s.lookup k with
    | none => rfl
    | some hp =>
        obtain ⟨tp, tps, htps⟩ := List.exists_cons_of_ne_nil (hno k hp hl)
        obtain ⟨hsz, hne, pre, ⟨t, e⟩, suf, heq, hreg, hkept⟩ :=
          since_of_stored hr k hp tp hl (by rw [htps]; exact List.mem_cons_self)
        have hreg : e = .register tp.c tp.pageAddr tp.hostAddress (.ok ()) := hreg
        rw [hreg] at heq
        -- the deregistration that follows would have removed the entry
        obtain ⟨y, hy, htakes⟩ := hall pre t tp.c tp.pageAddr tp.hostAddress suf heq
        rw [← hsz] at htakes
        exact absurd (htakes.covered hne) (hkept y hy)
  refine ⟨Finmap.ext_lookup hnone, ?_⟩
  intro k
  cases hro : s.readOnly k with
  | false => rfl
  | true =>
      obtain ⟨hp, hl, _⟩ :=
        (inv_of_reachable ⟨tr, hr.of_restrict⟩ : Inv H s).locked_of_readOnly hro
      rw [hnone k] at hl
      cases hl

/-- **When deregistration reclaims everything**: no state of a run holds a host page
without entries, and a run that deregisters all it registers ends with an empty map
and writable memory, exactly when no deregistration takes the last entry of a host
page that is not locked. -/
theorem reclaims_everything_iff (H : Host) (pageSize : C → U64)
    {tr : List (MemProtector C × Event C)} {s : MemProtector C}
    (hr : ((protector H pageSize Kernel.reliable).restrict Event.completed).Run tr s) :
    (Always (fun _ t => NoResidue t) tr s
      ∧ (AllDeregistered pageSize tr →
          s.protectedPages = ∅ ∧ ∀ k, s.readOnly k = false))
    ↔ ∀ x ∈ tr, x.2.emptiesLocked x.1 := by
  have halways : Always (fun _ t => NoResidue t) tr s ↔ ∀ x ∈ tr, x.2.emptiesLocked x.1 := by
    refine hr.always_iff (C := fun t e => e.emptiesLocked t) ?_ ?_
    · intro t h0 k hp hl
      rw [show t = {} from h0] at hl
      cases hl
    · intro tr t e t' hpre hno hst
      exact noResidue_step (inv_of_reachable ⟨tr, hpre.of_restrict⟩) hno hst.1 hst.2
  rw [← halways]
  constructor
  · intro h
    exact h.1
  · intro h
    exact ⟨h, empty_of_allDeregistered hr h.1⟩

/-- A page is registered and deregistered. -/
theorem reclaims_everything_one :
    ∃ (tr : List (MemProtector Unit × Event Unit)) (s : MemProtector Unit), tr.length = 2
      ∧ ((Always (fun _ t => NoResidue t) tr s
        ∧ (AllDeregistered (fun _ => 4096#64) tr →
            s.protectedPages = ∅ ∧ ∀ k, s.readOnly k = false))
      ↔ ∀ x ∈ tr, x.2.emptiesLocked x.1) := by
  have hok : (fun _ => true) ∈ Kernel.reliable := fun _ => rfl
  obtain ⟨walk⟩ := Walk.nonempty (registerPage Host.kib4 (fun _ : Unit => 4096#64)
    (fun _ => true) () 0#64 0x1000#64 {}).2.protectedPages
  exact ⟨_, _, rfl, reclaims_everything_iff Host.kib4 (fun _ : Unit => 4096#64)
    (.snoc (.snoc (.start rfl) ⟨.register {} () 0#64 0x1000#64 hok, rfl⟩)
      ⟨.deregister _ () 0#64 walk hok, trivial⟩)⟩

/-- A page is registered, written and deregistered: its host page stays in the map. -/
theorem written_page_not_reclaimed :
    ¬ ∀ (tr : List (MemProtector Unit × Event Unit)) (s : MemProtector Unit),
      ((protector Host.kib4 (fun _ => 4096#64) Kernel.reliable).restrict
        Event.completed).Run tr s →
      AllDeregistered (fun _ => 4096#64) tr → s.protectedPages = ∅ := by
  intro hall
  have hok : (fun _ => true) ∈ Kernel.reliable := fun _ => rfl
  have hpre : ((protector Host.kib4 (fun _ : Unit => 4096#64) Kernel.reliable).restrict
      Event.completed).Run _ _ :=
    .snoc (.snoc (.start rfl) ⟨.register _ () 0#64 0x1000#64 hok, rfl⟩)
      ⟨.write _ 0x1008#64 hok, trivial⟩
  obtain ⟨walk⟩ := Walk.nonempty _
  have hr := hpre.snoc ⟨.deregister _ () 0#64 walk hok, trivial⟩
  have hempty := hall _ _ hr ?_
  · -- the deregistration found the page open
    have hl := ((deregister_reliable hok (inv_of_reachable ⟨_, hpre.of_restrict⟩)
      (namesPage 0#64) walk).2 0x1000#64).1
    unfold MemProtector.lookup at hl
    rw [show (deregisterLoop Host.kib4 (fun _ => true) (namesPage 0#64) walk.order
      _).2.protectedPages = ∅ from hempty] at hl
    cases hl
  · intro pre t c p h suf heq
    rcases pre with _ | ⟨x₁, _ | ⟨x₂, _ | ⟨x₃, pre⟩⟩⟩
    · simp only [List.nil_append, List.cons_append, List.cons.injEq, Prod.mk.injEq,
        Event.register.injEq] at heq
      obtain ⟨⟨_, _, rfl, _⟩, rfl⟩ := heq
      exact ⟨_, List.mem_cons_of_mem _ List.mem_cons_self, rfl⟩
    · simp at heq
    · simp at heq
    · simp at heq

end Avp64.Psp
