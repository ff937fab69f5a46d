/-
  Avp64.Psp.MemProtector.Protection — from a completed `register_page` to the
  next write, and back.

  `Holds H s tp` says that the entry `tp` is stored and that its host page is
  locked.  A completed `register_page` establishes it for an entry of the host
  address (`holds_of_registered`); every event keeps it that neither reaches the
  host page nor deregisters the entry (`holds_step`); a write to the host page
  then calls every stored client and is let through (`write_of_holds`).
-/
import Avp64.Psp.MemProtector.Runs

namespace Avp64.Psp

open Avp64.Lib MemProtector

variable {C : Type} {H : Host} {pageSize : C → U64} {K : Kernel}
  {s s' : MemProtector C} {e : Event C}

/-! ## §1. Entries on locked pages. -/

/-- The entry `tp` is stored and its host page is locked. -/
def Holds (H : Host) (s : MemProtector C) (tp : TargetPageData C) : Prop :=
  ∃ hp, s.lookup (H.pageOf tp.hostAddress) = some hp ∧ hp.locked = true
    ∧ tp ∈ hp.targetPages

/-- What a completed `register_page` says about the page sizes. -/
theorem pageSize_le_of_registered {core : C} {p h : U64}
    (hs : Step H pageSize K s (.register core p h (.ok ())) s') :
    pageSize core ≤ H.getPageSize := by
  obtain ⟨ok, _, hcase⟩ := step_register hs
  cases hcase with
  | alreadyLocked hle _ _ _ _ _ => exact hle
  | locked hle _ _ _ _ => exact hle

/-- The entry that stands for `new` after the list was brought up to date. -/
theorem Recorded.exists_mem {new : TargetPageData C} {hp hp' : HostPageData C}
    (hrec : Recorded new hp hp')
    (hagree : ∀ tp ∈ hp.targetPages, tp.hostAddress = new.hostAddress →
      tp.pageAddr = new.pageAddr) :
    ∃ tp ∈ hp'.targetPages, tp.hostAddress = new.hostAddress
      ∧ tp.pageAddr = new.pageAddr := by
  cases hrec with
  | known hex _ =>
      obtain ⟨tp, hmem, hh⟩ := hex
      exact ⟨tp, hmem, hh, hagree tp hmem hh⟩
  | added _ => exact ⟨new, by simp, rfl, rfl⟩

/-- **A completed `register_page` leaves its target page on a locked host page.** -/
theorem holds_of_registered {core : C} {p h : U64}
    (hs : Step H pageSize K s (.register core p h (.ok ())) s') :
    ∃ tp, Holds H s' tp ∧ tp.hostAddress = h ∧ tp.pageAddr = p := by
  obtain ⟨ok, _, hcase⟩ := step_register hs
  cases hcase with
  -- the early `return` stands for the entry it found
  | alreadyLocked _ hl hlock hmem hh hp =>
      exact ⟨_, ⟨_, hh ▸ hl, hlock, hmem⟩, hh, hp⟩
  | @locked hp _ hrec hagree _ _ =>
      obtain ⟨tp, hmem, hh, hp'⟩ := hrec.exists_mem hagree
      refine ⟨tp, ⟨{ hp with locked := true }, ?_, rfl, hmem⟩, hh, hp'⟩
      -- the entry is in the list that was stored with `locked = true`
      rw [lookup_setReadOnly, lookup_setHostPage, if_pos (by rw [hh])]

/-- The list of a page only loses the entries a deregistration covers. -/
theorem pageStep_keeps {k : U64} {o o' : Option (HostPageData C)} {ro ro' : Bool}
    (hst : PageStep H pageSize k e o ro o' ro') {hp : HostPageData C}
    (ho : o = some hp) {tp : TargetPageData C} (hmem : tp ∈ hp.targetPages)
    (hcov : e.covered tp = false) :
    ∃ hp', o' = some hp' ∧ tp ∈ hp'.targetPages
      ∧ (¬ e.hits H k → hp.locked = true → hp'.locked = true) := by
  subst ho
  cases hst with
  | same => exact ⟨hp, rfl, hmem, fun _ h => h⟩
  | @recorded _ _ _ _ _ _ hp' _ hrec =>
      refine ⟨hp', rfl, ?_, fun _ h => by rw [hrec.locked_eq]; exact h⟩
      cases hrec with
      | known _ _ => exact hmem
      | added _ => exact List.mem_append_left _ hmem
  | @locked _ _ _ _ _ hp' _ hrec =>
      refine ⟨{ hp' with locked := true }, rfl, ?_, fun _ _ => rfl⟩
      cases hrec with
      | known _ _ => exact hmem
      | added _ => exact List.mem_append_left _ hmem
  | unlocked hhit => exact ⟨_, rfl, hmem, fun h => absurd hhit h⟩
  | swept hsw =>
      have hkeep : tp ∈ (withoutCovered e.covered hp).targetPages :=
        List.mem_filter.mpr ⟨hmem, by rw [hcov]; rfl⟩
      cases hsw with
      | untouched => exact ⟨hp, rfl, hmem, fun _ h => h⟩
      | filtered => exact ⟨_, rfl, hkeep, fun _ h => h⟩
      | reclaimed _ _ hr =>
          -- a page that still has an entry is not reclaimed
          have hempty := (Bool.and_eq_true _ _ ▸ hr : _ ∧ _).1
          rw [List.isEmpty_iff] at hempty
          rw [hempty] at hkeep
          simp at hkeep

/-- **An event that neither reaches the host page nor covers the entry keeps it.** -/
theorem holds_step {tp : TargetPageData C} (hh : Holds H s tp)
    (hs : Step H pageSize K s e s') (hhit : ¬ e.hits H (H.pageOf tp.hostAddress))
    (hcov : e.covered tp = false) : Holds H s' tp := by
  obtain ⟨hp, hl, hlock, hmem⟩ := hh
  obtain ⟨hp', hl', hmem', hlock'⟩ := pageStep_keeps (step_page hs _) hl hmem hcov
  exact ⟨hp', hl', hlock' hhit hlock, hmem'⟩

/-! ## §2. The write that follows. -/

/-- **A write to a locked host page tells every stored client and is let through.** -/
theorem write_of_locked (hi : Inv H s) {a : U64} {hp : HostPageData C}
    (hl : s.lookup (H.pageOf a) = some hp) (hlock : hp.locked = true)
    {log : List (Action C)} (hs : Step H pageSize Kernel.reliable s (.write a log) s') :
    log = .fault a :: updateCalls hp ++ [.store a] ∧ s' = unlock s (H.pageOf a) hp := by
  have hro := hi.readOnly_of_locked hl hlock
  obtain ⟨ok, hok, hcase⟩ := step_write hs
  cases hcase with
  | direct hw => rw [hro] at hw; cases hw
  | unclaimed _ hor =>
      -- the page is stored, and the kernel agrees to open it
      rcases hor with ⟨hn, _⟩ | ⟨_, _, hfail, _⟩
      · rw [hl] at hn; cases hn
      · rw [hok (H.pageOf a)] at hfail; cases hfail
  | trapped _ hl' _ =>
      rw [hl] at hl'
      injection hl' with hl'
      subst hl'
      exact ⟨rfl, rfl⟩

theorem write_of_holds (hi : Inv H s) {tp : TargetPageData C} (hh : Holds H s tp)
    {a : U64} (ha : H.pageOf a = H.pageOf tp.hostAddress) {log : List (Action C)}
    (hs : Step H pageSize Kernel.reliable s (.write a log) s') :
    ∃ hp, s.lookup (H.pageOf a) = some hp ∧ hp.locked = true ∧ tp ∈ hp.targetPages
      ∧ log = .fault a :: updateCalls hp ++ [.store a]
      ∧ s' = unlock s (H.pageOf a) hp := by
  obtain ⟨hp, hl, hlock, hmem⟩ := hh
  rw [← ha] at hl
  exact ⟨hp, hl, hlock, hmem, write_of_locked hi hl hlock hs⟩

/-- A write to a page that is not read-only is not trapped. -/
theorem write_of_writable {a : U64} (hro : s.readOnly (H.pageOf a) = false)
    {log : List (Action C)} (hs : Step H pageSize K s (.write a log) s') :
    log = [.store a] ∧ s' = s := by
  obtain ⟨ok, _, hcase⟩ := step_write hs
  cases hcase with
  | direct _ => exact ⟨rfl, rfl⟩
  | unclaimed hw _ => rw [hro] at hw; cases hw
  | trapped hw _ _ => rw [hro] at hw; cases hw

theorem readOnly_unlock (t : MemProtector C) (k : U64) (hp : HostPageData C) :
    (unlock t k hp).readOnly k = false := by
  unfold unlock
  simp [readOnly_setReadOnly]

/-- When `mprotect` succeeds, an access to a host page leaves it writable. -/
theorem writable_of_hits (hi : Inv H s) (hs : Step H pageSize Kernel.reliable s e s')
    {k : U64} (hhit : e.hits H k) : s'.readOnly k = false := by
  cases e with
  | notify a granted res calls =>
      have hk : H.pageOf a = k := hhit
      subst hk
      obtain ⟨ok, hok, _, heq⟩ := step_notify hs
      rw [show s' = (notifyPage H ok a s).2.2 from congrArg (fun r => r.2.2) heq]
      cases hl : s.lookup (H.pageOf a) with
      | none =>
          -- a page that is not stored is not read-only
          rw [notifyPage_of_none hl]
          cases hro : s.readOnly (H.pageOf a) with
          | false => rfl
          | true =>
              obtain ⟨hp, hl', _⟩ := hi.locked_of_readOnly hro
              rw [hl] at hl'
              cases hl'
      | some hp =>
          rw [notifyPage_of_lookup hl, if_pos (hok (H.pageOf a))]
          exact readOnly_unlock s (H.pageOf a) hp
  | write a log =>
      have hk : H.pageOf a = k := hhit
      subst hk
      cases hro : s.readOnly (H.pageOf a) with
      | false => rw [(write_of_writable hro hs).2]; exact hro
      | true =>
          -- a read-only page is stored as locked, so the handler opens it
          obtain ⟨hp, hl, hlock⟩ := hi.locked_of_readOnly hro
          rw [(write_of_locked hi hl hlock hs).2]
          exact readOnly_unlock s (H.pageOf a) hp
  | _ => exact absurd hhit (fun h => h)

/-- Only a completed `register_page` makes a host page read-only. -/
theorem readOnly_step {k : U64} (hs : Step H pageSize K s e s')
    (hro : s.readOnly k = false) (hreg : ¬ e.registeredIn H k) :
    s'.readOnly k = false := by
  have hst := step_page hs k
  rw [hro] at hst
  revert hst hreg
  generalize s.lookup k = o
  generalize s'.lookup k = o'
  generalize s'.readOnly k = ro'
  intro hreg hst
  cases hst with
  | same => rfl
  | recorded => rfl
  | locked hk _ => exact absurd ⟨hk, rfl⟩ hreg
  | unlocked => rfl
  | swept hsw => cases hsw <;> rfl

/-! ## §3. Where the entries come from. -/

theorem pageStep_mem {k : U64} {o o' : Option (HostPageData C)} {ro ro' : Bool}
    (hst : PageStep H pageSize k e o ro o' ro') {hp' : HostPageData C}
    (ho : o' = some hp') {tp : TargetPageData C} (hmem : tp ∈ hp'.targetPages) :
    (∃ hp, o = some hp ∧ tp ∈ hp.targetPages)
    ∨ (tp.pageSize = pageSize tp.c
      ∧ ∃ res, e = .register tp.c tp.pageAddr tp.hostAddress res) := by
  -- a list that was brought up to date holds the old entries and the new one
  have hrecorded : ∀ {core : C} {p h : U64} {res : Except Error Unit}
      {hp₁ : HostPageData C}, e = .register core p h res →
      Recorded ⟨core, p, pageSize core, h⟩ (o.getD {}) hp₁ → tp ∈ hp₁.targetPages →
      (∃ hp, o = some hp ∧ tp ∈ hp.targetPages)
      ∨ (tp.pageSize = pageSize tp.c
        ∧ ∃ res, e = .register tp.c tp.pageAddr tp.hostAddress res) := by
    intro core p h res hp₁ he hrec hmem
    -- the default entry of `m_protected_pages[..]` has an empty list
    have hold : tp ∈ (o.getD {}).targetPages →
        ∃ hp, o = some hp ∧ tp ∈ hp.targetPages := by
      intro hin
      cases o with
      | none => simp at hin
      | some hp => exact ⟨hp, rfl, hin⟩
    cases hrec with
    | known _ _ => exact .inl (hold hmem)
    | added _ =>
        rcases List.mem_append.mp hmem with hin | hnew
        · exact .inl (hold hin)
        · rw [List.mem_singleton] at hnew
          subst hnew
          exact .inr ⟨rfl, res, he⟩
  cases hst with
  | same => exact .inl ⟨hp', ho, hmem⟩
  | recorded _ hrec =>
      injection ho with ho
      subst ho
      exact hrecorded rfl hrec hmem
  | @locked _ _ _ _ _ hp₁ _ hrec =>
      injection ho with ho
      subst ho
      exact hrecorded rfl hrec hmem
  | @unlocked _ _ hp _ =>
      injection ho with ho
      subst ho
      exact .inl ⟨hp, rfl, hmem⟩
  | swept hsw =>
      cases hsw with
      | untouched => exact .inl ⟨hp', ho, hmem⟩
      | filtered hp =>
          injection ho with ho
          subst ho
          exact .inl ⟨hp, rfl, List.mem_of_mem_filter hmem⟩
      | reclaimed => cases ho

/-- **Every entry was recorded by a `register_page` call of the run**, completed or
not, for the client it names. -/
theorem provenance {tr : List (MemProtector C × Event C)}
    (hr : (protector H pageSize K).Run tr s) :
    ∀ k hp tp, s.lookup k = some hp → tp ∈ hp.targetPages →
      tp.pageSize = pageSize tp.c
      ∧ ∃ x ∈ tr, ∃ res, x.2 = .register tp.c tp.pageAddr tp.hostAddress res := by
  induction hr with
  | start h0 =>
      intro k hp tp hl
      rw [show _ = ({} : MemProtector C) from h0] at hl
      cases hl
  | @snoc tr t t' e _ hst ih =>
      intro k hp tp hl hmem
      rcases pageStep_mem (step_page hst k) hl hmem with ⟨hp₀, hl₀, hmem₀⟩ | ⟨hsz, hev⟩
      · obtain ⟨hsz, x, hx, hreg⟩ := ih k hp₀ tp hl₀ hmem₀
        exact ⟨hsz, x, List.mem_append_left _ hx, hreg⟩
      · exact ⟨hsz, (t, e), by simp, hev⟩

/-- When `mprotect` succeeds, a `register_page` that fails for a host address on a
page boundary changes nothing. -/
theorem register_error {core : C} {p h : U64} {err : Error}
    (hs : Step H pageSize Kernel.reliable s (.register core p h (.error err)) s')
    (hal : H.pageOf h = h) : s' = s := by
  obtain ⟨ok, hok, hcase⟩ := step_register hs
  cases hcase with
  | refused _ _ => rfl
  | unprotected _ _ hfail =>
      rcases hfail with hne | hno
      · exact absurd hal hne
      · rw [hok h] at hno; cases hno

/-- An entry whose host address is a host page was recorded by a `register_page`
that completed. -/
theorem provenance_completed {tr : List (MemProtector C × Event C)}
    (hr : (protector H pageSize Kernel.reliable).Run tr s) :
    ∀ k hp tp, s.lookup k = some hp → tp ∈ hp.targetPages →
      H.pageOf tp.hostAddress = tp.hostAddress →
      ∃ x ∈ tr, x.2 = .register tp.c tp.pageAddr tp.hostAddress (.ok ()) := by
  induction hr with
  | start h0 =>
      intro k hp tp hl
      rw [show _ = ({} : MemProtector C) from h0] at hl
      cases hl
  | @snoc tr t t' e _ hst ih =>
      intro k hp tp hl hmem hal
      -- an entry that was there has its registration among the earlier steps
      have hold : ∀ hp₀, t.lookup k = some hp₀ → tp ∈ hp₀.targetPages →
          ∃ x ∈ tr ++ [(t, e)],
            x.2 = .register tp.c tp.pageAddr tp.hostAddress (.ok ()) := by
        intro hp₀ hl₀ hmem₀
        obtain ⟨x, hx, hreg⟩ := ih k hp₀ tp hl₀ hmem₀ hal
        exact ⟨x, List.mem_append_left _ hx, hreg⟩
      rcases pageStep_mem (step_page hst k) hl hmem with ⟨hp₀, hl₀, hmem₀⟩ | ⟨_, res, he⟩
      · exact hold hp₀ hl₀ hmem₀
      · subst he
        cases res with
        | ok u => exact ⟨_, List.mem_append_right _ List.mem_cons_self, rfl⟩
        | error err =>
            -- a failed call for a host page leaves no entry behind
            rw [register_error hst hal] at hl
            exact hold hp hl hmem

end Avp64.Psp
