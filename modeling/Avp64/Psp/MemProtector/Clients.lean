/-
  Avp64.Psp.MemProtector.Clients — several clients of one protector.

  The protector is a singleton: the cores of all clusters share its map, and two
  of its rules look at addresses only.  `register_page` recognises a known page by
  its host address, whoever recorded it; the deregistrations match the target
  address of every entry, whoever calls them.  This file says exactly when these
  rules do no harm to another client.

    • `deregister_spares_others_iff` — a deregistration leaves the other clients
                                       alone,
    • `every_client_called_iff`      — a trapped write reaches every client that
                                       registered.
-/
import Avp64.Psp.MemProtector.Protection

namespace Avp64.Psp

open Avp64.Lib MemProtector

variable {C : Type} {H : Host} {pageSize : C → U64} {K : Kernel}
  {s s' : MemProtector C} {e : Event C}

/-! ## §1. Deregistration and the other clients. -/

/-- Between `s` and `s'` no client but `cpu` lost anything: the entries of the
others are in place, and the locked pages that hold one are locked and read-only. -/
structure SparesOthers (cpu : C) (s s' : MemProtector C) : Prop where
  entry : ∀ k hp, s.lookup k = some hp → ∀ tp ∈ hp.targetPages, tp.c ≠ cpu →
    ∃ hp', s'.lookup k = some hp' ∧ tp ∈ hp'.targetPages
  page : ∀ k hp, s.lookup k = some hp → hp.locked = true →
    (∃ tp ∈ hp.targetPages, tp.c ≠ cpu) →
    (∃ hp', s'.lookup k = some hp' ∧ hp'.locked = true) ∧ s'.readOnly k = true

/-- Every stored entry that a deregistration covers was recorded for `cpu`. -/
def CoversOwn (covered : TargetPageData C → Bool) (cpu : C) (s : MemProtector C) :
    Prop :=
  ∀ k hp, s.lookup k = some hp → ∀ tp ∈ hp.targetPages, covered tp = true → tp.c = cpu

/-- An entry that is not covered survives the sweep of its page, lock included. -/
theorem swept_keeps {covered : TargetPageData C → Bool} {hp : HostPageData C}
    {o : Option (HostPageData C)} {ro ro' : Bool}
    (hsw : Swept covered (some hp) ro o ro') {tp : TargetPageData C}
    (hmem : tp ∈ hp.targetPages) (hcov : covered tp = false) :
    ∃ hp', o = some hp' ∧ tp ∈ hp'.targetPages ∧ hp'.locked = hp.locked ∧ ro' = ro := by
  have hkeep : tp ∈ (withoutCovered covered hp).targetPages :=
    List.mem_filter.mpr ⟨hmem, by rw [hcov]; rfl⟩
  cases hsw with
  | untouched => exact ⟨hp, rfl, hmem, rfl, rfl⟩
  | filtered => exact ⟨_, rfl, hkeep, rfl, rfl⟩
  | reclaimed _ _ hr =>
      have hempty := (Bool.and_eq_true _ _ ▸ hr : _ ∧ _).1
      rw [List.isEmpty_iff] at hempty
      rw [hempty] at hkeep
      simp at hkeep

/-- **When a deregistration leaves the other clients alone**: exactly when it covers
no entry of theirs. -/
theorem deregisterLoop_spares_iff (hK : (fun _ => true) ∈ K) (hi : Inv H s)
    (covered : TargetPageData C → Bool) (cpu : C) :
    (∀ ok ∈ K, ∀ walk : Walk s.protectedPages,
        SparesOthers cpu s (deregisterLoop H ok covered walk.order s).2)
      ↔ CoversOwn covered cpu s := by
  constructor
  · intro hspares k hp hl tp hmem hcov
    by_contra hne
    -- with a kernel that agrees the covered entry is gone afterwards
    obtain ⟨walk⟩ := Walk.nonempty s.protectedPages
    obtain ⟨hp', hl', hmem'⟩ := (hspares _ hK walk).entry k hp hl tp hmem hne
    have hexact := ((deregister_reliable (fun _ => rfl) hi covered walk).2 k).1
    rw [hl, hl', Option.bind_some] at hexact
    unfold sweep at hexact
    split at hexact
    · cases hexact
    · injection hexact with hexact
      rw [hexact] at hmem'
      have hkept := (List.mem_filter.mp hmem').2
      rw [hcov] at hkept
      cases hkept
  · intro hown ok _ walk
    -- page by page: an entry that is not covered keeps its page as it is
    have hswept := fun k => deregisterLoop_swept H ok covered k walk.order s walk.nodup
    have hspared : ∀ k hp, s.lookup k = some hp → ∀ tp ∈ hp.targetPages, tp.c ≠ cpu →
        covered tp = false := by
      intro k hp hl tp hmem hne
      cases hcov : covered tp with
      | false => rfl
      | true => exact absurd (hown k hp hl tp hmem hcov) hne
    constructor
    · intro k hp hl tp hmem hne
      have hsw := hswept k
      rw [hl] at hsw
      obtain ⟨hp', hl', hmem', _⟩ := swept_keeps hsw hmem (hspared k hp hl tp hmem hne)
      exact ⟨hp', hl', hmem'⟩
    · intro k hp hl hlock hother
      obtain ⟨tp, hmem, hne⟩ := hother
      have hsw := hswept k
      rw [hl] at hsw
      obtain ⟨hp', hl', _, hlock', hro'⟩ :=
        swept_keeps hsw hmem (hspared k hp hl tp hmem hne)
      refine ⟨⟨hp', hl', hlock'.trans hlock⟩, ?_⟩
      rw [hro']
      exact hi.readOnly_of_locked hl hlock

/-- **When `deregister_page` and `deregister_pages` touch only the caller's
registrations**, in any reachable state: exactly when no entry of another client
has the page address, respectively lies in the range. -/
theorem deregister_spares_others_iff (H : Host) (pageSize : C → U64)
    (hK : (fun _ => true) ∈ K) (hr : (protector H pageSize K).Reachable s) (cpu : C) :
    (∀ p,
      (∀ ok ∈ K, ∀ walk : Walk s.protectedPages,
        SparesOthers cpu s (deregisterPage H ok walk.order cpu p s).2)
      ↔ ∀ k hp, s.lookup k = some hp → ∀ tp ∈ hp.targetPages, tp.pageAddr = p →
          tp.c = cpu)
    ∧ (∀ start end_,
      (∀ ok ∈ K, ∀ walk : Walk s.protectedPages,
        SparesOthers cpu s (deregisterPages H ok walk.order cpu start end_ s).2)
      ↔ ∀ k hp, s.lookup k = some hp → ∀ tp ∈ hp.targetPages,
          coveredBy start end_ tp = true → tp.c = cpu) := by
  have hi : Inv H s := inv_of_reachable hr
  constructor
  · intro p
    have h := deregisterLoop_spares_iff hK hi (namesPage p) cpu
    unfold CoversOwn at h
    simp only [namesPage, beq_iff_eq] at h
    exact h
  · intro start end_
    exact deregisterLoop_spares_iff hK hi (coveredBy start end_) cpu

/-- The page of client `true`, deregistered by itself. -/
theorem deregister_spares_others_own :
    (∀ ok ∈ Kernel.any, ∀ walk : Walk (registerPage Host.kib4 (fun _ : Bool => 4096#64)
        (fun _ => true) true 0#64 0x1000#64 {}).2.protectedPages,
      SparesOthers true (registerPage Host.kib4 (fun _ : Bool => 4096#64)
          (fun _ => true) true 0#64 0x1000#64 {}).2
        (deregisterPage Host.kib4 ok walk.order true 0#64
          (registerPage Host.kib4 (fun _ : Bool => 4096#64)
            (fun _ => true) true 0#64 0x1000#64 {}).2).2)
    ↔ ∀ k hp, (registerPage Host.kib4 (fun _ : Bool => 4096#64)
          (fun _ => true) true 0#64 0x1000#64 {}).2.lookup k = some hp →
        ∀ tp ∈ hp.targetPages, tp.pageAddr = 0#64 → tp.c = true :=
  (deregister_spares_others_iff Host.kib4 (fun _ : Bool => 4096#64) (Set.mem_univ _)
    ⟨_, .snoc (.start rfl) (.register _ true 0#64 0x1000#64 (Set.mem_univ _))⟩
    true).1 0#64

/-- Client `true` registers its target page 0; client `false` deregisters its own
target page 0, and the entry of `true` is gone. -/
theorem deregister_takes_other :
    ¬ ∀ s : MemProtector Bool,
      (protector Host.kib4 (fun _ => 4096#64) Kernel.any).Reachable s →
      ∀ cpu p, ∀ ok ∈ Kernel.any, ∀ walk : Walk s.protectedPages,
        SparesOthers cpu s (deregisterPage Host.kib4 ok walk.order cpu p s).2 := by
  intro hall
  have hr : (protector Host.kib4 (fun _ : Bool => 4096#64) Kernel.any).Reachable _ :=
    ⟨_, .snoc (.start rfl) (.register {} true 0#64 0x1000#64
      (Set.mem_univ (fun _ => true)))⟩
  obtain ⟨walk⟩ := Walk.nonempty _
  obtain ⟨hp, hl, _⟩ := (hall _ hr false 0#64 (fun _ => true) (Set.mem_univ _)
    walk).entry 0x1000#64 ⟨[⟨true, 0#64, 4096#64, 0x1000#64⟩], true⟩ rfl
      ⟨true, 0#64, 4096#64, 0x1000#64⟩ (by simp) (by decide)
  -- the loop has reclaimed the page that held the only entry
  have hgone := ((deregister_reliable (fun _ => rfl) (inv_of_reachable hr)
    (namesPage 0#64) walk).2 0x1000#64).1
  have hnone : some hp = none := hl.symm.trans hgone
  cases hnone

/-! ## §2. Registrations of a known page. -/

namespace Event

/-- A `register_page` that completed, or a write. -/
def registerOrWrite : Event C → Prop
  | .register _ _ _ res => res = .ok ()
  | .write _ _ => True
  | _ => False

/-- A write to the host page `k` was trapped. -/
def trappedOn (H : Host) (k : U64) : Event C → Prop
  | .write a log => H.pageOf a = k ∧ .fault a ∈ log
  | _ => False

/-- A `register_page` of the client `c` for an address that has an entry finds one
of its own for the same target page. -/
def findsOwn (H : Host) (s : MemProtector C) : Event C → Prop
  | .register c p h _ => ∀ hp, s.lookup (H.pageOf h) = some hp →
      (∃ tp ∈ hp.targetPages, tp.hostAddress = h) →
      ∃ tp ∈ hp.targetPages, tp.c = c ∧ tp.pageAddr = p
  | _ => True

end Event

/-- A trapped write to the host page of `h` reaches every client that registered
`(h, p)` since the last one. -/
def EveryClientCalled (H : Host) (pageSize : C → U64)
    (tr : List (MemProtector C × Event C)) (s : MemProtector C) : Prop :=
  ∀ c p h, Since (fun x => x.2 = .register c p h (.ok ()))
      (fun x => x.2.trappedOn H (H.pageOf h)) tr →
    ∀ a, H.pageOf a = H.pageOf h → ∀ log s',
      Step H pageSize Kernel.reliable s (.write a log) s' → .fault a ∈ log →
      .updatePage c p ∈ log

/-- The host page `k` is locked and has an entry of `c` for `p`. -/
def CalledOn (s : MemProtector C) (c : C) (p k : U64) : Prop :=
  ∃ hp, s.lookup k = some hp ∧ hp.locked = true
    ∧ ∃ tp ∈ hp.targetPages, tp.c = c ∧ tp.pageAddr = p

/-- Registrations and writes remove no entry and, short of a trap, open no page. -/
theorem registerOrWrite_keeps {k : U64} {hp : HostPageData C}
    (hs : Step H pageSize K s e s') (he : e.registerOrWrite)
    (hl : s.lookup k = some hp) {tp : TargetPageData C} (hmem : tp ∈ hp.targetPages) :
    ∃ hp', s'.lookup k = some hp' ∧ tp ∈ hp'.targetPages
      ∧ (¬ e.hits H k → hp.locked = true → hp'.locked = true) := by
  have hcov : e.covered tp = false := by
    cases e with
    | register c p h res => rfl
    | write a log => rfl
    | _ => exact absurd he (fun h => h)
  exact pageStep_keeps (step_page hs k) hl hmem hcov

/-- A registration with no trapped write since stands on a locked page. -/
theorem holds_of_since {tr : List (MemProtector C × Event C)}
    (hr : ((protector H pageSize Kernel.reliable).restrict Event.registerOrWrite).Run tr s)
    {c : C} {p h : U64} (hsince : Since (fun x => x.2 = .register c p h (.ok ()))
      (fun x => x.2.trappedOn H (H.pageOf h)) tr) :
    ∃ tp, Holds H s tp ∧ tp.hostAddress = h := by
  refine hr.of_since (G := fun t => ∃ tp, Holds H t tp ∧ tp.hostAddress = h) ?_ ?_ hsince
  · intro t e t' _ hst he
    have hst := hst.1
    rw [show e = .register c p h (.ok ()) from he] at hst
    obtain ⟨tp, hh, hhost, _⟩ := holds_of_registered hst
    exact ⟨tp, hh, hhost⟩
  · intro t e t' ht hst hG hQ
    obtain ⟨tp, hh, hhost⟩ := hG
    obtain ⟨hst, he⟩ := hst
    refine ⟨tp, holds_step hh hst ?_ ?_, hhost⟩
    · -- a write to the locked page would have been trapped
      intro hhit
      cases e with
      | write a log =>
          obtain ⟨hp, _, _, _, hlog, _⟩ :=
            write_of_holds (inv_of_reachable ht.of_restrict) hh hhit hst
          refine hQ ⟨?_, by rw [hlog]; simp⟩
          rw [← hhost]
          exact hhit
      | notify a granted res calls => exact he
      | _ => exact hhit
    · cases e with
      | register c' p' h' res => rfl
      | write a log => rfl
      | _ => exact absurd he (fun h => h)

/-- On a locked page the calls of the next write are those of the stored entries. -/
theorem called_iff (hi : Inv H s) {tp : TargetPageData C} (hh : Holds H s tp) {c : C}
    {p h : U64} (hhost : tp.hostAddress = h) :
    (∀ a, H.pageOf a = H.pageOf h → ∀ log s',
      Step H pageSize Kernel.reliable s (.write a log) s' → .fault a ∈ log →
      .updatePage c p ∈ log) ↔ CalledOn s c p (H.pageOf h) := by
  subst hhost
  constructor
  · intro hcalled
    -- one write shows which clients are called: all that are stored
    have hst : Step H pageSize Kernel.reliable s _ _ :=
      .write s tp.hostAddress (show (fun _ => true) ∈ Kernel.reliable from fun _ => rfl)
    obtain ⟨hp, hl, hlock, _, hlog, _⟩ := write_of_holds hi hh rfl hst
    have hin := hcalled _ rfl _ _ hst (by rw [hlog]; simp)
    rw [hlog] at hin
    simp only [List.cons_append, List.mem_cons, reduceCtorEq, List.mem_append,
      List.not_mem_nil, or_false, false_or] at hin
    exact ⟨hp, hl, hlock, mem_updateCalls.mp hin⟩
  · intro hcalled a ha log s' hst _
    obtain ⟨hp, hl, _, hentry⟩ := hcalled
    obtain ⟨hp', hl', _, _, hlog, _⟩ := write_of_holds hi hh ha hst
    rw [ha, hl] at hl'
    injection hl' with hl'
    subst hl'
    rw [hlog]
    simp [mem_updateCalls.mpr hentry]

/-- After a completed `register_page(c, p, h)` a write reaches `c` exactly when the
call did not stop at an entry of another client. -/
theorem calledOn_of_register {c : C} {p h : U64}
    (hs : Step H pageSize K s (.register c p h (.ok ())) s') :
    CalledOn s' c p (H.pageOf h)
      ↔ (Event.register c p h (.ok ()) : Event C).findsOwn H s := by
  obtain ⟨ok, _, hcase⟩ := step_register hs
  cases hcase with
  | @alreadyLocked hp tp _ hl hlock hmem hh hp' =>
      constructor
      · intro hcalled hp₁ hl₁ _
        obtain ⟨hp₂, hl₂, _, hentry⟩ := hcalled
        rw [hl₁] at hl₂
        injection hl₂ with hl₂
        exact hl₂ ▸ hentry
      · intro hown
        exact ⟨hp, hl, hlock, hown hp hl ⟨tp, hmem, hh⟩⟩
  | @locked hp _ hrec _ _ _ =>
      -- the page is stored now; whose entries it has depends on the scan
      have hl' : ((s.setHostPage (H.pageOf h) { hp with locked := true }).setReadOnly
          (H.pageOf h) true).lookup (H.pageOf h) = some { hp with locked := true } := by
        rw [lookup_setReadOnly, lookup_setHostPage, if_pos rfl]
      have hnew : CalledOn ((s.setHostPage (H.pageOf h)
          { hp with locked := true }).setReadOnly (H.pageOf h) true) c p (H.pageOf h)
          ↔ ∃ tp ∈ hp.targetPages, tp.c = c ∧ tp.pageAddr = p := by
        constructor
        · intro hcalled
          obtain ⟨hp₂, hl₂, _, hentry⟩ := hcalled
          rw [hl'] at hl₂
          injection hl₂ with hl₂
          subst hl₂
          exact hentry
        · intro hentry
          exact ⟨_, hl', rfl, hentry⟩
      rw [hnew]
      cases hrec with
      | known hex _ =>
          -- the entry of `h` was recorded before; the list is as it was
          obtain ⟨tp, hmem, hh⟩ := hex
          have hl := lookup_of_mem hmem
          constructor
          · intro hentry hp₁ hl₁ _
            rw [hl] at hl₁
            injection hl₁ with hl₁
            exact hl₁ ▸ hentry
          · intro hown
            exact hown _ hl ⟨tp, hmem, hh⟩
      | added hfresh =>
          constructor
          · intro _ hp₁ hl₁ hex
            obtain ⟨tp, hmem, hh⟩ := hex
            rw [hostPage_of_lookup hl₁] at hfresh
            exact absurd hh (hfresh tp hmem)
          · intro _
            exact ⟨⟨c, p, pageSize c, h⟩, by simp, rfl, rfl⟩

/-- **When no client's registration is lost**: in a run of completed registrations
and writes, every trapped write reaches every client that registered, in every
state visited, exactly when no `register_page` stopped at another client's entry. -/
theorem every_client_called_iff (H : Host) (pageSize : C → U64)
    {tr : List (MemProtector C × Event C)} {s : MemProtector C}
    (hr : ((protector H pageSize Kernel.reliable).restrict
      Event.registerOrWrite).Run tr s) :
    Always (EveryClientCalled H pageSize) tr s ↔ ∀ x ∈ tr, x.2.findsOwn H x.1 := by
  refine hr.always_iff (C := fun t e => e.findsOwn H t) ?_ ?_
  · intro s _ c p h hsince
    exact absurd hsince not_since_nil
  · intro tr s e s' hr hP hst
    have hr' := hr.snoc hst
    have hi : Inv H s := inv_of_reachable ⟨tr, hr.of_restrict⟩
    have hi' : Inv H s' := inv_of_reachable ⟨_, hr'.of_restrict⟩
    -- what was promised before the step is kept by it
    have hkept : ∀ c p h, Since (fun x => x.2 = .register c p h (.ok ()))
        (fun x => x.2.trappedOn H (H.pageOf h)) tr →
        ¬ e.trappedOn H (H.pageOf h) → CalledOn s' c p (H.pageOf h) := by
      intro c p h hsince hnt
      obtain ⟨tp, hh, hhost⟩ := holds_of_since hr hsince
      obtain ⟨hp, hl, hlock, tp', hmem, htp⟩ :=
        (called_iff hi hh hhost).mp (hP c p h hsince)
      -- the entry of `c` stays, and so does the lock unless the page is hit
      obtain ⟨hp', hl', hmem', hlock'⟩ := registerOrWrite_keeps hst.1 hst.2 hl hmem
      refine ⟨hp', hl', hlock' ?_ hlock, tp', hmem', htp⟩
      intro hhit
      cases e with
      | write a log =>
          have ha : H.pageOf a = H.pageOf tp.hostAddress := by rw [hhost]; exact hhit
          obtain ⟨_, _, _, _, hlog, _⟩ := write_of_holds hi hh ha hst.1
          exact hnt ⟨hhit, by rw [hlog]; simp⟩
      | notify a granted res calls => exact hst.2
      | _ => exact hhit
    constructor
    · intro hP'
      cases e with
      | register c p h res =>
          have hres : res = .ok () := hst.2
          subst hres
          have hsince := since_snoc (P := fun x : MemProtector C × Event C =>
            x.2 = .register c p h (.ok ())) (Q := fun x => x.2.trappedOn H (H.pageOf h))
            (l := tr) (x := (s, .register c p h (.ok ()))) |>.mpr (.inl rfl)
          obtain ⟨tp, hh, hhost⟩ := holds_of_since hr' hsince
          exact (calledOn_of_register hst.1).mp
            ((called_iff hi' hh hhost).mp (hP' c p h hsince))
      | _ => trivial
    · intro hown c p h hsince
      obtain ⟨tp, hh, hhost⟩ := holds_of_since hr' hsince
      refine (called_iff hi' hh hhost).mpr ?_
      rcases since_snoc.mp hsince with he | ⟨hold, hnt⟩
      · have he : e = .register c p h (.ok ()) := he
        subst he
        exact (calledOn_of_register hst.1).mpr hown
      · exact hkept c p h hold hnt

/-- One registration by client `true`. -/
theorem every_client_called_one :
    Always (EveryClientCalled Host.kib4 (fun _ : Bool => 4096#64))
      [({}, .register true 0#64 0x1000#64 (.ok ()))]
      (registerPage Host.kib4 (fun _ : Bool => 4096#64) (fun _ => true) true 0#64
        0x1000#64 {}).2
    ↔ ∀ x ∈ [(({} : MemProtector Bool),
        (.register true 0#64 0x1000#64 (.ok ()) : Event Bool))],
        x.2.findsOwn Host.kib4 x.1 :=
  every_client_called_iff Host.kib4 (fun _ : Bool => 4096#64)
    (.snoc (.start rfl) ⟨.register _ true 0#64 0x1000#64
      (show (fun _ => true) ∈ Kernel.reliable from fun _ => rfl), rfl⟩)

/-- Client `true` registers a page first, client `false` after it; the write that
follows reaches `true` only. -/
theorem second_client_not_called :
    ¬ ∀ (tr : List (MemProtector Bool × Event Bool)) (s : MemProtector Bool),
      ((protector Host.kib4 (fun _ => 4096#64) Kernel.reliable).restrict
        Event.registerOrWrite).Run tr s →
      EveryClientCalled Host.kib4 (fun _ => 4096#64) tr s := by
  intro hall
  have hok : (fun _ => true) ∈ Kernel.reliable := fun _ => rfl
  have hr : ((protector Host.kib4 (fun _ : Bool => 4096#64) Kernel.reliable).restrict
      Event.registerOrWrite).Run _ _ :=
    .snoc (.snoc (.start rfl) ⟨.register _ true 0#64 0x1000#64 hok, rfl⟩)
      ⟨.register _ false 0#64 0x1000#64 hok, rfl⟩
  have hcalled := hall _ _ hr false 0#64 0x1000#64 (since_snoc.mpr (.inl rfl)) 0x1008#64
    rfl [.fault 0x1008#64, .updatePage true 0#64, .store 0x1008#64] _
    (.write _ 0x1008#64 hok) (by simp)
  simp at hcalled

end Avp64.Psp
