/-
  Avp64.Psp.MemProtector.Runs — `mem_protector` as a transition system.

  The events are the calls of the public interface and the writes to host
  memory, each with what it returns or makes happen; `Kernel` is the set of
  answers `mprotect` may give.  `step_page` says once what any event can do to
  any one host page; the invariants below are read off it.

    • `inv_of_reachable`    — keys, entries, distinctness and the page table,
                              for every behaviour of `mprotect`,
    • `repInv_of_reachable` — the whole representation invariant, when
                              `mprotect` succeeds.
-/
import Avp64.Lib.Transition
import Avp64.Psp.MemProtector.Operations

namespace Avp64.Psp

open Avp64.Lib MemProtector

variable {C : Type}

/-! ## §1. Events and steps. -/

/-- The answers `mprotect` may give. -/
abbrev Kernel := Set (U64 → Bool)

namespace Kernel

/-- `mprotect` may fail on any page of any call. -/
def any : Kernel := Set.univ

/-- Every call of `mprotect` succeeds. -/
def reliable : Kernel := { ok | ∀ k, ok k = true }

end Kernel

inductive Event (C : Type) where
  | register (core : C) (pageAddr hostAddr : U64) (res : Except Error Unit)
  | deregister (cpu : C) (pageAddr : U64) (res : Except Error Unit)
  | deregisterRange (cpu : C) (start end_ : U64) (res : Except Error Unit)
  /-- `granted` is the answer of `mprotect` for the host page of `addr`. -/
  | notify (addr : U64) (granted : Bool) (res : Except Error Bool)
      (calls : List (Action C))
  | write (addr : U64) (log : List (Action C))

namespace Event

/-- The event is an access the SIGSEGV handler may see on the host page `k`. -/
def hits (H : Host) (k : U64) : Event C → Prop
  | .notify a _ _ _ => H.pageOf a = k
  | .write a _ => H.pageOf a = k
  | _ => False

/-- `register_page(c, pageAddr, hostAddr)` completed, for some client `c`. -/
def registered (pageAddr hostAddr : U64) : Event C → Prop
  | .register _ p h res => p = pageAddr ∧ h = hostAddr ∧ res = .ok ()
  | _ => False

/-- A `register_page` for an address in the host page `k` completed. -/
def registeredIn (H : Host) (k : U64) : Event C → Prop
  | .register _ _ h res => H.pageOf h = k ∧ res = .ok ()
  | _ => False

/-- The target pages a deregistration removes. -/
def covered : Event C → TargetPageData C → Bool
  | .deregister _ p _ => namesPage p
  | .deregisterRange _ start end_ _ => coveredBy start end_
  | _ => fun _ => false

end Event

/-- One event, for a kernel that answers as `K` allows. -/
inductive Step (H : Host) (pageSize : C → U64) (K : Kernel) :
    MemProtector C → Event C → MemProtector C → Prop
  | register (s : MemProtector C) (core : C) (p h : U64) {ok : U64 → Bool} :
      ok ∈ K →
      Step H pageSize K s (.register core p h (registerPage H pageSize ok core p h s).1)
        (registerPage H pageSize ok core p h s).2
  | deregister (s : MemProtector C) (cpu : C) (p : U64) {ok : U64 → Bool}
      (walk : Walk s.protectedPages) : ok ∈ K →
      Step H pageSize K s (.deregister cpu p (deregisterPage H ok walk.order cpu p s).1)
        (deregisterPage H ok walk.order cpu p s).2
  | deregisterRange (s : MemProtector C) (cpu : C) (start end_ : U64) {ok : U64 → Bool}
      (walk : Walk s.protectedPages) : ok ∈ K →
      Step H pageSize K s
        (.deregisterRange cpu start end_
          (deregisterPages H ok walk.order cpu start end_ s).1)
        (deregisterPages H ok walk.order cpu start end_ s).2
  | notify (s : MemProtector C) (a : U64) {ok : U64 → Bool} : ok ∈ K →
      Step H pageSize K s
        (.notify a (ok (H.pageOf a)) (notifyPage H ok a s).1 (notifyPage H ok a s).2.1)
        (notifyPage H ok a s).2.2
  | write (s : MemProtector C) (a : U64) {ok : U64 → Bool} : ok ∈ K →
      Step H pageSize K s (.write a (hostWrite H ok a s).1) (hostWrite H ok a s).2

/-- The protector starts with an empty map and all of host memory writable. -/
def protector (H : Host) (pageSize : C → U64) (K : Kernel) :
    Lts (MemProtector C) (Event C) where
  init s := s = {}
  step := Step H pageSize K

/-! ## §2. What an event does to one host page. -/

inductive PageStep (H : Host) (pageSize : C → U64) (k : U64) :
    Event C → Option (HostPageData C) → Bool → Option (HostPageData C) → Bool → Prop
  | same (e : Event C) (o : Option (HostPageData C)) (ro : Bool) :
      PageStep H pageSize k e o ro o ro
  /-- A `register_page` that raises an error after it changed the list. -/
  | recorded {core : C} {p h : U64} {err : Error} {o : Option (HostPageData C)}
      {ro : Bool} {hp : HostPageData C} : H.pageOf h = k →
      Recorded ⟨core, p, pageSize core, h⟩ (o.getD {}) hp →
      PageStep H pageSize k (.register core p h (.error err)) o ro (some hp) ro
  | locked {core : C} {p h : U64} {o : Option (HostPageData C)} {ro : Bool}
      {hp : HostPageData C} : H.pageOf h = k →
      Recorded ⟨core, p, pageSize core, h⟩ (o.getD {}) hp →
      PageStep H pageSize k (.register core p h (.ok ())) o ro
        (some { hp with locked := true }) true
  | unlocked {e : Event C} {ro : Bool} {hp : HostPageData C} : e.hits H k →
      PageStep H pageSize k e (some hp) ro (some { hp with locked := false }) false
  | swept {e : Event C} {o o' : Option (HostPageData C)} {ro ro' : Bool} :
      Swept e.covered o ro o' ro' → PageStep H pageSize k e o ro o' ro'

variable {H : Host} {pageSize : C → U64} {K : Kernel} {s s' : MemProtector C}
  {e : Event C}

/-! ### Inversion: one lemma per event. -/

theorem step_register {core : C} {p h : U64} {res : Except Error Unit}
    (hs : Step H pageSize K s (.register core p h res) s') :
    ∃ ok ∈ K, RegisterCase H pageSize ok core p h s res s' := by
  cases hs with
  | register _ _ _ hok => exact ⟨_, hok, registerPage_case H pageSize _ core p h s⟩

theorem step_deregister {cpu : C} {p : U64} {res : Except Error Unit}
    (hs : Step H pageSize K s (.deregister cpu p res) s') :
    ∃ ok ∈ K, ∃ walk : Walk s.protectedPages,
      (res, s') = deregisterLoop H ok (namesPage p) walk.order s := by
  cases hs with
  | deregister _ _ walk hok => exact ⟨_, hok, walk, rfl⟩

theorem step_deregisterRange {cpu : C} {start end_ : U64} {res : Except Error Unit}
    (hs : Step H pageSize K s (.deregisterRange cpu start end_ res) s') :
    ∃ ok ∈ K, ∃ walk : Walk s.protectedPages,
      (res, s') = deregisterLoop H ok (coveredBy start end_) walk.order s := by
  cases hs with
  | deregisterRange _ _ _ walk hok => exact ⟨_, hok, walk, rfl⟩

theorem step_notify {a : U64} {granted : Bool} {res : Except Error Bool}
    {calls : List (Action C)} (hs : Step H pageSize K s (.notify a granted res calls) s') :
    ∃ ok ∈ K, granted = ok (H.pageOf a) ∧ (res, calls, s') = notifyPage H ok a s := by
  cases hs with
  | notify _ hok => exact ⟨_, hok, rfl, rfl⟩

theorem step_write {a : U64} {log : List (Action C)}
    (hs : Step H pageSize K s (.write a log) s') :
    ∃ ok ∈ K, WriteCase H ok a s log s' := by
  cases hs with
  | write _ hok => exact ⟨_, hok, hostWrite_case H _ a s⟩

theorem pageStep_unlock {a : U64} {hp : HostPageData C} (he : e.hits H (H.pageOf a))
    (hl : s.lookup (H.pageOf a) = some hp) (k : U64) :
    PageStep H pageSize k e (s.lookup k) (s.readOnly k)
      ((unlock s (H.pageOf a) hp).lookup k) ((unlock s (H.pageOf a) hp).readOnly k) := by
  unfold unlock
  rw [lookup_setReadOnly, lookup_setHostPage, readOnly_setReadOnly,
    readOnly_setHostPage]
  by_cases hk : k = H.pageOf a
  · subst hk
    rw [if_pos rfl, if_pos rfl, hl]
    exact .unlocked he
  · rw [if_neg hk, if_neg hk]
    exact .same _ _ _

/-- **Every event does one of these things to every host page.** -/
theorem step_page (hs : Step H pageSize K s e s') (k : U64) :
    PageStep H pageSize k e (s.lookup k) (s.readOnly k) (s'.lookup k) (s'.readOnly k) := by
  cases e with
  | register core p h res =>
      obtain ⟨ok, _, hcase⟩ := step_register hs
      cases hcase with
      | refused err _ => exact .same _ _ _
      | alreadyLocked _ _ _ _ _ _ => exact .same _ _ _
      | @unprotected err hp hrec _ =>
          rw [lookup_setHostPage, readOnly_setHostPage]
          by_cases hk : k = H.pageOf h
          · subst hk
            rw [if_pos rfl]
            exact .recorded rfl hrec
          · rw [if_neg hk]
            exact .same _ _ _
      | @locked hp _ hrec _ _ _ =>
          rw [lookup_setReadOnly, lookup_setHostPage, readOnly_setReadOnly,
            readOnly_setHostPage]
          by_cases hk : k = H.pageOf h
          · subst hk
            rw [if_pos rfl, if_pos rfl]
            exact .locked rfl hrec
          · rw [if_neg hk, if_neg hk]
            exact .same _ _ _
  | deregister cpu p res =>
      -- the walk meets every key once, so the page is swept at most once
      obtain ⟨ok, _, walk, heq⟩ := step_deregister hs
      rw [show s' = (deregisterLoop H ok (namesPage p) walk.order s).2 from
        congrArg Prod.snd heq]
      exact .swept (deregisterLoop_swept _ _ _ k walk.order s walk.nodup)
  | deregisterRange cpu start end_ res =>
      obtain ⟨ok, _, walk, heq⟩ := step_deregisterRange hs
      rw [show s' = (deregisterLoop H ok (coveredBy start end_) walk.order s).2 from
        congrArg Prod.snd heq]
      exact .swept (deregisterLoop_swept _ _ _ k walk.order s walk.nodup)
  | notify a granted res calls =>
      obtain ⟨ok, _, _, heq⟩ := step_notify hs
      rw [show s' = (notifyPage H ok a s).2.2 from congrArg (fun r => r.2.2) heq]
      cases hl : s.lookup (H.pageOf a) with
      | none =>
          rw [notifyPage_of_none hl]
          exact .same _ _ _
      | some hp =>
          rw [notifyPage_of_lookup hl]
          split
          · exact pageStep_unlock (by exact rfl) hl k
          · exact .same _ _ _
  | write a log =>
      obtain ⟨ok, _, hcase⟩ := step_write hs
      cases hcase with
      | direct _ => exact .same _ _ _
      | unclaimed _ _ => exact .same _ _ _
      | trapped _ hl _ => exact pageStep_unlock (by exact rfl) hl k

/-! ## §3. The representation invariant. -/

/-- The invariant of one host page that no answer of the kernel can break. -/
structure PageInv (H : Host) (k : U64) (o : Option (HostPageData C)) (ro : Bool) :
    Prop where
  aligned : ∀ hp ∈ o, H.pageOf k = k
  inPage : ∀ hp ∈ o, ∀ tp ∈ hp.targetPages, H.pageOf tp.hostAddress = k
  distinct : ∀ hp ∈ o, (hp.targetPages.map (·.hostAddress)).Nodup
  readOnly_iff : ro = true ↔ ∃ hp ∈ o, hp.locked = true

/-- Every key is host-page aligned, every entry is stored under its own host
page, no two entries of a host page share a host address, and a host page is
read-only exactly when the map holds it as locked. -/
def Inv (H : Host) (s : MemProtector C) : Prop :=
  ∀ k, PageInv H k (s.lookup k) (s.readOnly k)

/-- The representation invariant: `Inv`, and a locked host page has a target page. -/
structure RepInv (H : Host) (s : MemProtector C) : Prop where
  inv : Inv H s
  nonempty : ∀ k hp, s.lookup k = some hp → hp.locked = true → hp.targetPages ≠ []

theorem pageInv_none (H : Host) (k : U64) :
    PageInv H k (none : Option (HostPageData C)) false :=
  ⟨by simp, by simp, by simp, by simp⟩

theorem inv_init (H : Host) : Inv H ({} : MemProtector C) :=
  fun k => pageInv_none H k

/-- Recording a target page keeps what the invariant says about the list. -/
theorem Recorded.list_inv {new : TargetPageData C} {hp hp' : HostPageData C} {k : U64}
    (hrec : Recorded new hp hp') (hnew : H.pageOf new.hostAddress = k)
    (hin : ∀ tp ∈ hp.targetPages, H.pageOf tp.hostAddress = k)
    (hnd : (hp.targetPages.map (·.hostAddress)).Nodup) :
    (∀ tp ∈ hp'.targetPages, H.pageOf tp.hostAddress = k)
    ∧ (hp'.targetPages.map (·.hostAddress)).Nodup := by
  cases hrec with
  | known _ _ => exact ⟨hin, hnd⟩
  | added hfresh =>
      constructor
      · intro tp hmem
        rcases List.mem_append.mp hmem with h | h
        · exact hin tp h
        · rw [List.mem_singleton.mp h]; exact hnew
      · rw [List.map_append, List.nodup_append]
        refine ⟨hnd, by simp, ?_⟩
        intro a ha b hb
        obtain ⟨tp, hmem, rfl⟩ := List.mem_map.mp ha
        rw [List.map_singleton, List.mem_singleton] at hb
        rw [hb]
        exact hfresh tp hmem

theorem Recorded.locked_eq {new : TargetPageData C} {hp hp' : HostPageData C}
    (hrec : Recorded new hp hp') : hp'.locked = hp.locked := by
  cases hrec <;> rfl

/-- **One event keeps the invariant of one host page.** -/
theorem pageInv_step {k : U64} {o o' : Option (HostPageData C)} {ro ro' : Bool}
    (hi : PageInv H k o ro) (hst : PageStep H pageSize k e o ro o' ro') :
    PageInv H k o' ro' := by
  -- the list the operator `[]` finds, whether or not the page was stored
  have hin : ∀ tp ∈ (o.getD {}).targetPages, H.pageOf tp.hostAddress = k := by
    cases o with
    | none => intro tp h; simp at h
    | some hp => exact hi.inPage hp rfl
  have hnd : ((o.getD {}).targetPages.map (·.hostAddress)).Nodup := by
    cases o with
    | none => simp
    | some hp => exact hi.distinct hp rfl
  cases hst with
  | same => exact hi
  | @recorded core p h err _ _ hp hk hrec =>
      obtain ⟨hin', hnd'⟩ := hrec.list_inv hk hin hnd
      refine ⟨?_, ?_, ?_, ?_⟩
      · intro _ _; rw [← hk]; exact H.pageOf_pageOf h
      · intro hp' h'; cases h'; exact hin'
      · intro hp' h'; cases h'; exact hnd'
      · have hro := hi.readOnly_iff
        -- a page that was not stored is not locked either
        cases o with
        | none => simpa [hrec.locked_eq] using hro
        | some hp₀ => simpa [hrec.locked_eq] using hro
  | @locked core p h _ _ hp hk hrec =>
      obtain ⟨hin', hnd'⟩ := hrec.list_inv hk hin hnd
      refine ⟨?_, ?_, ?_, by simp⟩
      · intro _ _; rw [← hk]; exact H.pageOf_pageOf h
      · intro hp' h'; cases h'; exact hin'
      · intro hp' h'; cases h'; exact hnd'
  | @unlocked _ _ hp _ =>
      refine ⟨?_, ?_, ?_, by simp⟩
      · intro _ _; exact hi.aligned hp rfl
      · intro hp' h'; cases h'; exact hi.inPage hp rfl
      · intro hp' h'; cases h'; exact hi.distinct hp rfl
  | swept hsw =>
      cases hsw with
      | untouched => exact hi
      | filtered hp =>
          refine ⟨fun _ _ => hi.aligned hp rfl, ?_, ?_, ?_⟩
          · intro hp' h' tp hmem
            cases h'
            exact hi.inPage hp rfl tp (List.mem_of_mem_filter hmem)
          · intro hp' h'
            cases h'
            exact (hi.distinct hp rfl).sublist (List.filter_sublist.map _)
          · simpa [withoutCovered] using hi.readOnly_iff
      | reclaimed hp _ _ => exact pageInv_none H k

theorem inv_step (hi : Inv H s) (hs : Step H pageSize K s e s') : Inv H s' :=
  fun k => pageInv_step (hi k) (step_page hs k)

theorem inv_of_reachable (hr : (protector H pageSize K).Reachable s) : Inv H s := by
  refine hr.invariant ?_ ?_
  · intro s h0
    rw [show s = {} from h0]
    exact inv_init H
  · intro s e s' hi hs
    exact inv_step (s := s) hi hs

namespace Inv

variable (hi : Inv H s) {k : U64} {hp : HostPageData C}

include hi

theorem aligned (hl : s.lookup k = some hp) : H.pageOf k = k :=
  (hi k).aligned hp hl

theorem inPage (hl : s.lookup k = some hp) {tp : TargetPageData C}
    (hmem : tp ∈ hp.targetPages) : H.pageOf tp.hostAddress = k :=
  (hi k).inPage hp hl tp hmem

theorem readOnly_of_locked (hl : s.lookup k = some hp) (hlock : hp.locked = true) :
    s.readOnly k = true :=
  (hi k).readOnly_iff.mpr ⟨hp, hl, hlock⟩

theorem locked_of_readOnly (hro : s.readOnly k = true) :
    ∃ hp, s.lookup k = some hp ∧ hp.locked = true := by
  obtain ⟨hp, hl, hlock⟩ := (hi k).readOnly_iff.mp hro
  exact ⟨hp, hl, hlock⟩

end Inv

/-! ## §4. When `mprotect` succeeds. -/

/-- A deregistration ends without an error, and each page is swept exactly. -/
theorem deregister_reliable {ok : U64 → Bool} (hok : ok ∈ Kernel.reliable)
    (hi : Inv H s) (covered : TargetPageData C → Bool) (walk : Walk s.protectedPages) :
    (deregisterLoop H ok covered walk.order s).1 = .ok ()
    ∧ ∀ k,
      (deregisterLoop H ok covered walk.order s).2.lookup k
          = (s.lookup k).bind (sweep covered)
      ∧ (deregisterLoop H ok covered walk.order s).2.readOnly k
          = (s.readOnly k && !(s.lookup k).any (reclaims covered)) :=
  deregisterLoop_reliable H ok covered hok walk (fun _ _ hl => hi.aligned hl)

theorem nonempty_of_sweep {covered : TargetPageData C → Bool}
    {o : Option (HostPageData C)} {hp' : HostPageData C}
    (h : o.bind (sweep covered) = some hp') (hlock : hp'.locked = true) :
    hp'.targetPages ≠ [] := by
  obtain ⟨hp, rfl, hsw⟩ := Option.bind_eq_some_iff.mp h
  unfold sweep at hsw
  split at hsw
  · simp at hsw
  · rename_i hr
    injection hsw with hsw
    subst hsw
    intro hnil
    apply hr
    unfold reclaims
    rw [hnil]
    simpa [withoutCovered] using hlock

/-- A locked page keeps a target page under every event, unless a deregistration
was cut short by the kernel. -/
theorem repInv_step (hi : RepInv H s) (hs : Step H pageSize Kernel.reliable s e s') :
    RepInv H s' := by
  refine ⟨inv_step hi.inv hs, ?_⟩
  intro k hp' hl' hlock
  -- the two deregistrations are exact; for the other events the page step decides
  have hrest : ∀ hst : PageStep H pageSize k e (s.lookup k) (s.readOnly k)
      (s'.lookup k) (s'.readOnly k), e.covered = (fun _ => false) →
      hp'.targetPages ≠ [] := by
    intro hst hcov
    have hold := hi.nonempty k
    revert hst
    rw [hl']
    generalize s.lookup k = o at hold
    generalize s.readOnly k = ro
    generalize s'.readOnly k = ro'
    intro hst
    cases hst with
    | same => exact hold hp' rfl hlock
    | recorded _ hrec =>
        cases hrec with
        | known hex _ =>
            obtain ⟨tp, hmem, _⟩ := hex
            exact List.ne_nil_of_mem hmem
        | added _ => simp
    | locked _ hrec =>
        cases hrec with
        | known hex _ =>
            obtain ⟨tp, hmem, _⟩ := hex
            exact List.ne_nil_of_mem hmem
        | added _ => simp
    | unlocked _ => simp at hlock
    | swept hsw =>
        rw [hcov] at hsw
        cases hsw with
        | untouched => exact hold hp' rfl hlock
        | filtered hp =>
            have := hold hp rfl hlock
            simpa [withoutCovered] using this
  -- only the deregistrations can empty a list
  have hst := step_page hs k
  cases e with
  | deregister cpu p res =>
      obtain ⟨ok, hok, walk, heq⟩ := step_deregister hs
      have hex := ((deregister_reliable hok hi.inv (namesPage p) walk).2 k).1
      rw [← heq] at hex
      exact nonempty_of_sweep (hex.symm.trans hl') hlock
  | deregisterRange cpu start end_ res =>
      obtain ⟨ok, hok, walk, heq⟩ := step_deregisterRange hs
      have hex := ((deregister_reliable hok hi.inv (coveredBy start end_) walk).2 k).1
      rw [← heq] at hex
      exact nonempty_of_sweep (hex.symm.trans hl') hlock
  | register core p h res => exact hrest hst rfl
  | notify a granted res calls => exact hrest hst rfl
  | write a log => exact hrest hst rfl

theorem repInv_of_reachable
    (hr : (protector H pageSize Kernel.reliable).Reachable s) : RepInv H s := by
  refine hr.invariant ?_ ?_
  · intro s h0
    rw [show s = {} from h0]
    exact ⟨inv_init H, by simp⟩
  · intro s e s' hi hs
    exact repInv_step (s := s) hi hs

/-! ## §5. The representation invariant on every run. -/

/-- **The representation invariant and its agreement with the page table**, after
every finite sequence of calls, whichever of them raise an error. -/
theorem protector_representation (H : Host) (pageSize : C → U64)
    {tr : List (MemProtector C × Event C)} {s : MemProtector C}
    (hr : (protector H pageSize Kernel.reliable).Run tr s) :
    (∀ k hp, s.lookup k = some hp → H.pageOf k = k)
    ∧ (∀ k hp, s.lookup k = some hp →
        ∀ tp ∈ hp.targetPages, tp.hostAddress &&& H.pageMask = k)
    ∧ (∀ k hp, s.lookup k = some hp → (hp.targetPages.map (·.hostAddress)).Nodup)
    ∧ (∀ k hp, s.lookup k = some hp → hp.locked = true → hp.targetPages ≠ [])
    ∧ (∀ k, s.readOnly k = true ↔ ∃ hp, s.lookup k = some hp ∧ hp.locked = true) := by
  have hrep : RepInv H s := repInv_of_reachable ⟨tr, hr⟩
  refine ⟨?_, ?_, ?_, hrep.nonempty, ?_⟩
  · intro k hp hl
    exact hrep.inv.aligned hl
  · intro k hp hl tp hmem
    exact hrep.inv.inPage hl hmem
  · intro k hp hl
    exact (hrep.inv k).distinct hp hl
  · intro k
    simpa using (hrep.inv k).readOnly_iff

/-- One client, one page of 4 KiB registered on a host with such pages. -/
theorem protector_representation_registered :
    (registerPage Host.kib4 (fun _ : Unit => 4096#64) (fun _ => true) () 0#64
      0x1000#64 {}).2.readOnly 0x1000#64 = true
    ↔ ∃ hp, (registerPage Host.kib4 (fun _ : Unit => 4096#64) (fun _ => true) () 0#64
        0x1000#64 {}).2.lookup 0x1000#64 = some hp ∧ hp.locked = true :=
  (protector_representation Host.kib4 (fun _ : Unit => 4096#64)
    (.snoc (.start rfl) (.register _ () 0#64 0x1000#64 (fun _ => rfl)))).2.2.2.2 0x1000#64

end Avp64.Psp
