/-
  Avp64.Psp.MemProtector.Atomicity — what a call that raises an error leaves behind.

  `register_page` checks the page sizes before it touches the map, but records the
  target page before it calls `protect_page`; the deregistrations erase entries host
  page by host page and can fail on any of them.  This file says exactly which
  failing calls leave the map and the page table as they were.

    • `register_unchanged_iff`       — a `register_page` that raises an error,
    • `deregisterLoop_unchanged_iff` — a deregistration that raises an error,
    • `error_unchanged_iff`          — all three, in any reachable state.
-/
import Avp64.Psp.MemProtector.Runs

namespace Avp64.Psp

open Avp64.Lib MemProtector

variable {C : Type} {H : Host} {pageSize : C → U64} {K : Kernel}
  {ok : U64 → Bool} {s : MemProtector C}

/-! ## §1. `register_page`. -/

/-- A list with one entry more is another list. -/
theorem setHostPage_added_ne {k : U64} {new : TargetPageData C} :
    s.setHostPage k { s.hostPage k with
      targetPages := (s.hostPage k).targetPages ++ [new] } ≠ s := by
  intro heq
  -- read the page back from both sides
  have hl : s.lookup k = some { s.hostPage k with
      targetPages := (s.hostPage k).targetPages ++ [new] } := by
    conv_lhs => rw [← heq]
    rw [lookup_setHostPage, if_pos rfl]
  have hlist := congrArg HostPageData.targetPages (hostPage_of_lookup hl)
  simp at hlist

/-- **Which failing `register_page` changes nothing**: one that fails on a page size,
or finds an entry for its host address. -/
theorem register_unchanged_iff {core : C} {p h : U64} {e : Error}
    (herr : (registerPage H pageSize ok core p h s).1 = .error e) :
    (registerPage H pageSize ok core p h s).2 = s ↔
      H.getPageSize < pageSize core ∨ pageSize core = 0
        ∨ ∃ tp ∈ (s.hostPage (H.pageOf h)).targetPages, tp.hostAddress = h := by
  -- the checks of the page sizes come before any change
  have hsize : H.getPageSize < pageSize core ∨ pageSize core = 0 →
      (registerPage H pageSize ok core p h s).2 = s := by
    intro hsz
    obtain ⟨_, heq⟩ := registerPage_of_pageSize hsz ok p h s
    rw [heq]
  have hcase := registerPage_case H pageSize ok core p h s
  rw [herr] at hcase
  revert hsize hcase
  generalize (registerPage H pageSize ok core p h s).2 = s'
  intro hsize hcase
  cases hcase with
  | refused _ hwhy =>
      refine iff_of_true rfl ?_
      rcases hwhy with hlt | hz | ⟨tp, hmem, hh, _⟩
      · exact .inl hlt
      · exact .inr (.inl hz)
      · exact .inr (.inr ⟨tp, hmem, hh⟩)
  | unprotected _ hrec _ =>
      cases hrec with
      | known hex _ =>
          obtain ⟨tp, hmem, hh⟩ := hex
          refine iff_of_true ?_ (.inr (.inr ⟨tp, hmem, hh⟩))
          exact setHostPage_of_lookup (lookup_of_mem hmem)
      | added hfresh =>
          -- the new entry stays in the list although the page is not protected
          refine iff_of_false setHostPage_added_ne ?_
          rintro (hlt | hz | ⟨tp, hmem, hh⟩)
          · exact setHostPage_added_ne (hsize (.inl hlt))
          · exact setHostPage_added_ne (hsize (.inr hz))
          · exact hfresh tp hmem hh

/-! ## §2. The deregistrations. -/

/-- The loop changes the host page, or fails on it. -/
def concerns (covered : TargetPageData C → Bool) (hp : HostPageData C) : Bool :=
  hp.targetPages.any covered || reclaims covered hp

/-- The first host page, in the order of the walk, that the loop changes or fails on. -/
def firstConcerned (covered : TargetPageData C → Bool) (order : List U64)
    (s : MemProtector C) : Option U64 :=
  order.find? (fun k => (s.lookup k).any (concerns covered))

/-- The first host page the loop would change has no entry to lose, and the kernel
refuses to make it writable. -/
def FailsAtOnce (ok : U64 → Bool) (covered : TargetPageData C → Bool)
    (order : List U64) (s : MemProtector C) : Prop :=
  ∃ k ∈ firstConcerned covered order s, ok k = false
    ∧ (s.hostPage k).targetPages.any covered = false

section

variable {covered : TargetPageData C → Bool} {hp : HostPageData C}

theorem withoutCovered_eq_iff :
    withoutCovered covered hp = hp ↔ hp.targetPages.any covered = false := by
  cases hp with
  | mk tps locked =>
      simp [withoutCovered, List.filter_eq_self]

/-- A page the loop is not concerned with is stored as it was. -/
theorem withoutCovered_of_not_concerns (h : concerns covered hp = false) :
    withoutCovered covered hp = hp :=
  withoutCovered_eq_iff.mpr (Bool.or_eq_false_iff.mp h).1

theorem setHostPage_withoutCovered_iff {k : U64} (hl : s.lookup k = some hp) :
    s.setHostPage k (withoutCovered covered hp) = s ↔
      hp.targetPages.any covered = false := by
  rw [← withoutCovered_eq_iff]
  constructor
  · intro heq
    have hl' := congrArg (fun t => t.lookup k) heq
    simp only [lookup_setHostPage, if_true, hl] at hl'
    injection hl'
  · intro heq
    rw [heq]
    exact setHostPage_of_lookup hl

theorem firstConcerned_skip {k : U64} {ks : List U64}
    (h : (s.lookup k).any (concerns covered) = false) :
    firstConcerned covered (k :: ks) s = firstConcerned covered ks s := by
  unfold firstConcerned
  rw [List.find?_cons_of_neg (by simp [h])]

theorem firstConcerned_found {k : U64} {ks : List U64}
    (h : (s.lookup k).any (concerns covered) = true) :
    firstConcerned covered (k :: ks) s = some k := by
  unfold firstConcerned
  exact List.find?_cons_of_pos h

/-- **Which failing deregistration changes nothing**: one that fails on the first
page it is concerned with, where it has no entry to erase. -/
theorem deregisterLoop_unchanged_iff :
    ∀ (ks : List U64) (s : MemProtector C), ks.Nodup → (∀ k ∈ ks, H.pageOf k = k) →
      ∀ {e : Error}, (deregisterLoop H ok covered ks s).1 = .error e →
        ((deregisterLoop H ok covered ks s).2 = s ↔ FailsAtOnce ok covered ks s) := by
  intro ks
  induction ks with
  | nil => intro s _ _ e herr; cases herr
  | cons k ks ih =>
      intro s hnd hal e herr
      obtain ⟨hk, hks⟩ := List.nodup_cons.mp hnd
      have hal' := fun k' hk' => hal k' (List.mem_cons_of_mem _ hk')
      cases hl : s.lookup k with
      | none =>
          have hskip : firstConcerned covered (k :: ks) s = firstConcerned covered ks s :=
            firstConcerned_skip (by rw [hl]; rfl)
          unfold FailsAtOnce
          rw [hskip]
          rw [deregisterLoop_skip H ok covered hl] at herr ⊢
          exact ih s hks hal' herr
      | some hp =>
          rw [deregisterLoop_cons H ok covered hl, if_pos (hal k List.mem_cons_self)]
            at herr ⊢
          cases hc : concerns covered hp with
          | false =>
              -- the page is left alone, and the loop goes on
              have hskip : firstConcerned covered (k :: ks) s
                  = firstConcerned covered ks s := firstConcerned_skip (by rw [hl]; exact hc)
              have hnr : ¬ reclaims covered hp = true := by
                rw [(Bool.or_eq_false_iff.mp hc).2]
                simp
              unfold FailsAtOnce
              rw [hskip]
              rw [if_neg hnr, withoutCovered_of_not_concerns hc, setHostPage_of_lookup hl]
                at herr ⊢
              exact ih s hks hal' herr
          | true =>
              have hfound : firstConcerned covered (k :: ks) s = some k :=
                firstConcerned_found (by rw [hl]; exact hc)
              have hcond : FailsAtOnce ok covered (k :: ks) s ↔
                  ok k = false ∧ hp.targetPages.any covered = false := by
                unfold FailsAtOnce
                rw [hfound]
                simp [hostPage_of_lookup hl]
              rw [hcond]
              -- whatever follows, this page is as the iteration left it
              have hframe : ∀ t : MemProtector C, t.lookup k ≠ s.lookup k →
                  (deregisterLoop H ok covered ks t).2 ≠ s := by
                intro t hne heq
                rw [← (deregisterLoop_frame H ok covered ks t hk).1, heq] at hne
                exact hne rfl
              by_cases hr : reclaims covered hp = true
              · rw [if_pos hr]
                cases hok : ok k with
                | false =>
                    rw [if_neg (by simp)]
                    simpa using setHostPage_withoutCovered_iff hl
                | true =>
                    rw [if_pos rfl]
                    refine iff_of_false (hframe _ ?_) (by simp)
                    rw [lookup_eraseHostPage, if_pos rfl, hl]
                    simp
              · rw [if_neg hr]
                -- the page is not reclaimed, so it has lost an entry
                have hany : hp.targetPages.any covered = true := by
                  unfold concerns at hc
                  simpa [hr] using hc
                refine iff_of_false (hframe _ ?_) (by simp [hany])
                rw [lookup_setHostPage, if_pos rfl, hl]
                intro heq
                injection heq with heq
                rw [withoutCovered_eq_iff.mp heq] at hany
                cases hany

end

/-! ## §3. All operations. -/

/-- **When an error leaves the protector as it was**, in any reachable state and for
every answer of `mprotect`. -/
theorem error_unchanged_iff (H : Host) (pageSize : C → U64)
    (hr : (protector H pageSize K).Reachable s) :
    (∀ ok ∈ K, ∀ core p h e, (registerPage H pageSize ok core p h s).1 = .error e →
      ((registerPage H pageSize ok core p h s).2 = s ↔
        H.getPageSize < pageSize core ∨ pageSize core = 0
          ∨ ∃ tp ∈ (s.hostPage (H.pageOf h)).targetPages, tp.hostAddress = h))
    ∧ (∀ ok ∈ K, ∀ (walk : Walk s.protectedPages) cpu p e,
      (deregisterPage H ok walk.order cpu p s).1 = .error e →
      ((deregisterPage H ok walk.order cpu p s).2 = s ↔
        FailsAtOnce ok (namesPage p) walk.order s))
    ∧ (∀ ok ∈ K, ∀ (walk : Walk s.protectedPages) cpu start end_ e,
      (deregisterPages H ok walk.order cpu start end_ s).1 = .error e →
      ((deregisterPages H ok walk.order cpu start end_ s).2 = s ↔
        FailsAtOnce ok (coveredBy start end_) walk.order s)) := by
  have hi : Inv H s := inv_of_reachable hr
  have halign : ∀ walk : Walk s.protectedPages, ∀ k ∈ walk.order, H.pageOf k = k := by
    intro walk k hk
    obtain ⟨hp, hl⟩ := Finmap.mem_iff.mp ((walk.mem_order k).mp hk)
    exact hi.aligned hl
  refine ⟨?_, ?_, ?_⟩
  · intro ok _ core p h e herr
    exact register_unchanged_iff herr
  · intro ok _ walk cpu p e herr
    exact deregisterLoop_unchanged_iff walk.order s walk.nodup (halign walk) herr
  · intro ok _ walk cpu start end_ e herr
    exact deregisterLoop_unchanged_iff walk.order s walk.nodup (halign walk) herr

/-- A host address inside a page of the empty protector. -/
theorem error_unchanged_first :
    (registerPage Host.kib4 (fun _ : Unit => 4096#64) (fun _ => true) () 0#64 0x1800#64
      {}).2 = {}
    ↔ Host.kib4.getPageSize < 4096#64 ∨ 4096#64 = 0
      ∨ ∃ tp ∈ (({} : MemProtector Unit).hostPage (Host.kib4.pageOf 0x1800#64)).targetPages,
        tp.hostAddress = 0x1800#64 :=
  (error_unchanged_iff Host.kib4 (fun _ : Unit => 4096#64)
    ⟨[], .start rfl⟩).1 (fun _ => true) (show _ ∈ Kernel.any from Set.mem_univ _) () 0#64
    0x1800#64 (.invalidPageAddress 0x1800#64) rfl

/-- The target page that `protect_page` refuses stays recorded. -/
theorem failed_register_recorded :
    ¬ ∀ s : MemProtector Unit,
      (protector Host.kib4 (fun _ => 4096#64) Kernel.reliable).Reachable s →
      ∀ ok ∈ Kernel.reliable, ∀ core p h e,
        (registerPage Host.kib4 (fun _ : Unit => 4096#64) ok core p h s).1 = .error e →
        (registerPage Host.kib4 (fun _ : Unit => 4096#64) ok core p h s).2 = s := by
  intro hall
  have hsame := hall {} ⟨[], .start rfl⟩ (fun _ => true) (fun _ => rfl) () 0#64 0x1800#64
    (.invalidPageAddress 0x1800#64) rfl
  have hl := congrArg (fun t => (t.lookup 0x1000#64).isSome) hsame
  revert hl
  decide

end Avp64.Psp
