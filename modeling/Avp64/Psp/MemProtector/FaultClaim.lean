/-
  Avp64.Psp.MemProtector.FaultClaim — which faults the SIGSEGV handler claims.

  `notify_page` claims a fault when the map stores the host page, whether or not
  the page is locked.  The entries outlive a trapped write, so a page can be stored
  and open.

    • `fault_claim` — on a given address `notify_page` claims only what is locked
                      exactly when the page is not stored open; and in a run whose
                      faults all meet that, two claimed faults on a host page have
                      a completed `register_page` in it between them.
-/
import Avp64.Psp.MemProtector.Protection

namespace Avp64.Psp

open Avp64.Lib MemProtector

variable {C : Type} {H : Host} {pageSize : C → U64} {K : Kernel}
  {s s' : MemProtector C} {e : Event C}

/-! ## §1. One fault. -/

/-- `notify_page(a)` claims the fault only on a locked page, which becomes writable;
on every other page it does nothing and the fault goes to the original handler. -/
structure ClaimsLocked (H : Host) (ok : U64 → Bool) (a : U64) (s : MemProtector C) :
    Prop where
  claimed : (notifyPage H ok a s).1 = .ok true →
    (∃ hp, s.lookup (H.pageOf a) = some hp ∧ hp.locked = true)
    ∧ s.readOnly (H.pageOf a) = true
    ∧ (notifyPage H ok a s).2.2.readOnly (H.pageOf a) = false
  passedOn : (∀ hp, s.lookup (H.pageOf a) = some hp → hp.locked = false) →
    (notifyPage H ok a s).1 = .ok false ∧ (notifyPage H ok a s).2.1 = []
    ∧ (notifyPage H ok a s).2.2.readOnly = s.readOnly
    ∧ (segfaultHandlerInt H ok a s).1 = [.original a]

/-- A call of `notify_page` that does nothing. -/
theorem claimsLocked_of_quiet {ok : U64 → Bool} {a : U64}
    (h : notifyPage H ok a s = (.ok false, [], s)) : ClaimsLocked H ok a s := by
  constructor
  · intro hclaimed
    rw [h] at hclaimed
    cases hclaimed
  · intro _
    unfold segfaultHandlerInt
    rw [h]
    exact ⟨rfl, rfl, rfl, rfl⟩

/-- **When a fault is claimed only on a locked page**: exactly when the page is not
stored open, or stored open with nothing to call while the kernel refuses. -/
theorem claimsLocked_iff (hi : Inv H s) (ok : U64 → Bool) (a : U64) :
    ClaimsLocked H ok a s ↔ ∀ hp, s.lookup (H.pageOf a) = some hp →
      hp.locked = true ∨ (hp.targetPages = [] ∧ ok (H.pageOf a) = false) := by
  constructor
  · intro hclaim hp hl
    cases hlock : hp.locked with
    | true => exact .inl rfl
    | false =>
        -- on an open page `passedOn` says that nothing is called or claimed
        have hopen : ∀ hp', s.lookup (H.pageOf a) = some hp' → hp'.locked = false := by
          intro hp' hl'
          rw [hl] at hl'
          injection hl' with hl'
          exact hl' ▸ hlock
        obtain ⟨hres, hcalls, _, _⟩ := hclaim.passedOn hopen
        rw [notifyPage_of_lookup hl] at hres hcalls
        cases hok : ok (H.pageOf a) with
        | true =>
            rw [hok] at hres
            simp at hres
        | false =>
            rw [hok] at hcalls
            exact .inr ⟨List.map_eq_nil_iff.mp hcalls, rfl⟩
  · intro hcond
    cases hl : s.lookup (H.pageOf a) with
    | none => exact claimsLocked_of_quiet (notifyPage_of_none hl)
    | some hp =>
        have hnotify : notifyPage H ok a s = _ := notifyPage_of_lookup hl
        rcases hcond hp hl with hlock | ⟨hnil, hfail⟩
        · constructor
          · intro hclaimed
            -- on a locked page a claim is right: the page goes from read-only to writable
            refine ⟨⟨hp, hl, hlock⟩, hi.readOnly_of_locked hl hlock, ?_⟩
            rw [hnotify] at hclaimed ⊢
            cases hok : ok (H.pageOf a) with
            | true => exact readOnly_unlock s (H.pageOf a) hp
            | false =>
                rw [hok] at hclaimed
                simp at hclaimed
          · intro hopen
            rw [hopen hp hl] at hlock
            cases hlock
        · -- nothing to call, and the kernel refuses
          refine claimsLocked_of_quiet ?_
          rw [hnotify, hfail]
          simp [updateCalls, hnil]

/-! ## §2. Claimed faults along a run. -/

namespace Event

/-- A fault on the host page `k` was claimed. -/
def claimedOn (H : Host) (k : U64) : Event C → Prop
  | .notify a _ res _ => H.pageOf a = k ∧ res = .ok true
  | .write a log => H.pageOf a = k ∧ .fault a ∈ log ∧ .original a ∉ log
  | _ => False

/-- A call of `notify_page` does not find its page stored open, or finds it open with
nothing to call, and the kernel refuses. -/
def findsLocked (H : Host) (s : MemProtector C) : Event C → Prop
  | .notify a granted _ _ => ∀ hp, s.lookup (H.pageOf a) = some hp →
      hp.locked = true ∨ (hp.targetPages = [] ∧ granted = false)
  | _ => True

end Event

/-- A claimed fault leaves its page writable.  It was a write to a read-only page, or
`notify_page` found the page in the map. -/
theorem claimed_case {k : U64} (hs : Step H pageSize K s e s') (hclaim : e.claimedOn H k) :
    s'.readOnly k = false ∧ (s.readOnly k = true
      ∨ ∃ a res calls hp, e = .notify a true res calls ∧ H.pageOf a = k
        ∧ s.lookup k = some hp) := by
  cases e with
  | notify a granted res calls =>
      obtain ⟨rfl, rfl⟩ := hclaim
      obtain ⟨ok, _, rfl, heq⟩ := step_notify hs
      cases hl : s.lookup (H.pageOf a) with
      | none =>
          rw [notifyPage_of_none hl] at heq
          simp at heq
      | some hp =>
          rw [notifyPage_of_lookup hl] at heq
          split at heq
          · next hok =>
              rw [hok, (Prod.mk.inj (Prod.mk.inj heq).2).2]
              exact ⟨readOnly_unlock s (H.pageOf a) hp, .inr ⟨a, _, calls, hp, rfl, rfl, rfl⟩⟩
          · simp at heq
  | write a log =>
      obtain ⟨rfl, hfault, horig⟩ := hclaim
      obtain ⟨ok, _, hcase⟩ := step_write hs
      cases hcase with
      | direct _ => simp at hfault
      | unclaimed _ _ => simp at horig
      | trapped hro _ _ => exact ⟨readOnly_unlock s (H.pageOf a) _, .inl hro⟩
  | _ => exact absurd hclaim (fun h => h)

/-- A fault that is claimed where `findsLocked` holds is one on a read-only page. -/
theorem readOnly_of_claimed (hi : Inv H s) {k : U64} (hs : Step H pageSize K s e s')
    (hclaim : e.claimedOn H k) (hfind : e.findsLocked H s) : s.readOnly k = true := by
  obtain ⟨_, hro | ⟨a, res, calls, hp, rfl, rfl, hl⟩⟩ := claimed_case hs hclaim
  · exact hro
  · -- the kernel granted the call, so the page was locked
    rcases hfind hp hl with hlock | ⟨_, hno⟩
    · exact hi.readOnly_of_locked hl hlock
    · cases hno

/-- **Which faults are claimed.**  In every reachable state and for every address,
`notify_page` claims the fault only on a locked page, and leaves it to the original
handler otherwise, exactly when the page is not stored open (or stored open with no
target page while `mprotect` fails).  In a run whose calls all meet that condition two
claimed faults on a host page have a completed `register_page` in it between them. -/
theorem fault_claim (H : Host) (pageSize : C → U64)
    {tr : List (MemProtector C × Event C)} {s : MemProtector C}
    (hr : (protector H pageSize K).Run tr s) :
    (∀ a ok, ClaimsLocked H ok a s ↔ ∀ hp, s.lookup (H.pageOf a) = some hp →
        hp.locked = true ∨ (hp.targetPages = [] ∧ ok (H.pageOf a) = false))
    ∧ ((∀ x ∈ tr, x.2.findsLocked H x.1) → ∀ pre x mid y suf k,
        tr = pre ++ x :: (mid ++ y :: suf) → x.2.claimedOn H k → y.2.claimedOn H k →
        ∃ z ∈ mid, z.2.registeredIn H k) := by
  constructor
  · intro a ok
    exact claimsLocked_iff (inv_of_reachable ⟨tr, hr⟩) ok a
  · intro hfind pre x mid y suf k heq hx hy
    have hmem : y ∈ tr := by simp [heq]
    obtain ⟨hreach, t', hst⟩ := hr.step_of_mem hmem
    have hro := readOnly_of_claimed (inv_of_reachable hreach) hst hy (hfind y hmem)
    -- the page was writable after `x` and is read-only at `y`
    refine hr.exists_between (P := fun z => z.2.claimedOn H k)
      (Q := fun z => z.2.registeredIn H k) (G := fun t => t.readOnly k = false)
      ?_ ?_ heq hx (by rw [hro]; simp)
    · intro t e t' _ hst hclaim
      exact (claimed_case hst hclaim).1
    · intro t e t' _ hst hopen hnreg
      exact readOnly_step hst hopen hnreg

/-- A page that was just registered: its fault may be claimed. -/
theorem fault_claim_registered :
    ClaimsLocked Host.kib4 (fun _ => true) 0x1008#64
        (registerPage Host.kib4 (fun _ : Unit => 4096#64) (fun _ => true) () 0#64
          0x1000#64 {}).2
      ↔ ∀ hp, (registerPage Host.kib4 (fun _ : Unit => 4096#64) (fun _ => true) () 0#64
            0x1000#64 {}).2.lookup (Host.kib4.pageOf 0x1008#64) = some hp →
          hp.locked = true
          ∨ (hp.targetPages = [] ∧ (fun _ : U64 => true) (Host.kib4.pageOf 0x1008#64) = false) :=
  (fault_claim Host.kib4 (fun _ : Unit => 4096#64)
    (.snoc (.start rfl) (.register {} () 0#64 0x1000#64
      (Set.mem_univ (fun _ => true))))).1 0x1008#64 (fun _ => true)

/-- After the first fault the page is open, and a second fault on it is claimed as
well, with no registration in between. -/
theorem open_page_claimed :
    ¬ ∀ s : MemProtector Unit,
      (protector Host.kib4 (fun _ => 4096#64) Kernel.any).Reachable s →
      ∀ a ok, ClaimsLocked Host.kib4 ok a s := by
  intro hall
  have hok : (fun _ => true) ∈ Kernel.any := Set.mem_univ _
  have hr : (protector Host.kib4 (fun _ : Unit => 4096#64) Kernel.any).Reachable _ :=
    ⟨_, .snoc (.snoc (.start rfl) (.register {} () 0#64 0x1000#64 hok))
      (.notify _ 0x1008#64 hok)⟩
  -- the second call returns true as well
  obtain ⟨⟨hp, hl, hlock⟩, _⟩ := (hall _ hr 0x1008#64 (fun _ => true)).claimed rfl
  have hopen : some hp = some ⟨[⟨(), 0#64, 4096#64, 0x1000#64⟩], false⟩ :=
    hl.symm.trans rfl
  injection hopen with hopen
  rw [hopen] at hlock
  cases hlock

end Avp64.Psp
