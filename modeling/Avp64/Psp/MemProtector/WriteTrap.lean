/-
  Avp64.Psp.MemProtector.WriteTrap — the protector is a write-trap service.

  Over runs whose clients all report one page size `2 ^ k` and pass target page
  addresses aligned to it, `mem_protector` refines `trapService`: the places are
  the host pages, the tags the target pages `(h, p)`.  A completed
  `register_page` arms the tag at its host page, a deregistration disarms the tags
  it names or contains, and an access to a host page reports the tags whose
  `update_page` is called.

    • `protectorRefines`          — the simulation,
    • `holds_of_armed`            — an armed target page is stored on a locked page,
    • `write_of_armed`            — and a write to its host page is trapped,
    • `write_trap_of_hostAligned` — no missed and no lingering trap, where all host
                                    addresses are page boundaries.
-/
import Avp64.Lib.TrapService
import Avp64.Psp.MemProtector.Protection

namespace Avp64.Psp

open Avp64.Lib MemProtector

variable {C : Type} {H : Host} {pageSize : C → U64} {s s' : MemProtector C}

/-! ## §1. The events of the service. -/

def Action.isFault : Action C → Bool
  | .fault _ => true
  | _ => false

/-- The target pages `(h, p)` whose `update_page(p)` is called in `log`. -/
def reportedTags (log : List (Action C)) : Set (U64 × U64) :=
  { t | ∃ c, .updatePage c t.2 ∈ log }

/-- `[start, end]` contains the target page `[p, p + 2 ^ k - 1]`. -/
def RangeContains (k : Nat) (start end_ p : U64) : Prop :=
  start.toNat ≤ p.toNat ∧ p.toNat + (2 ^ k - 1) ≤ end_.toNat

/-- What an event means to the service. -/
def trapLabel (H : Host) (k : Nat) : Event C → TrapEvent U64 (U64 × U64)
  | .register _ p h (.ok _) => .arm (H.pageOf h) (h, p)
  | .register _ _ _ (.error _) => .idle
  | .deregister _ p _ => .disarm { t | t.2 = p }
  | .deregisterRange _ start end_ _ => .disarm { t | RangeContains k start end_ t.2 }
  | .notify a _ _ calls => .hit (H.pageOf a) (some (reportedTags calls))
  | .write a log =>
      .hit (H.pageOf a) (if log.any Action.isFault then some (reportedTags log) else none)

/-- The client passes a target page address that is a multiple of `2 ^ k`. -/
def Event.alignedTo (k : Nat) : Event C → Prop
  | .register _ p _ _ => p.toNat % 2 ^ k = 0
  | _ => True

/-! ## §2. The refinement. -/

/-- An entry of a client with page size `2 ^ k` for an aligned page address is
covered by a range exactly when the range contains it: the 64-bit end of the page
does not wrap. -/
theorem coveredBy_iff {k : Nat} (hk : k < 64) {tp : TargetPageData C}
    (hsz : tp.pageSize = BitVec.twoPow 64 k) (hal : tp.pageAddr.toNat % 2 ^ k = 0)
    (start end_ : U64) :
    coveredBy start end_ tp = true ↔ RangeContains k start end_ tp.pageAddr := by
  unfold coveredBy RangeContains
  rw [hsz, Bool.and_eq_true, decide_eq_true_iff, decide_eq_true_iff, BitVec.le_def,
    BitVec.le_def, toNat_add_twoPow_sub_one hk hal]

/-- The armed tags are stored under their host page, which is locked. -/
def TrapRel (H : Host) (k : Nat) (A : Set (U64 × U64 × U64)) (s : MemProtector C) :
    Prop :=
  ∀ x h p, (x, h, p) ∈ A → x = H.pageOf h ∧ p.toNat % 2 ^ k = 0
    ∧ ∃ tp, Holds H s tp ∧ tp.hostAddress = h ∧ tp.pageAddr = p
      ∧ tp.pageSize = BitVec.twoPow 64 k

/-- The calls for a stored entry report its tag. -/
theorem mem_reportedTags {hp : HostPageData C} {tp : TargetPageData C}
    (hmem : tp ∈ hp.targetPages) {log : List (Action C)}
    (hlog : ∀ x ∈ updateCalls hp, x ∈ log) (h : U64) :
    (h, tp.pageAddr) ∈ reportedTags log :=
  ⟨tp.c, hlog _ (List.mem_map_of_mem hmem)⟩

/-- What a refinement step must keep: a tag that the event does not clear. -/
theorem trapRel_kept {k : Nat} (hk : k < 64) {K : Kernel} {e : Event C}
    {A : Set (U64 × U64 × U64)} (hrel : TrapRel H k A s)
    (hs : Step H pageSize K s e s') {x h p : U64} (hA : (x, h, p) ∈ A)
    (hclear : ¬ (trapLabel H k e).clears x (h, p)) :
    x = H.pageOf h ∧ p.toNat % 2 ^ k = 0
    ∧ ∃ tp, Holds H s' tp ∧ tp.hostAddress = h ∧ tp.pageAddr = p
      ∧ tp.pageSize = BitVec.twoPow 64 k := by
  obtain ⟨hx, hal, tp, hh, hhost, hpage, hsz⟩ := hrel x h p hA
  refine ⟨hx, hal, tp, holds_step hh hs ?_ ?_, hhost, hpage, hsz⟩
  · -- the event does not reach the host page
    intro hhit
    rw [hhost, ← hx] at hhit
    cases e with
    | notify a _ _ _ => exact hclear hhit
    | write a _ => exact hclear hhit
    | _ => exact hhit
  · -- the event does not cover the entry
    cases e with
    | deregister cpu q res =>
        have hne : tp.pageAddr ≠ q := fun h => hclear (hpage.symm.trans h)
        simpa [Event.covered, namesPage] using hne
    | deregisterRange cpu start end_ res =>
        have hnc : ¬ coveredBy start end_ tp = true := by
          rw [coveredBy_iff hk hsz (by rw [hpage]; exact hal), hpage]
          exact hclear
        simpa [Event.covered] using hnc
    | _ => rfl

/-- **`mem_protector` refines the write-trap service.** -/
def protectorRefines (H : Host) {k : Nat} (hk : k < 64) {pageSize : C → U64}
    (hsize : ∀ c, pageSize c = BitVec.twoPow 64 k) :
    ((protector H pageSize Kernel.reliable).restrict (Event.alignedTo k)).Simulation
      (trapService U64 (U64 × U64)) where
  label _ e := trapLabel H k e
  rel := TrapRel H k
  init := by
    intro s h0
    exact ⟨∅, rfl, fun x h p hA => absurd hA (by simp)⟩
  step := by
    intro A s e s' hreach hrel hst
    obtain ⟨hs, hal⟩ := hst
    have hreach := hreach.of_restrict
    have hi : Inv H s := inv_of_reachable hreach
    have hi' : Inv H s' := inv_step hi hs
    -- in every case the pairs that stay armed are kept by `trapRel_kept`
    have hkept := fun {x h p} => trapRel_kept (x := x) (h := h) (p := p) hk hrel hs
    cases e with
    | register core p h res =>
        cases res with
        | error err =>
            exact ⟨A, .idle A, fun x h' p' hA => hkept hA (fun h => h)⟩
        | ok u =>
            refine ⟨_, .arm A (H.pageOf h) (h, p), ?_⟩
            intro x h' p' hA
            rcases Set.mem_insert_iff.mp hA with heq | hA
            · simp only [Prod.mk.injEq] at heq
              obtain ⟨rfl, rfl, rfl⟩ := heq
              -- the new pair is the entry the registration left; its size is the clients'
              obtain ⟨tp, hh, hhost, hpage⟩ := holds_of_registered hs
              have hsz : tp.pageSize = BitVec.twoPow 64 k := by
                obtain ⟨hp, hl, _, hmem⟩ := hh
                obtain ⟨tr, hr⟩ := hreach.step hs
                rw [(provenance hr _ hp tp hl hmem).1, hsize]
              exact ⟨rfl, hal, tp, hh, hhost, hpage, hsz⟩
            · exact hkept hA (fun h => h)
    | deregister cpu p res =>
        exact ⟨_, .disarm A _, fun x h' p' hA => hkept hA.1 hA.2⟩
    | deregisterRange cpu start end_ res =>
        exact ⟨_, .disarm A _, fun x h' p' hA => hkept hA.1 hA.2⟩
    | notify a granted res calls =>
        refine ⟨_, .hit A (H.pageOf a) _ ?_, fun x h' p' hA =>
          hkept hA.1 (fun h => hA.2 h.symm)⟩
        -- every armed tag of the page is stored in it, so it is among the calls
        intro t hA
        obtain ⟨hx, _, tp, ⟨hp, hl, _, hmem⟩, hhost, hpage, _⟩ := hrel _ t.1 t.2 hA
        rw [hhost, ← hx] at hl
        obtain ⟨ok, _, _, heq⟩ := step_notify hs
        have hcalls : calls = updateCalls hp := by
          rw [notifyPage_of_lookup hl] at heq
          split at heq <;> exact (Prod.mk.inj (Prod.mk.inj heq).2).1
        refine ⟨reportedTags calls, rfl, ?_⟩
        rw [show t = (t.1, tp.pageAddr) by rw [hpage]]
        exact mem_reportedTags hmem (by rw [hcalls]; exact fun _ h => h) t.1
    | write a log =>
        refine ⟨_, .hit A (H.pageOf a) _ ?_, fun x h' p' hA =>
          hkept hA.1 (fun h => hA.2 h.symm)⟩
        intro t hA
        obtain ⟨hx, _, tp, hh, hhost, hpage, _⟩ := hrel _ t.1 t.2 hA
        -- a write to a locked page is trapped, and calls every stored client
        obtain ⟨hp, _, _, hmem, hlog, _⟩ :=
          write_of_holds hi hh (by rw [hhost]; exact hx) hs
        refine ⟨reportedTags log, ?_, ?_⟩
        · rw [hlog]
          simp [Action.isFault]
        · rw [show t = (t.1, tp.pageAddr) by rw [hpage]]
          refine mem_reportedTags hmem ?_ t.1
          intro x hx
          rw [hlog]
          simp [hx]

/-! ## §3. Armed target pages. -/

/-- The event ends the watch on the target page `(h, p)`: an access to the host
page of `h`, or a deregistration that names or contains `p`. -/
def Event.disarms (H : Host) (k : Nat) (h p : U64) : Event C → Prop
  | .deregister _ q _ => q = p
  | .deregisterRange _ start end_ _ => RangeContains k start end_ p
  | .notify a _ _ _ => H.pageOf a = H.pageOf h
  | .write a _ => H.pageOf a = H.pageOf h
  | _ => False

/-- The target page `(h, p)` is armed after the steps `tr`. -/
def Armed (H : Host) (k : Nat) (tr : List (MemProtector C × Event C)) (h p : U64) :
    Prop :=
  Since (fun x => x.2.registered p h) (fun x => x.2.disarms H k h p) tr

theorem trapLabel_of_registered {k : Nat} {e : Event C} {h p : U64}
    (he : e.registered p h) : trapLabel H k e = .arm (H.pageOf h) (h, p) := by
  cases e with
  | register core q g res =>
      obtain ⟨rfl, rfl, rfl⟩ := he
      rfl
  | _ => exact absurd he (fun h => h)

theorem disarms_of_clears {k : Nat} {e : Event C} {h p : U64}
    (he : (trapLabel H k e).clears (H.pageOf h) (h, p)) : e.disarms H k h p := by
  cases e with
  | register core q g res => cases res <;> exact absurd he (fun h => h)
  | deregister cpu q res => exact Eq.symm he
  | deregisterRange cpu start end_ res => exact he
  | notify a granted res calls => exact he
  | write a log => exact he

section

variable {k : Nat} {tr : List (MemProtector C × Event C)}

/-- **An armed target page is stored on a locked host page**: the service holds it
armed, and the protector refines the service. -/
theorem holds_of_armed (hk : k < 64) (hsize : ∀ c, pageSize c = BitVec.twoPow 64 k)
    (hr : (protector H pageSize Kernel.reliable).Run tr s)
    (hal : ∀ x ∈ tr, x.2.alignedTo k) {h p : U64} (harm : Armed H k tr h p) :
    ∃ tp, Holds H s tp ∧ tp.hostAddress = h ∧ tp.pageAddr = p := by
  -- the run of the service that matches this one
  obtain ⟨atr, A, hA, hrel, hmap⟩ := (hr.restrict hal).simulate (protectorRefines H hk hsize)
  have hmem : (H.pageOf h, h, p) ∈ A := by
    rw [trapService_mem_iff hA, hmap, since_map]
    refine harm.mono ?_ ?_
    · intro x _ hx
      exact trapLabel_of_registered hx
    · intro x _ hx
      exact disarms_of_clears hx
  obtain ⟨_, _, tp, hh, hhost, hpage, _⟩ := hrel _ _ _ hmem
  exact ⟨tp, hh, hhost, hpage⟩

/-- The entry of a host address is the only one in its list. -/
theorem split_of_distinct {l : List (TargetPageData C)} {tp : TargetPageData C}
    (hnd : (l.map (·.hostAddress)).Nodup) (hmem : tp ∈ l) :
    ∃ l₁ l₂, l = l₁ ++ tp :: l₂ ∧ ∀ tp' ∈ l₁ ++ l₂, tp'.hostAddress ≠ tp.hostAddress := by
  obtain ⟨l₁, l₂, rfl⟩ := List.append_of_mem hmem
  refine ⟨l₁, l₂, rfl, ?_⟩
  intro tp' hmem' heq
  rw [List.map_append, List.map_cons, List.nodup_middle, List.nodup_cons,
    ← List.map_append] at hnd
  exact hnd.1 (heq ▸ List.mem_map_of_mem hmem')

/-- A write into the host page of an armed target page `(h, p)` is trapped, calls
`update_page(p)` once for the one stored entry of `h`, and is then let through. -/
theorem write_of_armed (hk : k < 64) (hsize : ∀ c, pageSize c = BitVec.twoPow 64 k)
    (hr : (protector H pageSize Kernel.reliable).Run tr s)
    (hal : ∀ x ∈ tr, x.2.alignedTo k) {h p a : U64} (harm : Armed H k tr h p)
    (ha : H.pageOf a = H.pageOf h) {log : List (Action C)}
    (hs : Step H pageSize Kernel.reliable s (.write a log) s') :
    ∃ l₁ tp l₂, s.lookup (H.pageOf h) = some ⟨l₁ ++ tp :: l₂, true⟩
      ∧ tp.hostAddress = h ∧ tp.pageAddr = p
      ∧ (∀ tp' ∈ l₁ ++ l₂, tp'.hostAddress ≠ h)
      ∧ log = .fault a :: updateCalls ⟨l₁ ++ tp :: l₂, true⟩ ++ [.store a] := by
  have hi : Inv H s := inv_of_reachable ⟨tr, hr⟩
  obtain ⟨tp, hh, rfl, rfl⟩ := holds_of_armed hk hsize hr hal harm
  obtain ⟨hp, hl, hlock, hmem, hlog, _⟩ := write_of_holds hi hh ha hs
  obtain ⟨l₁, l₂, hsplit, hother⟩ := split_of_distinct ((hi _).distinct hp hl) hmem
  -- no other entry of the list has this host address
  have hpage : hp = ⟨l₁ ++ tp :: l₂, true⟩ := by rw [← hsplit, ← hlock]
  rw [ha] at hl
  exact ⟨l₁, tp, l₂, hpage ▸ hl, rfl, rfl, hother, hpage ▸ hlog⟩

/-- An armed target page was registered, so it is no larger than a host page. -/
theorem le_pageBits_of_armed (hk : k < 64) (hsize : ∀ c, pageSize c = BitVec.twoPow 64 k)
    (hr : (protector H pageSize Kernel.reliable).Run tr s) {h p : U64}
    (harm : Armed H k tr h p) : k ≤ H.pageBits := by
  obtain ⟨⟨t, e⟩, hx, hreg⟩ := harm.exists_mem
  obtain ⟨_, t', hst⟩ := hr.step_of_mem hx
  cases e with
  | register core q g res =>
      obtain ⟨rfl, rfl, rfl⟩ := hreg
      have hle := pageSize_le_of_registered hst
      rw [hsize, Host.getPageSize, BitVec.le_def, BitVec.toNat_twoPow_of_lt hk,
        BitVec.toNat_twoPow_of_lt H.pageBits_lt] at hle
      exact (Nat.pow_le_pow_iff_right (by decide)).mp hle
  | _ => exact absurd hreg (fun h => h)

/-- An access opens a host page, and only a registration closes it again. -/
theorem write_of_hit (hr : (protector H pageSize Kernel.reliable).Run tr s) {a : U64}
    (hsince : Since (fun x => x.2.hits H (H.pageOf a))
      (fun x => x.2.registeredIn H (H.pageOf a)) tr) {log : List (Action C)}
    (hs : Step H pageSize Kernel.reliable s (.write a log) s') : log = [.store a] := by
  have hro : s.readOnly (H.pageOf a) = false := by
    refine hr.of_since (G := fun t => t.readOnly (H.pageOf a) = false) ?_ ?_ hsince
    · intro t e t' ht hst hhit
      exact writable_of_hits (inv_of_reachable ht) hst hhit
    · intro t e t' _ hst hro hnreg
      exact readOnly_step hst hro hnreg
  exact (write_of_writable hro hs).1

/-! ## §4. Runs with host addresses on page boundaries. -/

/-- The host address of a registration is the first address of its host page. -/
def Event.hostAligned (H : Host) : Event C → Prop
  | .register _ _ h _ => H.pageOf h = h
  | _ => True

theorem hostAligned_of_armed (hhost : ∀ x ∈ tr, x.2.hostAligned H) {h p : U64}
    (harm : Armed H k tr h p) : H.pageOf h = h := by
  obtain ⟨x, hx, hreg⟩ := harm.exists_mem
  have hal := hhost x hx
  revert hal hreg
  cases x.2 with
  | register core q g res =>
      rintro ⟨rfl, rfl, rfl⟩ hal
      exact hal
  | _ => exact fun hreg => absurd hreg (fun h => h)

/-- **No missed and no lingering trap.**  In a run whose clients report the page size
`2 ^ k` and pass aligned target page addresses, and host addresses that are the first of
their host page:

a write to a byte of `[h, h + 2 ^ k)`, where the target page `(h, p)` is armed, traps,
calls `update_page(p)` once for the one stored entry of `h`, whose client completed
`register_page(c, p, h)` before, and is then let through;

after an access to a host page no write to it traps until a `register_page` completes
there. -/
theorem write_trap_of_hostAligned (H : Host) (hk : k < 64) {pageSize : C → U64}
    (hsize : ∀ c, pageSize c = BitVec.twoPow 64 k)
    (hr : (protector H pageSize Kernel.reliable).Run tr s)
    (hal : ∀ x ∈ tr, x.2.alignedTo k) (hhost : ∀ x ∈ tr, x.2.hostAligned H) :
    (∀ h p, Armed H k tr h p → ∀ i : U64, i.toNat < 2 ^ k → ∀ log s',
        Step H pageSize Kernel.reliable s (.write (h + i) log) s' →
        ∃ l₁ tp l₂, s.lookup h = some ⟨l₁ ++ tp :: l₂, true⟩
          ∧ tp.hostAddress = h ∧ tp.pageAddr = p
          ∧ (∀ tp' ∈ l₁ ++ l₂, tp'.hostAddress ≠ h)
          ∧ (∃ x ∈ tr, x.2 = .register tp.c p h (.ok ()))
          ∧ log = .fault (h + i) :: updateCalls ⟨l₁ ++ tp :: l₂, true⟩ ++ [.store (h + i)])
    ∧ (∀ page, Since (fun x => x.2.hits H page) (fun x => x.2.registeredIn H page) tr →
        ∀ a, H.pageOf a = page → ∀ log s',
        Step H pageSize Kernel.reliable s (.write a log) s' → log = [.store a]) := by
  refine ⟨?_, ?_⟩
  · intro h p harm i hlt log s' hs
    have hb := hostAligned_of_armed hhost harm
    -- the whole target page lies in the host page
    have hpage : H.pageOf (h + i) = H.pageOf h :=
      H.pageOf_add (le_pageBits_of_armed hk hsize hr harm) (H.aligned_of_pageOf_eq
        (le_pageBits_of_armed hk hsize hr harm) hb) hlt
    obtain ⟨l₁, tp, l₂, hl, rfl, rfl, hother, hlog⟩ :=
      write_of_armed hk hsize hr hal harm hpage hs
    have hreg := provenance_completed hr _ _ tp hl (by simp) hb
    exact ⟨l₁, tp, l₂, hb ▸ hl, rfl, rfl, hother, hreg, hlog⟩
  · rintro page hsince a rfl log s' hs
    exact write_of_hit hr hsince hs

end

/-- One client, one page of 4 KiB: the write to its ninth byte. -/
theorem write_trap_of_hostAligned_page :
    ∃ l₁ tp l₂, (registerPage Host.kib4 (fun _ : Unit => 4096#64) (fun _ => true) ()
        0#64 0x1000#64 {}).2.lookup 0x1000#64 = some ⟨l₁ ++ tp :: l₂, true⟩
      ∧ (hostWrite Host.kib4 (fun _ => true) 0x1008#64
          (registerPage Host.kib4 (fun _ : Unit => 4096#64) (fun _ => true) ()
            0#64 0x1000#64 {}).2).1
        = .fault 0x1008#64 :: updateCalls ⟨l₁ ++ tp :: l₂, true⟩
            ++ [.store 0x1008#64] := by
  have hok : (fun _ => true) ∈ Kernel.reliable := fun _ => rfl
  have hr : (protector Host.kib4 (fun _ : Unit => 4096#64) Kernel.reliable).Run _ _ :=
    .snoc (.start rfl) (.register _ () 0#64 0x1000#64 hok)
  obtain ⟨l₁, tp, l₂, hl, _, _, _, _, hlog⟩ :=
    (write_trap_of_hostAligned (k := 12) Host.kib4 (by decide) (fun _ => rfl) hr
      (by simp [Event.alignedTo]) (by simp [Event.hostAligned]; decide)).1 0x1000#64 0#64
      (since_snoc.mpr (.inl ⟨rfl, rfl, rfl⟩)) 8#64 (by decide) _ _
      (.write _ 0x1008#64 hok)
  exact ⟨l₁, tp, l₂, hl, hlog⟩

/-- The bytes of `[h, h + 2 ^ k)` beyond the host page of `h` are not watched.
`register_page(p, 0x1800)` is refused for its host address, but its entry stays;
once another page locks the host page, the same call returns early, and the byte
at `0x2000` lies in the next host page. -/
theorem write_beyond_host_page_not_trapped :
    ¬ ∀ (tr : List (MemProtector Unit × Event Unit)) (s : MemProtector Unit),
      (protector Host.kib4 (fun _ => 4096#64) Kernel.reliable).Run tr s →
      (∀ x ∈ tr, x.2.alignedTo 12) → ∀ h p, Armed Host.kib4 12 tr h p →
      ∀ i : U64, i.toNat < 2 ^ 12 → ∀ log s',
        Step Host.kib4 (fun _ => 4096#64) Kernel.reliable s (.write (h + i) log) s' →
        .fault (h + i) ∈ log := by
  intro hall
  have hok : (fun _ => true) ∈ Kernel.reliable := fun _ => rfl
  have hr : (protector Host.kib4 (fun _ : Unit => 4096#64) Kernel.reliable).Run _ _ :=
    .snoc (.snoc (.snoc (.start rfl) (.register _ () 0#64 0x1800#64 hok))
      (.register _ () 0x1000#64 0x1000#64 hok)) (.register _ () 0#64 0x1800#64 hok)
  have hfault := hall _ _ hr (by simp [Event.alignedTo]) 0x1800#64 0#64
    (since_snoc.mpr (.inl ⟨rfl, rfl, rfl⟩)) 0x800#64 (by decide) [.store 0x2000#64] _
    (.write _ 0x2000#64 hok)
  simp at hfault

end Avp64.Psp
