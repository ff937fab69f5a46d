/-
  Avp64.Psp.MemProtector.Sweeps — what the deregistrations remove, and in which steps.

  When `mprotect` succeeds, a deregistration sweeps every host page by itself
  (`sweep`), so its effect does not depend on the order of the walk, and two
  deregistrations in a row are one that covers what either of them covers.

    • `coveredBy_iff_within`          — the 64-bit test of the range, in exact numbers,
    • `deregister_range_exact`        — what `deregister_pages` leaves,
    • `sweep_sweep`                   — two sweeps in a row,
    • `deregister_range_eq_each`      — a range, or its pages one after the other.
-/
import Avp64.Psp.MemProtector.WriteTrap

namespace Avp64.Psp

open Avp64.Lib MemProtector

variable {C : Type} {H : Host} {pageSize : C → U64} {K : Kernel} {s s' : MemProtector C}
  {covered covered' : TargetPageData C → Bool} {hp : HostPageData C}

/-! ## §1. Ranges. -/

/-- `[start, end]` contains all bytes of the target page, in exact numbers. -/
def Within (start end_ : U64) (tp : TargetPageData C) : Prop :=
  start.toNat ≤ tp.pageAddr.toNat
    ∧ tp.pageAddr.toNat + (tp.pageSize.toNat - 1) ≤ end_.toNat

instance (start end_ : U64) (tp : TargetPageData C) : Decidable (Within start end_ tp) :=
  inferInstanceAs (Decidable (_ ∧ _))

/-- The entry has a power-of-two page size, to which its page address is aligned. -/
def TargetPageData.Aligned (tp : TargetPageData C) : Prop :=
  ∃ k < 64, tp.pageSize = BitVec.twoPow 64 k ∧ tp.pageAddr.toNat % 2 ^ k = 0

/-- For an aligned entry the 64-bit test of the source is exact, also for the page that
ends at `2 ^ 64 - 1`. -/
theorem coveredBy_iff_within {tp : TargetPageData C} (hal : tp.Aligned) (start end_ : U64) :
    coveredBy start end_ tp = true ↔ Within start end_ tp := by
  obtain ⟨k, hk, hsize, hpage⟩ := hal
  rw [coveredBy_iff hk hsize hpage]
  unfold Within RangeContains
  rw [hsize, BitVec.toNat_twoPow_of_lt hk]

/-- What `deregister_pages` should leave of a host page: the entries that the range
does not contain. -/
def outside (start end_ : U64) (hp : HostPageData C) : List (TargetPageData C) :=
  hp.targetPages.filter (fun tp => ¬ Within start end_ tp)

theorem withoutCovered_coveredBy (hal : ∀ tp ∈ hp.targetPages, tp.Aligned)
    (start end_ : U64) :
    withoutCovered (coveredBy start end_) hp = ⟨outside start end_ hp, hp.locked⟩ := by
  unfold withoutCovered outside
  congr 1
  refine List.filter_congr ?_
  intro tp hmem
  have hiff := coveredBy_iff_within (hal tp hmem) start end_
  by_cases hw : Within start end_ tp
  · simp [hw, hiff.mpr hw]
  · simp [hw, Bool.eq_false_iff.mpr (fun h => hw (hiff.mp h))]

/-- **What `deregister_pages` leaves**, when `mprotect` succeeds and the stored entries
are aligned: of each host page the entries the range does not contain, in their order;
a locked host page without such entries is writable and forgotten. -/
theorem deregister_range_exact (H : Host) (pageSize : C → U64)
    (hr : (protector H pageSize K).Reachable s)
    (hal : ∀ k hp, s.lookup k = some hp → ∀ tp ∈ hp.targetPages, tp.Aligned)
    {ok : U64 → Bool} (hok : ok ∈ Kernel.reliable) (walk : Walk s.protectedPages)
    (cpu : C) (start end_ : U64) :
    (deregisterPages H ok walk.order cpu start end_ s).1 = .ok ()
    ∧ (∀ k, s.lookup k = none →
        (deregisterPages H ok walk.order cpu start end_ s).2.lookup k = none)
    ∧ (∀ k hp, s.lookup k = some hp → hp.locked = true → outside start end_ hp = [] →
        (deregisterPages H ok walk.order cpu start end_ s).2.lookup k = none
        ∧ (deregisterPages H ok walk.order cpu start end_ s).2.readOnly k = false)
    ∧ (∀ k hp, s.lookup k = some hp → hp.locked = false ∨ outside start end_ hp ≠ [] →
        (deregisterPages H ok walk.order cpu start end_ s).2.lookup k
            = some ⟨outside start end_ hp, hp.locked⟩
        ∧ (deregisterPages H ok walk.order cpu start end_ s).2.readOnly k
            = s.readOnly k)
    ∧ (∀ k, (deregisterPages H ok walk.order cpu start end_ s).2.readOnly k = true →
        s.readOnly k = true) := by
  obtain ⟨hres, hpages⟩ :=
    deregister_reliable hok (inv_of_reachable hr) (coveredBy start end_) walk
  unfold deregisterPages
  -- whether a page is reclaimed, in the words of the range
  have hreclaims : ∀ k hp, s.lookup k = some hp →
      (reclaims (coveredBy start end_) hp = true ↔
        outside start end_ hp = [] ∧ hp.locked = true) := by
    intro k hp hl
    unfold reclaims
    rw [withoutCovered_coveredBy (hal k hp hl), Bool.and_eq_true, List.isEmpty_iff]
  refine ⟨hres, ?_, ?_, ?_, ?_⟩
  · intro k hl
    rw [(hpages k).1, hl]
    rfl
  · intro k hp hl hlock hnil
    have hr' := (hreclaims k hp hl).mpr ⟨hnil, hlock⟩
    rw [(hpages k).1, (hpages k).2, hl, Option.bind_some, Option.any_some, sweep, if_pos hr',
      hr']
    simp
  · intro k hp hl hwhy
    have hr' : ¬ reclaims (coveredBy start end_) hp = true := by
      rw [hreclaims k hp hl]
      rintro ⟨hnil, hlock⟩
      rcases hwhy with hopen | hne
      · rw [hlock] at hopen
        cases hopen
      · exact hne hnil
    rw [(hpages k).1, (hpages k).2, hl, Option.bind_some, Option.any_some, sweep, if_neg hr',
      withoutCovered_coveredBy (hal k hp hl)]
    simp [hr']
  · intro k hro
    rw [(hpages k).2] at hro
    exact (Bool.and_eq_true_iff.mp hro).1

/-- One registered page of 4 KiB. -/
def onePage : MemProtector Unit :=
  (registerPage Host.kib4 (fun _ => 4096#64) (fun _ => true) () 0#64 0x1000#64 {}).2

theorem onePage_step : Step Host.kib4 (fun _ : Unit => 4096#64) Kernel.reliable {}
    (.register () 0#64 0x1000#64 (.ok ())) onePage :=
  .register {} () 0#64 0x1000#64 (show (fun _ => true) ∈ Kernel.reliable from fun _ => rfl)

theorem onePage_reachable :
    (protector Host.kib4 (fun _ : Unit => 4096#64) Kernel.reliable).Reachable onePage :=
  ⟨_, .snoc (.start rfl) onePage_step⟩

theorem onePage_entries :
    ∀ k hp, onePage.lookup k = some hp → ∀ tp ∈ hp.targetPages,
      tp.pageSize = BitVec.twoPow 64 12 ∧ tp.pageAddr.toNat % 2 ^ 12 = 0 := by
  intro k hp hl tp hmem
  -- the entry is the one that the registration has recorded
  rcases pageStep_mem (step_page onePage_step k) hl hmem with ⟨_, hl₀, _⟩ | ⟨hsize, _, heq⟩
  · cases hl₀
  · injection heq with _ hpage _ _
    rw [← hpage]
    exact ⟨hsize, rfl⟩

/-- The range `[0, 1]` cuts the page, which stays locked. -/
theorem deregister_range_cut :
    ∃ walk : Walk onePage.protectedPages,
      (deregisterPages Host.kib4 (fun _ => true) walk.order () 0#64 1#64
        onePage).2.lookup 0x1000#64 = some ⟨[⟨(), 0#64, 4096#64, 0x1000#64⟩], true⟩ := by
  obtain ⟨walk⟩ := Walk.nonempty onePage.protectedPages
  have hal : ∀ k hp, onePage.lookup k = some hp → ∀ tp ∈ hp.targetPages, tp.Aligned :=
    fun k hp hl tp hmem => ⟨12, by decide, onePage_entries k hp hl tp hmem⟩
  have hok : (fun _ => true) ∈ Kernel.reliable := fun _ => rfl
  have hexact := deregister_range_exact Host.kib4 (fun _ : Unit => 4096#64)
    onePage_reachable hal hok walk () 0#64 1#64
  exact ⟨walk, (hexact.2.2.2.1 0x1000#64 _ rfl (.inr (by decide))).1⟩

/-! ## §2. Sweeps in a row. -/

theorem withoutCovered_withoutCovered (hp : HostPageData C) :
    withoutCovered covered' (withoutCovered covered hp)
      = withoutCovered (fun tp => covered tp || covered' tp) hp := by
  unfold withoutCovered
  simp [List.filter_filter, Bool.and_comm]

/-- **Two sweeps in a row** are one: a page the first one reclaims has nothing left for
the second. -/
theorem sweep_sweep (hp : HostPageData C) :
    (sweep covered hp).bind (sweep covered')
      = sweep (fun tp => covered tp || covered' tp) hp := by
  have hlast : reclaims covered' (withoutCovered covered hp)
      = reclaims (fun tp => covered tp || covered' tp) hp := by
    unfold reclaims
    rw [withoutCovered_withoutCovered]
    rfl
  by_cases hr : reclaims covered hp = true
  · -- an emptied list stays empty
    have hr' : reclaims (fun tp => covered tp || covered' tp) hp = true := by
      unfold reclaims at hr ⊢
      rw [Bool.and_eq_true, List.isEmpty_iff] at hr ⊢
      refine ⟨?_, hr.2⟩
      rw [← withoutCovered_withoutCovered]
      show List.filter _ (withoutCovered covered hp).targetPages = []
      rw [hr.1]
      rfl
    rw [sweep, if_pos hr, sweep, if_pos hr']
    rfl
  · rw [sweep, if_neg hr, Option.bind_some, sweep, hlast, withoutCovered_withoutCovered]
    rfl

/-- A sweep only looks at the entries of the page. -/
theorem sweep_congr (h : ∀ tp ∈ hp.targetPages, covered tp = covered' tp) :
    sweep covered hp = sweep covered' hp := by
  have hpage : withoutCovered covered hp = withoutCovered covered' hp := by
    unfold withoutCovered
    congr 1
    exact List.filter_congr (fun tp hmem => by rw [h tp hmem])
  unfold sweep reclaims
  rw [hpage]

/-- Where nothing is covered, a page that is open or has an entry stays as it is. -/
theorem sweep_nothing (hne : hp.locked = true → hp.targetPages ≠ []) :
    sweep (fun _ => false) hp = some hp := by
  have hpage : withoutCovered (fun _ => false) hp = hp := by
    unfold withoutCovered
    simp
  unfold sweep reclaims
  rw [hpage, if_neg]
  rw [Bool.and_eq_true, List.isEmpty_iff]
  intro h
  exact hne h.2 h.1

/-- The map decides the page table. -/
theorem Inv.ext (hi : Inv H s) (hi' : Inv H s') (h : ∀ k, s.lookup k = s'.lookup k) :
    s = s' := by
  have hmap : s.protectedPages = s'.protectedPages := Finmap.ext_lookup h
  have hro : s.readOnly = s'.readOnly := by
    funext k
    rw [Bool.eq_iff_iff, (hi k).readOnly_iff, (hi' k).readOnly_iff, h k]
  cases s
  cases s'
  simp only at hmap hro
  rw [hmap, hro]

/-! ## §3. One page after the other. -/

/-- `deregister_page(cpu, p)` for every `p` of the list, up to the first error. -/
inductive DeregisterEach (H : Host) (pageSize : C → U64) (cpu : C) :
    List U64 → MemProtector C → Except Error Unit → MemProtector C → Prop
  | nil (s : MemProtector C) : DeregisterEach H pageSize cpu [] s (.ok ()) s
  | raised {p : U64} {ps : List U64} {s s' : MemProtector C} {e : Error} :
      Step H pageSize Kernel.reliable s (.deregister cpu p (.error e)) s' →
      DeregisterEach H pageSize cpu (p :: ps) s (.error e) s'
  | cons {p : U64} {ps : List U64} {s s₁ s' : MemProtector C} {res : Except Error Unit} :
      Step H pageSize Kernel.reliable s (.deregister cpu p (.ok ())) s₁ →
      DeregisterEach H pageSize cpu ps s₁ res s' →
      DeregisterEach H pageSize cpu (p :: ps) s res s'

/-- One call of the sequence. -/
theorem step_deregister_sweep {cpu : C} {p : U64} {res : Except Error Unit}
    (hi : Inv H s) (hs : Step H pageSize Kernel.reliable s (.deregister cpu p res) s') :
    res = .ok () ∧ ∀ k, s'.lookup k = (s.lookup k).bind (sweep (namesPage p)) := by
  obtain ⟨ok, hok, walk, heq⟩ := step_deregister hs
  obtain ⟨hres, hpages⟩ := deregister_reliable hok hi (namesPage p) walk
  rw [← heq] at hres hpages
  exact ⟨hres, fun k => (hpages k).1⟩

/-- **The calls of a sequence sweep the pages they name**, in whatever order; without a
call nothing happens. -/
theorem deregisterEach_sweep {cpu : C} {ps : List U64} {res : Except Error Unit}
    (hi : Inv H s) (h : DeregisterEach H pageSize cpu ps s res s') :
    res = .ok () ∧ Inv H s'
      ∧ ∀ k, s'.lookup k = if ps = [] then s.lookup k
          else (s.lookup k).bind (sweep (fun tp => decide (tp.pageAddr ∈ ps))) := by
  induction h with
  | nil s => exact ⟨rfl, hi, fun _ => (if_pos rfl).symm⟩
  | raised hs => cases (step_deregister_sweep hi hs).1
  | @cons p ps s s₁ s' res hs _ ih =>
      obtain ⟨_, hfirst⟩ := step_deregister_sweep hi hs
      obtain ⟨hres, hi', hrest⟩ := ih (inv_step hi hs)
      refine ⟨hres, hi', ?_⟩
      intro k
      rw [hrest k, hfirst k, if_neg (List.cons_ne_nil p ps)]
      by_cases hps : ps = []
      · -- the last call
        rw [if_pos hps]
        refine congrArg (Option.bind (s.lookup k)) (funext fun hp => sweep_congr ?_)
        intro tp _
        rw [hps, Bool.eq_iff_iff, decide_eq_true_iff, List.mem_singleton]
        exact beq_iff_eq
      · rw [if_neg hps, Option.bind_assoc]
        refine congrArg (Option.bind (s.lookup k)) ?_
        funext hp
        rw [sweep_sweep]
        refine sweep_congr ?_
        intro tp _
        unfold namesPage
        by_cases heq : tp.pageAddr = p
        · simp [heq]
        · simp [heq]

/-- A sequence without calls leaves what a sweep that covers nothing leaves, if no
`mprotect` has failed before. -/
theorem sweep_of_reliable (hr : (protector H pageSize Kernel.reliable).Reachable s) (k : U64) :
    s.lookup k = (s.lookup k).bind (sweep (fun tp => decide (tp.pageAddr ∈ []))) := by
  cases hl : s.lookup k with
  | none => rfl
  | some hp =>
      rw [Option.bind_some]
      simpa using (sweep_nothing ((repInv_of_reachable hr).nonempty k hp hl)).symm

/-- **A range, or its pages one after the other**: when all stored entries are aligned
pages of `2 ^ b` bytes, `deregister_pages` leads to the same map and the same page table
as one `deregister_page` for every aligned page the range contains, in any order.  For a
range that contains no page, `mprotect` must not have failed before: a failed call can
leave a locked host page without entries, which any range reclaims. -/
theorem deregister_range_eq_each (H : Host) (pageSize : C → U64)
    (hr : (protector H pageSize K).Reachable s) {b : Nat} (hb : b < 64)
    (hal : ∀ k hp, s.lookup k = some hp → ∀ tp ∈ hp.targetPages,
      tp.pageSize = BitVec.twoPow 64 b ∧ tp.pageAddr.toNat % 2 ^ b = 0)
    {start end_ : U64} {ps : List U64}
    (hps : ∀ p, p ∈ ps ↔ p.toNat % 2 ^ b = 0 ∧ RangeContains b start end_ p)
    (hK : K = Kernel.reliable ∨ ps ≠ [])
    {ok : U64 → Bool} (hok : ok ∈ Kernel.reliable) (walk : Walk s.protectedPages)
    (cpu : C) {res : Except Error Unit} (heach : DeregisterEach H pageSize cpu ps s res s') :
    res = .ok ()
    ∧ deregisterPages H ok walk.order cpu start end_ s = (.ok (), s') := by
  have hi : Inv H s := inv_of_reachable hr
  obtain ⟨hres, hi', hcalls⟩ := deregisterEach_sweep hi heach
  have hsingle : ∀ k, s'.lookup k
      = (s.lookup k).bind (sweep (fun tp => decide (tp.pageAddr ∈ ps))) := by
    intro k
    rw [hcalls k]
    by_cases hnil : ps = []
    · rw [if_pos hnil, hnil]
      rcases hK with rfl | hne
      · exact sweep_of_reliable hr k
      · exact absurd hnil hne
    · rw [if_neg hnil]
  have hrange := deregister_reliable hok hi (coveredBy start end_) walk
  have hs : Step H pageSize Kernel.reliable s _
      (deregisterPages H ok walk.order cpu start end_ s).2 :=
    .deregisterRange s cpu start end_ walk hok
  refine ⟨hres, Prod.ext hrange.1 ((inv_step hi hs).ext hi' ?_)⟩
  intro k
  rw [hsingle k]
  refine (hrange.2 k).1.trans ?_
  cases hl : s.lookup k with
  | none => rfl
  | some hp =>
      -- for a stored entry both tests say the same
      refine sweep_congr ?_
      intro tp hmem
      obtain ⟨hsize, hpage⟩ := hal k hp hl tp hmem
      rw [Bool.eq_iff_iff, coveredBy_iff hb hsize hpage, decide_eq_true_iff, hps tp.pageAddr]
      simp [hpage]

/-- The range of the page, and the page. -/
theorem deregister_range_eq_one :
    ∃ (walk walk' : Walk onePage.protectedPages),
      deregisterPages Host.kib4 (fun _ => true) walk.order () 0#64 0xfff#64 onePage
        = (.ok (), (deregisterPage Host.kib4 (fun _ => true) walk'.order () 0#64 onePage).2)
      := by
  have hok : (fun _ => true) ∈ Kernel.reliable := fun _ => rfl
  obtain ⟨walk⟩ := Walk.nonempty onePage.protectedPages
  have hs : Step Host.kib4 (fun _ : Unit => 4096#64) Kernel.reliable onePage _
      (deregisterPage Host.kib4 (fun _ => true) walk.order () 0#64 onePage).2 :=
    .deregister onePage () 0#64 walk hok
  rw [(step_deregister_sweep (inv_of_reachable onePage_reachable) hs).1] at hs
  -- `0` is the only page address in the range
  have hps : ∀ p, p ∈ [0#64] ↔ p.toNat % 2 ^ 12 = 0 ∧ RangeContains 12 0#64 0xfff#64 p := by
    intro p
    unfold RangeContains
    rw [List.mem_singleton, ← BitVec.toNat_inj]
    simp only [BitVec.toNat_ofNat]
    omega
  exact ⟨walk, walk, (deregister_range_eq_each Host.kib4 (fun _ : Unit => 4096#64)
    onePage_reachable (by decide) onePage_entries hps (.inl rfl) hok walk ()
    (.cons hs (.nil _))).2⟩

end Avp64.Psp
