/-
  Avp64.Psp.Platform.GuestStores — a guest that changes its own code.

  An engine executes code from a page that it has protected through its read pointer, and
  stores through the write pointer that it, or another core, has fetched for the page.
  The store is a write to host memory.  The protector knows the page by the host address
  of the read pointer, so what makes the store trap is that both pointers lead to the same
  memory at that moment, whatever the target has withdrawn and granted in between.

    • `guarded_of_since`    — a protected page stays guarded until it is released,
    • `guest_store_flushes` — a store to it is preceded by its flush in all engines.
-/
import Avp64.Psp.Platform.Coherence
import Avp64.Psp.Platform.Watches
import Avp64.Psp.Platform.HandlerWork

namespace Avp64.Psp

open Avp64.Lib MemProtector Platform Avp64.Psp.Core

variable {σ κ : Type} {H : Host} {O : Ocx σ} {X : OcxPointers σ} {D : SocketDmi κ}
  {clusterid : U64} {n : Nat} {t t' : Platform σ} {s s' : PointerState σ κ}
  {tr : List (PointerState σ κ × PointerEvent)}

/-! ## §1. A cluster with its pointers. -/

namespace PointerEvent

def keepsCluster : PointerEvent → Prop
  | .call e => e.keepsCluster
  | _ => True

def getsEngine : PointerEvent → Prop
  | .call e => e.getsEngine
  | _ => True

end PointerEvent

/-- A cluster that `cpu::cpu` has built; its engines may have fetched and protected pages
since their construction. -/
def pointerCluster (H : Host) (O : Ocx σ) (X : OcxPointers σ) (D : SocketDmi κ)
    (clusterid : U64) (n : Nat) : Lts (PointerState σ κ) PointerEvent where
  init s := s.platform = cpu O clusterid n
    ∧ ∃ pre, (pointerSystem H O Kernel.reliable X D).Run pre s
      ∧ ∀ x ∈ pre, x.2.pageWise O X D x.1
  step s e s' := PointerStep H O Kernel.reliable X D s e s' ∧ e.keepsCluster

/-- The run goes on from the construction. -/
theorem pointerRun_of_cluster (hr : (pointerCluster H O X D clusterid n).Run tr s)
    (hpages : ∀ x ∈ tr, x.2.pageWise O X D x.1) :
    ∃ pre, (pointerSystem H O Kernel.reliable X D).Run pre s
      ∧ ∀ x ∈ pre, x.2.pageWise O X D x.1 := by
  induction hr with
  | start h0 => exact h0.2
  | @snoc tr s s' e _ hst ih =>
      obtain ⟨pre, hpre, hall⟩ := ih (fun x hx => hpages x (List.mem_append_left _ hx))
      refine ⟨pre ++ [(s, e)], hpre.snoc hst.1, ?_⟩
      intro x hx
      rcases List.mem_append.mp hx with hx | hx
      · exact hall x hx
      · rw [List.mem_singleton.mp hx]
        exact hpages (s, e) (by simp)

theorem pointerReachable_of_cluster (hr : (pointerCluster H O X D clusterid n).Reachable s) :
    (pointerSystem H O Kernel.reliable X D).Reachable s := by
  refine hr.invariant ?_ ?_
  · rintro s ⟨_, pre, hpre, _⟩
    exact ⟨pre, hpre⟩
  · intro s e s' hs hst
    exact hs.step hst.1

theorem living_of_invalidated {start end_ : U64} {cs : List Nat} (h : Living H n t)
    (hinv : Invalidated H O Kernel.reliable start end_ cs t t') : Living H n t' := by
  induction hinv with
  | nil s => exact h
  | cons hst _ ih => exact ih (h.step hst trivial trivial)

theorem living_pointerStep {e : PointerEvent} (h : Living H n s.platform)
    (hst : PointerStep H O Kernel.reliable X D s e s') (he : e.keepsCluster)
    (hget : e.getsEngine) : Living H n s'.platform := by
  cases hst with
  | call hst => exact h.step hst he hget
  | engineRuns hc hinst _ => exact h.setState hc hinst _
  | fetch _ hc hinst _ _ _ _ => exact h.setState hc hinst _
  | withdraw _ hinv _ => exact living_of_invalidated h hinv

theorem living_of_cluster (hr : (pointerCluster H O X D clusterid n).Run tr s)
    (hget : ∀ x ∈ tr, x.2.getsEngine) : Living H n s.platform := by
  induction hr with
  | @start s h0 =>
      rw [h0.1]
      exact living_cpu H O clusterid n
  | @snoc tr s s' e _ hst ih =>
      have hs := ih (fun x hx => hget x (List.mem_append_left _ hx))
      exact living_pointerStep hs hst.1 hst.2 (hget (s, e) (by simp))

/-! ## §2. Protected pages. -/

/-- The target page `p` is stored for the host address `h`, on a locked host page. -/
def Guarded (H : Host) (O : Ocx σ) (p h : U64) (t : Platform σ) : Prop :=
  ∃ tp, Holds H t.protector tp ∧ tp.pageAddr = p ∧ tp.hostAddress = h
    ∧ tp.pageSize = O.pageSize

/-- The range covers the target page `p`. -/
def CoversPage (O : Ocx σ) (start end_ p : U64) : Prop :=
  start ≤ p ∧ p + O.pageSize - 1#64 ≤ end_

/-- The event writes to the host page of `h`, or deregisters the target page `p`. -/
def PlatformEvent.releases (H : Host) (O : Ocx σ) (p h : U64) : PlatformEvent → Prop
  | .write a _ => H.pageOf a = H.pageOf h
  | .invalidateDmi _ start end_ _ => CoversPage O start end_ p
  | _ => False

namespace PointerEvent

def releases (H : Host) (O : Ocx σ) (p h : U64) : PointerEvent → Prop
  | .call e => e.releases H O p h
  | .withdraw start end_ => CoversPage O start end_ p
  | _ => False

/-- A core has successfully protected the target page `p` at the host address `h`. -/
def protects (p h : U64) : PointerEvent → Prop
  | .call (.protectPage _ pagePtr pageAddr res) => pageAddr = p ∧ pagePtr = h ∧ res = .ok ()
  | _ => False

end PointerEvent

/-- **A page stays guarded** over every step that does not release it. -/
theorem guarded_step {p h : U64} {e : PlatformEvent} (hg : Guarded H O p h t)
    (hst : PlatformStep H O Kernel.reliable t e t') (hnot : ¬ e.releases H O p h) :
    Guarded H O p h t' := by
  obtain ⟨tp, hh, rfl, rfl, hsize⟩ := hg
  refine ⟨tp, ?_, rfl, rfl, hsize⟩
  have hpart := platformStep_protector hst
  revert hpart
  generalize t'.protector = r'
  intro hpart
  cases hpart with
  | registered hs => exact holds_step hh hs (fun h => h) rfl
  | @deregistered _ c start end_ res hs =>
      refine holds_step hh hs (fun h => h) ?_
      -- an entry that the range does not cover stays
      show coveredBy start end_ tp = false
      by_contra hcov
      have hcov : coveredBy start end_ tp = true := by simpa using hcov
      unfold coveredBy at hcov
      rw [hsize] at hcov
      simp only [Bool.and_eq_true, decide_eq_true_eq] at hcov
      exact hnot hcov
  | written actions hs => exact holds_step hh hs hnot rfl
  | quiet _ => exact hh

theorem guarded_invalidated {p h start end_ : U64} {cs : List Nat} (hg : Guarded H O p h t)
    (hinv : Invalidated H O Kernel.reliable start end_ cs t t')
    (hnot : ¬ CoversPage O start end_ p) : Guarded H O p h t' := by
  induction hinv with
  | nil s => exact hg
  | cons hst _ ih => exact ih (guarded_step hg hst hnot)

theorem guarded_pointerStep {p h : U64} {e : PointerEvent} (hg : Guarded H O p h s.platform)
    (hst : PointerStep H O Kernel.reliable X D s e s') (hnot : ¬ e.releases H O p h) :
    Guarded H O p h s'.platform := by
  cases hst with
  | call hst => exact guarded_step hg hst hnot
  | engineRuns _ _ _ => exact hg
  | fetch _ _ _ _ _ _ _ => exact hg
  | withdraw _ hinv _ => exact guarded_invalidated hg hinv hnot

/-- A successful `protect_page` guards its page. -/
theorem guarded_of_protects {p h : U64} {c : Nat}
    (hr : (protector H (fun _ => O.pageSize) Kernel.reliable).Reachable t.protector)
    (hst : PlatformStep H O Kernel.reliable t (.protectPage c h p (.ok ())) t') :
    Guarded H O p h t' := by
  obtain ⟨ptr, hrun⟩ := protector_step hr hst
  have hpart := platformStep_protector hst
  unfold Guarded
  revert hpart hrun
  generalize t'.protector = r'
  intro hrun hpart
  cases hpart with
  | registered hs =>
      obtain ⟨tp, hh, hhost, hpage⟩ := holds_of_registered hs
      obtain ⟨hp, hl, _, hmem⟩ := hh
      exact ⟨tp, ⟨hp, hl, ‹_›, hmem⟩, hpage, hhost, (provenance hrun _ hp tp hl hmem).1⟩
  | quiet hq => exact absurd hq (fun h => h)

/-- **From its protection to its release** a page is guarded. -/
theorem guarded_of_since {p h : U64} (hr : (pointerCluster H O X D clusterid n).Run tr s)
    (hsince : Since (fun x => x.2.protects p h) (fun x => x.2.releases H O p h) tr) :
    Guarded H O p h s.platform := by
  refine hr.of_since (G := fun s => Guarded H O p h s.platform) ?_ ?_ hsince
  · intro s e s' hreach hst he
    obtain ⟨hst, _⟩ := hst
    have hprot := protector_of_pointerRun (pointerReachable_of_cluster hreach)
    cases hst with
    | @call e t hst =>
        cases e with
        | protectPage c pagePtr pageAddr res =>
            obtain ⟨rfl, rfl, rfl⟩ := he
            exact guarded_of_protects hprot hst
        | _ => exact absurd he (fun h => h)
    | _ => exact absurd he (fun h => h)
  · intro s e s' _ hst hg hnot
    exact guarded_pointerStep hg hst.1 hnot

/-! ## §3. Stores. -/

/-- The engine of the core `c` carries out a store to the guest address `x` as a write to
the host address `a`. -/
def StoresTo (O : Ocx σ) (X : OcxPointers σ) (t : Platform σ) (c : Nat) (x a : U64) : Prop :=
  ∃ p q, HasPointer X t c .write p q ∧ ∃ i < O.pageSize.toNat,
    x = p + BitVec.ofNat 64 i ∧ a = q + BitVec.ofNat 64 i

/-- The write to a guarded page is trapped, and its page is flushed. -/
theorem write_of_guarded {p h a : U64} (hl : Living H n t) (hg : Guarded H O p h t)
    (ha : H.pageOf a = H.pageOf h) {log : List Effect}
    (hst : PlatformStep H O Kernel.reliable t (.write a log) t') :
    ∃ mid, log = .fault a :: mid ++ [.store a]
      ∧ ∀ c, (t.cores c).isSome = true → ∀ call ∈ pageCalls O p,
        call ∈ mid.filterMap (Effect.callOn c) := by
  obtain ⟨tp, hh, rfl, rfl, _⟩ := hg
  cases hst with
  | @write _ ok _ _ hok hd =>
      obtain ⟨hp, hlook, _, hmem, htrap, _⟩ :=
        write_of_holds hl.inv hh ha (protector_write hok a t)
      unfold Platform.write at hd
      rw [htrap] at hd
      have hw := hl.wiring.setProtector (hostWrite H ok a t.protector).2
      obtain ⟨_, mid, rfl, htells⟩ := runFault (e := .store a) rfl hw hd
      refine ⟨mid, rfl, ?_⟩
      intro c hc call hcall
      obtain ⟨inst, hinst⟩ := Option.isSome_iff_exists.mp (hl.wiring.engines c hc)
      rw [htells.each c inst hinst]
      exact List.mem_flatMap.mpr ⟨tp.pageAddr, List.mem_map_of_mem hmem, hcall⟩

/-- **A guest that changes its own code.**  In a cluster whose engines fetch, execute and
are reset, each time to a new engine, whose cores are destroyed and whose memory is
withdrawn and granted again (`pageWise`: grants are no smaller than a page, pages are
protected through pointers in use, and a withdrawal that reaches an entry covers it and
finds a core), take a target page that a core has protected at an aligned host address,
with no write to its host page and no withdrawal of it since.  A store of any core to a
byte of the page, through a write pointer, is carried out, if the target reads this byte
where it writes it and no destroyed core has an entry in the host page: it faults; then the
page is flushed and invalidated in the engines of all living cores; and then the store
takes effect. -/
theorem guest_store_flushes (H : Host) (O : Ocx σ) (X : OcxPointers σ) (D : SocketDmi κ)
    (laws : PointerLaws O X) (dlaws : SocketLaws D) (clusterid : U64) (n : Nat) {k : Nat}
    (hsize : O.pageSize.toNat = 2 ^ k) (hk : k ≤ H.pageBits)
    (hr : (pointerCluster H O X D clusterid n).Run tr s)
    (hget : ∀ x ∈ tr, x.2.getsEngine) (hpages : ∀ x ∈ tr, x.2.pageWise O X D x.1)
    {p h : U64} (hh : h.toNat % 2 ^ k = 0)
    (hsince : Since (fun x => x.2.protects p h) (fun x => x.2.releases H O p h) tr)
    {i : Nat} (hi : i < O.pageSize.toNat) {c : Nat} {a : U64}
    (hstore : StoresTo O X s.platform c (p + BitVec.ofNat 64 i) a)
    (hsame : s.mapping (.write, p + BitVec.ofNat 64 i) = s.mapping (.read, p + BitVec.ofNat 64 i))
    (hserves : s.platform.Serves H a) {ok : U64 → Bool} (hok : ok ∈ Kernel.reliable) :
    ∃ mid t, s.platform.write H O ok a = some (.fault a :: mid ++ [.store a], t)
      ∧ ∀ c, (s.platform.cores c).isSome = true → ∀ call ∈ pageCalls O p,
        call ∈ mid.filterMap (Effect.callOn c) := by
  have hg := guarded_of_since hr hsince
  obtain ⟨pre, hrun, hall⟩ := pointerRun_of_cluster hr hpages
  -- the write pointer leads where the target maps the byte now
  obtain ⟨p', q, hq, j, hj, hx, ha⟩ := hstore
  have hwrite : s.mapping (.write, p + BitVec.ofNat 64 i) = some a := by
    rw [hx, ha]
    exact pointers_sound laws dlaws (Nat.le_refl _) hrun (fun x hx => (hall x hx).grants) hq hj
  -- and so does the entry that guards the page
  have hread : s.mapping (.read, p + BitVec.ofNat 64 i) = some (h + BitVec.ofNat 64 i) := by
    obtain ⟨tp, ⟨hp, hl, _, hmem⟩, rfl, rfl, _⟩ := hg
    exact inForce_of_stored laws dlaws hrun hall tp ⟨_, hp, hl, hmem⟩ i hi
  have heq : a = h + BitVec.ofNat 64 i := by
    rw [hsame, hread] at hwrite
    injection hwrite with hwrite
    exact hwrite.symm
  have hlt : (BitVec.ofNat 64 i).toNat < 2 ^ k := by
    rw [BitVec.toNat_ofNat, ← hsize]
    exact Nat.lt_of_le_of_lt (Nat.mod_le i _) hi
  have hpage : H.pageOf a = H.pageOf h := by
    rw [heq]
    exact H.pageOf_add hk hh hlt
  have hl : Living H n s.platform := living_of_cluster hr hget
  obtain ⟨log, t, hd⟩ := write_defined (O := O) hl.wiring.engines hserves ok
  obtain ⟨mid, rfl, hcalls⟩ := write_of_guarded hl hg hpage (.write s.platform a hok hd)
  exact ⟨mid, t, hd, hcalls⟩

/-- The pointers to the second of the two pages, for both kinds of access. -/
def secondPageBoth : TlmCommand → U64 → Option U64 := fun _ p =>
  if p = 0x2000#64 then some 0x70001000#64 else none

/-- A core fetches a page, protects it, and fetches it again to write to it. -/
theorem secondPage_protected : ∃ s₁ s₂ s₃ s,
    (pointerCluster Host.kib4 pointerOcx tablePointers listDmi 0 1).Run
      [(s₁, .fetch 0 .read 0x2000#64 (oneRegion twoPages)),
        (s₂, .call (.protectPage 0 0x70001000#64 0x2000#64 (.ok ()))),
        (s₃, .fetch 0 .write 0x2000#64 (oneRegion twoPages))] s
    ∧ HasPointer tablePointers s₂.platform 0 .read 0x2000#64 0x70001000#64
    ∧ HasPointer tablePointers s.platform 0 .write 0x2000#64 0x70001000#64
    ∧ s.mapping = mapsRegion twoPages
    ∧ s.platform.Serves Host.kib4 0x70001008#64 := by
  have hok : (fun _ => true) ∈ Kernel.reliable := fun _ => rfl
  have hpre : (pointerSystem Host.kib4 pointerOcx Kernel.reliable tablePointers listDmi).Run
      [(⟨{}, fun _ => [], mapsRegion twoPages⟩, .call (.construct 0 0))] _ :=
    .snoc (.start rfl) (.call _ (.construct _ 0 0))
  have h0 : (pointerCluster Host.kib4 pointerOcx tablePointers listDmi 0 1).init _ :=
    ⟨rfl, _, hpre, by
      intro x hx
      rw [List.mem_singleton.mp hx]
      trivial⟩
  have hlearn : ∀ cmd p q, tablePointers secondPage cmd p = some q →
      tablePointers pointerOcx.create cmd p = some q
      ∨ (cmd = .read ∧ p = 0x2000#64
        ∧ (getPagePtr pointerOcx listDmi.cache .read 0x2000#64 (oneRegion twoPages) []).1
          = some q) := by
    intro cmd p q h
    unfold tablePointers secondPage at h
    split at h
    · next heq => exact .inr ⟨heq.1, heq.2, h⟩
    · cases h
  have hlearn' : ∀ cmd p q, tablePointers secondPageBoth cmd p = some q →
      tablePointers secondPage cmd p = some q
      ∨ (cmd = .write ∧ p = 0x2000#64
        ∧ (getPagePtr pointerOcx listDmi.cache .write 0x2000#64 (oneRegion twoPages)
            [twoPages]).1 = some q) := by
    intro cmd p q h
    unfold tablePointers secondPageBoth at h
    split at h
    · next heq =>
        cases cmd with
        | read => exact .inl (by rw [heq]; exact h)
        | write => exact .inr ⟨rfl, heq, h⟩
    · cases h
  have h₁ := (Lts.Run.start h0).snoc ⟨.fetch (c := 0) _ .read rfl rfl rfl
    (oneRegion_law twoPages) (oneRegion_answers twoPages) hlearn, trivial⟩
  have h₂ := h₁.snoc ⟨.call _ (.protectPage (c := 0) _ 0x70001000#64 0x2000#64 hok rfl), trivial⟩
  have h₃ := h₂.snoc ⟨.fetch (c := 0) _ .write rfl rfl rfl
    (oneRegion_law twoPages) (oneRegion_answers twoPages) hlearn', trivial⟩
  refine ⟨_, _, _, _, h₃, ⟨_, rfl, rfl⟩, ⟨_, rfl, rfl⟩, rfl, ?_⟩
  intro tp hmem
  rw [List.mem_singleton.mp hmem]
  rfl

/-- The store to the ninth byte of the page. -/
theorem guest_store_flushes_second_page :
    ∃ (s t : Platform (TlmCommand → U64 → Option U64)) (mid : List Effect),
      s.write Host.kib4 pointerOcx (fun _ => true) 0x70001008#64
          = some (.fault 0x70001008#64 :: mid ++ [.store 0x70001008#64], t)
        ∧ .tbFlushPage 0x2000#64 0x2fff#64 ∈ mid.filterMap (Effect.callOn 0) := by
  obtain ⟨s₁, s₂, s₃, s, hr, hread, hwrite, hmap, hserves⟩ := secondPage_protected
  have hpages : ∀ x ∈ [(s₁, PointerEvent.fetch 0 .read 0x2000#64 (oneRegion twoPages)),
      (s₂, .call (.protectPage 0 0x70001000#64 0x2000#64 (.ok ()))),
      (s₃, .fetch 0 .write 0x2000#64 (oneRegion twoPages))],
      x.2.pageWise pointerOcx tablePointers listDmi x.1 := by
    intro x hx
    simp only [List.mem_cons, List.not_mem_nil, or_false] at hx
    rcases hx with rfl | rfl | rfl
    · exact secondPage_grants rfl .read
    · exact hread
    · exact secondPage_grants rfl .write
  have hsince : Since (fun x => x.2.protects 0x2000#64 0x70001000#64)
      (fun x => x.2.releases Host.kib4 pointerOcx 0x2000#64 0x70001000#64)
      [(s₁, PointerEvent.fetch 0 .read 0x2000#64 (oneRegion twoPages)),
        (s₂, .call (.protectPage 0 0x70001000#64 0x2000#64 (.ok ()))),
        (s₃, .fetch 0 .write 0x2000#64 (oneRegion twoPages))] := by
    refine ⟨[_], _, [_], rfl, ⟨rfl, rfl, rfl⟩, ?_⟩
    intro y hy
    rw [List.mem_singleton.mp hy]
    exact fun h => h
  have hstore : StoresTo pointerOcx tablePointers s.platform 0
      (0x2000#64 + BitVec.ofNat 64 8) 0x70001008#64 :=
    ⟨0x2000#64, 0x70001000#64, hwrite, 8, by decide, rfl, rfl⟩
  have hget : ∀ x ∈ [(s₁, PointerEvent.fetch 0 .read 0x2000#64 (oneRegion twoPages)),
      (s₂, .call (.protectPage 0 0x70001000#64 0x2000#64 (.ok ()))),
      (s₃, .fetch 0 .write 0x2000#64 (oneRegion twoPages))], x.2.getsEngine := by
    simp [PointerEvent.getsEngine, PlatformEvent.getsEngine]
  obtain ⟨mid, t, hd, hcalls⟩ := guest_store_flushes Host.kib4 pointerOcx tablePointers listDmi
    tablePointers_laws listDmi_laws 0 1 (k := 12) rfl (Nat.le_refl 12) hr hget hpages
    (by decide) hsince (by decide) hstore (by rw [hmap]; rfl) hserves
    (show (fun _ => true) ∈ Kernel.reliable from fun _ => rfl)
  exact ⟨s.platform, t, mid, hd, hcalls 0 hwrite.isSome _ List.mem_cons_self⟩

end Avp64.Psp
