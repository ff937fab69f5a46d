/-
  Avp64.Psp.Platform.Pointers — the host pointers that the cores hold.

  A core keeps the regions that were granted to it in the DMI cache of its socket, and
  its engine keeps pointers to pages.  When the target withdraws a range, `invalidate_dmi`
  takes it out of the cache, then has the engine drop its pointers.  The accesses that go
  through a pointer ask nobody.

    • `views_step`       — cache and engine are views of what the target maps,
    • `pointers_sound`   — a pointer leads to the bytes that the target maps there now,
    • `pointers_in_force` — for every run of fetches, withdrawals, resets and writes.
-/
import Avp64.Lib.Views
import Avp64.Psp.Core.PagePtr
import Avp64.Psp.Platform.Instances
import Avp64.Psp.Platform.Replay

namespace Avp64.Psp

open Avp64.Lib MemProtector Platform Avp64.Psp.Core

variable {σ κ : Type} {H : Host} {O : Ocx σ} {K : Kernel}

/-! ## §1. Pointers of the engine, regions of the cache. -/

/-- The pointer that an engine holds to a page, for a kind of access. -/
abbrev OcxPointers (σ : Type) := σ → TlmCommand → U64 → Option U64

/-- What is relied on about the pointers of the engine. -/
structure PointerLaws (O : Ocx σ) (X : OcxPointers σ) : Prop where
  created : ∀ cmd p, X O.create cmd p = none
  /-- No call brings a pointer. -/
  call : ∀ {call st cmd p q}, X (O.call call st).2 cmd p = some q → X st cmd p = some q
  /-- `invalidate_page_ptrs` drops the pointers to all pages that the range reaches. -/
  invalidated : ∀ {start end_ st cmd p q},
    X (O.call (.invalidatePagePtrs start end_) st).2 cmd p = some q →
    ∀ i < O.pageSize.toNat,
      ¬ (start ≤ p + BitVec.ofNat 64 i ∧ p + BitVec.ofNat 64 i ≤ end_)
  /-- What the engine executes between its calls of `get_page_ptr` brings none. -/
  step : ∀ {st st'}, O.step st st' → ∀ {cmd p q}, X st' cmd p = some q → X st cmd p = some q

/-- The address `a` is in the region, for accesses of the kind `cmd`. -/
def TlmDmi.maps (dmi : TlmDmi) (cmd : TlmCommand) (a : U64) : Prop :=
  dmi.allows cmd = true ∧ dmi.startAddress ≤ a ∧ a ≤ dmi.endAddress

/-- The DMI cache of a socket; `unmap` is what `processor::invalidate_dmi` of `vcml`
does to it. -/
structure SocketDmi (κ : Type) where
  cache : DmiCache κ
  entries : κ → Set TlmDmi
  empty : κ
  unmap : U64 → U64 → κ → κ

/-- What is relied on about the cache. -/
structure SocketLaws (D : SocketDmi κ) : Prop where
  cache : CacheLaws D.cache D.entries TlmDmi.serves DmiLookup.aligned
  empty : D.entries D.empty = ∅
  /-- What is left of a region lies outside of the range and maps as before. -/
  unmapped : ∀ {start end_ k dmi cmd a}, dmi ∈ D.entries (D.unmap start end_ k) →
    dmi.maps cmd a → ¬ (start ≤ a ∧ a ≤ end_)
      ∧ ∃ dmi' ∈ D.entries k, dmi'.maps cmd a ∧ dmi'.pagePtr a = dmi.pagePtr a

/-! ## §2. Fetches and withdrawals. -/

/-- For an access and an address of the guest, the host address it goes to. -/
abbrev Mapping := TlmCommand × U64 → Option U64

structure PointerState (σ κ : Type) where
  platform : Platform σ
  caches : Nat → κ
  mapping : Mapping

inductive PointerEvent where
  | call (e : PlatformEvent)
  | engineRuns (c : Nat)
  /-- The engine of the core `c` asks for a page; `target` answers a miss. -/
  | fetch (c : Nat) (cmd : TlmCommand) (p : U64) (target : TlmPayload → Option TlmDmi)
  /-- The target withdraws the addresses from `start` to `end_`. -/
  | withdraw (start end_ : U64)

/-- What the target grants is what it maps. -/
def Answers (mapping : Mapping) (target : TlmPayload → Option TlmDmi) : Prop :=
  ∀ tx dmi, target tx = some dmi → ∀ cmd a, dmi.maps cmd a →
    mapping (cmd, a) = some (dmi.pagePtr a)

/-- `invalidate_dmi(start, end)` of one core after the other. -/
inductive Invalidated (H : Host) (O : Ocx σ) (K : Kernel) (start end_ : U64) :
    List Nat → Platform σ → Platform σ → Prop
  | nil (s : Platform σ) : Invalidated H O K start end_ [] s s
  | cons {c : Nat} {cs : List Nat} {s t s' : Platform σ} :
      PlatformStep H O K s (.invalidateDmi c start end_ (.ok ())) t →
      Invalidated H O K start end_ cs t s' → Invalidated H O K start end_ (c :: cs) s s'

/-- The caches after a call: a new core has an empty one, and `invalidate_dmi` begins
with the cache. -/
def cachesAfter (D : SocketDmi κ) (s : PointerState σ κ) : PlatformEvent → Nat → κ
  | .construct _ _ => Function.update s.caches s.platform.nextCore D.empty
  | .invalidateDmi c start end_ _ =>
      Function.update s.caches c (D.unmap start end_ (s.caches c))
  | _ => s.caches

inductive PointerStep (H : Host) (O : Ocx σ) (K : Kernel) (X : OcxPointers σ)
    (D : SocketDmi κ) : PointerState σ κ → PointerEvent → PointerState σ κ → Prop
  | call (s : PointerState σ κ) {e : PlatformEvent} {t : Platform σ} :
      PlatformStep H O K s.platform e t →
      PointerStep H O K X D s (.call e) ⟨t, cachesAfter D s e, s.mapping⟩
  | engineRuns (s : PointerState σ κ) {c : Nat} {core : Core σ} {inst : OcxInstance σ}
      {st : σ} : s.platform.cores c = some core → core.mCore = some inst →
      O.step inst.state st →
      PointerStep H O K X D s (.engineRuns c)
        ⟨s.platform.setCore c (some { core with mCore := some ⟨inst.id, st⟩ }), s.caches,
          s.mapping⟩
  /-- The engine keeps the pointer it gets. -/
  | fetch (s : PointerState σ κ) {c : Nat} {core : Core σ} {inst : OcxInstance σ}
      (cmd : TlmCommand) {p : U64} {target : TlmPayload → Option TlmDmi} {st : σ} :
      s.platform.cores c = some core → core.mCore = some inst →
      p.toNat % O.pageSize.toNat = 0 → TargetLaw target → Answers s.mapping target →
      (∀ cmd' p' q, X st cmd' p' = some q → X inst.state cmd' p' = some q
        ∨ (cmd' = cmd ∧ p' = p
          ∧ (getPagePtr O D.cache cmd p target (s.caches c)).1 = some q)) →
      PointerStep H O K X D s (.fetch c cmd p target)
        ⟨s.platform.setCore c (some { core with mCore := some ⟨inst.id, st⟩ }),
          Function.update s.caches c (getPagePtr O D.cache cmd p target (s.caches c)).2,
          s.mapping⟩
  /-- All cores are told before anything else happens. -/
  | withdraw (s : PointerState σ κ) {start end_ : U64} {cs : List Nat} {t : Platform σ}
      {mapping : Mapping} : (∀ c, (s.platform.cores c).isSome = true → c ∈ cs) →
      Invalidated H O K start end_ cs s.platform t →
      (∀ cmd a, ¬ (start ≤ a ∧ a ≤ end_) → mapping (cmd, a) = s.mapping (cmd, a)) →
      PointerStep H O K X D s (.withdraw start end_)
        ⟨t, fun c => if c ∈ cs then D.unmap start end_ (s.caches c) else s.caches c, mapping⟩

/-- No cores at the start, and any mapping. -/
def pointerSystem (H : Host) (O : Ocx σ) (K : Kernel) (X : OcxPointers σ)
    (D : SocketDmi κ) : Lts (PointerState σ κ) PointerEvent where
  init s := s.platform = {}
  step := PointerStep H O K X D

/-! ## §3. Pointers over the steps of the platform. -/

variable {X : OcxPointers σ} {D : SocketDmi κ} {t t' : Platform σ} {e : PlatformEvent}

theorem pointers_initialised (laws : PointerLaws O X) {st : σ} (h : Core.Initialised O st) :
    ∀ cmd p q, X st cmd p ≠ some q := by
  induction h with
  | opened procId coreId =>
      intro cmd p q hq
      have hold := laws.call hq
      rw [laws.created cmd p] at hold
      cases hold
  | written regid value _ ih =>
      intro cmd p q hq
      exact ih cmd p q (laws.call hq)

/-- The engine of the core `c` holds the pointer `q` to the page `p`. -/
def HasPointer (X : OcxPointers σ) (s : Platform σ) (c : Nat) (cmd : TlmCommand) (p q : U64) :
    Prop :=
  ∃ st, s.engineState c = some st ∧ X st cmd p = some q

/-- **No step of the platform brings a pointer.** -/
theorem pointer_of_step (laws : PointerLaws O X) (hst : PlatformStep H O K t e t')
    {c : Nat} {cmd : TlmCommand} {p q : U64} (h : HasPointer X t' c cmd p q) :
    HasPointer X t c cmd p q := by
  by_contra hno
  have hnot : t.EngineHas (fun st => X st cmd p ≠ some q) c :=
    fun st hst' hq => hno ⟨st, hst', hq⟩
  have hafter := engines_step (fun st hin => pointers_initialised laws hin cmd p q)
    (fun call st hP hq => hP (laws.call hq)) hst hnot
  obtain ⟨st, hst', hq⟩ := h
  exact hafter st hst' hq

/-- A platform that has not run yet holds no pointers. -/
theorem no_pointer_of_reachable (laws : PointerLaws O X) (hr : (platform H O K).Reachable t) :
    ∀ c cmd p q, ¬ HasPointer X t c cmd p q := by
  refine hr.invariant (I := fun t => ∀ c cmd p q, ¬ HasPointer X t c cmd p q) ?_ ?_
  · rintro t h0 c cmd p q ⟨st, hst, _⟩
    rw [show t = {} from h0] at hst
    cases hst
  · intro t e t' hno hst c cmd p q hq
    exact hno c cmd p q (pointer_of_step laws hst hq)

/-- After `invalidate_dmi` the engine of the core holds no pointer to a page in reach. -/
theorem not_reached_of_invalidateDmi (laws : PointerLaws O X) {c : Nat} {start end_ : U64}
    {res : Except Error Unit} (hst : PlatformStep H O K t (.invalidateDmi c start end_ res) t')
    {cmd : TlmCommand} {p q : U64} (h : HasPointer X t' c cmd p q) :
    ∀ i < O.pageSize.toNat,
      ¬ (start ≤ p + BitVec.ofNat 64 i ∧ p + BitVec.ofNat 64 i ≤ end_) := by
  cases hst with
  | invalidateDmi _ _ walk _ hd =>
      obtain ⟨s₁, h₁, rfl⟩ := invalidateDmi_eq_some hd
      obtain ⟨st, hst', hq⟩ := h
      obtain ⟨i, hi⟩ := Option.isSome_iff_exists.mp (engineCall_some h₁).1
      obtain ⟨s₂, hs₂, _⟩ := engineCall_spec (O := O) hi (.invalidatePagePtrs start end_)
      rw [hs₂] at h₁
      simp only [Option.some.injEq, Prod.mk.injEq] at h₁
      obtain ⟨rfl, rfl⟩ := h₁
      -- the state of the engine is what the call has left
      have hstate : s₂.engineState c = some st := hst'
      rw [engineCall_replayed hs₂ c] at hstate
      obtain ⟨st₀, _, rfl⟩ := Option.map_eq_some_iff.mp hstate
      rw [replay_cons_self, replay_nil] at hq
      exact laws.invalidated hq

theorem HasPointer.isSome {c : Nat} {cmd : TlmCommand} {p q : U64}
    (h : HasPointer X t c cmd p q) : (t.cores c).isSome = true := by
  obtain ⟨st, hst, _⟩ := h
  obtain ⟨core, hc, _⟩ := Option.bind_eq_some_iff.mp hst
  rw [hc]
  rfl

/-- Told one after the other, all cores of the list have dropped what is in reach. -/
theorem not_reached_of_invalidated (laws : PointerLaws O X) {start end_ : U64}
    {cs : List Nat} (h : Invalidated H O K start end_ cs t t') {c : Nat}
    {cmd : TlmCommand} {p q : U64} (hq : HasPointer X t' c cmd p q) :
    HasPointer X t c cmd p q ∧ (c ∈ cs → ∀ i < O.pageSize.toNat,
      ¬ (start ≤ p + BitVec.ofNat 64 i ∧ p + BitVec.ofNat 64 i ≤ end_)) := by
  induction h with
  | nil s => exact ⟨hq, fun hmem => by cases hmem⟩
  | @cons c' cs s u s' hst hrest ih =>
      obtain ⟨hold, hcs⟩ := ih hq
      refine ⟨pointer_of_step laws hst hold, ?_⟩
      intro hmem
      rcases List.mem_cons.mp hmem with rfl | hmem
      · -- the calls after its own bring no pointer back
        exact not_reached_of_invalidateDmi laws hst hold
      · exact hcs hmem

/-- No step brings a core back, except a construction its new one. -/
theorem isSome_of_step (hst : PlatformStep H O K t e t') {c : Nat}
    (h : (t'.cores c).isSome = true) :
    (t.cores c).isSome = true ∨ (∃ procid coreid, e = .construct procid coreid ∧ c = t.nextCore) := by
  by_cases he : e.keepsEngines
  · exact .inl (((sameEngines_step hst he).isSome c).symm.trans h)
  · cases hst with
    | construct procid coreid =>
        by_cases hc : c = t.nextCore
        · exact .inr ⟨procid, coreid, rfl, hc⟩
        · have hcores : ((t.setCore t.nextCore _).cores c).isSome = true := h
          rw [setCore_cores, if_neg hc] at hcores
          exact .inl hcores
    | @reset c' core value created hc' =>
        have hcores : ((t.setCore c' _).cores c).isSome = true := h
        rw [setCore_cores] at hcores
        split at hcores
        · next heq => exact .inl (by rw [heq, hc']; rfl)
        · exact .inl hcores
    | @destroy c' hc' =>
        have hcores : ((t.setCore c' none).cores c).isSome = true := h
        rw [setCore_cores] at hcores
        split at hcores
        · cases hcores
        · exact .inl hcores
    | _ => exact absurd trivial he

theorem isSome_of_invalidated {start end_ : U64} {cs : List Nat}
    (h : Invalidated H O K start end_ cs t t') {c : Nat} (hc : (t'.cores c).isSome = true) :
    (t.cores c).isSome = true := by
  induction h with
  | nil s => exact hc
  | cons hst _ ih =>
      rcases isSome_of_step hst (ih hc) with hsome | ⟨_, _, heq, _⟩
      · exact hsome
      · cases heq

/-! ## §4. Caches and engines as views. -/

inductive Holder where
  | cache (c : Nat)
  | engine (c : Nat)

/-- What the regions of a cache map. -/
def regions (D : SocketDmi κ) (k : κ) : Set ((TlmCommand × U64) × U64) :=
  { x | ∃ dmi ∈ D.entries k, dmi.maps x.1.1 x.1.2 ∧ x.2 = dmi.pagePtr x.1.2 }

namespace PointerState

/-- The first `n` bytes behind each pointer, and the regions of each cache. -/
def views (X : OcxPointers σ) (D : SocketDmi κ) (n : Nat) (s : PointerState σ κ) :
    Viewed Holder (TlmCommand × U64) U64 where
  mapping := s.mapping
  view
    | .cache c => { x | (s.platform.cores c).isSome = true ∧ x ∈ regions D (s.caches c) }
    | .engine c => { x | ∃ p q i, i < n ∧ HasPointer X s.platform c x.1.1 p q
        ∧ x.1.2 = p + BitVec.ofNat 64 i ∧ x.2 = q + BitVec.ofNat 64 i }

end PointerState

/-- A miss is answered with at least `n` bytes of the page, or refused. -/
def PointerEvent.grants (O : Ocx σ) (D : SocketDmi κ) (n : Nat) (s : PointerState σ κ) :
    PointerEvent → Prop
  | .fetch c cmd p target => D.cache.lookup (s.caches c) (pageLookup O cmd p) = none →
      ∀ dmi, target (pagePayload O cmd p) = some dmi →
        p.toNat + n ≤ dmi.endAddress.toNat + 1
  | _ => True

variable {s s' : PointerState σ κ} {n : Nat}

theorem regions_unmap (dlaws : SocketLaws D) {start end_ : U64} {k : κ}
    {x : (TlmCommand × U64) × U64} (h : x ∈ regions D (D.unmap start end_ k)) :
    x ∈ regions D k ∧ ¬ (start ≤ x.1.2 ∧ x.1.2 ≤ end_) := by
  obtain ⟨dmi, hmem, hmaps, hx⟩ := h
  obtain ⟨hout, dmi', hmem', hmaps', hptr⟩ := dlaws.unmapped hmem hmaps
  exact ⟨⟨dmi', hmem', hmaps', hx.trans hptr.symm⟩, hout⟩

/-- A call brings no region to a cache. -/
theorem regions_cachesAfter (dlaws : SocketLaws D) {c : Nat} {x : (TlmCommand × U64) × U64}
    (h : x ∈ regions D (cachesAfter D s e c)) :
    x ∈ regions D (s.caches c)
      ∧ ∀ procid coreid, e = .construct procid coreid → c ≠ s.platform.nextCore := by
  cases e with
  | construct procid coreid =>
      by_cases hc : c = s.platform.nextCore
      · -- the cache of the new core is empty
        rw [cachesAfter, hc, Function.update_self] at h
        obtain ⟨dmi, hmem, _⟩ := h
        rw [dlaws.empty] at hmem
        exact hmem.elim
      · rw [cachesAfter, Function.update_of_ne hc] at h
        exact ⟨h, fun _ _ _ => hc⟩
  | invalidateDmi c' start end_ res =>
      refine ⟨?_, fun _ _ heq => by cases heq⟩
      by_cases hc : c = c'
      · rw [cachesAfter, hc, Function.update_self] at h
        exact hc ▸ (regions_unmap dlaws h).1
      · rw [cachesAfter, Function.update_of_ne hc] at h
        exact h
  | _ => exact ⟨h, fun _ _ heq => by cases heq⟩

/-- The bytes behind a page pointer are those of its region. -/
theorem pagePtr_add (dmi : TlmDmi) (p i : U64) :
    dmi.pagePtr (p + i) = dmi.pagePtr p + i := by
  unfold TlmDmi.pagePtr
  bv_omega

/-- A byte of the page that the region holds. -/
theorem maps_add {dmi : TlmDmi} {cmd : TlmCommand} {p : U64} {i : Nat}
    (hallows : dmi.allows cmd = true) (hstart : dmi.startAddress ≤ p)
    (hend : p.toNat + n ≤ dmi.endAddress.toNat + 1) (hi : i < n) :
    dmi.maps cmd (p + BitVec.ofNat 64 i) := by
  have hlt := dmi.endAddress.isLt
  have hadd : (p + BitVec.ofNat 64 i).toNat = p.toNat + i := by
    rw [BitVec.toNat_add, BitVec.toNat_ofNat, Nat.mod_eq_of_lt (a := i) (by omega),
      Nat.mod_eq_of_lt (by omega)]
  refine ⟨hallows, ?_, ?_⟩
  · rw [BitVec.le_def] at hstart ⊢
    omega
  · rw [BitVec.le_def]
    omega

/-- **The bytes behind a pointer that `get_page_ptr` returns** are mapped so by a region
of the cache, or by the target. -/
theorem fetched_bytes (dlaws : SocketLaws D) (hn : n ≤ O.pageSize.toNat) {k : κ}
    {cmd : TlmCommand} {p q : U64} {target : TlmPayload → Option TlmDmi}
    (hp : p.toNat % O.pageSize.toNat = 0) (htarget : TargetLaw target)
    (hans : Answers s.mapping target)
    (hgrants : D.cache.lookup k (pageLookup O cmd p) = none →
      ∀ dmi, target (pagePayload O cmd p) = some dmi → p.toNat + n ≤ dmi.endAddress.toNat + 1)
    (hq : (getPagePtr O D.cache cmd p target k).1 = some q) {i : Nat} (hi : i < n) :
    ((cmd, p + BitVec.ofNat 64 i), q + BitVec.ofNat 64 i) ∈ regions D k
      ∨ s.mapping (cmd, p + BitVec.ofNat 64 i) = some (q + BitVec.ofNat 64 i) := by
  unfold getPagePtr at hq
  cases hl : D.cache.lookup k (pageLookup O cmd p) with
  | some dmi =>
      rw [hl] at hq
      injection hq with hq
      obtain ⟨hmem, hallows, hstart, hend⟩ := dlaws.cache.found hp hl
      have hend' : p.toNat + O.pageSize.toNat ≤ dmi.endAddress.toNat + 1 := hend
      refine .inl ⟨dmi, hmem, maps_add hallows hstart (by omega) hi, ?_⟩
      rw [← hq]
      exact (pagePtr_add dmi p _).symm
  | none =>
      cases ha : target (pagePayload O cmd p) with
      | none =>
          rw [hl, ha] at hq
          cases hq
      | some dmi =>
          rw [hl, ha] at hq
          injection hq with hq
          obtain ⟨hallows, hstart, _⟩ := htarget _ dmi ha
          rw [← hq, ← pagePtr_add]
          exact .inr (hans _ dmi ha _ _ (maps_add hallows hstart (hgrants hl dmi ha) hi))

/-- The regions of the cache after `get_page_ptr`. -/
theorem regions_getPagePtr (dlaws : SocketLaws D) {k : κ} {cmd : TlmCommand} {p : U64}
    {target : TlmPayload → Option TlmDmi} (hans : Answers s.mapping target)
    {x : (TlmCommand × U64) × U64}
    (h : x ∈ regions D (getPagePtr O D.cache cmd p target k).2) :
    x ∈ regions D k ∨ s.mapping x.1 = some x.2 := by
  unfold getPagePtr at h
  cases hl : D.cache.lookup k (pageLookup O cmd p) with
  | some dmi =>
      rw [hl] at h
      exact .inl h
  | none =>
      cases ha : target (pagePayload O cmd p) with
      | none =>
          rw [hl, ha] at h
          exact .inl h
      | some dmi =>
          rw [hl, ha] at h
          obtain ⟨dmi', hmem, hmaps, hx⟩ := h
          rw [dlaws.cache.added] at hmem
          rcases Set.mem_insert_iff.mp hmem with rfl | hold
          · rw [hx]
            exact .inr (hans _ _ ha _ _ hmaps)
          · exact .inl ⟨dmi', hold, hmaps, hx⟩

/-! ## §5. The steps, as steps of the views. -/

/-- The engine of a core is in another state. -/
theorem hasPointer_setState {c c' : Nat} {core : Core σ} {inst : OcxInstance σ} {st : σ}
    (hc : t.cores c = some core) (hinst : core.mCore = some inst) {cmd : TlmCommand}
    {p q : U64}
    (h : HasPointer X (t.setCore c (some { core with mCore := some ⟨inst.id, st⟩ })) c' cmd p q) :
    HasPointer X t c' cmd p q
      ∨ (c' = c ∧ X st cmd p = some q ∧ t.engineState c = some inst.state) := by
  obtain ⟨st', hst', hq⟩ := h
  rcases engineState_setState hc hinst hst' with hold | ⟨heq, rfl, hstate⟩
  · exact .inl ⟨st', hold, hq⟩
  · exact .inr ⟨heq, hq, hstate⟩

theorem isSome_setState {c c' : Nat} {core : Core σ} (hc : t.cores c = some core)
    (core' : Core σ) (h : ((t.setCore c (some core')).cores c').isSome = true) :
    (t.cores c').isSome = true := by
  rw [setCore_cores] at h
  split at h
  · next heq =>
      rw [heq, hc]
      rfl
  · exact h

/-- An engine that gains no pointer learns nothing. -/
theorem views_setState {c : Nat} {core : Core σ} {inst : OcxInstance σ} {st : σ}
    (hc : s.platform.cores c = some core) (hinst : core.mCore = some inst)
    (hptr : ∀ cmd p q, X st cmd p = some q → X inst.state cmd p = some q) :
    ViewStep (s.views X D n) .learn
      (PointerState.views X D n ⟨s.platform.setCore c (some { core with
        mCore := some ⟨inst.id, st⟩ }), s.caches, s.mapping⟩) := by
  refine .learn (s.views X D n) ?_
  intro holder x hx
  refine .inl ⟨holder, ?_⟩
  cases holder with
  | cache c => exact ⟨isSome_setState hc _ hx.1, hx.2⟩
  | engine c =>
      obtain ⟨p, q, i, hi, hq, ha, hb⟩ := hx
      refine ⟨p, q, i, hi, ?_, ha, hb⟩
      rcases hasPointer_setState hc hinst hq with hold | ⟨rfl, hq, hstate⟩
      · exact hold
      · exact ⟨_, hstate, hptr _ _ _ hq⟩

/-- The event that the views see. -/
def PointerEvent.seen : PointerEvent → ViewEvent (TlmCommand × U64)
  | .withdraw start end_ => .remap { x | start ≤ x.2 ∧ x.2 ≤ end_ }
  | _ => .learn

/-- **Caches and engines learn what the target maps, and forget what it withdraws.** -/
theorem views_step (laws : PointerLaws O X) (dlaws : SocketLaws D) (hn : n ≤ O.pageSize.toNat)
    {e : PointerEvent} (hst : PointerStep H O K X D s e s') (hgrants : e.grants O D n s) :
    ViewStep (s.views X D n) e.seen (s'.views X D n) := by
  cases hst with
  | @call e t hst =>
      refine .learn (s.views X D n) ?_
      intro holder x hx
      refine .inl ⟨holder, ?_⟩
      cases holder with
      | cache c =>
          obtain ⟨hsome, hreg⟩ := hx
          obtain ⟨hold, hnew⟩ := regions_cachesAfter dlaws hreg
          refine ⟨?_, hold⟩
          rcases isSome_of_step hst hsome with hsome | ⟨procid, coreid, heq, hc⟩
          · exact hsome
          · exact absurd hc (hnew procid coreid heq)
      | engine c =>
          obtain ⟨p, q, i, hi, hptr, ha, hb⟩ := hx
          exact ⟨p, q, i, hi, pointer_of_step laws hst hptr, ha, hb⟩
  | engineRuns hc hinst hstep =>
      exact views_setState hc hinst (fun _ _ _ hq => laws.step hstep hq)
  | @fetch c core inst cmd p target st hc hinst hp htarget hans hlearn =>
      refine .learn (s.views X D n) ?_
      intro holder x hx
      cases holder with
      | cache c' =>
          obtain ⟨hsome, hreg⟩ := hx
          have hsome := isSome_setState hc _ hsome
          by_cases heq : c' = c
          · have hreg : x ∈ regions D (Function.update s.caches c _ c') := hreg
            rw [heq, Function.update_self] at hreg
            rcases regions_getPagePtr dlaws hans hreg with hold | hmap
            · exact .inl ⟨.cache c, heq ▸ hsome, hold⟩
            · exact .inr hmap
          · have hreg : x ∈ regions D (Function.update s.caches c _ c') := hreg
            rw [Function.update_of_ne heq] at hreg
            exact .inl ⟨.cache c', hsome, hreg⟩
      | engine c' =>
          obtain ⟨⟨cmd', a⟩, b⟩ := x
          obtain ⟨p', q, i, hi, hptr, ha, hb⟩ := hx
          rcases hasPointer_setState hc hinst hptr with hold | ⟨rfl, hq, hstate⟩
          · exact .inl ⟨.engine c', p', q, i, hi, hold, ha, hb⟩
          · rcases hlearn cmd' p' q hq with hold | ⟨hcmd, rfl, hanswer⟩
            · exact .inl ⟨.engine c', p', q, i, hi, ⟨_, hstate, hold⟩, ha, hb⟩
            · -- the new pointer leads where a cached or a granted region leads
              obtain rfl : cmd' = cmd := hcmd
              obtain rfl : a = p' + BitVec.ofNat 64 i := ha
              obtain rfl : b = q + BitVec.ofNat 64 i := hb
              rcases fetched_bytes (s := s) dlaws hn hp htarget hans hgrants hanswer hi with
                hreg | hmap
              · exact .inl ⟨.cache c', by rw [hc]; rfl, hreg⟩
              · exact .inr hmap
  | @withdraw start end_ cs t mapping hcs hinv hmap =>
      refine .remap (s.views X D n) ?_ ?_
      · rintro ⟨cmd, a⟩ hout
        exact hmap cmd a hout
      · intro holder x hx
        cases holder with
        | cache c =>
            obtain ⟨hsome, hreg⟩ := hx
            have hsome := isSome_of_invalidated hinv hsome
            have hreg : x ∈ regions D (if c ∈ cs then _ else _) := hreg
            rw [if_pos (hcs c hsome)] at hreg
            obtain ⟨hold, hout⟩ := regions_unmap dlaws hreg
            exact ⟨⟨hsome, hold⟩, hout⟩
        | engine c =>
            obtain ⟨p, q, i, hi, hptr, ha, hb⟩ := hx
            obtain ⟨hold, hdrop⟩ := not_reached_of_invalidated laws hinv hptr
            refine ⟨⟨p, q, i, hi, hold, ha, hb⟩, ?_⟩
            intro hin
            have hin : start ≤ x.1.2 ∧ x.1.2 ≤ end_ := hin
            rw [ha] at hin
            exact hdrop (hcs c hold.isSome) i (Nat.lt_of_lt_of_le hi hn) hin

/-! ## §6. Runs. -/

/-- Where the grants are large enough, the run is one of the views. -/
def pointerViews (laws : PointerLaws O X) (dlaws : SocketLaws D) (hn : n ≤ O.pageSize.toNat) :
    ((pointerSystem H O K X D).guard (fun s e => e.grants O D n s)).Simulation
      (viewed Holder (TlmCommand × U64) U64) where
  label _ e := e.seen
  rel v s := v = s.views X D n
  init s h0 := by
    refine ⟨s.views X D n, ?_, rfl⟩
    have hplat : s.platform = {} := h0
    intro holder
    refine Set.eq_empty_of_forall_notMem ?_
    intro x hx
    -- there are no cores yet
    cases holder with
    | cache c =>
        have hsome : (s.platform.cores c).isSome = true := hx.1
        rw [hplat] at hsome
        cases hsome
    | engine c =>
        obtain ⟨p, q, i, hi, hptr, _⟩ := hx
        have hsome := hptr.isSome
        rw [hplat] at hsome
        cases hsome
  step v s e s' _ hrel hst := by
    subst hrel
    exact ⟨s'.views X D n, views_step laws dlaws hn hst.1 hst.2, rfl⟩

theorem pointers_sound (laws : PointerLaws O X) (dlaws : SocketLaws D)
    (hn : n ≤ O.pageSize.toNat) {tr : List (PointerState σ κ × PointerEvent)}
    (hr : (pointerSystem H O K X D).Run tr s) (hgrants : ∀ x ∈ tr, x.2.grants O D n x.1)
    {c : Nat} {cmd : TlmCommand} {p q : U64} (hq : HasPointer X s.platform c cmd p q)
    {i : Nat} (hi : i < n) :
    s.mapping (cmd, p + BitVec.ofNat 64 i) = some (q + BitVec.ofNat 64 i) := by
  obtain ⟨vtr, v, hvr, hrel, _⟩ :=
    (hr.guard hgrants).simulate (pointerViews laws dlaws hn)
  have hv : v = s.views X D n := hrel
  subst hv
  exact sound_of_reachable ⟨vtr, hvr⟩ (.engine c) ((cmd, _), _) ⟨p, q, i, hi, hq, rfl, rfl⟩

def pointerOcx : Ocx (TlmCommand → U64 → Option U64) where
  create _ _ := none
  call
    | .invalidatePagePtrs _ _, _ => (true, fun _ _ => none)
    | _, st => (true, st)
  readReg _ _ := some 0
  pcRegid _ := 32#64
  insnCount _ := 0
  pageSize := 4096#64
  step st st' := st' = st

def tablePointers : OcxPointers (TlmCommand → U64 → Option U64) := fun st => st

theorem tablePointers_laws : PointerLaws pointerOcx tablePointers where
  created _ _ := rfl
  call := by
    intro call st cmd p q h
    cases call with
    | invalidatePagePtrs start end_ => cases h
    | _ => exact h
  invalidated := by
    intro start end_ st cmd p q h
    cases h
  step := by
    rintro st st' rfl cmd p q h
    exact h

/-- A list of regions; those that the range reaches are dropped. -/
def listDmi : SocketDmi (List TlmDmi) where
  cache := listCache
  entries k := { dmi | dmi ∈ k }
  empty := []
  unmap start end_ k :=
    k.filter (fun dmi => decide (end_ < dmi.startAddress ∨ dmi.endAddress < start))

theorem listDmi_laws : SocketLaws listDmi where
  cache := listCache_laws _
  empty := by
    ext dmi
    simp [listDmi]
  unmapped := by
    intro start end_ k dmi cmd a hmem hmaps
    obtain ⟨hold, hout⟩ := List.mem_filter.mp hmem
    refine ⟨?_, dmi, hold, hmaps, rfl⟩
    obtain ⟨_, hstart, hend⟩ := hmaps
    rw [decide_eq_true_eq] at hout
    simp only [BitVec.lt_def, BitVec.le_def] at hout hstart hend ⊢
    omega

/-- The target maps its one region. -/
def mapsRegion (dmi : TlmDmi) : Mapping
  | (cmd, a) => if dmi.allows cmd = true ∧ dmi.startAddress ≤ a ∧ a ≤ dmi.endAddress
      then some (dmi.pagePtr a) else none

theorem oneRegion_answers (dmi : TlmDmi) : Answers (mapsRegion dmi) (oneRegion dmi) := by
  intro tx dmi' h cmd a hmaps
  unfold oneRegion at h
  split at h
  · injection h with h
    subst h
    exact if_pos hmaps
  · cases h

/-- The pointer to the second of the two pages. -/
def secondPage : TlmCommand → U64 → Option U64 := fun cmd p =>
  if cmd = .read ∧ p = 0x2000#64 then some 0x70001000#64 else none

/-- A core is constructed and fetches the second of two pages. -/
theorem secondPage_fetched : ∃ s₀ s₁ s,
    (pointerSystem Host.kib4 pointerOcx Kernel.reliable tablePointers listDmi).Run
      [(s₀, .call (.construct 0 0)), (s₁, .fetch 0 .read 0x2000#64 (oneRegion twoPages))] s
    ∧ HasPointer tablePointers s.platform 0 .read 0x2000#64 0x70001000#64
    ∧ s.mapping = mapsRegion twoPages ∧ s.platform.protector = {} := by
  have h0 : (pointerSystem Host.kib4 pointerOcx Kernel.reliable tablePointers listDmi).init
    ⟨{}, fun _ => [], mapsRegion twoPages⟩ := rfl
  have hlearn : ∀ cmd p q, tablePointers secondPage cmd p = some q →
      tablePointers pointerOcx.create cmd p = some q
      ∨ (cmd = .read ∧ p = 0x2000#64
        ∧ (getPagePtr pointerOcx listDmi.cache .read 0x2000#64 (oneRegion twoPages) []).1
          = some q) := by
    intro cmd p q h
    unfold tablePointers secondPage at h
    split at h
    · next heq => exact .inr ⟨heq.1, heq.2, h⟩
    · cases h
  exact ⟨_, _, _, .snoc (.snoc (.start h0) (.call _ (.construct _ 0 0)))
    (.fetch (c := 0) _ .read rfl rfl rfl (oneRegion_law twoPages) (oneRegion_answers twoPages)
      hlearn), ⟨_, rfl, rfl⟩, rfl, rfl⟩

/-- The fetch is granted both pages. -/
theorem secondPage_grants {τ : Type} {Q : Ocx τ} (hQ : Q.pageSize = 4096#64) {c : Nat}
    {s : PointerState τ (List TlmDmi)} (cmd : TlmCommand) :
    (PointerEvent.fetch c cmd 0x2000#64 (oneRegion twoPages)).grants Q listDmi
      Q.pageSize.toNat s := by
  intro _ dmi hdmi
  rw [hQ]
  cases cmd with
  | read =>
      injection hdmi with hdmi
      subst hdmi
      decide
  | write =>
      injection hdmi with hdmi
      subst hdmi
      decide

end Avp64.Psp
