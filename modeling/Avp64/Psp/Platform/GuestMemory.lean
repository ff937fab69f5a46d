/-
  Avp64.Psp.Platform.GuestMemory — the guest sees one memory.

  All parts together: the engines fetch pointers to pages, translate the pages that they
  execute, and store through their pointers; the target withdraws memory and grants it
  again; writes to pages that have been translated are trapped.  A guest cannot tell this
  from a memory that everybody reads and writes through the mapping of the target, with
  no pointers, no translations and no protection.  Nor does it get stuck: every write that
  it or somebody else may do is carried out.

    • `guestInv_step`         — what is translated is guarded where the target maps it,
    • `copiedCode`            — so translations are copies of what the guest addresses read,
    • `guest_sees_one_memory` — and nobody can tell them from the memory.
-/
import Avp64.Lib.MappedMemory
import Avp64.Psp.Platform.GuestStores
import Avp64.Psp.Platform.Service
import Avp64.Psp.Platform.Translations

namespace Avp64.Psp

open Avp64.Lib MemProtector Platform Avp64.Psp.Core

variable {σ κ : Type} {H : Host} {O : Ocx σ} {X : OcxCode σ} {Y : OcxPointers σ}
  {D : SocketDmi κ} {clusterid : U64} {n k : Nat} {t t' : Platform σ}

/-! ## §1. A cluster with its pointers and its memory. -/

structure GuestState (σ κ : Type) extends PointerState σ κ where
  memory : U64 → Byte

inductive GuestEvent where
  /-- The core `c` executes `code` as the code of the page `p`. -/
  | execute (c : Nat) (p : U64) (code : List Byte)
  /-- The core `c` stores to the guest address `x`. -/
  | store (c : Nat) (x : U64) (value : Byte) (log : List Effect)
  /-- Somebody else writes to host memory. -/
  | write (a : U64) (value : Byte) (log : List Effect)
  | other (e : PointerEvent)

/-- What is relied on about the engine and the cache. -/
structure GuestLaws (O : Ocx σ) (X : OcxCode σ) (Y : OcxPointers σ) (D : SocketDmi κ) :
    Prop where
  code : CodeLaws O X
  pointers : PointerLaws O Y
  cache : SocketLaws D
  /-- To translate a page brings no pointer. -/
  translate : ∀ {p v st cmd p' q}, Y (X.translate p v st) cmd p' = some q →
    Y st cmd p' = some q

/-- The bytes behind a pointer to a page. -/
def bytesAt (O : Ocx σ) (q : U64) (memory : U64 → Byte) : List Byte :=
  (List.range O.pageSize.toNat).map (fun i => memory (q + BitVec.ofNat 64 i))

/-- A write takes effect where the handler has let it through. -/
def memoryAfter (memory : U64 → Byte) (a : U64) (value : Byte) (log : List Effect) :
    U64 → Byte :=
  if .store a ∈ log then Function.update memory a value else memory

namespace PointerEvent

/-- The cluster stays as it was built, and nothing is written to host memory. -/
def keepsMemory : PointerEvent → Prop
  | .call (.write _ _) => False
  | e => e.keepsCluster

def fetches : PointerEvent → Prop
  | .fetch .. => True
  | _ => False

/-- No core that has an entry is destroyed, and a reset gets an engine. -/
def sparesHandlers (s : PointerState σ κ) : PointerEvent → Prop
  | .call e => e.sparesHandlers s.platform
  | _ => True

theorem sparesHandlers.getsEngine {s : PointerState σ κ} {e : PointerEvent}
    (h : e.sparesHandlers s) : e.getsEngine := by
  cases e with
  | call e => exact PlatformEvent.sparesHandlers.getsEngine h
  | _ => trivial

end PointerEvent

inductive GuestStep (H : Host) (O : Ocx σ) (X : OcxCode σ) (Y : OcxPointers σ)
    (D : SocketDmi κ) : GuestState σ κ → GuestEvent → GuestState σ κ → Prop
  /-- The page is translated already. -/
  | hit (s : GuestState σ κ) {c : Nat} {p : U64} {code : List Byte} :
      s.platform.code X c p = some code → GuestStep H O X Y D s (.execute c p code) s
  /-- The page is protected through the pointer to it, then translated. -/
  | translate (s : GuestState σ κ) {c : Nat} {p q : U64} {u : PointerState σ κ}
      {core : Core σ} {inst : OcxInstance σ} :
      p.toNat % O.pageSize.toNat = 0 → HasPointer Y s.platform c .read p q →
      PointerStep H O Kernel.reliable Y D s.toPointerState
        (.call (.protectPage c q p (.ok ()))) u →
      u.platform.cores c = some core → core.mCore = some inst →
      GuestStep H O X Y D s (.execute c p (bytesAt O q s.memory))
        ⟨⟨u.platform.setCore c (some { core with
            mCore := some ⟨inst.id, X.translate p (bytesAt O q s.memory) inst.state⟩ }),
          u.caches, u.mapping⟩, s.memory⟩
  /-- The store goes through a write pointer of the core. -/
  | store (s : GuestState σ κ) {c : Nat} {x a : U64} (value : Byte) {log : List Effect}
      {u : PointerState σ κ} : StoresTo O Y s.platform c x a →
      PointerStep H O Kernel.reliable Y D s.toPointerState (.call (.write a log)) u →
      GuestStep H O X Y D s (.store c x value log) ⟨u, memoryAfter s.memory a value log⟩
  | write (s : GuestState σ κ) (a : U64) (value : Byte) {log : List Effect}
      {u : PointerState σ κ} :
      PointerStep H O Kernel.reliable Y D s.toPointerState (.call (.write a log)) u →
      GuestStep H O X Y D s (.write a value log) ⟨u, memoryAfter s.memory a value log⟩
  /-- While an engine fetches a pointer it translates nothing. -/
  | other (s : GuestState σ κ) {e : PointerEvent} {u : PointerState σ κ} :
      PointerStep H O Kernel.reliable Y D s.toPointerState e u → e.keepsMemory →
      (e.fetches → ∀ c p v, u.platform.code X c p = some v →
        s.platform.code X c p = some v) →
      GuestStep H O X Y D s (.other e) ⟨u, s.memory⟩

/-- A cluster that `cpu::cpu` has built, with any mapping and any contents of memory. -/
def guestCluster (H : Host) (O : Ocx σ) (X : OcxCode σ) (Y : OcxPointers σ)
    (D : SocketDmi κ) (clusterid : U64) (n : Nat) : Lts (GuestState σ κ) GuestEvent where
  init s := s.platform = cpu O clusterid n ∧ ∀ c, s.caches c = D.empty
  step := GuestStep H O X Y D

/-- Pages are mapped to memory that is aligned as they are. -/
def AlignedTo (k : Nat) (mapping : Mapping) : Prop :=
  ∀ cmd x a, mapping (cmd, x) = some a → a.toNat % 2 ^ k = x.toNat % 2 ^ k

/-- Grants are no smaller than a page, and no page that some core has translated is
withdrawn or deregistered. -/
def GuestEvent.sparesCode (X : OcxCode σ) (O : Ocx σ) (D : SocketDmi κ)
    (s : GuestState σ κ) : GuestEvent → Prop
  | .other (.call (.invalidateDmi _ start end_ _)) => ∀ c p v,
      s.platform.code X c p = some v → ¬ CoversPage O start end_ p
  | .other (.withdraw start end_) => ∀ c p v,
      s.platform.code X c p = some v → ¬ Reached O start end_ p
  | .other e => e.grants O D O.pageSize.toNat s.toPointerState
  | _ => True

/-- What every step is to be: memory is mapped in whole pages, what is translated is
neither withdrawn nor deregistered, grants are no smaller than a page, no core that has an
entry is destroyed, and a reset gets an engine. -/
structure GuestEvent.WellBehaved (X : OcxCode σ) (O : Ocx σ) (D : SocketDmi κ) (k : Nat)
    (s : GuestState σ κ) (e : GuestEvent) : Prop where
  aligned : AlignedTo k s.mapping
  code : e.sparesCode X O D s
  handlers : ∀ e', e = .other e' → e'.sparesHandlers s.toPointerState

/-! ## §2. What the pointers part keeps. -/

/-- What holds of a cluster with its pointers. -/
structure PointerInv (H : Host) (O : Ocx σ) (Y : OcxPointers σ) (D : SocketDmi κ) (n : Nat)
    (s : PointerState σ κ) : Prop where
  living : Living H n s.platform
  serviceable : s.platform.Serviceable
  protector : (protector H (fun _ => O.pageSize) Kernel.reliable).Reachable
    s.platform.protector
  sound : Sound (s.views Y D O.pageSize.toNat)

section

variable {s s' : PointerState σ κ}

theorem serviceable_of_invalidated {start end_ : U64} {cs : List Nat} (hl : Living H n t)
    (h : t.Serviceable) (hinv : Invalidated H O Kernel.reliable start end_ cs t t') :
    t'.Serviceable := by
  induction hinv with
  | nil _ => exact h
  | cons hst _ ih =>
      exact ih (hl.step hst trivial trivial) (serviceable_step hl.loaded h hst trivial)

theorem serviceable_pointerStep (hl : Living H n s.platform) (h : s.platform.Serviceable)
    {e : PointerEvent} (hst : PointerStep H O Kernel.reliable Y D s e s')
    (he : e.sparesHandlers s) : s'.platform.Serviceable := by
  cases hst with
  | call hst => exact serviceable_step hl.loaded h hst he
  | engineRuns _ _ _ => exact h.setState _ _ _
  | fetch _ _ _ _ _ _ _ => exact h.setState _ _ _
  | withdraw _ hinv _ => exact serviceable_of_invalidated hl h hinv

theorem PointerInv.step (laws : GuestLaws O X Y D) (h : PointerInv H O Y D n s)
    {e : PointerEvent} (hst : PointerStep H O Kernel.reliable Y D s e s')
    (he : e.keepsCluster) (hgrants : e.grants O D O.pageSize.toNat s)
    (hspares : e.sparesHandlers s) : PointerInv H O Y D n s' :=
  ⟨living_pointerStep h.living hst he hspares.getsEngine,
    serviceable_pointerStep h.living h.serviceable hst hspares,
    protector_pointerStep h.protector hst,
    sound_step h.sound (views_step laws.pointers laws.cache (Nat.le_refl _) hst hgrants)⟩

/-- An engine that gains no pointer. -/
theorem PointerInv.setState (h : PointerInv H O Y D n s) {c : Nat} {core : Core σ}
    {inst : OcxInstance σ} {st : σ} (hc : s.platform.cores c = some core)
    (hinst : core.mCore = some inst)
    (hptr : ∀ cmd p q, Y st cmd p = some q → Y inst.state cmd p = some q) :
    PointerInv H O Y D n ⟨s.platform.setCore c (some { core with
      mCore := some ⟨inst.id, st⟩ }), s.caches, s.mapping⟩ :=
  ⟨h.living.setState hc hinst st, h.serviceable.setState c core ⟨inst.id, st⟩, h.protector,
    sound_step h.sound (views_setState hc hinst hptr)⟩

/-- A pointer leads where the target maps its page. -/
theorem PointerInv.maps (h : PointerInv H O Y D n s) {c : Nat} {cmd : TlmCommand}
    {p q : U64} (hq : HasPointer Y s.platform c cmd p q) {i : Nat}
    (hi : i < O.pageSize.toNat) :
    s.mapping (cmd, p + BitVec.ofNat 64 i) = some (q + BitVec.ofNat 64 i) :=
  h.sound (.engine c) ((cmd, _), _) ⟨p, q, i, hi, hq, rfl, rfl⟩

/-- A store reaches the cell that the target maps for it. -/
theorem PointerInv.stores (h : PointerInv H O Y D n s) {c : Nat} {x a : U64}
    (hx : StoresTo O Y s.platform c x a) : s.mapping (.write, x) = some a := by
  obtain ⟨p, q, hq, i, hi, rfl, rfl⟩ := hx
  exact h.maps hq hi

/-- The target page `p` is mapped to the host address `q` and guarded there. -/
structure GuardedAt (H : Host) (O : Ocx σ) (k : Nat) (s : PointerState σ κ) (p q : U64) :
    Prop where
  page : p.toNat % 2 ^ k = 0
  host : q.toNat % 2 ^ k = 0
  guarded : Guarded H O p q s.platform
  maps : ∀ i < O.pageSize.toNat,
    s.mapping (.read, p + BitVec.ofNat 64 i) = some (q + BitVec.ofNat 64 i)

/-- A range that covers a page reaches it. -/
theorem reached_of_covers (hsize : O.pageSize.toNat = 2 ^ k) (hk : k < 64)
    {start end_ p : U64} (hp : p.toNat % 2 ^ k = 0) (h : CoversPage O start end_ p) :
    Reached O start end_ p := by
  obtain ⟨hstart, hend⟩ := h
  have htwo : O.pageSize = BitVec.twoPow 64 k := by
    refine BitVec.eq_of_toNat_eq ?_
    rw [hsize, BitVec.toNat_twoPow_of_lt hk]
  refine ⟨0, by rw [hsize]; exact Nat.two_pow_pos k, ?_⟩
  rw [htwo, BitVec.le_def, toNat_add_twoPow_sub_one hk hp] at hend
  rw [BitVec.add_zero]
  refine ⟨hstart, ?_⟩
  rw [BitVec.le_def]
  omega

/-- **A page stays guarded where it is mapped** over every step that neither writes to it
nor reaches it. -/
theorem GuardedAt.step {p q : U64} (h : GuardedAt H O k s p q) {e : PointerEvent}
    (hst : PointerStep H O Kernel.reliable Y D s e s') (hnot : ¬ e.releases H O p q)
    (hout : ∀ start end_, e = .withdraw start end_ → ¬ Reached O start end_ p) :
    GuardedAt H O k s' p q := by
  refine ⟨h.page, h.host, guarded_pointerStep h.guarded hst hnot, ?_⟩
  intro i hi
  rw [← h.maps i hi]
  cases hst with
  | call _ => rfl
  | engineRuns _ _ _ => rfl
  | fetch _ _ _ _ _ _ _ => rfl
  | withdraw _ _ hmap => exact hmap _ _ (fun hin => hout _ _ rfl ⟨i, hi, hin⟩)

/-- The bytes of the page lie in the host page of its pointer. -/
theorem GuardedAt.pageOf_eq (hsize : O.pageSize.toNat = 2 ^ k) (hk : k ≤ H.pageBits)
    {p q : U64} (h : GuardedAt H O k s p q) {i : Nat} (hi : i < O.pageSize.toNat) :
    H.pageOf (q + BitVec.ofNat 64 i) = H.pageOf q := by
  refine H.pageOf_add hk h.host ?_
  rw [BitVec.toNat_ofNat, ← hsize]
  exact Nat.lt_of_le_of_lt (Nat.mod_le i _) hi

/-! ### Translations. -/

/-- What is still translated after a write was not on the host page that was written. -/
theorem pageOf_ne_of_code (laws : CodeLaws O X) (hl : Living H n t) {p q a : U64}
    (hg : Guarded H O p q t) {log : List Effect}
    (hst : PlatformStep H O Kernel.reliable t (.write a log) t') {c : Nat} {v : List Byte}
    (hv : t'.code X c p = some v) : H.pageOf a ≠ H.pageOf q := by
  intro ha
  obtain ⟨mid, rfl, hcalls⟩ := write_of_guarded hl hg ha hst
  have hc : (t.cores c).isSome = true := by
    obtain ⟨core, hcore, _⟩ := Option.bind_eq_some_iff.mp
      (code_eq_some.mp (code_of_step laws hst hv)).choose_spec.1
    rw [hcore]
    rfl
  -- the engine has been told to drop the translation
  refine not_code_of_flushed laws hst ?_ v hv
  rw [List.cons_append, List.filterMap_cons_none rfl, List.filterMap_append]
  exact List.mem_append_left _ (hcalls c hc _ List.mem_cons_self)

theorem code_of_invalidated (laws : CodeLaws O X) {start end_ : U64} {cs : List Nat}
    (hinv : Invalidated H O Kernel.reliable start end_ cs t t') {c : Nat} {p : U64}
    {v : List Byte} (hv : t'.code X c p = some v) : t.code X c p = some v := by
  induction hinv with
  | nil _ => exact hv
  | cons hst _ ih => exact code_of_step laws hst (ih hv)

/-- No step of the pointers part makes a translation. -/
theorem code_of_pointerStep (laws : CodeLaws O X) {e : PointerEvent}
    (hst : PointerStep H O Kernel.reliable Y D s e s')
    (hfetch : e.fetches → ∀ c p v, s'.platform.code X c p = some v →
      s.platform.code X c p = some v) {c : Nat} {p : U64} {v : List Byte}
    (hv : s'.platform.code X c p = some v) : s.platform.code X c p = some v := by
  cases hst with
  | call hst => exact code_of_step laws hst hv
  | engineRuns hc hinst hstep =>
      exact code_of_setState hc hinst (fun _ _ hcode => laws.step hstep hcode) hv
  | fetch _ _ _ _ _ _ _ => exact hfetch trivial c p v hv
  | withdraw _ hinv _ => exact code_of_invalidated laws hinv hv

end

/-! ## §3. Translated pages. -/

/-- Where an engine has translated a page, the page is guarded where it is mapped. -/
structure GuestInv (H : Host) (O : Ocx σ) (X : OcxCode σ) (Y : OcxPointers σ)
    (D : SocketDmi κ) (n k : Nat) (s : GuestState σ κ) : Prop where
  pointers : PointerInv H O Y D n s.toPointerState
  guarded : ∀ c p v, s.platform.code X c p = some v →
    ∃ q, GuardedAt H O k s.toPointerState p q

section

variable {s s' : GuestState σ κ} {u : PointerState σ κ} {e : GuestEvent}

theorem platformStep_of_call {s : PointerState σ κ} {e : PlatformEvent}
    (hst : PointerStep H O Kernel.reliable Y D s (.call e) u) :
    PlatformStep H O Kernel.reliable s.platform e u.platform ∧ u.mapping = s.mapping := by
  cases hst with
  | call hst => exact ⟨hst, rfl⟩

/-- **A page that is translated after a write** was so before, and the write was to
another host page. -/
theorem GuestInv.code_of_write (laws : GuestLaws O X Y D) (h : GuestInv H O X Y D n k s)
    {a : U64} {log : List Effect}
    (hst : PointerStep H O Kernel.reliable Y D s.toPointerState (.call (.write a log)) u)
    {c : Nat} {p : U64} {v : List Byte} (hv : u.platform.code X c p = some v) :
    s.platform.code X c p = some v
      ∧ ∃ q, GuardedAt H O k s.toPointerState p q ∧ H.pageOf a ≠ H.pageOf q := by
  obtain ⟨hwrite, _⟩ := platformStep_of_call hst
  have hold := code_of_step laws.code hwrite hv
  obtain ⟨q, hq⟩ := h.guarded c p v hold
  exact ⟨hold, q, hq,
    pageOf_ne_of_code laws.code h.pointers.living hq.guarded hwrite hv⟩

/-- A write keeps the invariant, whatever it writes. -/
theorem GuestInv.write (laws : GuestLaws O X Y D) (h : GuestInv H O X Y D n k s) {a : U64}
    {log : List Effect}
    (hst : PointerStep H O Kernel.reliable Y D s.toPointerState (.call (.write a log)) u)
    (memory : U64 → Byte) : GuestInv H O X Y D n k ⟨u, memory⟩ := by
  refine ⟨h.pointers.step laws hst trivial trivial trivial, ?_⟩
  intro c p v hv
  obtain ⟨_, q, hq, hne⟩ := h.code_of_write laws hst hv
  exact ⟨q, hq.step hst hne (fun _ _ heq => by cases heq)⟩

/-- An event that spares a translated page does not release it. -/
theorem not_releases (hsize : O.pageSize.toNat = 2 ^ k) (hk : k < 64) {e : PointerEvent}
    (he : e.keepsMemory) (hspares : (GuestEvent.other e).sparesCode X O D s) {c : Nat}
    {p q : U64} {v : List Byte} (hp : p.toNat % 2 ^ k = 0)
    (hv : s.platform.code X c p = some v) : ¬ e.releases H O p q := by
  cases e with
  | call e =>
      cases e with
      | write a log => exact he.elim
      | invalidateDmi c' start end_ res => exact hspares c p v hv
      | _ => exact fun h => h
  | withdraw start end_ =>
      exact fun hcov => hspares c p v hv (reached_of_covers hsize hk hp hcov)
  | _ => exact fun h => h

theorem grants_of_spares {e : PointerEvent}
    (hspares : (GuestEvent.other e).sparesCode X O D s) :
    e.grants O D O.pageSize.toNat s.toPointerState := by
  cases e with
  | fetch c cmd p target => exact hspares
  | _ => trivial

theorem keepsCluster_of_keepsMemory {e : PointerEvent} (he : e.keepsMemory) :
    e.keepsCluster := by
  cases e with
  | call e =>
      cases e with
      | write a log => exact he.elim
      | _ => exact he
  | _ => exact he

/-- **The pages that some engine has translated stay guarded where they are mapped.** -/
theorem guestInv_step (laws : GuestLaws O X Y D) (hsize : O.pageSize.toNat = 2 ^ k)
    (hk : k ≤ H.pageBits) (h : GuestInv H O X Y D n k s) (hst : GuestStep H O X Y D s e s')
    (hwell : e.WellBehaved X O D k s) : GuestInv H O X Y D n k s' := by
  cases hst with
  | hit _ => exact h
  | @translate c p q u core inst hp hq hu hc hinst =>
      obtain ⟨hprot, hmap⟩ := platformStep_of_call hu
      refine ⟨(h.pointers.step laws hu trivial trivial trivial).setState hc hinst
        (fun _ _ _ => laws.translate), ?_⟩
      intro c' p' v hv
      rcases code_of_translate laws.code hc hinst hv with hold | ⟨_, rfl, _⟩
      · obtain ⟨q', hq'⟩ := h.guarded c' p' v (code_of_step laws.code hprot hold)
        obtain ⟨hpage, hhost, hg, hmaps⟩ :=
          hq'.step hu (fun hrel => hrel) (fun _ _ heq => by cases heq)
        exact ⟨q', hpage, hhost, hg, hmaps⟩
      · rw [hsize] at hp
        have hmaps : ∀ i < O.pageSize.toNat, _ := fun i hi => h.pointers.maps hq hi
        -- the page is mapped to memory that is aligned as it is
        have hzero : s.mapping (.read, p') = some q := by
          have h0 := hmaps 0 (by rw [hsize]; exact Nat.two_pow_pos k)
          rwa [BitVec.add_zero, BitVec.add_zero] at h0
        have hg : Guarded H O p' q u.platform :=
          guarded_of_protects h.pointers.protector hprot
        refine ⟨q, hp, (hwell.aligned _ _ _ hzero).trans hp, hg, ?_⟩
        intro i hi
        exact (congrFun hmap _).trans (hmaps i hi)
  | store value _ hu => exact h.write laws hu _
  | write a value hu => exact h.write laws hu _
  | other hu he hfetch =>
      refine ⟨h.pointers.step laws hu (keepsCluster_of_keepsMemory he)
        (grants_of_spares hwell.code) (hwell.handlers _ rfl), ?_⟩
      intro c p v hv
      have hold := code_of_pointerStep laws.code hu hfetch hv
      obtain ⟨q, hq⟩ := h.guarded c p v hold
      refine ⟨q, hq.step hu
        (not_releases hsize (hk.trans_lt H.pageBits_lt) he hwell.code hq.page hold) ?_⟩
      rintro start end_ rfl
      exact hwell.code c p v hold

theorem guestInv_init (laws : GuestLaws O X Y D)
    (h0 : (guestCluster H O X Y D clusterid n).init s) : GuestInv H O X Y D n k s := by
  obtain ⟨hplat, hcaches⟩ := h0
  have hbuilt := cpu_built H O Kernel.reliable clusterid n
  rw [← hplat] at hbuilt
  have hl : Living H n s.platform := by
    rw [hplat]
    exact living_cpu H O clusterid n
  refine ⟨⟨hl, serviceable_of_protector hl.wiring.engines hbuilt.protector,
    protector_reachable hbuilt.reachable, ?_⟩, ?_⟩
  · intro holder x hx
    cases holder with
    | cache c =>
        obtain ⟨_, dmi, hmem, _⟩ := hx
        rw [hcaches c, laws.cache.empty] at hmem
        exact hmem.elim
    | engine c =>
        obtain ⟨p, q, i, hi, hq, _⟩ := hx
        exact absurd hq (no_pointer_of_reachable laws.pointers hbuilt.reachable c _ p q)
  · intro c p v hv
    exact absurd hv (no_code_of_reachable laws.code hbuilt.reachable c p v)

end

/-! ## §4. Translations are copies of what the guest reads. -/

/-- The addresses from which a page is executed. -/
def pageCells (O : Ocx σ) (p : U64) : List (TlmCommand × U64) :=
  (List.range O.pageSize.toNat).map (fun i => (.read, p + BitVec.ofNat 64 i))

namespace GuestState

/-- The memory as the guest sees it. -/
def mapped (s : GuestState σ κ) : MappedMemory (TlmCommand × U64) U64 Byte :=
  ⟨s.mapping, s.memory⟩

def copied (X : OcxCode σ) (s : GuestState σ κ) :
    CopiedMemory Nat U64 (TlmCommand × U64) U64 Byte :=
  ⟨s.mapped, fun c p => s.platform.code X c p⟩

end GuestState

/-- What the guest can observe of a step. -/
def GuestEvent.observed (O : Ocx σ) :
    GuestEvent → MappedEvent (TlmCommand × U64) U64 Byte
  | .execute _ p code => .use (pageCells O p) code
  | .store _ x value _ => .store (.write, x) value
  | .write a value _ => .write a value
  | .other (.withdraw start end_) => .remap { x | start ≤ x.2 ∧ x.2 ≤ end_ }
  | .other _ => .idle

section

variable {s s' : GuestState σ κ} {u : PointerState σ κ} {e : GuestEvent}

/-- What is behind the pointer is what the guest addresses read. -/
theorem read_pageCells {p q : U64} (hmaps : ∀ i < O.pageSize.toNat,
    s.mapping (.read, p + BitVec.ofNat 64 i) = some (q + BitVec.ofNat 64 i)) :
    (pageCells O p).map s.mapped.read = (bytesAt O q s.memory).map some := by
  unfold pageCells bytesAt
  rw [List.map_map, List.map_map]
  refine List.map_congr_left ?_
  intro i hi
  exact congrArg (Option.map s.memory) (hmaps i (List.mem_range.mp hi))

/-- A write reaches no address of a page that is still translated. -/
theorem GuestInv.not_mapped (laws : GuestLaws O X Y D) (hsize : O.pageSize.toNat = 2 ^ k)
    (hk : k ≤ H.pageBits) (h : GuestInv H O X Y D n k s) {a : U64} {log : List Effect}
    (hst : PointerStep H O Kernel.reliable Y D s.toPointerState (.call (.write a log)) u)
    {c : Nat} {p : U64} {v : List Byte} (hv : u.platform.code X c p = some v) :
    s.platform.code X c p = some v ∧ ∀ x ∈ pageCells O p, s.mapping x ≠ some a := by
  obtain ⟨hold, q, hq, hne⟩ := h.code_of_write laws hst hv
  refine ⟨hold, ?_⟩
  intro x hx heq
  obtain ⟨i, hi, rfl⟩ := List.mem_map.mp hx
  have hi := List.mem_range.mp hi
  rw [hq.maps i hi] at heq
  injection heq with heq
  exact hne (heq ▸ hq.pageOf_eq hsize hk hi)

/-- A write is one to the memory that the guest sees. -/
theorem mapped_write (h : GuestInv H O X Y D n k s) {a : U64} (value : Byte)
    {log : List Effect}
    (hst : PointerStep H O Kernel.reliable Y D s.toPointerState (.call (.write a log)) u) :
    GuestState.mapped ⟨u, memoryAfter s.memory a value log⟩ = s.mapped.set a value := by
  obtain ⟨hwrite, hmap⟩ := platformStep_of_call hst
  have hstore := store_mem_of_write (repInv_of_reachable h.pointers.protector) hwrite
  unfold GuestState.mapped MappedMemory.set memoryAfter
  rw [if_pos hstore, hmap]

/-- **A step of the cluster is one of a memory with copies.** -/
theorem copied_step (laws : GuestLaws O X Y D) (hsize : O.pageSize.toNat = 2 ^ k)
    (hk : k ≤ H.pageBits) (h : GuestInv H O X Y D n k s) (hst : GuestStep H O X Y D s e s')
    (hwell : e.WellBehaved X O D k s) :
    CopiedStep (pageCells O) (s.copied X) (e.observed O) (s'.copied X) := by
  cases hst with
  | hit hv => exact .hit _ hv
  | @translate c p q u core inst _ hq hu hc hinst =>
      obtain ⟨hprot, hmap⟩ := platformStep_of_call hu
      unfold GuestState.copied GuestState.mapped
      simp only [hmap]
      refine .fill (s.copied X) (i := c)
        (read_pageCells (fun i hi => h.pointers.maps hq hi)) ?_
      intro c' p' v hv
      rcases code_of_translate laws.code hc hinst hv with hold | hnew
      · exact .inl (code_of_step laws.code hprot hold)
      · exact .inr hnew
  | @store c x a value log u hx hu =>
      have hxa := h.pointers.stores hx
      unfold GuestState.copied
      rw [mapped_write h value hu]
      refine .other (s.copied X) (.store _ value hxa) ?_
      intro c' p v hv
      obtain ⟨hold, hout⟩ := h.not_mapped laws hsize hk hu hv
      exact ⟨hold, fun y hy hin => hout y hy (hin.trans hxa)⟩
  | write a value hu =>
      unfold GuestState.copied
      rw [mapped_write h value hu]
      refine .other (s.copied X) (.write _ a value) ?_
      intro c p v hv
      exact h.not_mapped laws hsize hk hu hv
  | @other e u hu he hfetch =>
      have hidle : ∀ c p v, u.platform.code X c p = some v →
          s.platform.code X c p = some v
            ∧ ∀ x ∈ pageCells O p, x ∉ s.mapped.changes .idle :=
        fun c p v hv => ⟨code_of_pointerStep laws.code hu hfetch hv, fun _ _ hin => hin⟩
      cases hu with
      | call _ => exact .other (s.copied X) (.idle _) hidle
      | engineRuns _ _ _ => exact .other (s.copied X) (.idle _) hidle
      | fetch _ _ _ _ _ _ _ => exact .other (s.copied X) (.idle _) hidle
      | withdraw _ _ hmap =>
          refine .other (s.copied X) (.remap _ (fun x hx => hmap x.1 x.2 hx)) ?_
          intro c p v hv
          obtain ⟨hold, _⟩ := hidle c p v hv
          refine ⟨hold, ?_⟩
          intro x hx hin
          obtain ⟨i, hi, rfl⟩ := List.mem_map.mp hx
          exact hwell.code c p v hold ⟨i, List.mem_range.mp hi, hin⟩

/-! ## §5. Runs. -/

theorem guestInv_of_reachable (laws : GuestLaws O X Y D) (hsize : O.pageSize.toNat = 2 ^ k)
    (hk : k ≤ H.pageBits)
    (hr : ((guestCluster H O X Y D clusterid n).guard
      (fun s e => e.WellBehaved X O D k s)).Reachable s) :
    GuestInv H O X Y D n k s := by
  refine hr.invariant ?_ ?_
  · intro s h0
    exact guestInv_init laws h0
  · intro s e s' h hst
    exact guestInv_step laws hsize hk h hst.1 hst.2

/-- **Translations are copies** of what the guest reads at their pages. -/
def copiedCode (laws : GuestLaws O X Y D) (hsize : O.pageSize.toNat = 2 ^ k)
    (hk : k ≤ H.pageBits) (clusterid : U64) (n : Nat) :
    ((guestCluster H O X Y D clusterid n).guard
      (fun s e => e.WellBehaved X O D k s)).Simulation
      (copiedMemory Nat U64 Byte (pageCells O)) where
  label _ e := e.observed O
  rel a s := a = s.copied X
  init s h0 := by
    have hbuilt := cpu_built H O Kernel.reliable clusterid n
    rw [← h0.1] at hbuilt
    refine ⟨s.copied X, ?_, rfl⟩
    intro c p
    cases hv : s.platform.code X c p with
    | none => exact hv
    | some v => exact absurd hv (no_code_of_reachable laws.code hbuilt.reachable c p v)
  step := by
    rintro a s e s' hr rfl hst
    have h := guestInv_of_reachable laws hsize hk hr
    exact ⟨_, copied_step laws hsize hk h hst.1 hst.2, rfl⟩

end

/-- **The guest sees one memory.**  Take any run of a cluster whose engines fetch pages,
protect, translate, execute and store, and are reset, each time to a new engine; whose
cores are destroyed, though none that has an entry; in which others write to host memory
too, and memory is withdrawn and granted again, in whole aligned pages, except where some
core has translated it.  The same executions, stores, writes and withdrawals, in the same
order, are a run of a memory that is reached through the mapping of the target: every
store, by any core, goes to the cell that is mapped for it at that moment, and every
execution takes the bytes that are found there, at that moment, at the addresses of its
page.  And every write that may come next is carried out. -/
theorem guest_sees_one_memory (H : Host) (O : Ocx σ) (X : OcxCode σ) (Y : OcxPointers σ)
    (D : SocketDmi κ) (laws : GuestLaws O X Y D) (clusterid : U64) (n : Nat) {k : Nat}
    (hsize : O.pageSize.toNat = 2 ^ k) (hk : k ≤ H.pageBits)
    {tr : List (GuestState σ κ × GuestEvent)} {s : GuestState σ κ}
    (hr : (guestCluster H O X Y D clusterid n).Run tr s)
    (hwell : ∀ x ∈ tr, x.2.WellBehaved X O D k x.1) :
    (∃ mtr, (mappedMemory (TlmCommand × U64) U64 Byte).Run mtr s.mapped
      ∧ mtr.map Prod.snd = tr.map (fun x => x.2.observed O))
    ∧ ∀ ok a, ∃ log t, s.platform.write H O ok a = some (log, t) := by
  have hguard := hr.guard (C := fun s e => e.WellBehaved X O D k s) hwell
  have hinv := guestInv_of_reachable laws hsize hk ⟨tr, hguard⟩
  refine ⟨?_, hinv.pointers.serviceable.write H O⟩
  obtain ⟨ctr, a, hcopied, hrel, hlabels⟩ :=
    hguard.simulate (copiedCode laws hsize hk clusterid n)
  obtain ⟨mtr, m, hplain, hmem, hevents⟩ :=
    hcopied.simulate (copiedRefinement Nat U64 Byte (pageCells O))
  refine ⟨mtr, ?_, hevents.trans hlabels⟩
  have hm : m = s.mapped := hmem.trans (congrArg CopiedMemory.toMappedMemory hrel)
  rw [hm] at hplain
  exact hplain

/-! ### An engine that is a table of pointers and a table of translations. -/

def guestOcx : Ocx ((TlmCommand → U64 → Option U64) × (U64 → Option (List Byte))) where
  create := (pointerOcx.create, codeOcx.create)
  call c st := (true, (pointerOcx.call c st.1).2, (codeOcx.call c st.2).2)
  readReg _ _ := some 0#64
  pcRegid _ := 32#64
  insnCount _ := 0#64
  pageSize := 4096#64
  step st st' := st' = st

def guestCode : OcxCode ((TlmCommand → U64 → Option U64) × (U64 → Option (List Byte))) where
  code st := tableCode.code st.2
  translate p v st := (st.1, tableCode.translate p v st.2)

theorem guestOcx_laws :
    GuestLaws guestOcx guestCode (fun st => tablePointers st.1) listDmi where
  code :=
    { created := tableCode_laws.created
      call := tableCode_laws.call
      flushed := fun st p => tableCode_laws.flushed st.2 p
      translated := tableCode_laws.translated
      step := by
        rintro st st' rfl p v h
        exact h }
  pointers :=
    { created := tablePointers_laws.created
      call := tablePointers_laws.call
      invalidated := by
        intro start end_ st cmd p q h
        have h : tablePointers (pointerOcx.call (.invalidatePagePtrs start end_) st.1).2 cmd p
            = some q := h
        exact tablePointers_laws.invalidated h
      step := by
        rintro st st' rfl cmd p q h
        exact h }
  cache := listDmi_laws
  translate h := h

theorem twoPages_aligned : AlignedTo 12 (mapsRegion twoPages) := by
  intro cmd x a h
  have h : (if twoPages.allows cmd = true ∧ twoPages.startAddress ≤ x ∧ x ≤ twoPages.endAddress
      then some (twoPages.pagePtr x) else none) = some a := h
  split at h
  · injection h with h
    subst h
    unfold TlmDmi.pagePtr twoPages
    bv_omega
  · cases h

/-- The pointer to the second of the two pages, for one kind of access. -/
def secondPageFor (cmd : TlmCommand) : TlmCommand → U64 → Option U64 := fun cmd' p =>
  if cmd' = cmd ∧ p = 0x2000#64 then some 0x70001000#64 else none

/-- A core whose cache is empty fetches the second of the two pages. -/
theorem secondPage_fetchedFor
    (s : GuestState ((TlmCommand → U64 → Option U64) × (U64 → Option (List Byte)))
      (List TlmDmi)) (cmd : TlmCommand) {c : Nat} {core : Core _} {inst : OcxInstance _}
    (hc : s.platform.cores c = some core) (hinst : core.mCore = some inst)
    (hcache : s.caches c = []) (hmap : s.mapping = mapsRegion twoPages) :
    GuestStep Host.kib4 guestOcx guestCode (fun st => tablePointers st.1) listDmi s
      (.other (.fetch c cmd 0x2000#64 (oneRegion twoPages)))
      ⟨⟨s.platform.setCore c (some { core with
          mCore := some ⟨inst.id, secondPageFor cmd, inst.state.2⟩ }),
        Function.update s.caches c [twoPages], s.mapping⟩, s.memory⟩ := by
  have hfetch : getPagePtr guestOcx listDmi.cache cmd 0x2000#64 (oneRegion twoPages) []
      = (some 0x70001000#64, [twoPages]) := by
    cases cmd <;> rfl
  have hcaches : Function.update s.caches c [twoPages] = Function.update s.caches c
      (getPagePtr guestOcx listDmi.cache cmd 0x2000#64 (oneRegion twoPages) (s.caches c)).2 := by
    rw [hcache, hfetch]
  rw [hcaches]
  refine .other s (.fetch _ cmd hc hinst rfl (oneRegion_law twoPages)
    (hmap ▸ oneRegion_answers twoPages) ?_) trivial ?_
  · intro cmd' p q h
    have h : (if cmd' = cmd ∧ p = 0x2000#64 then some 0x70001000#64 else none) = some q := h
    split at h
    · next heq => exact .inr ⟨heq.1, heq.2, by rw [hcache, hfetch]; exact h⟩
    · cases h
  · intro _ c' p v hv
    -- the table of translations is the same
    rcases code_setState hc hinst hv with hold | ⟨rfl, hv, hstate⟩
    · exact hold
    · exact code_eq_some.mpr ⟨_, hstate, hv⟩

/-- One core executes a page, the other one stores to it, the first executes it again. -/
theorem guest_sees_one_memory_two_cores :
    ∃ tr s mtr,
      (guestCluster Host.kib4 guestOcx guestCode (fun st => tablePointers st.1) listDmi
        0 2).Run tr s
      ∧ (mappedMemory (TlmCommand × U64) U64 Byte).Run mtr s.mapped
      ∧ mtr.map Prod.snd = [.idle,
        .use (pageCells guestOcx 0x2000#64) (bytesAt guestOcx 0x70001000#64 (fun _ => 0#8)),
        .idle, .store (.write, 0x2008#64) 7#8,
        .use (pageCells guestOcx 0x2000#64) (bytesAt guestOcx 0x70001000#64
          (Function.update (fun _ => 0#8) 0x70001008#64 7#8))]
      ∧ ∀ ok a, ∃ log t, s.platform.write Host.kib4 guestOcx ok a = some (log, t) := by
  have hok : (fun _ => true) ∈ Kernel.reliable := fun _ => rfl
  have h0 : (guestCluster Host.kib4 guestOcx guestCode (fun st => tablePointers st.1) listDmi
      0 2).init ⟨⟨cpu guestOcx 0 2, fun _ => [], mapsRegion twoPages⟩, fun _ => 0#8⟩ :=
    ⟨rfl, fun _ => rfl⟩
  have h₁ := (Lts.Run.start h0).snoc (secondPage_fetchedFor _ .read (c := 0) rfl rfl rfl rfl)
  have h₂ := h₁.snoc (.translate _ (c := 0) (p := 0x2000#64) (q := 0x70001000#64) rfl
    ⟨_, rfl, rfl⟩ (.call _ (.protectPage _ 0x70001000#64 0x2000#64 hok rfl)) rfl rfl)
  have h₃ := h₂.snoc (secondPage_fetchedFor _ .write (c := 1) rfl rfl rfl rfl)
  have h₄ := h₃.snoc (.store _ (c := 1) (x := 0x2008#64) (a := 0x70001008#64) 7#8
    ⟨0x2000#64, 0x70001000#64, ⟨_, rfl, rfl⟩, 8, by decide, rfl, rfl⟩
    (.call _ (.write _ 0x70001008#64 hok rfl)))
  have h₅ := h₄.snoc (.translate _ (c := 0) (p := 0x2000#64) (q := 0x70001000#64) rfl
    ⟨_, rfl, rfl⟩ (.call _ (.protectPage _ 0x70001000#64 0x2000#64 hok rfl)) rfl rfl)
  have h := guest_sees_one_memory Host.kib4 guestOcx guestCode
    (fun st => tablePointers st.1) listDmi guestOcx_laws 0 2 (k := 12) rfl (Nat.le_refl 12)
    h₅ ?_
  · obtain ⟨⟨mtr, hplain, hevents⟩, hwrites⟩ := h
    exact ⟨_, _, mtr, h₅, hplain, hevents, hwrites⟩
  · intro x hx
    simp only [List.nil_append, List.cons_append, List.mem_cons, List.not_mem_nil,
      or_false] at hx
    rcases hx with rfl | rfl | rfl | rfl | rfl
    · refine ⟨twoPages_aligned, secondPage_grants rfl .read, ?_⟩
      rintro _ ⟨⟩
      trivial
    · exact ⟨twoPages_aligned, trivial, fun _ heq => by cases heq⟩
    · refine ⟨twoPages_aligned, secondPage_grants rfl .write, ?_⟩
      rintro _ ⟨⟩
      trivial
    · exact ⟨twoPages_aligned, trivial, fun _ heq => by cases heq⟩
    · exact ⟨twoPages_aligned, trivial, fun _ heq => by cases heq⟩

end Avp64.Psp
