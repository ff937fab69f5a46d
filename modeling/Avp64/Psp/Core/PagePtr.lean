/-
  Avp64.Psp.Core.PagePtr — the host pointers to pages of the guest.

  `get_page_ptr_r` and `get_page_ptr_w` look the page up in the DMI cache of the `insn`
  socket.  On a miss they ask the target for a region, add it to the cache and return a
  pointer into it, whether or not it holds the whole page.  The engine takes the pointer
  for one to the whole page.

    • `getPagePtr_eq_fetch`   — the cache is used as a `Cache`,
    • `page_ptr_whole_iff`    — when a pointer is good for the whole page, on both paths,
    • `half_page_granted`     — a target that grants half a page.

  The cache and the target are parameters.
-/
import Avp64.Lib.ReadThrough
import Avp64.Psp.Core.Def

namespace Avp64.Psp

open Avp64.Lib

variable {σ κ : Type}

/-! ## §1. Regions and requests. -/

inductive TlmCommand where
  | read
  | write
  deriving DecidableEq, Repr

/-- `tlm::tlm_dmi`: host memory for the addresses from `startAddress` to `endAddress`. -/
structure TlmDmi where
  dmiPtr : U64
  startAddress : U64
  endAddress : U64
  readAllowed : Bool
  writeAllowed : Bool
  deriving DecidableEq, Repr

/-- What `dmi_cache().lookup` is asked for. -/
structure DmiLookup where
  addr : U64
  size : U64
  cmd : TlmCommand
  deriving DecidableEq, Repr

/-- `tlm::tlm_generic_payload`, as far as it is set here. -/
structure TlmPayload where
  address : U64
  streamingWidth : U64
  dataLength : U64
  command : TlmCommand
  deriving DecidableEq, Repr

namespace TlmDmi

def allows (dmi : TlmDmi) : TlmCommand → Bool
  | .read => dmi.readAllowed
  | .write => dmi.writeAllowed

/-- All addresses from `addr` to `addr + size - 1` are in the region. -/
def covers (dmi : TlmDmi) (addr size : U64) : Prop :=
  dmi.startAddress ≤ addr ∧ addr.toNat + size.toNat ≤ dmi.endAddress.toNat + 1

def serves (r : DmiLookup) (dmi : TlmDmi) : Prop :=
  dmi.allows r.cmd = true ∧ dmi.covers r.addr r.size

instance (dmi : TlmDmi) (addr size : U64) : Decidable (dmi.covers addr size) :=
  inferInstanceAs (Decidable (_ ∧ _))

instance (r : DmiLookup) (dmi : TlmDmi) : Decidable (serves r dmi) :=
  inferInstanceAs (Decidable (_ ∧ _))

end TlmDmi

/-- A whole number of sizes from zero. -/
def DmiLookup.aligned : Set DmiLookup := { r | r.addr.toNat % r.size.toNat = 0 }

/-- What is relied on about the answers of `get_direct_mem_ptr`. -/
def TargetLaw (target : TlmPayload → Option TlmDmi) : Prop :=
  ∀ tx dmi, target tx = some dmi → dmi.allows tx.command = true
    ∧ dmi.startAddress ≤ tx.address ∧ tx.address ≤ dmi.endAddress

/-- `map_dmi` and `dmi_cache().lookup` of `vcml::tlm_initiator_socket`; `κ` are the
contents of the cache. -/
abbrev DmiCache (κ : Type) := Cache κ DmiLookup TlmDmi

/-! ## §2. `get_page_ptr_r` and `get_page_ptr_w`. -/

/-- The pointer that both compute from a region. -/
def TlmDmi.pagePtr (dmi : TlmDmi) (pagePaddr : U64) : U64 :=
  dmi.dmiPtr + pagePaddr - dmi.startAddress

namespace Core

/-- The lookup of `get_page_ptr_r` or `get_page_ptr_w`. -/
def pageLookup (O : Ocx σ) (cmd : TlmCommand) (pagePaddr : U64) : DmiLookup :=
  ⟨pagePaddr, O.pageSize, cmd⟩

/-- The transaction that both pass to `get_direct_mem_ptr`. -/
def pagePayload (O : Ocx σ) (cmd : TlmCommand) (pagePaddr : U64) : TlmPayload :=
  ⟨pagePaddr, O.pageSize, O.pageSize, cmd⟩

/-- The common body; `none` is `nullptr`. -/
def getPagePtr (O : Ocx σ) (C : DmiCache κ) (cmd : TlmCommand) (pagePaddr : U64)
    (target : TlmPayload → Option TlmDmi) (cache : κ) : Option U64 × κ :=
  match C.lookup cache (pageLookup O cmd pagePaddr) with
  | some dmi => (some (dmi.pagePtr pagePaddr), cache)
  | none =>
      match target (pagePayload O cmd pagePaddr) with
      | some dmi => (some (dmi.pagePtr pagePaddr), C.add dmi cache)
      | none => (none, cache)

/-- `get_page_ptr_r(page_paddr)`. -/
def getPagePtrR (O : Ocx σ) (C : DmiCache κ) (pagePaddr : U64)
    (target : TlmPayload → Option TlmDmi) (cache : κ) : Option U64 × κ :=
  getPagePtr O C .read pagePaddr target cache

/-- `get_page_ptr_w(page_paddr)`. -/
def getPagePtrW (O : Ocx σ) (C : DmiCache κ) (pagePaddr : U64)
    (target : TlmPayload → Option TlmDmi) (cache : κ) : Option U64 × κ :=
  getPagePtr O C .write pagePaddr target cache

end Core

open Avp64.Psp.Core

variable {O : Ocx σ} {C : DmiCache κ} {entries : κ → Set TlmDmi} {cmd : TlmCommand}
  {pagePaddr : U64} {target : TlmPayload → Option TlmDmi} {cache : κ}

/-- **The page pointers are a read-through cache** of regions. -/
theorem getPagePtr_eq_fetch (O : Ocx σ) (C : DmiCache κ) (cmd : TlmCommand)
    (pagePaddr : U64) (target : TlmPayload → Option TlmDmi) (cache : κ) :
    getPagePtr O C cmd pagePaddr target cache
      = Prod.map (Option.map (·.pagePtr pagePaddr)) id
          (C.fetch (pageLookup O cmd pagePaddr) (target (pagePayload O cmd pagePaddr))
            cache) := by
  unfold getPagePtr
  have hcase := fetch_case C (pageLookup O cmd pagePaddr)
    (target (pagePayload O cmd pagePaddr)) cache
  generalize target (pagePayload O cmd pagePaddr) = answer at hcase
  generalize C.fetch (pageLookup O cmd pagePaddr) answer cache = x at hcase
  cases hcase with
  | found hl =>
      rw [hl]
      rfl
  | answered hl =>
      rw [hl]
      rfl
  | refused hl =>
      rw [hl]
      rfl

/-- The pointer, as an offset into the region. -/
theorem pagePtr_eq (dmi : TlmDmi) (pagePaddr : U64) :
    dmi.pagePtr pagePaddr = dmi.dmiPtr + (pagePaddr - dmi.startAddress) := by
  unfold TlmDmi.pagePtr
  rw [BitVec.sub_eq_add_neg, BitVec.add_assoc, ← BitVec.sub_eq_add_neg]

/-! ## §3. Pointers to the whole page. -/

/-- What the calls of `get`, one of `get_page_ptr_r` and `get_page_ptr_w`, for the page
of `r` owe the engine. -/
structure WholePage (C : DmiCache κ) (entries : κ → Set TlmDmi) (r : DmiLookup)
    (get : (TlmPayload → Option TlmDmi) → κ → Option U64 × κ)
    (target : TlmPayload → Option TlmDmi) (cache : κ) : Prop where
  /-- The pointer lies in a granted region that holds the whole page. -/
  valid : ∀ q, (get target cache).1 = some q →
    ∃ dmi ∈ entries (get target cache).2, dmi.serves r
      ∧ q = dmi.dmiPtr + (r.addr - dmi.startAddress)
  /-- A region that is in the cache now gives the same without the target. -/
  cached : (get (fun _ => none) (get target cache).2).1 = (get target cache).1
  /-- A region that was found gives the same if it is freshly granted. -/
  fresh : ∀ dmi, C.lookup cache r = some dmi → ∀ cache', C.lookup cache' r = none →
    (get (fun _ => some dmi) cache').1 = (get target cache).1

/-- On a miss the target grants the whole page or nothing. -/
def GrantsWhole (C : DmiCache κ) (r : DmiLookup) (answer : Option TlmDmi) (cache : κ) :
    Prop :=
  C.lookup cache r = none → ∀ dmi, answer = some dmi → dmi.covers r.addr r.size

/-- The access is granted anyway; the size is not. -/
theorem answerServes_iff (htarget : TargetLaw target) :
    AnswerServes C TlmDmi.serves (pageLookup O cmd pagePaddr)
        (target (pagePayload O cmd pagePaddr)) cache
      ↔ GrantsWhole C (pageLookup O cmd pagePaddr) (target (pagePayload O cmd pagePaddr))
          cache := by
  constructor
  · intro h hmiss dmi ha
    exact (h hmiss dmi ha).2
  · intro h hmiss dmi ha
    exact ⟨(htarget _ dmi ha).1, h hmiss dmi ha⟩

/-- Both kinds of access. -/
theorem wholePage_iff (laws : CacheLaws C entries TlmDmi.serves DmiLookup.aligned)
    (htarget : TargetLaw target) (haligned : pagePaddr.toNat % O.pageSize.toNat = 0)
    (cache : κ) :
    WholePage C entries (pageLookup O cmd pagePaddr) (getPagePtr O C cmd pagePaddr) target
        cache
      ↔ GrantsWhole C (pageLookup O cmd pagePaddr) (target (pagePayload O cmd pagePaddr))
          cache := by
  have hr : pageLookup O cmd pagePaddr ∈ DmiLookup.aligned := haligned
  rw [← answerServes_iff htarget]
  constructor
  · intro h
    refine (fetch_serves_iff laws hr (·.pagePtr pagePaddr)).mp ?_
    intro dmi hdmi
    have hq : (getPagePtr O C cmd pagePaddr target cache).1
        = some (dmi.pagePtr pagePaddr) := by
      rw [getPagePtr_eq_fetch]
      exact congrArg (Option.map _) hdmi
    obtain ⟨dmi', hmem, hserves, heq⟩ := h.valid _ hq
    rw [getPagePtr_eq_fetch] at hmem
    exact ⟨dmi', hmem, hserves, heq.trans (pagePtr_eq dmi' pagePaddr).symm⟩
  · intro h
    refine ⟨?_, ?_, ?_⟩
    · intro q hq
      rw [getPagePtr_eq_fetch] at hq
      obtain ⟨dmi, hdmi, rfl⟩ := Option.map_eq_some_iff.mp hq
      obtain ⟨dmi', hmem, hserves, heq⟩ :=
        (fetch_serves_iff laws hr (·.pagePtr pagePaddr)).mpr h dmi hdmi
      rw [getPagePtr_eq_fetch]
      exact ⟨dmi', hmem, hserves, heq.trans (pagePtr_eq dmi' pagePaddr)⟩
    · rw [getPagePtr_eq_fetch, getPagePtr_eq_fetch]
      exact congrArg (Option.map _) ((fetch_again_iff laws hr).mpr h)
    · intro dmi hl cache' hl'
      rw [getPagePtr_eq_fetch, getPagePtr_eq_fetch, fetch_of_answer hl', fetch_of_found hl]
      rfl

/-- **A page pointer is good for the whole page, and the same on both paths, exactly if
the target does not grant less than the page on a miss.** -/
theorem page_ptr_whole_iff (O : Ocx σ) (C : DmiCache κ) (entries : κ → Set TlmDmi)
    (laws : CacheLaws C entries TlmDmi.serves DmiLookup.aligned)
    {target : TlmPayload → Option TlmDmi} (htarget : TargetLaw target) {pagePaddr : U64}
    (haligned : pagePaddr.toNat % O.pageSize.toNat = 0) (cache : κ) :
    (WholePage C entries (pageLookup O .read pagePaddr) (getPagePtrR O C pagePaddr) target
          cache
        ↔ GrantsWhole C (pageLookup O .read pagePaddr)
          (target (pagePayload O .read pagePaddr)) cache)
      ∧ (WholePage C entries (pageLookup O .write pagePaddr) (getPagePtrW O C pagePaddr)
          target cache
        ↔ GrantsWhole C (pageLookup O .write pagePaddr)
          (target (pagePayload O .write pagePaddr)) cache) :=
  ⟨wholePage_iff laws htarget haligned cache, wholePage_iff laws htarget haligned cache⟩

/-! ### A list as the cache, one region as the target. -/

def listCache : DmiCache (List TlmDmi) where
  lookup cache r := cache.find? (fun dmi => decide (dmi.serves r))
  add dmi cache := dmi :: cache

theorem listCache_laws (requests : Set DmiLookup) :
    CacheLaws listCache (fun cache => { dmi | dmi ∈ cache }) TlmDmi.serves requests := by
  constructor
  · intro cache r dmi _ h
    have h : cache.find? (fun dmi => decide (dmi.serves r)) = some dmi := h
    have hserves := List.find?_some h
    rw [decide_eq_true_eq] at hserves
    exact ⟨List.mem_of_find?_eq_some h, hserves⟩
  · intro cache r _ h dmi hmem hserves
    have hno := List.find?_eq_none.mp h dmi hmem
    exact hno (decide_eq_true hserves)
  · intro dmi cache
    ext dmi'
    exact List.mem_cons

/-- A target that has one region. -/
def oneRegion (dmi : TlmDmi) (tx : TlmPayload) : Option TlmDmi :=
  if dmi.allows tx.command = true ∧ dmi.startAddress ≤ tx.address
    ∧ tx.address ≤ dmi.endAddress then some dmi else none

theorem oneRegion_law (dmi : TlmDmi) : TargetLaw (oneRegion dmi) := by
  intro tx dmi' h
  unfold oneRegion at h
  split at h
  next hin =>
    injection h with h
    exact h ▸ hin
  next => cases h

/-- A region of two pages that can be read and written. -/
def twoPages : TlmDmi := ⟨0x70000000#64, 0x1000#64, 0x2fff#64, true, true⟩

/-- A region that ends inside its first page. -/
def halfPage : TlmDmi := ⟨0x70000000#64, 0x1000#64, 0x17ff#64, true, true⟩

theorem page_ptr_whole_two :
    (WholePage listCache (fun cache => { dmi | dmi ∈ cache })
          (pageLookup smallOcx .read 0x2000#64) (getPagePtrR smallOcx listCache 0x2000#64)
          (oneRegion twoPages) []
        ↔ GrantsWhole listCache (pageLookup smallOcx .read 0x2000#64)
          (oneRegion twoPages (pagePayload smallOcx .read 0x2000#64)) [])
      ∧ (WholePage listCache (fun cache => { dmi | dmi ∈ cache })
          (pageLookup smallOcx .write 0x2000#64) (getPagePtrW smallOcx listCache 0x2000#64)
          (oneRegion twoPages) []
        ↔ GrantsWhole listCache (pageLookup smallOcx .write 0x2000#64)
          (oneRegion twoPages (pagePayload smallOcx .write 0x2000#64)) []) :=
  page_ptr_whole_iff smallOcx listCache _ (listCache_laws _) (oneRegion_law twoPages)
    (by decide) []

/-- The target grants half of the page `0x1000`: `get_page_ptr_r` returns a pointer to
it. -/
theorem half_page_granted :
    ¬ ∀ (target : TlmPayload → Option TlmDmi), TargetLaw target → ∀ (pagePaddr : U64),
      pagePaddr.toNat % smallOcx.pageSize.toNat = 0 → ∀ (cache : List TlmDmi),
      WholePage listCache (fun cache => { dmi | dmi ∈ cache })
        (pageLookup smallOcx .read pagePaddr) (getPagePtrR smallOcx listCache pagePaddr)
        target cache := by
  intro hall
  have h := hall (oneRegion halfPage) (oneRegion_law halfPage) 0x1000#64 (by decide) []
  obtain ⟨dmi, hmem, ⟨_, hcovers⟩, _⟩ := h.valid 0x70000000#64 (by decide)
  have hdmi : dmi = halfPage := List.mem_singleton.mp hmem
  subst hdmi
  exact absurd hcovers (by decide)

end Avp64.Psp
