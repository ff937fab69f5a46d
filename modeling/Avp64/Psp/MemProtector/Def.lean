/-
  Avp64.Psp.MemProtector.Def — `psp::mem_protector`, the write protection of host
  pages that hold translated guest code.

  A core that translates code from a guest page registers the page.  The
  protector makes the host page that holds it read-only; the first write to that
  host page raises SIGSEGV, the handler tells the recorded clients to drop their
  translations (`update_page`), makes the page writable again and lets the write
  through.

  The map `m_protected_pages` is a `Finmap`, since the iteration order of an
  `unordered_map` is unspecified: the loops over it take the order in which they
  meet the keys as an argument.  `mprotect` belongs to the kernel: `ok addr` says
  whether the kernel accepts the call for the page `addr`.
-/
import Avp64.Lib.PageMask
import Mathlib.Data.Finmap

namespace Avp64.Psp

open Avp64.Lib

abbrev U64 := BitVec 64

/-! ## §1. The host. -/

/-- The page size of the host, a power of two: `pageBits` is `HOST_PAGE_BITS`. -/
structure Host where
  pageBits : Nat
  pageBits_lt : pageBits < 64
  deriving Repr

namespace Host

/-- `mwr::get_page_size()`. -/
def getPageSize (H : Host) : U64 := BitVec.twoPow 64 H.pageBits

/-- `HOST_PAGE_MASK`. -/
def pageMask (H : Host) : U64 := ~~~(H.getPageSize - 1#64)

/-- The first address of the host page that holds `addr`. -/
def pageOf (H : Host) (addr : U64) : U64 := addr &&& H.pageMask

@[simp] theorem pageOf_pageOf (H : Host) (addr : U64) :
    H.pageOf (H.pageOf addr) = H.pageOf addr :=
  and_pageMask_idem addr H.pageBits

/-- The alignment check of `protect_page` and `unprotect_page`. -/
theorem and_not_pageMask (H : Host) (addr : U64) :
    addr &&& ~~~H.pageMask = 0 ↔ H.pageOf addr = addr :=
  and_not_pageMask_eq_zero addr H.pageBits

/-- An aligned target page that is no larger than a host page lies in one. -/
theorem pageOf_add (H : Host) {k : Nat} (hk : k ≤ H.pageBits) {h i : U64}
    (hh : h.toNat % 2 ^ k = 0) (hi : i.toNat < 2 ^ k) :
    H.pageOf (h + i) = H.pageOf h :=
  add_and_pageMask H.pageBits_lt hk hh hi

/-- The first address of a host page is aligned to every smaller page size. -/
theorem aligned_of_pageOf_eq (H : Host) {k : Nat} (hk : k ≤ H.pageBits) {h : U64}
    (hh : H.pageOf h = h) : h.toNat % 2 ^ k = 0 := by
  have hval := toNat_and_pageMask H.pageBits_lt h
  rw [show h &&& Lib.pageMask 64 H.pageBits = h from hh] at hval
  rw [hval]
  exact Nat.mod_eq_zero_of_dvd ((Nat.pow_dvd_pow 2 hk).mul_right _)

/-- A host with pages of 4 KiB. -/
def kib4 : Host := ⟨12, by decide⟩

end Host

/-! ## §2. The data. -/

/-- What `VCML_ERROR_ON` raises here, with the values it prints. -/
inductive Error where
  | hostPageTooSmall
  | pageSizeZero
  | pageAddrMismatch (stored passed : U64)
  | protectFailed
  | unprotectFailed
  | invalidPageAddress (addr : U64)
  deriving DecidableEq, Repr

/-- The format strings of the errors. -/
def Error.text : Error → String
  | .hostPageTooSmall =>
      "host page size is smaller than the target one - not implemented"
  | .pageSizeZero => "page size is 0"
  | .pageAddrMismatch _ _ => "page_addr do not match! %llu vs. %llu"
  | .protectFailed => "failed to protect page: %s"
  | .unprotectFailed => "failed to unprotect page: %s"
  | .invalidPageAddress _ => "invalid page address: %llu"

/-- The text of an error says which check has failed. -/
theorem Error.text_eq_iff (e e' : Error) : e.text = e'.text ↔ e.ctorIdx = e'.ctorIdx := by
  cases e <;> cases e' <;> simp [Error.text, Error.ctorIdx]

/-- One registered target page; `C` are the clients (`mem_protector_if*`). -/
structure TargetPageData (C : Type) where
  c : C
  pageAddr : U64
  pageSize : U64
  hostAddress : U64
  deriving DecidableEq, Repr

structure HostPageData (C : Type) where
  targetPages : List (TargetPageData C) := []
  locked : Bool := false
  deriving DecidableEq, Repr

/-- The singleton's map, and the host's page table as far as `mprotect` changes
it: `readOnly k` says that the host page `k` is mapped `PROT_READ` only. -/
structure MemProtector (C : Type) where
  protectedPages : Finmap (fun _ : U64 => HostPageData C) := ∅
  readOnly : U64 → Bool := fun _ => false

variable {C : Type}

namespace MemProtector

def lookup (s : MemProtector C) (k : U64) : Option (HostPageData C) :=
  s.protectedPages.lookup k

/-- `m_protected_pages[k]` read, without the insertion. -/
def hostPage (s : MemProtector C) (k : U64) : HostPageData C :=
  (s.lookup k).getD {}

def setHostPage (s : MemProtector C) (k : U64) (hp : HostPageData C) :
    MemProtector C :=
  { s with protectedPages := s.protectedPages.insert k hp }

def eraseHostPage (s : MemProtector C) (k : U64) : MemProtector C :=
  { s with protectedPages := s.protectedPages.erase k }

def setReadOnly (s : MemProtector C) (k : U64) (ro : Bool) : MemProtector C :=
  { s with readOnly := Function.update s.readOnly k ro }

end MemProtector

/-! ## §3. `mprotect`, `protect_page`, `unprotect_page`. -/

inductive Prot where
  | read
  | readWrite
  deriving DecidableEq, Repr

/-- `mprotect(addr, get_page_size(), prot)` on the host page `addr`: a call the
kernel rejects changes nothing. -/
def mprotect (ok : U64 → Bool) (addr : U64) (prot : Prot) (s : MemProtector C) :
    Bool × MemProtector C :=
  if ok addr then (true, s.setReadOnly addr (prot == .read)) else (false, s)

/-- The common body of `protect_page` and `unprotect_page`. -/
def changePage (H : Host) (ok : U64 → Bool) (prot : Prot) (addr : U64)
    (s : MemProtector C) : Except Error Bool × MemProtector C :=
  if addr &&& ~~~H.pageMask ≠ 0 then (.error (.invalidPageAddress addr), s)
  else
    let (b, s) := mprotect ok addr prot s
    (.ok b, s)

def protectPage (H : Host) (ok : U64 → Bool) (addr : U64) (s : MemProtector C) :
    Except Error Bool × MemProtector C :=
  changePage H ok .read addr s

def unprotectPage (H : Host) (ok : U64 → Bool) (addr : U64) (s : MemProtector C) :
    Except Error Bool × MemProtector C :=
  changePage H ok .readWrite addr s

/-! ## §4. `register_page`. -/

/-- The loop of `register_page` over the target pages of the host page.  `none`
is the early `return`; `some b` leaves the loop with `target_page_found = b`. -/
def scanTargetPages (pageAddr hostAddr : U64) (locked : Bool) :
    List (TargetPageData C) → Bool → Except Error (Option Bool)
  | [], found => .ok (some found)
  | tp :: tps, found =>
      if tp.hostAddress = hostAddr then
        if tp.pageAddr ≠ pageAddr then
          .error (.pageAddrMismatch tp.pageAddr pageAddr)
        else if locked then .ok none
        else scanTargetPages pageAddr hostAddr locked tps true
      else scanTargetPages pageAddr hostAddr locked tps found

/-- `register_page(core, page_addr, host_addr)`; `pageSize` is the clients'
`page_size()`. -/
def registerPage (H : Host) (pageSize : C → U64) (ok : U64 → Bool) (core : C)
    (pageAddr hostAddr : U64) (s : MemProtector C) :
    Except Error Unit × MemProtector C :=
  let targetPageSize := pageSize core
  if H.getPageSize < targetPageSize then (.error .hostPageTooSmall, s)
  else if targetPageSize = 0 then (.error .pageSizeZero, s)
  else
    let hostPageAddr := H.pageOf hostAddr
    -- `m_protected_pages[host_page_addr]` stores a default entry for a new page
    let hostPage := s.hostPage hostPageAddr
    let s := s.setHostPage hostPageAddr hostPage
    match scanTargetPages pageAddr hostAddr hostPage.locked hostPage.targetPages
        false with
    | .error e => (.error e, s)
    | .ok none => (.ok (), s)
    | .ok (some targetPageFound) =>
        let hostPage :=
          if targetPageFound then hostPage
          else { hostPage with
            targetPages := hostPage.targetPages ++
              [⟨core, pageAddr, targetPageSize, hostAddr⟩] }
        let s := s.setHostPage hostPageAddr hostPage
        -- the source passes `host_addr` here, not `host_page_addr`
        match protectPage H ok hostAddr s with
        | (.error e, s) => (.error e, s)
        | (.ok false, s) => (.error .protectFailed, s)
        | (.ok true, s) =>
            (.ok (), s.setHostPage hostPageAddr { hostPage with locked := true })

/-! ## §5. `notify_page` and the SIGSEGV handler. -/

/-- What happens on the host while one memory access is carried out. -/
inductive Action (C : Type) where
  /-- SIGSEGV is delivered with `si_addr = addr`. -/
  | fault (addr : U64)
  /-- `c->update_page(pageAddr)`. -/
  | updatePage (c : C) (pageAddr : U64)
  /-- The signal is passed on to the handler installed before. -/
  | original (addr : U64)
  /-- The write takes effect. -/
  | store (addr : U64)
  deriving DecidableEq, Repr

/-- `notify_page(access_addr)`, with the client calls it makes. -/
def notifyPage (H : Host) (ok : U64 → Bool) (accessAddr : U64) (s : MemProtector C) :
    Except Error Bool × List (Action C) × MemProtector C :=
  let pageAddr := H.pageOf accessAddr
  match s.lookup pageAddr with
  | none => (.ok false, [], s)
  | some page =>
      let calls := page.targetPages.map (fun tp => .updatePage tp.c tp.pageAddr)
      match unprotectPage H ok pageAddr s with
      | (.error e, s) => (.error e, calls, s)
      | (.ok true, s) =>
          (.ok true, calls, s.setHostPage pageAddr { page with locked := false })
      | (.ok false, s) => (.ok false, calls, s)

/-- `segfault_handler_int(SIGSEGV, si, arg)` with `si->si_addr = addr`. -/
def segfaultHandlerInt (H : Host) (ok : U64 → Bool) (addr : U64)
    (s : MemProtector C) : List (Action C) × MemProtector C :=
  match notifyPage H ok addr s with
  | (.ok true, calls, s) => (calls, s)
  | (.ok false, calls, s) => (calls ++ [.original addr], s)
  | (.error _, calls, s) => (calls, s)

/-- A write to host memory.  On a read-only page it faults; when the handler
returns, the instruction is restarted and takes effect if the page is writable
by then. -/
def hostWrite (H : Host) (ok : U64 → Bool) (addr : U64) (s : MemProtector C) :
    List (Action C) × MemProtector C :=
  if s.readOnly (H.pageOf addr) then
    let (log, s) := segfaultHandlerInt H ok addr s
    if s.readOnly (H.pageOf addr) then (.fault addr :: log, s)
    else (.fault addr :: log ++ [.store addr], s)
  else ([.store addr], s)

/-! ## §6. `deregister_page`, `deregister_pages`. -/

/-- The inner loop of the deregistration: erase while iterating. -/
def eraseTargetPages (covered : TargetPageData C → Bool) :
    List (TargetPageData C) → List (TargetPageData C)
  | [] => []
  | tp :: tps =>
      if covered tp then eraseTargetPages covered tps
      else tp :: eraseTargetPages covered tps

/-- The outer loop over the host pages, met in the order of the list. -/
def deregisterLoop (H : Host) (ok : U64 → Bool) (covered : TargetPageData C → Bool) :
    List U64 → MemProtector C → Except Error Unit × MemProtector C
  | [], s => (.ok (), s)
  | k :: ks, s =>
      match s.lookup k with
      | none => deregisterLoop H ok covered ks s
      | some hp =>
          let targetPages := eraseTargetPages covered hp.targetPages
          let s := s.setHostPage k { hp with targetPages := targetPages }
          if targetPages.isEmpty && hp.locked then
            match unprotectPage H ok k s with
            | (.error e, s) => (.error e, s)
            | (.ok false, s) => (.error .unprotectFailed, s)
            | (.ok true, s) => deregisterLoop H ok covered ks (s.eraseHostPage k)
          else deregisterLoop H ok covered ks s

/-- The test of `deregister_page`. -/
def namesPage (pageAddr : U64) (tp : TargetPageData C) : Bool :=
  tp.pageAddr == pageAddr

/-- The test of `deregister_pages`, in the `u64` arithmetic of the source. -/
def coveredBy (start end_ : U64) (tp : TargetPageData C) : Bool :=
  let targetPageStart := tp.pageAddr
  let targetPageEnd := targetPageStart + tp.pageSize - 1#64
  decide (start ≤ targetPageStart) && decide (targetPageEnd ≤ end_)

/-- `deregister_page(cpu, page_addr)`.  The source never reads `cpu`. -/
def deregisterPage (H : Host) (ok : U64 → Bool) (order : List U64) (_cpu : C)
    (pageAddr : U64) (s : MemProtector C) : Except Error Unit × MemProtector C :=
  deregisterLoop H ok (namesPage pageAddr) order s

/-- `deregister_pages(cpu, start, end)`.  The source never reads `cpu`. -/
def deregisterPages (H : Host) (ok : U64 → Bool) (order : List U64) (_cpu : C)
    (start end_ : U64) (s : MemProtector C) : Except Error Unit × MemProtector C :=
  deregisterLoop H ok (coveredBy start end_) order s

end Avp64.Psp
