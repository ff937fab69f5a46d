/-
  Avp64.Psp.Platform.Def — the cores and the protector together.

  A core is a client of the singleton `mem_protector`: `protect_page` registers a
  page for it, `invalidate_dmi` deregisters, and the SIGSEGV handler calls its
  `update_page`, which flushes the page in its own engine and in those of its
  subscribers.  `cpu` builds the cores of a cluster, each subscribed to all others.

  A core is referred to by a number that is never used again; a `weak_ptr` locks as
  long as the core of its number is there.  A function is `none` where the source
  has no defined behaviour: a call on a destroyed core or through a null `m_core`.
-/
import Avp64.Psp.Core.Def

namespace Avp64.Psp

variable {σ : Type}

/-! ## §1. State and effects. -/

structure Platform (σ : Type) where
  protector : MemProtector Nat := {}
  cores : Nat → Option (Core σ) := fun _ => none
  /-- The number of the next core. -/
  nextCore : Nat := 0
  /-- The number of the next engine instance. -/
  nextInst : Nat := 0

/-- What happens while one write to host memory is carried out. -/
inductive Effect where
  | fault (addr : U64)
  /-- A call of the engine instance `inst`, made through `m_core` of the core `c`. -/
  | engine (c inst : Nat) (call : OcxCall)
  | original (addr : U64)
  | store (addr : U64)
  deriving DecidableEq, Repr

namespace Platform

def setCore (s : Platform σ) (c : Nat) (core : Option (Core σ)) : Platform σ :=
  { s with cores := Function.update s.cores c core }

/-- The engine instance of the core `c`. -/
def engine (s : Platform σ) (c : Nat) : Option Nat :=
  (s.cores c).bind (fun core => core.mCore.map (·.id))

/-! ## §2. `update_page`. -/

/-- A call through `m_core` of the core `c`. -/
def engineCall (O : Ocx σ) (c : Nat) (call : OcxCall) (s : Platform σ) :
    Option (List Effect × Platform σ) :=
  match s.cores c with
  | none => none
  | some core =>
      match core.mCore with
      | none => none
      | some inst =>
          some ([.engine c inst.id call], s.setCore c (some (core.call O call).2))

/-- `tb_flush_page` and `invalidate_page_ptr` on the engine of the core `c`. -/
def flushPage (O : Ocx σ) (c : Nat) (pageAddr : U64) (s : Platform σ) :
    Option (List Effect × Platform σ) := do
  let (log, s) ← s.engineCall O c (.tbFlushPage pageAddr (pageAddr + O.pageSize - 1#64))
  let (log', s) ← s.engineCall O c (.invalidatePagePtr pageAddr)
  pure (log ++ log', s)

/-- The loop of `update_page` over the subscribers, with those it keeps. -/
def flushSubscribers (O : Ocx σ) (pageAddr : U64) :
    List Nat → Platform σ → Option (List Effect × List Nat × Platform σ)
  | [], s => some ([], [], s)
  | it :: its, s =>
      -- `lock()` fails for a destroyed core, and the entry is erased
      if (s.cores it).isNone then flushSubscribers O pageAddr its s
      else do
        let (log, s) ← s.flushPage O it pageAddr
        let (log', kept, s) ← flushSubscribers O pageAddr its s
        pure (log ++ log', it :: kept, s)

def setSubscribers (s : Platform σ) (c : Nat) (subscribers : List Nat) : Platform σ :=
  s.setCore c ((s.cores c).map (fun core =>
    { core with mSyscallSubscriber := subscribers }))

/-- `update_page(page_addr)` of the core `c`. -/
def updatePage (O : Ocx σ) (c : Nat) (pageAddr : U64) (s : Platform σ) :
    Option (List Effect × Platform σ) := do
  let core ← s.cores c
  let (log, s) ← s.flushPage O c pageAddr
  let (log', kept, s) ← s.flushSubscribers O pageAddr core.mSyscallSubscriber
  pure (log ++ log', s.setSubscribers c kept)

/-! ## §3. Host writes. -/

/-- The actions of the protector, with its calls of `update_page` carried out. -/
def runActions (O : Ocx σ) :
    List (Action Nat) → Platform σ → Option (List Effect × Platform σ)
  | [], s => some ([], s)
  | .updatePage c p :: actions, s => do
      let (log, s) ← s.updatePage O c p
      let (log', s) ← runActions O actions s
      pure (log ++ log', s)
  | .fault a :: actions, s => do
      let (log, s) ← runActions O actions s
      pure (.fault a :: log, s)
  | .original a :: actions, s => do
      let (log, s) ← runActions O actions s
      pure (.original a :: log, s)
  | .store a :: actions, s => do
      let (log, s) ← runActions O actions s
      pure (.store a :: log, s)

/-- A write to host memory. -/
def write (H : Host) (O : Ocx σ) (ok : U64 → Bool) (addr : U64) (s : Platform σ) :
    Option (List Effect × Platform σ) :=
  { s with protector := (hostWrite H ok addr s.protector).2 }.runActions O
    (hostWrite H ok addr s.protector).1

/-! ## §4. The cores as clients. -/

/-- `protect_page(page_ptr, page_addr)` of the core `c`. -/
def protectPage (H : Host) (O : Ocx σ) (ok : U64 → Bool) (c : Nat)
    (pagePtr pageAddr : U64) (s : Platform σ) : Except Error Unit × Platform σ :=
  let (res, protector) :=
    registerPage H (fun _ => O.pageSize) ok c pageAddr pagePtr s.protector
  (res, { s with protector := protector })

/-- `invalidate_dmi(start, end)` of the core `c`. -/
def invalidateDmi (H : Host) (O : Ocx σ) (ok : U64 → Bool) (order : List U64) (c : Nat)
    (start end_ : U64) (s : Platform σ) :
    Option (Except Error Unit × List Effect × Platform σ) := do
  let (log, s) ← s.engineCall O c (.invalidatePagePtrs start end_)
  let (res, protector) := deregisterPages H ok order c start end_ s.protector
  pure (res, log, { s with protector := protector })

/-! ## §5. Life cycle of the cores. -/

/-- A new core. -/
def construct (O : Ocx σ) (procid coreid : U64) (s : Platform σ) : Platform σ :=
  { s.setCore s.nextCore (some (Core.construct O procid coreid s.nextInst true).2) with
    nextCore := s.nextCore + 1
    nextInst := s.nextInst + 1 }

/-- `add_syscall_subscriber(cpu)` of the core `c`. -/
def addSyscallSubscriber (c cpu : Nat) (s : Platform σ) : Platform σ :=
  s.setCore c ((s.cores c).map (fun core =>
    { core with mSyscallSubscriber := core.mSyscallSubscriber ++ [cpu] }))

/-- `reset` of the core `c`, with the core that is there and the instances it deletes. -/
def reset (O : Ocx σ) (flush : List RegWrite) (created : Bool) (c : Nat) (core : Core σ)
    (s : Platform σ) : Except CoreError Unit × List Nat × Platform σ :=
  let (res, deleted, core) := core.reset O flush s.nextInst created
  (res, deleted, { s.setCore c (some core) with nextInst := s.nextInst + 1 })

/-- `core::~core`, with the instances that its `close_core` deletes. -/
def destroy (c : Nat) (s : Platform σ) : List Nat × Platform σ :=
  ((s.cores c).elim [] (fun core => core.closeCore.1), s.setCore c none)

end Platform

/-! ## §6. The constructor of `psp::cpu`. -/

/-- The loop over the cores before `id`: both subscribe to each other. -/
def subscribeCores (id : Nat) : Nat → Platform σ → Platform σ
  | 0, s => s
  | core + 1, s =>
      ((subscribeCores id core s).addSyscallSubscriber core id).addSyscallSubscriber id core

/-- `cpu::cpu` with `ncores` cores; `m_cores[id]` is the core with the number `id`. -/
def cpu (O : Ocx σ) (clusterid : U64) : Nat → Platform σ
  | 0 => {}
  | id + 1 => subscribeCores id id ((cpu O clusterid id).construct O clusterid
      (BitVec.ofNat 64 id))

end Avp64.Psp
