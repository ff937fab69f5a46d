/-
  Avp64.Psp.Core.Def — `psp::core`, one simulated processor core.

  The instructions are executed by an OCX engine, a library object that the core
  creates in `open_core`, deletes in `close_core` and reaches through the pointer
  `m_core`.  The engine is a parameter `O : Ocx σ` over its own states `σ`; what
  the core relies on is stated as a hypothesis where it is used.  An instance of
  the engine carries a number that no other instance has, so that "the instance
  that made the call" has a meaning after a reset.

  `vcml::processor` is not part of the source.  What its `flush_cpuregs` does to the
  core during a reset is a parameter: the sequence of `write_reg_dbg` calls it makes.
-/
import Avp64.Psp.MemProtector.Def

namespace Avp64.Psp

variable {σ : Type}

/-! ## §1. The engine. -/

/-- The calls through `m_core` that may change the engine. -/
inductive OcxCall where
  | setId (procId coreId : U64)
  | tbFlushPage (start end_ : U64)
  | invalidatePagePtr (pageAddr : U64)
  | invalidatePagePtrs (start end_ : U64)
  | addBreakpoint (addr : U64)
  | removeBreakpoint (addr : U64)
  | addWatchpoint (addr size : U64) (iswr : Bool)
  | removeWatchpoint (addr size : U64) (iswr : Bool)
  | traceBasicBlocks (on : Bool)
  | writeReg (regid value : U64)
  | stop
  | interrupt (irq : U64) (set : Bool)
  | notified (eventid : U64)
  /-- `arg` is the object that the `shared_ptr` refers to; the core passes it on unread. -/
  | handleSyscall (callno : BitVec 32) (arg : Nat)
  deriving DecidableEq, Repr

/-- `ocx::core`, as far as the core uses it. -/
structure Ocx (σ : Type) where
  /-- A new instance. -/
  create : σ
  /-- One call, with its result; the source ignores that of a `void` method. -/
  call : OcxCall → σ → Bool × σ
  /-- `read_reg`; `none` is a call that returns false. -/
  readReg : σ → U64 → Option U64
  pcRegid : σ → U64
  insnCount : σ → U64
  /-- The page size, the same for all instances of the CPU variant. -/
  pageSize : U64
  /-- `step` may lead from one state to the other, callbacks included. -/
  step : σ → σ → Prop

/-- What `m_core` points to. -/
structure OcxInstance (σ : Type) where
  id : Nat
  state : σ

/-- A small engine: a program counter (register 32), breakpoints, watchpoints and a
trace flag.  Every call succeeds. -/
structure SmallEngine where
  pc : U64 := 0
  breakpoints : List U64 := []
  watchpoints : List (U64 × U64 × Bool) := []
  tracing : Bool := false
  deriving DecidableEq, Repr

def SmallEngine.call : OcxCall → SmallEngine → SmallEngine
  | .addBreakpoint a, st => { st with breakpoints := a :: st.breakpoints }
  | .removeBreakpoint a, st => { st with breakpoints := st.breakpoints.filter (· ≠ a) }
  | .addWatchpoint a n w, st => { st with watchpoints := (a, n, w) :: st.watchpoints }
  | .removeWatchpoint a n w, st =>
      { st with watchpoints := st.watchpoints.filter (· ≠ (a, n, w)) }
  | .traceBasicBlocks on, st => { st with tracing := on }
  | .writeReg r v, st => if r = 32#64 then { st with pc := v } else st
  | _, st => st

def smallOcx : Ocx SmallEngine where
  create := {}
  call c st := (true, st.call c)
  readReg st r := some (if r = 32#64 then st.pc else 0)
  pcRegid _ := 32#64
  insnCount _ := 0
  pageSize := 4096#64
  step st st' := st' = { st with pc := st'.pc }

/-! ## §2. The core. -/

/-- What `VCML_ERROR_ON` and `throw` raise here. -/
inductive CoreError where
  | alreadyInitialized
  | handleNotInitialized
  | createNotFound
  | couldNotCreate
  | couldNotReadPc
  | notSynchronized
  | unimplementedHint
  /-- Not raised by the source: a call through a null `m_core`. -/
  | nullCore
  deriving DecidableEq, Repr

def CoreError.text : CoreError → Option String
  | .alreadyInitialized => some "core already initialized"
  | .handleNotInitialized => some "OCX handle is not initialized"
  | .createNotFound => some "OCX create_instance function not found"
  | .couldNotCreate => some "Could not create ocx::core instance"
  | .couldNotReadPc => some "Could not read program counter"
  | .notSynchronized => some "core not synchronized"
  | .unimplementedHint => some "Unimplemented hint"
  | .nullCore => none

/-- `ocx::hint_kind`. -/
inductive HintKind where
  | wfi
  | other
  deriving DecidableEq, Repr

/-- `ARM_TIMER_COUNT`. -/
abbrev Timer := Fin 4

/-- The arguments of one call of `write_reg_dbg`. -/
structure RegWrite where
  regno : U64
  value : U64
  len : Nat
  deriving DecidableEq, Repr

structure Core (σ : Type) where
  mCore : Option (OcxInstance σ) := none
  mCoreId : U64 := 0
  mProcId : U64 := 0
  mRunCycles : U64 := 0
  mSleepCycles : U64 := 0
  mTransport : Bool := false
  /-- `m_ocx_handle` is not null. -/
  mOcxHandle : Bool := false
  /-- `m_create_instance` is not null. -/
  mCreateInstance : Bool := false
  /-- `m_syscall_subscriber`; a `weak_ptr` is the number of the core it refers to. -/
  mSyscallSubscriber : List Nat := []
  timerIrqOut : Timer → Bool := fun _ => false
  /-- The pending notification of each timer event. -/
  timerEvents : Timer → Option U64 := fun _ => none

namespace Core

/-- A call through `m_core`. -/
def call (O : Ocx σ) (c : OcxCall) (core : Core σ) : Except CoreError Bool × Core σ :=
  match core.mCore with
  | none => (.error .nullCore, core)
  | some inst =>
      let (b, state) := O.call c inst.state
      (.ok b, { core with mCore := some { inst with state := state } })

/-! ### Life cycle of the engine. -/

/-- `open_core`; `fresh` is the number of the new instance and `created` says whether
`m_create_instance` returns one. -/
def openCore (O : Ocx σ) (fresh : Nat) (created : Bool) (core : Core σ) :
    Except CoreError Unit × Core σ :=
  if core.mCore.isSome then (.error .alreadyInitialized, core)
  else if !core.mOcxHandle then (.error .handleNotInitialized, core)
  else if !core.mCreateInstance then (.error .createNotFound, core)
  else if !created then (.error .couldNotCreate, core)
  else
    let core := { core with mCore := some ⟨fresh, O.create⟩ }
    (.ok (), (core.call O (.setId core.mProcId core.mCoreId)).2)

/-- `close_core`, with the instances it passes to `m_delete_instance`. -/
def closeCore (core : Core σ) : List Nat × Core σ :=
  match core.mCore with
  | some inst => ([inst.id], { core with mCore := none })
  | none => ([], core)

/-- The constructor up to `open_core`.  One that cannot load the library raises an
error and leaves no object. -/
def initial (procid coreid : U64) : Core σ :=
  { mCoreId := coreid, mProcId := procid, mOcxHandle := true, mCreateInstance := true }

/-- `core::core(nm, procid, coreid)`. -/
def construct (O : Ocx σ) (procid coreid : U64) (fresh : Nat) (created : Bool) :
    Except CoreError Unit × Core σ :=
  (initial procid coreid).openCore O fresh created

/-! ### Registers. -/

def programCounter (O : Ocx σ) (core : Core σ) : Except CoreError U64 :=
  match core.mCore with
  | none => .error .nullCore
  | some inst =>
      match O.readReg inst.state (O.pcRegid inst.state) with
      | none => .error .couldNotReadPc
      | some pc => .ok pc

/-- `write_reg_dbg(regno, buf, len)`; `value` are the bytes of `buf`. -/
def writeRegDbg (O : Ocx σ) (regno value : U64) (len : Nat) (core : Core σ) :
    Except CoreError Bool × Core σ :=
  match core.mCore with
  | none => (.error .nullCore, core)
  | some inst =>
      if regno = O.pcRegid inst.state then
        if len ≠ 8 then (.ok false, core)
        else
          match core.programCounter O with
          | .error e => (.error e, core)
          | .ok pc =>
              if value = pc then (.ok true, core)
              -- the pc cannot be changed during an ongoing b_transport
              else if core.mTransport then (.ok false, core)
              else core.call O (.writeReg regno value)
      else core.call O (.writeReg regno value)

/-- The registers the constructor defines, with their sizes. -/
def cpuregs : List (U64 × Nat) :=
  (List.range 31).map (fun i => (BitVec.ofNat 64 i, 8))
    ++ [(31#64, 8), (32#64, 8), (33#64, 4), (50#64, 4), (64#64, 4), (78#64, 4),
        (92#64, 8), (93#64, 8), (94#64, 8), (95#64, 8), (96#64, 8), (97#64, 8),
        (98#64, 8), (99#64, 8)]
    ++ (List.range 32).map (fun i => (BitVec.ofNat 64 (i + 449), 8))
    ++ [(192#64, 4), (193#64, 4)]

/-- The calls of `write_reg_dbg` that write the whole table back. -/
def tableWrites (value : U64 → U64) : List RegWrite :=
  cpuregs.map (fun r => ⟨r.1, value r.1, r.2⟩)

/-- A sequence of calls of `write_reg_dbg`; an error ends it. -/
def writeRegsDbg (O : Ocx σ) : List RegWrite → Core σ → Except CoreError Unit × Core σ
  | [], core => (.ok (), core)
  | w :: ws, core =>
      match core.writeRegDbg O w.regno w.value w.len with
      | (.error e, core) => (.error e, core)
      | (.ok _, core) => writeRegsDbg O ws core

/-! ### Reset and destruction. -/

/-- `reset`, with the instances it deletes; `flush` are the calls of `write_reg_dbg` by
which `flush_cpuregs` writes registers back. -/
def reset (O : Ocx σ) (flush : List RegWrite) (fresh : Nat) (created : Bool)
    (core : Core σ) : Except CoreError Unit × List Nat × Core σ :=
  let core := { core with mRunCycles := 0, mSleepCycles := 0, mTransport := false }
  let (deleted, core) := core.closeCore
  match core.openCore O fresh created with
  | (.error e, core) => (.error e, deleted, core)
  | (.ok (), core) =>
      match core.writeRegsDbg O flush with
      | (.error e, core) => (.error e, deleted, core)
      | (.ok (), core) =>
          (.ok (), deleted,
            { core with timerIrqOut := fun _ => false, timerEvents := fun _ => none })

/-! ### Simulation. -/

/-- `simulate(cycles)` up to the call of `m_core->step(cycles)`. -/
def simulate (O : Ocx σ) (core : Core σ) : Except CoreError Unit × Core σ :=
  match core.mCore with
  | none => (.error .nullCore, core)
  | some inst =>
      (.ok (), { core with mRunCycles := core.mRunCycles + O.insnCount inst.state })

/-- The `switch` of `hint`: what comes before `sync()`. -/
def hint : HintKind → Except CoreError Unit
  | .wfi => .ok ()
  | .other => .error .unimplementedHint

/-- `hint(HINT_WFI)` after `wait_for_interrupt`; `cycles` have passed in it. -/
def wakeUp (O : Ocx σ) (cycles : U64) (synchronized : Bool) (core : Core σ) :
    Except CoreError Unit × Core σ :=
  if !synchronized then (.error .notSynchronized, core)
  else
    let core := { core with mSleepCycles := core.mSleepCycles + cycles }
    match core.call O .stop with
    | (.error e, core) => (.error e, core)
    | (.ok _, core) => (.ok (), core)

end Core

/-! ## §3. Memory accesses of the engine. -/

/-- `ocx::transaction`, without the data. -/
structure Transaction where
  addr : U64
  size : U64
  isRead : Bool
  isDebug : Bool := false
  isExcl : Bool := false
  isSecure : Bool := false
  deriving DecidableEq, Repr

/-- `vcml::tlm_sbi`. -/
structure TlmSbi where
  isDebug : Bool := false
  isExcl : Bool := false
  isSecure : Bool := false
  cpuid : U64 := 0
  deriving DecidableEq, Repr

/-- What is asked of the `data` socket. -/
inductive DataAccess where
  | read (addr size : U64) (info : TlmSbi)
  | write (addr size : U64) (info : TlmSbi)
  deriving DecidableEq, Repr

inductive TlmResponse where
  | ok
  | incomplete
  | genericError
  | addressError
  | commandError
  | burstError
  | byteEnableError
  deriving DecidableEq, Repr

inductive OcxResponse where
  | ok
  | failed
  | addressError
  | commandError
  deriving DecidableEq, Repr

/-- The `switch` of `transport`. -/
def OcxResponse.ofTlm : TlmResponse → OcxResponse
  | .ok => .ok
  | .addressError => .addressError
  | .commandError => .commandError
  | _ => .failed

namespace Core

/-- `transport(tx)` up to the access, which may suspend the caller. -/
def transportBegin (tx : Transaction) (core : Core σ) : DataAccess × Core σ :=
  let core := { core with mTransport := true }
  let info : TlmSbi := ⟨tx.isDebug, tx.isExcl, tx.isSecure, core.mCoreId⟩
  (if tx.isRead then .read tx.addr tx.size info else .write tx.addr tx.size info, core)

/-- `transport(tx)` after the access.  An access that throws never gets here. -/
def transportEnd (resp : TlmResponse) (core : Core σ) : OcxResponse × Core σ :=
  (.ofTlm resp, { core with mTransport := false })

end Core

/-! ## §4. The debugger's view. -/

/-- `vcml::range`; both ends belong to it. -/
structure Range where
  start : U64
  end_ : U64
  deriving DecidableEq, Repr

def Range.length (r : Range) : U64 := r.end_ - r.start + 1#64

inductive VcmlAccess where
  | none
  | read
  | write
  | readWrite
  deriving DecidableEq, Repr

namespace Core

def insertBreakpoint (O : Ocx σ) (addr : U64) (core : Core σ) :
    Except CoreError Bool × Core σ :=
  core.call O (.addBreakpoint addr)

def removeBreakpoint (O : Ocx σ) (addr : U64) (core : Core σ) :
    Except CoreError Bool × Core σ :=
  core.call O (.removeBreakpoint addr)

/-- `a && b`, where both operands are calls through `m_core`. -/
def callAnd (O : Ocx σ) (a b : OcxCall) (core : Core σ) :
    Except CoreError Bool × Core σ :=
  match core.call O a with
  | (.ok true, core) => core.call O b
  | r => r

/-- The common body of `insert_watchpoint` and `remove_watchpoint`. -/
def changeWatchpoint (O : Ocx σ) (change : U64 → U64 → Bool → OcxCall) (mem : Range)
    (acs : VcmlAccess) (core : Core σ) : Except CoreError Bool × Core σ :=
  match acs with
  | .read => core.call O (change mem.start mem.length false)
  | .write => core.call O (change mem.start mem.length true)
  | .readWrite =>
      core.callAnd O (change mem.start mem.length true) (change mem.start mem.length false)
  | .none => (.ok false, core)

def insertWatchpoint (O : Ocx σ) (mem : Range) (acs : VcmlAccess) (core : Core σ) :
    Except CoreError Bool × Core σ :=
  core.changeWatchpoint O .addWatchpoint mem acs

def removeWatchpoint (O : Ocx σ) (mem : Range) (acs : VcmlAccess) (core : Core σ) :
    Except CoreError Bool × Core σ :=
  core.changeWatchpoint O .removeWatchpoint mem acs

/-- The common body of `start_basic_block_trace` and `stop_basic_block_trace`. -/
def traceBasicBlocks (O : Ocx σ) (on : Bool) (core : Core σ) :
    Except CoreError Bool × Core σ :=
  match core.call O (.traceBasicBlocks on) with
  | (.error e, core) => (.error e, core)
  | (.ok _, core) => (.ok true, core)

def startBasicBlockTrace (O : Ocx σ) (core : Core σ) : Except CoreError Bool × Core σ :=
  core.traceBasicBlocks O true

def stopBasicBlockTrace (O : Ocx σ) (core : Core σ) : Except CoreError Bool × Core σ :=
  core.traceBasicBlocks O false

end Core

end Avp64.Psp
