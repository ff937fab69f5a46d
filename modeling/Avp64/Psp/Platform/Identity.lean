/-
  Avp64.Psp.Platform.Identity — who is asking.

  `cpu` numbers its cores.  A core tells its numbers to every engine that it creates, and
  `transport` sends the core's number along with each access of the engine, so that the
  target can tell the cores apart.  Nothing tells an engine its numbers again: they have to
  survive everything that happens to it.

    • `known_reset`          — what a new engine is told,
    • `identified_step`      — what a step of the cluster leaves of it,
    • `accesses_identified`  — the accesses of a run.
-/
import Avp64.Psp.Platform.HandlerWork

namespace Avp64.Psp

open Avp64.Lib MemProtector

variable {σ : Type} {O : Ocx σ} {I : σ → Option (U64 × U64)}

/-! ## §1. The numbers of an engine. -/

def OcxCall.isSetId : OcxCall → Bool
  | .setId _ _ => true
  | _ => false

/-- `I st` are the numbers that the engine was told last. -/
structure IdentityLaws (O : Ocx σ) (I : σ → Option (U64 × U64)) : Prop where
  told : ∀ st procId coreId, I (O.call (.setId procId coreId) st).2 = some (procId, coreId)
  kept : ∀ st call, call.isSetId = false → I (O.call call st).2 = I st
  runs : ∀ st st', O.step st st' → I st' = I st

namespace Core

variable {core core' : Core σ}

/-- The engine was told the numbers of the core. -/
def Known (I : σ → Option (U64 × U64)) (core : Core σ) : Prop :=
  ∀ inst, core.mCore = some inst → I inst.state = some (core.mProcId, core.mCoreId)

theorem Known.call (laws : IdentityLaws O I) (h : core.Known I) {call : OcxCall}
    (hc : call.isSetId = false) : (core.call O call).2.Known I := by
  cases hm : core.mCore with
  | none =>
      rw [call_of_none hm]
      exact h
  | some inst =>
      rw [call_of_some hm]
      intro inst' hinst'
      injection hinst' with hinst'
      rw [← hinst']
      exact (laws.kept inst.state call hc).trans (h inst hm)

/-- `open_core` tells the new engine, if there is one. -/
theorem known_openCore (laws : IdentityLaws O I) (hnone : core.mCore = none) (fresh : Nat)
    (created : Bool) : (core.openCore O fresh created).2.Known I := by
  have hold : core.Known I := by
    intro inst hinst
    rw [hnone] at hinst
    cases hinst
  unfold openCore
  split
  · exact hold
  split
  · exact hold
  split
  · exact hold
  split
  · exact hold
  · intro inst hinst
    have hnew : some (⟨fresh, (O.call (.setId core.mProcId core.mCoreId) O.create).2⟩ :
        OcxInstance σ) = some inst := hinst
    injection hnew with hnew
    rw [← hnew]
    exact laws.told O.create core.mProcId core.mCoreId

theorem known_writeRegsDbg (laws : IdentityLaws O I) (ws : List RegWrite)
    (h : core.Known I) : (core.writeRegsDbg O ws).2.Known I := by
  refine writeRegsDbg_invariant ?_ ws core h
  intro w core h
  rcases writeRegDbg_cases O w.regno w.value w.len core with heq | heq
  · rw [heq]
    exact h
  · rw [heq]
    exact h.call laws rfl

/-- **Whatever a reset leaves**, the engine of the core was told the core's numbers. -/
theorem known_reset (laws : IdentityLaws O I) (flush : List RegWrite) (fresh : Nat)
    (created : Bool) (core : Core σ) : (core.reset O flush fresh created).2.2.Known I := by
  have hopened : (({ core.cleared with mCore := none } : Core σ).openCore O fresh created).2.Known I :=
    known_openCore laws rfl fresh created
  cases hopen : ({ core.cleared with mCore := none } : Core σ).openCore O fresh created with
  | mk res core₁ =>
      rw [hopen] at hopened
      cases res with
      | error e =>
          rw [reset_of_failed hopen]
          exact hopened
      | ok u =>
          have hflushed := known_writeRegsDbg laws flush hopened
          cases hflush : core₁.writeRegsDbg O flush with
          | mk res₂ core₂ =>
              rw [hflush] at hflushed
              cases res₂ with
              | error e =>
                  rw [reset_of_unflushed hopen hflush]
                  exact hflushed
              | ok u =>
                  rw [reset_of_flushed hopen hflush]
                  exact hflushed

/-- The core is the one with the number `c` of its cluster, and its engine was told so. -/
structure Identified (I : σ → Option (U64 × U64)) (clusterid : U64) (c : Nat)
    (core : Core σ) : Prop where
  coreId : core.mCoreId = BitVec.ofNat 64 c
  procId : core.mProcId = clusterid
  known : core.Known I

theorem ResetCase.ids {fresh : Nat} {created : Bool} {res : Except CoreError Unit}
    (h : ResetCase O fresh created core res core') :
    core'.mCoreId = core.mCoreId ∧ core'.mProcId = core.mProcId := by
  cases h <;> exact ⟨rfl, rfl⟩

theorem Identified.reset (laws : IdentityLaws O I) {clusterid : U64} {c : Nat}
    (h : core.Identified I clusterid c) (flush : List RegWrite) (fresh : Nat) (created : Bool) :
    (core.reset O flush fresh created).2.2.Identified I clusterid c := by
  obtain ⟨hid, hproc⟩ := (reset_case O flush fresh created core).ids
  exact ⟨hid.trans h.coreId, hproc.trans h.procId, known_reset laws flush fresh created core⟩

end Core

/-! ## §2. All cores of a cluster. -/

namespace Platform

variable {s s' : Platform σ} {clusterid : U64}

def AllIdentified (I : σ → Option (U64 × U64)) (clusterid : U64) (s : Platform σ) : Prop :=
  ∀ c core, s.cores c = some core → core.Identified I clusterid c

theorem AllIdentified.setCore (h : s.AllIdentified I clusterid) (c : Nat)
    {core : Option (Core σ)} (hcore : ∀ x, core = some x → x.Identified I clusterid c) :
    (s.setCore c core).AllIdentified I clusterid := by
  intro c' x hx
  rw [setCore_cores] at hx
  split at hx
  · next heq =>
      rw [heq]
      exact hcore x hx
  · exact h c' x hx

theorem AllIdentified.addSyscallSubscriber (h : s.AllIdentified I clusterid) (c cpu : Nat) :
    (s.addSyscallSubscriber c cpu).AllIdentified I clusterid := by
  refine h.setCore c ?_
  intro x hx
  obtain ⟨core, hc, rfl⟩ := Option.map_eq_some_iff.mp hx
  exact ⟨(h c core hc).coreId, (h c core hc).procId, (h c core hc).known⟩

theorem AllIdentified.subscribeCores (h : s.AllIdentified I clusterid) (id : Nat) :
    ∀ k, (subscribeCores id k s).AllIdentified I clusterid := by
  intro k
  induction k with
  | zero => exact h
  | succ k ih => exact (ih.addSyscallSubscriber k id).addSyscallSubscriber id k

/-- **The constructor of `cpu` numbers the cores.** -/
theorem identified_cpu (laws : IdentityLaws O I) (clusterid : U64) :
    ∀ n, (cpu O clusterid n).AllIdentified I clusterid := by
  intro n
  induction n with
  | zero => intro c core hc; cases hc
  | succ n ih =>
      refine AllIdentified.subscribeCores ?_ n n
      refine ih.setCore (cpu O clusterid n).nextCore ?_
      rintro x hx
      injection hx with hx
      rw [← hx, (cpu_built Host.kib4 O Kernel.reliable clusterid n).nextCore]
      exact ⟨rfl, rfl, Core.known_openCore laws rfl _ true⟩

theorem AllIdentified.engineCall (laws : IdentityLaws O I) (h : s.AllIdentified I clusterid)
    {c : Nat} {call : OcxCall} (hcall : call.isSetId = false) {log : List Effect}
    (hd : s.engineCall O c call = some (log, s')) : s'.AllIdentified I clusterid := by
  unfold Platform.engineCall at hd
  cases hc : s.cores c with
  | none => rw [hc] at hd; cases hd
  | some core =>
      cases hm : core.mCore with
      | none => rw [hc] at hd; simp [hm] at hd
      | some inst =>
          rw [hc] at hd
          simp only [hm, Option.some.injEq, Prod.mk.injEq] at hd
          obtain ⟨_, rfl⟩ := hd
          refine h.setCore c ?_
          intro x hx
          injection hx with hx
          have hid := h c core hc
          have hk := Core.call_kept O call core
          rw [← hx]
          exact ⟨by rw [hk.frame]; exact hid.coreId, by rw [hk.frame]; exact hid.procId,
            hid.known.call laws hcall⟩

/-- The calls that a write makes of an engine are no `set_id`. -/
theorem AllIdentified.write (laws : IdentityLaws O I) {H : Host} {n : Nat}
    (h : s.AllIdentified I clusterid) (hl : Living H n s) {ok : U64 → Bool} {a : U64}
    {log : List Effect} (hd : s.write H O ok a = some (log, s')) :
    s'.AllIdentified I clusterid := by
  have hlog := (write_case hl.inv hl.wiring hd).2.handlerLog
  have hreplay := write_replayed hd
  unfold Platform.write at hd
  have hf := runActions_fields _ _ hd
  intro c core' hc'
  obtain ⟨core, hc₀, hsame⟩ := hf.of_some hc'
  have hc : s.cores c = some core := hc₀
  have hid := h c core hc
  have hcore : core'.mCoreId = core.mCoreId := by rw [hsame.frame]
  have hproc : core'.mProcId = core.mProcId := by rw [hsame.frame]
  refine ⟨hcore.trans hid.coreId, hproc.trans hid.procId, ?_⟩
  intro inst' hinst'
  rw [hcore, hproc]
  -- the instance was there before, in a state that these calls have changed
  have hst : s'.engineState c = some inst'.state := by
    rw [engineState_of_some hc', hinst', Option.map_some]
  rw [hreplay c, engineState_of_some hc, Option.map_map] at hst
  obtain ⟨inst, hinst, hst⟩ := Option.map_eq_some_iff.mp hst
  have heach : log.filterMap (Effect.callOn c)
      = (trappedPages H a s.protector).flatMap (pageCalls O) := by
    refine hlog.each c inst.id ?_
    unfold Platform.engine
    rw [hc, Option.bind_some, hinst, Option.map_some]
  rw [← hst]
  refine replay_keeps (P := fun st => I st = some (core.mProcId, core.mCoreId)) ?_
    (hid.known inst hinst)
  intro call hcall st hI
  rw [heach] at hcall
  obtain ⟨p, _, hcall⟩ := List.mem_flatMap.mp hcall
  have hno : call.isSetId = false := by
    rcases List.mem_pair.mp hcall with rfl | rfl <;> rfl
  exact (laws.kept st call hno).trans hI

end Platform

open Platform

/-! ## §3. Runs. -/

variable {H : Host} {K : Kernel} {n : Nat} {clusterid : U64} {s s' : Platform σ}

/-- **What a step of the platform leaves of the numbers.** -/
theorem identified_step (laws : IdentityLaws O I) {e : PlatformEvent} (hl : Living H n s)
    (h : s.AllIdentified I clusterid) (hst : PlatformStep H O K s e s') (he : e.keepsCluster) :
    s'.AllIdentified I clusterid := by
  cases hst with
  | construct _ _ => exact he.elim
  | addSyscallSubscriber _ _ => exact he.elim
  | protectPage pagePtr pageAddr _ _ => exact h
  | invalidateDmi start end_ walk _ hd =>
      obtain ⟨s₁, h₁, rfl⟩ := invalidateDmi_eq_some hd
      have h' := h.engineCall laws rfl h₁
      exact fun c core hc => h' c core hc
  | @reset c core flush created hc =>
      refine h.setCore c ?_
      intro x hx
      injection hx with hx
      rw [← hx]
      exact (h c core hc).reset laws flush s.nextInst created
  | destroy _ => exact h.setCore _ (fun x hx => by cases hx)
  | write addr _ hd => exact h.write laws hl hd

/-- What happens to the cores of a cluster. -/
inductive AccessEvent where
  | call (e : PlatformEvent)
  /-- A call of the engine of the core `c`, other than those of `open_core`. -/
  | engine (c : Nat) (call : OcxCall)
  | engineRuns (c : Nat)
  /-- The engine of the core `c` calls `transport(tx)`, which asks for `request`. -/
  | access (c : Nat) (tx : Transaction) (request : DataAccess)
  /-- The access returns. -/
  | answered (c : Nat) (resp : TlmResponse) (result : OcxResponse)

inductive AccessStep (H : Host) (O : Ocx σ) (K : Kernel) :
    Platform σ → AccessEvent → Platform σ → Prop
  /-- Each reset gets an engine. -/
  | call {s s' : Platform σ} {e : PlatformEvent} : PlatformStep H O K s e s' →
      e.keepsCluster → e.getsEngine → AccessStep H O K s (.call e) s'
  | engine {s s' : Platform σ} {c : Nat} {call : OcxCall} {log : List Effect} :
      call.isSetId = false → s.engineCall O c call = some (log, s') →
      AccessStep H O K s (.engine c call) s'
  | engineRuns (s : Platform σ) {c : Nat} {core : Core σ} {inst : OcxInstance σ} {st : σ} :
      s.cores c = some core → core.mCore = some inst → O.step inst.state st →
      AccessStep H O K s (.engineRuns c)
        (s.setCore c (some { core with mCore := some ⟨inst.id, st⟩ }))
  | access (s : Platform σ) {c : Nat} {core : Core σ} (tx : Transaction) :
      s.cores c = some core → core.mCore.isSome = true →
      AccessStep H O K s (.access c tx (core.transportBegin tx).1)
        (s.setCore c (some (core.transportBegin tx).2))
  | answered (s : Platform σ) {c : Nat} {core : Core σ} (resp : TlmResponse) :
      s.cores c = some core →
      AccessStep H O K s (.answered c resp (core.transportEnd resp).1)
        (s.setCore c (some (core.transportEnd resp).2))

/-- A cluster whose engines run, access memory and are called. -/
def accessSystem (H : Host) (O : Ocx σ) (K : Kernel) (clusterid : U64) (n : Nat) :
    Lts (Platform σ) AccessEvent where
  init s := s = cpu O clusterid n
  step := AccessStep H O K

/-- **The invariant**: the cluster is at work, and all its engines know their numbers. -/
theorem identified_accessStep (laws : IdentityLaws O I) {e : AccessEvent} (hl : Living H n s)
    (h : s.AllIdentified I clusterid) (hst : AccessStep H O K s e s') :
    Living H n s' ∧ s'.AllIdentified I clusterid := by
  -- an access sets and clears a flag of the core
  have hflag : ∀ {c : Nat} {core : Core σ} (flag : Bool), s.cores c = some core →
      Living H n (s.setCore c (some { core with mTransport := flag }))
        ∧ (s.setCore c (some { core with mTransport := flag })).AllIdentified I clusterid := by
    intro c core flag hc
    refine ⟨hl.frame (frame_setCore Core.SameWiring.refl hc ⟨⟨rfl, Iff.rfl⟩, rfl⟩), ?_⟩
    refine h.setCore c ?_
    intro x hx
    injection hx with hx
    rw [← hx]
    exact ⟨(h c core hc).coreId, (h c core hc).procId, (h c core hc).known⟩
  cases hst with
  | call hst he hget => exact ⟨hl.step hst he hget, identified_step laws hl h hst he⟩
  | engine hcall hd =>
      exact ⟨hl.frame ((engineCall_some hd).2.mono (fun _ _ hk => hk.sameWiring)),
        h.engineCall laws hcall hd⟩
  | @engineRuns c core inst st hc hinst hruns =>
      refine ⟨hl.setState hc hinst st, ?_⟩
      refine h.setCore c ?_
      intro x hx
      injection hx with hx
      rw [← hx]
      refine ⟨(h c core hc).coreId, (h c core hc).procId, ?_⟩
      intro inst' hinst'
      injection hinst' with hinst'
      rw [← hinst']
      exact (laws.runs inst.state st hruns).trans ((h c core hc).known inst hinst)
  | access tx hc _ => exact hflag true hc
  | answered resp hc => exact hflag false hc

theorem identified_of_reachable (laws : IdentityLaws O I)
    (hr : (accessSystem H O K clusterid n).Reachable s) :
    Living H n s ∧ s.AllIdentified I clusterid := by
  refine hr.invariant (I := fun t => Living H n t ∧ t.AllIdentified I clusterid) ?_ ?_
  · intro t h0
    rw [show t = cpu O clusterid n from h0]
    exact ⟨living_cpu H O clusterid n, identified_cpu laws clusterid n⟩
  · intro t e t' ht hst
    exact identified_accessStep laws ht.1 ht.2 hst

/-- The additional information of an access. -/
def DataAccess.info : DataAccess → TlmSbi
  | .read _ _ info => info
  | .write _ _ info => info

/-- What the access of the core `c` asks for. -/
def Transaction.request (tx : Transaction) (c : Nat) : DataAccess :=
  if tx.isRead then .read tx.addr tx.size ⟨tx.isDebug, tx.isExcl, tx.isSecure, BitVec.ofNat 64 c⟩
  else .write tx.addr tx.size ⟨tx.isDebug, tx.isExcl, tx.isSecure, BitVec.ofNat 64 c⟩

theorem request_cpuid (tx : Transaction) (c : Nat) :
    (tx.request c).info.cpuid = BitVec.ofNat 64 c := by
  unfold Transaction.request
  split <;> rfl

/-- **Who is asking.**  In every run of a cluster of `n` cores, each engine was told the
number of its cluster and that of its core last, also after a reset; each access asks for
what the engine wants, in the name of the core; and no two cores ever send the same
number. -/
theorem accesses_identified (H : Host) (O : Ocx σ) (K : Kernel) (I : σ → Option (U64 × U64))
    (laws : IdentityLaws O I) (clusterid : U64) (n : Nat)
    {tr : List (Platform σ × AccessEvent)} {s : Platform σ}
    (hr : (accessSystem H O K clusterid n).Run tr s) :
    (∀ c st, s.engineState c = some st → I st = some (clusterid, BitVec.ofNat 64 c))
    ∧ (∀ t c tx request, (t, .access c tx request) ∈ tr → request = tx.request c)
    ∧ (n ≤ 2 ^ 64 → ∀ t c tx request t' c' tx' request', (t, .access c tx request) ∈ tr →
        (t', .access c' tx' request') ∈ tr →
        request.info.cpuid = request'.info.cpuid → c = c') := by
  have hone : ∀ t c tx request, (t, .access c tx request) ∈ tr →
      c < n ∧ request = tx.request c := by
    intro t c tx request hmem
    obtain ⟨hreach, t', hst⟩ := hr.step_of_mem hmem
    obtain ⟨hl, hid⟩ := identified_of_reachable laws hreach
    cases hst with
    | @access _ core _ hc _ =>
        refine ⟨hl.wiring.cores c (locks_of_some hc), ?_⟩
        unfold Core.transportBegin Transaction.request
        simp only [(hid c core hc).coreId]
  refine ⟨?_, fun t c tx request hmem => (hone t c tx request hmem).2, ?_⟩
  · intro c st hst
    obtain ⟨core, hc, hm⟩ := Option.bind_eq_some_iff.mp hst
    obtain ⟨inst, hinst, rfl⟩ := Option.map_eq_some_iff.mp hm
    have hid := (identified_of_reachable laws ⟨tr, hr⟩).2 c core hc
    rw [hid.known inst hinst, hid.procId, hid.coreId]
  · intro hn t c tx request t' c' tx' request' hmem hmem' heq
    obtain ⟨hc, rfl⟩ := hone t c tx request hmem
    obtain ⟨hc', rfl⟩ := hone t' c' tx' request' hmem'
    rw [request_cpuid, request_cpuid] at heq
    -- the numbers of the cores fit into 64 bits
    have hnat := congrArg BitVec.toNat heq
    rw [BitVec.toNat_ofNat, BitVec.toNat_ofNat, Nat.mod_eq_of_lt (Nat.lt_of_lt_of_le hc hn),
      Nat.mod_eq_of_lt (Nat.lt_of_lt_of_le hc' hn)] at hnat
    exact hnat

/-! ### An engine that only remembers its numbers. -/

def numberedOcx : Ocx (Option (U64 × U64)) where
  create := none
  call
    | .setId procId coreId, _ => (true, some (procId, coreId))
    | _, st => (true, st)
  readReg _ _ := some 0#64
  pcRegid _ := 32#64
  insnCount _ := 0#64
  pageSize := 4096#64
  step st st' := st' = st

theorem numberedOcx_laws : IdentityLaws numberedOcx id where
  told _ _ _ := rfl
  kept := by
    intro st call hcall
    cases call with
    | setId _ _ => cases hcall
    | _ => rfl
  runs := by
    rintro st st' rfl
    rfl

/-- The second core of a cluster reads a word, after a reset of the first. -/
theorem accesses_identified_second : ∃ tr s t request,
    (accessSystem Host.kib4 numberedOcx Kernel.reliable 7 2).Run tr s
    ∧ (t, .access 1 ⟨0x1000#64, 8#64, true, false, false, false⟩ request) ∈ tr
    ∧ request.info.cpuid = 1#64 := by
  obtain ⟨core₀, hcore₀⟩ : ∃ core, (cpu numberedOcx 7 2).cores 0 = some core := ⟨_, rfl⟩
  have hreset : PlatformStep Host.kib4 numberedOcx Kernel.reliable (cpu numberedOcx 7 2) _ _ :=
    .reset _ (Core.tableWrites (fun _ => 0)) true hcore₀
  have hr₁ : (accessSystem Host.kib4 numberedOcx Kernel.reliable 7 2).Run _ _ :=
    .snoc (.start rfl) (.call hreset trivial rfl)
  -- the reset leaves the second core alone
  obtain ⟨core₁, hcore₁, hinst⟩ : ∃ core, (cpu numberedOcx 7 2).cores 1 = some core
      ∧ core.mCore.isSome = true := ⟨_, rfl, rfl⟩
  have hr₂ := hr₁.snoc (.access (c := 1) _ ⟨0x1000#64, 8#64, true, false, false, false⟩
    hcore₁ hinst)
  refine ⟨_, _, _, _, hr₂, List.mem_append_right _ (List.mem_singleton_self _), ?_⟩
  rw [(accesses_identified Host.kib4 numberedOcx Kernel.reliable id numberedOcx_laws 7 2
    hr₂).2.1 _ _ _ _ (List.mem_append_right _ (List.mem_singleton_self _))]
  rfl

end Avp64.Psp
