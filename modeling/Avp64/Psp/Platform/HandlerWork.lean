/-
  Avp64.Psp.Platform.HandlerWork — what the SIGSEGV handler does for one write.

  The handler runs in the middle of a guest's store.  It calls `update_page` for every
  entry of the host page, and each of these calls reaches the engine of the entry's core
  and those of its subscribers, whatever cores of the cluster have been destroyed in the
  meantime.  So all engines are told the same, in the same order and once each, and the
  number of calls is bounded by the number of target pages that fit in a host page.
  What can stop the handler is an entry of a core that is not there any more.

    • `callAll_tells`   — one `update_page`,
    • `runUpdates`      — the loop over the entries,
    • `handler_work`    — a write after any run of a cluster.
-/
import Avp64.Psp.Platform.Service

namespace Avp64.Psp

open Avp64.Lib MemProtector

variable {σ : Type} {H : Host} {O : Ocx σ} {K : Kernel} {s s' : Platform σ} {n : Nat}

/-- The same engine instance, the library as it was and the same subscribers. -/
structure Core.SameWiring (core core' : Core σ) : Prop extends core.SameLife core' where
  subscribers : core'.mSyscallSubscriber = core.mSyscallSubscriber

theorem Core.Kept.sameWiring {core core' : Core σ} (h : core.Kept core') :
    core.SameWiring core' :=
  ⟨h.sameLife, by rw [h.frame]⟩

theorem Core.SameWiring.refl (core : Core σ) : core.SameWiring core :=
  ⟨Core.SameLife.refl core, rfl⟩

/-- The effect is a call of an engine. -/
def Effect.isCall : Effect → Bool
  | .engine _ _ _ => true
  | _ => false

namespace Platform

/-! ## §1. What the engines are told. -/

/-- The log tells every engine of `s` these calls and no others, and it has no more
entries than `n` engines need. -/
structure Tells (n : Nat) (s : Platform σ) (calls : List OcxCall) (log : List Effect) :
    Prop where
  each : ∀ i inst, s.engine i = some inst → log.filterMap (Effect.callOn i) = calls
  length : log.length ≤ n * calls.length

theorem Tells.nil (n : Nat) (s : Platform σ) : Tells n s [] [] :=
  ⟨fun _ _ _ => rfl, Nat.zero_le _⟩

theorem Tells.append {calls calls' : List OcxCall} {log log' : List Effect}
    (h : Tells n s calls log) (h' : Tells n s calls' log') :
    Tells n s (calls ++ calls') (log ++ log') := by
  constructor
  · intro i inst hi
    rw [List.filterMap_append, h.each i inst hi, h'.each i inst hi]
  · have hlen := h.length
    have hlen' := h'.length
    rw [List.length_append, List.length_append, Nat.mul_add]
    omega

theorem Tells.congr {calls : List OcxCall} {log : List Effect} (h : Tells n s calls log)
    (heng : ∀ i, s'.engine i = s.engine i) : Tells n s' calls log := by
  refine ⟨?_, h.length⟩
  intro i inst hi
  rw [heng i] at hi
  exact h.each i inst hi

/-- The calls of one engine, picked from those of all. -/
theorem filterMap_callsOn (calls : List OcxCall) (s : Platform σ) (i : Nat) :
    ∀ (l : List Nat), l.Nodup →
      (l.flatMap (callsOn calls s)).filterMap (Effect.callOn i) = if i ∈ l then calls else [] := by
  have hone : ∀ j, (callsOn calls s j).filterMap (Effect.callOn i)
      = if j = i then calls else [] := by
    intro j
    unfold callsOn
    rw [List.filterMap_map]
    by_cases h : j = i
    · simp [Effect.callOn, h]
    · simp [Effect.callOn, h]
  intro l
  induction l with
  | nil => intro _; rfl
  | cons j l ih =>
      intro hnd
      obtain ⟨hj, hnd⟩ := List.nodup_cons.mp hnd
      rw [List.flatMap_cons, List.filterMap_append, hone j, ih hnd]
      by_cases h : j = i
      · subst h
        simp [hj]
      · simp [h, Ne.symm h]

theorem length_flatMap_callsOn (calls : List OcxCall) (s : Platform σ) (l : List Nat) :
    (l.flatMap (callsOn calls s)).length = l.length * calls.length := by
  induction l with
  | nil => simp
  | cons j l ih =>
      rw [List.flatMap_cons, List.length_append, ih, List.length_cons, Nat.succ_mul]
      simp [callsOn, Nat.add_comm]

/-- **One call of all subscribers tells every engine of the cluster once.** -/
theorem callAll_tells {visit : Nat → Platform σ → Option (List Effect × Platform σ)}
    {calls : List OcxCall} (hv : MakesCalls visit calls) (hw : s.Wiring n) {c : Nat}
    {core : Core σ} (hc : s.cores c = some core) :
    ∃ log s', s.callAll visit c = some (log, s') ∧ Tells n s calls log
      ∧ s'.Wiring n ∧ ∀ i, s'.engine i = s.engine i := by
  obtain ⟨s', heq, hp⟩ := callAll_spec hv hc hw.engines
  -- the core and its living subscribers are all cores there are
  have hnd : (c :: core.mSyscallSubscriber.filter s.locks).Nodup := by
    obtain ⟨hself, hnd⟩ := List.nodup_cons.mp (hw.nodup c core hc)
    exact List.nodup_cons.mpr ⟨fun hmem => hself (List.mem_of_mem_filter hmem), hnd.filter _⟩
  have hlocks : ∀ i ∈ c :: core.mSyscallSubscriber.filter s.locks, s.locks i = true := by
    intro i hi
    rcases List.mem_cons.mp hi with rfl | hi
    · exact locks_of_some hc
    · exact (List.mem_filter.mp hi).2
  refine ⟨_, s', heq, ⟨?_, ?_⟩, hw.pruned hp, hp.frame.engine⟩
  · intro i inst hi
    rw [filterMap_callsOn calls s i _ hnd, if_pos]
    obtain ⟨core', _, hcore', _⟩ := engine_eq_some hi
    by_cases hself : i = c
    · rw [hself]
      exact List.mem_cons_self
    · have hlive : s.locks i = true := locks_of_some hcore'
      exact List.mem_cons_of_mem _
        (List.mem_filter.mpr ⟨hw.others c core hc i hlive hself, hlive⟩)
  · have hle : (c :: core.mSyscallSubscriber.filter s.locks).length ≤ n := by
      have hsub : c :: core.mSyscallSubscriber.filter s.locks ⊆ List.range n :=
        fun i hi => List.mem_range.mpr (hw.cores i (hlocks i hi))
      have hlen := (hnd.subperm hsub).length_le
      rw [List.length_range] at hlen
      exact hlen
    rw [length_flatMap_callsOn]
    exact Nat.mul_le_mul_right _ hle

/-! ## §2. The handler. -/


/-- What `update_page` calls of an engine. -/
def pageCalls (O : Ocx σ) (p : U64) : List OcxCall :=
  [.tbFlushPage p (p + O.pageSize - 1#64), .invalidatePagePtr p]

theorem length_flatMap_pageCalls (O : Ocx σ) (pages : List U64) :
    (pages.flatMap (pageCalls O)).length = 2 * pages.length := by
  induction pages with
  | nil => rfl
  | cons p pages ih =>
      rw [List.flatMap_cons, List.length_append, ih, List.length_cons]
      show 2 + 2 * pages.length = 2 * (pages.length + 1)
      omega

/-- The target pages that the handler updates for a write to `a`. -/
def trappedPages (H : Host) (a : U64) (s : MemProtector Nat) : List U64 :=
  if s.readOnly (H.pageOf a) then
    (s.hostPage (H.pageOf a)).targetPages.map (·.pageAddr)
  else []

/-- **The loop of the handler over the entries.** -/
theorem runUpdates (rest : List (Action Nat)) :
    ∀ (tps : List (TargetPageData Nat)) (s : Platform σ), s.Wiring n →
      ∀ {log : List Effect} {s' : Platform σ},
        s.runActions O (tps.map (fun tp => .updatePage tp.c tp.pageAddr) ++ rest)
          = some (log, s') →
        ∃ (mid log' : List Effect) (s₁ : Platform σ), log = mid ++ log'
          ∧ s₁.runActions O rest = some (log', s') ∧ s₁.Wiring n
          ∧ Tells n s ((tps.map (·.pageAddr)).flatMap (pageCalls O)) mid := by
  intro tps
  induction tps with
  | nil =>
      intro s hw log s' h
      exact ⟨[], log, s, rfl, h, hw, .nil n s⟩
  | cons tp tps ih =>
      intro s hw log s' h
      rw [List.map_cons, List.cons_append, runActions_update, Option.bind_eq_some_iff] at h
      obtain ⟨⟨log₁, s₁⟩, h₁, h⟩ := h
      obtain ⟨⟨log₂, s₂⟩, h₂, heq⟩ := Option.bind_eq_some_iff.mp h
      simp only [Option.some.injEq, Prod.mk.injEq] at heq
      obtain ⟨rfl, rfl⟩ := heq
      cases hc : s.cores tp.c with
      | none =>
          -- the client was destroyed, and its call is not defined
          unfold updatePage at h₁
          rw [hc] at h₁
          cases h₁
      | some core =>
          obtain ⟨log, t, hcall, htells, hwt, heng⟩ :=
            callAll_tells (flushPage_makes (O := O) tp.pageAddr) hw hc
          rw [updatePage_eq, hcall] at h₁
          simp only [Option.some.injEq, Prod.mk.injEq] at h₁
          obtain ⟨rfl, rfl⟩ := h₁
          obtain ⟨mid, log', s₃, rfl, hrest, hw₃, htells'⟩ := ih t hwt h₂
          refine ⟨log ++ mid, log', s₃, by rw [List.append_assoc], hrest, hw₃, ?_⟩
          rw [List.map_cons, List.flatMap_cons]
          exact htells.append (htells'.congr (fun i => (heng i).symm))

/-- The wiring says nothing about the protector. -/
theorem Wiring.setProtector (h : s.Wiring n) (t : MemProtector Nat) :
    Wiring n { s with protector := t } :=
  ⟨h.cores, h.engines, h.nodup, h.others⟩

/-- A fault with the calls it makes, and one more effect. -/
theorem runFault {hp : HostPageData Nat} {a : U64} {x : Action Nat} {e : Effect}
    (hx : plainEffect x = some e) (hw : s.Wiring n) {log : List Effect}
    (h : s.runActions O (.fault a :: updateCalls hp ++ [x]) = some (log, s')) :
    s'.Wiring n ∧ ∃ mid, log = .fault a :: mid ++ [e]
      ∧ Tells n s ((hp.targetPages.map (·.pageAddr)).flatMap (pageCalls O)) mid := by
  rw [List.cons_append, runActions_plain (e := .fault a) rfl, Option.bind_eq_some_iff] at h
  obtain ⟨⟨log₁, s₁⟩, h₁, heq⟩ := h
  simp only [Option.some.injEq, Prod.mk.injEq] at heq
  obtain ⟨rfl, rfl⟩ := heq
  obtain ⟨mid, log', s₂, rfl, hrest, hw₂, htells⟩ := runUpdates [x] hp.targetPages s hw h₁
  rw [runActions_plain hx] at hrest
  simp only [runActions, Option.bind_some, Option.some.injEq, Prod.mk.injEq] at hrest
  obtain ⟨rfl, rfl⟩ := hrest
  exact ⟨hw₂, mid, rfl, htells⟩

/-- **The outcomes of a write**, with what the engines are told before it takes effect. -/
inductive WriteLog (H : Host) (O : Ocx σ) (n : Nat) (a : U64) (s : Platform σ) :
    List Effect → MemProtector Nat → Prop
  | direct : s.protector.readOnly (H.pageOf a) = false →
      WriteLog H O n a s [.store a] s.protector
  /-- The handler calls the one that was installed before. -/
  | passedOn {mid : List Effect} : s.protector.readOnly (H.pageOf a) = true →
      Tells n s ((trappedPages H a s.protector).flatMap (pageCalls O)) mid →
      WriteLog H O n a s (.fault a :: mid ++ [.original a]) s.protector
  | trapped {mid : List Effect} (hp : HostPageData Nat) :
      s.protector.readOnly (H.pageOf a) = true →
      Tells n s ((trappedPages H a s.protector).flatMap (pageCalls O)) mid →
      WriteLog H O n a s (.fault a :: mid ++ [.store a])
        (unlock s.protector (H.pageOf a) hp)

/-- **One write**, trapped or not, whatever `mprotect` answers. -/
theorem write_case {ok : U64 → Bool} {a : U64} (hinv : Inv H s.protector)
    (hw : s.Wiring n) {log : List Effect} (h : s.write H O ok a = some (log, s')) :
    s'.Wiring n ∧ WriteLog H O n a s log s'.protector := by
  -- the handler finds the protector changed already, and the cores as they are
  have hwt := hw.setProtector
  have hpages : ∀ {hp : HostPageData Nat}, s.protector.readOnly (H.pageOf a) = true →
      s.protector.lookup (H.pageOf a) = some hp →
      trappedPages H a s.protector = hp.targetPages.map (·.pageAddr) := by
    intro hp hro hl
    unfold trappedPages
    rw [if_pos hro, hostPage_of_lookup hl]
  have hcase := hostWrite_case H ok a s.protector
  unfold write at h
  have hprot := (runActions_frame _ _ h).protector
  revert h hcase hprot
  generalize (hostWrite H ok a s.protector).1 = actions
  generalize (hostWrite H ok a s.protector).2 = t
  intro h hcase hprot
  rw [hprot]
  cases hcase with
  | direct hro =>
      simp only [runActions, Option.pure_def, Option.bind_eq_bind, Option.bind_some,
        Option.some.injEq, Prod.mk.injEq] at h
      obtain ⟨rfl, rfl⟩ := h
      exact ⟨hwt _, .direct hro⟩
  | unclaimed hro hcalls =>
      rcases hcalls with ⟨hnone, _⟩ | ⟨hp, hl, _, rfl⟩
      · obtain ⟨hp, hl, _⟩ := hinv.locked_of_readOnly hro
        rw [hnone] at hl
        cases hl
      · obtain ⟨hw', mid, rfl, htells⟩ := runFault (e := .original a) rfl (hwt _) h
        refine ⟨hw', .passedOn hro ?_⟩
        rw [hpages hro hl]
        exact htells.congr (fun _ => rfl)
  | @trapped hp hro hl _ =>
      obtain ⟨hw', mid, rfl, htells⟩ := runFault (e := .store a) rfl (hwt _) h
      refine ⟨hw', .trapped hp hro ?_⟩
      rw [hpages hro hl]
      exact htells.congr (fun _ => rfl)

/-- The log tells the engines these calls, and has besides them at most a fault and
the store or the original handler. -/
structure HandlerLog (n : Nat) (s : Platform σ) (calls : List OcxCall) (log : List Effect) :
    Prop where
  each : ∀ i inst, s.engine i = some inst → log.filterMap (Effect.callOn i) = calls
  count : log.countP Effect.isCall ≤ n * calls.length
  length : log.length ≤ n * calls.length + 2

theorem Tells.handlerLog {calls : List OcxCall} {mid : List Effect} {e : Effect} {a : U64}
    (h : Tells n s calls mid) (he : ∀ i, e.callOn i = none) (hcall : e.isCall = false) :
    HandlerLog n s calls (.fault a :: mid ++ [e]) := by
  have hlen := h.length
  constructor
  · intro i inst hi
    have hfault : (Effect.fault a).callOn i = none := rfl
    rw [List.cons_append, List.filterMap_cons_none hfault, List.filterMap_append,
      h.each i inst hi, List.filterMap_cons_none (he i), List.filterMap_nil, List.append_nil]
  · have hfault : (Effect.fault a).isCall = false := rfl
    have hcount : mid.countP Effect.isCall ≤ mid.length := List.countP_le_length
    simp only [List.cons_append, List.countP_cons, List.countP_append, List.countP_nil,
      hfault, hcall, Bool.false_eq_true, if_false]
    omega
  · simp only [List.length_cons, List.length_append, List.length_nil]
    omega

theorem WriteLog.handlerLog {a : U64} {log : List Effect} {t : MemProtector Nat}
    (h : WriteLog H O n a s log t) :
    HandlerLog n s ((trappedPages H a s.protector).flatMap (pageCalls O)) log := by
  cases h with
  | direct hro =>
      have hnone : trappedPages H a s.protector = [] := by
        unfold trappedPages
        rw [hro]
        rfl
      rw [hnone]
      exact ⟨fun _ _ _ => rfl, Nat.le_refl 0, Nat.le_succ 1⟩
  | passedOn _ htells => exact htells.handlerLog (fun _ => rfl) rfl
  | trapped hp _ htells => exact htells.handlerLog (fun _ => rfl) rfl

/-! ## §3. Clusters that live on. -/

/-- What does not look at the lists or the engines keeps the wiring. -/
theorem Wiring.of_cores (h : s.Wiring n)
    (hcores : ∀ i core', s'.cores i = some core' → ∃ core, s.cores i = some core
      ∧ core'.mSyscallSubscriber = core.mSyscallSubscriber)
    (hlocks : ∀ i, s'.locks i = s.locks i)
    (hengines : ∀ i, s.hasEngine i = true → s'.hasEngine i = true) : s'.Wiring n := by
  constructor
  · intro i hi
    rw [hlocks i] at hi
    exact h.cores i hi
  · intro i hi
    rw [hlocks i] at hi
    exact hengines i (h.engines i hi)
  · intro i core' hi
    obtain ⟨core, hc, hlist⟩ := hcores i core' hi
    rw [hlist]
    exact h.nodup i core hc
  · intro i core' hi it hit hne
    obtain ⟨core, hc, hlist⟩ := hcores i core' hi
    rw [hlocks it] at hit
    rw [hlist]
    exact h.others i core hc it hit hne

theorem Wiring.frame (h : s.Wiring n) (hf : Frame Core.SameWiring s s') : s'.Wiring n := by
  refine h.of_cores ?_ hf.cores_isSome ?_
  · intro i core' hi
    obtain ⟨core, hc, hk⟩ := hf.of_some hi
    exact ⟨core, hc, hk.subscribers⟩
  · intro i hi
    unfold hasEngine
    rw [(hf.mono (fun _ _ hk => hk.toSameLife)).engine i]
    exact hi

theorem Wiring.kept (h : s.Wiring n) (hf : Frame Core.Kept s s') : s'.Wiring n :=
  h.frame (hf.mono (fun _ _ hk => hk.sameWiring))

/-- A reset that gets an engine keeps the wiring. -/
theorem Wiring.reset (h : s.Wiring n) (hload : s.AllLoaded) {c : Nat} {core : Core σ}
    (hc : s.cores c = some core) (flush : List RegWrite) :
    (s.reset O flush true c core).2.2.Wiring n := by
  have hlife := Core.reset_engine (O := O) (hload c core hc) flush s.nextInst true
  have hcores : ∀ i, (s.reset O flush true c core).2.2.cores i
      = if i = c then some (core.reset O flush s.nextInst true).2.2 else s.cores i :=
    fun i => setCore_cores s c i _
  refine h.of_cores ?_ ?_ ?_
  · intro i core' hi
    rw [hcores i] at hi
    by_cases heq : i = c
    · rw [if_pos heq] at hi
      injection hi with hi
      rw [← hi, heq]
      exact ⟨core, hc, hlife.subscribers⟩
    · rw [if_neg heq] at hi
      exact ⟨core', hi, rfl⟩
  · intro i
    unfold locks
    rw [hcores i]
    by_cases heq : i = c
    · rw [if_pos heq, heq, hc]
      rfl
    · rw [if_neg heq]
  · intro i hi
    unfold hasEngine Platform.engine at hi ⊢
    rw [hcores i]
    by_cases heq : i = c
    · rw [if_pos heq, Option.bind_some, Option.isSome_map]
      exact hlife.isSome
    · rw [if_neg heq]
      exact hi

end Platform

open Platform

namespace PlatformEvent

/-- The cluster stays as it was built, apart from cores that are destroyed. -/
def keepsCluster : PlatformEvent → Prop
  | .construct _ _ => False
  | .addSyscallSubscriber _ _ => False
  | _ => True

/-- A page that the event protects starts at a multiple of `2 ^ k`. -/
def alignedTo (k : Nat) : PlatformEvent → Prop
  | .protectPage _ pagePtr _ _ => pagePtr.toNat % 2 ^ k = 0
  | _ => True

end PlatformEvent

/-- A cluster whose cores protect pages, lose DMI regions, are reset and destroyed, and
whose memory is written, for a kernel that answers as `K` allows. -/
def livingCluster (H : Host) (O : Ocx σ) (K : Kernel) (clusterid : U64) (n : Nat) :
    Lts (Platform σ) PlatformEvent where
  init s := s = cpu O clusterid n
  step s e s' := PlatformStep H O K s e s' ∧ e.keepsCluster

section

variable {clusterid : U64} {tr : List (Platform σ × PlatformEvent)}

/-- **Every step keeps the wiring**, a destroyed core included, but for a reset that gets
no engine. -/
theorem wiring_platformStep {e : PlatformEvent} (hw : s.Wiring n) (hload : s.AllLoaded)
    (hinv : Inv H s.protector) (hst : PlatformStep H O K s e s') (he : e.keepsCluster)
    (hget : e.getsEngine) : s'.Wiring n := by
  cases hst with
  | construct _ _ => exact he.elim
  | addSyscallSubscriber _ _ => exact he.elim
  | protectPage pagePtr pageAddr _ _ => exact hw.setProtector _
  | invalidateDmi start end_ walk _ hd =>
      obtain ⟨s₁, h₁, rfl⟩ := invalidateDmi_eq_some hd
      exact (hw.kept (engineCall_some h₁).2).setProtector _
  | reset flush created hc =>
      have hcreated : created = true := hget
      rw [hcreated]
      exact hw.reset hload hc flush
  | destroy _ => exact hw.destroy _
  | write addr _ hd => exact (write_case hinv hw hd).1

/-- What holds of a cluster at work. -/
structure Living (H : Host) (n : Nat) (s : Platform σ) : Prop where
  wiring : s.Wiring n
  loaded : s.AllLoaded
  inv : Inv H s.protector

theorem living_cpu (H : Host) (O : Ocx σ) (clusterid : U64) (n : Nat) :
    Living H n (cpu O clusterid n) := by
  have hbuilt := cpu_built H O Kernel.reliable clusterid n
  refine ⟨wiring_cpu O clusterid n, allLoaded_of_reachable hbuilt.reachable, ?_⟩
  rw [hbuilt.protector]
  exact inv_init H

theorem Living.step {e : PlatformEvent} (h : Living H n s)
    (hst : PlatformStep H O K s e s') (he : e.keepsCluster) (hget : e.getsEngine) :
    Living H n s' :=
  ⟨wiring_platformStep h.wiring h.loaded h.inv hst he hget, allLoaded_step h.loaded hst,
    inv_of_step h.inv hst⟩

theorem Living.frame (h : Living H n s) (hf : Frame Core.SameWiring s s') : Living H n s' := by
  refine ⟨h.wiring.frame hf, (hf.mono (fun _ _ hk => hk.toSameLife)).allLoaded h.loaded, ?_⟩
  rw [hf.protector]
  exact h.inv

/-- An engine in another state. -/
theorem Living.setState {c : Nat} {core : Core σ} {inst : OcxInstance σ} (h : Living H n s)
    (hc : s.cores c = some core) (hinst : core.mCore = some inst) (st : σ) :
    Living H n (s.setCore c (some { core with mCore := some ⟨inst.id, st⟩ })) :=
  h.frame ((frame_setState hc hinst st).mono (fun _ _ hk => hk.sameWiring))

/-- **A cluster whose resets all get an engine** keeps its wiring. -/
theorem living_of_run (hr : (livingCluster H O K clusterid n).Run tr s)
    (hget : ∀ x ∈ tr, x.2.getsEngine) : Living H n s := by
  induction hr with
  | @start t h0 =>
      rw [show t = cpu O clusterid n from h0]
      exact living_cpu H O clusterid n
  | @snoc tr t t' e _ hst ih =>
      have ht := ih (fun x hx => hget x (List.mem_append_left _ hx))
      exact ht.step hst.1 hst.2 (hget (t, e) (by simp))

/-- Every entry is stored at an address that a core has passed. -/
theorem hostAddress_aligned {k : Nat} (hr : (livingCluster H O K clusterid n).Run tr s)
    (hal : ∀ x ∈ tr, x.2.alignedTo k) :
    ∀ page hp tp, s.protector.lookup page = some hp → tp ∈ hp.targetPages →
      tp.hostAddress.toNat % 2 ^ k = 0 := by
  induction hr with
  | start h0 =>
      intro page hp tp hl
      rw [show _ = cpu O clusterid n from h0,
        (cpu_built H O K clusterid n).protector] at hl
      cases hl
  | @snoc tr t t' e hpre hst ih =>
      intro page hp tp hl hmem
      rcases entry_step hst.1 hl hmem with ⟨hp₀, hl₀, hmem₀⟩ | ⟨res, rfl⟩
      · exact ih (fun x hx => hal x (List.mem_append_left _ hx)) page hp₀ tp hl₀ hmem₀
      · exact hal (t, .protectPage tp.c tp.hostAddress tp.pageAddr res) (by simp)

/-- The target pages in one host page are different blocks of it. -/
theorem trappedPages_length {k : Nat} (hk : k ≤ H.pageBits)
    (hr : (livingCluster H O K clusterid n).Run tr s) (hal : ∀ x ∈ tr, x.2.alignedTo k)
    (a : U64) : (trappedPages H a s.protector).length ≤ 2 ^ (H.pageBits - k) := by
  have hinv : Inv H s.protector := by
    refine Lts.Reachable.invariant (I := fun t => Inv H t.protector) ?_ ?_ ⟨tr, hr⟩
    · intro t h0
      rw [show t = cpu O clusterid n from h0]
      exact (living_cpu H O clusterid n).inv
    · intro t e t' ht hst
      exact inv_of_step ht hst.1
  unfold trappedPages
  by_cases hro : s.protector.readOnly (H.pageOf a) = true
  · obtain ⟨hp, hl, _⟩ := hinv.locked_of_readOnly hro
    rw [if_pos hro, hostPage_of_lookup hl, List.length_map]
    have hin : ∀ h ∈ hp.targetPages.map (·.hostAddress), H.pageOf h = H.pageOf a := by
      intro h hmem
      obtain ⟨tp, htp, rfl⟩ := List.mem_map.mp hmem
      exact (hinv _).inPage hp hl tp htp
    have hblocks : ∀ h ∈ hp.targetPages.map (·.hostAddress), h.toNat % 2 ^ k = 0 := by
      intro h hmem
      obtain ⟨tp, htp, rfl⟩ := List.mem_map.mp hmem
      exact hostAddress_aligned hr hal _ hp tp hl htp
    have hlen := length_le_blocks H.pageBits_lt hk ((hinv _).distinct hp hl) hin hblocks
    rw [List.length_map] at hlen
    exact hlen
  · rw [if_neg hro]
    exact Nat.zero_le _

/-- The calls for the target pages of one host page. -/
theorem length_trappedCalls {k : Nat} (hk : k ≤ H.pageBits)
    (hr : (livingCluster H O K clusterid n).Run tr s) (hal : ∀ x ∈ tr, x.2.alignedTo k)
    (a : U64) : n * ((trappedPages H a s.protector).flatMap (pageCalls O)).length
      ≤ 2 * n * 2 ^ (H.pageBits - k) := by
  calc n * ((trappedPages H a s.protector).flatMap (pageCalls O)).length
      = 2 * n * (trappedPages H a s.protector).length := by
        rw [length_flatMap_pageCalls, ← Nat.mul_assoc, Nat.mul_comm n 2]
    _ ≤ 2 * n * 2 ^ (H.pageBits - k) :=
        Nat.mul_le_mul_left _ (trappedPages_length hk hr hal a)

end

end Avp64.Psp
