/-
  Avp64.Psp.Platform.Syscalls — syscalls that one core broadcasts to its cluster.

  `broadcast_syscall` handles the call on its own core and on all subscribers, with
  the loop that `update_page` has too: a subscriber that was destroyed is erased, the
  others are called.  Both are `callAll`, an instance of `visitLive`.

    • `callAll_spec`           — the calls, and the list that is kept,
    • `wiring_step`            — the lists stay free of repetitions and complete,
    • `broadcast_exactly_once` — every core alive is called once.
-/
import Avp64.Psp.Platform.Cluster
import Avp64.Psp.Platform.Replay

namespace Avp64.Psp

open Avp64.Lib

variable {σ : Type} {O : Ocx σ} {s s' : Platform σ} {n : Nat}

/-! ## §1. `broadcast_syscall`. -/

namespace Platform

/-- `handle_syscall(callno, arg)` of the core `c`. -/
def handleSyscall (O : Ocx σ) (callno : BitVec 32) (arg : Nat) (c : Nat)
    (s : Platform σ) : Option (List Effect × Platform σ) :=
  s.engineCall O c (.handleSyscall callno arg)

/-- `broadcast_syscall(callno, arg, async)` of the core `c`.  The source never reads
`async`. -/
def broadcastSyscall (O : Ocx σ) (c : Nat) (callno : BitVec 32) (arg : Nat)
    (_async : Bool) (s : Platform σ) : Option (List Effect × Platform σ) :=
  s.callAll (handleSyscall O callno arg) c

/-! ## §2. What a call of all subscribers does. -/

def hasEngine (s : Platform σ) (c : Nat) : Bool := (s.engine c).isSome

/-- The calls, made on the engine that the core `c` has. -/
def callsOn (calls : List OcxCall) (s : Platform σ) (c : Nat) : List Effect :=
  calls.map (.engine c ((s.engine c).getD 0))

/-- `visit` makes these calls of the engine of its core, and nothing else. -/
def MakesCalls (visit : Nat → Platform σ → Option (List Effect × Platform σ))
    (calls : List OcxCall) : Prop :=
  VisitLaws locks hasEngine (callsOn calls) visit (Frame Core.Kept)

/-- A function that makes its calls where there is an engine is a visit: the calls keep
all cores and engines. -/
theorem MakesCalls.of_spec {visit : Nat → Platform σ → Option (List Effect × Platform σ)}
    {calls : List OcxCall}
    (h : ∀ (s : Platform σ) (c i : Nat), s.engine c = some i →
      ∃ s', visit c s = some (calls.map (.engine c i), s') ∧ Frame Core.Kept s s') :
    MakesCalls visit calls where
  refl s := Frame.refl Core.Kept.refl s
  trans hf hf' := hf.trans_kept hf'
  live_eq hf c := hf.cores_isSome c
  ready_eq hf c := congrArg Option.isSome (hf.life.engine c)
  out_eq hf c := by
    unfold callsOn
    rw [hf.life.engine c]
  visit := by
    intro s c hready
    obtain ⟨i, hi⟩ := Option.isSome_iff_exists.mp hready
    obtain ⟨s', heq, hf⟩ := h s c i hi
    refine ⟨s', ?_, hf⟩
    rw [heq, callsOn, hi]
    rfl

theorem handleSyscall_makes (callno : BitVec 32) (arg : Nat) :
    MakesCalls (handleSyscall O callno arg) [.handleSyscall callno arg] :=
  .of_spec (fun _ _ _ hi => engineCall_spec hi _)

theorem flushPage_makes (p : U64) :
    MakesCalls (fun c (t : Platform σ) => t.flushPage O c p)
      [.tbFlushPage p (p + O.pageSize - 1#64), .invalidatePagePtr p] :=
  .of_spec (fun _ _ _ hi => flushPage_spec hi p)

/-- From `s` to `s'` all cores live on, and the list of `c` has lost the subscribers
that were destroyed. -/
structure Pruned (c : Nat) (s s' : Platform σ) : Prop where
  frame : Frame Core.SameLife s s'
  lists : ∀ i core', s'.cores i = some core' → ∃ core, s.cores i = some core
    ∧ core'.mSyscallSubscriber
      = if i = c then core.mSyscallSubscriber.filter s.locks else core.mSyscallSubscriber

/-- **A call of all subscribers** calls the core and those of its subscribers that are
alive, and erases the others from the list. -/
theorem callAll_spec {visit : Nat → Platform σ → Option (List Effect × Platform σ)}
    {calls : List OcxCall} (hv : MakesCalls visit calls) {c : Nat} {core : Core σ}
    (hc : s.cores c = some core)
    (hengines : ∀ i, s.locks i = true → s.hasEngine i = true) :
    ∃ s', s.callAll visit c
        = some ((c :: core.mSyscallSubscriber.filter s.locks).flatMap (callsOn calls s), s')
      ∧ Pruned c s s' := by
  have hlocks : s.locks c = true := locks_of_some hc
  obtain ⟨s₁, h₁, hf₁⟩ := hv.visit (hengines c hlocks)
  have hl₁ : s₁.locks = s.locks := funext (hv.live_eq hf₁)
  have ho₁ : callsOn calls s₁ = callsOn calls s := funext (hv.out_eq hf₁)
  obtain ⟨s₂, h₂, hf₂⟩ := visitLive_spec hv core.mSyscallSubscriber s₁ (by
    intro i _ hi
    rw [hv.ready_eq hf₁]
    rw [hl₁] at hi
    exact hengines i hi)
  rw [hl₁, ho₁] at h₂
  have hf := hf₁.trans_kept hf₂
  obtain ⟨core₂, hc₂, hk⟩ := hf.exists_some hc
  refine ⟨s₂.setSubscribers c (core.mSyscallSubscriber.filter s.locks), ?_, ?_, ?_⟩
  · unfold callAll
    simp only [hc, h₁, h₂, Option.bind_eq_bind, Option.bind_some, List.flatMap_cons]
    rfl
  · unfold setSubscribers
    rw [hc₂, Option.map_some]
    exact hf.life.trans_life (frame_setCore Core.SameLife.refl hc₂ ⟨rfl, Iff.rfl⟩)
  · intro i core' hi
    unfold setSubscribers at hi
    rw [hc₂, Option.map_some, setCore_cores] at hi
    by_cases heq : i = c
    · -- the list of the core itself is written back without the destroyed ones
      rw [if_pos heq] at hi
      injection hi with hi
      exact ⟨core, by rw [heq]; exact hc, by rw [if_pos heq, ← hi]⟩
    · rw [if_neg heq] at hi
      obtain ⟨core₀, hc₀, hk₀⟩ := hf.of_some hi
      exact ⟨core₀, hc₀, by rw [if_neg heq, hk₀.frame]⟩

/-! ## §3. The lists of a cluster that loses cores. -/

/-- Every core that is there has an engine and, once each, all others that are there
among its subscribers. -/
structure Wiring (n : Nat) (s : Platform σ) : Prop where
  cores : ∀ c, s.locks c = true → c < n
  engines : ∀ c, s.locks c = true → s.hasEngine c = true
  nodup : ∀ c core, s.cores c = some core → (c :: core.mSyscallSubscriber).Nodup
  others : ∀ c core, s.cores c = some core → ∀ it, s.locks it = true → it ≠ c →
    it ∈ core.mSyscallSubscriber

theorem Wiring.pruned (h : s.Wiring n) {c : Nat} (hp : Pruned c s s') : s'.Wiring n := by
  have hlocks : ∀ i, s'.locks i = s.locks i := fun i => hp.frame.cores_isSome i
  constructor
  · intro i hi
    rw [hlocks i] at hi
    exact h.cores i hi
  · intro i hi
    rw [hlocks i] at hi
    unfold hasEngine
    rw [hp.frame.engine i]
    exact h.engines i hi
  · intro i core' hi
    obtain ⟨core, hc, hlist⟩ := hp.lists i core' hi
    obtain ⟨hself, hnd⟩ := List.nodup_cons.mp (h.nodup i core hc)
    rw [hlist, List.nodup_cons]
    split
    · exact ⟨fun hmem => hself (List.mem_of_mem_filter hmem), hnd.filter _⟩
    · exact ⟨hself, hnd⟩
  · intro i core' hi it hit hne
    obtain ⟨core, hc, hlist⟩ := hp.lists i core' hi
    rw [hlocks it] at hit
    have hold := h.others i core hc it hit hne
    rw [hlist]
    split
    · exact List.mem_filter.mpr ⟨hold, hit⟩
    · exact hold

theorem locks_destroy (c i : Nat) (s : Platform σ) :
    (s.destroy c).2.locks i = true ↔ i ≠ c ∧ s.locks i = true := by
  unfold locks destroy
  rw [setCore_cores]
  by_cases heq : i = c <;> simp [heq]

theorem cores_of_destroy {c i : Nat} {core : Core σ}
    (h : (s.destroy c).2.cores i = some core) : s.cores i = some core := by
  unfold destroy at h
  rw [setCore_cores] at h
  split at h
  · cases h
  · exact h

theorem Wiring.destroy (h : s.Wiring n) (c : Nat) : (s.destroy c).2.Wiring n := by
  constructor
  · intro i hi
    exact h.cores i ((locks_destroy c i s).mp hi).2
  · intro i hi
    obtain ⟨hne, hi⟩ := (locks_destroy c i s).mp hi
    unfold hasEngine Platform.destroy
    rw [engine_setCore, if_neg hne]
    exact h.engines i hi
  · intro i core hi
    exact h.nodup i core (cores_of_destroy hi)
  · intro i core hi it hit hne
    exact h.others i core (cores_of_destroy hi) it ((locks_destroy c it s).mp hit).2 hne

/-! ### The lists that the constructor builds. -/

/-- The list of every core is free of repetitions. -/
def ListsNodup (s : Platform σ) : Prop :=
  ∀ c core, s.cores c = some core → core.mSyscallSubscriber.Nodup

theorem ListsNodup.addSyscallSubscriber {R : Nat → Nat → Prop} (h : s.ListsNodup)
    (hw : s.Wired n R) {a b : Nat} (hnew : ¬ R a b) :
    (s.addSyscallSubscriber a b).ListsNodup := by
  intro c core hc
  unfold Platform.addSyscallSubscriber at hc
  rw [setCore_cores] at hc
  split at hc
  · next heq =>
      obtain ⟨core₀, hc₀, rfl⟩ := Option.map_eq_some_iff.mp hc
      refine List.nodup_append.mpr ⟨h a core₀ hc₀, by simp, ?_⟩
      intro x hx y hy hxy
      rw [List.mem_singleton.mp hy] at hxy
      rw [hxy] at hx
      exact hnew ((hw.subscribers a core₀ hc₀ b).mp hx)
  · exact h c core hc

/-- The rounds of the loop add every pair once. -/
theorem ListsNodup.subscribeCores {R : Nat → Nat → Prop} {id : Nat} (h : s.ListsNodup)
    (hw : s.Wired n R) (hnew : ∀ k < id, ¬ R k id ∧ ¬ R id k) :
    ∀ k ≤ id, (subscribeCores id k s).ListsNodup := by
  intro k
  induction k with
  | zero => intro _; exact h
  | succ k ih =>
      intro hk
      have hlt : k < id := hk
      obtain ⟨hnew₁, hnew₂⟩ := hnew k hlt
      have hw₁ : (Avp64.Psp.subscribeCores id k s).Wired n _ := hw.subscribeCores k
      have hw₂ := hw₁.addSyscallSubscriber k id
      refine ((ih (Nat.le_of_lt hlt)).addSyscallSubscriber hw₁ ?_).addSyscallSubscriber hw₂ ?_
      · rintro (hR | ⟨hkk, _⟩ | ⟨heq, _⟩)
        · exact hnew₁ hR
        · exact absurd hkk (Nat.lt_irrefl k)
        · exact absurd heq (Nat.ne_of_lt hlt)
      · rintro ((hR | ⟨_, heq⟩ | ⟨_, hkk⟩) | ⟨heq, _⟩)
        · exact hnew₂ hR
        · exact absurd heq (Nat.ne_of_lt hlt)
        · exact absurd hkk (Nat.lt_irrefl k)
        · exact absurd heq.symm (Nat.ne_of_lt hlt)

theorem cpu_listsNodup (O : Ocx σ) (clusterid : U64) :
    ∀ n, (cpu O clusterid n).ListsNodup := by
  intro n
  induction n with
  | zero =>
      intro c core hc
      cases hc
  | succ n ih =>
      have hbuilt := cpu_built Host.kib4 O Kernel.reliable clusterid n
      have hw := hbuilt.wired.construct (O := O) hbuilt.nextCore
        (fun it h => absurd h.1 (Nat.lt_irrefl n)) clusterid (BitVec.ofNat 64 n)
      refine ListsNodup.subscribeCores (n := n + 1) ?_ hw ?_ n (Nat.le_refl n)
      · -- the new core comes without subscribers
        intro c core hc
        unfold Platform.construct at hc
        have hc : ((cpu O clusterid n).setCore _ _).cores c = some core := hc
        rw [setCore_cores] at hc
        split at hc
        · obtain ⟨st, _, _, hnew⟩ := Core.construct_opened O clusterid (BitVec.ofNat 64 n)
            (cpu O clusterid n).nextInst
          injection hc with hc
          rw [← hc, hnew]
          exact List.nodup_nil
        · exact ih c core hc
      · intro k hk
        exact ⟨fun h => absurd h.2.1 (Nat.lt_irrefl n), fun h => absurd h.1 (Nat.lt_irrefl n)⟩

theorem wiring_cpu (O : Ocx σ) (clusterid : U64) (n : Nat) :
    (cpu O clusterid n).Wiring n := by
  have hbuilt := cpu_built Host.kib4 O Kernel.reliable clusterid n
  constructor
  · intro c hc
    exact (hbuilt.wired.cores c).mp hc
  · intro c hc
    exact hbuilt.engines c ((hbuilt.wired.cores c).mp hc)
  · intro c core hc
    refine List.nodup_cons.mpr ⟨?_, cpu_listsNodup O clusterid n c core hc⟩
    intro hmem
    exact ((hbuilt.wired.subscribers c core hc c).mp hmem).2.2 rfl
  · intro c core hc it hit hne
    refine (hbuilt.wired.subscribers c core hc it).mpr ⟨?_, ?_, hne⟩
    · exact (hbuilt.wired.cores c).mp (by rw [hc]; rfl)
    · exact (hbuilt.wired.cores it).mp hit

end Platform

open Platform

/-! ## §4. Runs. -/

inductive SyscallEvent where
  | broadcastSyscall (c : Nat) (callno : BitVec 32) (arg : Nat) (log : List Effect)
  | updatePage (c : Nat) (pageAddr : U64) (log : List Effect)
  | destroy (c : Nat)
  deriving DecidableEq

inductive SyscallStep (O : Ocx σ) : Platform σ → SyscallEvent → Platform σ → Prop
  | broadcastSyscall (s : Platform σ) {c : Nat} (callno : BitVec 32) (arg : Nat)
      (async : Bool) {log : List Effect} {s' : Platform σ} :
      s.broadcastSyscall O c callno arg async = some (log, s') →
      SyscallStep O s (.broadcastSyscall c callno arg log) s'
  | updatePage (s : Platform σ) {c : Nat} (pageAddr : U64) {log : List Effect}
      {s' : Platform σ} : s.updatePage O c pageAddr = some (log, s') →
      SyscallStep O s (.updatePage c pageAddr log) s'
  | destroy (s : Platform σ) {c : Nat} : (s.cores c).isSome = true →
      SyscallStep O s (.destroy c) (s.destroy c).2

/-- A cluster of `n` cores whose cores broadcast, flush pages, and go. -/
def syscalls (O : Ocx σ) (clusterid : U64) (n : Nat) : Lts (Platform σ) SyscallEvent where
  init s := s = cpu O clusterid n
  step := SyscallStep O

/-- A step calls all subscribers of a core, or destroys a core. -/
theorem syscallStep_cases {e : SyscallEvent} (hw : s.Wiring n) (hst : SyscallStep O s e s') :
    (∃ c, (∀ i, e ≠ .destroy i) ∧ Pruned c s s')
    ∨ ∃ c, e = .destroy c ∧ s' = (s.destroy c).2 := by
  -- a defined call is the one that the list of subscribers says
  have hcall : ∀ {visit : Nat → Platform σ → Option (List Effect × Platform σ)}
      {calls : List OcxCall} {c : Nat} {log : List Effect}, MakesCalls visit calls →
      s.callAll visit c = some (log, s') → Pruned c s s' := by
    intro visit calls c log hv heq
    cases hc : s.cores c with
    | none =>
        unfold callAll at heq
        rw [hc] at heq
        cases heq
    | some core =>
        obtain ⟨s₁, h₁, hp⟩ := callAll_spec hv hc hw.engines
        rw [h₁] at heq
        injection heq with heq
        injection heq with _ heq
        exact heq ▸ hp
  cases hst with
  | broadcastSyscall callno arg async h =>
      exact .inl ⟨_, nofun, hcall (handleSyscall_makes callno arg) h⟩
  | updatePage pageAddr h =>
      rw [updatePage_eq] at h
      exact .inl ⟨_, nofun, hcall (flushPage_makes pageAddr) h⟩
  | destroy _ => exact .inr ⟨_, rfl, rfl⟩

theorem wiring_step {e : SyscallEvent} (hw : s.Wiring n) (hst : SyscallStep O s e s') :
    s'.Wiring n := by
  rcases syscallStep_cases hw hst with ⟨c, _, hp⟩ | ⟨c, _, rfl⟩
  · exact hw.pruned hp
  · exact hw.destroy c

section

variable {clusterid : U64} {tr : List (Platform σ × SyscallEvent)}

theorem wiring_of_reachable (hr : (syscalls O clusterid n).Reachable s) : s.Wiring n := by
  refine hr.invariant ?_ ?_
  · intro t h0
    rw [show t = cpu O clusterid n from h0]
    exact wiring_cpu O clusterid n
  · intro t e t' hw hst
    exact wiring_step hw hst

/-- The cores that are there are those that were built and not destroyed. -/
theorem locks_of_run (hr : (syscalls O clusterid n).Run tr s) (c : Nat) :
    s.locks c = true ↔ c < n ∧ ∀ x ∈ tr, x.2 ≠ .destroy c := by
  induction hr with
  | @start t h0 =>
      rw [show t = cpu O clusterid n from h0]
      have hc := (cpu_built Host.kib4 O Kernel.reliable clusterid n).wired.cores c
      exact ⟨fun h => ⟨hc.mp h, by simp⟩, fun h => hc.mpr h.1⟩
  | @snoc tr t t' e hpre hst ih =>
      rw [List.forall_mem_append, List.forall_mem_singleton]
      rcases syscallStep_cases (wiring_of_reachable ⟨tr, hpre⟩) hst with
        ⟨i, hnot, hp⟩ | ⟨i, rfl, rfl⟩
      · rw [show t'.locks c = t.locks c from hp.frame.cores_isSome c, ih]
        exact ⟨fun h => ⟨h.1, h.2, hnot c⟩, fun h => ⟨h.1, h.2.1⟩⟩
      · rw [locks_destroy, ih]
        constructor
        · rintro ⟨hne, hlt, hall⟩
          exact ⟨hlt, hall, fun heq => hne (by injection heq with heq; exact heq.symm)⟩
        · rintro ⟨hlt, hall, hne⟩
          exact ⟨fun heq => hne (by rw [heq]), hlt, hall⟩

end

/-! ## §5. Every core once. -/

/-- The effect is a call of `handle_syscall(callno, arg)` of the core `c`. -/
def Effect.handlesSyscall (callno : BitVec 32) (arg : Nat) (c : Nat) : Effect → Bool
  | .engine i _ call => i == c && call == .handleSyscall callno arg
  | _ => false

theorem callsOn_handleSyscall (callno : BitVec 32) (arg : Nat) (l : List Nat) :
    l.flatMap (callsOn [.handleSyscall callno arg] s)
      = l.map (fun c => .engine c ((s.engine c).getD 0) (.handleSyscall callno arg)) := by
  rw [List.map_eq_flatMap]
  rfl

/-- Of the calls on a list without repetitions, one is on the core `c` if the list has it. -/
theorem countP_handlesSyscall (callno : BitVec 32) (arg : Nat) {l : List Nat} (h : l.Nodup)
    (f : Nat → Nat) (c : Nat) :
    (l.map (fun i => Effect.engine i (f i) (.handleSyscall callno arg))).countP
      (Effect.handlesSyscall callno arg c) = if c ∈ l then 1 else 0 := by
  rw [List.countP_map, ← h.count]
  have hp : (Effect.handlesSyscall callno arg c
      ∘ fun i => Effect.engine i (f i) (.handleSyscall callno arg)) = (· == c) := by
    funext i
    simp [Effect.handlesSyscall]
  rw [hp]
  rfl

/-- **A broadcast reaches every core exactly once**, after any run of a cluster that
has lost cores: the cores that were not destroyed, and nobody else, handle the call
once, in the state their engine is in; every engine afterwards is what its calls in the
log have made of it; and the core's list is the old one without the destroyed cores. -/
theorem broadcast_exactly_once (O : Ocx σ) (clusterid : U64) (n : Nat)
    {tr : List (Platform σ × SyscallEvent)} (hr : (syscalls O clusterid n).Run tr s)
    {i : Nat} {core : Core σ} (hi : s.cores i = some core) (callno : BitVec 32) (arg : Nat)
    (async : Bool) :
    ∃ log s' core', s.broadcastSyscall O i callno arg async = some (log, s')
      ∧ (∀ x ∈ log, ∃ c inst, x = .engine c inst (.handleSyscall callno arg)
          ∧ s.engine c = some inst)
      ∧ (∀ c, log.countP (Effect.handlesSyscall callno arg c)
          = if c < n ∧ ∀ x ∈ tr, x.2 ≠ .destroy c then 1 else 0)
      ∧ Replayed O log s s'
      ∧ s'.cores i = some core'
      ∧ core'.mSyscallSubscriber
        = core.mSyscallSubscriber.filter (fun c => (s.cores c).isSome) := by
  have hw : s.Wiring n := wiring_of_reachable ⟨tr, hr⟩
  have hlocks : s.locks i = true := locks_of_some hi
  obtain ⟨s', heq, hp⟩ := callAll_spec (handleSyscall_makes callno arg) hi hw.engines
  rw [callsOn_handleSyscall] at heq
  obtain ⟨core', hi'⟩ := Option.isSome_iff_exists.mp
    ((hp.frame.cores_isSome i).trans hlocks)
  -- the cores that are called are those that are there
  have hcalled : ∀ c, c ∈ i :: core.mSyscallSubscriber.filter s.locks ↔ s.locks c = true := by
    intro c
    rw [List.mem_cons, List.mem_filter]
    constructor
    · rintro (rfl | ⟨_, hc⟩)
      · exact hlocks
      · exact hc
    · intro hc
      by_cases hne : c = i
      · exact .inl hne
      · exact .inr ⟨hw.others i core hi c hc hne, hc⟩
  have hnodup : (i :: core.mSyscallSubscriber.filter s.locks).Nodup := by
    obtain ⟨hself, hnd⟩ := List.nodup_cons.mp (hw.nodup i core hi)
    exact List.nodup_cons.mpr
      ⟨fun hmem => hself (List.mem_of_mem_filter hmem), hnd.filter _⟩
  have hreplayed := callAll_replayed engineCall_replayed
    (show s.callAll (handleSyscall O callno arg) i = _ from heq)
  refine ⟨_, s', core', heq, ?_, ?_, hreplayed, hi', ?_⟩
  · intro x hx
    obtain ⟨c, hc, rfl⟩ := List.mem_map.mp hx
    obtain ⟨inst, hinst⟩ := Option.isSome_iff_exists.mp (hw.engines c ((hcalled c).mp hc))
    exact ⟨c, inst, by rw [hinst]; rfl, hinst⟩
  · intro c
    rw [countP_handlesSyscall callno arg hnodup]
    exact if_congr ((hcalled c).trans (locks_of_run hr c)) rfl rfl
  · obtain ⟨core₀, hc₀, hlist⟩ := hp.lists i core' hi'
    rw [hi] at hc₀
    injection hc₀ with hc₀
    rw [hlist, if_pos rfl, hc₀]
    rfl

/-- The second of two cores is destroyed, and the first one broadcasts. -/
theorem broadcast_exactly_once_two :
    ∃ core, ((cpu smallOcx 0 2).destroy 1).2.cores 0 = some core ∧
      ∃ log s' core', ((cpu smallOcx 0 2).destroy 1).2.broadcastSyscall smallOcx 0 5 9 true
          = some (log, s')
        ∧ (∀ x ∈ log, ∃ c inst, x = .engine c inst (.handleSyscall 5 9)
            ∧ ((cpu smallOcx 0 2).destroy 1).2.engine c = some inst)
        ∧ (∀ c, log.countP (Effect.handlesSyscall 5 9 c)
            = if c < 2 ∧ ∀ x ∈ [(cpu smallOcx 0 2, SyscallEvent.destroy 1)], x.2 ≠ .destroy c
              then 1 else 0)
        ∧ Replayed smallOcx log ((cpu smallOcx 0 2).destroy 1).2 s'
        ∧ s'.cores 0 = some core'
        ∧ core'.mSyscallSubscriber = core.mSyscallSubscriber.filter
            (fun c => (((cpu smallOcx 0 2).destroy 1).2.cores c).isSome) := by
  have hr : (syscalls smallOcx 0 2).Run [(cpu smallOcx 0 2, .destroy 1)]
      ((cpu smallOcx 0 2).destroy 1).2 :=
    .snoc (.start rfl) (.destroy _ rfl)
  exact ⟨_, rfl, broadcast_exactly_once smallOcx 0 2 hr rfl 5 9 true⟩

end Avp64.Psp
