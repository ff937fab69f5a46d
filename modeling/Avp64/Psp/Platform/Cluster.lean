/-
  Avp64.Psp.Platform.Cluster — the cores of a `psp::cpu`.

  The constructor of `cpu` creates the cores one after the other and subscribes each
  new core to all cores before it and these to the new one.  `Wired` describes the
  subscriber lists by a relation, which one round of the loop extends by two pairs.

    • `cpu_built`         — all pairs of different cores are subscribed,
    • `repInv_of_cluster` — a cluster goes on from there, with the protector's
                            invariants.
-/
import Avp64.Psp.Platform.Lifetime

namespace Avp64.Psp

open Avp64.Lib MemProtector

variable {σ : Type} {H : Host} {O : Ocx σ} {s s' : Platform σ} {n : Nat}
  {R R' : Nat → Nat → Prop}

/-! ## §1. Subscriber lists. -/

namespace Platform

/-- The cores are those below `n`, and `R c` are the subscribers of the core `c`. -/
structure Wired (n : Nat) (R : Nat → Nat → Prop) (s : Platform σ) : Prop where
  cores : ∀ c, (s.cores c).isSome = true ↔ c < n
  subscribers : ∀ c core, s.cores c = some core →
    ∀ it, it ∈ core.mSyscallSubscriber ↔ R c it

/-- Each core has all others as its subscribers. -/
def Others (n c it : Nat) : Prop := c < n ∧ it < n ∧ it ≠ c

theorem Wired.congr (h : s.Wired n R) (hR : ∀ c it, R c it ↔ R' c it) : s.Wired n R' :=
  ⟨h.cores, fun c core hc it => (h.subscribers c core hc it).trans (hR c it)⟩

/-- A step that keeps the cores and their lists keeps the wiring. -/
theorem Wired.frame {S : Core σ → Core σ → Prop} (h : s.Wired n R) (hf : Frame S s s')
    (hS : ∀ a b, S a b → b.mSyscallSubscriber = a.mSyscallSubscriber) :
    s'.Wired n R := by
  constructor
  · intro c
    rw [hf.cores_isSome c]
    exact h.cores c
  · intro c core' hc it
    obtain ⟨core, hc₀, hrel⟩ := hf.of_some hc
    rw [hS core core' hrel]
    exact h.subscribers c core hc₀ it

theorem Wired.addSyscallSubscriber (h : s.Wired n R) (a b : Nat) :
    (s.addSyscallSubscriber a b).Wired n (fun c it => R c it ∨ (c = a ∧ it = b)) := by
  constructor
  · intro c
    rw [(addSyscallSubscriber_frame a b s).cores_isSome c]
    exact h.cores c
  · intro c core hc it
    unfold Platform.addSyscallSubscriber at hc
    rw [setCore_cores] at hc
    by_cases heq : c = a
    · rw [if_pos heq] at hc
      obtain ⟨core₀, hc₀, rfl⟩ := Option.map_eq_some_iff.mp hc
      have hold := h.subscribers a core₀ hc₀ it
      simp [heq, hold]
    · rw [if_neg heq] at hc
      have hold := h.subscribers c core hc it
      simp [heq, hold]

/-- A new core comes without subscribers. -/
theorem Wired.construct (h : s.Wired n R) (hnext : s.nextCore = n)
    (hR : ∀ it, ¬ R n it) (procid coreid : U64) :
    (s.construct O procid coreid).Wired (n + 1) R := by
  -- the new core gets the number `n`; the others are as they were
  have hcores : ∀ c, (s.construct O procid coreid).cores c
      = if c = n then some (Core.construct O procid coreid s.nextInst true).2
        else s.cores c := by
    intro c
    rw [← hnext]
    exact setCore_cores s s.nextCore c _
  constructor
  · intro c
    rw [hcores c]
    by_cases heq : c = n
    · simp [heq]
    · rw [if_neg heq, h.cores c]
      omega
  · intro c core hc it
    rw [hcores c] at hc
    by_cases heq : c = n
    · rw [if_pos heq] at hc
      obtain ⟨st, _, _, hnew⟩ := Core.construct_opened O procid coreid s.nextInst
      injection hc with hc
      rw [← hc, hnew, heq]
      simpa [Core.initial] using hR it
    · rw [if_neg heq] at hc
      exact h.subscribers c core hc it

theorem Wired.reset (h : s.Wired n R) (hload : s.AllLoaded) {c : Nat} {core : Core σ}
    (hc : s.cores c = some core) (flush : List RegWrite) (created : Bool) :
    (s.reset O flush created c core).2.2.Wired n R := by
  have hlife := Core.reset_engine (O := O) (hload c core hc) flush s.nextInst created
  have hcores : ∀ c', (s.reset O flush created c core).2.2.cores c'
      = if c' = c then some (core.reset O flush s.nextInst created).2.2
        else s.cores c' := fun c' => setCore_cores s c c' _
  constructor
  · intro c'
    rw [hcores c', ← h.cores c']
    split
    · next heq => rw [heq, hc]; rfl
    · exact Iff.rfl
  · intro c' core' hc' it
    rw [hcores c'] at hc'
    split at hc'
    · next heq =>
        injection hc' with hc'
        rw [← hc', hlife.subscribers, heq]
        exact h.subscribers c core hc it
    · exact h.subscribers c' core' hc' it

/-! ## §2. The constructor of `cpu`. -/

theorem subscribeCores_frame (id : Nat) :
    ∀ (k : Nat) (s : Platform σ), Frame Core.SameLife s (subscribeCores id k s) := by
  intro k
  induction k with
  | zero => intro s; exact Frame.refl Core.SameLife.refl s
  | succ k ih =>
      intro s
      exact ((ih s).trans_life (addSyscallSubscriber_frame k id _)).trans_life
        (addSyscallSubscriber_frame id k _)

/-- After `k` rounds the cores below `k` and the core `id` are subscribed to each
other. -/
theorem Wired.subscribeCores {id : Nat} (h : s.Wired n R) :
    ∀ k, (subscribeCores id k s).Wired n
      (fun c it => R c it ∨ (c < k ∧ it = id) ∨ (c = id ∧ it < k)) := by
  intro k
  induction k with
  | zero =>
      refine h.congr ?_
      intro c it
      simp
  | succ k ih =>
      refine ((ih.addSyscallSubscriber k id).addSyscallSubscriber id k).congr ?_
      intro c it
      -- the round adds `(k, id)` and `(id, k)`
      rw [Nat.lt_succ_iff_lt_or_eq, Nat.lt_succ_iff_lt_or_eq]
      tauto

end Platform

open Platform

variable {K : Kernel}

/-- The rounds of the loop are steps of the platform. -/
theorem subscribeCores_reachable (hr : (platform H O K).Reachable s) {id : Nat}
    (hid : (s.cores id).isSome = true) :
    ∀ k, (∀ c < k, (s.cores c).isSome = true) →
      (platform H O K).Reachable (subscribeCores id k s) := by
  intro k
  induction k with
  | zero => intro _; exact hr
  | succ k ih =>
      intro hall
      have hprev := ih (fun c hc => hall c (Nat.lt_succ_of_lt hc))
      have hf := subscribeCores_frame id k s
      have hk₁ : ((subscribeCores id k s).cores k).isSome = true := by
        rw [hf.cores_isSome k]
        exact hall k (Nat.lt_succ_self k)
      have hid₁ : ((subscribeCores id k s).cores id).isSome = true := by
        rw [hf.cores_isSome id]
        exact hid
      have hf₂ := addSyscallSubscriber_frame k id (subscribeCores id k s)
      refine (hprev.step (.addSyscallSubscriber _ hk₁ hid₁)).step
        (.addSyscallSubscriber _ ?_ ?_)
      · rw [hf₂.cores_isSome id]
        exact hid₁
      · rw [hf₂.cores_isSome k]
        exact hk₁

/-- What the constructor leaves. -/
structure Built (H : Host) (O : Ocx σ) (K : Kernel) (n : Nat) (s : Platform σ) : Prop where
  reachable : (platform H O K).Reachable s
  wired : s.Wired n (Others n)
  engines : ∀ c < n, (s.engine c).isSome = true
  nextCore : s.nextCore = n
  protector : s.protector = {}

/-- **The constructor subscribes each core to all others.** -/
theorem cpu_built (H : Host) (O : Ocx σ) (K : Kernel) (clusterid : U64) :
    ∀ n, Built H O K n (cpu O clusterid n) := by
  intro n
  induction n with
  | zero =>
      refine ⟨.init rfl, ⟨?_, ?_⟩, ?_, rfl, rfl⟩
      · intro c
        exact iff_of_false (by simp [cpu]) (Nat.not_lt_zero c)
      · intro c core hc
        cases hc
      · intro c hc
        exact absurd hc (Nat.not_lt_zero c)
  | succ n ih =>
      -- the new core, then the loop over the cores before it
      have hst : PlatformStep H O K (cpu O clusterid n) _ _ :=
        .construct _ clusterid (BitVec.ofNat 64 n)
      have hnew := ih.wired.construct (O := O) ih.nextCore
        (fun it h => absurd h.1 (Nat.lt_irrefl n)) clusterid (BitVec.ofNat 64 n)
      have hf := subscribeCores_frame n n
        ((cpu O clusterid n).construct O clusterid (BitVec.ofNat 64 n))
      constructor
      · refine subscribeCores_reachable (ih.reachable.step hst) ?_ n ?_
        · exact (hnew.cores n).mpr (Nat.lt_succ_self n)
        · intro c hc
          exact (hnew.cores c).mpr (Nat.lt_succ_of_lt hc)
      · refine (hnew.subscribeCores n).congr ?_
        intro c it
        unfold Others
        omega
      · intro c hc
        have hengine : ((cpu O clusterid (n + 1)).engine c).isSome
            = decide (c = (cpu O clusterid n).nextCore
              ∨ ((cpu O clusterid n).engine c).isSome = true) :=
          (congrArg Option.isSome (hf.engine c)).trans
            (engine_step (allLoaded_of_reachable ih.reachable) hst c)
        rw [hengine, ih.nextCore]
        rcases Nat.lt_succ_iff_lt_or_eq.mp hc with hlt | heq
        · exact decide_eq_true (.inr (ih.engines c hlt))
        · exact decide_eq_true (.inl heq)
      · rw [show (cpu O clusterid (n + 1)).nextCore = _ from hf.nextCore]
        exact congrArg (· + 1) ih.nextCore
      · exact hf.protector.trans ih.protector

/-! ## §3. Runs of a cluster. -/

/-- The calls that come once the cluster is there. -/
def PlatformEvent.atRuntime : PlatformEvent → Prop
  | .protectPage .. => True
  | .reset .. => True
  | .write .. => True
  | _ => False

/-- A cluster of `n` cores; no core is destroyed, no page is deregistered, and
`mprotect` succeeds. -/
def cluster (H : Host) (O : Ocx σ) (clusterid : U64) (n : Nat) :
    Lts (Platform σ) PlatformEvent where
  init s := s = cpu O clusterid n
  step s e s' := PlatformStep H O Kernel.reliable s e s' ∧ e.atRuntime

/-- The runs of a cluster go on from the constructor. -/
theorem platform_of_cluster {clusterid : U64} (hr : (cluster H O clusterid n).Reachable s) :
    (platform H O Kernel.reliable).Reachable s := by
  refine hr.invariant ?_ ?_
  · intro t h0
    rw [show t = cpu O clusterid n from h0]
    exact (cpu_built H O Kernel.reliable clusterid n).reachable
  · intro t e t' ht hst
    exact ht.step hst.1

theorem repInv_of_cluster {clusterid : U64} (hr : (cluster H O clusterid n).Reachable s) :
    RepInv H s.protector :=
  repInv_of_reachable (protector_reachable (platform_of_cluster hr))

end Avp64.Psp
