/-
  Avp64.Psp.Platform.Cycles — the cycle count of a cluster.

  The cores of a cluster take their steps in any order, and none of them touches the
  count of another.  `cycle_count` of `cpu` adds the counts up.

    • `cpuCycleCount_sum` — a sum of counts,
    • `cycle_count_exact` — in every run, for every core and for the cluster.
-/
import Avp64.Lib.Interleaving
import Avp64.Psp.Core.Cycles

namespace Avp64.Psp

open Avp64.Lib

variable {σ : Type} {O : Ocx σ}

/-! ## §1. `cycle_count` of `cpu`. -/

/-- `cpu::cycle_count()` over `m_cores`. -/
def cpuCycleCount (O : Ocx σ) (mCores : List (Core σ)) : Option U64 :=
  mCores.foldlM (fun totalInsn c => (c.cycleCount O).map (totalInsn + ·)) 0

/-- The loop, from any total on. -/
theorem foldlM_cycleCount {ι : Type} (core : ι → Core σ) (n : ι → Nat) :
    ∀ (l : List ι) (total : Nat),
      (∀ i ∈ l, (core i).cycleCount O = some (BitVec.ofNat 64 (n i))) →
      (l.map core).foldlM (fun totalInsn c => (c.cycleCount O).map (totalInsn + ·))
          (BitVec.ofNat 64 total)
        = some (BitVec.ofNat 64 (total + (l.map n).sum)) := by
  intro l
  induction l with
  | nil => intro total _; rfl
  | cons i l ih =>
      intro total h
      have hi := h i List.mem_cons_self
      have hrest := ih (total + n i) (fun j hj => h j (List.mem_cons_of_mem i hj))
      rw [List.map_cons, List.foldlM_cons, hi, Option.map_some, ← BitVec.ofNat_add]
      rw [List.map_cons, List.sum_cons, ← Nat.add_assoc]
      exact hrest

theorem cpuCycleCount_sum {ι : Type} {core : ι → Core σ} {n : ι → Nat} {l : List ι}
    (h : ∀ i ∈ l, (core i).cycleCount O = some (BitVec.ofNat 64 (n i))) :
    cpuCycleCount O (l.map core) = some (BitVec.ofNat 64 (l.map n).sum) := by
  have hsum := foldlM_cycleCount core n l 0 h
  rw [Nat.zero_add] at hsum
  exact hsum

/-! ## §2. Runs of a cluster. -/

/-- A cluster of `n` cores. -/
def cpuCycles (O : Ocx σ) (X : OcxExecution σ) (F : Set (List RegWrite)) (clusterid : U64) (n : Nat) :
    Lts (Fin n → ThreadState σ) (Fin n × CycleEvent) :=
  Lts.family (fun id => coreCycles O X F clusterid (BitVec.ofNat 64 id))

/-- **The cycle counts are exact**: at every point of a run, also within a step, the
count of each core is the number of instructions that it executed since its last reset,
a number that only grows between resets, and the count of the cluster is the sum. -/
theorem cycle_count_exact (O : Ocx σ) (X : OcxExecution σ) (hO : InsnCountLaws O X)
    (F : Set (List RegWrite)) (clusterid : U64) (n : Nat)
    {tr : List ((Fin n → ThreadState σ) × (Fin n × CycleEvent))} {s : Fin n → ThreadState σ}
    (hr : (cpuCycles O X F clusterid n).Run tr s) :
    (∀ i, (s i).core.mCore.isSome = true →
      (s i).core.cycleCount O = some (BitVec.ofNat 64 (executed (project i tr))))
    ∧ (∀ i pre suf, tr = pre ++ suf → (∀ x ∈ project i suf, x.2.isReset = false) →
      executed (project i pre) ≤ executed (project i tr))
    ∧ ((∀ i, (s i).core.mCore.isSome = true) →
      cpuCycleCount O ((List.finRange n).map (fun i => (s i).core))
        = some (BitVec.ofNat 64
            ((List.finRange n).map (fun i => executed (project i tr))).sum)) := by
  have hcount : ∀ i, (s i).core.mCore.isSome = true →
      (s i).core.cycleCount O = some (BitVec.ofNat 64 (executed (project i tr))) := by
    intro i hi
    have hc := cycleCount_of_run hO (hr.member i)
    obtain ⟨inst, hinst⟩ := Option.isSome_iff_exists.mp hi
    have heq : (s i).core.cycleCount O
        = some ((s i).core.mRunCycles + O.insnCount inst.state) := by
      unfold Core.cycleCount
      rw [hinst]
      rfl
    rw [heq, hc _ heq]
  refine ⟨hcount, ?_, ?_⟩
  · intro i pre suf heq hsuf
    rw [heq, project_append]
    exact executed_mono (project i pre) (project i suf) hsuf
  · intro hall
    exact cpuCycleCount_sum (fun i _ => hcount i (hall i))

/-- An engine that has nothing but its counter. -/
def countingOcx : Ocx U64 where
  create := 0
  call _ st := (true, st)
  readReg _ _ := some 0
  pcRegid _ := 32#64
  insnCount st := st
  pageSize := 4096#64
  step _ _ := True

def countingExecution : OcxExecution U64 where
  begins _ st := st = 0
  executes k st st' := st' = st + BitVec.ofNat 64 k

/-- The first of two cores has executed three instructions of its step. -/
theorem cycle_count_exact_two :
    ∃ (tr : List ((Fin 2 → ThreadState U64) × (Fin 2 × CycleEvent)))
      (s : Fin 2 → ThreadState U64),
      (cpuCycles countingOcx countingExecution {Core.tableWrites (fun _ => 0)} 7 2).Run tr s
      ∧ (∀ i, (s i).core.mCore.isSome = true →
        (s i).core.cycleCount countingOcx
          = some (BitVec.ofNat 64 (executed (project i tr))))
      ∧ (∀ i pre suf, tr = pre ++ suf → (∀ x ∈ project i suf, x.2.isReset = false) →
        executed (project i pre) ≤ executed (project i tr))
      ∧ ((∀ i, (s i).core.mCore.isSome = true) →
        cpuCycleCount countingOcx ((List.finRange 2).map (fun i => (s i).core))
          = some (BitVec.ofNat 64
              ((List.finRange 2).map (fun i => executed (project i tr))).sum)) := by
  have laws : InsnCountLaws countingOcx countingExecution :=
    ⟨rfl, fun _ _ => rfl, fun h => h, fun h => h⟩
  have hbegins : ∀ st, countingExecution.begins st 0 := fun _ => rfl
  have h₀ : (cpuCycles countingOcx countingExecution {Core.tableWrites (fun _ => 0)} 7 2).Run [] _ :=
    .start (fun _ => rfl)
  have h₁ := h₀.snoc_member 0
    (CycleStep.simulate _ (ThreadStep.simulate _ rfl rfl) rfl (hbegins _))
  have h₂ := h₁.snoc_member 0 (CycleStep.executes _ (k := 3) rfl rfl rfl)
  exact ⟨_, _, h₂, cycle_count_exact countingOcx countingExecution laws {Core.tableWrites (fun _ => 0)} 7 2 h₂⟩

end Avp64.Psp
