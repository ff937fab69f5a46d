/-
  Avp64.Psp.Core.TimerLines — from the generic timers of the engines to the interrupt
  controller.

  An engine reports the level of its timer outputs by `signal`.  `cpu` binds the four
  outputs of each core to private inputs of the interrupt controller, whose numbers are
  properties.  A reset lowers the outputs last, so one that raises an error leaves them
  as they were.

    • `timer_inputs_follow` — when an input of the interrupt controller is high.
-/
import Avp64.Lib.Transition
import Avp64.Psp.Core.Operations

namespace Avp64.Psp

open Avp64.Lib

variable {σ : Type} {O : Ocx σ} {n : Nat}

/-! ## §1. `signal`, and the binding in `cpu::cpu`. -/

/-- `signal(sigid, set)`. -/
def Core.signal (sigid : Timer) (set : Bool) (core : Core σ) : Core σ :=
  { core with timerIrqOut := Function.update core.timerIrqOut sigid set }

/-- The properties `irq_gt_*` of `cpu` with their defaults. -/
structure TimerIrqs where
  irqGtHyp : Nat := 10
  irqGtVirt : Nat := 11
  irqGtNs : Nat := 14
  irqGtS : Nat := 13

/-- The private input that the output of a timer is bound to.  The timers are
`ARM_TIMER_PHYS`, `ARM_TIMER_VIRT`, `ARM_TIMER_HYP` and `ARM_TIMER_SEC`. -/
def TimerIrqs.ppi (irqs : TimerIrqs) : Timer → Nat
  | 0 => irqs.irqGtNs
  | 1 => irqs.irqGtVirt
  | 2 => irqs.irqGtHyp
  | 3 => irqs.irqGtS

/-- The outputs that are bound to the input `k`. -/
def TimerIrqs.drivers (irqs : TimerIrqs) (k : Nat) : List Timer :=
  (List.finRange 4).filter (fun t => irqs.ppi t == k)

/-- The level of the private input `k` that belongs to the core. -/
def TimerIrqs.level (irqs : TimerIrqs) (core : Core σ) (k : Nat) : Bool :=
  (irqs.drivers k).any core.timerIrqOut

theorem ppi_default_injective : Function.Injective ({} : TimerIrqs).ppi := by
  show ∀ t t' : Fin 4, TimerIrqs.ppi {} t = TimerIrqs.ppi {} t' → t = t'
  decide

/-- With different numbers an input shows one output. -/
theorem level_ppi {irqs : TimerIrqs} (h : Function.Injective irqs.ppi) (core : Core σ)
    (t : Timer) : irqs.level core (irqs.ppi t) = core.timerIrqOut t := by
  have hdrivers : irqs.drivers (irqs.ppi t) = (List.finRange 4).filter (· == t) := by
    unfold TimerIrqs.drivers
    refine List.filter_congr ?_
    intro t' _
    rw [Bool.eq_iff_iff, beq_iff_eq, beq_iff_eq]
    exact h.eq_iff
  unfold TimerIrqs.level
  rw [hdrivers, Bool.eq_iff_iff, List.any_eq_true]
  constructor
  · rintro ⟨t', hmem, hhigh⟩
    exact beq_iff_eq.mp (List.mem_filter.mp hmem).2 ▸ hhigh
  · intro hhigh
    exact ⟨t, List.mem_filter.mpr ⟨List.mem_finRange t, beq_self_eq_true t⟩, hhigh⟩

/-! ## §2. The outputs of a cluster. -/

structure LineState (σ : Type) (n : Nat) where
  cores : Fin n → Core σ
  /-- The number of the next engine instance. -/
  next : Nat

def LineState.setCore (s : LineState σ n) (c : Fin n) (core : Core σ) : LineState σ n :=
  { s with cores := Function.update s.cores c core }

inductive LineEvent (n : Nat) where
  | signal (c : Fin n) (sigid : Timer) (set : Bool)
  | reset (c : Fin n) (created : Bool) (res : Except CoreError Unit)
  /-- Anything that reaches the engine of the core only. -/
  | engine (c : Fin n)

inductive LineStep (O : Ocx σ) : LineState σ n → LineEvent n → LineState σ n → Prop
  | signal (s : LineState σ n) {c : Fin n} (sigid : Timer) (set : Bool) :
      (s.cores c).mCore.isSome = true →
      LineStep O s (.signal c sigid set) (s.setCore c ((s.cores c).signal sigid set))
  | reset (s : LineState σ n) (c : Fin n) (flush : List RegWrite) (created : Bool) :
      LineStep O s (.reset c created ((s.cores c).reset O flush s.next created).1)
        { s.setCore c ((s.cores c).reset O flush s.next created).2.2 with next := s.next + 1 }
  | engine (s : LineState σ n) {c : Fin n} {core : Core σ} : (s.cores c).Kept core →
      LineStep O s (.engine c) (s.setCore c core)

/-- The constructed cores of a cluster. -/
def timerLines (O : Ocx σ) (clusterid : U64) (n : Nat) : Lts (LineState σ n) (LineEvent n) where
  init s := s = ⟨fun c => (Core.construct O clusterid (BitVec.ofNat 64 c) c true).2, n⟩
  step := LineStep O

/-- The engine of the core `c` raises the output of the timer `t`. -/
def LineEvent.raises (c : Fin n) (t : Timer) (e : LineEvent n) : Prop := e = .signal c t true

/-- The engine lowers it, or the core is reset to the end. -/
def LineEvent.lowers (c : Fin n) (t : Timer) (e : LineEvent n) : Prop :=
  e = .signal c t false ∨ ∃ created, e = .reset c created (.ok ())

variable {s s' : LineState σ n}

/-- A completed reset lowers all outputs, one that raises an error none. -/
theorem Core.ResetCase.timerIrqOut {fresh : Nat} {created : Bool} {core core' : Core σ}
    {res : Except CoreError Unit} (h : ResetCase O fresh created core res core') :
    core'.timerIrqOut = fun t => if res.isOk then false else core.timerIrqOut t := by
  cases h <;> rfl

theorem timerIrqOut_setCore (s : LineState σ n) (c c' : Fin n) (core : Core σ) (t : Timer) :
    ((s.setCore c core).cores c').timerIrqOut t
      = if c' = c then core.timerIrqOut t else (s.cores c').timerIrqOut t := by
  show (Function.update s.cores c core c').timerIrqOut t = _
  rw [Function.update_apply]
  split <;> rfl

/-- **What a step does to an output.** -/
theorem line_step {e : LineEvent n} (hst : LineStep O s e s') (c : Fin n) (t : Timer) :
    (s'.cores c).timerIrqOut t = true
      ↔ e.raises c t ∨ ((s.cores c).timerIrqOut t = true ∧ ¬ e.lowers c t) := by
  have hsame : ¬ e.raises c t → ¬ e.lowers c t →
      (s'.cores c).timerIrqOut t = (s.cores c).timerIrqOut t →
      ((s'.cores c).timerIrqOut t = true
        ↔ e.raises c t ∨ ((s.cores c).timerIrqOut t = true ∧ ¬ e.lowers c t)) := by
    intro hr hl heq
    simp [hr, hl, heq]
  cases hst with
  | @signal c' sigid set _ =>
      by_cases heq : c = c' ∧ t = sigid
      · obtain ⟨rfl, rfl⟩ := heq
        rw [timerIrqOut_setCore, if_pos rfl]
        show Function.update (s.cores c).timerIrqOut t set t = true ↔ _
        rw [Function.update_self]
        cases set with
        | true => exact iff_of_true rfl (.inl rfl)
        | false =>
            refine iff_of_false nofun ?_
            rintro (hr | ⟨_, hl⟩)
            · cases hr
            · exact hl (.inl rfl)
      · -- another output
        refine hsame ?_ ?_ ?_
        · intro hr
          cases hr
          exact heq ⟨rfl, rfl⟩
        · rintro (hl | ⟨_, hl⟩)
          · cases hl
            exact heq ⟨rfl, rfl⟩
          · cases hl
        · rw [timerIrqOut_setCore]
          split
          · next hc =>
              show Function.update (s.cores c').timerIrqOut sigid set t = _
              rw [Function.update_of_ne (fun ht => heq ⟨hc, ht⟩), hc]
          · rfl
  | reset c' flush created =>
      have hcase := Core.reset_case O flush s.next created (s.cores c')
      have hline : (({ s.setCore c' ((s.cores c').reset O flush s.next created).2.2 with
          next := s.next + 1 } : LineState σ n).cores c).timerIrqOut t
          = if c = c' then
              (if ((s.cores c').reset O flush s.next created).1.isOk then false
                else (s.cores c').timerIrqOut t)
            else (s.cores c).timerIrqOut t := by
        show ((s.setCore c' _).cores c).timerIrqOut t = _
        rw [timerIrqOut_setCore, hcase.timerIrqOut]
      generalize ((s.cores c').reset O flush s.next created).1 = res at hline hsame ⊢
      by_cases heq : c = c' ∧ res = .ok ()
      · obtain ⟨rfl, rfl⟩ := heq
        rw [hline, if_pos rfl]
        refine iff_of_false nofun ?_
        rintro (hr | ⟨_, hl⟩)
        · cases hr
        · exact hl (.inr ⟨_, rfl⟩)
      · refine hsame nofun ?_ ?_
        · rintro (hl | ⟨_, hl⟩)
          · cases hl
          · cases hl
            exact heq ⟨rfl, rfl⟩
        · rw [hline]
          split
          · next hc =>
              cases res with
              | ok u => exact absurd ⟨hc, rfl⟩ heq
              | error e => rw [hc]; rfl
          · rfl
  | @engine c' core hk =>
      refine hsame nofun ?_ ?_
      · rintro (hl | ⟨_, hl⟩) <;> cases hl
      · rw [timerIrqOut_setCore]
        split
        · next hc => rw [hk.frame, hc]
        · rfl

/-- **When a timer input of the interrupt controller is high.**  With four different
numbers, after any run of the cluster, the input that a timer of a core is bound to is
high exactly if the engine of this core has raised the timer's output, and since then has
neither lowered it nor been replaced by a reset that completed; the other inputs are never
high. -/
theorem timer_inputs_follow (O : Ocx σ) (clusterid : U64) (irqs : TimerIrqs)
    (hirqs : Function.Injective irqs.ppi) {tr : List (LineState σ n × LineEvent n)}
    (hr : (timerLines O clusterid n).Run tr s) (c : Fin n) :
    (∀ t, irqs.level (s.cores c) (irqs.ppi t) = true
        ↔ Since (fun x => x.2.raises c t) (fun x => x.2.lowers c t) tr)
    ∧ ∀ k, (∀ t, irqs.ppi t ≠ k) → irqs.level (s.cores c) k = false := by
  constructor
  · intro t
    rw [level_ppi hirqs]
    refine hr.since_iff (G := fun s => (s.cores c).timerIrqOut t = true) ?_ ?_
    · intro s h0 hhigh
      rw [show s = _ from h0] at hhigh
      cases hhigh
    · intro s e s' hst
      exact line_step hst c t
  · intro k hk
    have hnone : irqs.drivers k = [] :=
      List.filter_eq_nil_iff.mpr (fun t _ => by simpa using hk t)
    unfold TimerIrqs.level
    rw [hnone]
    rfl

/-- The second core of two raises its virtual timer. -/
theorem timer_inputs_follow_virt :
    ∃ s : LineState SmallEngine 2, (timerLines smallOcx 0 2).Run
        [(⟨fun c => (Core.construct smallOcx 0 (BitVec.ofNat 64 c) c true).2, 2⟩,
          .signal 1 1 true)] s
      ∧ ({} : TimerIrqs).level (s.cores 1) 11 = true
      ∧ ({} : TimerIrqs).level (s.cores 0) 11 = false := by
  have hr : (timerLines smallOcx 0 2).Run _ _ :=
    .snoc (.start rfl) (.signal (c := 1) _ 1 true rfl)
  refine ⟨_, hr, ?_, ?_⟩
  · exact ((timer_inputs_follow smallOcx 0 {} ppi_default_injective hr 1).1 1).mpr
      ⟨[], _, [], rfl, rfl, by simp⟩
  · rw [Bool.eq_false_iff]
    intro hhigh
    obtain ⟨x, hx, hraise⟩ :=
      (((timer_inputs_follow smallOcx 0 {} ppi_default_injective hr 0).1 1).mp hhigh).exists_mem
    rw [List.mem_singleton.mp hx] at hraise
    cases hraise

end Avp64.Psp
