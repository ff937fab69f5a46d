/-
  Avp64.Psp.Core.Thread — the thread of a core, and resets that come while it is
  suspended.

  `simulate` calls `m_core->step`; from within it the engine calls back into
  `hint` and `transport`, which can suspend the thread.  Other SystemC processes
  run then, and one of them can reset the core.  `reset` deletes the engine in any
  case, also the one whose `step` is on the call stack.

    • `fresh_of_reachable`      — instances are numbered once,
    • `stack_alive_run_iff`     — which runs keep the executing engine alive.
-/
import Avp64.Lib.Transition
import Avp64.Psp.Core.Operations

namespace Avp64.Psp

open Avp64.Lib

variable {σ : Type} {O : Ocx σ} {F : Set (List RegWrite)}

/-! ## §1. The thread. -/

/-- Where the thread is while `step` is on its call stack. -/
inductive Place where
  /-- In the engine. -/
  | engine
  /-- In `hint`, suspended in `sync()`. -/
  | sync
  /-- In `hint`, suspended in `wait_for_interrupt`. -/
  | wait
  /-- In `transport`, suspended in `data.read` or `data.write`. -/
  | data
  deriving DecidableEq, Repr

inductive Thread where
  | idle
  /-- `step` of the instance `inst` is on the call stack. -/
  | inStep (inst : Nat) (place : Place)
  deriving DecidableEq, Repr

/-- The core, its thread, the instances that were passed to `m_delete_instance`, and
the number of the next instance. -/
structure ThreadState (σ : Type) where
  core : Core σ
  thread : Thread
  deleted : List Nat
  next : Nat

inductive ThreadEvent where
  | simulate
  | engineRuns
  | stepReturns
  | hint (kind : HintKind)
  /-- `sync()` returns; `irq` says whether some interrupt line is high. -/
  | syncReturns (irq : Bool)
  /-- `wait_for_interrupt` returns after `cycles`. -/
  | wakes (cycles : U64)
  | transportBegins (tx : Transaction) (access : DataAccess)
  | transportReturns (resp : TlmResponse) (answer : OcxResponse)
  | reset (created : Bool) (res : Except CoreError Unit)

/-- `F` are the sequences of writes that `flush_cpuregs` may make.  A reset comes from
another process, or from an access of this core: the engine itself is not running then. -/
inductive ThreadStep (O : Ocx σ) (F : Set (List RegWrite)) :
    ThreadState σ → ThreadEvent → ThreadState σ → Prop
  | simulate (s : ThreadState σ) {inst : OcxInstance σ} : s.thread = .idle →
      s.core.mCore = some inst →
      ThreadStep O F s .simulate
        { s with core := (s.core.simulate O).2, thread := .inStep inst.id .engine }
  | engineRuns (s : ThreadState σ) {inst : OcxInstance σ} {st : σ} :
      s.thread = .inStep inst.id .engine → s.core.mCore = some inst →
      O.step inst.state st →
      ThreadStep O F s .engineRuns
        { s with core := { s.core with mCore := some ⟨inst.id, st⟩ } }
  | stepReturns (s : ThreadState σ) {i : Nat} : s.thread = .inStep i .engine →
      ThreadStep O F s .stepReturns { s with thread := .idle }
  | hint (s : ThreadState σ) {i : Nat} (kind : HintKind) :
      s.thread = .inStep i .engine → Core.hint kind = .ok () →
      ThreadStep O F s (.hint kind) { s with thread := .inStep i .sync }
  | syncReturns (s : ThreadState σ) {i : Nat} (irq : Bool) :
      s.thread = .inStep i .sync →
      ThreadStep O F s (.syncReturns irq)
        { s with thread := .inStep i (if irq then .engine else .wait) }
  | wakes (s : ThreadState σ) {i : Nat} (cycles : U64) {core : Core σ} :
      s.thread = .inStep i .wait → s.core.wakeUp O cycles true = (.ok (), core) →
      ThreadStep O F s (.wakes cycles)
        { s with core := core, thread := .inStep i .engine }
  | transportBegins (s : ThreadState σ) {i : Nat} (tx : Transaction) :
      s.thread = .inStep i .engine →
      ThreadStep O F s (.transportBegins tx (s.core.transportBegin tx).1)
        { s with core := (s.core.transportBegin tx).2, thread := .inStep i .data }
  | transportReturns (s : ThreadState σ) {i : Nat} (resp : TlmResponse) :
      s.thread = .inStep i .data →
      ThreadStep O F s (.transportReturns resp (s.core.transportEnd resp).1)
        { s with core := (s.core.transportEnd resp).2, thread := .inStep i .engine }
  | reset (s : ThreadState σ) (flush : List RegWrite) (created : Bool) : flush ∈ F →
      (∀ i, s.thread ≠ .inStep i .engine) →
      ThreadStep O F s (.reset created (s.core.reset O flush s.next created).1)
        { s with
          core := (s.core.reset O flush s.next created).2.2
          deleted := s.deleted ++ (s.core.reset O flush s.next created).2.1
          next := s.next + 1 }

/-- The thread of a constructed core. -/
def coreThread (O : Ocx σ) (F : Set (List RegWrite)) : Lts (ThreadState σ) ThreadEvent where
  init s := ∃ procid coreid,
    s = ⟨(Core.construct O procid coreid 0 true).2, .idle, [], 1⟩
  step := ThreadStep O F

/-! ## §2. What a step does to the engine. -/

/-- A wake-up that succeeds is the call of `stop`. -/
theorem wakeUp_eq {core core' : Core σ} {cycles : U64}
    (h : core.wakeUp O cycles true = (.ok (), core')) :
    core' = (({ core with mSleepCycles := core.mSleepCycles + cycles } : Core σ).call O
      .stop).2 := by
  unfold Core.wakeUp at h
  simp only [Bool.not_true, Bool.false_eq_true, if_false] at h
  revert h
  cases ({ core with mSleepCycles := core.mSleepCycles + cycles } : Core σ).call O .stop with
  | mk res core₁ =>
      intro h
      cases res with
      | error e => simp at h
      | ok b =>
          simp only [Prod.mk.injEq, true_and] at h
          exact h.symm

theorem wakeUp_kept {core core' : Core σ} {cycles : U64}
    (h : core.wakeUp O cycles true = (.ok (), core')) :
    core'.mCore.map (·.id) = core.mCore.map (·.id) := by
  rw [wakeUp_eq h]
  exact (Core.call_kept O .stop
    { core with mSleepCycles := core.mSleepCycles + cycles }).id

/-- **A step other than a reset** keeps the instance and deletes nothing. -/
theorem threadStep_kept {s s' : ThreadState σ} {e : ThreadEvent}
    (hst : ThreadStep O F s e s') (he : ∀ created res, e ≠ .reset created res) :
    s'.core.mCore.map (·.id) = s.core.mCore.map (·.id)
    ∧ s'.deleted = s.deleted ∧ s'.next = s.next := by
  cases hst with
  | simulate _ hinst =>
      refine ⟨?_, rfl, rfl⟩
      rw [Core.simulate_of_some hinst]
  | engineRuns _ hinst _ => exact ⟨by rw [hinst]; rfl, rfl, rfl⟩
  | stepReturns _ => exact ⟨rfl, rfl, rfl⟩
  | hint kind _ _ => exact ⟨rfl, rfl, rfl⟩
  | syncReturns irq _ => exact ⟨rfl, rfl, rfl⟩
  | wakes cycles _ hwake => exact ⟨wakeUp_kept hwake, rfl, rfl⟩
  | transportBegins tx _ => exact ⟨rfl, rfl, rfl⟩
  | transportReturns resp _ => exact ⟨rfl, rfl, rfl⟩
  | reset flush created _ _ => exact absurd rfl (he _ _)

/-- A step is a reset, or one of the others. -/
theorem threadStep_reset_or {s s' : ThreadState σ} {e : ThreadEvent}
    (hst : ThreadStep O F s e s') :
    (∃ flush created, e = .reset created (s.core.reset O flush s.next created).1
      ∧ s' = { s with
          core := (s.core.reset O flush s.next created).2.2
          deleted := s.deleted ++ (s.core.reset O flush s.next created).2.1
          next := s.next + 1 })
    ∨ ∀ created res, e ≠ .reset created res := by
  cases hst with
  | reset flush created _ _ => exact .inl ⟨flush, created, rfl, rfl⟩
  | _ => exact .inr (fun _ _ h => by cases h)

/-- Instances are numbered below `next`, and the current one was not deleted. -/
structure Fresh (s : ThreadState σ) : Prop where
  deleted_lt : ∀ i ∈ s.deleted, i < s.next
  current_lt : ∀ i, s.core.mCore.map (·.id) = some i → i < s.next
  current_alive : ∀ i, s.core.mCore.map (·.id) = some i → i ∉ s.deleted

theorem fresh_of_reachable {s : ThreadState σ} (hr : (coreThread O F).Reachable s) :
    Fresh s := by
  refine hr.invariant ?_ ?_
  · intro s h0
    obtain ⟨procid, coreid, rfl⟩ := h0
    refine ⟨by simp, ?_, by simp⟩
    intro i hi
    injection hi with hi
    rw [← hi]
    exact Nat.one_pos
  · intro s e s' hf hst
    rcases threadStep_reset_or hst with ⟨flush, created, _, rfl⟩ | he
    · -- a reset deletes the current instance and takes the next number
      have hdel : ∀ i ∈ s.deleted ++ (s.core.reset O flush s.next created).2.1,
          i < s.next := by
        intro i hi
        rcases List.mem_append.mp hi with hi | hi
        · exact hf.deleted_lt i hi
        · rw [Core.reset_deleted] at hi
          exact hf.current_lt i (Option.mem_toList.mp hi)
      have hnew : ∀ i, (s.core.reset O flush s.next created).2.2.mCore.map (·.id)
          = some i → i = s.next := by
        intro i hi
        obtain ⟨inst, hinst, rfl⟩ := Option.map_eq_some_iff.mp hi
        exact (Core.reset_new hinst).1
      constructor
      · intro i hi
        have := hdel i hi
        show i < s.next + 1
        omega
      · intro i hi
        rw [hnew i hi]
        exact Nat.lt_succ_self _
      · intro i hi hmem
        have := hdel i hmem
        have := hnew i hi
        omega
    · -- a step other than a reset keeps the instance and the list of deleted ones
      obtain ⟨hid, hdel, hnext⟩ := threadStep_kept hst he
      constructor
      · rw [hdel, hnext]; exact hf.deleted_lt
      · rw [hid, hnext]; exact hf.current_lt
      · rw [hid, hdel]; exact hf.current_alive

/-! ## §3. Runs. -/

/-- The instance whose `step` is on the call stack was not deleted, and `m_core` is
that instance. -/
def StackAlive (s : ThreadState σ) : Prop :=
  ∀ i place, s.thread = .inStep i place →
    i ∉ s.deleted ∧ s.core.mCore.map (·.id) = some i

/-- The step is no reset while `step` is on the call stack. -/
def ThreadEvent.sparesStack (thread : Thread) : ThreadEvent → Prop
  | .reset _ _ => thread = .idle
  | _ => True

/-- Where the thread was before a step that is no reset: it begins a `step` of the
current engine or stays in the one it is in. -/
theorem threadStep_thread {s s' : ThreadState σ} {e : ThreadEvent}
    (hst : ThreadStep O F s e s') (he : ∀ created res, e ≠ .reset created res)
    {i : Nat} {place : Place} (ht : s'.thread = .inStep i place) :
    (∃ place₀, s.thread = .inStep i place₀) ∨ s.core.mCore.map (·.id) = some i := by
  cases hst with
  | simulate _ hinst =>
      injection ht with hi _
      exact .inr (by rw [hinst, ← hi]; rfl)
  | engineRuns hthread _ _ =>
      injection hthread.symm.trans ht with hi _
      exact .inl ⟨_, by rw [← hi]; exact hthread⟩
  | stepReturns _ => cases ht
  | hint kind hthread _ =>
      injection ht with hi _
      exact .inl ⟨_, by rw [← hi]; exact hthread⟩
  | syncReturns irq hthread =>
      injection ht with hi _
      exact .inl ⟨_, by rw [← hi]; exact hthread⟩
  | wakes cycles hthread _ =>
      injection ht with hi _
      exact .inl ⟨_, by rw [← hi]; exact hthread⟩
  | transportBegins tx hthread =>
      injection ht with hi _
      exact .inl ⟨_, by rw [← hi]; exact hthread⟩
  | transportReturns resp hthread =>
      injection ht with hi _
      exact .inl ⟨_, by rw [← hi]; exact hthread⟩
  | reset flush created _ _ => exact absurd rfl (he _ _)

/-- **When no reset destroys the executing engine**: exactly in the runs that reset
the core only while its thread is idle. -/
theorem stack_alive_run_iff (O : Ocx σ) (F : Set (List RegWrite))
    {tr : List (ThreadState σ × ThreadEvent)} {s : ThreadState σ}
    (hr : (coreThread O F).Run tr s) :
    Always (fun _ t => StackAlive t) tr s ↔
      ∀ x ∈ tr, x.2.sparesStack x.1.thread := by
  refine hr.always_iff (C := fun t e => e.sparesStack t.thread) ?_ ?_
  · intro s h0 i place ht
    obtain ⟨procid, coreid, rfl⟩ := h0
    cases ht
  · intro tr s e s' hr hP hst
    have hf : Fresh s := fresh_of_reachable ⟨tr, hr⟩
    rcases threadStep_reset_or hst with ⟨flush, created, rfl, rfl⟩ | he
    · constructor
      · intro hP'
        show s.thread = .idle
        cases ht : s.thread with
        | idle => rfl
        | inStep i place =>
            -- the reset deleted the instance on the stack
            obtain ⟨_, hcur⟩ := hP i place ht
            refine absurd ?_ (hP' i place ht).1
            refine List.mem_append_right _ ?_
            rw [Core.reset_deleted, hcur]
            simp
      · intro hidle i place ht
        -- nothing is on the stack while the thread is idle
        have hidle : s.thread = .idle := hidle
        have ht : s.thread = .inStep i place := ht
        rw [hidle] at ht
        cases ht
    · -- a step that is no reset keeps the instance on the stack alive
      have htrue : e.sparesStack s.thread := by
        cases e with
        | reset created res => exact absurd rfl (he created res)
        | _ => trivial
      refine iff_of_true ?_ htrue
      intro i place ht
      -- the `step` on the stack is the old one, or begins with the current instance
      obtain ⟨hid, hdel, _⟩ := threadStep_kept hst he
      rw [hid, hdel]
      rcases threadStep_thread hst he ht with ⟨place₀, ht₀⟩ | hcur
      · exact hP i place₀ ht₀
      · exact ⟨hf.current_alive i hcur, hcur⟩

/-- One `step`, from its begin to its end. -/
theorem stack_alive_one_step :
    Always (fun _ t => StackAlive t)
      [((⟨(Core.construct smallOcx 0 0 0 true).2, .idle, [], 1⟩ : ThreadState SmallEngine),
        ThreadEvent.simulate)]
      ⟨((Core.construct smallOcx 0 0 0 true).2.simulate smallOcx).2,
        .inStep 0 .engine, [], 1⟩
    ↔ ∀ x ∈ [((⟨(Core.construct smallOcx 0 0 0 true).2, .idle, [], 1⟩ :
        ThreadState SmallEngine), ThreadEvent.simulate)], x.2.sparesStack x.1.thread := by
  have hr : (coreThread smallOcx {Core.tableWrites (fun _ => 0)}).Run _ _ :=
    .snoc (.start ⟨0, 0, rfl⟩) (.simulate _ rfl rfl)
  exact stack_alive_run_iff smallOcx {Core.tableWrites (fun _ => 0)} hr

/-- The core waits for an interrupt, and is reset: the engine that called `hint` is
deleted. -/
theorem reset_deletes_stack :
    ¬ ∀ (tr : List (ThreadState SmallEngine × ThreadEvent)) (s : ThreadState SmallEngine),
      (coreThread smallOcx {Core.tableWrites (fun _ => 0)}).Run tr s → StackAlive s := by
  intro hall
  have hr : (coreThread smallOcx {Core.tableWrites (fun _ => 0)}).Run _ _ :=
    .snoc (.snoc (.snoc (.snoc (.start ⟨0, 0, rfl⟩) (.simulate _ rfl rfl))
      (.hint _ .wfi rfl rfl)) (.syncReturns _ false rfl))
      (.reset _ _ true rfl (fun i h => by cases h))
  -- the thread still waits inside instance 0
  have halive := (hall _ _ hr 0 .wait rfl).1
  refine halive (List.mem_append_right _ ?_)
  rw [Core.reset_deleted]
  exact List.mem_singleton.mpr rfl

end Avp64.Psp
