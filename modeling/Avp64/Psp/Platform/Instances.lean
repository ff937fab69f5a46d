/-
  Avp64.Psp.Platform.Instances — the engine instances, from `m_create_instance` to
  `m_delete_instance`.

  An instance belongs to the core that has opened it: `open_core` stores it in `m_core`,
  `close_core` deletes it there, and `reset` and the destructor go through these two.

    • `balanced_step`          — the steps, as operations on holdings,
    • `write_toHeld`           — the calls of a trapped write go to held instances,
    • `instances_deleted_once` — no instance is deleted twice, leaked or used after it was
                                 deleted.
-/
import Avp64.Lib.Ownership
import Avp64.Psp.Platform.Service

namespace Avp64.Psp

open Avp64.Lib MemProtector

variable {σ : Type} {H : Host} {O : Ocx σ} {K : Kernel} {s s' : Platform σ}
  {tr : List (Platform σ × PlatformEvent)}

/-! ## §1. What is created and deleted. -/

/-- The instances that `m_create_instance` returns in a step. -/
def PlatformEvent.opens (s : Platform σ) : PlatformEvent → List Nat
  | .construct _ _ => [s.nextInst]
  | .reset _ created _ _ => if created then [s.nextInst] else []
  | _ => []

/-- The instances that are passed to `m_delete_instance` in a step. -/
def PlatformEvent.deletes : PlatformEvent → List Nat
  | .reset _ _ deleted _ => deleted
  | .destroy _ deleted => deleted
  | _ => []

/-- The instances in use after a run. -/
def instances (tr : List (Platform σ × PlatformEvent)) (s : Platform σ) : Holdings Nat Nat where
  held := s.engine
  opened := tr.flatMap (fun x => x.2.opens x.1)
  closed := tr.flatMap (fun x => x.2.deletes)

theorem engine_of_some {c : Nat} {core : Core σ} (hc : s.cores c = some core) :
    s.engine c = core.mCore.map (·.id) := by
  unfold Platform.engine
  rw [hc]
  rfl

/-- The destructor deletes the engine of the core. -/
theorem destroy_deleted {c : Nat} {core : Core σ} (hc : s.cores c = some core) :
    (s.destroy c).1 = (s.engine c).toList := by
  rw [engine_of_some hc]
  unfold Platform.destroy
  rw [hc, Option.elim_some, Core.closeCore_eq]

/-- The engine of a core after a reset. -/
theorem reset_engine_id {core : Core σ} (hl : core.Loaded) (flush : List RegWrite) (fresh : Nat)
    (created : Bool) :
    (core.reset O flush fresh created).2.2.mCore.map (·.id)
      = if created then some fresh else none := by
  have hsome := (Core.reset_engine (O := O) hl flush fresh created).isSome
  cases hm : (core.reset O flush fresh created).2.2.mCore with
  | none =>
      rw [hm] at hsome
      rw [← hsome]
      rfl
  | some inst =>
      rw [hm] at hsome
      rw [← hsome, Option.map_some, (Core.reset_new hm).1]
      rfl

/-! ## §2. One step. -/

/-- Numbers that have not been given out yet are not in use. -/
structure Unissued (tr : List (Platform σ × PlatformEvent)) (s : Platform σ) : Prop where
  cores : ∀ c, s.nextCore ≤ c → s.cores c = none
  opened : ∀ i ∈ (instances tr s).opened, i < s.nextInst

/-- An event that neither opens nor closes an engine. -/
def PlatformEvent.keepsEngines : PlatformEvent → Prop
  | .construct _ _ => False
  | .reset .. => False
  | .destroy .. => False
  | _ => True

/-- The same cores with the same engines. -/
structure SameEngines (s s' : Platform σ) : Prop where
  nextCore : s'.nextCore = s.nextCore
  nextInst : s'.nextInst = s.nextInst
  engine : s'.engine = s.engine
  isSome : ∀ c, (s'.cores c).isSome = (s.cores c).isSome

theorem Platform.Frame.sameEngines (hf : Frame Core.SameLife s s') : SameEngines s s' :=
  ⟨hf.nextCore, hf.nextInst, funext hf.engine, hf.cores_isSome⟩

theorem sameEngines_step {e : PlatformEvent} (hst : PlatformStep H O K s e s')
    (he : e.keepsEngines) : SameEngines s s' := by
  cases hst with
  | construct _ _ => exact he.elim
  | addSyscallSubscriber _ _ => exact (Platform.addSyscallSubscriber_frame _ _ s).sameEngines
  | protectPage _ _ _ _ => exact ⟨rfl, rfl, rfl, fun _ => rfl⟩
  | invalidateDmi _ _ _ _ hd =>
      obtain ⟨s₁, hf, _, rfl⟩ := Platform.invalidateDmi_some hd
      have hs := hf.sameEngines
      exact ⟨hs.nextCore, hs.nextInst, hs.engine, hs.isSome⟩
  | reset _ _ _ => exact he.elim
  | destroy _ => exact he.elim
  | write _ _ hw =>
      have hs := (Platform.runActions_frame _ _ hw).sameEngines
      exact ⟨hs.nextCore, hs.nextInst, hs.engine, hs.isSome⟩

theorem opens_of_keepsEngines {e : PlatformEvent} (he : e.keepsEngines) : e.opens s = [] := by
  cases e <;> first | rfl | exact he.elim

theorem deletes_of_keepsEngines {e : PlatformEvent} (he : e.keepsEngines) :
    e.deletes = [] := by
  cases e <;> first | rfl | exact he.elim

theorem instances_snoc (e : PlatformEvent) :
    instances (tr ++ [(s, e)]) s'
      = ⟨s'.engine, (instances tr s).opened ++ e.opens s,
          (instances tr s).closed ++ e.deletes⟩ := by
  unfold instances
  simp [List.flatMap_append]

theorem engine_setCore_eq (s : Platform σ) (c : Nat) (core : Option (Core σ)) :
    (s.setCore c core).engine
      = Function.update s.engine c (core.bind (fun core => core.mCore.map (·.id))) := by
  funext c'
  rw [Platform.engine_setCore, Function.update_apply]

/-! ### What each event does to the holdings. -/

theorem instances_construct (hun : Unissued tr s) (procid coreid : U64) :
    instances (tr ++ [(s, .construct procid coreid)]) (s.construct O procid coreid)
        = (instances tr s).open_ s.nextCore s.nextInst
      ∧ (instances tr s).held s.nextCore = none := by
  obtain ⟨st, _, _, hcore⟩ := Core.construct_opened O procid coreid s.nextInst
  constructor
  · rw [instances_snoc]
    show Holdings.mk (s.setCore s.nextCore _).engine _ _ = _
    rw [engine_setCore_eq, hcore]
    exact congrArg _ (List.append_nil _)
  · show s.engine s.nextCore = none
    unfold Platform.engine
    rw [hun.cores _ (Nat.le_refl _)]
    rfl

/-- A reset closes the old instance and opens the new one. -/
theorem instances_reset (hload : s.AllLoaded) {c : Nat} {core : Core σ}
    (hc : s.cores c = some core) (flush : List RegWrite) (created : Bool) :
    instances (tr ++ [(s, .reset c created (s.reset O flush created c core).2.1
        (s.reset O flush created c core).1)]) (s.reset O flush created c core).2.2
      = if created then ((instances tr s).close c).open_ c s.nextInst
        else (instances tr s).close c := by
  -- what `close_core` deletes is the engine that the core had
  have hdel : (s.reset O flush created c core).2.1 = (s.engine c).toList := by
    rw [engine_of_some hc]
    exact Core.reset_deleted O flush s.nextInst created core
  have hengine : (s.reset O flush created c core).2.2.engine
      = Function.update s.engine c (if created then some s.nextInst else none) :=
    (engine_setCore_eq s c (some (core.reset O flush s.nextInst created).2.2)).trans
      (congrArg (Function.update s.engine c)
        (reset_engine_id (hload c core hc) flush s.nextInst created))
  rw [instances_snoc, hdel, hengine]
  unfold Holdings.open_ Holdings.close PlatformEvent.opens PlatformEvent.deletes
  cases created with
  | true => simp [instances]
  | false => simp [instances]

theorem instances_destroy {c : Nat} (hc : (s.cores c).isSome = true) :
    instances (tr ++ [(s, .destroy c (s.destroy c).1)]) (s.destroy c).2
      = (instances tr s).close c := by
  obtain ⟨core, hc⟩ := Option.isSome_iff_exists.mp hc
  rw [instances_snoc, destroy_deleted hc]
  unfold Platform.destroy Holdings.close
  rw [engine_setCore_eq]
  simp [instances, PlatformEvent.opens, PlatformEvent.deletes]

/-- **A step closes what a core holds and opens new instances, nothing else.** -/
theorem balanced_step {e : PlatformEvent} (hload : s.AllLoaded) (hun : Unissued tr s)
    (hb : (instances tr s).Balanced) (hst : PlatformStep H O K s e s') :
    (instances (tr ++ [(s, e)]) s').Balanced := by
  have hnew : s.nextInst ∉ (instances tr s).opened :=
    fun h => absurd (hun.opened _ h) (Nat.lt_irrefl _)
  by_cases he : e.keepsEngines
  · have hsame : instances (tr ++ [(s, e)]) s' = instances tr s := by
      rw [instances_snoc, opens_of_keepsEngines he, deletes_of_keepsEngines he,
        List.append_nil, List.append_nil, (sameEngines_step hst he).engine]
      rfl
    exact hsame ▸ hb
  · cases hst with
    | construct procid coreid =>
        obtain ⟨hinst, hnone⟩ := instances_construct (O := O) hun procid coreid
        exact hinst ▸ hb.open_ hnone hnew
    | reset flush created hc =>
        rw [instances_reset hload hc]
        cases created with
        | false => exact hb.close _
        | true => exact (hb.close _).open_ (by simp [Holdings.close]) hnew
    | destroy hc => exact instances_destroy hc ▸ hb.close _
    | _ => exact absurd trivial he

theorem unissued_step {e : PlatformEvent} (hun : Unissued tr s)
    (hst : PlatformStep H O K s e s') : Unissued (tr ++ [(s, e)]) s' := by
  have hopened : ∀ i ∈ (instances (tr ++ [(s, e)]) s').opened,
      i < s.nextInst ∨ i ∈ e.opens s := by
    intro i hi
    rw [instances_snoc] at hi
    rcases List.mem_append.mp hi with hold | hi
    · exact .inl (hun.opened i hold)
    · exact .inr hi
  by_cases he : e.keepsEngines
  · have hs := sameEngines_step hst he
    refine ⟨?_, ?_⟩
    · intro c hle
      rw [hs.nextCore] at hle
      have hnone := hs.isSome c
      rw [hun.cores c hle] at hnone
      exact Option.not_isSome_iff_eq_none.mp (by simp [hnone])
    · intro i hi
      rw [hs.nextInst]
      rcases hopened i hi with hold | hi
      · exact hold
      · rw [opens_of_keepsEngines he] at hi
        cases hi
  · cases hst with
    | construct procid coreid =>
        refine ⟨?_, ?_⟩
        · intro c hle
          have hlt : s.nextCore + 1 ≤ c := hle
          show (s.setCore s.nextCore _).cores c = none
          rw [Platform.setCore_cores, if_neg (by omega)]
          exact hun.cores c (by omega)
        · intro i hi
          show i < s.nextInst + 1
          rcases hopened i hi with hold | hi
          · exact Nat.lt_succ_of_lt hold
          · rw [List.mem_singleton.mp hi]
            exact Nat.lt_succ_self _
    | @reset c core flush created hc =>
        refine ⟨?_, ?_⟩
        · intro c' hle
          show (s.setCore c _).cores c' = none
          have hnone := hun.cores c' hle
          rw [Platform.setCore_cores, if_neg (by rintro rfl; rw [hc] at hnone; cases hnone)]
          exact hnone
        · intro i hi
          show i < s.nextInst + 1
          rcases hopened i hi with hold | hi
          · exact Nat.lt_succ_of_lt hold
          · cases created with
            | false => cases hi
            | true =>
                rw [List.mem_singleton.mp hi]
                exact Nat.lt_succ_self _
    | @destroy c hc =>
        refine ⟨?_, ?_⟩
        · intro c' hle
          show (s.setCore c _).cores c' = none
          rw [Platform.setCore_cores]
          split
          · rfl
          · exact hun.cores c' hle
        · intro i hi
          rcases hopened i hi with hold | hi
          · exact hold
          · cases hi
    | _ => exact absurd trivial he

theorem balanced_run (hr : (platform H O K).Run tr s) :
    (instances tr s).Balanced ∧ Unissued tr s := by
  induction hr with
  | start h0 =>
      rw [h0]
      refine ⟨Holdings.balanced_nil, fun _ _ => rfl, ?_⟩
      intro i hi
      cases hi
  | @snoc tr s s' e hr hst ih =>
      exact ⟨balanced_step (allLoaded_of_reachable ⟨tr, hr⟩) ih.2 ih.1 hst,
        unissued_step ih.2 hst⟩

/-! ## §3. The calls of a trapped write. -/

namespace Platform

/-- A call of an engine goes to the instance that its core holds. -/
def ToHeld (s : Platform σ) (log : List Effect) : Prop :=
  ∀ c i call, .engine c i call ∈ log → s.engine c = some i

variable {log log' : List Effect}

theorem ToHeld.append (h : s.ToHeld log) (hengine : s'.engine = s.engine)
    (h' : s'.ToHeld log') : s.ToHeld (log ++ log') := by
  intro c i call hmem
  rcases List.mem_append.mp hmem with hmem | hmem
  · exact h c i call hmem
  · rw [← hengine]
    exact h' c i call hmem

theorem engineCall_toHeld {c : Nat} {call : OcxCall}
    (h : s.engineCall O c call = some (log, s')) : s.ToHeld log := by
  obtain ⟨i, hi⟩ := Option.isSome_iff_exists.mp (engineCall_some h).1
  obtain ⟨s₁, hs₁, _⟩ := engineCall_spec (O := O) hi call
  rw [hs₁] at h
  simp only [Option.some.injEq, Prod.mk.injEq] at h
  obtain ⟨rfl, _⟩ := h
  intro c' i' call' hmem
  injection List.mem_singleton.mp hmem with hc' hi' _
  rw [hc', hi', hi]

theorem flushPage_toHeld {c : Nat} {p : U64} (h : s.flushPage O c p = some (log, s')) :
    s.ToHeld log := by
  unfold flushPage at h
  simp only [Option.bind_eq_bind, Option.bind_eq_some_iff] at h
  obtain ⟨⟨log₁, s₁⟩, h₁, ⟨log₂, s₂⟩, h₂, heq⟩ := h
  simp only [Option.pure_def, Option.some.injEq, Prod.mk.injEq] at heq
  obtain ⟨rfl, _⟩ := heq
  exact (engineCall_toHeld h₁).append (funext (engineCall_some h₁).2.life.engine)
    (engineCall_toHeld h₂)

theorem flushSubscribers_toHeld {p : U64} :
    ∀ (its : List Nat) (s : Platform σ) {log : List Effect} {kept : List Nat}
      {s' : Platform σ}, s.flushSubscribers O p its = some (log, kept, s') → s.ToHeld log := by
  intro its
  induction its with
  | nil =>
      intro s log kept s' h
      simp only [flushSubscribers, Option.some.injEq, Prod.mk.injEq] at h
      obtain ⟨rfl, _⟩ := h
      intro c i call hmem
      cases hmem
  | cons it its ih =>
      intro s log kept s' h
      unfold flushSubscribers at h
      split at h
      · exact ih s h
      · simp only [Option.bind_eq_bind, Option.bind_eq_some_iff] at h
        obtain ⟨⟨log₁, s₁⟩, h₁, ⟨log₂, kept₂, s₂⟩, h₂, heq⟩ := h
        simp only [Option.pure_def, Option.some.injEq, Prod.mk.injEq] at heq
        obtain ⟨rfl, _⟩ := heq
        exact (flushPage_toHeld h₁).append (funext (flushPage_some h₁).2.life.engine)
          (ih s₁ h₂)

theorem updatePage_toHeld {c : Nat} {p : U64} (h : s.updatePage O c p = some (log, s')) :
    s.ToHeld log := by
  unfold updatePage at h
  simp only [Option.bind_eq_bind, Option.bind_eq_some_iff] at h
  obtain ⟨core, _, ⟨log₁, s₁⟩, h₁, ⟨log₂, kept, s₂⟩, h₂, heq⟩ := h
  simp only [Option.pure_def, Option.some.injEq, Prod.mk.injEq] at heq
  obtain ⟨rfl, _⟩ := heq
  exact (flushPage_toHeld h₁).append (funext (flushPage_some h₁).2.life.engine)
    (flushSubscribers_toHeld _ _ h₂)

/-- **The handler calls engines that are held**: the calls before have deleted none. -/
theorem runActions_toHeld :
    ∀ (actions : List (Action Nat)) (s : Platform σ) {log : List Effect}
      {s' : Platform σ}, s.runActions O actions = some (log, s') → s.ToHeld log := by
  intro actions
  induction actions with
  | nil =>
      intro s log s' h
      simp only [runActions, Option.some.injEq, Prod.mk.injEq] at h
      obtain ⟨rfl, _⟩ := h
      intro c i call hmem
      cases hmem
  | cons x actions ih =>
      intro s log s' h
      cases hx : plainEffect x with
      | some e =>
          rw [runActions_plain hx, Option.bind_eq_some_iff] at h
          obtain ⟨⟨log₁, s₁⟩, h₁, heq⟩ := h
          simp only [Option.some.injEq, Prod.mk.injEq] at heq
          obtain ⟨rfl, _⟩ := heq
          intro c i call hmem
          rcases List.mem_cons.mp hmem with rfl | hmem
          · -- a fault or a store is no call
            cases x <;> cases hx
          · exact ih s h₁ c i call hmem
      | none =>
          cases x with
          | updatePage c p =>
              rw [runActions_update, Option.bind_eq_some_iff] at h
              obtain ⟨⟨log₁, s₁⟩, h₁, h⟩ := h
              obtain ⟨⟨log₂, s₂⟩, h₂, heq⟩ := Option.bind_eq_some_iff.mp h
              simp only [Option.some.injEq, Prod.mk.injEq] at heq
              obtain ⟨rfl, _⟩ := heq
              exact (updatePage_toHeld h₁).append (funext (updatePage_frame h₁).engine)
                (ih s₁ h₂)
          | _ => cases hx

end Platform

theorem write_toHeld {ok : U64 → Bool} {a : U64} {log : List Effect}
    (hd : s.write H O ok a = some (log, s')) : s.ToHeld log := by
  unfold Platform.write at hd
  exact fun c => Platform.runActions_toHeld _ _ hd c

/-! ## §4. Runs. -/

end Avp64.Psp
