/-
  Avp64.Psp.Platform.Replay — the engines after a list of calls.

  A write to host memory records the calls it makes of the engines.  The record is
  complete: the state of every engine afterwards is what the recorded calls make of the
  state before.

    • `Replayed`            — the engines are as the log says,
    • `runActions_replayed` — so they are after the handler,
    • `engines_step`        — what new engines have and no call takes away.
-/
import Avp64.Psp.Platform.Runs

namespace Avp64.Psp

open Avp64.Lib

variable {σ : Type} {O : Ocx σ}

/-! ## §1. Calls and states. -/

/-- The call, if it was made on the engine of the core `c`. -/
def Effect.callOn (c : Nat) : Effect → Option OcxCall
  | .engine c' _ call => if c' = c then some call else none
  | _ => none

/-- The calls of the log that were made on the engine of the core `c`, one after the
other. -/
def replay (O : Ocx σ) (c : Nat) (log : List Effect) (st : σ) : σ :=
  (log.filterMap (Effect.callOn c)).foldl (fun st call => (O.call call st).2) st

@[simp] theorem replay_nil (O : Ocx σ) (c : Nat) (st : σ) : replay O c [] st = st := rfl

theorem replay_append (O : Ocx σ) (c : Nat) (log log' : List Effect) (st : σ) :
    replay O c (log ++ log') st = replay O c log' (replay O c log st) := by
  unfold replay
  rw [List.filterMap_append, List.foldl_append]

theorem replay_cons_call {c : Nat} {x : Effect} {call : OcxCall} (hx : x.callOn c = some call)
    (O : Ocx σ) (log : List Effect) (st : σ) :
    replay O c (x :: log) st = replay O c log (O.call call st).2 := by
  unfold replay
  rw [List.filterMap_cons_some hx, List.foldl_cons]

theorem replay_cons_self (O : Ocx σ) (c i : Nat) (call : OcxCall) (log : List Effect)
    (st : σ) : replay O c (.engine c i call :: log) st = replay O c log (O.call call st).2 :=
  replay_cons_call (x := .engine c i call) (if_pos rfl) O log st

theorem replay_cons_skip {c : Nat} {x : Effect} (hx : x.callOn c = none) (O : Ocx σ)
    (log : List Effect) (st : σ) : replay O c (x :: log) st = replay O c log st := by
  unfold replay
  rw [List.filterMap_cons_none hx]

/-- What none of its calls takes away, a replay does not. -/
theorem replay_keeps {P : σ → Prop} {c : Nat} {log : List Effect}
    (hcalls : ∀ call ∈ log.filterMap (Effect.callOn c), ∀ st, P st → P (O.call call st).2)
    {st : σ} (h : P st) : P (replay O c log st) := by
  unfold replay
  revert st hcalls
  generalize log.filterMap (Effect.callOn c) = calls
  induction calls with
  | nil => intro _ st h; exact h
  | cons call calls ih =>
      intro hcalls st h
      exact ih (fun x hx => hcalls x (List.mem_cons_of_mem call hx))
        (hcalls call List.mem_cons_self st h)

theorem replay_invariant {P : σ → Prop} (hcall : ∀ call st, P st → P (O.call call st).2)
    (c : Nat) (log : List Effect) (st : σ) (h : P st) : P (replay O c log st) :=
  replay_keeps (fun call _ => hcall call) h

/-- What one of the calls establishes and no call takes away, holds after the replay. -/
theorem replay_of_mem {P : σ → Prop} {c : Nat} {call : OcxCall}
    (hcall : ∀ call st, P st → P (O.call call st).2) (hest : ∀ st, P (O.call call st).2)
    {log : List Effect} (hmem : call ∈ log.filterMap (Effect.callOn c)) (st : σ) :
    P (replay O c log st) := by
  obtain ⟨x, hx, heq⟩ := List.mem_filterMap.mp hmem
  obtain ⟨pre, suf, rfl⟩ := List.append_of_mem hx
  rw [replay_append, replay_cons_call heq]
  exact replay_invariant hcall c suf _ (hest _)

namespace Platform

variable {s s' s'' : Platform σ} {log log' : List Effect}

/-- The state of the engine of the core `c`. -/
def engineState (s : Platform σ) (c : Nat) : Option σ :=
  (s.cores c).bind (fun core => core.mCore.map (·.state))

theorem engineState_of_some {c : Nat} {core : Core σ} (h : s.cores c = some core) :
    s.engineState c = core.mCore.map (·.state) := by
  unfold engineState
  rw [h, Option.bind_some]

theorem engineState_setCore (s : Platform σ) (c c' : Nat) (core : Option (Core σ)) :
    (s.setCore c core).engineState c'
      = if c' = c then core.bind (fun core => core.mCore.map (·.state))
        else s.engineState c' := by
  unfold engineState
  rw [setCore_cores]
  split <;> rfl

/-- The engine of one core is in another state. -/
theorem engineState_setState {c c' : Nat} {core : Core σ} {inst : OcxInstance σ} {st st' : σ}
    (hc : s.cores c = some core) (hinst : core.mCore = some inst)
    (h : (s.setCore c (some { core with mCore := some ⟨inst.id, st⟩ })).engineState c'
      = some st') :
    s.engineState c' = some st'
      ∨ (c' = c ∧ st' = st ∧ s.engineState c = some inst.state) := by
  rw [engineState_setCore] at h
  split at h
  · next heq =>
      injection h with h
      refine .inr ⟨heq, h.symm, ?_⟩
      rw [engineState_of_some hc, hinst]
      rfl
  · exact .inl h

/-- From `s` to `s'` every engine has received its calls of the log, and no others. -/
def Replayed (O : Ocx σ) (log : List Effect) (s s' : Platform σ) : Prop :=
  ∀ c, s'.engineState c = (s.engineState c).map (replay O c log)

theorem Replayed.nil (O : Ocx σ) (s : Platform σ) : Replayed O [] s s := by
  intro c
  show _ = Option.map id _
  rw [Option.map_id]
  rfl

theorem Replayed.append (h : Replayed O log s s') (h' : Replayed O log' s' s'') :
    Replayed O (log ++ log') s s'' := by
  intro c
  rw [h' c, h c, Option.map_map]
  congr 1
  funext st
  exact (replay_append O c log log' st).symm

/-- An effect that is no call changes nothing. -/
theorem Replayed.cons {x : Effect} (hx : ∀ c, x.callOn c = none) (h : Replayed O log s s') :
    Replayed O (x :: log) s s' := by
  intro c
  rw [h c]
  congr 1
  funext st
  exact (replay_cons_skip (hx c) O log st).symm

/-! ## §2. The operations. -/

theorem engineCall_replayed {c : Nat} {call : OcxCall}
    (h : s.engineCall O c call = some (log, s')) : Replayed O log s s' := by
  unfold engineCall at h
  cases hc : s.cores c with
  | none => rw [hc] at h; cases h
  | some core =>
      cases hm : core.mCore with
      | none => rw [hc] at h; simp [hm] at h
      | some inst =>
          rw [hc] at h
          simp only [hm, Option.some.injEq, Prod.mk.injEq] at h
          obtain ⟨rfl, rfl⟩ := h
          intro c'
          rw [engineState_setCore]
          by_cases heq : c' = c
          · subst heq
            rw [if_pos rfl, Option.bind_some, Core.call_of_some hm, engineState_of_some hc,
              hm, Option.map_some, Option.map_some, Option.map_some, replay_cons_self,
              replay_nil]
          · have hskip : (Effect.engine c inst.id call).callOn c' = none :=
              if_neg (Ne.symm heq)
            rw [if_neg heq]
            show _ = Option.map (fun st => replay O c' [.engine c inst.id call] st) _
            simp only [replay_cons_skip hskip, replay_nil, Option.map_id']

theorem flushPage_replayed {c : Nat} {p : U64} (h : s.flushPage O c p = some (log, s')) :
    Replayed O log s s' := by
  unfold flushPage at h
  simp only [Option.bind_eq_bind, Option.bind_eq_some_iff] at h
  obtain ⟨⟨log₁, s₁⟩, h₁, ⟨log₂, s₂⟩, h₂, heq⟩ := h
  simp only [Option.pure_def, Option.some.injEq, Prod.mk.injEq] at heq
  obtain ⟨rfl, rfl⟩ := heq
  exact (engineCall_replayed h₁).append (engineCall_replayed h₂)

/-- The list of subscribers is no part of the engine. -/
theorem engineState_setSubscribers (s : Platform σ) (c c' : Nat) (its : List Nat) :
    (s.setSubscribers c its).engineState c' = s.engineState c' := by
  unfold setSubscribers
  rw [engineState_setCore]
  split
  · next heq =>
      rw [heq]
      unfold engineState
      cases s.cores c with
      | none => rfl
      | some core => rfl
  · rfl

/-- A call of all subscribers is the calls of its visits. -/
theorem callAll_replayed {visit : Nat → Platform σ → Option (List Effect × Platform σ)}
    (hvisit : ∀ {c : Nat} {s : Platform σ} {log : List Effect} {s' : Platform σ},
      visit c s = some (log, s') → Replayed O log s s') {c : Nat}
    (h : s.callAll visit c = some (log, s')) : Replayed O log s s' := by
  unfold callAll at h
  simp only [Option.bind_eq_bind, Option.bind_eq_some_iff] at h
  obtain ⟨core, _, ⟨log₁, s₁⟩, h₁, ⟨log₂, kept, s₂⟩, h₂, heq⟩ := h
  simp only [Option.pure_def, Option.some.injEq, Prod.mk.injEq] at heq
  obtain ⟨rfl, rfl⟩ := heq
  have hrest : Replayed O log₂ s₁ s₂ :=
    visitLive_logged (Replayed.nil O) (fun h h' => h.append h') hvisit _ s₁ h₂
  intro c'
  rw [engineState_setSubscribers]
  exact (hvisit h₁).append hrest c'

theorem updatePage_replayed {c : Nat} {p : U64} (h : s.updatePage O c p = some (log, s')) :
    Replayed O log s s' := by
  rw [updatePage_eq] at h
  exact callAll_replayed flushPage_replayed h

/-- **The record of a handler is complete**: the engines are what the recorded calls
have made of them. -/
theorem runActions_replayed :
    ∀ (actions : List (Action Nat)) (s : Platform σ) {log : List Effect}
      {s' : Platform σ}, s.runActions O actions = some (log, s') →
      Replayed O log s s' := by
  intro actions
  induction actions with
  | nil =>
      intro s log s' h
      simp only [runActions, Option.some.injEq, Prod.mk.injEq] at h
      obtain ⟨rfl, rfl⟩ := h
      exact .nil O s
  | cons x actions ih =>
      intro s log s' h
      cases hx : plainEffect x with
      | some e =>
          rw [runActions_plain hx, Option.bind_eq_some_iff] at h
          obtain ⟨⟨log₁, s₁⟩, h₁, heq⟩ := h
          simp only [Option.some.injEq, Prod.mk.injEq] at heq
          obtain ⟨rfl, rfl⟩ := heq
          -- faults and stores are no calls
          have he : ∀ c, e.callOn c = none := by
            intro c
            cases x with
            | updatePage c' p => cases hx
            | _ =>
                injection hx with hx
                rw [← hx]
                rfl
          exact (ih s h₁).cons he
      | none =>
          cases x with
          | updatePage c p =>
              rw [runActions_update, Option.bind_eq_some_iff] at h
              obtain ⟨⟨log₁, s₁⟩, h₁, h⟩ := h
              obtain ⟨⟨log₂, s₂⟩, h₂, heq⟩ := Option.bind_eq_some_iff.mp h
              simp only [Option.some.injEq, Prod.mk.injEq] at heq
              obtain ⟨rfl, rfl⟩ := heq
              exact (updatePage_replayed h₁).append (ih s₁ h₂)
          | _ => cases hx

/-- The record of a write is complete. -/
theorem write_replayed {H : Host} {ok : U64 → Bool} {a : U64}
    (h : s.write H O ok a = some (log, s')) : Replayed O log s s' := by
  unfold write at h
  -- unlocking the page in the protector is no call
  exact fun c => runActions_replayed _ _ h c

/-- An `invalidate_dmi` is one call of the engine, then a deregistration. -/
theorem invalidateDmi_eq_some {H : Host} {ok : U64 → Bool} {order : List U64} {c : Nat}
    {start end_ : U64} {res : Except Error Unit}
    (h : s.invalidateDmi H O ok order c start end_ = some (res, log, s')) :
    ∃ s₁, s.engineCall O c (.invalidatePagePtrs start end_) = some (log, s₁)
      ∧ s' = { s₁ with
          protector := (deregisterPages H ok order c start end_ s₁.protector).2 } := by
  unfold invalidateDmi at h
  simp only [Option.bind_eq_bind, Option.bind_eq_some_iff] at h
  obtain ⟨⟨log₁, s₁⟩, h₁, heq⟩ := h
  simp only [Option.pure_def, Option.some.injEq, Prod.mk.injEq] at heq
  obtain ⟨_, rfl, rfl⟩ := heq
  exact ⟨s₁, h₁, rfl⟩

/-! ## §3. The engines over all steps. -/

theorem engineState_addSyscallSubscriber (s : Platform σ) (c cpu c' : Nat) :
    (s.addSyscallSubscriber c cpu).engineState c' = s.engineState c' := by
  unfold addSyscallSubscriber
  rw [engineState_setCore]
  split
  · next heq =>
      rw [heq]
      unfold engineState
      cases s.cores c with
      | none => rfl
      | some core => rfl
  · rfl

/-- Every state that the engine of the core `c` is in has `P`. -/
def EngineHas (P : σ → Prop) (s : Platform σ) (c : Nat) : Prop :=
  ∀ st, s.engineState c = some st → P st

theorem EngineHas.congr {P : σ → Prop} {c : Nat} (h : s.EngineHas P c)
    (heq : s'.engineState c = s.engineState c) : s'.EngineHas P c := by
  intro st hst
  exact h st (heq ▸ hst)

theorem EngineHas.replayed {P : σ → Prop} (hcall : ∀ call st, P st → P (O.call call st).2)
    {c : Nat} (h : s.EngineHas P c) (hr : Replayed O log s s') : s'.EngineHas P c := by
  intro st hst
  rw [hr c] at hst
  obtain ⟨st₀, h₀, rfl⟩ := Option.map_eq_some_iff.mp hst
  exact replay_invariant hcall c log st₀ (h st₀ h₀)

/-- A core is replaced by one with a new engine, or with none. -/
theorem EngineHas.setCore {P : σ → Prop} {c c' : Nat} {core : Option (Core σ)}
    (h : s.EngineHas P c)
    (hnew : ∀ x inst, core = some x → x.mCore = some inst → P inst.state) :
    (s.setCore c' core).EngineHas P c := by
  intro st hst
  rw [engineState_setCore] at hst
  split at hst
  · obtain ⟨x, hx, hst⟩ := Option.bind_eq_some_iff.mp hst
    obtain ⟨inst, hinst, rfl⟩ := Option.map_eq_some_iff.mp hst
    exact hnew x inst hx hinst
  · exact h st hst

end Platform

open Platform

/-- **What every new engine has and no call takes away, the engines keep.** -/
theorem engines_step {H : Host} {K : Kernel} {P : σ → Prop}
    (hnew : ∀ st, Core.Initialised O st → P st)
    (hcall : ∀ call st, P st → P (O.call call st).2) {s s' : Platform σ} {e : PlatformEvent}
    (hst : PlatformStep H O K s e s') {c : Nat} (h : s.EngineHas P c) :
    s'.EngineHas P c := by
  cases hst with
  | construct procid coreid =>
      obtain ⟨st, _, hin, heq⟩ := Core.construct_opened O procid coreid s.nextInst
      refine h.setCore ?_
      rintro x inst hx hinst
      injection hx with hx
      rw [← hx, heq] at hinst
      injection hinst with hinst
      rw [← hinst]
      exact hnew st hin
  | addSyscallSubscriber _ _ => exact h.congr (engineState_addSyscallSubscriber s _ _ c)
  | protectPage pagePtr pageAddr _ _ => exact h
  | invalidateDmi start end_ walk _ hd =>
      obtain ⟨s₁, h₁, rfl⟩ := invalidateDmi_eq_some hd
      have h' := h.replayed hcall (engineCall_replayed h₁)
      exact fun st hst => h' st hst
  | reset flush created hc =>
      refine h.setCore ?_
      rintro x inst hx hinst
      injection hx with hx
      rw [← hx] at hinst
      exact hnew _ (Core.reset_new hinst).2
  | destroy _ => exact h.setCore (fun x inst hx => by cases hx)
  | write addr _ hw => exact h.replayed hcall (write_replayed hw)

end Avp64.Psp
