/-
  Avp64.Psp.Platform.Runs — the cores and the protector as a transition system.

  A step is one call that a core or its environment makes, carried out to its end;
  a call that has no defined behaviour is no step.  What a step does is said once
  for the protector (`ProtectorPart`) and once for the engines (`engineAfter`).

    • `platformStep_protector` — a step is a step of the protector or leaves it,
    • `protector_reachable`    — so the invariants of the protector hold here,
    • `engine_step`            — which cores have an engine after a step.
-/
import Avp64.Psp.MemProtector.Protection
import Avp64.Psp.Platform.Operations

namespace Avp64.Psp

open Avp64.Lib MemProtector

variable {σ : Type} {H : Host} {O : Ocx σ} {K : Kernel} {s s' : Platform σ}

/-! ## §1. Events and steps. -/

inductive PlatformEvent where
  | construct (procid coreid : U64)
  | addSyscallSubscriber (c cpu : Nat)
  | protectPage (c : Nat) (pagePtr pageAddr : U64) (res : Except Error Unit)
  | invalidateDmi (c : Nat) (start end_ : U64) (res : Except Error Unit)
  /-- `created` says whether the core gets an engine; `deleted` are the instances that
  were passed to `m_delete_instance`. -/
  | reset (c : Nat) (created : Bool) (deleted : List Nat) (res : Except CoreError Unit)
  | destroy (c : Nat) (deleted : List Nat)
  | write (addr : U64) (log : List Effect)

/-- One call, for a kernel that answers as `K` allows. -/
inductive PlatformStep (H : Host) (O : Ocx σ) (K : Kernel) :
    Platform σ → PlatformEvent → Platform σ → Prop
  | construct (s : Platform σ) (procid coreid : U64) :
      PlatformStep H O K s (.construct procid coreid) (s.construct O procid coreid)
  | addSyscallSubscriber (s : Platform σ) {c cpu : Nat} :
      (s.cores c).isSome = true → (s.cores cpu).isSome = true →
      PlatformStep H O K s (.addSyscallSubscriber c cpu) (s.addSyscallSubscriber c cpu)
  /-- The engine calls `protect_page`, and `register_page` asks it for its page size. -/
  | protectPage (s : Platform σ) {c : Nat} (pagePtr pageAddr : U64) {ok : U64 → Bool} :
      ok ∈ K → (s.engine c).isSome = true →
      PlatformStep H O K s
        (.protectPage c pagePtr pageAddr (s.protectPage H O ok c pagePtr pageAddr).1)
        (s.protectPage H O ok c pagePtr pageAddr).2
  | invalidateDmi (s : Platform σ) {c : Nat} (start end_ : U64) {ok : U64 → Bool}
      (walk : Walk s.protector.protectedPages) {res : Except Error Unit}
      {log : List Effect} {s' : Platform σ} : ok ∈ K →
      s.invalidateDmi H O ok walk.order c start end_ = some (res, log, s') →
      PlatformStep H O K s (.invalidateDmi c start end_ res) s'
  /-- `flush_cpuregs` may make any calls of `write_reg_dbg`. -/
  | reset (s : Platform σ) {c : Nat} {core : Core σ} (flush : List RegWrite)
      (created : Bool) : s.cores c = some core →
      PlatformStep H O K s
        (.reset c created (s.reset O flush created c core).2.1
          (s.reset O flush created c core).1)
        (s.reset O flush created c core).2.2
  | destroy (s : Platform σ) {c : Nat} : (s.cores c).isSome = true →
      PlatformStep H O K s (.destroy c (s.destroy c).1) (s.destroy c).2
  | write (s : Platform σ) (addr : U64) {ok : U64 → Bool} {log : List Effect}
      {s' : Platform σ} : ok ∈ K → s.write H O ok addr = some (log, s') →
      PlatformStep H O K s (.write addr log) s'

/-- Cores come and go; the singleton is there before the first of them. -/
def platform (H : Host) (O : Ocx σ) (K : Kernel) : Lts (Platform σ) PlatformEvent where
  init s := s = {}
  step := PlatformStep H O K

/-! ## §2. What a step does to the protector. -/

/-- The event is not a call of the protector. -/
def PlatformEvent.quiet : PlatformEvent → Prop
  | .protectPage .. => False
  | .invalidateDmi .. => False
  | .write .. => False
  | _ => True

inductive ProtectorPart (H : Host) (O : Ocx σ) (K : Kernel) :
    MemProtector Nat → PlatformEvent → MemProtector Nat → Prop
  | registered {t t' : MemProtector Nat} {c : Nat} {pagePtr pageAddr : U64}
      {res : Except Error Unit} :
      Step H (fun _ => O.pageSize) K t (.register c pageAddr pagePtr res) t' →
      ProtectorPart H O K t (.protectPage c pagePtr pageAddr res) t'
  | deregistered {t t' : MemProtector Nat} {c : Nat} {start end_ : U64}
      {res : Except Error Unit} :
      Step H (fun _ => O.pageSize) K t (.deregisterRange c start end_ res) t' →
      ProtectorPart H O K t (.invalidateDmi c start end_ res) t'
  | written {t t' : MemProtector Nat} {addr : U64} (actions : List (Action Nat))
      {log : List Effect} :
      Step H (fun _ => O.pageSize) K t (.write addr actions) t' →
      ProtectorPart H O K t (.write addr log) t'
  | quiet {t : MemProtector Nat} {e : PlatformEvent} :
      e.quiet → ProtectorPart H O K t e t

namespace Platform

/-- A defined `invalidate_dmi` is a call of the engine and a deregistration. -/
theorem invalidateDmi_some {ok : U64 → Bool} {order : List U64} {c : Nat}
    {start end_ : U64} {res : Except Error Unit} {log : List Effect}
    (h : s.invalidateDmi H O ok order c start end_ = some (res, log, s')) :
    ∃ s₁, Frame Core.SameLife s s₁
      ∧ res = (deregisterPages H ok order c start end_ s.protector).1
      ∧ s' = { s₁ with
          protector := (deregisterPages H ok order c start end_ s.protector).2 } := by
  unfold invalidateDmi at h
  simp only [Option.bind_eq_bind, Option.bind_eq_some_iff] at h
  obtain ⟨⟨log₁, s₁⟩, h₁, heq⟩ := h
  have hf := (engineCall_some h₁).2
  simp only [Option.pure_def, Option.some.injEq, Prod.mk.injEq] at heq
  obtain ⟨rfl, _, rfl⟩ := heq
  rw [← hf.protector]
  exact ⟨s₁, hf.life, rfl, rfl⟩

end Platform

/-- **A step is a step of the protector, or leaves it alone.** -/
theorem platformStep_protector {e : PlatformEvent} (hst : PlatformStep H O K s e s') :
    ProtectorPart H O K s.protector e s'.protector := by
  cases hst with
  | construct procid coreid => exact .quiet trivial
  | addSyscallSubscriber _ _ => exact .quiet trivial
  | protectPage pagePtr pageAddr hok _ =>
      exact .registered (.register s.protector _ pageAddr pagePtr hok)
  | invalidateDmi start end_ walk hok h =>
      obtain ⟨s₁, _, rfl, rfl⟩ := Platform.invalidateDmi_some h
      exact .deregistered (.deregisterRange s.protector _ start end_ walk hok)
  | reset flush created _ => exact .quiet trivial
  | destroy _ => exact .quiet trivial
  | write addr hok h =>
      rw [(Platform.runActions_frame _ _ h).protector]
      exact .written _ (.write s.protector addr hok)

theorem ProtectorPart.step_or_same {t t' : MemProtector Nat} {e : PlatformEvent}
    (hp : ProtectorPart H O K t e t') :
    t' = t ∨ ∃ e', Step H (fun _ => O.pageSize) K t e' t' := by
  cases hp with
  | registered hs => exact .inr ⟨_, hs⟩
  | deregistered hs => exact .inr ⟨_, hs⟩
  | written actions hs => exact .inr ⟨_, hs⟩
  | quiet _ => exact .inl rfl

/-- A step of the platform keeps the protector among its own reachable states. -/
theorem protector_step {e : PlatformEvent}
    (hr : (protector H (fun _ => O.pageSize) K).Reachable s.protector)
    (hst : PlatformStep H O K s e s') :
    (protector H (fun _ => O.pageSize) K).Reachable s'.protector := by
  -- a quiet step stutters in the protector's runs
  rcases (platformStep_protector hst).step_or_same with heq | ⟨e', hs⟩
  · rw [heq]
    exact hr
  · exact hr.step hs

/-- **The protector of a platform is one of the runs in `protector`.** -/
theorem protector_reachable (hr : (platform H O K).Reachable s) :
    (protector H (fun _ => O.pageSize) K).Reachable s.protector := by
  refine hr.invariant (I := fun t =>
    (protector H (fun _ => O.pageSize) K).Reachable t.protector) ?_ ?_
  · intro t h0
    rw [show t = {} from h0]
    exact .init rfl
  · intro t e t' ht hst
    exact protector_step ht hst

theorem inv_of_step {e : PlatformEvent} (hi : Inv H s.protector)
    (hst : PlatformStep H O K s e s') : Inv H s'.protector := by
  rcases (platformStep_protector hst).step_or_same with heq | ⟨e', hs⟩
  · rw [heq]
    exact hi
  · exact inv_step hi hs

/-! ## §3. What a step does to the engines. -/

namespace Platform

/-- Every core that is there was constructed, so it has loaded its library. -/
def AllLoaded (s : Platform σ) : Prop :=
  ∀ c core, s.cores c = some core → core.Loaded

theorem Frame.allLoaded (hf : Frame Core.SameLife s s') (h : s.AllLoaded) :
    s'.AllLoaded := by
  intro c core' hc
  obtain ⟨core, hc₀, hlife⟩ := hf.of_some hc
  exact hlife.loaded.mpr (h c core hc₀)

theorem AllLoaded.setCore (h : s.AllLoaded) (c : Nat) {core : Option (Core σ)}
    (hcore : ∀ x, core = some x → x.Loaded) : (s.setCore c core).AllLoaded := by
  intro c' x hx
  rw [setCore_cores] at hx
  split at hx
  · exact hcore x hx
  · exact h c' x hx

theorem engine_setCore (s : Platform σ) (c c' : Nat) (core : Option (Core σ)) :
    (s.setCore c core).engine c'
      = if c' = c then core.bind (fun core => core.mCore.map (·.id)) else s.engine c' := by
  unfold Platform.engine
  rw [setCore_cores]
  split <;> rfl

/-- A new subscriber leaves the engines as they are. -/
theorem addSyscallSubscriber_frame (c cpu : Nat) (s : Platform σ) :
    Frame Core.SameLife s (s.addSyscallSubscriber c cpu) := by
  unfold addSyscallSubscriber
  cases hc : s.cores c with
  | none =>
      -- on a core that is not there the call does nothing
      have hsame : s.setCore c none = s := by
        unfold Platform.setCore
        rw [← hc, Function.update_eq_self]
      rw [Option.map_none, hsame]
      exact Frame.refl Core.SameLife.refl s
  | some core => exact frame_setCore Core.SameLife.refl hc ⟨rfl, Iff.rfl⟩

end Platform

theorem allLoaded_step {e : PlatformEvent} (h : s.AllLoaded)
    (hst : PlatformStep H O K s e s') : s'.AllLoaded := by
  cases hst with
  | construct procid coreid =>
      refine h.setCore s.nextCore ?_
      intro x hx
      -- the constructor has loaded the library before `open_core`
      obtain ⟨st, _, _, heq⟩ := Core.construct_opened O procid coreid s.nextInst
      injection hx with hx
      rw [← hx, heq]
      exact ⟨rfl, rfl⟩
  | addSyscallSubscriber _ _ => exact (Platform.addSyscallSubscriber_frame _ _ s).allLoaded h
  | protectPage pagePtr pageAddr _ _ => exact h
  | invalidateDmi start end_ walk _ hd =>
      obtain ⟨s₁, hf, _, rfl⟩ := Platform.invalidateDmi_some hd
      exact hf.allLoaded h
  | reset flush created hc =>
      refine h.setCore _ ?_
      intro x hx
      injection hx with hx
      rw [← hx]
      exact (Core.reset_engine (h _ _ hc) flush s.nextInst created).loaded
  | destroy _ => exact h.setCore _ (fun x hx => by cases hx)
  | write addr _ hw => exact (Platform.runActions_frame _ _ hw).allLoaded h

theorem allLoaded_of_reachable (hr : (platform H O K).Reachable s) : s.AllLoaded := by
  refine hr.invariant ?_ ?_
  · intro t h0 c core hc
    rw [show t = {} from h0] at hc
    cases hc
  · intro t e t' ht hst
    exact allLoaded_step ht hst

/-- A reset, if it is one, gets a new engine. -/
def PlatformEvent.getsEngine : PlatformEvent → Prop
  | .reset _ created _ _ => created = true
  | _ => True

/-- Whether the core `c` has an engine after the event. -/
def PlatformEvent.engineAfter (s : Platform σ) (c : Nat) : PlatformEvent → Bool
  | .construct _ _ => c = s.nextCore ∨ (s.engine c).isSome
  | .reset c' created _ _ => if c = c' then created else (s.engine c).isSome
  | .destroy c' _ => c ≠ c' ∧ (s.engine c).isSome
  | _ => (s.engine c).isSome

/-- **Which cores have an engine after a step.** -/
theorem engine_step {e : PlatformEvent} (h : s.AllLoaded)
    (hst : PlatformStep H O K s e s') (c : Nat) :
    (s'.engine c).isSome = e.engineAfter s c := by
  cases hst with
  | construct procid coreid =>
      show ((s.setCore s.nextCore _).engine c).isSome = decide _
      rw [Platform.engine_setCore]
      by_cases hc : c = s.nextCore
      · rw [if_pos hc]
        simp [hc, Core.construct, Core.openCore, Core.initial, Core.call]
      · rw [if_neg hc]
        simp [hc]
  | addSyscallSubscriber _ _ =>
      rw [(Platform.addSyscallSubscriber_frame _ _ s).engine c]
      rfl
  | protectPage pagePtr pageAddr _ _ => rfl
  | invalidateDmi start end_ walk _ hd =>
      obtain ⟨s₁, hf, _, rfl⟩ := Platform.invalidateDmi_some hd
      exact congrArg Option.isSome (hf.engine c)
  | @reset c' core flush created hc' =>
      show ((s.setCore c' _).engine c).isSome = if c = c' then created else _
      rw [Platform.engine_setCore]
      split
      · rw [Option.bind_some, Option.isSome_map]
        exact (Core.reset_engine (h _ _ hc') flush s.nextInst created).isSome
      · rfl
  | @destroy c' _ =>
      show ((s.setCore c' none).engine c).isSome = decide _
      rw [Platform.engine_setCore]
      by_cases hc : c = c'
      · rw [if_pos hc]
        simp [hc]
      · rw [if_neg hc]
        simp [hc]
  | write addr _ hw =>
      rw [(Platform.runActions_frame _ _ hw).engine c]
      rfl

end Avp64.Psp
