/-
  Avp64.Psp.Core.Timer — the timers that the engine sets.

  `notify` and `cancel` act on the event of a timer, and a process that is sensitive to
  the event runs `timer_irq_trigger`, which tells the engine.  The events hold one
  pending notification each, so the timers are `Alarms`: `notify` does not cancel what
  is pending, and a later request is ignored.

    • `alarmStep`                — the timers of a core are alarms,
    • `triggers_follow_requests` — which runs trigger each timer at its latest request,
    • `late_rearm_ignored`       — a timer that is set to a later time goes off early.
-/
import Avp64.Lib.TimedEvent
import Avp64.Lib.WrappingClock
import Avp64.Psp.Core.Operations

namespace Avp64.Psp

open Avp64.Lib

variable {σ : Type} {O : Ocx σ} {F : Set (List RegWrite)}

/-! ## §1. `notify`, `cancel` and `timer_irq_trigger`. -/

namespace Core

/-- `notify(eventid, time_ps)` at the simulation time `now`, in ps. -/
def notify (now : U64) (eventid : Timer) (timePs : U64) (core : Core σ) : Core σ :=
  let delta := timePs - now
  { core with
    timerEvents := Function.update core.timerEvents eventid
      (notifyAt (now + delta) (core.timerEvents eventid)) }

/-- `cancel(eventid)`. -/
def cancel (eventid : Timer) (core : Core σ) : Core σ :=
  { core with timerEvents := Function.update core.timerEvents eventid none }

/-- `timer_irq_trigger(timer_id)`. -/
def timerIrqTrigger (O : Ocx σ) (timerId : Timer) (core : Core σ) :
    Except CoreError Bool × Core σ :=
  core.call O (.notified (BitVec.ofNat 64 timerId))

theorem notify_timerEvents (now : U64) (eventid : Timer) (timePs : U64) (core : Core σ) :
    (core.notify now eventid timePs).timerEvents
      = Function.update core.timerEvents eventid
          (notifyAt timePs (core.timerEvents eventid)) := by
  show Function.update core.timerEvents eventid
    (notifyAt (now + (timePs - now)) (core.timerEvents eventid)) = _
  rw [add_sub_self]

theorem call_timerEvents (O : Ocx σ) (c : OcxCall) (core : Core σ) :
    (core.call O c).2.timerEvents = core.timerEvents := by
  rw [(call_kept O c core).frame]

end Core

/-! ## §2. Time. -/

/-- The core, the simulation time in ps, the triggers that were delivered and have not
run yet, and the number of the next engine. -/
structure TimerState (σ : Type) where
  core : Core σ
  now : U64
  runnable : Timer → Bool
  next : Nat

inductive TimerEvent where
  /-- A request of the engine instance `inst`. -/
  | notify (inst : Nat) (eventid : Timer) (timePs : U64)
  | cancel (eventid : Timer)
  | reset (created : Bool) (res : Except CoreError Unit)
  | advance (now : U64)
  /-- The notifications that are due become triggers. -/
  | fire
  | timerIrqTrigger (timerId : Timer)

inductive TimerStep (O : Ocx σ) (F : Set (List RegWrite)) :
    TimerState σ → TimerEvent → TimerState σ → Prop
  | notify (s : TimerState σ) {inst : Nat} (eventid : Timer) {timePs : U64} :
      s.core.mCore.map (·.id) = some inst → s.now ≤ timePs →
      TimerStep O F s (.notify inst eventid timePs)
        { s with core := s.core.notify s.now eventid timePs }
  | cancel (s : TimerState σ) (eventid : Timer) :
      TimerStep O F s (.cancel eventid) { s with core := s.core.cancel eventid }
  | reset (s : TimerState σ) (flush : List RegWrite) (created : Bool) : flush ∈ F →
      TimerStep O F s (.reset created (s.core.reset O flush s.next created).1)
        { s with
          core := (s.core.reset O flush s.next created).2.2
          next := s.next + 1 }
  /-- The kernel advances to the earliest notification at most, and not before all
  processes have run. -/
  | advance (s : TimerState σ) {now : U64} : s.now < now → (∀ id, s.runnable id = false) →
      (∀ id t, s.core.timerEvents id = some t → now ≤ t) →
      TimerStep O F s (.advance now) { s with now := now }
  | fire (s : TimerState σ) : (∀ id, s.runnable id = false) →
      TimerStep O F s .fire
        { s with
          core := { s.core with
            timerEvents := fun id =>
              if s.core.timerEvents id = some s.now then none else s.core.timerEvents id }
          runnable := fun id => decide (s.core.timerEvents id = some s.now) }
  | timerIrqTrigger (s : TimerState σ) {timerId : Timer} : s.runnable timerId = true →
      s.core.mCore.isSome = true →
      TimerStep O F s (.timerIrqTrigger timerId)
        { s with
          core := (s.core.timerIrqTrigger O timerId).2
          runnable := Function.update s.runnable timerId false }

/-- The timers of a constructed core, from any time on. -/
def coreTimers (O : Ocx σ) (F : Set (List RegWrite)) : Lts (TimerState σ) TimerEvent where
  init s := ∃ procid coreid now,
    s = ⟨(Core.construct O procid coreid 0 true).2, now, fun _ => false, 1⟩
  step := TimerStep O F

/-! ### The timers as alarms. -/

def TimerState.alarms (s : TimerState σ) : Alarms Timer U64 :=
  ⟨s.now, s.core.timerEvents, s.runnable⟩

def TimerEvent.alarm : TimerEvent → AlarmEvent Timer U64
  | .notify _ eventid timePs => .notify eventid timePs
  | .cancel eventid => .cancel eventid
  | .reset _ res => .reset res.isOk
  | .advance now => .advance now
  | .fire => .fire
  | .timerIrqTrigger timerId => .run timerId

variable {s s' : TimerState σ} {tr : List (TimerState σ × TimerEvent)}

/-- **A step of the timers** is a step of the alarms. -/
theorem alarmStep {e : TimerEvent} (hst : TimerStep O F s e s') :
    AlarmStep s.alarms e.alarm s'.alarms := by
  cases hst with
  | @notify inst eventid timePs _ hnow =>
      have heq : ({ s with core := s.core.notify s.now eventid timePs } : TimerState σ).alarms
          = s.alarms.setPending eventid (notifyAt timePs (s.alarms.pending eventid)) := by
        unfold TimerState.alarms Alarms.setPending
        rw [Core.notify_timerEvents]
      rw [heq]
      exact .notify s.alarms hnow
  | cancel eventid => exact .cancel s.alarms eventid
  | reset flush created _ =>
      have htimers := (Core.reset_case O flush s.next created s.core).timerEvents
      have hst := AlarmStep.reset s.alarms (s.core.reset O flush s.next created).1.isOk
      unfold TimerState.alarms
      rw [htimers]
      exact hst
  | advance hlt hidle hpending => exact .advance s.alarms hlt hidle hpending
  | fire hidle => exact .fire s.alarms hidle
  | @timerIrqTrigger timerId hr _ =>
      have hst := AlarmStep.run s.alarms hr
      unfold TimerState.alarms Core.timerIrqTrigger
      rw [Core.call_timerEvents]
      exact hst

theorem alarms_run (hr : (coreTimers O F).Run tr s) :
    (alarms Timer U64).Run (tr.map (Prod.map TimerState.alarms TimerEvent.alarm)) s.alarms := by
  refine hr.map TimerState.alarms TimerEvent.alarm ?_ (fun _ _ _ hst => alarmStep hst)
  intro t h0
  obtain ⟨procid, coreid, now, rfl⟩ := h0
  intro id
  exact ⟨rfl, rfl⟩

/-! ## §3. Requests and triggers. -/

/-- The event ends what was requested for the timer before. -/
def TimerEvent.ends (id : Timer) : TimerEvent → Prop
  | .notify _ eventid _ => eventid = id
  | .cancel eventid => eventid = id
  | .reset _ _ => True
  | .timerIrqTrigger timerId => timerId = id
  | _ => False

/-- The latest request for the timer was `notify(id, t)` of the engine `inst`; there was
no `cancel`, no reset and no trigger after it. -/
def LatestRequest (inst : Nat) (id : Timer) (t : U64)
    (tr : List (TimerState σ × TimerEvent)) : Prop :=
  Since (fun x => x.2 = .notify inst id t) (fun x => x.2.ends id) tr

/-- A timer triggers at the time of its latest request, by a call of `notified(id)` of the
engine that made the request, and time does not pass a request that was not answered by a
trigger. -/
structure FollowsRequests (O : Ocx σ) (tr : List (TimerState σ × TimerEvent)) : Prop where
  triggered : ∀ pre t id suf, tr = pre ++ (t, .timerIrqTrigger id) :: suf →
    ∃ inst, t.core.mCore = some inst ∧ LatestRequest inst.id id t.now pre
      ∧ (t.core.timerIrqTrigger O id).2.mCore = some ⟨inst.id,
          (O.call (.notified (BitVec.ofNat 64 id)) inst.state).2⟩
  answered : ∀ pre t now suf, tr = pre ++ (t, .advance now) :: suf →
    ∀ inst id time, LatestRequest inst id time pre → now ≤ time

/-- No trigger of the timer has been delivered yet, a request is not later than what is
pending, and a reset that raises an error finds nothing pending. -/
def TimerEvent.timely (s : TimerState σ) : TimerEvent → Prop
  | .notify _ id t => s.runnable id = false
      ∧ ∀ p, s.core.timerEvents id = some p → t ≤ p
  | .cancel id => s.runnable id = false
  | .reset _ res => ∀ id, s.runnable id = false
      ∧ (res.isOk = true ∨ s.core.timerEvents id = none)
  | _ => True

theorem alarm_timely {e : TimerEvent} (h : e.timely s) : e.alarm.timely s.alarms := by
  cases e <;> exact h

theorem alarm_ends (e : TimerEvent) (id : Timer) : e.alarm.ends id ↔ e.ends id := by
  cases e <;> exact Iff.rfl

/-- The latest request, as the alarms see it. -/
theorem requested_iff {id : Timer} {t : U64} :
    Requested id t (tr.map (Prod.map TimerState.alarms TimerEvent.alarm))
      ↔ ∃ inst, LatestRequest inst id t tr := by
  unfold Requested
  rw [since_map]
  constructor
  · rintro ⟨pre, x, suf, rfl, hx, hsuf⟩
    have hx : x.2.alarm = .notify id t := hx
    obtain ⟨y, e⟩ := x
    cases e with
    | notify inst eventid timePs =>
        injection hx with hid ht
        refine ⟨inst, pre, _, suf, rfl, by rw [hid, ht], ?_⟩
        exact fun z hz hends => hsuf z hz ((alarm_ends z.2 id).mpr hends)
    | _ => cases hx
  · rintro ⟨inst, hlatest⟩
    refine hlatest.mono ?_ ?_
    · intro x _ hx
      show x.2.alarm = _
      rw [hx]
      rfl
    · intro x _ hends
      exact (alarm_ends x.2 id).mp hends

/-- The engine that made the latest request is the current one. -/
theorem latestRequest_current (hr : (coreTimers O F).Run tr s) {inst : Nat} {id : Timer}
    {t : U64} (h : LatestRequest inst id t tr) : s.core.mCore.map (·.id) = some inst := by
  refine hr.of_since (G := fun s => s.core.mCore.map (·.id) = some inst) ?_ ?_ h
  · intro s e s' _ hst he
    have he : e = .notify inst id t := he
    subst he
    cases hst with
    | notify _ hinst _ => exact hinst
  · intro s e s' _ hst hcur hends
    cases hst with
    | reset flush created _ => exact absurd trivial hends
    | timerIrqTrigger _ _ => exact (Core.call_kept O _ s.core).id.trans hcur
    | _ => exact hcur

/-- **Each timer triggers at its latest request** in every run whose steps are timely. -/
theorem triggers_follow_requests (O : Ocx σ) (F : Set (List RegWrite))
    (hr : (coreTimers O F).Run tr s) (htimely : ∀ x ∈ tr, x.2.timely x.1) :
    FollowsRequests O tr := by
  -- the alarms follow their requests wherever the run passes
  have hfollows : ∀ pre t e suf, tr = pre ++ (t, e) :: suf →
      Follows (pre.map (Prod.map TimerState.alarms TimerEvent.alarm)) t.alarms := by
    intro pre t e suf heq
    obtain ⟨hpre, _⟩ := hr.split heq
    refine ((follows_iff (alarms_run hpre)).mpr ?_).1
    intro y hy
    obtain ⟨x, hx, rfl⟩ := List.mem_map.mp hy
    exact alarm_timely (htimely x (by rw [heq]; exact List.mem_append_left _ hx))
  constructor
  · intro pre t id suf heq
    obtain ⟨hpre, t', hst, _⟩ := hr.split heq
    have hreq := (hfollows pre t _ suf heq).of_run (alarmStep hst)
    obtain ⟨n, hlatest⟩ := requested_iff.mp hreq
    obtain ⟨inst, hinst, rfl⟩ :=
      Option.map_eq_some_iff.mp (latestRequest_current hpre hlatest)
    refine ⟨inst, hinst, hlatest, ?_⟩
    unfold Core.timerIrqTrigger
    rw [Core.call_of_some hinst]
  · intro pre t now suf heq inst id time hlatest
    obtain ⟨_, t', hst, _⟩ := hr.split heq
    exact (hfollows pre t _ suf heq).of_advance (alarmStep hst)
      (requested_iff.mpr ⟨inst, hlatest⟩)

/-! ### Two runs. -/

/-- With one notification pending, time passes to it and the timer triggers. -/
theorem goes_off (hr : (coreTimers O F).Run tr s) {id : Timer} {t : U64}
    (hidle : ∀ id, s.runnable id = false) (hengine : s.core.mCore.isSome = true)
    (hpending : s.core.timerEvents = Function.update (fun _ => none) id (some t))
    (hlt : s.now < t) :
    ∃ u s', u.now = t ∧ (coreTimers O F).Run
      (tr ++ [(s, .advance t)] ++ [({ s with now := t }, .fire)]
        ++ [(u, .timerIrqTrigger id)]) s' := by
  have hearliest : ∀ id' p, s.core.timerEvents id' = some p → t ≤ p := by
    intro id' p hp
    rw [hpending, Function.update_apply] at hp
    split at hp
    · injection hp with hp
      rw [← hp]
      exact BitVec.le_refl t
    · cases hp
  have hdue : decide (s.core.timerEvents id = some t) = true := by
    rw [hpending, Function.update_self]
    exact decide_eq_true rfl
  have h₁ := hr.snoc (TimerStep.advance s hlt hidle hearliest)
  have h₂ := h₁.snoc (TimerStep.fire _ hidle)
  have h₃ := h₂.snoc (@TimerStep.timerIrqTrigger _ _ _ _ id hdue hengine)
  exact ⟨_, _, rfl, h₃⟩

/-- One request, answered in time. -/
theorem triggers_follow_one :
    ∃ (tr : List (TimerState SmallEngine × TimerEvent)) (s : TimerState SmallEngine),
      (coreTimers smallOcx {Core.tableWrites (fun _ => 0)}).Run tr s
      ∧ (∃ t, (t, .timerIrqTrigger 1) ∈ tr) ∧ FollowsRequests smallOcx tr := by
  have h₀ : (coreTimers smallOcx {Core.tableWrites (fun _ => 0)}).Run [] _ :=
    .start ⟨0, 0, 0, rfl⟩
  have h₁ := h₀.snoc (TimerStep.notify _ 1 rfl (show (0 : U64) ≤ 100 by decide))
  obtain ⟨u, s', _, hr⟩ := goes_off h₁ (fun _ => rfl) rfl
    (Core.notify_timerEvents 0 1 100 _) (show (0 : U64) < 100 by decide)
  refine ⟨_, s', hr, ⟨u, by simp⟩, triggers_follow_requests smallOcx _ hr ?_⟩
  intro x hx
  simp only [List.nil_append, List.cons_append, List.mem_cons, List.not_mem_nil,
    or_false] at hx
  rcases hx with rfl | rfl | rfl | rfl
  · exact ⟨rfl, nofun⟩
  · trivial
  · trivial
  · trivial

/-- A pending timer is set to a later time: the request is ignored, and the timer goes
off at the time that was requested first. -/
theorem late_rearm_ignored :
    ¬ ∀ (tr : List (TimerState SmallEngine × TimerEvent)) (s : TimerState SmallEngine),
      (coreTimers smallOcx {Core.tableWrites (fun _ => 0)}).Run tr s →
      FollowsRequests smallOcx tr := by
  intro hall
  have h₀ : (coreTimers smallOcx {Core.tableWrites (fun _ => 0)}).Run [] _ :=
    .start ⟨0, 0, 0, rfl⟩
  have h₁ := h₀.snoc (TimerStep.notify _ 0 rfl (show (0 : U64) ≤ 100 by decide))
  have h₂ := h₁.snoc (TimerStep.notify _ 0 rfl (show (0 : U64) ≤ 200 by decide))
  obtain ⟨u, s', hnow, hr⟩ := goes_off h₂ (fun _ => rfl) rfl (by
      rw [Core.notify_timerEvents, Core.notify_timerEvents, Function.update_self,
        Function.update_idem]
      rfl) (show (0 : U64) < 100 by decide)
  obtain ⟨inst, _, hlatest, _⟩ := (hall _ _ hr).triggered _ _ _ [] rfl
  -- the latest request is for 200
  unfold LatestRequest at hlatest
  rw [hnow, since_snoc, since_snoc, since_snoc] at hlatest
  simp [TimerEvent.ends] at hlatest

end Avp64.Psp
