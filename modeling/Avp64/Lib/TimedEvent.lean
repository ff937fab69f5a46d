/-
  Avp64.Lib.TimedEvent — alarms on events that hold one pending notification.

  An event has at most one pending notification.  A request for a notification is
  ignored unless it is earlier than the pending one; a cancel takes the pending one
  away.  When its time has come the notification is delivered: the process of the alarm
  becomes runnable, and runs before time goes on.

    • `notifyAt_eq_iff`     — when a request takes effect,
    • `follows_step_iff`    — when a step keeps the alarms at the latest requests,
    • `follows_iff`         — and when a whole run does,
    • `Follows.of_run`      — an alarm goes off at the time of its latest request,
    • `Follows.of_advance`  — and time does not pass that time before.
-/
import Avp64.Lib.Transition
import Mathlib.Logic.Function.Basic

namespace Avp64.Lib

/-! ## §1. One event. -/

section

variable {τ : Type*} [LT τ] [DecidableLT τ]

/-- The pending notification after a request for the time `t`. -/
def notifyAt (t : τ) : Option τ → Option τ
  | none => some t
  | some p => if t < p then some t else some p

theorem notifyAt_some (t p : τ) : notifyAt t (some p) = if t < p then some t else some p := rfl

theorem notifyAt_isSome (t : τ) (p : Option τ) : (notifyAt t p).isSome = true := by
  cases p with
  | none => rfl
  | some p =>
      rw [notifyAt_some]
      split <;> rfl

variable [LE τ] [Std.IsLinearOrder τ] [Std.LawfulOrderLT τ]

/-- A request takes effect exactly if nothing earlier is pending. -/
theorem notifyAt_eq_iff {t : τ} {p : Option τ} :
    notifyAt t p = some t ↔ ∀ q, p = some q → t ≤ q := by
  cases p with
  | none => simp [notifyAt]
  | some p =>
      rw [notifyAt_some]
      by_cases hlt : t < p
      · rw [if_pos hlt]
        exact iff_of_true rfl (fun q hq => by
          injection hq with hq
          rw [← hq]
          exact Std.le_of_lt hlt)
      · rw [if_neg hlt]
        constructor
        · intro heq q hq
          injection heq with heq
          injection hq with hq
          rw [← hq, heq]
          exact Std.le_refl t
        · intro hle
          exact congrArg some (Std.le_antisymm (Std.not_lt.mp hlt) (hle p rfl))

end

/-! ## §2. Alarms. -/

variable {ι τ : Type*}

structure Alarms (ι τ : Type*) where
  now : τ
  pending : ι → Option τ
  /-- The notification was delivered, and the process has not run yet. -/
  runnable : ι → Bool

inductive AlarmEvent (ι τ : Type*) where
  | notify (i : ι) (t : τ)
  | cancel (i : ι)
  /-- All requests become void; `cleared` says whether the notifications go, too. -/
  | reset (cleared : Bool)
  | advance (t : τ)
  /-- What is due now is delivered. -/
  | fire
  | run (i : ι)

/-! ## §3. The latest request. -/

/-- The event ends what was requested for the alarm `i` before. -/
def AlarmEvent.ends (i : ι) : AlarmEvent ι τ → Prop
  | .notify j _ => j = i
  | .cancel j => j = i
  | .reset _ => True
  | .run j => j = i
  | _ => False

/-- The latest request for the alarm `i` is for the time `t`; it was neither cancelled
nor answered. -/
def Requested (i : ι) (t : τ) (tr : List (Alarms ι τ × AlarmEvent ι τ)) : Prop :=
  Since (fun x => x.2 = .notify i t) (fun x => x.2.ends i) tr

def Alarms.setPending [DecidableEq ι] (s : Alarms ι τ) (i : ι) (p : Option τ) :
    Alarms ι τ :=
  { s with pending := Function.update s.pending i p }

/-- When the alarm will go off. -/
def Alarms.armed (s : Alarms ι τ) (i : ι) : Option τ :=
  if s.runnable i then some s.now else s.pending i

/-- The alarm `i` is set to its latest request, and goes off once. -/
structure AlarmFollows (i : ι) (tr : List (Alarms ι τ × AlarmEvent ι τ)) (s : Alarms ι τ) :
    Prop where
  once : s.runnable i = true → s.pending i = none
  armed : ∀ t, Requested i t tr ↔ s.armed i = some t

def Follows (tr : List (Alarms ι τ × AlarmEvent ι τ)) (s : Alarms ι τ) : Prop :=
  ∀ i, AlarmFollows i tr s

/-- The event comes before the alarm is delivered, a request not later than what is
pending, and a reset clears what is pending. -/
def AlarmEvent.timely [LE τ] (s : Alarms ι τ) : AlarmEvent ι τ → Prop
  | .notify i t => s.runnable i = false ∧ ∀ p, s.pending i = some p → t ≤ p
  | .cancel i => s.runnable i = false
  | .reset cleared => ∀ i, s.runnable i = false ∧ (cleared = true ∨ s.pending i = none)
  | _ => True

section

variable {s s' : Alarms ι τ} {e : AlarmEvent ι τ} {i : ι} {t : τ}
  {tr : List (Alarms ι τ × AlarmEvent ι τ)}

theorem requested_snoc :
    Requested i t (tr ++ [(s, e)]) ↔ e = .notify i t ∨ (Requested i t tr ∧ ¬ e.ends i) :=
  since_snoc

theorem armed_of_idle (h : s.runnable i = false) : s.armed i = s.pending i := by
  unfold Alarms.armed
  rw [h]
  rfl

theorem armed_of_runnable (h : s.runnable i = true) : s.armed i = some s.now := by
  unfold Alarms.armed
  rw [h]
  rfl

/-- An event of another alarm. -/
theorem AlarmFollows.frame (h : AlarmFollows i tr s) (he : ¬ e.ends i)
    (hrun : s'.runnable i = s.runnable i) (hpending : s'.pending i = s.pending i)
    (hnow : s.runnable i = true → s'.now = s.now) :
    AlarmFollows i (tr ++ [(s, e)]) s' := by
  have harmed : s'.armed i = s.armed i := by
    cases hr : s.runnable i with
    | false => rw [armed_of_idle hr, armed_of_idle (hrun.trans hr), hpending]
    | true => rw [armed_of_runnable hr, armed_of_runnable (hrun.trans hr), hnow hr]
  constructor
  · intro hr
    rw [hpending]
    exact h.once (hrun.symm.trans hr)
  · intro t
    have hne : e ≠ .notify i t := by
      rintro rfl
      exact he rfl
    rw [requested_snoc, harmed, ← h.armed t]
    exact ⟨fun h => (h.resolve_left hne).1, fun h => .inr ⟨h, he⟩⟩

/-- After the end of a request nothing may go off. -/
theorem alarmFollows_ended (he : e.ends i) (hnot : ∀ t, e ≠ .notify i t) :
    AlarmFollows i (tr ++ [(s, e)]) s' ↔ s'.runnable i = false ∧ s'.pending i = none := by
  have hno : ∀ t, ¬ Requested i t (tr ++ [(s, e)]) := by
    intro t ht
    rcases requested_snoc.mp ht with heq | ⟨_, hends⟩
    · exact hnot t heq
    · exact hends he
  constructor
  · intro h
    have hidle : s'.runnable i = false := by
      cases hr : s'.runnable i with
      | false => rfl
      | true => exact absurd ((h.armed s'.now).mpr (armed_of_runnable hr)) (hno _)
    refine ⟨hidle, ?_⟩
    rw [← armed_of_idle hidle]
    exact Option.eq_none_iff_forall_ne_some.mpr (fun t ht => hno t ((h.armed t).mpr ht))
  · rintro ⟨hidle, hnone⟩
    refine ⟨fun _ => hnone, fun t => iff_of_false (hno t) ?_⟩
    rw [armed_of_idle hidle, hnone]
    exact nofun

/-- After a request the event is pending at its time. -/
theorem alarmFollows_notified (hsome : (s'.pending i).isSome = true) :
    AlarmFollows i (tr ++ [(s, .notify i t)]) s'
      ↔ s'.runnable i = false ∧ s'.pending i = some t := by
  have hlast : ∀ t', Requested i t' (tr ++ [(s, .notify i t)]) ↔ t' = t := by
    intro t'
    rw [requested_snoc]
    constructor
    · rintro (heq | ⟨_, hends⟩)
      · injection heq with _ heq
        exact heq.symm
      · exact absurd rfl hends
    · rintro rfl
      exact .inl rfl
  constructor
  · intro h
    have hidle : s'.runnable i = false := by
      cases hr : s'.runnable i with
      | false => rfl
      | true =>
          rw [h.once hr] at hsome
          cases hsome
    rw [← armed_of_idle hidle]
    exact ⟨hidle, (h.armed t).mp ((hlast t).mpr rfl)⟩
  · rintro ⟨hidle, hpending⟩
    refine ⟨fun hr => absurd hr (by rw [hidle]; nofun), fun t' => ?_⟩
    rw [hlast, armed_of_idle hidle, hpending, Option.some.injEq]
    exact eq_comm

/-! ### Changing one notification. -/

variable [DecidableEq ι] {p : Option τ}

@[simp] theorem setPending_self : (s.setPending i p).pending i = p := by
  simp [Alarms.setPending]

theorem setPending_of_ne {j : ι} (h : j ≠ i) :
    (s.setPending i p).pending j = s.pending j := by
  simp [Alarms.setPending, h]

/-- An event that changes one notification keeps all alarms if it keeps that one. -/
theorem follows_setPending (h : Follows tr s) (he : ∀ j, e.ends j → j = i) :
    Follows (tr ++ [(s, e)]) (s.setPending i p)
      ↔ AlarmFollows i (tr ++ [(s, e)]) (s.setPending i p) := by
  constructor
  · intro hf
    exact hf i
  · intro hi j
    by_cases heq : j = i
    · rw [heq]
      exact hi
    · exact (h j).frame (fun hj => heq (he j hj)) rfl (setPending_of_ne heq) (fun _ => rfl)

end

/-! ## §4. Steps and runs. -/

variable [DecidableEq ι] [DecidableEq τ] [LE τ] [LT τ] [DecidableLT τ]

inductive AlarmStep : Alarms ι τ → AlarmEvent ι τ → Alarms ι τ → Prop
  | notify (s : Alarms ι τ) {i : ι} {t : τ} : s.now ≤ t →
      AlarmStep s (.notify i t) (s.setPending i (notifyAt t (s.pending i)))
  | cancel (s : Alarms ι τ) (i : ι) : AlarmStep s (.cancel i) (s.setPending i none)
  | reset (s : Alarms ι τ) (cleared : Bool) :
      AlarmStep s (.reset cleared)
        { s with pending := fun i => if cleared then none else s.pending i }
  /-- Time passes when nothing is runnable, and no notification is passed over. -/
  | advance (s : Alarms ι τ) {t : τ} : s.now < t → (∀ i, s.runnable i = false) →
      (∀ i p, s.pending i = some p → t ≤ p) → AlarmStep s (.advance t) { s with now := t }
  | fire (s : Alarms ι τ) : (∀ i, s.runnable i = false) →
      AlarmStep s .fire
        { s with
          pending := fun i => if s.pending i = some s.now then none else s.pending i
          runnable := fun i => decide (s.pending i = some s.now) }
  | run (s : Alarms ι τ) {i : ι} : s.runnable i = true →
      AlarmStep s (.run i) { s with runnable := Function.update s.runnable i false }

/-- No requests yet. -/
def alarms (ι τ : Type*) [DecidableEq ι] [DecidableEq τ] [LE τ] [LT τ] [DecidableLT τ] :
    Lts (Alarms ι τ) (AlarmEvent ι τ) where
  init s := ∀ i, s.pending i = none ∧ s.runnable i = false
  step := AlarmStep

variable {s s' : Alarms ι τ} {tr : List (Alarms ι τ × AlarmEvent ι τ)}

theorem follows_init (h : (alarms ι τ).init s) : Follows [] s := by
  intro i
  obtain ⟨hnone, hidle⟩ := h i
  refine ⟨fun _ => hnone, fun t => iff_of_false not_since_nil ?_⟩
  rw [armed_of_idle hidle, hnone]
  exact nofun

/-- An alarm that goes off was requested for now. -/
theorem Follows.of_run {i : ι} (h : Follows tr s) (hst : AlarmStep s (.run i) s') :
    Requested i s.now tr := by
  cases hst with
  | run hr => exact ((h i).armed s.now).mpr (armed_of_runnable hr)

/-- Time does not pass what is requested. -/
theorem Follows.of_advance {i : ι} {t t' : τ} (h : Follows tr s)
    (hst : AlarmStep s (.advance t') s') (hreq : Requested i t tr) : t' ≤ t := by
  cases hst with
  | advance _ hidle hpending =>
      have harmed := ((h i).armed t).mp hreq
      rw [armed_of_idle (hidle i)] at harmed
      exact hpending i t harmed

variable [Std.IsLinearOrder τ] [Std.LawfulOrderLT τ]

/-- **One step** keeps the alarms at their latest requests exactly if it is timely. -/
theorem follows_step_iff {e : AlarmEvent ι τ} (h : Follows tr s) (hst : AlarmStep s e s') :
    Follows (tr ++ [(s, e)]) s' ↔ e.timely s := by
  cases hst with
  | @notify i t _ =>
      rw [follows_setPending (e := .notify i t) h (fun _ hj => Eq.symm hj),
        alarmFollows_notified (by rw [setPending_self]; exact notifyAt_isSome t _),
        setPending_self, notifyAt_eq_iff]
      exact Iff.rfl
  | cancel i =>
      rw [follows_setPending (e := .cancel i) h (fun _ hj => Eq.symm hj),
        alarmFollows_ended (e := .cancel i) rfl (fun _ => nofun), setPending_self]
      exact and_iff_left rfl
  | reset cleared =>
      refine forall_congr' (fun i => ?_)
      rw [alarmFollows_ended (e := .reset cleared) trivial (fun _ => nofun)]
      cases cleared <;> simp
  | @advance t _ hidle _ =>
      refine iff_of_true (fun i => (h i).frame id rfl rfl ?_) trivial
      intro hr
      rw [hidle i] at hr
      cases hr
  | fire hidle =>
      refine iff_of_true (fun i => ?_) trivial
      by_cases hdue : s.pending i = some s.now
      · -- what was pending for now is delivered
        refine ⟨fun _ => if_pos hdue, fun t => ?_⟩
        rw [requested_snoc, armed_of_runnable (decide_eq_true hdue), ← hdue,
          ← armed_of_idle (hidle i), ← (h i).armed t]
        exact ⟨fun h => (h.resolve_left nofun).1, fun h => .inr ⟨h, id⟩⟩
      · refine (h i).frame id ?_ (if_neg hdue) (fun _ => rfl)
        rw [hidle i]
        exact decide_eq_false hdue
  | @run i hr =>
      refine iff_of_true (fun j => ?_) trivial
      by_cases heq : j = i
      · rw [heq]
        refine (alarmFollows_ended (e := .run i) rfl (fun _ => nofun)).mpr ?_
        exact ⟨Function.update_self _ _ _, (h i).once hr⟩
      · exact (h j).frame (fun hij => heq hij.symm) (Function.update_of_ne heq _ _) rfl
          (fun _ => rfl)

/-- **A run keeps the alarms at their latest requests exactly if all its steps are
timely.** -/
theorem follows_iff (hr : (alarms ι τ).Run tr s) :
    Always Follows tr s ↔ ∀ x ∈ tr, x.2.timely x.1 :=
  hr.always_iff (C := fun s e => e.timely s) (fun _ h0 => follows_init h0)
    (fun _ _ _ _ _ h hst => follows_step_iff h hst)

end Avp64.Lib
