/-
  Avp64.Psp.Core.Deadline — `notify` at any time resolution.

  The engine asks for a deadline in ps; SystemC counts ticks, `ticks` of them in a ps.
  `notify` multiplies, subtracts the current time and leaves it to the kernel to add the
  difference again, all of it unsigned.  For a deadline that is past the difference wraps,
  and so does the sum.  The kernel is a parameter; what is relied on are the laws of
  `EventKernel`: sums wrap, only what is due is delivered, and time goes on only to what
  is pending next.

    • `notifyTicks_pending` — the deadline is what is pending, past or not,
    • `fires_on_time`       — a timer goes off at its deadline, or at once if that is past,
    • `timerKernel_laws`    — a kernel for the timers of a core,
    • `notifyTicks_one`, `deliver_of_fire` — it is the one of `coreTimers`.
-/
import Avp64.Psp.Core.Timer

namespace Avp64.Psp

open Avp64.Lib

variable {σ κ : Type}

/-! ## §1. `time_from_ps` and `notify`, in ticks. -/

/-- `time_from_ps(time_ps)`; `ticks` is `sc_time(1.0, SC_PS).value()`. -/
def timeFromPs (ticks timePs : U64) : U64 := timePs * ticks

theorem toNat_timeFromPs {ticks timePs : U64} (hfit : timePs.toNat * ticks.toNat < 2 ^ 64) :
    (timeFromPs ticks timePs).toNat = timePs.toNat * ticks.toNat := by
  unfold timeFromPs
  rw [BitVec.toNat_mul, Nat.mod_eq_of_lt hfit]

/-- `notify(eventid, time_ps)` on the kernel `K`. -/
def notifyTicks (K : EventKernel κ Timer 64) (ticks : U64) (eventid : Timer) (timePs : U64)
    (s : κ) : κ :=
  let notifyTime := timeFromPs ticks timePs
  let delta := notifyTime - K.now s
  K.notify eventid delta s

variable {K : EventKernel κ Timer 64} {s : κ}

theorem notifyTicks_pending (laws : K.Laws) {eventid : Timer}
    (hidle : K.pending s eventid = none) (ticks timePs : U64) :
    K.pending (notifyTicks K ticks eventid timePs s) eventid
      = some (timeFromPs ticks timePs) := by
  unfold notifyTicks
  rw [laws.notify_idle hidle, add_sub_self]

/-- **A timer request never fires late.**  Take any kernel and any state with nothing
pending for the timer, and any run after `notify(eventid, time_ps)` without another
request for this timer.  With `time_ps * ticks` below `2 ^ 64` the timer has been
triggered once, at the maximum of the deadline and the time of the request; or it has not
yet, is pending for the deadline, and time has not gone beyond that maximum. -/
theorem fires_on_time (K : EventKernel κ Timer 64) (laws : K.Laws) (ticks : U64)
    {timePs : U64} (hfit : timePs.toNat * ticks.toNat < 2 ^ 64) {eventid : Timer} {s₀ : κ}
    (hidle : K.pending s₀ eventid = none) {tr : List (κ × KernelEvent Timer 64)}
    (hr : (K.runs (notifyTicks K ticks eventid timePs s₀)).Run tr s)
    (hquiet : ∀ x ∈ tr, ¬ x.2.requests eventid) :
    NotifiedOnce eventid (max (timePs.toNat * ticks.toNat) (K.now s₀).toNat) tr
    ∨ ((∀ x ∈ tr, ¬ x.2.notifies eventid)
      ∧ K.pending s eventid = some (timeFromPs ticks timePs)
      ∧ (K.now s).toNat ≤ max (timePs.toNat * ticks.toNat) (K.now s₀).toNat) := by
  have hnow : K.now (notifyTicks K ticks eventid timePs s₀) = K.now s₀ :=
    laws.notify_now eventid _ s₀
  have hrun := delivered_or_awaited laws (notifyTicks_pending laws hidle ticks timePs) hr hquiet
  rw [hnow, toNat_timeFromPs hfit] at hrun
  rcases hrun with ⟨honce, _⟩ | ⟨hno, hwait⟩
  · exact .inl honce
  · have hle := hwait.inTime
    rw [toNat_timeFromPs hfit] at hle
    exact .inr ⟨hno, hwait.pending, hle⟩

/-! ## §2. The kernel of the timers. -/

/-- The time and what is pending. -/
structure TimerTable where
  now : U64
  pending : Timer → Option U64

/-- A kernel that knows no events but the timers of one core.  It takes the earliest
notifications, and the time steps to theirs if it is greater. -/
def timerKernel : EventKernel TimerTable Timer 64 where
  now := TimerTable.now
  pending := TimerTable.pending
  notify id delay s :=
    ⟨s.now, Function.update s.pending id (notifyAt (s.now + delay) (s.pending id))⟩
  cancel id s := ⟨s.now, Function.update s.pending id none⟩
  deliver s d s' := ∃ t, (∀ id p, s.pending id = some p → t ≤ p)
    ∧ d = { id | s.pending id = some t }
    ∧ s'.now = (if s.now < t then t else s.now)
    ∧ s'.pending = fun id => if s.pending id = some t then none else s.pending id
  other s s' := s' = s

theorem timerKernel_laws : timerKernel.Laws where
  notify_idle := by
    intro s id hidle delay
    show Function.update s.pending id (notifyAt (s.now + delay) (s.pending id)) id = _
    rw [Function.update_self, show s.pending id = none from hidle]
    rfl
  notify_frame hne _ _ := Function.update_of_ne hne _ _
  notify_now _ _ _ := rfl
  cancel_frame hne _ := Function.update_of_ne hne _ _
  cancel_now _ _ := rfl
  other_pending h := by rw [show _ = _ from h]
  other_now h := by rw [show _ = _ from h]
  due := by
    rintro s d s' ⟨t, _, rfl, hnow, _⟩ id hid
    refine ⟨t, hid, ?_⟩
    show t ≤ s'.now
    rw [hnow]
    split
    · exact BitVec.le_refl t
    · next h => exact BitVec.not_lt.mp h
  taken := by
    rintro s d s' ⟨t, _, rfl, _, hpending⟩ id hid
    show s'.pending id = none
    rw [hpending]
    exact if_pos hid
  kept := by
    rintro s d s' ⟨t, _, rfl, _, hpending⟩ id hid
    show s'.pending id = s.pending id
    rw [hpending]
    exact if_neg hid
  time := by
    rintro s d s' ⟨t, hearliest, _, hnow, _⟩
    show s'.now = s.now ∨ (s.now < s'.now ∧ ∀ id p, s.pending id = some p → s'.now ≤ p)
    rw [hnow]
    split
    · next h => exact .inr ⟨h, hearliest⟩
    · exact .inl rfl

/-- What is pending next can be delivered. -/
theorem timerKernel_delivers {s : TimerTable} {id : Timer} {t : U64}
    (hpending : timerKernel.pending s id = some t)
    (hearliest : ∀ id p, timerKernel.pending s id = some p → t ≤ p) :
    ∃ d s', timerKernel.deliver s d s' ∧ id ∈ d :=
  ⟨_, ⟨_, _⟩, ⟨t, hearliest, rfl, rfl, rfl⟩, hpending⟩

/-! ### The timers of a core. -/

def TimerState.table (s : TimerState σ) : TimerTable := ⟨s.now, s.core.timerEvents⟩

/-- **At one tick per ps** `notifyTicks` is the `notify` of `TimerStep`. -/
theorem notifyTicks_one (s : TimerState σ) (eventid : Timer) (timePs : U64) :
    notifyTicks timerKernel 1#64 eventid timePs s.table
      = ({ s with core := s.core.notify s.now eventid timePs } : TimerState σ).table := by
  unfold notifyTicks timeFromPs
  rw [BitVec.mul_one]
  rfl

/-- Where time has come to what is pending next, `fire` delivers it. -/
theorem deliver_of_fire {O : Ocx σ} {F : Set (List RegWrite)} {s u s' : TimerState σ}
    {now : U64} (hadvance : TimerStep O F s (.advance now) u)
    (hfire : TimerStep O F u .fire s') :
    timerKernel.deliver s.table { id | s'.runnable id = true } s'.table := by
  cases hadvance with
  | advance hlt _ hpending =>
      cases hfire with
      | fire _ =>
          refine ⟨now, hpending, ?_, (if_pos hlt).symm, rfl⟩
          exact Set.ext (fun id => decide_eq_true_iff)

/-- At the time 2000 a deadline of 1000 ps, with one tick per ps, is answered at once. -/
theorem fires_on_time_past :
    ∃ tr s, (timerKernel.runs
      (notifyTicks timerKernel 1#64 0 1000#64 ⟨2000#64, fun _ => none⟩)).Run tr s
      ∧ NotifiedOnce 0 2000 tr := by
  have hidle : timerKernel.pending ⟨2000#64, fun _ => none⟩ 0 = none := rfl
  have hpending := notifyTicks_pending timerKernel_laws hidle 1#64 1000#64
  obtain ⟨d, s', hdeliver, hid⟩ := timerKernel_delivers hpending (by
    intro id p hp
    have hp : Function.update (fun _ => none) 0 (some 1000#64) id = some p := hp
    rw [Function.update_apply] at hp
    split at hp
    · injection hp with hp
      rw [← hp]
      exact BitVec.le_refl _
    · cases hp)
  have hr := (Lts.Run.start (L := timerKernel.runs
    (notifyTicks timerKernel 1#64 0 1000#64 ⟨2000#64, fun _ => none⟩)) rfl).snoc
    (KernelStep.deliver hdeliver)
  rcases fires_on_time timerKernel timerKernel_laws 1#64 (by decide) hidle hr
    (by simp [KernelEvent.requests]) with h | ⟨hno, _⟩
  · exact ⟨_, _, hr, h⟩
  · -- the one step of the run notifies the timer
    exact absurd hid (hno _ (List.mem_singleton.mpr rfl))

end Avp64.Psp
