/-
  Avp64.Lib.WrappingClock — events on a clock of `w` bits.

  A kernel keeps the time and at most one pending notification for each event.  A request
  names a delay, which is added to the current time; the sum may wrap, so that what is
  pending is already past.  A notification is delivered when time has reached it, and time
  goes on only where nothing is pending for an earlier time.

    • `add_sub_self`         — a deadline survives its way through a delay,
    • `awaited_step`         — what is pending is delivered, or time has not passed it,
    • `delivered_or_awaited` — over any run without another request for the event.
-/
import Avp64.Lib.Transition
import Mathlib.Algebra.Ring.Nat
import Mathlib.Tactic.Common

namespace Avp64.Lib

variable {w : Nat}

/-- The delay to `t`, added to the current time, leads to `t`, past or not. -/
theorem add_sub_self (now t : BitVec w) : now + (t - now) = t := by
  rw [BitVec.add_comm, BitVec.sub_add_cancel]

/-! ## §1. The kernel. -/

/-- A kernel for the events `ι`, with the states `κ`. -/
structure EventKernel (κ ι : Type*) (w : Nat) where
  now : κ → BitVec w
  pending : κ → ι → Option (BitVec w)
  /-- A request for a notification after a delay. -/
  notify : ι → BitVec w → κ → κ
  cancel : ι → κ → κ
  /-- The kernel takes what is pending next and notifies the events of the set. -/
  deliver : κ → Set ι → κ → Prop
  /-- Whatever else happens, such as processes that run or other events. -/
  other : κ → κ → Prop

variable {κ ι : Type*}

/-- What a kernel does with its requests. -/
structure EventKernel.Laws (K : EventKernel κ ι w) : Prop where
  notify_idle : ∀ {s i}, K.pending s i = none → ∀ delay,
    K.pending (K.notify i delay s) i = some (K.now s + delay)
  notify_frame : ∀ {i j}, j ≠ i → ∀ delay s,
    K.pending (K.notify i delay s) j = K.pending s j
  notify_now : ∀ i delay s, K.now (K.notify i delay s) = K.now s
  cancel_frame : ∀ {i j}, j ≠ i → ∀ s, K.pending (K.cancel i s) j = K.pending s j
  cancel_now : ∀ i s, K.now (K.cancel i s) = K.now s
  other_pending : ∀ {s s'}, K.other s s' → K.pending s' = K.pending s
  other_now : ∀ {s s'}, K.other s s' → K.now s' = K.now s
  /-- Only what is due is delivered. -/
  due : ∀ {s d s'}, K.deliver s d s' → ∀ i ∈ d,
    ∃ t, K.pending s i = some t ∧ t ≤ K.now s'
  /-- What is delivered is no longer pending, -/
  taken : ∀ {s d s'}, K.deliver s d s' → ∀ i ∈ d, K.pending s' i = none
  /-- and everything else still is. -/
  kept : ∀ {s d s'}, K.deliver s d s' → ∀ i, i ∉ d → K.pending s' i = K.pending s i
  /-- Time stays, or goes on to what is pending next. -/
  time : ∀ {s d s'}, K.deliver s d s' → K.now s' = K.now s
    ∨ (K.now s < K.now s' ∧ ∀ i t, K.pending s i = some t → K.now s' ≤ t)

inductive KernelEvent (ι : Type*) (w : Nat) where
  | notify (i : ι) (delay : BitVec w)
  | cancel (i : ι)
  /-- The events `d` are notified at the time `now`. -/
  | deliver (now : BitVec w) (d : Set ι)
  | other

namespace KernelEvent

def requests (i : ι) : KernelEvent ι w → Prop
  | .notify j _ => j = i
  | .cancel j => j = i
  | _ => False

def notifies (i : ι) : KernelEvent ι w → Prop
  | .deliver _ d => i ∈ d
  | _ => False

end KernelEvent

inductive KernelStep (K : EventKernel κ ι w) : κ → KernelEvent ι w → κ → Prop
  | notify (s : κ) (i : ι) (delay : BitVec w) :
      KernelStep K s (.notify i delay) (K.notify i delay s)
  | cancel (s : κ) (i : ι) : KernelStep K s (.cancel i) (K.cancel i s)
  | deliver {s s' : κ} {d : Set ι} : K.deliver s d s' →
      KernelStep K s (.deliver (K.now s') d) s'
  | other {s s' : κ} : K.other s s' → KernelStep K s .other s'

/-- The kernel from the state `s₀` on. -/
def EventKernel.runs (K : EventKernel κ ι w) (s₀ : κ) : Lts κ (KernelEvent ι w) where
  init s := s = s₀
  step := KernelStep K

/-! ## §2. One request. -/

variable {K : EventKernel κ ι w} {s₀ s s' : κ} {i : ι} {t start : BitVec w}
  {e : KernelEvent ι w} {tr : List (κ × KernelEvent ι w)}

/-- The event `i` is pending for `t` since the time `start`, and time has passed neither
beyond `t` nor, if `t` was past already, at all. -/
structure Awaited (K : EventKernel κ ι w) (i : ι) (t start : BitVec w) (s : κ) : Prop where
  pending : K.pending s i = some t
  started : start.toNat ≤ (K.now s).toNat
  inTime : (K.now s).toNat ≤ max t.toNat start.toNat

/-- A step without a request for `i` is a delivery, or it leaves `i` and the time alone. -/
theorem deliver_or_frame (laws : K.Laws) (hst : KernelStep K s e s') (hquiet : ¬ e.requests i) :
    (∃ d, e = .deliver (K.now s') d ∧ K.deliver s d s')
    ∨ (¬ e.notifies i ∧ K.pending s' i = K.pending s i ∧ K.now s' = K.now s) := by
  cases hst with
  | notify j delay =>
      have hne : i ≠ j := fun heq => hquiet heq.symm
      exact .inr ⟨fun h => h, laws.notify_frame hne delay s, laws.notify_now j delay s⟩
  | cancel j =>
      have hne : i ≠ j := fun heq => hquiet heq.symm
      exact .inr ⟨fun h => h, laws.cancel_frame hne s, laws.cancel_now j s⟩
  | @deliver _ d hs => exact .inl ⟨d, rfl, hs⟩
  | other hs =>
      exact .inr ⟨fun h => h, congrFun (laws.other_pending hs) i, laws.other_now hs⟩

/-- **What is pending stays so, or is delivered**, at its time or at once. -/
theorem awaited_step (laws : K.Laws) (h : Awaited K i t start s) (hst : KernelStep K s e s')
    (hquiet : ¬ e.requests i) :
    (¬ e.notifies i ∧ Awaited K i t start s')
    ∨ (∃ now d, e = .deliver now d ∧ i ∈ d ∧ now.toNat = max t.toNat start.toNat
      ∧ K.pending s' i = none) := by
  obtain ⟨hpending, hstarted, hinTime⟩ := h
  rcases deliver_or_frame laws hst hquiet with ⟨d, rfl, hs⟩ | ⟨hno, hsame, hnow⟩
  · -- time went nowhere, or no further than `t`
    have hnow : start.toNat ≤ (K.now s').toNat
        ∧ (K.now s').toNat ≤ max t.toNat start.toNat := by
      rcases laws.time hs with heq | ⟨hlt, hle⟩
      · rw [heq]
        exact ⟨hstarted, hinTime⟩
      · have hle := BitVec.le_def.mp (hle i t hpending)
        have hlt := BitVec.lt_def.mp hlt
        exact ⟨by omega, by omega⟩
    by_cases hi : i ∈ d
    · -- it is due, so time has come to `t`
      obtain ⟨t', ht', hdue⟩ := laws.due hs i hi
      rw [hpending] at ht'
      injection ht' with ht'
      have hdue := BitVec.le_def.mp hdue
      rw [← ht'] at hdue
      exact .inr ⟨_, d, rfl, hi, by omega, laws.taken hs i hi⟩
    · exact .inl ⟨hi, (laws.kept hs i hi).trans hpending, hnow.1, hnow.2⟩
  · refine .inl ⟨hno, hsame.trans hpending, ?_, ?_⟩
    · rw [hnow]
      exact hstarted
    · rw [hnow]
      exact hinTime

/-- Without a request nothing is delivered. -/
theorem idle_step (laws : K.Laws) (h : K.pending s i = none) (hst : KernelStep K s e s')
    (hquiet : ¬ e.requests i) : ¬ e.notifies i ∧ K.pending s' i = none := by
  rcases deliver_or_frame laws hst hquiet with ⟨d, rfl, hs⟩ | ⟨hno, hsame, _⟩
  · have hi : i ∉ d := by
      intro hi
      obtain ⟨t, ht, _⟩ := laws.due hs i hi
      rw [h] at ht
      cases ht
    exact ⟨hi, (laws.kept hs i hi).trans h⟩
  · exact ⟨hno, hsame.trans h⟩

/-! ## §3. Runs. -/

/-- The event was notified once in the steps `tr`, at the time `at_`. -/
def NotifiedOnce (i : ι) (at_ : Nat) (tr : List (κ × KernelEvent ι w)) : Prop :=
  ∃ pre s now d suf, tr = pre ++ (s, .deliver now d) :: suf ∧ i ∈ d ∧ now.toNat = at_
    ∧ ∀ x ∈ pre ++ suf, ¬ x.2.notifies i

theorem NotifiedOnce.snoc {at_ : Nat} (h : NotifiedOnce i at_ tr) (he : ¬ e.notifies i) :
    NotifiedOnce i at_ (tr ++ [(s, e)]) := by
  obtain ⟨pre, u, now, d, suf, rfl, hi, hat, hno⟩ := h
  refine ⟨pre, u, now, d, suf ++ [(s, e)], by simp, hi, hat, ?_⟩
  intro x hx
  rw [← List.append_assoc] at hx
  rcases List.mem_append.mp hx with hx | hx
  · exact hno x hx
  · rw [List.mem_singleton.mp hx]
    exact he

/-- **A notification is delivered once, at its time or, if that is past, at once**; and
until then time does not go on beyond it. -/
theorem delivered_or_awaited (laws : K.Laws) (hpending : K.pending s₀ i = some t)
    (hr : (K.runs s₀).Run tr s) (hquiet : ∀ x ∈ tr, ¬ x.2.requests i) :
    (NotifiedOnce i (max t.toNat (K.now s₀).toNat) tr ∧ K.pending s i = none)
    ∨ ((∀ x ∈ tr, ¬ x.2.notifies i) ∧ Awaited K i t (K.now s₀) s) := by
  induction hr with
  | @start s h0 =>
      have h0 : s = s₀ := h0
      subst h0
      exact .inr ⟨by simp, hpending, Nat.le_refl _, Nat.le_max_right _ _⟩
  | @snoc tr s s' e _ hst ih =>
      have hq : ¬ e.requests i := hquiet (s, e) (by simp)
      rcases ih (fun x hx => hquiet x (List.mem_append_left _ hx)) with ⟨hdone, hidle⟩ | ⟨hno, h⟩
      · obtain ⟨he, hidle⟩ := idle_step laws hidle hst hq
        exact .inl ⟨hdone.snoc he, hidle⟩
      · rcases awaited_step laws h hst hq with ⟨he, h⟩ | ⟨now, d, rfl, hi, hat, hidle⟩
        · refine .inr ⟨?_, h⟩
          intro x hx
          rcases List.mem_append.mp hx with hx | hx
          · exact hno x hx
          · rw [List.mem_singleton.mp hx]
            exact he
        · refine .inl ⟨⟨tr, s, now, d, [], rfl, hi, hat, ?_⟩, hidle⟩
          rw [List.append_nil]
          exact hno

end Avp64.Lib
