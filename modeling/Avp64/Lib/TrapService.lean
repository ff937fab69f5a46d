/-
  Avp64.Lib.TrapService — what a write-trap service is for.

  A service watches places (pages, lines, registers) for its users.  A user arms
  a tag at a place; the next access to the place must be trapped and must report
  every tag armed there, after which the place is quiet again until somebody arms
  a tag anew.  Tags can be disarmed in sets.  A service may trap or report more
  than it has to, never less.

  The state is the set of armed pairs, over arbitrary places `π` and tags `τ`.
-/
import Avp64.Lib.Transition
import Mathlib.Data.Set.Insert

namespace Avp64.Lib

variable {π τ : Type*}

/-! ## §1. The service. -/

inductive TrapEvent (π τ : Type*) where
  /-- Arm the tag `t` at the place `x`. -/
  | arm (x : π) (t : τ)
  /-- Disarm a set of tags, wherever they are armed. -/
  | disarm (D : Set τ)
  /-- An access to `x`; `reported = none` says that it was not trapped. -/
  | hit (x : π) (reported : Option (Set τ))
  | idle

/-- The event ends the watch for the tag `t` at the place `x`. -/
def TrapEvent.clears (x : π) (t : τ) : TrapEvent π τ → Prop
  | .disarm D => t ∈ D
  | .hit y _ => y = x
  | _ => False

inductive TrapStep : Set (π × τ) → TrapEvent π τ → Set (π × τ) → Prop
  | arm (A : Set (π × τ)) (x : π) (t : τ) : TrapStep A (.arm x t) (insert (x, t) A)
  | disarm (A : Set (π × τ)) (D : Set τ) :
      TrapStep A (.disarm D) { y ∈ A | y.2 ∉ D }
  | hit (A : Set (π × τ)) (x : π) (reported : Option (Set τ)) :
      (∀ t, (x, t) ∈ A → ∃ R ∈ reported, t ∈ R) →
      TrapStep A (.hit x reported) { y ∈ A | y.1 ≠ x }
  | idle (A : Set (π × τ)) : TrapStep A .idle A

def trapService (π τ : Type*) : Lts (Set (π × τ)) (TrapEvent π τ) where
  init A := A = ∅
  step := TrapStep

/-! ## §2. The armed tags are those of the history. -/

/-- One event changes the membership of a pair as its name says. -/
theorem mem_of_trapStep {A A' : Set (π × τ)} {e : TrapEvent π τ}
    (h : TrapStep A e A') (x : π) (t : τ) :
    (x, t) ∈ A' ↔ e = .arm x t ∨ ((x, t) ∈ A ∧ ¬ e.clears x t) := by
  cases h with
  | arm y u => simp [TrapEvent.clears, Set.mem_insert_iff, eq_comm]
  | disarm D => simp [TrapEvent.clears]
  | hit y R _ => simp [TrapEvent.clears, eq_comm]
  | idle => simp [TrapEvent.clears]

/-- **A tag is armed at a place exactly when it was armed there and nothing has
cleared it since.** -/
theorem trapService_mem_iff {tr : List (Set (π × τ) × TrapEvent π τ)}
    {A : Set (π × τ)} (h : (trapService π τ).Run tr A) (x : π) (t : τ) :
    (x, t) ∈ A ↔
      Since (fun e => e = .arm x t) (TrapEvent.clears x t) (tr.map Prod.snd) := by
  induction h with
  | start h0 =>
      rw [show _ = (∅ : Set (π × τ)) from h0]
      simp [not_since_nil]
  | snoc _ hst ih =>
      rw [List.map_append, List.map_singleton, since_snoc, ← ih]
      exact mem_of_trapStep hst x t

end Avp64.Lib
