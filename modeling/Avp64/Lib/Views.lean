/-
  Avp64.Lib.Views — views of a mapping that changes.

  Several holders remember entries of a mapping and use them without asking again.  They
  learn entries from the mapping or from each other.  Where the mapping changes, all of
  them forget first what they remember there.

    • `Sound`            — all that is remembered is in force,
    • `sound_of_reachable` — at any time.
-/
import Avp64.Lib.Transition

namespace Avp64.Lib

variable {ι α β : Type*}

/-- A mapping, and what each holder remembers of it. -/
structure Viewed (ι α β : Type*) where
  mapping : α → Option β
  view : ι → Set (α × β)

inductive ViewEvent (α : Type*) where
  | learn
  /-- The mapping may change in `S`. -/
  | remap (S : Set α)

inductive ViewStep : Viewed ι α β → ViewEvent α → Viewed ι α β → Prop
  /-- What is new in a view is taken from another one or from the mapping. -/
  | learn (s : Viewed ι α β) {view : ι → Set (α × β)} :
      (∀ i x, x ∈ view i → (∃ j, x ∈ s.view j) ∨ s.mapping x.1 = some x.2) →
      ViewStep s .learn ⟨s.mapping, view⟩
  | remap (s : Viewed ι α β) {S : Set α} {mapping : α → Option β}
      {view : ι → Set (α × β)} :
      (∀ a, a ∉ S → mapping a = s.mapping a) →
      (∀ i x, x ∈ view i → x ∈ s.view i ∧ x.1 ∉ S) →
      ViewStep s (.remap S) ⟨mapping, view⟩

/-- Nobody remembers anything at the start. -/
def viewed (ι α β : Type*) : Lts (Viewed ι α β) (ViewEvent α) where
  init s := ∀ i, s.view i = ∅
  step := ViewStep

/-- Everything that is remembered is in force. -/
def Sound (s : Viewed ι α β) : Prop :=
  ∀ i x, x ∈ s.view i → s.mapping x.1 = some x.2

theorem sound_step {s s' : Viewed ι α β} {e : ViewEvent α} (h : Sound s)
    (hst : ViewStep s e s') : Sound s' := by
  cases hst with
  | learn hview =>
      intro i x hx
      rcases hview i x hx with ⟨j, hold⟩ | hnew
      · exact h j x hold
      · exact hnew
  | remap hmap hview =>
      intro i x hx
      obtain ⟨hold, hout⟩ := hview i x hx
      -- what is still remembered lies where nothing has changed
      exact (hmap x.1 hout).trans (h i x hold)

/-- **What is remembered is in force**, at any time. -/
theorem sound_of_reachable {s : Viewed ι α β} (hr : (viewed ι α β).Reachable s) : Sound s := by
  refine hr.invariant ?_ ?_
  · intro s h0 i x hx
    rw [h0 i] at hx
    exact hx.elim
  · intro s e s' h hst
    exact sound_step h hst

end Avp64.Lib
