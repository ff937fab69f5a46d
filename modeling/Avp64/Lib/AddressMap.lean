/-
  Avp64.Lib.AddressMap — the decoding of accesses by windows.

  A router knows a list of windows and sends an access to one that includes it, at its
  address relative to the window, and every other access to a default target, if it has
  one.  Which window, if there are several, is its own affair; where the windows are
  pairwise disjoint, there is no choice, and the order of the list does not matter.

    • `Span.Disjoint.not_includes` — an access lies in one of two disjoint windows only,
    • `Decoder.route_iff`          — what a decoder does with disjoint windows.
-/
import Mathlib.Data.List.Pairwise

namespace Avp64.Lib

/-! ## §1. Windows. -/

/-- The addresses from `lo` to `hi`, both included. -/
structure Span (α : Type*) where
  lo : α
  hi : α
  deriving DecidableEq, Repr

namespace Span

variable {α : Type*}

def Includes [LE α] (s acc : Span α) : Prop := s.lo ≤ acc.lo ∧ acc.hi ≤ s.hi

def Disjoint [LT α] (s t : Span α) : Prop := s.hi < t.lo ∨ t.hi < s.lo

instance [LE α] [DecidableLE α] (s t : Span α) : Decidable (s.Includes t) :=
  inferInstanceAs (Decidable (_ ∧ _))

instance [LT α] [DecidableLT α] (s t : Span α) : Decidable (s.Disjoint t) :=
  inferInstanceAs (Decidable (_ ∨ _))

theorem Disjoint.symm [LT α] {s t : Span α} (h : s.Disjoint t) : t.Disjoint s := Or.symm h

variable [LE α] [LT α] [Std.IsLinearOrder α] [Std.LawfulOrderLT α] {s t acc : Span α}

/-- A non-empty access that lies in `s` begins before everything beyond `s`. -/
theorem Includes.not_beyond (hs : s.Includes acc) (hacc : acc.lo ≤ acc.hi)
    (ht : t.Includes acc) : ¬ s.hi < t.lo := by
  intro hlt
  have hlo : s.hi < acc.lo := Std.lt_of_lt_of_le hlt ht.1
  exact Std.not_lt.mpr (Std.le_trans hacc hs.2) hlo

/-- A non-empty access does not lie in two disjoint windows. -/
theorem Disjoint.not_includes (h : s.Disjoint t) (hacc : acc.lo ≤ acc.hi)
    (hs : s.Includes acc) : ¬ t.Includes acc := by
  intro ht
  rcases h with h | h
  · exact hs.not_beyond hacc ht h
  · exact ht.not_beyond hacc hs h

end Span

/-! ## §2. Decoders. -/

/-- A decoder takes the windows, the default target and an access, and gives the target of
the access and the address there. -/
structure Decoder (α δ : Type*) [LE α] [Sub α] where
  route : List (Span α × δ) → Option δ → Span α → Option (δ × α)
  /-- Where a window includes the access, it goes to such a window, at the address relative
  to it. -/
  hit : ∀ {ws dflt acc w}, w ∈ ws → w.1.Includes acc →
    ∃ w' ∈ ws, w'.1.Includes acc ∧ route ws dflt acc = some (w'.2, acc.lo - w'.1.lo)
  /-- Everywhere else it goes to the default target, at the same address. -/
  miss : ∀ {ws dflt acc}, (∀ w ∈ ws, ¬ w.1.Includes acc) →
    route ws dflt acc = dflt.map (fun d => (d, acc.lo))

section

variable {α δ : Type*} [LT α]

def WindowsDisjoint (w w' : Span α × δ) : Prop := w.1.Disjoint w'.1

instance [DecidableLT α] (w w' : Span α × δ) : Decidable (WindowsDisjoint w w') :=
  inferInstanceAs (Decidable (w.1.Disjoint w'.1))

instance : Std.Symm (@WindowsDisjoint α δ _) := ⟨fun _ _ h => Span.Disjoint.symm h⟩

/-- No two windows of the list meet. -/
def Apart (ws : List (Span α × δ)) : Prop := ws.Pairwise WindowsDisjoint

instance [DecidableLT α] (ws : List (Span α × δ)) : Decidable (Apart ws) :=
  inferInstanceAs (Decidable (ws.Pairwise WindowsDisjoint))

end

variable {α δ : Type*} [LE α] [LT α] [Std.IsLinearOrder α] [Std.LawfulOrderLT α] [Sub α]
  {ws : List (Span α × δ)} {dflt : Option δ} {acc : Span α} {w w' : Span α × δ}

omit [Sub α] in
theorem Apart.eq_of_includes (h : Apart ws) (hacc : acc.lo ≤ acc.hi) (hw : w ∈ ws)
    (hw' : w' ∈ ws) (hin : w.1.Includes acc) (hin' : w'.1.Includes acc) : w = w' := by
  by_contra hne
  have hd : WindowsDisjoint w w' := List.Pairwise.forall h hw hw' hne
  exact Span.Disjoint.not_includes hd hacc hin hin'

/-- **Disjoint windows leave no choice.** -/
theorem Decoder.route_of_includes (D : Decoder α δ) (h : Apart ws) (hacc : acc.lo ≤ acc.hi)
    (hw : w ∈ ws) (hin : w.1.Includes acc) :
    D.route ws dflt acc = some (w.2, acc.lo - w.1.lo) := by
  obtain ⟨w', hw', hin', heq⟩ := @Decoder.hit α δ _ _ D ws dflt acc w hw hin
  rw [heq, h.eq_of_includes hacc hw hw' hin hin']

/-- Where an access goes. -/
theorem Decoder.route_iff (D : Decoder α δ) (h : Apart ws) (hacc : acc.lo ≤ acc.hi)
    {d : δ} {o : α} :
    D.route ws dflt acc = some (d, o)
      ↔ (∃ s, (s, d) ∈ ws ∧ s.Includes acc ∧ o = acc.lo - s.lo)
        ∨ ((∀ w ∈ ws, ¬ w.1.Includes acc) ∧ dflt = some d ∧ o = acc.lo) := by
  by_cases hex : ∃ w ∈ ws, w.1.Includes acc
  · obtain ⟨w, hw, hin⟩ := hex
    rw [D.route_of_includes h hacc hw hin]
    constructor
    · intro heq
      injection heq with heq
      obtain ⟨rfl, rfl⟩ := Prod.mk.inj heq
      exact .inl ⟨w.1, hw, hin, rfl⟩
    · rintro (⟨s, hs, hin', rfl⟩ | ⟨hno, _⟩)
      · rw [h.eq_of_includes hacc hw hs hin hin']
      · exact absurd hin (hno w hw)
  · have hno : ∀ w ∈ ws, ¬ w.1.Includes acc := fun w hw hin => hex ⟨w, hw, hin⟩
    rw [D.miss hno, Option.map_eq_some_iff]
    constructor
    · rintro ⟨d', hd, heq⟩
      obtain ⟨rfl, rfl⟩ := Prod.mk.inj heq
      exact .inr ⟨hno, hd, rfl⟩
    · rintro (⟨s, hs, hin, _⟩ | ⟨_, hd, rfl⟩)
      · exact absurd hin (hno _ hs)
      · exact ⟨d, hd, rfl⟩

/-- The decoder that takes the first window of the list. -/
def firstDecoder (α δ : Type*) [LE α] [DecidableLE α] [Sub α] : Decoder α δ where
  route ws dflt acc :=
    match ws.find? (fun w => decide (w.1.Includes acc)) with
    | some w => some (w.2, acc.lo - w.1.lo)
    | none => dflt.map (fun d => (d, acc.lo))
  hit := by
    intro ws dflt acc w hw hin
    cases hf : ws.find? (fun w => decide (w.1.Includes acc)) with
    | none => exact absurd (decide_eq_true hin) (List.find?_eq_none.mp hf w hw)
    | some w' =>
        exact ⟨w', List.mem_of_find?_eq_some hf, by simpa using List.find?_some hf, rfl⟩
  miss := by
    intro ws dflt acc hno
    have hf : ws.find? (fun w => decide (w.1.Includes acc)) = none :=
      List.find?_eq_none.mpr (fun w hw h => hno w hw (by simpa using h))
    rw [hf]

end Avp64.Lib
