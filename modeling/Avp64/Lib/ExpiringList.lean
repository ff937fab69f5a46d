/-
  Avp64.Lib.ExpiringList — a list of weak references, erased while it is iterated.

  The owner of such a list visits the references in order.  One that has expired is
  erased; one that has not is visited, and kept.  `visitLive` is that loop; a visit
  may change the state, log what it does, and be undefined.

    • `visitLive_spec`   — visits that keep each other's references alive visit each
                           live reference once, in order, and erase exactly the others,
    • `visitLive_logged` — what relates the states of a visit by its log, relates
                           those of the loop.
-/
import Mathlib.Data.List.Basic

namespace Avp64.Lib

universe u

variable {α σ ε : Type u}

/-! ## §1. The loop. -/

/-- The log of the visits, the references that are kept, and the state. -/
def visitLive (live : σ → α → Bool) (visit : α → σ → Option (List ε × σ)) :
    List α → σ → Option (List ε × List α × σ)
  | [], s => some ([], [], s)
  | x :: xs, s =>
      if live s x then do
        let (log, s) ← visit x s
        let (log', kept, s) ← visitLive live visit xs s
        pure (log ++ log', x :: kept, s)
      else visitLive live visit xs s

/-! ## §2. What it visits and what it keeps. -/

/-- Between `s` and `s'` lie visits only: `out s x` is what a visit of `x` logs, and
`ready s x` says that it is defined. -/
structure VisitLaws (live ready : σ → α → Bool) (out : σ → α → List ε)
    (visit : α → σ → Option (List ε × σ)) (R : σ → σ → Prop) : Prop where
  refl : ∀ s, R s s
  trans : ∀ {s₁ s₂ s₃}, R s₁ s₂ → R s₂ s₃ → R s₁ s₃
  live_eq : ∀ {s s'}, R s s' → ∀ x, live s' x = live s x
  ready_eq : ∀ {s s'}, R s s' → ∀ x, ready s' x = ready s x
  out_eq : ∀ {s s'}, R s s' → ∀ x, out s' x = out s x
  visit : ∀ {s x}, ready s x = true → ∃ s', visit x s = some (out s x, s') ∧ R s s'

variable {live ready : σ → α → Bool} {out : σ → α → List ε}
  {visit : α → σ → Option (List ε × σ)} {R : σ → σ → Prop}

/-- **Each live reference is visited once, in order, and exactly the others are
erased.** -/
theorem visitLive_spec (laws : VisitLaws live ready out visit R) :
    ∀ (l : List α) (s : σ), (∀ x ∈ l, live s x = true → ready s x = true) →
      ∃ s', visitLive live visit l s
          = some ((l.filter (live s)).flatMap (out s), l.filter (live s), s') ∧ R s s' := by
  intro l
  induction l with
  | nil => intro s _; exact ⟨s, rfl, laws.refl s⟩
  | cons x xs ih =>
      intro s hready
      have hrest := fun y hy => hready y (List.mem_cons_of_mem _ hy)
      unfold visitLive
      cases hx : live s x with
      | false =>
          obtain ⟨s', heq, hR⟩ := ih s hrest
          refine ⟨s', ?_, hR⟩
          rw [if_neg (by simp), heq, List.filter_cons_of_neg (by simp [hx])]
      | true =>
          obtain ⟨s₁, h₁, hR₁⟩ := laws.visit (hready x List.mem_cons_self hx)
          -- the visit changes nothing the rest of the loop looks at
          have hlive : live s₁ = live s := funext (laws.live_eq hR₁)
          have hout : out s₁ = out s := funext (laws.out_eq hR₁)
          obtain ⟨s₂, h₂, hR₂⟩ := ih s₁ (fun y hy hl => by
            rw [laws.ready_eq hR₁]
            rw [hlive] at hl
            exact hrest y hy hl)
          rw [hlive, hout] at h₂
          refine ⟨s₂, ?_, laws.trans hR₁ hR₂⟩
          rw [if_pos rfl, List.filter_cons_of_pos hx, List.flatMap_cons]
          simp only [h₁, h₂, Option.bind_eq_bind, Option.bind_some]
          rfl

/-- **The loop does what its log says**, if every visit does. -/
theorem visitLive_logged {T : List ε → σ → σ → Prop} (nil : ∀ s, T [] s s)
    (append : ∀ {log log' s₁ s₂ s₃}, T log s₁ s₂ → T log' s₂ s₃ → T (log ++ log') s₁ s₃)
    (hvisit : ∀ {x s log s'}, visit x s = some (log, s') → T log s s') :
    ∀ (l : List α) (s : σ) {log : List ε} {kept : List α} {s' : σ},
      visitLive live visit l s = some (log, kept, s') → T log s s' := by
  intro l
  induction l with
  | nil =>
      intro s log kept s' h
      simp only [visitLive, Option.some.injEq, Prod.mk.injEq] at h
      obtain ⟨rfl, _, rfl⟩ := h
      exact nil s
  | cons x xs ih =>
      intro s log kept s' h
      unfold visitLive at h
      split at h
      · simp only [Option.bind_eq_bind, Option.bind_eq_some_iff] at h
        obtain ⟨⟨log₁, s₁⟩, h₁, ⟨log₂, kept₂, s₂⟩, h₂, heq⟩ := h
        simp only [Option.pure_def, Option.some.injEq, Prod.mk.injEq] at heq
        obtain ⟨rfl, _, rfl⟩ := heq
        exact append (hvisit h₁) (ih s₁ h₂)
      · exact ih s h

end Avp64.Lib
