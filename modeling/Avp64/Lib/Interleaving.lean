/-
  Avp64.Lib.Interleaving — a family of transition systems side by side.

  A step of the family is a step of one member; the others stay as they are.

    • `Run.member` — a run of the family is, for each member, a run of that member.
-/
import Avp64.Lib.Transition

namespace Avp64.Lib

variable {ι σ ε : Type*} [DecidableEq ι]

/-- The members of `L`, each with a state of its own, in any order of their steps. -/
def Lts.family (L : ι → Lts σ ε) : Lts (ι → σ) (ι × ε) where
  init s := ∀ i, (L i).init (s i)
  step s e s' := ∃ t, (L e.1).step (s e.1) e.2 t ∧ s' = Function.update s e.1 t

/-- The steps of the member `i`. -/
def project (i : ι) (tr : List ((ι → σ) × (ι × ε))) : List (σ × ε) :=
  tr.filterMap (fun x => if x.2.1 = i then some (x.1 i, x.2.2) else none)

theorem project_append (i : ι) (tr tr' : List ((ι → σ) × (ι × ε))) :
    project i (tr ++ tr') = project i tr ++ project i tr' :=
  List.filterMap_append

variable {L : ι → Lts σ ε}

theorem Lts.Run.snoc_member {tr : List ((ι → σ) × (ι × ε))} {s : ι → σ}
    (h : (Lts.family L).Run tr s) (i : ι) {e : ε} {t : σ} (hst : (L i).step (s i) e t) :
    (Lts.family L).Run (tr ++ [(s, (i, e))]) (Function.update s i t) :=
  h.snoc ⟨t, hst, rfl⟩

/-- **A run of the family, seen by one member.** -/
theorem Lts.Run.member {tr : List ((ι → σ) × (ι × ε))} {s : ι → σ}
    (h : (Lts.family L).Run tr s) (i : ι) : (L i).Run (project i tr) (s i) := by
  induction h with
  | start h0 => exact .start (h0 i)
  | @snoc tr s s' e hr hst ih =>
      obtain ⟨t, hst, rfl⟩ := hst
      rw [project_append]
      by_cases heq : e.1 = i
      · -- a step of the member itself
        have hlast : project i [(s, e)] = [(s i, e.2)] := by
          simp [project, heq]
        subst heq
        rw [hlast, Function.update_self]
        exact ih.snoc hst
      · have hlast : project i [(s, e)] = [] := by
          simp [project, heq]
        rw [hlast, List.append_nil, Function.update_of_ne (Ne.symm heq)]
        exact ih

end Avp64.Lib
