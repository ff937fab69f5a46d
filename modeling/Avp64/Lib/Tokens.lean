/-
  Avp64.Lib.Tokens — steps that use up what other steps have paid for.

  For each kind `k` a state has a token or has none.  A step that uses `k` takes the
  token, and only a payment for `k` puts one there.  So no run uses a kind more often
  than it has paid for it, and the price of all uses together is bounded by the number
  of payments.

    • `Lts.Run.uses_subperm` — every use has a payment of its own,
    • `sum_map_le_uses`      — a price for each use.
-/
import Mathlib.Algebra.GroupWithZero.Nat
import Mathlib.Data.List.Perm.Subperm
import Avp64.Lib.Transition

namespace Avp64.Lib

variable {σ ε κ α : Type*} {L : Lts σ ε}

/-- The tokens of `L`; `use s e` and `pay s e` are the kinds that a step uses and pays
for. -/
structure Lts.Tokens (L : Lts σ ε) (κ : Type*) where
  token : κ → σ → Prop
  use : σ → ε → Option κ
  pay : σ → ε → Option κ
  init : ∀ s, L.init s → ∀ k, ¬ token k s
  used : ∀ s e s' k, L.Reachable s → L.step s e s' → use s e = some k → token k s
  left : ∀ s e s' k, L.Reachable s → L.step s e s' → token k s' →
    pay s e = some k ∨ (token k s ∧ use s e ≠ some k)

namespace Lts.Tokens

variable (T : L.Tokens κ)

def uses (tr : List (σ × ε)) : List κ := tr.filterMap (fun x => T.use x.1 x.2)

def payments (tr : List (σ × ε)) : List κ := tr.filterMap (fun x => T.pay x.1 x.2)

end Lts.Tokens

theorem count_filterMap_snoc [DecidableEq κ] (f : α → Option κ) (l : List α) (x : α) (k : κ) :
    ((l ++ [x]).filterMap f).count k
      = (l.filterMap f).count k + if f x = some k then 1 else 0 := by
  rw [List.filterMap_append, List.count_append]
  congr 1
  cases hx : f x with
  | none => simp [hx]
  | some k' => simp [hx, List.count_singleton]

/-- **A token that is still there is a payment that was not used.** -/
theorem Lts.Run.count_uses [DecidableEq κ] (T : L.Tokens κ) {tr : List (σ × ε)} {s : σ}
    (h : L.Run tr s) (k : κ) :
    (T.uses tr).count k ≤ (T.payments tr).count k
      ∧ (T.token k s → (T.uses tr).count k + 1 ≤ (T.payments tr).count k) := by
  induction h with
  | start hi => exact ⟨Nat.le_refl _, fun ht => absurd ht (T.init _ hi k)⟩
  | @snoc tr s s' e hr hst ih =>
      obtain ⟨ihle, ihtoken⟩ := ih
      have huses : (T.uses (tr ++ [(s, e)])).count k
          = (T.uses tr).count k + if T.use s e = some k then 1 else 0 :=
        count_filterMap_snoc _ tr (s, e) k
      have hpays : (T.payments (tr ++ [(s, e)])).count k
          = (T.payments tr).count k + if T.pay s e = some k then 1 else 0 :=
        count_filterMap_snoc _ tr (s, e) k
      rw [huses, hpays]
      by_cases huse : T.use s e = some k
      · -- the token that is used was there
        have hpaid := ihtoken (T.used s e s' k ⟨tr, hr⟩ hst huse)
        rw [if_pos huse]
        refine ⟨by omega, ?_⟩
        intro ht
        rcases T.left s e s' k ⟨tr, hr⟩ hst ht with hpay | ⟨_, hnot⟩
        · rw [if_pos hpay]
          omega
        · exact absurd huse hnot
      · rw [if_neg huse]
        refine ⟨by omega, ?_⟩
        intro ht
        rcases T.left s e s' k ⟨tr, hr⟩ hst ht with hpay | ⟨hold, _⟩
        · rw [if_pos hpay]
          omega
        · have hpaid := ihtoken hold
          omega

/-- **Every use has a payment of its own**, for the same kind. -/
theorem Lts.Run.uses_subperm [DecidableEq κ] (T : L.Tokens κ) {tr : List (σ × ε)} {s : σ}
    (h : L.Run tr s) : (T.uses tr).Subperm (T.payments tr) :=
  List.subperm_iff_count.mpr (fun k => (h.count_uses T k).1)

/-- What costs at most `b` for each use, and nothing else. -/
theorem sum_map_le_uses (f : α → Nat) (use : α → Option κ) (b : Nat) :
    ∀ l : List α, (∀ x ∈ l, f x ≤ if (use x).isSome then b else 0) →
      (l.map f).sum ≤ b * (l.filterMap use).length := by
  intro l
  induction l with
  | nil => intro _; simp
  | cons x l ih =>
      intro hall
      have hx := hall x List.mem_cons_self
      have hrest := ih (fun y hy => hall y (List.mem_cons_of_mem x hy))
      rw [List.map_cons, List.sum_cons]
      cases hu : use x with
      | none =>
          rw [hu] at hx
          rw [List.filterMap_cons_none hu]
          have hzero : f x ≤ 0 := hx
          omega
      | some k =>
          rw [hu] at hx
          rw [List.filterMap_cons_some hu, List.length_cons, Nat.mul_succ]
          have hb : f x ≤ b := hx
          omega

end Avp64.Lib
