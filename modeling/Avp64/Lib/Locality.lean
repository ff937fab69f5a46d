/-
  Avp64.Lib.Locality — systems whose state is spread over places.

  An event concerns some places and leaves the others alone, and what it does at a place
  depends on what is there only.  Then events at different places may be reordered: all
  that counts is the order of the calls at each place.

    • `Locality`        — what is relied on,
    • `Locality.run_eq` — runs with the same calls at a place agree there.
-/
import Avp64.Lib.Transition
import Mathlib.Data.List.Induction

namespace Avp64.Lib

variable {σ ε ℓ ω χ : Type*} {L : Lts σ ε}

/-! ## §1. Places. -/

/-- `at_ k s` is what the state `s` holds at the place `k`, and `call e` is the event
`e` without its results. -/
structure Locality (L : Lts σ ε) (ℓ ω χ : Type*) where
  at_ : ℓ → σ → ω
  call : ε → χ
  concerns : ℓ → χ → Bool
  init : ∀ {s t k}, L.init s → L.init t → at_ k s = at_ k t
  /-- The other places stay as they are. -/
  frame : ∀ {s e s' k}, L.Reachable s → L.step s e s' → concerns k (call e) = false →
    at_ k s' = at_ k s
  /-- The same call does the same, with the same results, where the place is the same. -/
  same : ∀ {s e s' t e' t' k}, L.Reachable s → L.Reachable t → L.step s e s' →
    L.step t e' t' → call e = call e' → concerns k (call e) = true → at_ k s = at_ k t →
    e = e' ∧ at_ k s' = at_ k t'

variable (D : Locality L ℓ ω χ)

/-- The events of a run that concern the place `k`. -/
def Locality.seen (k : ℓ) (tr : List (σ × ε)) : List ε :=
  (tr.map Prod.snd).filter (fun e => D.concerns k (D.call e))

variable {D} {k : ℓ} {tr tr' : List (σ × ε)} {s s' : σ}

theorem Locality.seen_snoc (e : ε) :
    D.seen k (tr ++ [(s, e)])
      = D.seen k tr ++ if D.concerns k (D.call e) then [e] else [] := by
  unfold Locality.seen
  rw [List.map_append, List.filter_append]
  simp [List.filter_cons]

/-! ## §2. One place in a run. -/

/-- A run without an event at the place leaves it as at the start. -/
theorem Locality.at_of_nil (hr : L.Run tr s) (h : D.seen k tr = []) :
    ∃ s₀, L.init s₀ ∧ D.at_ k s = D.at_ k s₀ := by
  induction hr with
  | start h0 => exact ⟨_, h0, rfl⟩
  | @snoc tr s s' e hr hst ih =>
      rw [D.seen_snoc, List.append_eq_nil_iff] at h
      obtain ⟨s₀, h0, heq⟩ := ih h.1
      have hno : D.concerns k (D.call e) = false := by
        by_contra hyes
        rw [if_pos (by simpa using hyes)] at h
        cases h.2
      exact ⟨s₀, h0, (D.frame ⟨tr, hr⟩ hst hno).trans heq⟩

/-- The last event at the place, and that nothing has happened there since. -/
theorem Locality.last_seen {l : List ε} {e : ε} (hr : L.Run tr s)
    (h : D.seen k tr = l ++ [e]) :
    ∃ tr₀ s₀ s₁, L.Run tr₀ s₀ ∧ L.step s₀ e s₁ ∧ D.concerns k (D.call e) = true
      ∧ D.seen k tr₀ = l ∧ D.at_ k s = D.at_ k s₁ := by
  induction hr with
  | start h0 => cases l <;> cases h
  | @snoc tr s s' e' hr hst ih =>
      rw [D.seen_snoc] at h
      by_cases hc : D.concerns k (D.call e') = true
      · rw [if_pos hc] at h
        obtain ⟨hl, he⟩ := List.append_inj' h rfl
        injection he with he
        subst he
        exact ⟨tr, s, s', hr, hst, hc, hl, rfl⟩
      · rw [if_neg hc, List.append_nil] at h
        obtain ⟨tr₀, s₀, s₁, hr₀, hst₀, hc₀, hl, heq⟩ := ih h
        exact ⟨tr₀, s₀, s₁, hr₀, hst₀, hc₀, hl,
          (D.frame ⟨tr, hr⟩ hst (by simpa using hc)).trans heq⟩

/-- **Runs with the same calls at a place agree there**, and the calls have had the same
results. -/
theorem Locality.run_eq (hr : L.Run tr s) (hr' : L.Run tr' s')
    (h : (D.seen k tr).map D.call = (D.seen k tr').map D.call) :
    D.at_ k s = D.at_ k s' ∧ D.seen k tr = D.seen k tr' := by
  -- by induction on the events at the place, the last one first
  generalize hl : D.seen k tr = l
  induction l using List.reverseRecOn generalizing tr s tr' s' with
  | nil =>
      rw [hl, List.map_nil, eq_comm, List.map_eq_nil_iff] at h
      obtain ⟨s₀, h0, heq⟩ := D.at_of_nil hr hl
      obtain ⟨s₀', h0', heq'⟩ := D.at_of_nil hr' h
      exact ⟨heq.trans ((D.init h0 h0').trans heq'.symm), h.symm⟩
  | append_singleton l e ih =>
      rw [hl, List.map_append, eq_comm] at h
      obtain ⟨l', last, hl', hmap, hlast⟩ := List.map_eq_append_iff.mp h
      obtain ⟨e', rest, rfl, he', hrest⟩ := List.map_eq_cons_iff.mp hlast
      obtain rfl := List.map_eq_nil_iff.mp hrest
      obtain ⟨tr₀, s₀, s₁, hr₀, hst₀, hc₀, hseen, heq⟩ := D.last_seen hr hl
      obtain ⟨tr₀', s₀', s₁', hr₀', hst₀', _, hseen', heq'⟩ := D.last_seen hr' hl'
      have hcalls : (D.seen k tr₀).map D.call = (D.seen k tr₀').map D.call := by
        rw [hseen, hseen', hmap]
      obtain ⟨hat, hl₀⟩ := ih hr₀ hr₀' hcalls hseen
      obtain ⟨hev, hat'⟩ :=
        D.same ⟨tr₀, hr₀⟩ ⟨tr₀', hr₀'⟩ hst₀ hst₀' he'.symm hc₀ hat
      exact ⟨heq.trans (hat'.trans heq'.symm), by rw [hl', ← hseen', ← hl₀, hev]⟩

end Avp64.Lib
