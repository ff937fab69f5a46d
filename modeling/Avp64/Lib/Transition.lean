/-
  Avp64.Lib.Transition — labelled transition systems, their finite runs, and the
  rules by which a fact about one step becomes a fact about every run.

  A run is recorded as the list of its steps, each with the state it started
  from, so a statement can speak about what happened "since" an event and about
  every state visited on the way.

    • `Run.invariant`      — an inductive invariant holds in every reachable state,
    • `Run.of_since`       — what an event establishes and every later step keeps,
    • `Run.since_iff`      — and what holds at no other time,
    • `Run.exists_between` — what must have happened before it was lost,
    • `Run.always_iff`     — if one step keeps a property exactly when it meets a
                             condition, a run keeps it throughout exactly when all
                             of its steps meet the condition,
    • `Run.simulate`       — forward simulation,
    • `Run.map`            — and its special case of a function on states.
-/
import Mathlib.Data.List.Basic
import Mathlib.Data.Set.Basic

namespace Avp64.Lib

variable {σ ε α β : Type*}

/-! ## §1. Systems, runs, reachable states. -/

/-- A labelled transition system over states `σ` and events `ε`. -/
structure Lts (σ ε : Type*) where
  init : σ → Prop
  step : σ → ε → σ → Prop

/-- The finite runs, oldest step first: `L.Run tr s` ends in `s`, and `(t, e) ∈ tr`
says that the run took the event `e` in the state `t`. -/
inductive Lts.Run (L : Lts σ ε) : List (σ × ε) → σ → Prop
  | start {s : σ} : L.init s → L.Run [] s
  | snoc {tr : List (σ × ε)} {s s' : σ} {e : ε} :
      L.Run tr s → L.step s e s' → L.Run (tr ++ [(s, e)]) s'

def Lts.Reachable (L : Lts σ ε) (s : σ) : Prop := ∃ tr, L.Run tr s

variable {L : Lts σ ε}

theorem Lts.Reachable.init {s : σ} (h : L.init s) : L.Reachable s :=
  ⟨[], .start h⟩

theorem Lts.Reachable.step {s s' : σ} {e : ε} (h : L.Reachable s)
    (hs : L.step s e s') : L.Reachable s' := by
  obtain ⟨tr, hr⟩ := h
  exact ⟨tr ++ [(s, e)], hr.snoc hs⟩

/-- **The invariant rule.** -/
theorem Lts.Reachable.invariant {I : σ → Prop} (h0 : ∀ s, L.init s → I s)
    (hs : ∀ s e s', I s → L.step s e s' → I s') {s : σ} (h : L.Reachable s) :
    I s := by
  obtain ⟨tr, hr⟩ := h
  induction hr with
  | start hi => exact h0 _ hi
  | snoc _ hst ih => exact hs _ _ _ ih hst

/-- Every step of a run was taken in a state the steps before it reach. -/
theorem Lts.Run.split {tr : List (σ × ε)} {s : σ} (h : L.Run tr s) :
    ∀ {pre t e suf}, tr = pre ++ (t, e) :: suf →
      L.Run pre t ∧ ∃ t', L.step t e t' ∧ L.Run (pre ++ [(t, e)]) t' := by
  induction h with
  | start _ => intro pre t e suf heq; simp at heq
  | @snoc tr s s' e hr hst ih =>
      intro pre t e' suf heq
      rcases List.eq_nil_or_concat suf with rfl | ⟨suf', x, rfl⟩
      · obtain ⟨rfl, hx⟩ := List.append_inj' heq rfl
        simp only [List.cons.injEq, Prod.mk.injEq, and_true] at hx
        obtain ⟨rfl, rfl⟩ := hx
        exact ⟨hr, s', hst, hr.snoc hst⟩
      · rw [List.concat_eq_append, ← List.cons_append, ← List.append_assoc] at heq
        exact ih (List.append_inj' heq rfl).1

theorem Lts.Run.step_of_mem {tr : List (σ × ε)} {s : σ} (h : L.Run tr s)
    {x : σ × ε} (hx : x ∈ tr) : L.Reachable x.1 ∧ ∃ t', L.step x.1 x.2 t' := by
  obtain ⟨pre, suf, heq⟩ := List.append_of_mem hx
  obtain ⟨hpre, t', hst, _⟩ := h.split (t := x.1) (e := x.2) heq
  exact ⟨⟨pre, hpre⟩, t', hst⟩

/-! ### Restricting the events. -/

/-- The system that only takes the steps whose event satisfies `P`. -/
def Lts.restrict (L : Lts σ ε) (P : ε → Prop) : Lts σ ε where
  init := L.init
  step s e s' := L.step s e s' ∧ P e

theorem Lts.Run.restrict {P : ε → Prop} {tr : List (σ × ε)} {s : σ} (h : L.Run tr s)
    (hP : ∀ x ∈ tr, P x.2) : (L.restrict P).Run tr s := by
  induction h with
  | start hi => exact .start hi
  | @snoc tr s s' e _ hst ih =>
      have hpre := ih (fun x hx => hP x (List.mem_append_left _ hx))
      exact hpre.snoc ⟨hst, hP (s, e) (by simp)⟩

theorem Lts.Run.of_restrict {P : ε → Prop} {tr : List (σ × ε)} {s : σ}
    (h : (L.restrict P).Run tr s) : L.Run tr s := by
  induction h with
  | start hi => exact .start hi
  | snoc _ hst ih => exact ih.snoc hst.1

theorem Lts.Reachable.of_restrict {P : ε → Prop} {s : σ}
    (h : (L.restrict P).Reachable s) : L.Reachable s := by
  obtain ⟨tr, hr⟩ := h
  exact ⟨tr, hr.of_restrict⟩

/-- The system that only takes the steps that meet `C`. -/
def Lts.guard (L : Lts σ ε) (C : σ → ε → Prop) : Lts σ ε where
  init := L.init
  step s e s' := L.step s e s' ∧ C s e

theorem Lts.Run.guard {C : σ → ε → Prop} {tr : List (σ × ε)} {s : σ} (h : L.Run tr s)
    (hC : ∀ x ∈ tr, C x.1 x.2) : (L.guard C).Run tr s := by
  induction h with
  | start hi => exact .start hi
  | @snoc tr s s' e _ hst ih =>
      have hpre := ih (fun x hx => hC x (List.mem_append_left _ hx))
      exact hpre.snoc ⟨hst, hC (s, e) (by simp)⟩

/-! ## §2. What has happened since. -/

/-- Some element satisfies `P` and none after it satisfies `Q`. -/
def Since (P Q : α → Prop) (l : List α) : Prop :=
  ∃ pre x suf, l = pre ++ x :: suf ∧ P x ∧ ∀ y ∈ suf, ¬ Q y

theorem not_since_nil {P Q : α → Prop} : ¬ Since P Q [] := by
  rintro ⟨pre, x, suf, heq, _⟩
  simp at heq

theorem since_snoc {P Q : α → Prop} {l : List α} {x : α} :
    Since P Q (l ++ [x]) ↔ P x ∨ (Since P Q l ∧ ¬ Q x) := by
  constructor
  · rintro ⟨pre, y, suf, heq, hP, hQ⟩
    rcases List.eq_nil_or_concat suf with rfl | ⟨suf', z, rfl⟩
    · obtain ⟨_, hx⟩ := List.append_inj' heq rfl
      simp only [List.cons.injEq, and_true] at hx
      exact Or.inl (hx ▸ hP)
    · rw [List.concat_eq_append] at heq hQ
      rw [← List.cons_append, ← List.append_assoc] at heq
      obtain ⟨rfl, hx⟩ := List.append_inj' heq rfl
      simp only [List.cons.injEq, and_true] at hx
      subst hx
      exact Or.inr ⟨⟨pre, y, suf', rfl, hP, fun w hw => hQ w (by simp [hw])⟩,
        hQ x (by simp)⟩
  · rintro (hP | ⟨⟨pre, y, suf, rfl, hP, hQ⟩, hx⟩)
    · exact ⟨l, x, [], rfl, hP, by simp⟩
    · refine ⟨pre, y, suf ++ [x], by simp, hP, ?_⟩
      intro w hw
      rcases List.mem_append.mp hw with hw | hw
      · exact hQ w hw
      · rw [List.mem_singleton.mp hw]; exact hx

theorem Since.exists_mem {P Q : α → Prop} {l : List α} (h : Since P Q l) :
    ∃ x ∈ l, P x := by
  obtain ⟨pre, x, suf, rfl, hP, _⟩ := h
  exact ⟨x, by simp, hP⟩

theorem Since.mono {P P' Q Q' : α → Prop} {l : List α} (h : Since P Q l)
    (hP : ∀ x ∈ l, P x → P' x) (hQ : ∀ x ∈ l, Q' x → Q x) : Since P' Q' l := by
  obtain ⟨pre, x, suf, rfl, hx, hs⟩ := h
  exact ⟨pre, x, suf, rfl, hP x (by simp) hx,
    fun y hy hq => hs y hy (hQ y (by simp [hy]) hq)⟩

theorem since_map {P Q : β → Prop} {f : α → β} {l : List α} :
    Since P Q (l.map f) ↔ Since (fun x => P (f x)) (fun x => Q (f x)) l := by
  constructor
  · intro h
    obtain ⟨pre, y, suf, heq, hP, hQ⟩ := h
    obtain ⟨pre', rest, rfl, rfl, hrest⟩ := List.map_eq_append_iff.mp heq
    obtain ⟨x, suf', rfl, rfl, rfl⟩ := List.map_eq_cons_iff.mp hrest
    exact ⟨pre', x, suf', rfl, hP, fun z hz => hQ (f z) (List.mem_map_of_mem hz)⟩
  · intro h
    obtain ⟨pre, x, suf, rfl, hP, hQ⟩ := h
    refine ⟨pre.map f, f x, suf.map f, by simp, hP, ?_⟩
    intro y hy
    obtain ⟨z, hz, rfl⟩ := List.mem_map.mp hy
    exact hQ z hz

/-- **The since rule**: `G` is established by every `P` step and kept by every
step that is not a `Q` step, so it holds whenever a `P` step came with no `Q`
step after it. -/
theorem Lts.Run.of_since {P Q : σ × ε → Prop} {G : σ → Prop}
    (est : ∀ s e s', L.Reachable s → L.step s e s' → P (s, e) → G s')
    (keep : ∀ s e s', L.Reachable s → L.step s e s' → G s → ¬ Q (s, e) → G s')
    {tr : List (σ × ε)} {s : σ} (h : L.Run tr s) (hsince : Since P Q tr) : G s := by
  induction h with
  | start _ => exact absurd hsince not_since_nil
  | snoc hr hst ih =>
      rcases since_snoc.mp hsince with hP | ⟨hold, hQ⟩
      · exact est _ _ _ ⟨_, hr⟩ hst hP
      · exact keep _ _ _ ⟨_, hr⟩ hst (ih hold) hQ

/-- **The exact since rule**: where a step leads to `G` exactly if it is a `P` step, or `G`
held and it is no `Q` step, `G` holds exactly if a `P` step came with no `Q` step after
it. -/
theorem Lts.Run.since_iff {P Q : σ × ε → Prop} {G : σ → Prop} (h0 : ∀ s, L.init s → ¬ G s)
    (hs : ∀ s e s', L.step s e s' → (G s' ↔ P (s, e) ∨ (G s ∧ ¬ Q (s, e))))
    {tr : List (σ × ε)} {s : σ} (h : L.Run tr s) : G s ↔ Since P Q tr := by
  induction h with
  | start hi => exact iff_of_false (h0 _ hi) not_since_nil
  | snoc _ hst ih => rw [since_snoc, hs _ _ _ hst, ih]

/-- Where `G` has been lost since a `P` step, a `Q` step lies in between. -/
theorem Lts.Run.exists_between {P Q : σ × ε → Prop} {G : σ → Prop}
    (est : ∀ s e s', L.Reachable s → L.step s e s' → P (s, e) → G s')
    (keep : ∀ s e s', L.Reachable s → L.step s e s' → G s → ¬ Q (s, e) → G s')
    {tr : List (σ × ε)} {s : σ} (h : L.Run tr s) {pre mid suf : List (σ × ε)}
    {x y : σ × ε} (heq : tr = pre ++ x :: (mid ++ y :: suf)) (hx : P x) (hy : ¬ G y.1) :
    ∃ z ∈ mid, Q z := by
  by_contra hnone
  have hsplit : tr = (pre ++ x :: mid) ++ (y.1, y.2) :: suf := by simp [heq]
  obtain ⟨hr, _⟩ := h.split hsplit
  refine hy (hr.of_since est keep ⟨pre, x, mid, rfl, hx, ?_⟩)
  intro z hz hq
  exact hnone ⟨z, hz, hq⟩

/-! ## §3. Properties of every state a run visits. -/

/-- `P pre t` for every state `t` the run visits, `pre` the steps before it. -/
def Always (P : List (σ × ε) → σ → Prop) (tr : List (σ × ε)) (s : σ) : Prop :=
  P tr s ∧ ∀ pre t e suf, tr = pre ++ (t, e) :: suf → P pre t

theorem always_nil {P : List (σ × ε) → σ → Prop} {s : σ} :
    Always P [] s ↔ P [] s := by
  simp [Always]

theorem always_snoc {P : List (σ × ε) → σ → Prop} {tr : List (σ × ε)} {s s' : σ}
    {e : ε} :
    Always P (tr ++ [(s, e)]) s' ↔ Always P tr s ∧ P (tr ++ [(s, e)]) s' := by
  constructor
  · rintro ⟨hlast, hall⟩
    refine ⟨⟨hall tr s e [] rfl, ?_⟩, hlast⟩
    rintro pre t e' suf rfl
    exact hall pre t e' (suf ++ [(s, e)]) (by simp)
  · rintro ⟨⟨htr, hall⟩, hlast⟩
    refine ⟨hlast, ?_⟩
    intro pre t e' suf heq
    rcases List.eq_nil_or_concat suf with rfl | ⟨suf', x, rfl⟩
    · obtain ⟨rfl, hx⟩ := List.append_inj' heq rfl
      simp only [List.cons.injEq, Prod.mk.injEq, and_true] at hx
      rw [← hx.1]; exact htr
    · rw [List.concat_eq_append, ← List.cons_append, ← List.append_assoc] at heq
      exact hall pre t e' suf' (List.append_inj' heq rfl).1

/-- **The exactness rule**: where a step from a state with `P` leads to a state
with `P` exactly when it meets `C`, a run has `P` throughout exactly when all of
its steps meet `C`. -/
theorem Lts.Run.always_iff {P : List (σ × ε) → σ → Prop} {C : σ → ε → Prop}
    (h0 : ∀ s, L.init s → P [] s)
    (hs : ∀ tr s e s', L.Run tr s → P tr s → L.step s e s' →
      (P (tr ++ [(s, e)]) s' ↔ C s e))
    {tr : List (σ × ε)} {s : σ} (h : L.Run tr s) :
    Always P tr s ↔ ∀ x ∈ tr, C x.1 x.2 := by
  induction h with
  | start hi => simp [always_nil, h0 _ hi]
  | @snoc tr s s' e hr hst ih =>
      rw [always_snoc, List.forall_mem_append, ih]
      constructor
      · rintro ⟨hC, hP⟩
        exact ⟨hC, by simpa using (hs _ _ _ _ hr (ih.mpr hC).1 hst).mp hP⟩
      · rintro ⟨hC, hC'⟩
        exact ⟨hC, (hs _ _ _ _ hr (ih.mpr hC).1 hst).mpr (by simpa using hC')⟩

/-! ## §4. Forward simulation. -/

/-- `L` is simulated by `A`: every step of `L` is matched by the step of `A` that
`label` names. -/
structure Lts.Simulation (L : Lts σ ε) (A : Lts α β) where
  label : σ → ε → β
  rel : α → σ → Prop
  init : ∀ s, L.init s → ∃ a, A.init a ∧ rel a s
  step : ∀ a s e s', L.Reachable s → rel a s → L.step s e s' →
    ∃ a', A.step a (label s e) a' ∧ rel a' s'

/-- Every run of `L` is matched, event by event, by a run of `A`. -/
theorem Lts.Run.simulate {A : Lts α β} (S : L.Simulation A) {tr : List (σ × ε)}
    {s : σ} (h : L.Run tr s) :
    ∃ atr a, A.Run atr a ∧ S.rel a s
      ∧ atr.map Prod.snd = tr.map (fun x => S.label x.1 x.2) := by
  induction h with
  | start hi =>
      obtain ⟨a, ha, hrel⟩ := S.init _ hi
      exact ⟨[], a, .start ha, hrel, rfl⟩
  | @snoc tr s s' e hr hst ih =>
      obtain ⟨atr, a, har, hrel, hmap⟩ := ih
      obtain ⟨a', hast, hrel'⟩ := S.step a s e s' ⟨tr, hr⟩ hrel hst
      exact ⟨atr ++ [(a, S.label s e)], a', har.snoc hast, hrel', by simp [hmap]⟩

/-- Where each step maps to a step, a run maps to a run, state by state. -/
theorem Lts.Run.map {A : Lts α β} (f : σ → α) (g : ε → β) (h0 : ∀ s, L.init s → A.init (f s))
    (hs : ∀ s e s', L.step s e s' → A.step (f s) (g e) (f s')) {tr : List (σ × ε)} {s : σ}
    (h : L.Run tr s) : A.Run (tr.map (Prod.map f g)) (f s) := by
  induction h with
  | start hi => exact .start (h0 _ hi)
  | snoc _ hst ih =>
      rw [List.map_append]
      exact ih.snoc (hs _ _ _ hst)

end Avp64.Lib
