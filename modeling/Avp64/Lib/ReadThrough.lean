/-
  Avp64.Lib.ReadThrough — a cache in front of a source that may answer too little.

  A request is looked up in the cache; on a miss the source is asked, and what it
  answers is used and added to the cache.  A cached entry is used only if it serves the
  request; nobody checks that of an answer of the source.

    • `fetch_serves_iff`  — when what is used serves the request,
    • `fetch_again_iff`   — when the cache alone gives the same afterwards.
-/
import Mathlib.Data.Set.Insert

namespace Avp64.Lib

variable {κ ρ α : Type*}

/-! ## §1. The cache and its use. -/

/-- `κ` are the contents, `ρ` the requests, `α` the entries. -/
structure Cache (κ ρ α : Type*) where
  lookup : κ → ρ → Option α
  add : α → κ → κ

/-- The entry that is used for `r`, and the cache after that; `answer` is what the source
answers if it is asked. -/
def Cache.fetch (C : Cache κ ρ α) (r : ρ) (answer : Option α) (c : κ) : Option α × κ :=
  match C.lookup c r with
  | some a => (some a, c)
  | none =>
      match answer with
      | some a => (some a, C.add a c)
      | none => (none, c)

/-- What is relied on about a cache with the entries `entries c`, for the requests
`requests`. -/
structure CacheLaws (C : Cache κ ρ α) (entries : κ → Set α) (serves : ρ → α → Prop)
    (requests : Set ρ) : Prop where
  found : ∀ {c r a}, r ∈ requests → C.lookup c r = some a → a ∈ entries c ∧ serves r a
  missed : ∀ {c r}, r ∈ requests → C.lookup c r = none → ∀ a ∈ entries c, ¬ serves r a
  added : ∀ a c, entries (C.add a c) = insert a (entries c)

variable {C : Cache κ ρ α} {entries : κ → Set α} {serves : ρ → α → Prop}
  {requests : Set ρ} {r : ρ} {answer : Option α} {c : κ}

theorem fetch_of_found {a : α} (h : C.lookup c r = some a) (answer : Option α) :
    C.fetch r answer c = (some a, c) := by
  unfold Cache.fetch
  rw [h]

theorem fetch_of_answer {a : α} (h : C.lookup c r = none) :
    C.fetch r (some a) c = (some a, C.add a c) := by
  unfold Cache.fetch
  rw [h]

theorem fetch_of_none (h : C.lookup c r = none) : C.fetch r none c = (none, c) := by
  unfold Cache.fetch
  rw [h]

/-- The three ways a request can go. -/
inductive FetchCase (C : Cache κ ρ α) (r : ρ) (c : κ) : Option α → Option α × κ → Prop
  | found {answer : Option α} {a : α} : C.lookup c r = some a →
      FetchCase C r c answer (some a, c)
  | answered {a : α} : C.lookup c r = none → FetchCase C r c (some a) (some a, C.add a c)
  | refused : C.lookup c r = none → FetchCase C r c none (none, c)

theorem fetch_case (C : Cache κ ρ α) (r : ρ) (answer : Option α) (c : κ) :
    FetchCase C r c answer (C.fetch r answer c) := by
  cases h : C.lookup c r with
  | some a =>
      rw [fetch_of_found h]
      exact .found h
  | none =>
      cases answer with
      | some a =>
          rw [fetch_of_answer h]
          exact .answered h
      | none =>
          rw [fetch_of_none h]
          exact .refused h

/-- An answer that is used serves the request. -/
def AnswerServes (C : Cache κ ρ α) (serves : ρ → α → Prop) (r : ρ) (answer : Option α)
    (c : κ) : Prop :=
  C.lookup c r = none → ∀ a, answer = some a → serves r a

/-! ## §2. What is used. -/

/-- What is used is in the cache from then on. -/
theorem fetch_mem (laws : CacheLaws C entries serves requests) (hr : r ∈ requests) {a : α}
    (h : (C.fetch r answer c).1 = some a) : a ∈ entries (C.fetch r answer c).2 := by
  have hcase := fetch_case C r answer c
  generalize C.fetch r answer c = x at hcase h
  cases hcase with
  | found hl =>
      injection h with h
      exact h ▸ (laws.found hr hl).1
  | answered hl =>
      injection h with h
      rw [laws.added, ← h]
      exact Set.mem_insert _ _
  | refused hl => cases h

/-- **What is used gives what an entry that serves the request gives, exactly if the
source answers no less on a miss.** -/
theorem fetch_serves_iff {β : Type*} (laws : CacheLaws C entries serves requests)
    (hr : r ∈ requests) (out : α → β) :
    (∀ a, (C.fetch r answer c).1 = some a →
        ∃ a' ∈ entries (C.fetch r answer c).2, serves r a' ∧ out a = out a')
      ↔ AnswerServes C serves r answer c := by
  constructor
  · intro h hmiss a ha
    subst ha
    rw [fetch_of_answer hmiss] at h
    obtain ⟨a', hmem, hserves, _⟩ := h a rfl
    rw [laws.added] at hmem
    -- no older entry serves the request, so it is the answer that does
    rcases Set.mem_insert_iff.mp hmem with rfl | hold
    · exact hserves
    · exact absurd hserves (laws.missed hr hmiss a' hold)
  · intro h a ha
    refine ⟨a, fetch_mem laws hr ha, ?_, rfl⟩
    have hcase := fetch_case C r answer c
    generalize C.fetch r answer c = x at hcase ha
    cases hcase with
    | found hl =>
        injection ha with ha
        exact ha ▸ (laws.found hr hl).2
    | answered hl =>
        injection ha with ha
        exact ha ▸ h hl _ rfl
    | refused hl => cases ha

/-- **The cache alone gives the same afterwards**, under the same condition. -/
theorem fetch_again_iff (laws : CacheLaws C entries serves requests) (hr : r ∈ requests) :
    (C.fetch r none (C.fetch r answer c).2).1 = (C.fetch r answer c).1
      ↔ AnswerServes C serves r answer c := by
  have hcase := fetch_case C r answer c
  generalize C.fetch r answer c = x at hcase
  cases hcase with
  | found hl =>
      rw [fetch_of_found hl]
      exact iff_of_true rfl (fun hmiss => by rw [hl] at hmiss; cases hmiss)
  | refused hl =>
      rw [fetch_of_none hl]
      exact iff_of_true rfl (fun _ a ha => by cases ha)
  | @answered a hl =>
      have hserves : AnswerServes C serves r (some a) c ↔ serves r a := by
        constructor
        · intro h
          exact h hl a rfl
        · intro h _ a' ha'
          injection ha' with ha'
          exact ha' ▸ h
      rw [hserves]
      show (C.fetch r none (C.add a c)).1 = some a ↔ _
      have hcase := fetch_case C r none (C.add a c)
      generalize C.fetch r none (C.add a c) = y at hcase
      cases hcase with
      | @found _ a' hl' =>
          obtain ⟨hmem, hs⟩ := laws.found hr hl'
          rw [laws.added] at hmem
          rcases Set.mem_insert_iff.mp hmem with rfl | hold
          · exact iff_of_true rfl hs
          · exact absurd hs (laws.missed hr hl a' hold)
      | refused hl' =>
          have hno : ¬ serves r a := by
            refine laws.missed hr hl' a ?_
            rw [laws.added]
            exact Set.mem_insert _ _
          exact iff_of_false nofun hno

end Avp64.Lib
