/-
  Avp64.Lib.Ownership — resources that are opened, held by one owner and closed.

  A resource that is closed twice, or still held when it is closed, is the error of
  manual memory management.  `Balanced` excludes it: a resource that has been opened is
  either held, by one owner, or closed, once.

    • `Balanced.open_`, `Balanced.close` — the two operations keep the balance,
    • `Balanced.exactly_one`             — where a resource is,
    • `Balanced.perm`                    — when nothing is held, nothing has leaked.
-/
import Mathlib.Data.List.Perm.Basic
import Mathlib.Logic.Function.Basic

namespace Avp64.Lib

variable {κ ι : Type*}

/-- Who holds which resource, and what has been opened and closed so far. -/
structure Holdings (κ ι : Type*) where
  held : κ → Option ι
  opened : List ι
  closed : List ι

namespace Holdings

/-- Every resource that has been opened is in one place. -/
structure Balanced (h : Holdings κ ι) : Prop where
  opened_nodup : h.opened.Nodup
  closed_nodup : h.closed.Nodup
  opened_iff : ∀ i, i ∈ h.opened ↔ i ∈ h.closed ∨ ∃ k, h.held k = some i
  not_closed : ∀ k i, h.held k = some i → i ∉ h.closed
  injective : ∀ k k' i, h.held k = some i → h.held k' = some i → k = k'

theorem balanced_nil : Balanced (⟨fun _ => none, [], []⟩ : Holdings κ ι) := by
  refine ⟨List.nodup_nil, List.nodup_nil, ?_, ?_, ?_⟩ <;> simp

variable [DecidableEq κ] {h : Holdings κ ι} {k : κ} {i : ι}

/-- `k` opens `i` and holds it from now on. -/
def open_ (h : Holdings κ ι) (k : κ) (i : ι) : Holdings κ ι :=
  ⟨Function.update h.held k (some i), h.opened ++ [i], h.closed⟩

/-- `k` closes what it holds. -/
def close (h : Holdings κ ι) (k : κ) : Holdings κ ι :=
  ⟨Function.update h.held k none, h.opened, h.closed ++ (h.held k).toList⟩

/-- A new resource, for an owner that holds none. -/
theorem Balanced.open_ (hb : h.Balanced) (hk : h.held k = none) (hi : i ∉ h.opened) :
    (h.open_ k i).Balanced := by
  have hnew : i ∉ h.closed ∧ ∀ k', h.held k' ≠ some i :=
    ⟨fun hc => hi ((hb.opened_iff i).mpr (.inl hc)),
      fun k' hk' => hi ((hb.opened_iff i).mpr (.inr ⟨k', hk'⟩))⟩
  have hheld : ∀ k' j, (h.open_ k i).held k' = some j ↔
      k' = k ∧ i = j ∨ k' ≠ k ∧ h.held k' = some j := by
    intro k' j
    show Function.update h.held k (some i) k' = some j ↔ _
    by_cases heq : k' = k <;> simp [heq]
  constructor
  · show (h.opened ++ [i]).Nodup
    rw [List.nodup_append]
    exact ⟨hb.opened_nodup, by simp, fun a ha b hb' hab =>
      hi (List.mem_singleton.mp hb' ▸ hab ▸ ha)⟩
  · exact hb.closed_nodup
  · intro j
    show j ∈ h.opened ++ [i] ↔ j ∈ h.closed ∨ _
    rw [List.mem_append, List.mem_singleton, hb.opened_iff j]
    constructor
    · rintro ((hc | ⟨k', hk'⟩) | rfl)
      · exact .inl hc
      · refine .inr ⟨k', (hheld k' j).mpr (.inr ⟨?_, hk'⟩)⟩
        rintro rfl
        rw [hk] at hk'
        cases hk'
      · exact .inr ⟨k, (hheld k j).mpr (.inl ⟨rfl, rfl⟩)⟩
    · rintro (hc | ⟨k', hk'⟩)
      · exact .inl (.inl hc)
      · rcases (hheld k' j).mp hk' with ⟨_, heq⟩ | ⟨_, hold⟩
        · exact .inr heq.symm
        · exact .inl (.inr ⟨k', hold⟩)
  · intro k' j hk'
    rcases (hheld k' j).mp hk' with ⟨_, rfl⟩ | ⟨_, hold⟩
    · exact hnew.1
    · exact hb.not_closed k' j hold
  · intro k₁ k₂ j h₁ h₂
    rcases (hheld k₁ j).mp h₁ with ⟨rfl, rfl⟩ | ⟨_, hold₁⟩
    · rcases (hheld k₂ i).mp h₂ with ⟨heq, _⟩ | ⟨_, hold₂⟩
      · exact heq.symm
      · exact absurd hold₂ (hnew.2 k₂)
    · rcases (hheld k₂ j).mp h₂ with ⟨_, rfl⟩ | ⟨_, hold₂⟩
      · exact absurd hold₁ (hnew.2 k₁)
      · exact hb.injective k₁ k₂ j hold₁ hold₂

theorem Balanced.close (hb : h.Balanced) (k : κ) : (h.close k).Balanced := by
  have hheld : ∀ k' j, (h.close k).held k' = some j ↔ k' ≠ k ∧ h.held k' = some j := by
    intro k' j
    show Function.update h.held k none k' = some j ↔ _
    by_cases heq : k' = k <;> simp [heq]
  have hclosed : ∀ j, j ∈ (h.close k).closed ↔ j ∈ h.closed ∨ h.held k = some j := by
    intro j
    show j ∈ h.closed ++ (h.held k).toList ↔ _
    rw [List.mem_append, Option.mem_toList]
  constructor
  · exact hb.opened_nodup
  · show (h.closed ++ (h.held k).toList).Nodup
    rw [List.nodup_append]
    refine ⟨hb.closed_nodup, by cases h.held k <;> simp, ?_⟩
    rintro a ha b hb' rfl
    exact hb.not_closed k a (Option.mem_toList.mp hb') ha
  · intro j
    show j ∈ h.opened ↔ _
    rw [hb.opened_iff j, hclosed j]
    constructor
    · rintro (hc | ⟨k', hk'⟩)
      · exact .inl (.inl hc)
      · by_cases heq : k' = k
        · exact .inl (.inr (heq ▸ hk'))
        · exact .inr ⟨k', (hheld k' j).mpr ⟨heq, hk'⟩⟩
    · rintro ((hc | hk') | ⟨k', hk'⟩)
      · exact .inl hc
      · exact .inr ⟨k, hk'⟩
      · exact .inr ⟨k', ((hheld k' j).mp hk').2⟩
  · intro k' j hk' hc
    obtain ⟨hne, hold⟩ := (hheld k' j).mp hk'
    rcases (hclosed j).mp hc with hc | hk
    · exact hb.not_closed k' j hold hc
    · exact hne (hb.injective k' k j hold hk)
  · intro k₁ k₂ j h₁ h₂
    exact hb.injective k₁ k₂ j ((hheld k₁ j).mp h₁).2 ((hheld k₂ j).mp h₂).2

omit [DecidableEq κ] in
/-- A resource is closed and held by nobody, or it is held by one owner. -/
theorem Balanced.exactly_one (hb : h.Balanced) (hi : i ∈ h.opened) :
    (i ∈ h.closed ∧ ∀ k, h.held k ≠ some i) ∨ (i ∉ h.closed ∧ ∃! k, h.held k = some i) := by
  rcases (hb.opened_iff i).mp hi with hc | ⟨k, hk⟩
  · exact .inl ⟨hc, fun k hk => hb.not_closed k i hk hc⟩
  · exact .inr ⟨hb.not_closed k i hk, k, hk, fun k' hk' => hb.injective k' k i hk' hk⟩

omit [DecidableEq κ] in
/-- **No leak**: when nothing is held, what was opened has been closed, each once. -/
theorem Balanced.perm (hb : h.Balanced) (hnone : ∀ k, h.held k = none) :
    h.opened.Perm h.closed := by
  rw [List.perm_ext_iff_of_nodup hb.opened_nodup hb.closed_nodup]
  intro i
  rw [hb.opened_iff i]
  simp [hnone]

end Holdings

end Avp64.Lib
