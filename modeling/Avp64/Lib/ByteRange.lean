/-
  Avp64.Lib.ByteRange — the bytes of a machine's address space, in ranges.

  A range is given by its first and last byte, or by its first byte and its length.

    • `closed_add_of_lt`, `closed_add_of_top` — the range that ends a byte too late,
    • `closed_add_ne`                         — it is never the bytes of that length,
    • `eq_of_meets`                           — sets that the same ranges meet are equal.
-/
import Mathlib.Algebra.Ring.Nat
import Mathlib.Data.Set.Insert

namespace Avp64.Lib

variable {w : Nat}

/-- The bytes from `a` to `b`, both included. -/
def closed (a b : BitVec w) : Set (BitVec w) := { x | a ≤ x ∧ x ≤ b }

/-- The `n` bytes from `a` on. -/
def block (a n : BitVec w) : Set (BitVec w) :=
  { x | a.toNat ≤ x.toNat ∧ x.toNat < a.toNat + n.toNat }

theorem mem_closed_self {x y : BitVec w} : x ∈ closed y y ↔ x = y := by
  constructor
  · intro h
    exact BitVec.eq_of_toNat_eq (Nat.le_antisymm h.2 h.1)
  · intro h
    rw [h]
    exact ⟨BitVec.le_refl y, BitVec.le_refl y⟩

/-- Sets that the same ranges meet are equal; single bytes are enough. -/
theorem eq_of_meets {S T : Set (BitVec w)}
    (h : ∀ x, (closed x x ∩ S).Nonempty ↔ (closed x x ∩ T).Nonempty) : S = T := by
  have hmeet : ∀ (U : Set (BitVec w)) (x : BitVec w),
      (closed x x ∩ U).Nonempty ↔ x ∈ U := by
    intro U x
    constructor
    · intro hne
      obtain ⟨y, hy, hU⟩ := hne
      exact mem_closed_self.mp hy ▸ hU
    · intro hU
      exact ⟨x, mem_closed_self.mpr rfl, hU⟩
  ext x
  rw [← hmeet S x, h x, hmeet T x]

/-! ## §1. A range that ends a byte too late. -/

variable {a n : BitVec w}

/-- It has one byte more, -/
theorem closed_add_of_lt (h : a.toNat + n.toNat < 2 ^ w) :
    closed a (a + n) = insert (a + n) (block a n) := by
  have hend : (a + n).toNat = a.toNat + n.toNat := BitVec.toNat_add_of_lt h
  ext x
  have hx : x = a + n ↔ x.toNat = a.toNat + n.toNat := by
    rw [← hend]
    exact BitVec.toNat_inj.symm
  rw [Set.mem_insert_iff, hx]
  show a.toNat ≤ x.toNat ∧ x.toNat ≤ (a + n).toNat ↔ _ ∨ _ ∧ _
  rw [hend]
  omega

/-- or, at the top of the address space, no byte at all. -/
theorem closed_add_of_top (h : a.toNat + n.toNat = 2 ^ w) :
    closed a (a + n) = ∅ := by
  have hend : (a + n).toNat = 0 := by
    rw [BitVec.toNat_add, h, Nat.mod_self]
  have hlt := n.isLt
  rw [Set.eq_empty_iff_forall_notMem]
  intro x hx
  have hle : a.toNat ≤ x.toNat ∧ x.toNat ≤ (a + n).toNat := hx
  omega

/-- **It is never the `n` bytes.** -/
theorem closed_add_ne (hn : 1 ≤ n.toNat) (h : a.toNat + n.toNat ≤ 2 ^ w) :
    closed a (a + n) ≠ block a n := by
  intro heq
  rcases Nat.lt_or_eq_of_le h with hlt | htop
  · have hmem : a + n ∈ block a n := by
      rw [← heq, closed_add_of_lt hlt]
      exact Set.mem_insert _ _
    have hin : (a + n).toNat < a.toNat + n.toNat := hmem.2
    rw [BitVec.toNat_add_of_lt hlt] at hin
    omega
  · have hmem : a ∈ block a n := ⟨Nat.le_refl _, Nat.lt_add_of_pos_right hn⟩
    rw [← heq, closed_add_of_top htop] at hmem
    exact hmem

end Avp64.Lib
