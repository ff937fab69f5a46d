/-
  Avp64.Lib.PageMask — power-of-two pages of a machine word.

  A page of `2 ^ b` bytes is named by its first address, which is obtained from
  any address in it by masking the low `b` bits: `a &&& ~~~(2 ^ b - 1)`.  The
  lemmas turn that mask into division and remainder on `Nat`, where the page
  arithmetic of the clients is linear.
-/
import Mathlib.Algebra.Ring.Nat
import Mathlib.Data.List.Nodup
import Mathlib.Data.List.Perm.Subperm
import Mathlib.Tactic.Common

namespace Avp64.Lib

variable {w : Nat}

/-! ## §1. The mask. -/

/-- `~(2 ^ b - 1)`: the mask that keeps the page number of a page of `2 ^ b`
bytes. -/
def pageMask (w b : Nat) : BitVec w := ~~~(BitVec.twoPow w b - 1#w)

theorem toNat_twoPow_sub_one {b : Nat} (hb : b < w) :
    (BitVec.twoPow w b - 1#w).toNat = 2 ^ b - 1 := by
  have hone : (1#w).toNat = 1 := by
    rw [BitVec.toNat_ofNat, Nat.mod_eq_of_lt (Nat.one_lt_two_pow (by omega))]
  have hle : 1#w ≤ BitVec.twoPow w b := by
    rw [BitVec.le_def, hone, BitVec.toNat_twoPow_of_lt hb]
    exact Nat.one_le_two_pow
  rw [BitVec.toNat_sub_of_le hle, hone, BitVec.toNat_twoPow_of_lt hb]

theorem getLsbD_pageMask {b : Nat} (hb : b < w) (i : Nat) :
    (pageMask w b).getLsbD i = (decide (i < w) && decide (b ≤ i)) := by
  have hlow : (BitVec.twoPow w b - 1#w).getLsbD i = decide (i < b) := by
    rw [← BitVec.testBit_toNat, toNat_twoPow_sub_one hb, Nat.testBit_two_pow_sub_one]
  rw [pageMask, BitVec.getLsbD_not, hlow]
  by_cases h : i < b
  · simp [h]
  · simp [h, Nat.le_of_not_lt h]

/-- The mask is idempotent. -/
theorem and_pageMask_idem (a : BitVec w) (b : Nat) :
    a &&& pageMask w b &&& pageMask w b = a &&& pageMask w b := by
  rw [BitVec.and_assoc, BitVec.and_self]

/-- No low bit is set exactly when masking changes nothing. -/
theorem and_not_pageMask_eq_zero (a : BitVec w) (b : Nat) :
    a &&& ~~~(pageMask w b) = 0 ↔ a &&& pageMask w b = a := by
  constructor
  · intro h
    ext i hi
    have hbit : (a &&& ~~~(pageMask w b)).getLsbD i = false := by rw [h]; simp
    rw [BitVec.getLsbD_and, BitVec.getLsbD_not] at hbit
    rw [← BitVec.getLsbD_eq_getElem, ← BitVec.getLsbD_eq_getElem, BitVec.getLsbD_and]
    revert hbit
    cases a.getLsbD i <;> cases (pageMask w b).getLsbD i <;> simp [hi]
  · intro h
    rw [← h, BitVec.and_assoc, BitVec.and_not_self]
    simp

/-! ## §2. Masking as arithmetic. -/

/-- Masking rounds down to a multiple of the page size. -/
theorem toNat_and_pageMask {b : Nat} (hb : b < w) (a : BitVec w) :
    (a &&& pageMask w b).toNat = 2 ^ b * (a.toNat / 2 ^ b) := by
  refine Nat.eq_of_testBit_eq (fun i => ?_)
  rw [BitVec.testBit_toNat, BitVec.getLsbD_and, getLsbD_pageMask hb,
    Nat.testBit_two_pow_mul, Nat.testBit_div_two_pow, ← BitVec.testBit_toNat]
  by_cases h : b ≤ i
  · by_cases hi : i < w
    · simp [h, hi]
    · have hbig : a.toNat < 2 ^ i :=
        Nat.lt_of_lt_of_le a.isLt (Nat.pow_le_pow_right (by omega) (by omega))
      simp [hi, h, Nat.testBit_lt_two_pow hbig]
  · simp [h]

/-- Two addresses are on one page exactly when their page numbers agree. -/
theorem and_pageMask_eq_iff {b : Nat} (hb : b < w) (a a' : BitVec w) :
    a &&& pageMask w b = a' &&& pageMask w b ↔ a.toNat / 2 ^ b = a'.toNat / 2 ^ b := by
  rw [← BitVec.toNat_inj, toNat_and_pageMask hb, toNat_and_pageMask hb]
  exact Nat.mul_right_inj (Nat.ne_of_gt (Nat.two_pow_pos b))

/-! ## §3. Aligned blocks. -/

/-- An offset inside an aligned block does not change the block number. -/
theorem div_add_of_aligned {k a i : Nat} (ha : a % 2 ^ k = 0) (hi : i < 2 ^ k) :
    (a + i) / 2 ^ k = a / 2 ^ k := by
  have hsplit : a + i = i + 2 ^ k * (a / 2 ^ k) := by
    have := Nat.div_add_mod a (2 ^ k)
    omega
  rw [hsplit, Nat.add_mul_div_left _ _ (Nat.two_pow_pos k), Nat.div_eq_of_lt hi,
    Nat.zero_add]

/-- An aligned block does not wrap around the top of the address space. -/
theorem add_lt_of_aligned {k : Nat} (hk : k ≤ w) {a : BitVec w} {i : Nat}
    (ha : a.toNat % 2 ^ k = 0) (hi : i < 2 ^ k) : a.toNat + i < 2 ^ w := by
  obtain ⟨n, hn⟩ := Nat.exists_eq_add_of_le hk
  have hw : 2 ^ w = 2 ^ n * 2 ^ k := by rw [hn, Nat.pow_add, Nat.mul_comm]
  have hlt : (a.toNat + i) / 2 ^ k < 2 ^ n := by
    rw [div_add_of_aligned ha hi, Nat.div_lt_iff_lt_mul (Nat.two_pow_pos k), ← hw]
    exact a.isLt
  rw [hw]
  exact (Nat.div_lt_iff_lt_mul (Nat.two_pow_pos k)).mp hlt

/-- **A small aligned block lies in one page**: the `2 ^ k` bytes from an address
aligned to `2 ^ k` stay on its page of `2 ^ b ≥ 2 ^ k` bytes. -/
theorem add_and_pageMask {b k : Nat} (hb : b < w) (hk : k ≤ b) {a i : BitVec w}
    (ha : a.toNat % 2 ^ k = 0) (hi : i.toNat < 2 ^ k) :
    (a + i) &&& pageMask w b = a &&& pageMask w b := by
  obtain ⟨m, hm⟩ := Nat.exists_eq_add_of_le hk
  have hpow : 2 ^ b = 2 ^ k * 2 ^ m := by rw [hm, Nat.pow_add]
  have hfit : a.toNat + i.toNat < 2 ^ w := add_lt_of_aligned (by omega) ha hi
  rw [and_pageMask_eq_iff hb, BitVec.toNat_add, Nat.mod_eq_of_lt hfit, hpow,
    ← Nat.div_div_eq_div_mul, ← Nat.div_div_eq_div_mul, div_add_of_aligned ha hi]

/-- The last byte of an aligned block, also of the one that ends at `2 ^ w - 1`,
where the intermediate sum wraps to `0`. -/
theorem toNat_add_twoPow_sub_one {k : Nat} (hk : k < w) {a : BitVec w}
    (ha : a.toNat % 2 ^ k = 0) :
    (a + BitVec.twoPow w k - 1#w).toNat = a.toNat + (2 ^ k - 1) := by
  have hi : 2 ^ k - 1 < 2 ^ k := Nat.sub_one_lt (Nat.ne_of_gt (Nat.two_pow_pos k))
  rw [BitVec.sub_eq_add_neg, BitVec.add_assoc, ← BitVec.sub_eq_add_neg,
    BitVec.toNat_add, toNat_twoPow_sub_one hk,
    Nat.mod_eq_of_lt (add_lt_of_aligned (Nat.le_of_lt hk) ha hi)]

/-- **A page has room for `2 ^ (b - k)` aligned blocks of `2 ^ k` bytes.** -/
theorem length_le_blocks {b k : Nat} (hb : b < w) (hk : k ≤ b) {l : List (BitVec w)}
    (hnd : l.Nodup) {page : BitVec w} (hin : ∀ a ∈ l, a &&& pageMask w b = page)
    (hal : ∀ a ∈ l, a.toNat % 2 ^ k = 0) : l.length ≤ 2 ^ (b - k) := by
  have hpow : 2 ^ b = 2 ^ k * 2 ^ (b - k) := by rw [← Nat.pow_add, Nat.add_sub_cancel' hk]
  -- the number of the block inside the page tells the addresses apart
  have hblocks : (l.map (fun a => a.toNat % 2 ^ b / 2 ^ k)).Nodup := by
    refine hnd.map_on ?_
    intro a ha a' ha' heq
    have hpage : a.toNat / 2 ^ b = a'.toNat / 2 ^ b :=
      (and_pageMask_eq_iff hb a a').mp ((hin a ha).trans (hin a' ha').symm)
    have hblock : ∀ x ∈ l, x.toNat % 2 ^ b = 2 ^ k * (x.toNat % 2 ^ b / 2 ^ k) := by
      intro x hx
      have hdvd : 2 ^ k ∣ x.toNat % 2 ^ b :=
        (Nat.dvd_mod_iff ⟨_, hpow⟩).mpr (Nat.dvd_of_mod_eq_zero (hal x hx))
      exact (Nat.mul_div_cancel' hdvd).symm
    have hrest : a.toNat % 2 ^ b = a'.toNat % 2 ^ b := by
      rw [hblock a ha, hblock a' ha', show a.toNat % 2 ^ b / 2 ^ k = _ from heq]
    refine BitVec.eq_of_toNat_eq ?_
    rw [← Nat.div_add_mod a.toNat (2 ^ b), ← Nat.div_add_mod a'.toNat (2 ^ b), hpage, hrest]
  have hrange : l.map (fun a => a.toNat % 2 ^ b / 2 ^ k) ⊆ List.range (2 ^ (b - k)) := by
    intro x hx
    obtain ⟨a, _, rfl⟩ := List.mem_map.mp hx
    rw [List.mem_range, Nat.div_lt_iff_lt_mul (Nat.two_pow_pos k), Nat.mul_comm, ← hpow]
    exact Nat.mod_lt _ (Nat.two_pow_pos b)
  have hlen := (hblocks.subperm hrange).length_le
  rw [List.length_map, List.length_range] at hlen
  exact hlen

end Avp64.Lib
