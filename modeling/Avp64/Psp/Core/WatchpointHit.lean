/-
  Avp64.Psp.Core.WatchpointHit — the range that a watchpoint hit is reported with.

  The debugger arms inclusive ranges: `insert_watchpoint` passes `start` and
  `end - start + 1`.  `handle_watchpoint` builds a range from what the engine accessed,
  and takes `vaddr + size` for its end.

    • `hit_never_exact`       — the reported range is never the accessed bytes,
    • `adjacent_watchpoint`   — a watchpoint next to the access is taken to be hit.
-/
import Avp64.Lib.ByteRange
import Avp64.Psp.Core.Debug

namespace Avp64.Psp

open Avp64.Lib

/-! ## §1. `handle_watchpoint`. -/

/-- What `notify_watchpoint_read` and `notify_watchpoint_write` are called with. -/
inductive WatchpointHit where
  | read (addr : Range) (timestamp : U64)
  | write (addr : Range) (data timestamp : U64)
  deriving DecidableEq, Repr

def WatchpointHit.range : WatchpointHit → Range
  | .read addr _ => addr
  | .write addr _ _ => addr

/-- `handle_watchpoint(vaddr, size, data, iswr)`, with the notification it makes. -/
def handleWatchpoint (localTimeStamp vaddr size data : U64) (iswr : Bool) :
    Bool × WatchpointHit :=
  let range : Range := ⟨vaddr, vaddr + size⟩
  if iswr then (true, .write range data localTimeStamp)
  else (true, .read range localTimeStamp)

/-- The range that an access is reported with. -/
def reported (localTimeStamp vaddr size data : U64) (iswr : Bool) : Range :=
  (handleWatchpoint localTimeStamp vaddr size data iswr).2.range

/-- Reads and writes are reported with the same range. -/
theorem reported_eq (localTimeStamp vaddr size data : U64) (iswr : Bool) :
    reported localTimeStamp vaddr size data iswr = ⟨vaddr, vaddr + size⟩ := by
  unfold reported handleWatchpoint
  cases iswr <;> rfl

/-! ## §2. Reported and accessed bytes. -/

/-- The bytes of a range. -/
def Range.bytes (r : Range) : Set U64 := closed r.start r.end_

/-- The bytes of an access. -/
def accessed (vaddr size : U64) : Set U64 := block vaddr size

/-- The length of an inclusive range leads one past its end. -/
theorem Range.start_add_length (r : Range) : r.start + r.length = r.end_ + 1#64 := by
  unfold Range.length
  rw [← BitVec.add_assoc, BitVec.add_comm r.start, BitVec.sub_add_cancel]

theorem watchpoint_mem {r : Range} {acs : VcmlAccess} {a n : U64} {iswr : Bool}
    (h : .watchpoint a n iswr ∈ r.watchpoints acs) : a = r.start ∧ n = r.length := by
  cases acs with
  | none => cases h
  | read =>
      injection Set.mem_singleton_iff.mp h with ha hn
      exact ⟨ha, hn⟩
  | write =>
      injection Set.mem_singleton_iff.mp h with ha hn
      exact ⟨ha, hn⟩
  | readWrite =>
      rcases h with h | h
      · injection h with ha hn
        exact ⟨ha, hn⟩
      · injection h with ha hn
        exact ⟨ha, hn⟩

/-- **A hit is never reported with the accessed bytes**: the range is wrong, some
watchpoint tells it from the access, and no armed range is reported as itself. -/
theorem hit_never_exact (localTimeStamp : U64) {vaddr size : U64} (data : U64) (iswr : Bool)
    (hsize : 1 ≤ size.toNat) (hfit : vaddr.toNat + size.toNat - 1 < 2 ^ 64) :
    (reported localTimeStamp vaddr size data iswr).bytes ≠ accessed vaddr size
      ∧ (¬ ∀ mem : Range, mem.start ≤ mem.end_ →
          ((mem.bytes ∩ (reported localTimeStamp vaddr size data iswr).bytes).Nonempty
            ↔ (mem.bytes ∩ accessed vaddr size).Nonempty))
      ∧ ∀ (r : Range) (acs : VcmlAccess) (a n : U64) (w : Bool),
          .watchpoint a n w ∈ r.watchpoints acs →
          reported localTimeStamp a n data iswr ≠ r := by
  have hne : (reported localTimeStamp vaddr size data iswr).bytes
      ≠ accessed vaddr size := by
    have hle : vaddr.toNat + size.toNat ≤ 2 ^ 64 := by omega
    rw [reported_eq]
    exact closed_add_ne hsize hle
  refine ⟨hne, ?_, ?_⟩
  · -- watchpoints on single bytes tell different ranges apart
    intro hall
    exact hne (eq_of_meets (fun x => hall ⟨x, x⟩ (BitVec.le_refl x)))
  · intro r acs a n w hmem heq
    obtain ⟨rfl, rfl⟩ := watchpoint_mem hmem
    rw [reported_eq, r.start_add_length] at heq
    have hend : r.end_ + 1#64 = r.end_ := congrArg Range.end_ heq
    exact absurd hend (by bv_omega)

/-- The last word of the address space. -/
theorem hit_never_exact_top :
    (reported 0 0xfffffffffffffff8#64 8#64 0 true).bytes
        ≠ accessed 0xfffffffffffffff8#64 8#64
      ∧ (¬ ∀ mem : Range, mem.start ≤ mem.end_ →
          ((mem.bytes ∩ (reported 0 0xfffffffffffffff8#64 8#64 0 true).bytes).Nonempty
            ↔ (mem.bytes ∩ accessed 0xfffffffffffffff8#64 8#64).Nonempty))
      ∧ ∀ (r : Range) (acs : VcmlAccess) (a n : U64) (w : Bool),
          .watchpoint a n w ∈ r.watchpoints acs → reported 0 a n 0 true ≠ r :=
  hit_never_exact 0 0 true (by decide) (by decide)

/-- Four bytes are written at `0x1000`; a watchpoint on the next four is not touched, and
overlaps the reported range. -/
theorem adjacent_watchpoint :
    (reported 0 0x1000#64 4#64 0 true).bytes ≠ accessed 0x1000#64 4#64
      ∧ ((⟨0x1004#64, 0x1007#64⟩ : Range).bytes
          ∩ (reported 0 0x1000#64 4#64 0 true).bytes).Nonempty
      ∧ ¬ ((⟨0x1004#64, 0x1007#64⟩ : Range).bytes ∩ accessed 0x1000#64 4#64).Nonempty := by
  have hno : ∀ x ∈ (⟨0x1004#64, 0x1007#64⟩ : Range).bytes, x ∉ accessed 0x1000#64 4#64 := by
    intro x hx hacc
    have hle : 0x1004 ≤ x.toNat := hx.1
    have hlt : x.toNat < 0x1004 := hacc.2
    omega
  have hmem : 0x1004#64 ∈ (⟨0x1004#64, 0x1007#64⟩ : Range).bytes :=
    ⟨by decide, by decide⟩
  have hrep : 0x1004#64 ∈ (reported 0 0x1000#64 4#64 0 true).bytes :=
    ⟨by decide, by decide⟩
  refine ⟨?_, ⟨_, hmem, hrep⟩, ?_⟩
  · intro heq
    exact hno _ hmem (heq ▸ hrep)
  · intro hne
    obtain ⟨x, hx, hacc⟩ := hne
    exact hno x hx hacc

end Avp64.Psp
