/-
  Avp64.Lib.FinmapWalk — the order in which a finite map is walked.

  A hash map promises no iteration order.  A loop over one is a loop over a list
  of its keys; `Walk m` are the lists such a loop can meet, every key once.
-/
import Mathlib.Data.Finmap

namespace Avp64.Lib

variable {κ : Type*} {β : κ → Type*}

/-- An order in which all the keys of `m` can be visited. -/
structure Walk (m : Finmap β) where
  order : List κ
  nodup : order.Nodup
  mem_order : ∀ k, k ∈ order ↔ k ∈ m

/-- Every finite map can be walked. -/
theorem Walk.nonempty (m : Finmap β) : Nonempty (Walk m) := by
  induction m using Finmap.induction_on with
  | H l => exact ⟨⟨l.keys, l.nodupKeys, fun _ => Finmap.mem_toFinmap.symm⟩⟩

end Avp64.Lib
