/-
  Avp64.Psp.Platform.FaultBudget — what the faults of a whole run cost.

  A fault is expensive: the handler calls all engines for all pages of the host page.
  It makes the host page writable, so the next fault there has to wait for the next
  `protect_page`.  Here a host page that is mapped read-only is a token, which a
  completed `protect_page` puts there and a fault uses.

    • `readOnly_platformStep` — only `protect_page` makes a host page read-only,
    • `fault_opens`           — and a fault makes it writable,
    • `faults_paid`           — the faults of a run.
-/
import Avp64.Lib.Tokens
import Avp64.Psp.Platform.HandlerWork

namespace Avp64.Psp

open Avp64.Lib MemProtector

variable {σ : Type} {H : Host} {O : Ocx σ} {K : Kernel} {s s' : Platform σ} {n : Nat}

namespace PlatformEvent

/-- The host page of a write that has faulted. -/
def faultPage (H : Host) : PlatformEvent → Option U64
  | .write a log => if .fault a ∈ log then some (H.pageOf a) else none
  | _ => none

/-- The host page that a completed `protect_page` was for. -/
def protectedPage (H : Host) : PlatformEvent → Option U64
  | .protectPage _ pagePtr _ (.ok ()) => some (H.pageOf pagePtr)
  | _ => none

/-- The calls of engines that a write has caused. -/
def engineCalls : PlatformEvent → Nat
  | .write _ log => log.countP Effect.isCall
  | _ => 0

/-- The fault, if there is one, was not passed on to the handler installed before. -/
def claimed : PlatformEvent → Prop
  | .write a log => .original a ∉ log
  | _ => True

theorem faultPage_write {a : U64} {log : List Effect} (h : .fault a ∈ log) :
    (write a log).faultPage H = some (H.pageOf a) :=
  if_pos h

theorem faultPage_eq_some {e : PlatformEvent} {k : U64} (h : e.faultPage H = some k) :
    ∃ a log, e = .write a log ∧ .fault a ∈ log ∧ H.pageOf a = k := by
  cases e with
  | write a log =>
      by_cases hfault : .fault a ∈ log
      · rw [faultPage_write hfault] at h
        injection h with h
        exact ⟨a, log, rfl, hfault, h⟩
      · rw [faultPage, if_neg hfault] at h
        cases h
  | _ => cases h

end PlatformEvent

open Platform

/-! ## §1. One step. -/

/-- **Only `protect_page` makes a host page read-only.** -/
theorem readOnly_platformStep {e : PlatformEvent} (hst : PlatformStep H O K s e s') {k : U64}
    (hro : s'.protector.readOnly k = true) :
    e.protectedPage H = some k ∨ s.protector.readOnly k = true := by
  have hpart := platformStep_protector hst
  revert hpart hro
  generalize s.protector = t
  generalize s'.protector = t'
  intro hro hpart
  by_contra hnot
  rw [not_or, Bool.not_eq_true] at hnot
  obtain ⟨hpay, hopen⟩ := hnot
  have hkeeps : ∀ {e' : Event Nat}, Step H (fun _ => O.pageSize) K t e' t' →
      ¬ e'.registeredIn H k → False := by
    intro e' hs hreg
    rw [readOnly_step hs hopen hreg] at hro
    cases hro
  cases hpart with
  | registered hs =>
      refine hkeeps hs ?_
      rintro ⟨hk, rfl⟩
      exact hpay (congrArg some hk)
  | deregistered hs => exact hkeeps hs (fun h => h)
  | written actions hs => exact hkeeps hs (fun h => h)
  | quiet _ =>
      rw [hopen] at hro
      cases hro

/-- **A fault finds its host page read-only and leaves it writable.** -/
theorem fault_opens (hl : Living H n s) {a : U64} {log : List Effect}
    (hst : PlatformStep H O K s (.write a log) s') (hclaimed : .original a ∉ log)
    (hfault : .fault a ∈ log) :
    s.protector.readOnly (H.pageOf a) = true
      ∧ s'.protector.readOnly (H.pageOf a) = false := by
  cases hst with
  | write _ _ hd =>
      have hcase := (write_case hl.inv hl.wiring hd).2
      revert hcase
      generalize s'.protector = t'
      intro hcase
      cases hcase with
      | direct _ =>
          rw [List.mem_singleton] at hfault
          cases hfault
      | passedOn _ _ => exact absurd (List.mem_append_right _ (List.mem_singleton_self _)) hclaimed
      | trapped hp hro _ => exact ⟨hro, readOnly_unlock s.protector (H.pageOf a) hp⟩

/-! ## §2. Runs. -/

section

variable {clusterid : U64} {k : Nat} {tr : List (Platform σ × PlatformEvent)}

/-- No fault is passed on, and each reset gets an engine. -/
def PlatformEvent.served (e : PlatformEvent) : Prop := e.claimed ∧ e.getsEngine

theorem living_of_served
    (hr : ((livingCluster H O K clusterid n).restrict PlatformEvent.served).Reachable s) :
    Living H n s := by
  refine hr.invariant ?_ ?_
  · intro t h0
    rw [show t = cpu O clusterid n from h0]
    exact living_cpu H O clusterid n
  · intro t e t' ht hst
    exact ht.step hst.1.1 hst.1.2 hst.2.2

/-- A host page that is mapped read-only, as a token. -/
def readOnlyTokens (H : Host) (O : Ocx σ) (K : Kernel) (clusterid : U64) (n : Nat) :
    ((livingCluster H O K clusterid n).restrict PlatformEvent.served).Tokens U64 where
  token k s := s.protector.readOnly k = true
  use _ e := e.faultPage H
  pay _ e := e.protectedPage H
  init := by
    intro s h0 k
    rw [show s = cpu O clusterid n from h0, (cpu_built H O K clusterid n).protector]
    exact Bool.false_ne_true
  used := by
    intro s e s' k hr hst huse
    obtain ⟨a, log, rfl, hfault, rfl⟩ := PlatformEvent.faultPage_eq_some huse
    exact (fault_opens (living_of_served hr) hst.1.1 hst.2.1 hfault).1
  left := by
    intro s e s' k hr hst htoken
    refine (readOnly_platformStep hst.1.1 htoken).imp_right (fun hro => ⟨hro, ?_⟩)
    intro huse
    obtain ⟨a, log, rfl, hfault, rfl⟩ := PlatformEvent.faultPage_eq_some huse
    rw [(fault_opens (living_of_served hr) hst.1.1 hst.2.1 hfault).2] at htoken
    cases htoken

/-- The calls of one event, when the run before it has protected aligned pages. -/
theorem engineCalls_le (hk : k ≤ H.pageBits)
    (hr : (livingCluster H O K clusterid n).Run tr s) (hget : ∀ x ∈ tr, x.2.getsEngine)
    (hal : ∀ x ∈ tr, x.2.alignedTo k) {e : PlatformEvent} (hst : PlatformStep H O K s e s') :
    e.engineCalls ≤ if (e.faultPage H).isSome then 2 * n * 2 ^ (H.pageBits - k) else 0 := by
  have hl : Living H n s := living_of_run hr hget
  cases hst with
  | @write a _ log _ _ hd =>
      have hcase := (write_case hl.inv hl.wiring hd).2
      have hcount : log.countP Effect.isCall ≤ 2 * n * 2 ^ (H.pageBits - k) :=
        Nat.le_trans hcase.handlerLog.count (length_trappedCalls hk hr hal a)
      show log.countP Effect.isCall ≤ _
      revert hcase hcount
      generalize s'.protector = t'
      intro hcase hcount
      cases hcase with
      | direct _ => exact Nat.zero_le _
      | passedOn _ _ =>
          rw [PlatformEvent.faultPage_write (List.mem_append_left _ List.mem_cons_self)]
          exact hcount
      | trapped hp _ _ =>
          rw [PlatformEvent.faultPage_write (List.mem_append_left _ List.mem_cons_self)]
          exact hcount
  | _ => exact Nat.zero_le _

/-- **What the faults of a run cost.**  In every run of a cluster of `n` cores in which each
reset gets an engine and no fault is passed on to the handler installed before, each fault
has a completed `protect_page` of its own, for an address in the same host page; and if
target pages are protected at multiples of `2 ^ k`, all faults together make at most two
calls for each core, for each block of `2 ^ k` bytes of a host page and for each completed
`protect_page`. -/
theorem faults_paid (H : Host) (O : Ocx σ) (K : Kernel) (clusterid : U64) (n : Nat)
    (hr : (livingCluster H O K clusterid n).Run tr s) (hget : ∀ x ∈ tr, x.2.getsEngine)
    (hclaimed : ∀ x ∈ tr, x.2.claimed) :
    (tr.filterMap (fun x => x.2.faultPage H)).Subperm
        (tr.filterMap (fun x => x.2.protectedPage H))
    ∧ ∀ k ≤ H.pageBits, (∀ x ∈ tr, x.2.alignedTo k) →
      (tr.map (fun x => x.2.engineCalls)).sum ≤ 2 * n * 2 ^ (H.pageBits - k)
        * (tr.filterMap (fun x => x.2.protectedPage H)).length := by
  have hpaid : (tr.filterMap (fun x => x.2.faultPage H)).Subperm
      (tr.filterMap (fun x => x.2.protectedPage H)) :=
    (hr.restrict (fun x hx => ⟨hclaimed x hx, hget x hx⟩)).uses_subperm
      (readOnlyTokens H O K clusterid n)
  refine ⟨hpaid, ?_⟩
  intro k hk hal
  have hprice : ∀ x ∈ tr, x.2.engineCalls
      ≤ if (x.2.faultPage H).isSome then 2 * n * 2 ^ (H.pageBits - k) else 0 := by
    intro x hx
    obtain ⟨pre, suf, rfl⟩ := List.append_of_mem hx
    obtain ⟨hpre, t', hst, _⟩ := hr.split (t := x.1) (e := x.2) rfl
    exact engineCalls_le hk hpre (fun y hy => hget y (List.mem_append_left _ hy))
      (fun y hy => hal y (List.mem_append_left _ hy)) hst.1
  calc (tr.map (fun x => x.2.engineCalls)).sum
      ≤ 2 * n * 2 ^ (H.pageBits - k)
          * (tr.filterMap (fun x => x.2.faultPage H)).length := sum_map_le_uses _ _ _ tr hprice
    _ ≤ 2 * n * 2 ^ (H.pageBits - k)
          * (tr.filterMap (fun x => x.2.protectedPage H)).length :=
        Nat.mul_le_mul_left _ hpaid.length_le

end

/-- The first of two cores protects a page, and the page is written twice. -/
theorem faults_paid_two_writes : ∃ tr s,
    (livingCluster Host.kib4 smallOcx Kernel.reliable 0 2).Run tr s
    ∧ tr.map (fun x => x.2.faultPage Host.kib4) = [none, some 0x1000#64, none]
    ∧ (tr.map (fun x => x.2.engineCalls)).sum ≤ 4 := by
  have hok : (fun _ => true) ∈ Kernel.reliable := fun _ => rfl
  have hr₁ : (livingCluster Host.kib4 smallOcx Kernel.reliable 0 2).Run _ _ :=
    .snoc (.start rfl) ⟨.protectPage (c := 0) _ 0x1000#64 0#64 hok rfl, trivial⟩
  have hlogs : (((cpu smallOcx 0 2).protectPage Host.kib4 smallOcx (fun _ => true) 0
      0x1000#64 0#64).2.write Host.kib4 smallOcx (fun _ => true) 0x1008#64).bind (fun r =>
        (r.2.write Host.kib4 smallOcx (fun _ => true) 0x1010#64).map (fun r' => (r.1, r'.1)))
      = some ([.fault 0x1008#64, .engine 0 0 (.tbFlushPage 0#64 0xfff#64),
        .engine 0 0 (.invalidatePagePtr 0#64), .engine 1 1 (.tbFlushPage 0#64 0xfff#64),
        .engine 1 1 (.invalidatePagePtr 0#64), .store 0x1008#64], [.store 0x1010#64]) := by
    decide
  obtain ⟨⟨log₁, s₁⟩, hd₁, hlogs⟩ := Option.bind_eq_some_iff.mp hlogs
  obtain ⟨⟨log₂, s₂⟩, hd₂, heq⟩ := Option.map_eq_some_iff.mp hlogs
  injection heq with heq₁ heq₂
  have hr := (hr₁.snoc ⟨.write _ 0x1008#64 hok hd₁, trivial⟩).snoc
    ⟨.write _ 0x1010#64 hok hd₂, trivial⟩
  subst heq₁ heq₂
  refine ⟨_, _, hr, rfl, ?_⟩
  have hcost := (faults_paid Host.kib4 smallOcx Kernel.reliable 0 2 hr ?_ ?_).2 12
    (Nat.le_refl 12) ?_
  · exact hcost
  · simp [PlatformEvent.getsEngine]
  · simp [PlatformEvent.claimed]
  · simp [PlatformEvent.alignedTo]

end Avp64.Psp
