/-
  Avp64.Psp.MemProtector.HostPages — the host pages do not depend on each other.

  `register_page`, `notify_page` and the faults look one host page up and change no
  other.  A deregistration walks over all of them and treats each on its own.  The map is
  therefore a family of host pages that each follow the calls they see.

    • `registerPage_local`, `hostWrite_local` — what a call does at its own host page,
    • `hostPages`                            — the protector is local in the host pages,
    • `order_independent`                    — calls for different host pages commute.
-/
import Avp64.Lib.Locality
import Avp64.Psp.MemProtector.Sweeps

namespace Avp64.Psp

open Avp64.Lib MemProtector

variable {C : Type} {H : Host} {pageSize : C → U64} {s s' t t' : MemProtector C}
  {ok : U64 → Bool}

/-! ## §1. Calls at one host page. -/

theorem hostPage_congr {k : U64} (h : s.lookup k = t.lookup k) : s.hostPage k = t.hostPage k := by
  unfold hostPage
  rw [h]

/-- `protect_page` looks at no state, and changes nothing in the map. -/
theorem protectPage_outcome (H : Host) (ok : U64 → Bool) (a : U64) (s : MemProtector C) :
    ∃ s', protectPage H ok a s
        = (if a &&& ~~~H.pageMask ≠ 0 then .error (.invalidPageAddress a) else .ok (ok a), s')
      ∧ ∀ k, s'.lookup k = s.lookup k := by
  unfold protectPage changePage mprotect
  by_cases hal : a &&& ~~~H.pageMask ≠ 0
  · rw [if_pos hal, if_pos hal]
    exact ⟨s, rfl, fun _ => rfl⟩
  · rw [if_neg hal, if_neg hal]
    cases ok a with
    | true => exact ⟨s.setReadOnly a true, rfl, fun _ => rfl⟩
    | false => exact ⟨s, rfl, fun _ => rfl⟩

/-- **`register_page` depends on the host page of its address only.** -/
theorem registerPage_local (pageSize : C → U64) (core : C) (p h : U64)
    (heq : s.lookup (H.pageOf h) = t.lookup (H.pageOf h)) :
    (registerPage H pageSize ok core p h s).1 = (registerPage H pageSize ok core p h t).1
    ∧ (registerPage H pageSize ok core p h s).2.lookup (H.pageOf h)
      = (registerPage H pageSize ok core p h t).2.lookup (H.pageOf h) := by
  have hpage : s.hostPage (H.pageOf h) = t.hostPage (H.pageOf h) := hostPage_congr heq
  unfold registerPage
  by_cases hsz : H.getPageSize < pageSize core
  · simp only [hsz, if_true]
    exact ⟨trivial, heq⟩
  by_cases hz : pageSize core = 0
  · simp only [hz, if_true]
    split <;> exact ⟨rfl, heq⟩
  simp only [hsz, hz, if_false, hpage]
  -- the scan sees the same list in both states
  cases scanTargetPages p h (t.hostPage (H.pageOf h)).locked
      (t.hostPage (H.pageOf h)).targetPages false with
  | error e => exact ⟨rfl, by simp only [lookup_setHostPage, if_true]⟩
  | ok r =>
      cases r with
      | none => exact ⟨rfl, by simp only [lookup_setHostPage, if_true]⟩
      | some found =>
          simp only
          generalize (if found = true then t.hostPage (H.pageOf h) else _) = hp
          obtain ⟨u, hu, hlu⟩ := protectPage_outcome H ok h
            ((s.setHostPage (H.pageOf h) (t.hostPage (H.pageOf h))).setHostPage (H.pageOf h) hp)
          obtain ⟨v, hv, hlv⟩ := protectPage_outcome H ok h
            ((t.setHostPage (H.pageOf h) (t.hostPage (H.pageOf h))).setHostPage (H.pageOf h) hp)
          have huv : u.lookup (H.pageOf h) = v.lookup (H.pageOf h) := by
            rw [hlu, hlv]
            simp only [lookup_setHostPage, if_true]
          rw [hu, hv]
          by_cases hal : h &&& ~~~H.pageMask ≠ 0
          · rw [if_pos hal]
            exact ⟨rfl, huv⟩
          · rw [if_neg hal]
            cases ok h with
            | true => exact ⟨rfl, by simp only [lookup_setHostPage, if_true]⟩
            | false => exact ⟨rfl, huv⟩

theorem RegisterCase.frame {core : C} {p h k : U64} {res : Except Error Unit}
    (hcase : RegisterCase H pageSize ok core p h s res s') (hk : k ≠ H.pageOf h) :
    s'.lookup k = s.lookup k := by
  cases hcase with
  | refused _ _ => rfl
  | alreadyLocked _ _ _ _ _ _ => rfl
  | unprotected _ _ _ => rw [lookup_setHostPage, if_neg hk]
  | locked _ _ _ _ _ => rw [lookup_setReadOnly, lookup_setHostPage, if_neg hk]

theorem lookup_unlock (s : MemProtector C) (k k' : U64) (hp : HostPageData C) :
    (unlock s k hp).lookup k'
      = if k' = k then some { hp with locked := false } else s.lookup k' := by
  unfold unlock
  rw [lookup_setReadOnly, lookup_setHostPage]

/-- **`notify_page` depends on the host page of its address only.** -/
theorem notifyPage_local (a : U64) (heq : s.lookup (H.pageOf a) = t.lookup (H.pageOf a)) :
    (notifyPage H ok a s).1 = (notifyPage H ok a t).1
    ∧ (notifyPage H ok a s).2.1 = (notifyPage H ok a t).2.1
    ∧ (notifyPage H ok a s).2.2.lookup (H.pageOf a)
      = (notifyPage H ok a t).2.2.lookup (H.pageOf a) := by
  cases hl : t.lookup (H.pageOf a) with
  | none =>
      rw [notifyPage_of_none hl, notifyPage_of_none (heq.trans hl)]
      exact ⟨rfl, rfl, heq⟩
  | some hp =>
      rw [notifyPage_of_lookup hl, notifyPage_of_lookup (heq.trans hl)]
      split
      · exact ⟨rfl, rfl, by rw [lookup_unlock, lookup_unlock, if_pos rfl, if_pos rfl]⟩
      · exact ⟨rfl, rfl, heq⟩

theorem notifyPage_frame (a : U64) {k : U64} (hk : k ≠ H.pageOf a) :
    (notifyPage H ok a s).2.2.lookup k = s.lookup k := by
  cases hl : s.lookup (H.pageOf a) with
  | none => rw [notifyPage_of_none hl]
  | some hp =>
      rw [notifyPage_of_lookup hl]
      split
      · rw [lookup_unlock, if_neg hk]
      · rfl

/-- **A write depends on the host page of its address only**, where the page table agrees
with the map. -/
theorem hostWrite_local (hi : Inv H s) (hi' : Inv H t) (a : U64)
    (heq : s.lookup (H.pageOf a) = t.lookup (H.pageOf a)) :
    (hostWrite H ok a s).1 = (hostWrite H ok a t).1
    ∧ (hostWrite H ok a s).2.lookup (H.pageOf a)
      = (hostWrite H ok a t).2.lookup (H.pageOf a) := by
  have hro : s.readOnly (H.pageOf a) = t.readOnly (H.pageOf a) := by
    rw [Bool.eq_iff_iff, (hi _).readOnly_iff, (hi' _).readOnly_iff, heq]
  unfold hostWrite segfaultHandlerInt
  rw [hro]
  cases hro' : t.readOnly (H.pageOf a) with
  | false => exact ⟨rfl, heq⟩
  | true =>
      obtain ⟨hp, hl, _⟩ := hi'.locked_of_readOnly hro'
      rw [notifyPage_of_lookup hl, notifyPage_of_lookup (heq.trans hl)]
      cases hok : ok (H.pageOf a) with
      | true => simp [readOnly_unlock, lookup_unlock]
      | false => simpa [hro, hro'] using heq

theorem WriteCase.frame {a k : U64} {log : List (Action C)} (hcase : WriteCase H ok a s log s')
    (hk : k ≠ H.pageOf a) : s'.lookup k = s.lookup k := by
  cases hcase with
  | direct _ => rfl
  | unclaimed _ _ => rfl
  | trapped _ _ _ => rw [lookup_unlock, if_neg hk]

/-! ## §2. The protector as a family of host pages. -/

/-- A call without what it returns or makes happen. -/
inductive Call (C : Type) where
  | register (core : C) (pageAddr hostAddr : U64)
  | deregister (cpu : C) (pageAddr : U64)
  | deregisterRange (cpu : C) (start end_ : U64)
  | notify (addr : U64)
  | write (addr : U64)
  deriving DecidableEq, Repr

def Event.call : Event C → Call C
  | .register core p h _ => .register core p h
  | .deregister cpu p _ => .deregister cpu p
  | .deregisterRange cpu start end_ _ => .deregisterRange cpu start end_
  | .notify a _ _ _ => .notify a
  | .write a _ => .write a

/-- The call may read or change the entry of the host page `k`; a deregistration
concerns all of them. -/
def Call.concerns (H : Host) (k : U64) : Call C → Bool
  | .register _ _ h => k == H.pageOf h
  | .deregister _ _ => true
  | .deregisterRange _ _ _ => true
  | .notify a => k == H.pageOf a
  | .write a => k == H.pageOf a

/-- The events of a run that concern the host page `k`, in their order. -/
def eventsAt (H : Host) (k : U64) (tr : List (MemProtector C × Event C)) : List (Event C) :=
  (tr.map Prod.snd).filter (fun e => e.call.concerns H k)

/-- **Frame**: a call changes no host page that it does not concern. -/
theorem step_frame {e : Event C} {k : U64} {K : Kernel} (hs : Step H pageSize K s e s')
    (hk : e.call.concerns H k = false) : s'.lookup k = s.lookup k := by
  cases e with
  | register core p h res =>
      obtain ⟨_, _, hcase⟩ := step_register hs
      exact hcase.frame (beq_eq_false_iff_ne.mp hk)
  | deregister cpu p res => cases hk
  | deregisterRange cpu start end_ res => cases hk
  | notify a granted res calls =>
      obtain ⟨ok, _, _, heq⟩ := step_notify hs
      rw [show s' = (notifyPage H ok a s).2.2 from congrArg (fun r => r.2.2) heq]
      exact notifyPage_frame a (beq_eq_false_iff_ne.mp hk)
  | write a log =>
      obtain ⟨_, _, hcase⟩ := step_write hs
      exact hcase.frame (beq_eq_false_iff_ne.mp hk)

theorem reliable_eq {ok ok' : U64 → Bool} (h : ok ∈ Kernel.reliable)
    (h' : ok' ∈ Kernel.reliable) : ok = ok' :=
  funext (fun k => (h k).trans (h' k).symm)

/-- **A call does the same at a host page that looks the same**, and returns the same. -/
theorem step_same {e e' : Event C} {k : U64} (hi : Inv H s) (hi' : Inv H t)
    (hs : Step H pageSize Kernel.reliable s e s')
    (hs' : Step H pageSize Kernel.reliable t e' t') (hcall : e.call = e'.call)
    (hk : e.call.concerns H k = true) (heq : s.lookup k = t.lookup k) :
    e = e' ∧ s'.lookup k = t'.lookup k := by
  cases hs with
  | register core p h hok =>
      cases hs' with
      | register _ _ _ hok' =>
          cases hcall
          cases reliable_eq hok hok'
          obtain rfl := beq_iff_eq.mp hk
          obtain ⟨hres, hat⟩ := registerPage_local pageSize core p h heq
          exact ⟨by rw [hres], hat⟩
      | _ => cases hcall
  | deregister cpu p walk hok =>
      cases hs' with
      | deregister _ _ walk' hok' =>
          cases hcall
          obtain ⟨hres, hat⟩ := deregister_reliable hok hi (namesPage p) walk
          obtain ⟨hres', hat'⟩ := deregister_reliable hok' hi' (namesPage p) walk'
          unfold deregisterPage
          exact ⟨by rw [hres, hres'], by rw [(hat k).1, (hat' k).1, heq]⟩
      | _ => cases hcall
  | deregisterRange cpu start end_ walk hok =>
      cases hs' with
      | deregisterRange _ _ _ walk' hok' =>
          cases hcall
          obtain ⟨hres, hat⟩ := deregister_reliable hok hi (coveredBy start end_) walk
          obtain ⟨hres', hat'⟩ := deregister_reliable hok' hi' (coveredBy start end_) walk'
          unfold deregisterPages
          exact ⟨by rw [hres, hres'], by rw [(hat k).1, (hat' k).1, heq]⟩
      | _ => cases hcall
  | notify a hok =>
      cases hs' with
      | notify _ hok' =>
          cases hcall
          cases reliable_eq hok hok'
          obtain rfl := beq_iff_eq.mp hk
          obtain ⟨hres, hcalls, hat⟩ := notifyPage_local a heq
          exact ⟨by rw [hres, hcalls], hat⟩
      | _ => cases hcall
  | write a hok =>
      cases hs' with
      | write _ hok' =>
          cases hcall
          cases reliable_eq hok hok'
          obtain rfl := beq_iff_eq.mp hk
          obtain ⟨hlog, hat⟩ := hostWrite_local hi hi' a heq
          exact ⟨by rw [hlog], hat⟩
      | _ => cases hcall

/-- The protector is local in the host pages. -/
def hostPages (H : Host) (pageSize : C → U64) :
    Locality (protector H pageSize Kernel.reliable) U64 (Option (HostPageData C)) (Call C) where
  at_ k s := s.lookup k
  call := Event.call
  concerns := Call.concerns H
  init h h' := by
    cases h
    cases h'
    rfl
  frame _ hs hk := step_frame hs hk
  same hr hr' hs hs' hcall hk heq :=
    step_same (inv_of_reachable hr) (inv_of_reachable hr') hs hs' hcall hk heq

/-! ## §3. Interleavings. -/

/-- **The order of calls for different host pages does not matter.**  Two runs, such as
two interleavings of the calls of several threads, in which every host page sees the same
calls in the same order end with the same map and the same page table; and every call has
returned the same, with the same client calls. -/
theorem order_independent (H : Host) (pageSize : C → U64)
    {tr tr' : List (MemProtector C × Event C)}
    (hr : (protector H pageSize Kernel.reliable).Run tr s)
    (hr' : (protector H pageSize Kernel.reliable).Run tr' s')
    (h : ∀ k, (eventsAt H k tr).map Event.call = (eventsAt H k tr').map Event.call) :
    s = s' ∧ ∀ k, eventsAt H k tr = eventsAt H k tr' := by
  have hat : ∀ k, s.lookup k = s'.lookup k ∧ eventsAt H k tr = eventsAt H k tr' :=
    fun k => (hostPages H pageSize).run_eq hr hr' (h k)
  exact ⟨(inv_of_reachable ⟨tr, hr⟩).ext (inv_of_reachable ⟨tr', hr'⟩) (fun k => (hat k).1),
    fun k => (hat k).2⟩

/-- Two cores that register a page each, in either order. -/
theorem order_independent_registered :
    (registerPage Host.kib4 (fun _ : Bool => 4096#64) (fun _ => true) true 0x5000#64 0x2000#64
      (registerPage Host.kib4 (fun _ => 4096#64) (fun _ => true) false 0#64 0x1000#64 {}).2).2
    = (registerPage Host.kib4 (fun _ : Bool => 4096#64) (fun _ => true) false 0#64 0x1000#64
      (registerPage Host.kib4 (fun _ => 4096#64) (fun _ => true) true 0x5000#64 0x2000#64
        {}).2).2 := by
  have hok : (fun _ => true) ∈ Kernel.reliable := fun _ => rfl
  refine (order_independent Host.kib4 (fun _ : Bool => 4096#64)
    (.snoc (.snoc (.start rfl) (.register _ false 0#64 0x1000#64 hok))
      (.register _ true 0x5000#64 0x2000#64 hok))
    (.snoc (.snoc (.start rfl) (.register _ true 0x5000#64 0x2000#64 hok))
      (.register _ false 0#64 0x1000#64 hok)) ?_).1
  intro k
  have h1 : Host.kib4.pageOf 0x1000#64 = 0x1000#64 := by decide
  have h2 : Host.kib4.pageOf 0x2000#64 = 0x2000#64 := by decide
  -- a host page sees at most one of the calls
  by_cases hk : k = 0x1000#64
  · subst hk
    simp [eventsAt, Event.call, Call.concerns, h1, h2]
  · by_cases hk' : k = 0x2000#64
    · subst hk'
      simp [eventsAt, Event.call, Call.concerns, h1, h2]
    · simp [eventsAt, Event.call, Call.concerns, h1, h2, hk, hk']

end Avp64.Psp
