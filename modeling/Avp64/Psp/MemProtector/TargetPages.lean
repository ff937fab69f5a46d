/-
  Avp64.Psp.MemProtector.TargetPages — several target pages in one host page.

  A host page can hold several target pages, each with its own entry, of which only
  the first begins where the host page does.  `register_page` looks the host page up
  by its masked address, but passes the address it was given to `protect_page`, which
  accepts host page addresses only.

    • `Recorded.countP_eq_one` — a host address has one entry,
    • `register_admits_iff`    — which target pages can be protected.
-/
import Avp64.Psp.MemProtector.Protection

namespace Avp64.Psp

open Avp64.Lib MemProtector

variable {C : Type} {H : Host} {pageSize : C → U64} {K : Kernel} {s s' : MemProtector C}

/-! ## §1. One entry for a host address. -/

/-- A list without repeated host addresses has one entry for an address it holds. -/
theorem countP_hostAddress_eq_one {l : List (TargetPageData C)} {h : U64}
    (hnd : (l.map (·.hostAddress)).Nodup) (hex : ∃ tp ∈ l, tp.hostAddress = h) :
    l.countP (fun tp => tp.hostAddress == h) = 1 := by
  obtain ⟨tp, hmem, hh⟩ := hex
  have hcount : (l.map (·.hostAddress)).count h = 1 :=
    List.count_eq_one_of_mem hnd (List.mem_map.mpr ⟨tp, hmem, hh⟩)
  rw [List.count, List.countP_map] at hcount
  exact hcount

/-- Recording keeps the earlier entries, in their order. -/
theorem Recorded.keeps_list {new : TargetPageData C} {hp hp' : HostPageData C}
    (hrec : Recorded new hp hp') : hp.targetPages <+: hp'.targetPages := by
  cases hrec with
  | known _ _ => exact List.prefix_rfl
  | added _ => exact List.prefix_append _ _

/-! ## §2. Which target pages can be protected. -/

/-- The host page of `h` is read-only and locked, with one entry for `h` and all the
entries it had in `s`. -/
structure Admitted (H : Host) (s s' : MemProtector C) (h : U64) : Prop where
  readOnly : s'.readOnly (H.pageOf h) = true
  page : ∃ hp', s'.lookup (H.pageOf h) = some hp' ∧ hp'.locked = true
    ∧ hp'.targetPages.countP (fun tp => tp.hostAddress == h) = 1
    ∧ (s.hostPage (H.pageOf h)).targetPages <+: hp'.targetPages

/-- The host page of `h` is locked and has an entry for `h`. -/
def Watches (H : Host) (s : MemProtector C) (h : U64) : Prop :=
  ∃ hp, s.lookup (H.pageOf h) = some hp ∧ hp.locked = true
    ∧ ∃ tp ∈ hp.targetPages, tp.hostAddress = h

/-- No page of `2 ^ k` bytes is larger than a host page of `2 ^ b ≥ 2 ^ k`. -/
theorem not_getPageSize_lt {k : Nat} (hk : k ≤ H.pageBits) :
    ¬ H.getPageSize < BitVec.twoPow 64 k := by
  have hb := H.pageBits_lt
  unfold Host.getPageSize
  rw [BitVec.lt_def, BitVec.toNat_twoPow_of_lt hb, BitVec.toNat_twoPow_of_lt (by omega)]
  exact Nat.not_lt.mpr (Nat.pow_le_pow_right (by omega) hk)

theorem twoPow_ne_zero {k : Nat} (hk : k ≤ H.pageBits) : BitVec.twoPow 64 k ≠ 0 := by
  have hb := H.pageBits_lt
  intro h
  have hz := congrArg BitVec.toNat h
  rw [BitVec.toNat_twoPow_of_lt (by omega)] at hz
  exact absurd hz (Nat.ne_of_gt (Nat.two_pow_pos k))

/-- **Which target pages can be protected**: in any reachable state, a target page of
`2 ^ k` bytes that agrees with the entry of its host address is protected exactly when
its host address begins a host page, or it is protected already. -/
theorem register_admits_iff (H : Host) (pageSize : C → U64)
    (hr : (protector H pageSize K).Reachable s) {core : C} {k : Nat} (hk : k ≤ H.pageBits)
    (hsize : pageSize core = BitVec.twoPow 64 k) {p h : U64}
    (hagree : ∀ key hp, s.lookup key = some hp → ∀ tp ∈ hp.targetPages,
      tp.hostAddress = h → tp.pageAddr = p)
    {ok : U64 → Bool} (hok : ∀ a, H.pageOf a = a → ok a = true) :
    ((registerPage H pageSize ok core p h s).1 = .ok ()
      ∧ Admitted H s (registerPage H pageSize ok core p h s).2 h)
    ↔ H.pageOf h = h ∨ Watches H s h := by
  have hi : Inv H s := inv_of_reachable hr
  have hi' : Inv H (registerPage H pageSize ok core p h s).2 :=
    inv_step hi (.register s core p h (show ok ∈ Kernel.any from Set.mem_univ ok))
  have hcase := registerPage_case H pageSize ok core p h s
  revert hcase hi'
  generalize (registerPage H pageSize ok core p h s).1 = res
  generalize (registerPage H pageSize ok core p h s).2 = s'
  intro hi' hcase
  cases hcase with
  | refused e hwhy =>
      -- neither the page size nor the page address gives a reason
      rw [hsize] at hwhy
      rcases hwhy with hlt | hz | ⟨tp, hmem, hh, hne⟩
      · exact absurd hlt (not_getPageSize_lt hk)
      · exact absurd hz (twoPow_ne_zero hk)
      · exact absurd (hagree _ _ (lookup_of_mem hmem) tp hmem hh) hne
  | alreadyLocked _ hl hlock hmem hh hp =>
      refine iff_of_true ⟨rfl, ?_, _, hl, hlock, ?_, ?_⟩ (.inr ⟨_, hl, hlock, _, hmem, hh⟩)
      · exact hi.readOnly_of_locked hl hlock
      · exact countP_hostAddress_eq_one ((hi _).distinct _ hl) ⟨_, hmem, hh⟩
      · rw [hostPage_of_lookup hl]
  | unprotected e hrec hfail =>
      -- the kernel accepts every host page, so `h` is none, and it was not watched
      refine iff_of_false (fun hres => by cases hres.1) ?_
      have hne : H.pageOf h ≠ h := by
        rcases hfail with hne | hno
        · exact hne
        · intro hal
          rw [hok h hal] at hno
          cases hno
      rintro (hal | ⟨hp₀, hl, hlock, tp, hmem, hh⟩)
      · exact hne hal
      · have hpage := hostPage_of_lookup hl
        cases hrec with
        | known _ hopen =>
            rw [hpage, hlock] at hopen
            cases hopen
        | added hfresh =>
            rw [hpage] at hfresh
            exact hfresh tp hmem hh
  | @locked hp _ hrec hagree' hal _ =>
      have hl' : ((s.setHostPage (H.pageOf h) { hp with locked := true }).setReadOnly
          (H.pageOf h) true).lookup (H.pageOf h) = some { hp with locked := true } := by
        rw [lookup_setReadOnly, lookup_setHostPage, if_pos rfl]
      obtain ⟨tp, hmem, hh, _⟩ := hrec.exists_mem hagree'
      refine iff_of_true ⟨rfl, ?_, _, hl', rfl, ?_, hrec.keeps_list⟩ (.inl hal)
      · rw [readOnly_setReadOnly, if_pos rfl]
      · exact countP_hostAddress_eq_one ((hi' _).distinct _ hl') ⟨tp, hmem, hh⟩

/-- The first page of an empty protector, on a host page boundary. -/
theorem register_admits_first :
    ((registerPage Host.kib4 (fun _ : Unit => 4096#64) (fun _ => true) () 0#64 0x1000#64
        {}).1 = .ok ()
      ∧ Admitted Host.kib4 {} (registerPage Host.kib4 (fun _ : Unit => 4096#64)
        (fun _ => true) () 0#64 0x1000#64 {}).2 0x1000#64)
    ↔ Host.kib4.pageOf 0x1000#64 = 0x1000#64 ∨ Watches Host.kib4 ({} : MemProtector Unit)
      0x1000#64 :=
  register_admits_iff Host.kib4 (fun _ : Unit => 4096#64)
    (show (protector Host.kib4 (fun _ : Unit => 4096#64) Kernel.any).Reachable {} from
      ⟨[], .start rfl⟩) (k := 12) (Nat.le_refl _) rfl
    (fun _ _ hl => by cases hl) (fun _ _ => rfl)

/-- A host with pages of 16 KiB. -/
def Host.kib16 : Host := ⟨14, by decide⟩

/-- The second target page of 4 KiB in a host page of 16 KiB is refused. -/
theorem second_target_page_refused :
    ¬ ∀ s : MemProtector Unit,
      (protector Host.kib16 (fun _ => 4096#64) Kernel.reliable).Reachable s →
      ∀ ok ∈ Kernel.reliable, ∀ p h : U64, h.toNat % 4096 = 0 →
        (∀ key hp, s.lookup key = some hp → ∀ tp ∈ hp.targetPages,
          tp.hostAddress = h → tp.pageAddr = p) →
        (registerPage Host.kib16 (fun _ : Unit => 4096#64) ok () p h s).1 = .ok () := by
  intro hall
  have hres := hall {} ⟨[], .start rfl⟩ (fun _ => true) (fun _ => rfl) 0x1000#64 0x5000#64
    (by decide) (fun _ _ hl => by cases hl)
  cases hres

end Avp64.Psp
