/-
  Avp64.Psp.Platform.Lifetime — the entries of the protector, and the life of the
  cores they point to.

  The singleton outlives the cores and stores raw pointers to them.  A core
  deregisters in `invalidate_dmi` only: `~core` and a `reset` that gets no new engine
  leave its entries behind.

    • `entry_step`             — entries come from `protect_page` alone,
    • `clients_alive_step_iff` — the steps that keep every stored client alive,
    • `clients_alive_run_iff`  — the runs that keep every stored client alive.
-/
import Avp64.Psp.Platform.Runs

namespace Avp64.Psp

open Avp64.Lib MemProtector

variable {σ : Type} {H : Host} {O : Ocx σ} {K : Kernel} {s s' : Platform σ}

/-! ## §1. Entries of a core. -/

/-- An entry after a step was there before it, or its client has registered it. -/
theorem entry_step {e : PlatformEvent} (hst : PlatformStep H O K s e s') {k : U64}
    {hp' : HostPageData Nat} (hl : s'.protector.lookup k = some hp')
    {tp : TargetPageData Nat} (hmem : tp ∈ hp'.targetPages) :
    (∃ hp, s.protector.lookup k = some hp ∧ tp ∈ hp.targetPages)
    ∨ ∃ res, e = .protectPage tp.c tp.hostAddress tp.pageAddr res := by
  have hpart := platformStep_protector hst
  revert hpart hl
  generalize s'.protector = t'
  intro hl hpart
  cases hpart with
  | registered hs =>
      rcases pageStep_mem (step_page hs k) hl hmem with hold | ⟨_, res, heq⟩
      · exact .inl hold
      · injection heq with hc hp hh hres
        rw [hc, hp, hh]
        exact .inr ⟨_, rfl⟩
  | deregistered hs =>
      rcases pageStep_mem (step_page hs k) hl hmem with hold | ⟨_, res, heq⟩
      · exact .inl hold
      · cases heq
  | written actions hs =>
      rcases pageStep_mem (step_page hs k) hl hmem with hold | ⟨_, res, heq⟩
      · exact .inl hold
      · cases heq
  | quiet _ => exact .inl ⟨hp', hl, hmem⟩

namespace Platform

/-- `m_protected_pages` holds an entry of the core `c`. -/
def HasEntry (s : Platform σ) (c : Nat) : Prop :=
  ∃ k hp tp, s.protector.lookup k = some hp ∧ tp ∈ hp.targetPages ∧ tp.c = c

/-- The core `c` is there, and its `m_core` is not null. -/
def Alive (s : Platform σ) (c : Nat) : Prop :=
  ∃ core, s.cores c = some core ∧ core.mCore.isSome = true

theorem alive_iff {c : Nat} : s.Alive c ↔ (s.engine c).isSome = true := by
  unfold Alive Platform.engine
  cases s.cores c with
  | none => simp
  | some core => simp

/-- **No dangling client**: every entry refers to a core that is alive, and
`notify_page` calls `update_page` on such cores only. -/
structure ClientsAlive (H : Host) (K : Kernel) (s : Platform σ) : Prop where
  entries : ∀ k hp, s.protector.lookup k = some hp → ∀ tp ∈ hp.targetPages, s.Alive tp.c
  calls : ∀ ok ∈ K, ∀ addr c pageAddr,
    .updatePage c pageAddr ∈ (notifyPage H ok addr s.protector).2.1 → s.Alive c

/-- The calls of `notify_page` go to stored clients. -/
theorem hasEntry_of_called {ok : U64 → Bool} {addr pageAddr : U64} {c : Nat}
    (h : .updatePage c pageAddr ∈ (notifyPage H ok addr s.protector).2.1) :
    s.HasEntry c := by
  cases hl : s.protector.lookup (H.pageOf addr) with
  | none =>
      rw [notifyPage_of_none hl] at h
      cases h
  | some hp =>
      have hcalls : .updatePage c pageAddr ∈ updateCalls hp := by
        rw [notifyPage_of_lookup hl] at h
        split at h <;> exact h
      obtain ⟨tp, hmem, hc, _⟩ := mem_updateCalls.mp hcalls
      exact ⟨_, hp, tp, hl, hmem, hc⟩

theorem clientsAlive_iff :
    s.ClientsAlive H K ↔ ∀ c, s.HasEntry c → (s.engine c).isSome = true := by
  constructor
  · intro h c hc
    obtain ⟨k, hp, tp, hl, hmem, rfl⟩ := hc
    exact alive_iff.mp (h.entries k hp hl tp hmem)
  · intro h
    constructor
    · intro k hp hl tp hmem
      exact alive_iff.mpr (h tp.c ⟨k, hp, tp, hl, hmem, rfl⟩)
    · intro ok _ addr c pageAddr hcall
      exact alive_iff.mpr (h c (hasEntry_of_called hcall))

end Platform

/-! ## §2. Steps. -/

/-- The step does not end the life of a core, or of its engine, that has an entry. -/
def PlatformEvent.sparesEntries (s : Platform σ) : PlatformEvent → Prop
  | .destroy c _ => ¬ s.HasEntry c
  | .reset c created _ _ => created = true ∨ ¬ s.HasEntry c
  | _ => True

/-- A core that calls `protect_page` has an engine. -/
theorem engine_of_protectPage {c : Nat} {pagePtr pageAddr : U64}
    {res : Except Error Unit}
    (hst : PlatformStep H O K s (.protectPage c pagePtr pageAddr res) s') :
    (s.engine c).isSome = true := by
  cases hst with
  | protectPage _ _ _ he => exact he

/-- A core with an entry had it before the step, or calls `protect_page` in it. -/
theorem hasEntry_step {e : PlatformEvent} (hst : PlatformStep H O K s e s') {c : Nat}
    (h : s'.HasEntry c) :
    s.HasEntry c ∨ ∃ pagePtr pageAddr res, e = .protectPage c pagePtr pageAddr res := by
  obtain ⟨k, hp, tp, hl, hmem, rfl⟩ := h
  rcases entry_step hst hl hmem with ⟨hp₀, hl₀, hmem₀⟩ | ⟨res, he⟩
  · exact .inl ⟨k, hp₀, tp, hl₀, hmem₀, rfl⟩
  · exact .inr ⟨_, _, res, he⟩

/-- A quiet step moves no entry. -/
theorem hasEntry_quiet {e : PlatformEvent} (hst : PlatformStep H O K s e s')
    (he : e.quiet) (c : Nat) : s'.HasEntry c ↔ s.HasEntry c := by
  have hpart := platformStep_protector hst
  unfold Platform.HasEntry
  revert hpart
  generalize s'.protector = t'
  intro hpart
  cases hpart with
  | quiet _ => exact Iff.rfl
  | _ => exact absurd he (fun h => h)

/-- **The steps that keep every stored client alive.** -/
theorem clients_alive_step_iff {e : PlatformEvent} (hload : s.AllLoaded)
    (hc : s.ClientsAlive H K) (hst : PlatformStep H O K s e s') :
    s'.ClientsAlive H K ↔ e.sparesEntries s := by
  rw [Platform.clientsAlive_iff] at hc ⊢
  -- a client that is stored after the step had an engine before it
  have hbefore : ∀ c, s'.HasEntry c → (s.engine c).isSome = true := by
    intro c h
    rcases hasEntry_step hst h with h | ⟨pagePtr, pageAddr, res, rfl⟩
    · exact hc c h
    · exact engine_of_protectPage hst
  have hafter := engine_step hload hst
  cases e with
  | construct procid coreid =>
      refine iff_of_true ?_ trivial
      intro c h
      rw [hafter c]
      exact decide_eq_true (.inr (hbefore c h))
  | reset c' created deleted res =>
      have hsame := hasEntry_quiet hst trivial
      constructor
      · intro h
        by_cases hcr : created = true
        · exact .inl hcr
        · refine .inr ?_
          intro hent
          -- the entry is still there, but `m_core` is null after a failed reset
          have hsome := h c' ((hsame c').mpr hent)
          rw [hafter c'] at hsome
          have hsome : (if c' = c' then created else (s.engine c').isSome) = true := hsome
          rw [if_pos rfl] at hsome
          exact hcr hsome
      · intro h c hent
        rw [hafter c]
        show (if c = c' then created else (s.engine c).isSome) = true
        by_cases heq : c = c'
        · rw [if_pos heq]
          rcases h with hcr | hno
          · exact hcr
          · exact absurd ((hsame c').mp (heq ▸ hent)) hno
        · rw [if_neg heq]
          exact hbefore c hent
  | destroy c' deleted =>
      have hsame := hasEntry_quiet hst trivial
      constructor
      · intro h hent
        -- the entry is still there, and its core is not
        have hsome := h c' ((hsame c').mpr hent)
        rw [hafter c'] at hsome
        exact (of_decide_eq_true hsome).1 rfl
      · intro h c hent
        rw [hafter c]
        refine decide_eq_true ⟨?_, hbefore c hent⟩
        rintro rfl
        exact h ((hsame c).mp hent)
  | _ =>
      refine iff_of_true ?_ trivial
      intro c h
      rw [hafter c]
      exact hbefore c h

/-! ## §3. Runs. -/

/-- **When no stored client dangles**: exactly in the runs that destroy no core that
has an entry, and in which no reset of such a core fails to get an engine. -/
theorem clients_alive_run_iff (H : Host) (O : Ocx σ) (K : Kernel)
    {tr : List (Platform σ × PlatformEvent)} {s : Platform σ}
    (hr : (platform H O K).Run tr s) :
    Always (fun _ t => t.ClientsAlive H K) tr s ↔ ∀ x ∈ tr, x.2.sparesEntries x.1 := by
  refine hr.always_iff (C := fun t e => e.sparesEntries t) ?_ ?_
  · intro t h0
    rw [show t = {} from h0, Platform.clientsAlive_iff]
    intro c hent
    obtain ⟨k, hp, tp, hl, _⟩ := hent
    cases hl
  · intro pre t e t' hpre hc hst
    exact clients_alive_step_iff (allLoaded_of_reachable ⟨pre, hpre⟩) hc hst

/-- A core is constructed and protects a page. -/
theorem clients_alive_one_page :
    Always (fun _ t => t.ClientsAlive Host.kib4 Kernel.any)
      [(({} : Platform SmallEngine), PlatformEvent.construct 0 0),
        (({} : Platform SmallEngine).construct smallOcx 0 0,
          PlatformEvent.protectPage 0 0x1000#64 0#64 (.ok ()))]
      ((({} : Platform SmallEngine).construct smallOcx 0 0).protectPage Host.kib4 smallOcx
        (fun _ => true) 0 0x1000#64 0#64).2
    ↔ ∀ x ∈ [(({} : Platform SmallEngine), PlatformEvent.construct 0 0),
        (({} : Platform SmallEngine).construct smallOcx 0 0,
          PlatformEvent.protectPage 0 0x1000#64 0#64 (.ok ()))], x.2.sparesEntries x.1 := by
  have hok : (fun _ => true) ∈ Kernel.any := trivial
  have hr : (platform Host.kib4 smallOcx Kernel.any).Run _ _ :=
    .snoc (.snoc (.start rfl) (.construct _ 0 0))
      (.protectPage (c := 0) _ 0x1000#64 0#64 hok rfl)
  exact clients_alive_run_iff Host.kib4 smallOcx Kernel.any hr

/-- A core protects a page and is destroyed; a write to the page calls its
`update_page`. -/
theorem destroyed_client_called :
    ¬ ∀ (tr : List (Platform SmallEngine × PlatformEvent)) (s : Platform SmallEngine),
      (platform Host.kib4 smallOcx Kernel.reliable).Run tr s →
      (∀ k hp, s.protector.lookup k = some hp → ∀ tp ∈ hp.targetPages, s.Alive tp.c)
      ∧ ∀ ok ∈ Kernel.reliable, ∀ addr c pageAddr,
        .updatePage c pageAddr ∈ (notifyPage Host.kib4 ok addr s.protector).2.1 →
        s.Alive c := by
  intro hall
  have hok : (fun _ => true) ∈ Kernel.reliable := fun _ => rfl
  have hr : (platform Host.kib4 smallOcx Kernel.reliable).Run _ _ :=
    .snoc (.snoc (.snoc (.start rfl) (.construct _ 0 0))
      (.protectPage (c := 0) _ 0x1000#64 0#64 hok rfl)) (.destroy (c := 0) _ rfl)
  -- the handler calls core 0, which is gone
  obtain ⟨core, hc, _⟩ := (hall _ _ hr).2 _ hok 0x1008#64 0 0#64 (List.mem_singleton.mpr rfl)
  cases hc

end Avp64.Psp
