/-
  Avp64.Psp.Platform.Service — writes that are carried out to their end.

  A trapped write calls `update_page` of every client that is stored for its host page,
  and each of these calls reaches the engines of the living subscribers.  On a destroyed
  core, and through an `m_core` that a failed reset has left null, such a call has no
  defined behaviour.  Everywhere else the write is carried out, whatever `mprotect`
  answers.

    • `write_defined`        — the state in which a write is carried out,
    • `serviceable_step`     — the steps that keep all writes so,
    • `serviceable_of_run`   — and their runs.
-/
import Avp64.Psp.Platform.Syscalls

namespace Avp64.Psp

open Avp64.Lib MemProtector

variable {σ : Type} {H : Host} {O : Ocx σ} {K : Kernel} {s s' : Platform σ}

namespace Platform

/-! ## §1. One write. -/

/-- Every core that is there has an engine. -/
def AllEngines (s : Platform σ) : Prop := ∀ c, s.locks c = true → s.hasEngine c = true

theorem Frame.allEngines (hf : Frame Core.SameLife s s') (h : s.AllEngines) :
    s'.AllEngines := by
  intro c hc
  unfold hasEngine
  rw [hf.engine c]
  exact h c ((hf.cores_isSome c).symm.trans hc)

theorem AllEngines.setCore (h : s.AllEngines) (c : Nat) {core : Option (Core σ)}
    (hcore : ∀ x, core = some x → x.mCore.isSome = true) : (s.setCore c core).AllEngines := by
  intro i hi
  unfold locks at hi
  unfold hasEngine
  rw [setCore_cores] at hi
  rw [engine_setCore]
  by_cases heq : i = c
  · rw [if_pos heq] at hi ⊢
    obtain ⟨x, hx⟩ := Option.isSome_iff_exists.mp hi
    rw [hx, Option.bind_some, Option.isSome_map]
    exact hcore x hx
  · rw [if_neg heq] at hi ⊢
    exact h i hi

theorem updatePage_defined (h : s.AllEngines) {c : Nat} (hc : s.locks c = true) (p : U64) :
    ∃ log s', s.updatePage O c p = some (log, s') := by
  obtain ⟨core, hc⟩ := Option.isSome_iff_exists.mp hc
  obtain ⟨s', heq, _⟩ := callAll_spec (flushPage_makes (O := O) p) hc h
  exact ⟨_, s', (updatePage_eq c p s).trans heq⟩

/-- **The handler comes to its end** if the cores it calls are there. -/
theorem runActions_defined :
    ∀ (actions : List (Action Nat)) (s : Platform σ), s.AllEngines →
      (∀ c p, .updatePage c p ∈ actions → s.locks c = true) →
      ∃ log s', s.runActions O actions = some (log, s') := by
  intro actions
  induction actions with
  | nil => intro s _ _; exact ⟨[], s, rfl⟩
  | cons x actions ih =>
      intro s h hcalls
      cases hx : plainEffect x with
      | some e =>
          obtain ⟨log, s', heq⟩ :=
            ih s h (fun c p hmem => hcalls c p (List.mem_cons_of_mem x hmem))
          exact ⟨_, s', by rw [runActions_plain hx, heq, Option.bind_some]⟩
      | none =>
          cases x with
          | updatePage c p =>
              obtain ⟨log, s₁, h₁⟩ :=
                updatePage_defined (O := O) h (hcalls c p List.mem_cons_self) p
              -- the call leaves all cores and engines there
              have hf := updatePage_frame h₁
              obtain ⟨log', s', heq⟩ := ih s₁ (hf.allEngines h) (by
                intro c' p' hmem
                exact (hf.cores_isSome c').trans
                  (hcalls c' p' (List.mem_cons_of_mem _ hmem)))
              refine ⟨log ++ log', s', ?_⟩
              simp only [runActions_update, h₁, heq, Option.bind_some]
          | _ => cases hx

/-- No destroyed core has an entry in the host page of `a`. -/
def Serves (H : Host) (a : U64) (s : Platform σ) : Prop :=
  ∀ tp ∈ (s.protector.hostPage (H.pageOf a)).targetPages, s.locks tp.c = true

/-- **A write is carried out** if every core has an engine and no destroyed core an entry
in the host page. -/
theorem write_defined (h : s.AllEngines) {a : U64} (hserves : s.Serves H a)
    (ok : U64 → Bool) : ∃ log s', s.write H O ok a = some (log, s') := by
  refine runActions_defined _ _ (fun c hc => h c hc) ?_
  intro c p hmem
  obtain ⟨tp, htp, rfl, _⟩ := called_of_hostWrite hmem
  exact hserves tp htp

/-! ## §2. Steps and runs. -/

/-- Every core has an engine, and no destroyed core has an entry. -/
structure Serviceable (s : Platform σ) : Prop where
  engines : s.AllEngines
  clients : ∀ c, s.HasEntry c → s.locks c = true

theorem Serviceable.serves (h : s.Serviceable) (H : Host) (a : U64) : s.Serves H a := by
  intro tp hmem
  cases hl : s.protector.lookup (H.pageOf a) with
  | none =>
      unfold MemProtector.hostPage at hmem
      rw [hl] at hmem
      cases hmem
  | some hp =>
      rw [hostPage_of_lookup hl] at hmem
      exact h.clients tp.c ⟨_, hp, tp, hl, hmem, rfl⟩

/-- An engine in another state. -/
theorem Serviceable.setState (h : s.Serviceable) (c : Nat) (core : Core σ)
    (inst : OcxInstance σ) :
    (s.setCore c (some { core with mCore := some inst })).Serviceable := by
  refine ⟨h.engines.setCore c (fun x hx => by injection hx with hx; rw [← hx]; rfl), ?_⟩
  intro i hent
  unfold locks
  rw [setCore_cores]
  by_cases heq : i = c
  · rw [if_pos heq]
    rfl
  · rw [if_neg heq]
    exact h.clients i hent

theorem Serviceable.write (h : s.Serviceable) (H : Host) (O : Ocx σ) (ok : U64 → Bool)
    (a : U64) : ∃ log s', s.write H O ok a = some (log, s') :=
  write_defined h.engines (h.serves H a) ok

end Platform

open Platform

/-- The event takes neither a core nor an engine away that the handler may call: it
destroys no core that has an entry, and a reset gets an engine. -/
def PlatformEvent.sparesHandlers (s : Platform σ) : PlatformEvent → Prop
  | .destroy c _ => ¬ s.HasEntry c
  | .reset _ created _ _ => created = true
  | _ => True

theorem PlatformEvent.sparesHandlers.getsEngine {e : PlatformEvent}
    (h : e.sparesHandlers s) : e.getsEngine := by
  cases e with
  | reset c created deleted res => exact h
  | _ => trivial

theorem PlatformEvent.sparesHandlers.sparesEntries {e : PlatformEvent}
    (h : e.sparesHandlers s) : e.sparesEntries s := by
  cases e with
  | reset c created deleted res => exact .inl h
  | destroy c deleted => exact h
  | _ => trivial

/-- **The cores keep their engines** as long as each reset gets one. -/
theorem allEngines_step {e : PlatformEvent} (hload : s.AllLoaded) (h : s.AllEngines)
    (hst : PlatformStep H O K s e s') (he : e.getsEngine) : s'.AllEngines := by
  cases hst with
  | construct procid coreid =>
      refine h.setCore s.nextCore ?_
      intro x hx
      obtain ⟨st, _, _, heq⟩ := Core.construct_opened O procid coreid s.nextInst
      injection hx with hx
      rw [← hx, heq]
      rfl
  | addSyscallSubscriber _ _ => exact (addSyscallSubscriber_frame _ _ s).allEngines h
  | protectPage pagePtr pageAddr _ _ => exact h
  | invalidateDmi start end_ walk _ hd =>
      obtain ⟨s₁, hf, _, rfl⟩ := invalidateDmi_some hd
      exact hf.allEngines h
  | @reset c core flush created hc =>
      refine h.setCore c ?_
      intro x hx
      injection hx with hx
      rw [← hx]
      exact (Core.reset_engine (hload c core hc) flush s.nextInst created).isSome.trans he
  | destroy _ => exact h.setCore _ (fun x hx => by cases hx)
  | write addr _ hd => exact (runActions_frame _ _ hd).allEngines h

/-- **A step that spares the handlers** leaves every write one that is carried out. -/
theorem serviceable_step {e : PlatformEvent} (hload : s.AllLoaded) (h : s.Serviceable)
    (hst : PlatformStep H O K s e s') (he : e.sparesHandlers s) : s'.Serviceable := by
  have hengines := allEngines_step hload h.engines hst he.getsEngine
  refine ⟨hengines, ?_⟩
  -- the clients are alive, so they are there
  have halive : s.ClientsAlive H K :=
    clientsAlive_iff.mpr (fun c hent => h.engines c (h.clients c hent))
  have halive' := clientsAlive_iff.mp
    ((clients_alive_step_iff hload halive hst).mpr he.sparesEntries)
  intro c hent
  obtain ⟨inst, hinst⟩ := Option.isSome_iff_exists.mp (halive' c hent)
  obtain ⟨core, _, hc, _⟩ := engine_eq_some hinst
  exact locks_of_some hc

/-- A platform with no entries. -/
theorem serviceable_of_protector (h : s.AllEngines) (hprot : s.protector = {}) :
    s.Serviceable := by
  refine ⟨h, ?_⟩
  rintro c ⟨k, hp, tp, hl, _⟩
  rw [hprot] at hl
  cases hl

/-- **In a run that spares the handlers every write is carried out.** -/
theorem serviceable_of_run {tr : List (Platform σ × PlatformEvent)}
    (hr : (platform H O K).Run tr s) (hspares : ∀ x ∈ tr, x.2.sparesHandlers x.1) :
    s.Serviceable := by
  induction hr with
  | @start t h0 =>
      rw [show t = {} from h0]
      exact serviceable_of_protector (fun c hc => by cases hc) rfl
  | @snoc tr t t' e hpre hst ih =>
      have hold := ih (fun x hx => hspares x (List.mem_append_left _ hx))
      exact serviceable_step (allLoaded_of_reachable ⟨tr, hpre⟩) hold hst
        (hspares (t, e) (by simp))

end Avp64.Psp
