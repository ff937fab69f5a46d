/-
  Avp64.Psp.Platform.Operations — what a trapped write does to the cores.

  `update_page` makes calls of engines and nothing else: the cores, their engines
  and the protector stay what they are.  `Frame` says so, for a relation between a
  core before and after; the runs of calls compose by transitivity.

    • `runActions_frame` — whatever the handler calls, the cores live on,
    • `updatePage_spec`  — a core whose subscribers all have an engine flushes the
                           page in its engine and in all of theirs,
    • `runActions_calls` — the calls of a trapped write, one after the other.
-/
import Avp64.Lib.ExpiringList
import Avp64.Psp.Core.Operations
import Avp64.Psp.Platform.Def

namespace Avp64.Psp

open Avp64.Lib

variable {σ : Type} {O : Ocx σ}

/-! ## §1. Frames. -/

/-- The same engine instance, and the library as it was. -/
structure Core.SameLife (core core' : Core σ) : Prop where
  id : core'.mCore.map (·.id) = core.mCore.map (·.id)
  loaded : core'.Loaded ↔ core.Loaded

theorem Core.SameLife.refl (core : Core σ) : core.SameLife core := ⟨rfl, Iff.rfl⟩

theorem Core.SameLife.trans {a b c : Core σ} (h : a.SameLife b) (h' : b.SameLife c) :
    a.SameLife c :=
  ⟨h'.id.trans h.id, h'.loaded.trans h.loaded⟩

theorem Core.Kept.sameLife {core core' : Core σ} (h : core.Kept core') :
    core.SameLife core' :=
  ⟨h.id, h.loaded⟩

/-- The same engine instance, and all other fields but the list of subscribers. -/
structure Core.SameFields (core core' : Core σ) : Prop where
  frame : core' = { core with
    mCore := core'.mCore, mSyscallSubscriber := core'.mSyscallSubscriber }
  id : core'.mCore.map (·.id) = core.mCore.map (·.id)

theorem Core.SameFields.refl (core : Core σ) : core.SameFields core := ⟨rfl, rfl⟩

theorem Core.SameFields.trans {a b c : Core σ} (h : a.SameFields b) (h' : b.SameFields c) :
    a.SameFields c := by
  refine ⟨?_, h'.id.trans h.id⟩
  have h2 := h'.frame
  rw [h.frame] at h2
  exact h2

theorem Core.SameFields.sameLife {core core' : Core σ} (h : core.SameFields core') :
    core.SameLife core' := by
  refine ⟨h.id, ?_⟩
  rw [h.frame]
  exact Iff.rfl

theorem Core.Kept.sameFields {core core' : Core σ} (h : core.Kept core') :
    core.SameFields core' := by
  refine ⟨?_, h.id⟩
  have hframe := h.frame
  rw [hframe]

namespace Platform

variable {s s' s'' : Platform σ} {R : Core σ → Core σ → Prop}

/-- Nothing changed but the cores, and each core as `R` says. -/
structure Frame (R : Core σ → Core σ → Prop) (s s' : Platform σ) : Prop where
  protector : s'.protector = s.protector
  nextCore : s'.nextCore = s.nextCore
  nextInst : s'.nextInst = s.nextInst
  cores : ∀ c, Option.Rel R (s.cores c) (s'.cores c)

theorem Frame.refl (hR : ∀ core, R core core) (s : Platform σ) : Frame R s s := by
  refine ⟨rfl, rfl, rfl, ?_⟩
  intro c
  cases s.cores c with
  | none => exact .none
  | some core => exact .some (hR core)

theorem Frame.trans (hR : ∀ a b c, R a b → R b c → R a c) (h : Frame R s s')
    (h' : Frame R s' s'') : Frame R s s'' := by
  refine ⟨h'.protector.trans h.protector, h'.nextCore.trans h.nextCore,
    h'.nextInst.trans h.nextInst, ?_⟩
  intro c
  have hc := h.cores c
  have hc' := h'.cores c
  revert hc hc'
  generalize s.cores c = x
  generalize s'.cores c = y
  generalize s''.cores c = z
  intro hc hc'
  cases hc with
  | none => exact hc'
  | some hab =>
      cases hc' with
      | some hbc => exact .some (hR _ _ _ hab hbc)

/-- A core is there before and after the step, or neither. -/
theorem Frame.core_case (h : Frame R s s') (c : Nat) :
    (s.cores c = none ∧ s'.cores c = none)
      ∨ ∃ core core', s.cores c = some core ∧ s'.cores c = some core' ∧ R core core' := by
  have hc := h.cores c
  revert hc
  generalize s.cores c = x
  generalize s'.cores c = y
  intro hc
  cases hc with
  | none => exact .inl ⟨rfl, rfl⟩
  | some hR => exact .inr ⟨_, _, rfl, rfl, hR⟩

theorem Frame.mono {R' : Core σ → Core σ → Prop} (hR : ∀ a b, R a b → R' a b)
    (h : Frame R s s') : Frame R' s s' := by
  refine ⟨h.protector, h.nextCore, h.nextInst, ?_⟩
  intro c
  rcases h.core_case c with ⟨hn, hn'⟩ | ⟨core, core', hs, hs', hrel⟩
  · rw [hn, hn']
    exact .none
  · rw [hs, hs']
    exact .some (hR _ _ hrel)

/-- A core after the step comes from one before it. -/
theorem Frame.of_some (h : Frame R s s') {c : Nat} {core' : Core σ}
    (hc : s'.cores c = some core') : ∃ core, s.cores c = some core ∧ R core core' := by
  rcases h.core_case c with ⟨_, hn'⟩ | ⟨core, core'', hs, hs', hrel⟩
  · rw [hc] at hn'
    cases hn'
  · rw [hc] at hs'
    injection hs' with heq
    exact ⟨core, hs, heq ▸ hrel⟩

theorem Frame.exists_some (h : Frame R s s') {c : Nat} {core : Core σ}
    (hc : s.cores c = some core) : ∃ core', s'.cores c = some core' ∧ R core core' := by
  rcases h.core_case c with ⟨hn, _⟩ | ⟨core'', core', hs, hs', hrel⟩
  · rw [hc] at hn
    cases hn
  · rw [hc] at hs
    injection hs with heq
    exact ⟨core', hs', heq ▸ hrel⟩

theorem Frame.engine (h : Frame Core.SameLife s s') (c : Nat) :
    s'.engine c = s.engine c := by
  unfold Platform.engine
  rcases h.core_case c with ⟨hn, hn'⟩ | ⟨core, core', hs, hs', hlife⟩
  · rw [hn, hn']
  · rw [hs, hs']
    exact hlife.id

theorem Frame.cores_isSome (h : Frame R s s') (c : Nat) :
    (s'.cores c).isSome = (s.cores c).isSome := by
  rcases h.core_case c with ⟨hn, hn'⟩ | ⟨core, core', hs, hs', _⟩
  · rw [hn, hn']
  · rw [hs, hs']
    rfl

theorem Frame.life (h : Frame Core.Kept s s') : Frame Core.SameLife s s' :=
  h.mono (fun _ _ hk => hk.sameLife)

theorem Frame.trans_kept (h : Frame Core.Kept s s') (h' : Frame Core.Kept s' s'') :
    Frame Core.Kept s s'' :=
  h.trans (fun _ _ _ => Core.Kept.trans) h'

theorem Frame.trans_life (h : Frame Core.SameLife s s')
    (h' : Frame Core.SameLife s' s'') : Frame Core.SameLife s s'' :=
  h.trans (fun _ _ _ => Core.SameLife.trans) h'

/-! ## §2. Calls of one engine. -/

theorem setCore_cores (s : Platform σ) (c c' : Nat) (core : Option (Core σ)) :
    (s.setCore c core).cores c' = if c' = c then core else s.cores c' := by
  simp [setCore, Function.update_apply]

/-- Replacing a core by a related one. -/
theorem frame_setCore (hR : ∀ core, R core core) {c : Nat} {core core' : Core σ}
    (hc : s.cores c = some core) (h : R core core') :
    Frame R s (s.setCore c (some core')) := by
  refine ⟨rfl, rfl, rfl, ?_⟩
  intro c'
  rw [setCore_cores]
  by_cases heq : c' = c
  · rw [if_pos heq, heq, hc]
    exact .some h
  · rw [if_neg heq]
    exact (Frame.refl hR s).cores c'

/-- Another state of the engine. -/
theorem frame_setState {c : Nat} {core : Core σ} {inst : OcxInstance σ}
    (hc : s.cores c = some core) (hinst : core.mCore = some inst) (st : σ) :
    Frame Core.Kept s (s.setCore c (some { core with mCore := some ⟨inst.id, st⟩ })) :=
  frame_setCore Core.Kept.refl hc ⟨rfl, by rw [hinst]; rfl⟩

theorem engine_eq_some {c i : Nat} (h : s.engine c = some i) :
    ∃ core inst, s.cores c = some core ∧ core.mCore = some inst ∧ inst.id = i := by
  unfold Platform.engine at h
  obtain ⟨core, hc, hm⟩ := Option.bind_eq_some_iff.mp h
  obtain ⟨inst, hinst, hid⟩ := Option.map_eq_some_iff.mp hm
  exact ⟨core, inst, hc, hinst, hid⟩

theorem engineCall_spec {c i : Nat} (h : s.engine c = some i) (call : OcxCall) :
    ∃ s', s.engineCall O c call = some ([.engine c i call], s') ∧ Frame Core.Kept s s' := by
  obtain ⟨core, inst, hc, hinst, hid⟩ := engine_eq_some h
  refine ⟨s.setCore c (some (core.call O call).2), ?_,
    frame_setCore Core.Kept.refl hc (Core.call_kept O call core)⟩
  unfold engineCall
  rw [hc]
  simp only [hinst, hid]

/-- A call that is defined was made on a core with an engine. -/
theorem engineCall_some {c : Nat} {call : OcxCall} {log : List Effect}
    (h : s.engineCall O c call = some (log, s')) :
    (s.engine c).isSome = true ∧ Frame Core.Kept s s' := by
  cases he : s.engine c with
  | some i =>
      obtain ⟨s₁, hs₁, hframe⟩ := engineCall_spec (O := O) he call
      rw [hs₁] at h
      simp only [Option.some.injEq, Prod.mk.injEq] at h
      exact ⟨rfl, h.2 ▸ hframe⟩
  | none =>
      unfold engineCall at h
      unfold Platform.engine at he
      cases hc : s.cores c with
      | none => rw [hc] at h; cases h
      | some core =>
          rw [hc, Option.bind_some, Option.map_eq_none_iff] at he
          rw [hc] at h
          simp [he] at h

/-- The calls that flush the page `p` in the engine `i` of the core `c`. -/
def flushCalls (O : Ocx σ) (c i : Nat) (p : U64) : List Effect :=
  [.engine c i (.tbFlushPage p (p + O.pageSize - 1#64)), .engine c i (.invalidatePagePtr p)]

theorem flushPage_spec {c i : Nat} (h : s.engine c = some i) (p : U64) :
    ∃ s', s.flushPage O c p = some (flushCalls O c i p, s') ∧ Frame Core.Kept s s' := by
  obtain ⟨s₁, h₁, hf₁⟩ :=
    engineCall_spec (O := O) h (.tbFlushPage p (p + O.pageSize - 1#64))
  obtain ⟨s₂, h₂, hf₂⟩ :=
    engineCall_spec (O := O) ((hf₁.life.engine c).trans h) (.invalidatePagePtr p)
  refine ⟨s₂, ?_, hf₁.trans_kept hf₂⟩
  unfold flushPage
  simp only [h₁, h₂, Option.bind_eq_bind, Option.bind_some]
  rfl

theorem flushPage_some {c : Nat} {p : U64} {log : List Effect}
    (h : s.flushPage O c p = some (log, s')) :
    (s.engine c).isSome = true ∧ Frame Core.Kept s s' := by
  unfold flushPage at h
  simp only [Option.bind_eq_bind, Option.bind_eq_some_iff] at h
  obtain ⟨⟨log₁, s₁⟩, h₁, ⟨log₂, s₂⟩, h₂, heq⟩ := h
  simp only [Option.pure_def, Option.some.injEq, Prod.mk.injEq] at heq
  obtain ⟨hengine, hf₁⟩ := engineCall_some h₁
  exact ⟨hengine, heq.2 ▸ hf₁.trans_kept (engineCall_some h₂).2⟩

/-! ## §3. `update_page`. -/

theorem flushSubscribers_frame {p : U64} :
    ∀ (its : List Nat) (s : Platform σ) {log : List Effect} {kept : List Nat}
      {s' : Platform σ}, s.flushSubscribers O p its = some (log, kept, s') →
      Frame Core.Kept s s' := by
  intro its
  induction its with
  | nil =>
      intro s log kept s' h
      simp only [flushSubscribers, Option.some.injEq, Prod.mk.injEq] at h
      exact h.2.2 ▸ Frame.refl Core.Kept.refl s
  | cons it its ih =>
      intro s log kept s' h
      unfold flushSubscribers at h
      split at h
      · exact ih s h
      · simp only [Option.bind_eq_bind, Option.bind_eq_some_iff] at h
        obtain ⟨⟨log₁, s₁⟩, h₁, ⟨log₂, kept₂, s₂⟩, h₂, heq⟩ := h
        simp only [Option.pure_def, Option.some.injEq, Prod.mk.injEq] at heq
        exact heq.2.2 ▸ (flushPage_some h₁).2.trans_kept (ih s₁ h₂)

/-- The page `p` is flushed in the engines of all cores of the list. -/
def Flushed (O : Ocx σ) (s : Platform σ) (its : List Nat) (p : U64) (log : List Effect) :
    Prop :=
  ∀ it ∈ its, ∀ i, s.engine it = some i → ∀ x ∈ flushCalls O it i p, x ∈ log

/-- One core more, flushed before the others. -/
theorem Flushed.cons {it i : Nat} {its : List Nat} {p : U64} {log : List Effect}
    (h : Flushed O s' its p log) (hf : Frame Core.Kept s s') (hi : s.engine it = some i) :
    Flushed O s (it :: its) p (flushCalls O it i p ++ log) := by
  intro it' hmem j hj x hx
  rcases List.mem_cons.mp hmem with heq | hmem
  · rw [heq, hi] at hj
    injection hj with hj
    rw [heq, ← hj] at hx
    exact List.mem_append_left _ hx
  · rw [← hf.life.engine it'] at hj
    exact List.mem_append_right _ (h it' hmem j hj x hx)

/-- Subscribers that all have an engine are all kept and all flushed. -/
theorem flushSubscribers_spec (p : U64) :
    ∀ (its : List Nat) (s : Platform σ), (∀ it ∈ its, (s.engine it).isSome = true) →
      ∃ log s', s.flushSubscribers O p its = some (log, its, s') ∧ Frame Core.Kept s s'
        ∧ Flushed O s its p log := by
  intro its
  induction its with
  | nil =>
      intro s _
      exact ⟨[], s, rfl, Frame.refl Core.Kept.refl s, fun it hmem => by cases hmem⟩
  | cons it its ih =>
      intro s hall
      obtain ⟨i, hi⟩ := Option.isSome_iff_exists.mp (hall it List.mem_cons_self)
      obtain ⟨s₁, h₁, hf₁⟩ := flushPage_spec (O := O) hi p
      -- the rest of the list meets the same engines
      have hall₁ : ∀ it' ∈ its, (s₁.engine it').isSome = true := by
        intro it' hmem
        rw [hf₁.life.engine it']
        exact hall it' (List.mem_cons_of_mem _ hmem)
      obtain ⟨log₂, s₂, h₂, hf₂, hcalls⟩ := ih s₁ hall₁
      -- `lock()` succeeds: the subscriber is there
      have hsome : (s.cores it).isNone = false := by
        obtain ⟨core, _, hc, _⟩ := engine_eq_some hi
        rw [hc]
        rfl
      refine ⟨flushCalls O it i p ++ log₂, s₂, ?_, hf₁.trans_kept hf₂, hcalls.cons hf₁ hi⟩
      unfold flushSubscribers
      rw [hsome, if_neg (by simp)]
      simp only [h₁, h₂, Option.bind_eq_bind, Option.bind_some]
      rfl

/-- Where the loop is defined, every subscriber that is there has an engine. -/
theorem flushSubscribers_engines {p : U64} :
    ∀ (its : List Nat) (s : Platform σ) {log : List Effect} {kept : List Nat}
      {s' : Platform σ}, s.flushSubscribers O p its = some (log, kept, s') →
      ∀ it ∈ its, (s.cores it).isSome = true → (s.engine it).isSome = true := by
  intro its
  induction its with
  | nil =>
      intro s log kept s' _ it hmem
      cases hmem
  | cons it its ih =>
      intro s log kept s' h it' hmem hsome
      unfold flushSubscribers at h
      split at h
      · next hnone =>
          rcases List.mem_cons.mp hmem with rfl | hmem
          · rw [Option.isNone_iff_eq_none] at hnone
            rw [hnone] at hsome
            cases hsome
          · exact ih s h it' hmem hsome
      · simp only [Option.bind_eq_bind, Option.bind_eq_some_iff] at h
        obtain ⟨⟨log₁, s₁⟩, h₁, ⟨log₂, kept₂, s₂⟩, h₂, _⟩ := h
        have hf := (flushPage_some h₁).2
        rcases List.mem_cons.mp hmem with rfl | hmem
        · exact (flushPage_some h₁).1
        · -- the rest of the loop runs after the calls of this round
          have hsome₁ : (s₁.cores it').isSome = true := by
            rw [hf.cores_isSome it']
            exact hsome
          rw [← hf.life.engine it']
          exact ih s₁ h₂ it' hmem hsome₁

theorem updatePage_fields {c : Nat} {p : U64} {log : List Effect}
    (h : s.updatePage O c p = some (log, s')) : Frame Core.SameFields s s' := by
  unfold updatePage at h
  simp only [Option.bind_eq_bind, Option.bind_eq_some_iff] at h
  obtain ⟨core, hc, ⟨log₁, s₁⟩, h₁, ⟨log₂, kept, s₂⟩, h₂, heq⟩ := h
  simp only [Option.pure_def, Option.some.injEq, Prod.mk.injEq] at heq
  -- the calls keep all cores; then the list of `c` is written back
  have hf := (flushPage_some h₁).2.trans_kept (flushSubscribers_frame _ _ h₂)
  obtain ⟨core₂, hc₂, _⟩ := hf.exists_some hc
  rw [← heq.2]
  refine (hf.mono (fun _ _ hk => hk.sameFields)).trans
    (fun _ _ _ => Core.SameFields.trans) ?_
  unfold setSubscribers
  rw [hc₂, Option.map_some]
  exact frame_setCore Core.SameFields.refl hc₂ ⟨rfl, rfl⟩

theorem Frame.fields (h : Frame Core.SameFields s s') : Frame Core.SameLife s s' :=
  h.mono (fun _ _ hk => hk.sameLife)

theorem updatePage_frame {c : Nat} {p : U64} {log : List Effect}
    (h : s.updatePage O c p = some (log, s')) : Frame Core.SameLife s s' :=
  (updatePage_fields h).fields

/-- The core `c` is there, and it and its subscribers all have an engine. -/
def Reaches (s : Platform σ) (c : Nat) (its : List Nat) : Prop :=
  (∃ core, s.cores c = some core ∧ core.mSyscallSubscriber = its)
  ∧ ∀ it ∈ c :: its, (s.engine it).isSome = true

theorem Reaches.frame {c : Nat} {its : List Nat} (h : s.Reaches c its)
    (hf : Frame Core.Kept s s') : s'.Reaches c its := by
  obtain ⟨⟨core, hc, hsub⟩, hall⟩ := h
  obtain ⟨core', hc', hk⟩ := hf.exists_some hc
  refine ⟨⟨core', hc', ?_⟩, ?_⟩
  · rw [hk.frame]
    exact hsub
  · intro it hmem
    rw [hf.life.engine it]
    exact hall it hmem

/-- **`update_page` flushes the page in the core's engine and in those of all its
subscribers**, and keeps the subscribers. -/
theorem updatePage_spec {c : Nat} {its : List Nat} (h : s.Reaches c its) (p : U64) :
    ∃ log s', s.updatePage O c p = some (log, s') ∧ Frame Core.Kept s s'
      ∧ Flushed O s (c :: its) p log := by
  obtain ⟨⟨core, hc, hsub⟩, hall⟩ := h
  obtain ⟨i, hi⟩ := Option.isSome_iff_exists.mp (hall c List.mem_cons_self)
  obtain ⟨s₁, h₁, hf₁⟩ := flushPage_spec (O := O) hi p
  -- the loop starts after the core's own page is flushed
  have hall₁ : ∀ it ∈ its, (s₁.engine it).isSome = true := by
    intro it hmem
    rw [hf₁.life.engine it]
    exact hall it (List.mem_cons_of_mem _ hmem)
  obtain ⟨log₂, s₂, h₂, hf₂, hcalls⟩ := flushSubscribers_spec (O := O) p its s₁ hall₁
  have hf := hf₁.trans_kept hf₂
  obtain ⟨core₂, hc₂, hk⟩ := hf.exists_some hc
  -- the list of subscribers is written back as it was
  have hsame : { core₂ with mSyscallSubscriber := its } = core₂ := by
    have hsub₂ : core₂.mSyscallSubscriber = its := by
      rw [hk.frame]
      exact hsub
    rw [← hsub₂]
  refine ⟨flushCalls O c i p ++ log₂, s₂.setSubscribers c its, ?_, ?_, hcalls.cons hf₁ hi⟩
  · unfold updatePage
    simp only [hc, hsub, h₁, h₂, Option.bind_eq_bind, Option.bind_some]
    rfl
  · unfold setSubscribers
    rw [hc₂, Option.map_some, hsame]
    exact hf.trans_kept (frame_setCore Core.Kept.refl hc₂ (Core.Kept.refl core₂))

/-- A defined `update_page`, of a core whose subscribers are all there, reaches the
engines of all of them. -/
theorem reaches_of_updatePage {c : Nat} {p : U64} {log : List Effect}
    (h : s.updatePage O c p = some (log, s'))
    (hsub : ∀ core, s.cores c = some core → ∀ it ∈ core.mSyscallSubscriber,
      (s.cores it).isSome = true) :
    ∃ its, s.Reaches c its := by
  unfold updatePage at h
  simp only [Option.bind_eq_bind, Option.bind_eq_some_iff] at h
  obtain ⟨core, hc, ⟨log₁, s₁⟩, h₁, ⟨log₂, kept, s₂⟩, h₂, _⟩ := h
  obtain ⟨hengine, hf⟩ := flushPage_some h₁
  refine ⟨core.mSyscallSubscriber, ⟨core, hc, rfl⟩, ?_⟩
  intro it hmem
  rcases List.mem_cons.mp hmem with rfl | hmem
  · exact hengine
  · rw [← hf.life.engine it]
    refine flushSubscribers_engines _ _ h₂ it hmem ?_
    rw [hf.cores_isSome it]
    exact hsub core hc it hmem

/-! ## §4. The actions of the handler. -/

/-- An action that makes no call has its one effect. -/
def plainEffect : Action Nat → Option Effect
  | .fault a => some (.fault a)
  | .original a => some (.original a)
  | .store a => some (.store a)
  | .updatePage _ _ => none

theorem runActions_plain {x : Action Nat} {e : Effect} (hx : plainEffect x = some e)
    (actions : List (Action Nat)) (s : Platform σ) :
    s.runActions O (x :: actions)
      = (s.runActions O actions).bind (fun r => some (e :: r.1, r.2)) := by
  cases x with
  | updatePage c p => cases hx
  | _ =>
      injection hx with hx
      subst hx
      rfl

theorem runActions_update (c : Nat) (p : U64) (actions : List (Action Nat))
    (s : Platform σ) :
    s.runActions O (.updatePage c p :: actions)
      = (s.updatePage O c p).bind (fun r =>
          (r.2.runActions O actions).bind (fun r' => some (r.1 ++ r'.1, r'.2))) := rfl

/-- **Whatever the handler calls, the cores keep their fields.** -/
theorem runActions_fields :
    ∀ (actions : List (Action Nat)) (s : Platform σ) {log : List Effect}
      {s' : Platform σ}, s.runActions O actions = some (log, s') →
      Frame Core.SameFields s s' := by
  intro actions
  induction actions with
  | nil =>
      intro s log s' h
      simp only [runActions, Option.some.injEq, Prod.mk.injEq] at h
      exact h.2 ▸ Frame.refl Core.SameFields.refl s
  | cons x actions ih =>
      intro s log s' h
      -- one call of `update_page`, or an action that touches no core
      cases hx : plainEffect x with
      | some e =>
          rw [runActions_plain hx, Option.bind_eq_some_iff] at h
          obtain ⟨⟨log₁, s₁⟩, h₁, heq⟩ := h
          simp only [Option.some.injEq, Prod.mk.injEq] at heq
          exact heq.2 ▸ ih s h₁
      | none =>
          cases x with
          | updatePage c p =>
              rw [runActions_update, Option.bind_eq_some_iff] at h
              obtain ⟨⟨log₁, s₁⟩, h₁, h⟩ := h
              obtain ⟨⟨log₂, s₂⟩, h₂, heq⟩ := Option.bind_eq_some_iff.mp h
              simp only [Option.some.injEq, Prod.mk.injEq] at heq
              exact heq.2 ▸ (updatePage_fields h₁).trans (fun _ _ _ => Core.SameFields.trans)
                (ih s₁ h₂)
          | _ => cases hx

/-- **Whatever the handler calls, the cores live on.** -/
theorem runActions_frame (actions : List (Action Nat)) (s : Platform σ) {log : List Effect}
    {s' : Platform σ} (h : s.runActions O actions = some (log, s')) :
    Frame Core.SameLife s s' :=
  (runActions_fields actions s h).fields

/-- **The calls of a trapped write**, then its store: every entry whose client reaches
some cores flushes its page in their engines. -/
theorem runActions_calls (a : U64) :
    ∀ (tps : List (TargetPageData Nat)) (s : Platform σ),
      (∀ tp ∈ tps, ∃ its, s.Reaches tp.c its) →
      ∃ mid s', s.runActions O (tps.map (fun tp => .updatePage tp.c tp.pageAddr)
            ++ [.store a]) = some (mid ++ [.store a], s') ∧ Frame Core.Kept s s'
        ∧ ∀ tp ∈ tps, ∀ its, s.Reaches tp.c its →
            Flushed O s (tp.c :: its) tp.pageAddr mid := by
  intro tps
  induction tps with
  | nil =>
      intro s _
      exact ⟨[], s, rfl, Frame.refl Core.Kept.refl s, by simp⟩
  | cons tp tps ih =>
      intro s hall
      obtain ⟨its₀, hreach⟩ := hall tp List.mem_cons_self
      obtain ⟨log₁, s₁, h₁, hf₁, hcalls₁⟩ := updatePage_spec (O := O) hreach tp.pageAddr
      have hall₁ : ∀ tp' ∈ tps, ∃ its, s₁.Reaches tp'.c its := by
        intro tp' hmem
        obtain ⟨its, hr⟩ := hall tp' (List.mem_cons_of_mem _ hmem)
        exact ⟨its, hr.frame hf₁⟩
      obtain ⟨mid, s₂, h₂, hf₂, hcalls₂⟩ := ih s₁ hall₁
      refine ⟨log₁ ++ mid, s₂, ?_, hf₁.trans_kept hf₂, ?_⟩
      · rw [List.map_cons, List.cons_append, runActions_update, h₁, Option.bind_some]
        simp only [h₂, Option.bind_some, List.append_assoc]
      · intro tp' hmem its hr it hit i hi x hx
        rcases List.mem_cons.mp hmem with heq | hmem
        · subst heq
          -- the subscribers of a core are what its list says
          have hits : its = its₀ := by
            obtain ⟨⟨core, hc, hsub⟩, _⟩ := hr
            obtain ⟨⟨core₀, hc₀, hsub₀⟩, _⟩ := hreach
            rw [hc] at hc₀
            injection hc₀ with hc₀
            rw [← hsub, ← hsub₀, hc₀]
          rw [hits] at hit
          exact List.mem_append_left _ (hcalls₁ it hit i hi x hx)
        · rw [← hf₁.life.engine it] at hi
          exact List.mem_append_right _
            (hcalls₂ tp' hmem its (hr.frame hf₁) it hit i hi x hx)

/-! ## §5. The loop over the subscribers. -/

/-- `lock()` of the `weak_ptr` to the core `c` succeeds. -/
def locks (s : Platform σ) (c : Nat) : Bool := (s.cores c).isSome

theorem locks_of_some {c : Nat} {core : Core σ} (hc : s.cores c = some core) :
    s.locks c = true := by
  unfold locks
  rw [hc]
  rfl

/-- The common body of `broadcast_syscall` and `update_page`: `visit` the core, then
its subscribers. -/
def callAll (visit : Nat → Platform σ → Option (List Effect × Platform σ)) (c : Nat)
    (s : Platform σ) : Option (List Effect × Platform σ) := do
  let core ← s.cores c
  let (log, s) ← visit c s
  let (log', kept, s) ← visitLive locks visit core.mSyscallSubscriber s
  pure (log ++ log', s.setSubscribers c kept)

theorem flushSubscribers_eq (p : U64) :
    ∀ (its : List Nat) (s : Platform σ),
      s.flushSubscribers O p its = visitLive locks (fun c t => t.flushPage O c p) its s := by
  intro its
  induction its with
  | nil => intro s; rfl
  | cons it its ih =>
      intro s
      unfold flushSubscribers visitLive
      cases hc : s.cores it with
      | none =>
          have hl : s.locks it = false := by
            unfold locks
            rw [hc]
            rfl
          rw [hl]
          simpa using ih s
      | some core =>
          rw [locks_of_some hc]
          simp only [Option.isNone_some, Bool.false_eq_true, if_false, if_true, ih]

theorem updatePage_eq (c : Nat) (p : U64) (s : Platform σ) :
    s.updatePage O c p = s.callAll (fun c t => t.flushPage O c p) c := by
  unfold updatePage callAll
  simp only [flushSubscribers_eq]

end Platform

end Avp64.Psp
