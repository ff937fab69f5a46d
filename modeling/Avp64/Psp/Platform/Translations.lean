/-
  Avp64.Psp.Platform.Translations — what the write protection is for.

  An engine translates the code of a target page once and executes the translation from
  then on.  Before it does so it calls `protect_page`; a write to the page then reaches
  `update_page`, which drops the translations of the page in all engines of the cluster.

    • `translations_watched` — a page that some engine has translated is protected,
    • `cachedCode`           — so translations are copies that each write drops,
    • `code_never_stale`     — and every core executes what the memory holds.

  How the engine translates is a parameter, see `OcxCode`.
-/
import Avp64.Lib.CoherentCache
import Avp64.Psp.Platform.Coherence
import Avp64.Psp.Platform.Replay

namespace Avp64.Psp

open Avp64.Lib MemProtector Platform

variable {σ : Type} {H : Host} {O : Ocx σ} {n : Nat}

/-! ## §1. Translations. -/

abbrev Byte := BitVec 8

/-- The translations of an engine: for a target page, the bytes it was translated from. -/
structure OcxCode (σ : Type) where
  code : σ → U64 → Option (List Byte)
  /-- The engine keeps a new translation. -/
  translate : U64 → List Byte → σ → σ

/-- What is relied on about the translations. -/
structure CodeLaws (O : Ocx σ) (X : OcxCode σ) : Prop where
  created : ∀ p, X.code O.create p = none
  /-- No call makes a translation. -/
  call : ∀ {call st p v}, X.code (O.call call st).2 p = some v → X.code st p = some v
  flushed : ∀ st p,
    X.code (O.call (.tbFlushPage p (p + O.pageSize - 1#64)) st).2 p = none
  translated : ∀ {p v st p' v'}, X.code (X.translate p v st) p' = some v' →
    X.code st p' = some v' ∨ (p' = p ∧ v' = v)
  /-- What the engine executes besides makes none either. -/
  step : ∀ {st st'}, O.step st st' → ∀ {p v}, X.code st' p = some v → X.code st p = some v

/-- Where the target pages of a cluster lie in host memory. -/
structure PageMap (H : Host) (O : Ocx σ) where
  host : U64 → U64
  /-- The target page size is `2 ^ bits`. -/
  bits : Nat
  bits_le : bits ≤ H.pageBits
  pageSize_eq : O.pageSize = BitVec.twoPow 64 bits
  aligned : ∀ p, (host p).toNat % 2 ^ bits = 0

variable {M : PageMap H O}

namespace PageMap

/-- The bytes of the target page `p`. -/
def readPage (M : PageMap H O) (p : U64) (memory : U64 → Byte) : List Byte :=
  (List.range (2 ^ M.bits)).map (fun i => memory (M.host p + BitVec.ofNat 64 i))

/-- The target pages as parts of host memory. -/
def parts (M : PageMap H O) : Parts U64 U64 Byte (List Byte) where
  cells p := { a | ∃ i < 2 ^ M.bits, a = M.host p + BitVec.ofNat 64 i }
  read := M.readPage
  read_congr := by
    intro p m m' h
    refine List.map_congr_left ?_
    intro i hi
    exact h _ ⟨i, List.mem_range.mp hi, rfl⟩

/-- A target page lies in one host page. -/
theorem pageOf_cells (M : PageMap H O) {p a : U64} (ha : a ∈ M.parts.cells p) :
    H.pageOf a = H.pageOf (M.host p) := by
  obtain ⟨i, hi, rfl⟩ := ha
  have hle : 2 ^ M.bits ≤ 2 ^ 64 :=
    Nat.pow_le_pow_right (by omega) (M.bits_le.trans H.pageBits_lt.le)
  refine H.pageOf_add M.bits_le (M.aligned p) ?_
  rw [BitVec.toNat_ofNat, Nat.mod_eq_of_lt (by omega)]
  exact hi

end PageMap

/-! ## §2. A cluster that executes code. -/

structure CodeState (σ : Type) where
  platform : Platform σ
  memory : U64 → Byte

/-- The translation that the core `c` has of the page `p`. -/
def Platform.code (X : OcxCode σ) (s : Platform σ) (c : Nat) (p : U64) :
    Option (List Byte) :=
  (s.engineState c).bind (fun st => X.code st p)

inductive CodeEvent where
  /-- The core `c` executes `code` as the code of the page `p`. -/
  | execute (c : Nat) (p : U64) (code : List Byte)
  | engineRuns (c : Nat)
  /-- Another call, which does not touch host memory. -/
  | call (e : PlatformEvent)
  | write (addr : U64) (value : Byte) (log : List Effect)

/-- The calls of a running cluster that write nothing to host memory. -/
def PlatformEvent.keepsMemory : PlatformEvent → Prop
  | .protectPage .. => True
  | .invalidateDmi .. => True
  | .reset .. => True
  | _ => False

inductive CodeStep (X : OcxCode σ) (M : PageMap H O) :
    CodeState σ → CodeEvent → CodeState σ → Prop
  /-- The page is translated already. -/
  | hit (s : CodeState σ) {c : Nat} {p : U64} {code : List Byte} :
      s.platform.code X c p = some code → CodeStep X M s (.execute c p code) s
  /-- The page is protected, then translated. -/
  | translate (s : CodeState σ) {c : Nat} {p : U64} {t : Platform σ} {core : Core σ}
      {inst : OcxInstance σ} :
      PlatformStep H O Kernel.reliable s.platform (.protectPage c (M.host p) p (.ok ())) t →
      t.cores c = some core → core.mCore = some inst →
      CodeStep X M s (.execute c p (M.readPage p s.memory))
        { s with platform := t.setCore c (some { core with
            mCore := some ⟨inst.id, X.translate p (M.readPage p s.memory) inst.state⟩ }) }
  | engineRuns (s : CodeState σ) {c : Nat} {core : Core σ} {inst : OcxInstance σ} {st : σ} :
      s.platform.cores c = some core → core.mCore = some inst → O.step inst.state st →
      CodeStep X M s (.engineRuns c)
        { s with platform := s.platform.setCore c (some { core with
            mCore := some ⟨inst.id, st⟩ }) }
  | call (s : CodeState σ) {e : PlatformEvent} {t : Platform σ} : e.keepsMemory →
      PlatformStep H O Kernel.reliable s.platform e t →
      CodeStep X M s (.call e) { s with platform := t }
  /-- The write takes effect where the handler has let it through. -/
  | write (s : CodeState σ) (addr : U64) (value : Byte) {log : List Effect}
      {t : Platform σ} :
      PlatformStep H O Kernel.reliable s.platform (.write addr log) t →
      CodeStep X M s (.write addr value log)
        ⟨t, if .store addr ∈ log then Function.update s.memory addr value else s.memory⟩

/-- A cluster of `n` cores, with any contents of host memory. -/
def codeCluster (X : OcxCode σ) (M : PageMap H O) (clusterid : U64) (n : Nat) :
    Lts (CodeState σ) CodeEvent where
  init s := s.platform = cpu O clusterid n
  step := CodeStep X M

/-- An `invalidate_dmi`, if it is one, covers no page of which some core has a
translation. -/
def CodeEvent.sparesCode (X : OcxCode σ) (O : Ocx σ) (s : CodeState σ) : CodeEvent → Prop
  | .call (.invalidateDmi _ start end_ _) => ∀ c p v, s.platform.code X c p = some v →
      ¬ (start ≤ p ∧ p + O.pageSize - 1#64 ≤ end_)
  | _ => True

/-! ## §3. Translations over the steps of the platform. -/

section

variable {X : OcxCode σ} {t t' : Platform σ} {e : PlatformEvent}

theorem Platform.code_eq_some {c : Nat} {p : U64} {v : List Byte} :
    t.code X c p = some v ↔ ∃ st, t.engineState c = some st ∧ X.code st p = some v :=
  Option.bind_eq_some_iff

/-- The engine of a core is in another state. -/
theorem code_setState {c c' : Nat} {core : Core σ} {inst : OcxInstance σ} {st : σ}
    (hc : t.cores c = some core) (hinst : core.mCore = some inst) {p : U64} {v : List Byte}
    (h : (t.setCore c (some { core with mCore := some ⟨inst.id, st⟩ })).code X c' p = some v) :
    t.code X c' p = some v
      ∨ (c' = c ∧ X.code st p = some v ∧ t.engineState c = some inst.state) := by
  obtain ⟨st', hst', hv⟩ := code_eq_some.mp h
  rcases engineState_setState hc hinst hst' with hold | ⟨heq, rfl, hstate⟩
  · exact .inl (code_eq_some.mpr ⟨st', hold, hv⟩)
  · exact .inr ⟨heq, hv, hstate⟩

/-- An engine that gains no translation. -/
theorem code_of_setState {c c' : Nat} {core : Core σ} {inst : OcxInstance σ} {st : σ}
    (hc : t.cores c = some core) (hinst : core.mCore = some inst)
    (hcode : ∀ p v, X.code st p = some v → X.code inst.state p = some v) {p : U64}
    {v : List Byte}
    (h : (t.setCore c (some { core with mCore := some ⟨inst.id, st⟩ })).code X c' p = some v) :
    t.code X c' p = some v := by
  rcases code_setState hc hinst h with hold | ⟨rfl, hv, hstate⟩
  · exact hold
  · exact code_eq_some.mpr ⟨_, hstate, hcode p v hv⟩

/-- An engine that translates the page `p` gains no other translation. -/
theorem code_of_translate (laws : CodeLaws O X) {c c' : Nat} {core : Core σ}
    {inst : OcxInstance σ} (hc : t.cores c = some core) (hinst : core.mCore = some inst)
    {p p' : U64} {code v : List Byte}
    (h : (t.setCore c (some { core with
      mCore := some ⟨inst.id, X.translate p code inst.state⟩ })).code X c' p' = some v) :
    t.code X c' p' = some v ∨ (c' = c ∧ p' = p ∧ v = code) := by
  rcases code_setState hc hinst h with hold | ⟨rfl, hv, hstate⟩
  · exact .inl hold
  · rcases laws.translated hv with hold | ⟨rfl, rfl⟩
    · exact .inl (code_eq_some.mpr ⟨_, hstate, hold⟩)
    · exact .inr ⟨rfl, rfl, rfl⟩

theorem code_initialised (laws : CodeLaws O X) {st : σ} (h : Core.Initialised O st) :
    ∀ p v, X.code st p ≠ some v := by
  induction h with
  | opened procId coreId =>
      intro p v hv
      have hold := laws.call hv
      rw [laws.created p] at hold
      cases hold
  | written regid value _ ih =>
      intro p v hv
      exact ih p v (laws.call hv)

/-- **No step of the platform makes a translation.** -/
theorem code_of_step {K : Kernel} (laws : CodeLaws O X) (hst : PlatformStep H O K t e t')
    {c : Nat} {p : U64} {v : List Byte} (h : t'.code X c p = some v) :
    t.code X c p = some v := by
  by_contra hno
  -- that an engine has no such translation is kept by every step
  have hnot : t.EngineHas (fun st => X.code st p ≠ some v) c := by
    intro st hst' hv
    exact hno (code_eq_some.mpr ⟨st, hst', hv⟩)
  have hafter := engines_step (fun st hin => code_initialised laws hin p v)
    (fun call st hP hv => hP (laws.call hv)) hst hnot
  obtain ⟨st, hst', hv⟩ := code_eq_some.mp h
  exact hafter st hst' hv

/-- A platform that has not run yet has no translations. -/
theorem no_code_of_reachable {K : Kernel} (laws : CodeLaws O X)
    (hr : (platform H O K).Reachable t) : ∀ c p v, t.code X c p ≠ some v := by
  refine hr.invariant (I := fun t => ∀ c p v, t.code X c p ≠ some v) ?_ ?_
  · intro t h0 c p v hv
    obtain ⟨st, hst, _⟩ := code_eq_some.mp hv
    rw [show t = {} from h0] at hst
    cases hst
  · intro t e t' hno hst c p v hv
    exact hno c p v (code_of_step laws hst hv)

/-! ### Deregistrations. -/

/-- An `invalidate_dmi` that does not cover the page leaves it watched. -/
theorem watched_invalidateDmi {r : MemProtector Nat} {r' : MemProtector Nat} {c : Nat}
    {start end_ : U64} {res : Except Error Unit} {page p : U64}
    (hreach : (protector H (fun _ => O.pageSize) Kernel.reliable).Reachable r)
    (hpart : ProtectorPart H O Kernel.reliable r (.invalidateDmi c start end_ res) r')
    (hw : Watched H page p r) (hspare : ¬ (start ≤ p ∧ p + O.pageSize - 1#64 ≤ end_)) :
    Watched H page p r' := by
  obtain ⟨tp, hh, hpage, rfl⟩ := hw
  refine ⟨tp, ?_, hpage, rfl⟩
  cases hpart with
  | deregistered hs =>
      refine holds_step hh hs (fun h => h) ?_
      -- the entry was recorded with the page size of the cluster
      obtain ⟨tr, hr⟩ := hreach
      obtain ⟨hp, hl, _, hmem⟩ := hh
      have hsize : tp.pageSize = O.pageSize := (provenance hr _ hp tp hl hmem).1
      show coveredBy start end_ tp = false
      unfold coveredBy
      rw [hsize, ← Bool.decide_and, decide_eq_false hspare]
  | quiet hq => exact absurd hq (fun h => h)

/-- **The calls that write no memory keep the cluster's invariant.** -/
theorem clusterInv_keepsMemory (hi : t.ClusterInv n) (hrep : RepInv H t.protector)
    (hload : t.AllLoaded) (hst : PlatformStep H O Kernel.reliable t e t')
    (he : e.keepsMemory) : t'.ClusterInv n := by
  cases e with
  | protectPage c pagePtr pageAddr res => exact clusterInv_step hi hrep hload hst trivial
  | reset c created res => exact clusterInv_step hi hrep hload hst trivial
  | invalidateDmi c start end_ res =>
      constructor
      · cases hst with
        | invalidateDmi _ _ walk _ hd =>
            obtain ⟨s₁, h₁, rfl⟩ := invalidateDmi_eq_some hd
            have hw := hi.wired.frame (engineCall_some h₁).2
              (fun core core' hk => by rw [hk.frame])
            exact ⟨hw.cores, hw.subscribers⟩
      · intro c' hent
        rcases hasEntry_step hst hent with hold | ⟨_, _, _, heq⟩
        · exact hi.clients c' hold
        · cases heq
  | _ => exact absurd he (fun h => h)

/-! ### Writes. -/

/-- Every effect of the handler that is no call is in the log. -/
theorem Platform.plainEffect_mem {x : Action Nat} {f : Effect} (hx : plainEffect x = some f) :
    ∀ (actions : List (Action Nat)) (s : Platform σ) {log : List Effect}
      {s' : Platform σ}, x ∈ actions → s.runActions O actions = some (log, s') → f ∈ log := by
  intro actions
  induction actions with
  | nil => intro s log s' hmem; cases hmem
  | cons y actions ih =>
      intro s log s' hmem h
      cases hy : plainEffect y with
      | some f' =>
          rw [runActions_plain hy, Option.bind_eq_some_iff] at h
          obtain ⟨⟨log₁, s₁⟩, h₁, heq⟩ := h
          simp only [Option.some.injEq, Prod.mk.injEq] at heq
          obtain ⟨rfl, _⟩ := heq
          rcases List.mem_cons.mp hmem with rfl | hmem
          · rw [hx] at hy
            injection hy with hy
            rw [hy]
            exact List.mem_cons_self
          · exact List.mem_cons_of_mem _ (ih s hmem h₁)
      | none =>
          cases y with
          | updatePage c p =>
              rw [runActions_update, Option.bind_eq_some_iff] at h
              obtain ⟨⟨log₁, s₁⟩, h₁, h⟩ := h
              obtain ⟨⟨log₂, s₂⟩, h₂, heq⟩ := Option.bind_eq_some_iff.mp h
              simp only [Option.some.injEq, Prod.mk.injEq] at heq
              obtain ⟨rfl, _⟩ := heq
              rcases List.mem_cons.mp hmem with rfl | hmem
              · cases hx
              · exact List.mem_append_right _ (ih s₁ hmem h₂)
          | _ => cases hy

/-- When `mprotect` succeeds, a write takes effect. -/
theorem store_mem_of_write {addr : U64} {log : List Effect} (hrep : RepInv H t.protector)
    (hst : PlatformStep H O Kernel.reliable t (.write addr log) t') : .store addr ∈ log := by
  cases hst with
  | write _ hok hd =>
      unfold Platform.write at hd
      refine plainEffect_mem (x := .store addr) rfl _ _ ?_ hd
      rcases traps_or_direct hrep hok addr with hdirect | ⟨hp, _, _, htrap⟩
      · rw [hdirect]
        exact List.mem_singleton_self _
      · rw [show (hostWrite H _ addr t.protector).1 = _ from htrap]
        simp

/-- Where the handler has flushed a page, the translation of it is gone. -/
theorem not_code_of_flushed (laws : CodeLaws O X) {addr : U64} {log : List Effect}
    (hst : PlatformStep H O K t (.write addr log) t') {c : Nat} {p : U64}
    (hmem : .tbFlushPage p (p + O.pageSize - 1#64) ∈ log.filterMap (Effect.callOn c))
    (v : List Byte) : t'.code X c p ≠ some v := by
  intro h
  cases hst with
  | write _ _ hd =>
      obtain ⟨st', hst', hv⟩ := code_eq_some.mp h
      rw [write_replayed hd c] at hst'
      obtain ⟨st, _, rfl⟩ := Option.map_eq_some_iff.mp hst'
      -- no call after the flush brings the translation back
      have hnone : X.code (replay O c log st) p = none := by
        refine replay_of_mem (P := fun st => X.code st p = none) ?_
          (fun st => laws.flushed st p) hmem st
        intro call st hn
        cases hv : X.code (O.call call st).2 p with
        | none => rfl
        | some w => rw [laws.call hv] at hn; cases hn
      rw [hnone] at hv
      cases hv

/-- **A translation that is left after a write was there before it, and the write was to
another host page.** -/
theorem code_of_write (laws : CodeLaws O X) (hi : t.ClusterInv n)
    (hrep : RepInv H t.protector)
    (hwatched : ∀ c p v, t.code X c p = some v →
      Watched H (H.pageOf (M.host p)) p t.protector)
    {addr : U64} {log : List Effect}
    (hst : PlatformStep H O Kernel.reliable t (.write addr log) t') {c : Nat} {p : U64}
    {v : List Byte} (h : t'.code X c p = some v) :
    t.code X c p = some v ∧ H.pageOf addr ≠ H.pageOf (M.host p) := by
  have hold := code_of_step laws hst h
  refine ⟨hold, ?_⟩
  intro hpage
  have hw := hst
  cases hw with
  | write _ hok hd =>
      -- the write is trapped, and the calls of the handler flush the page everywhere
      obtain ⟨hp, tp, hl, hmem, rfl, htrap⟩ :=
        traps_of_watched (hwatched c p v hold) hrep.inv hok hpage
      have hengines := engines_of_write hi.wired htrap (List.ne_nil_of_mem hmem) hd
      have hclients : ∀ tp ∈ hp.targetPages, tp.c < n :=
        fun tp hmem => hi.clients tp.c ⟨_, hp, tp, hl, hmem, rfl⟩
      obtain ⟨mid, s₁, hd₁, _, hcalls⟩ := write_trapped hi.wired hengines htrap hclients
      rw [hd₁] at hd
      injection hd with hd
      injection hd with hlog _
      obtain ⟨st, hstate, _⟩ := code_eq_some.mp hold
      have hc : c < n := by
        obtain ⟨core, hcore, _⟩ := Option.bind_eq_some_iff.mp hstate
        exact (hi.wired.cores c).mp (by rw [hcore]; rfl)
      obtain ⟨inst, hinst⟩ := Option.isSome_iff_exists.mp (hengines c hc)
      have hflush := hcalls tp hmem c hc inst hinst _ List.mem_cons_self
      -- so the engine has lost its translation of the page
      refine not_code_of_flushed laws hst (List.mem_filterMap.mpr
        ⟨.engine c inst _, ?_, if_pos rfl⟩) v h
      rw [← hlog]
      simp [hflush]

end

/-! ## §4. Translations are copies that each write drops. -/

/-- Wherever an engine has a translation of a page, the page is protected. -/
structure CodeInv (X : OcxCode σ) (M : PageMap H O) (n : Nat) (s : CodeState σ) : Prop where
  protector : (protector H (fun _ => O.pageSize) Kernel.reliable).Reachable s.platform.protector
  loaded : s.platform.AllLoaded
  cluster : s.platform.ClusterInv n
  watched : ∀ c p v, s.platform.code X c p = some v →
    Watched H (H.pageOf (M.host p)) p s.platform.protector

section

variable {X : OcxCode σ} {s s' : CodeState σ} {e : CodeEvent} {clusterid : U64}

theorem CodeInv.repInv (h : CodeInv X M n s) : RepInv H s.platform.protector :=
  repInv_of_reachable h.protector

/-- Only the state of one engine changes. -/
theorem CodeInv.setEngine (h : CodeInv X M n s) {c : Nat} {core : Core σ}
    {inst : OcxInstance σ} {st : σ} (hc : s.platform.cores c = some core)
    (hm : core.mCore = some inst)
    (hwatched : ∀ p v, X.code st p = some v →
      Watched H (H.pageOf (M.host p)) p s.platform.protector) :
    CodeInv X M n { s with platform := s.platform.setCore c (some { core with
      mCore := some ⟨inst.id, st⟩ }) } := by
  have hf := frame_setState hc hm st
  have hwired := h.cluster.wired.frame hf (fun core core' hk => by rw [hk.frame])
  refine ⟨h.protector, hf.life.allLoaded h.loaded, ⟨hwired, h.cluster.clients⟩, ?_⟩
  intro c' p v hv
  rcases code_setState hc hm hv with hold | ⟨_, hv, _⟩
  · exact h.watched c' p v hold
  · exact hwatched p v hv

/-- The calls that write no memory keep the translated pages protected. -/
theorem codeInv_call (laws : CodeLaws O X) (h : CodeInv X M n s) {e : PlatformEvent}
    {t : Platform σ} (he : e.keepsMemory)
    (hst : PlatformStep H O Kernel.reliable s.platform e t)
    (hspares : (CodeEvent.call e).sparesCode X O s) :
    CodeInv X M n { s with platform := t } := by
  have hpart := platformStep_protector hst
  refine ⟨protector_step h.protector hst, allLoaded_step h.loaded hst,
    clusterInv_keepsMemory h.cluster h.repInv h.loaded hst he, ?_⟩
  intro c p v hv
  have hold := code_of_step laws hst hv
  have hw := h.watched c p v hold
  cases e with
  | protectPage c' pagePtr pageAddr res =>
      exact watched_step hpart trivial hw (fun addr log heq => by cases heq)
  | reset c' created res =>
      exact watched_step hpart trivial hw (fun addr log heq => by cases heq)
  | invalidateDmi c' start end_ res =>
      exact watched_invalidateDmi h.protector hpart hw (hspares c p v hold)
  | _ => exact absurd he (fun h => h)

/-- **The pages that some engine has translated stay protected.** -/
theorem translations_watched (laws : CodeLaws O X) (h : CodeInv X M n s)
    (hst : CodeStep X M s e s') (hspares : e.sparesCode X O s) : CodeInv X M n s' := by
  cases hst with
  | hit _ => exact h
  | @translate c p t core inst hprot hc hm =>
      have h' := codeInv_call (e := .protectPage c (M.host p) p (.ok ())) laws h trivial hprot
        trivial
      refine h'.setEngine hc hm ?_
      intro p' v hv
      rcases laws.translated hv with hold | ⟨rfl, rfl⟩
      · exact h'.watched c p' v (code_eq_some.mpr ⟨inst.state, by
          rw [engineState_of_some hc, hm]; rfl, hold⟩)
      · exact watched_of_protects (platformStep_protector hprot) ⟨rfl, rfl, rfl⟩
  | @engineRuns c core inst st hc hm hstep =>
      refine h.setEngine hc hm ?_
      intro p v hv
      exact h.watched c p v (code_eq_some.mpr ⟨inst.state, by
        rw [engineState_of_some hc, hm]; rfl, laws.step hstep hv⟩)
  | call he hcall => exact codeInv_call laws h he hcall hspares
  | write addr value hw =>
      refine ⟨protector_step h.protector hw, allLoaded_step h.loaded hw,
        clusterInv_step h.cluster h.repInv h.loaded hw trivial, ?_⟩
      intro c p v hv
      obtain ⟨hold, hpage⟩ := code_of_write laws h.cluster h.repInv h.watched hw hv
      refine watched_step (platformStep_protector hw) trivial (h.watched c p v hold) ?_
      intro addr' log' heq
      injection heq with ha
      exact ha ▸ hpage

/-- The cluster as a memory with copies. -/
def CodeState.cached (X : OcxCode σ) (s : CodeState σ) :
    CachedMemory Nat U64 U64 Byte (List Byte) :=
  ⟨s.memory, fun c p => s.platform.code X c p⟩

/-- What can be observed of a step: the code that is executed, and the writes. -/
def CodeEvent.observed : CodeEvent → MemoryEvent U64 U64 Byte (List Byte)
  | .execute _ p code => .use p code
  | .write addr value _ => .store addr value
  | _ => .idle

/-- **A step of the cluster is one of the memory with copies.** -/
theorem cached_step (laws : CodeLaws O X) (h : CodeInv X M n s) (hst : CodeStep X M s e s') :
    CachedStep M.parts (s.cached X) e.observed (s'.cached X) := by
  cases hst with
  | hit hv => exact .hit _ hv
  | @translate c p t core inst hprot hc hm =>
      refine .fill (s.cached X) (i := c) ?_
      intro c' p' v hv
      rcases code_of_translate laws hc hm hv with hold | hnew
      · exact .inl (code_of_step laws hprot hold)
      · exact .inr hnew
  | @engineRuns c core inst st hc hm hstep =>
      exact .lose (s.cached X) (fun c' p v hv =>
        code_of_setState hc hm (fun _ _ hcode => laws.step hstep hcode) hv)
  | call he hcall =>
      exact .lose (s.cached X) (fun c p v hv => code_of_step laws hcall hv)
  | write addr value hw =>
      have hstore := store_mem_of_write h.repInv hw
      unfold CodeState.cached
      simp only [if_pos hstore]
      refine .store (s.cached X) addr value ?_
      intro c p v hv
      obtain ⟨hold, hpage⟩ := code_of_write laws h.cluster h.repInv h.watched hw hv
      -- the page that is still translated lies in another host page
      exact ⟨hold, fun ha => hpage (M.pageOf_cells ha)⟩

theorem codeInv_init (laws : CodeLaws O X) (h0 : s.platform = cpu O clusterid n) :
    CodeInv X M n s := by
  have hbuilt := cpu_built H O Kernel.reliable clusterid n
  rw [← h0] at hbuilt
  refine ⟨protector_reachable hbuilt.reachable, allLoaded_of_reachable hbuilt.reachable,
    ⟨hbuilt.wired, ?_⟩, ?_⟩
  · rintro c ⟨k, hp, tp, hl, _⟩
    rw [hbuilt.protector] at hl
    cases hl
  · intro c p v hv
    exact absurd hv (no_code_of_reachable laws hbuilt.reachable c p v)

theorem codeInv_of_reachable (laws : CodeLaws O X)
    (hr : ((codeCluster X M clusterid n).guard (fun s e => e.sparesCode X O s)).Reachable s) :
    CodeInv X M n s := by
  refine hr.invariant ?_ ?_
  · intro s h0
    exact codeInv_init laws h0
  · intro s e s' h hst
    exact translations_watched laws h hst.1 hst.2

/-- **Translations are copies of the target pages.** -/
def cachedCode (laws : CodeLaws O X) (M : PageMap H O) (clusterid : U64) (n : Nat) :
    ((codeCluster X M clusterid n).guard (fun s e => e.sparesCode X O s)).Simulation
      (cachedMemory Nat M.parts Set.univ) where
  label _ e := e.observed
  rel a s := a = s.cached X
  init s h0 := by
    have hbuilt := cpu_built H O Kernel.reliable clusterid n
    rw [← show s.platform = cpu O clusterid n from h0] at hbuilt
    refine ⟨s.cached X, ⟨trivial, ?_⟩, rfl⟩
    intro c p
    cases hv : s.platform.code X c p with
    | none => exact hv
    | some v => exact absurd hv (no_code_of_reachable laws hbuilt.reachable c p v)
  step := by
    rintro a s e s' hr rfl hst
    exact ⟨_, cached_step laws (codeInv_of_reachable laws hr) hst.1, rfl⟩

end

/-! ## §5. Every core executes what the memory holds. -/

/-- **Translated code is never stale.**  Take any run of a cluster in which cores
translate, execute and run, protect pages, are reset, invalidate DMI regions without
covering a page that is still translated, and in which host memory is written.  The
same executions and writes, in the same order, are a run of the plain memory, in which
every execution takes the bytes that the memory holds at that moment. -/
theorem code_never_stale (H : Host) (O : Ocx σ) (X : OcxCode σ) (laws : CodeLaws O X)
    (M : PageMap H O) (clusterid : U64) (n : Nat) {tr : List (CodeState σ × CodeEvent)}
    {s : CodeState σ} (hr : (codeCluster X M clusterid n).Run tr s)
    (hspares : ∀ x ∈ tr, x.2.sparesCode X O x.1) :
    ∃ mtr, (plainMemory M.parts Set.univ).Run mtr s.memory
      ∧ mtr.map Prod.snd = tr.map (fun x => x.2.observed) := by
  have hguard := hr.guard (C := fun s e => e.sparesCode X O s) hspares
  obtain ⟨ctr, a, hcached, hrel, hlabels⟩ := hguard.simulate (cachedCode laws M clusterid n)
  obtain ⟨mtr, m, hplain, hmem, hevents⟩ :=
    hcached.simulate (cachedRefinement Nat M.parts Set.univ)
  refine ⟨mtr, ?_, ?_⟩
  · rw [show m = s.memory from hmem.trans (congrArg CachedMemory.memory hrel)] at hplain
    exact hplain
  · exact hevents.trans hlabels

/-! ### An engine that is nothing but its translations. -/

def codeOcx : Ocx (U64 → Option (List Byte)) where
  create := fun _ => none
  call c st :=
    match c with
    | .tbFlushPage p _ => (true, Function.update st p none)
    | _ => (true, st)
  readReg _ _ := some 0#64
  pcRegid _ := 32#64
  insnCount _ := 0#64
  pageSize := 4096#64
  step st st' := st' = st

def tableCode : OcxCode (U64 → Option (List Byte)) where
  code st := st
  translate p v st := Function.update st p (some v)

theorem tableCode_laws : CodeLaws codeOcx tableCode where
  created _ := rfl
  call := by
    intro call st p v h
    cases call with
    | tbFlushPage p' _ =>
        have h : Function.update st p' none p = some v := h
        rw [Function.update_apply] at h
        split at h
        · cases h
        · exact h
    | _ => exact h
  flushed st p := by
    show Function.update st p none p = none
    rw [Function.update_self]
  translated := by
    intro p v st p' v' h
    have h : Function.update st p (some v) p' = some v' := h
    rw [Function.update_apply] at h
    split at h
    · next heq =>
        injection h with h
        exact .inr ⟨heq, h.symm⟩
    · exact .inl h
  step := by
    rintro st st' rfl p v h
    exact h

/-- All target pages in one page of the host. -/
def onePageMap : PageMap Host.kib4 codeOcx where
  host _ := 0x1000#64
  bits := 12
  bits_le := by decide
  pageSize_eq := by decide
  aligned _ := by decide

/-- The second core executes the page `0`, then a byte of the page is written. -/
theorem code_never_stale_written :
    ∃ mtr, (plainMemory onePageMap.parts Set.univ).Run mtr
        (Function.update (fun _ => 0#8) 0x1008#64 7#8)
      ∧ mtr.map Prod.snd
        = [.use 0#64 (onePageMap.readPage 0#64 (fun _ => 0#8)), .store 0x1008#64 7#8] := by
  have hok : (fun _ => true) ∈ Kernel.reliable := fun _ => rfl
  have h0 : (codeCluster tableCode onePageMap 0 2).init ⟨cpu codeOcx 0 2, fun _ => 0#8⟩ := rfl
  have hr : (codeCluster tableCode onePageMap 0 2).Run _ _ :=
    .snoc (.snoc (.start h0)
        (.translate _ (c := 1) (p := 0#64) (.protectPage _ 0x1000#64 0#64 hok rfl) rfl rfl))
      (.write _ 0x1008#64 7#8 (.write _ 0x1008#64 hok rfl))
  obtain ⟨mtr, hplain, hevents⟩ := code_never_stale Host.kib4 codeOcx tableCode
    tableCode_laws onePageMap 0 2 hr (by simp [CodeEvent.sparesCode])
  exact ⟨mtr, hplain, hevents⟩

end Avp64.Psp
