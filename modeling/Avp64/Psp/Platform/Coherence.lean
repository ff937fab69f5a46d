/-
  Avp64.Psp.Platform.Coherence — a cluster never runs code that has been written
  over.

  The protector records one client for a target page, whichever cores translate code
  from it.  The client's `update_page` flushes its own engine and those of its
  subscribers; the cores of a cluster are all subscribed to each other, so one call
  reaches all engines.

    • `write_trapped`          — a trapped write flushes the page in all engines,
    • `clusterInv_step`        — resets and writes keep the subscribers,
    • `write_coherent`         — the write to a protected page, after any run.
-/
import Avp64.Psp.Platform.Cluster

namespace Avp64.Psp

open Avp64.Lib MemProtector

variable {σ : Type} {H : Host} {O : Ocx σ} {s s' : Platform σ} {n : Nat}
  {ok : U64 → Bool} {a : U64} {log : List Effect} {hp : HostPageData Nat}

/-! ## §1. `update_page` in a cluster. -/

namespace Platform

/-- Every core of the cluster is the core `c` or one of its subscribers. -/
theorem Wired.mem_subscribers (h : s.Wired n (Others n)) {c : Nat} {core : Core σ}
    (hcore : s.cores c = some core) (hc : c < n) :
    ∀ i < n, i ∈ c :: core.mSyscallSubscriber := by
  intro i hi
  by_cases heq : i = c
  · rw [heq]
    exact List.mem_cons_self
  · exact List.mem_cons_of_mem _ ((h.subscribers c core hcore i).mpr ⟨hc, hi, heq⟩)

/-- With all engines there, `update_page` of any core reaches all of them. -/
theorem Wired.reaches (h : s.Wired n (Others n)) (hall : ∀ i < n, (s.engine i).isSome = true)
    {c : Nat} (hc : c < n) : ∃ its, s.Reaches c its ∧ ∀ i < n, i ∈ c :: its := by
  obtain ⟨core, hcore⟩ := Option.isSome_iff_exists.mp ((h.cores c).mpr hc)
  refine ⟨core.mSyscallSubscriber, ⟨⟨core, hcore, rfl⟩, ?_⟩, h.mem_subscribers hcore hc⟩
  intro it hmem
  rcases List.mem_cons.mp hmem with rfl | hmem
  · exact hall it hc
  · exact hall it ((h.subscribers c core hcore it).mp hmem).2.1

/-- Where `update_page` is defined, all engines are there. -/
theorem Wired.engines_of_updatePage (h : s.Wired n (Others n)) {c : Nat} {p : U64}
    (hd : s.updatePage O c p = some (log, s')) : ∀ i < n, (s.engine i).isSome = true := by
  have hsub : ∀ core, s.cores c = some core → ∀ it ∈ core.mSyscallSubscriber,
      (s.cores it).isSome = true := by
    intro core hcore it hmem
    exact (h.cores it).mpr ((h.subscribers c core hcore it).mp hmem).2.1
  obtain ⟨its, ⟨core, hcore, rfl⟩, hall⟩ := reaches_of_updatePage hd hsub
  have hc : c < n := (h.cores c).mp (by rw [hcore]; rfl)
  intro i hi
  exact hall i (h.mem_subscribers hcore hc i hi)

/-! ## §2. Trapped writes. -/

/-- The write to `a` is trapped by the host page `hp`. -/
def Traps (H : Host) (ok : U64 → Bool) (a : U64) (s : Platform σ)
    (hp : HostPageData Nat) : Prop :=
  (hostWrite H ok a s.protector).1 = .fault a :: updateCalls hp ++ [.store a]

/-- **A trapped write flushes its target pages in all engines of the cluster**, and
then takes effect. -/
theorem write_trapped (hw : s.Wired n (Others n))
    (hall : ∀ i < n, (s.engine i).isSome = true) (htrap : s.Traps H ok a hp)
    (hclients : ∀ tp ∈ hp.targetPages, tp.c < n) :
    ∃ mid s', s.write H O ok a = some (.fault a :: mid ++ [.store a], s')
      ∧ s'.Wired n (Others n)
      ∧ ∀ tp ∈ hp.targetPages, ∀ i < n, ∀ inst, s.engine i = some inst →
          ∀ x ∈ flushCalls O i inst tp.pageAddr, x ∈ mid := by
  -- the handler runs with the protector already unlocked; the cores are the same
  let t : Platform σ := { s with protector := (hostWrite H ok a s.protector).2 }
  have hwt : t.Wired n (Others n) := ⟨hw.cores, hw.subscribers⟩
  have hreach : ∀ tp ∈ hp.targetPages, ∃ its, t.Reaches tp.c its ∧ ∀ i < n, i ∈ tp.c :: its :=
    fun tp hmem => hwt.reaches hall (hclients tp hmem)
  obtain ⟨mid, s', hrun, hf, hcalls⟩ := runActions_calls (O := O) a hp.targetPages t
    (fun tp hmem => (hreach tp hmem).imp (fun _ h => h.1))
  refine ⟨mid, s', ?_, ?_, ?_⟩
  · show t.runActions O (hostWrite H ok a s.protector).1 = _
    rw [htrap]
    show t.runActions O (.fault a :: (updateCalls hp ++ [.store a])) = _
    rw [runActions_plain (e := .fault a) rfl]
    unfold updateCalls
    rw [hrun]
    rfl
  · exact hwt.frame hf (fun core core' hk => by rw [hk.frame])
  · intro tp hmem i hi inst hinst x hx
    obtain ⟨its, hr, hin⟩ := hreach tp hmem
    exact hcalls tp hmem its hr i (hin i hi) inst hinst x hx

/-- A trapped write that is defined finds all engines of the cluster. -/
theorem engines_of_write (hw : s.Wired n (Others n)) (htrap : s.Traps H ok a hp)
    (hne : hp.targetPages ≠ []) (hd : s.write H O ok a = some (log, s')) :
    ∀ i < n, (s.engine i).isSome = true := by
  -- the first call of the handler already needs all engines
  obtain ⟨tp, tps, htps⟩ := List.exists_cons_of_ne_nil hne
  unfold write at hd
  rw [htrap, updateCalls, htps, List.cons_append, runActions_plain (e := .fault a) rfl,
    Option.bind_eq_some_iff] at hd
  obtain ⟨_, hd, _⟩ := hd
  rw [List.map_cons, List.cons_append, runActions_update, Option.bind_eq_some_iff] at hd
  obtain ⟨⟨log₁, s₁⟩, hd, _⟩ := hd
  have hwt : Wired n (Others n)
      ({ s with protector := (hostWrite H ok a s.protector).2 } : Platform σ) :=
    ⟨hw.cores, hw.subscribers⟩
  exact hwt.engines_of_updatePage hd

/-- The write as a step of the protector; it asks for no page size. -/
theorem protector_write (hok : ok ∈ Kernel.reliable) (a : U64) (s : Platform σ) :
    Step H (fun _ => 0#64) Kernel.reliable s.protector
      (.write a (hostWrite H ok a s.protector).1) (hostWrite H ok a s.protector).2 :=
  .write s.protector a hok

/-- When `mprotect` succeeds, a write is trapped by a page with entries, or takes
effect at once. -/
theorem traps_or_direct (hrep : RepInv H s.protector) (hok : ok ∈ Kernel.reliable)
    (a : U64) :
    (hostWrite H ok a s.protector).1 = [.store a]
    ∨ ∃ hp, s.protector.lookup (H.pageOf a) = some hp ∧ hp.targetPages ≠ []
        ∧ s.Traps H ok a hp := by
  cases hro : s.protector.readOnly (H.pageOf a) with
  | false => exact .inl (write_of_writable hro (protector_write hok a s)).1
  | true =>
      obtain ⟨hp, hl, hlock⟩ := hrep.inv.locked_of_readOnly hro
      exact .inr ⟨hp, hl, hrep.nonempty _ hp hl hlock,
        (write_of_locked hrep.inv hl hlock (protector_write hok a s)).1⟩

/-- The log of a trapped write says so. -/
theorem fault_mem_of_write (htrap : s.Traps H ok a hp)
    (hd : s.write H O ok a = some (log, s')) : .fault a ∈ log := by
  unfold write at hd
  rw [htrap, List.cons_append, runActions_plain (e := .fault a) rfl,
    Option.bind_eq_some_iff] at hd
  obtain ⟨r, _, heq⟩ := hd
  simp only [Option.some.injEq, Prod.mk.injEq] at heq
  rw [← heq.1]
  exact List.mem_cons_self

/-! ## §3. The invariant of a cluster. -/

/-- All cores are subscribed to each other, and the clients of all entries are among
them. -/
structure ClusterInv (n : Nat) (s : Platform σ) : Prop where
  wired : s.Wired n (Others n)
  clients : ∀ c, s.HasEntry c → c < n

end Platform

open Platform

/-- **Resets and writes keep the subscribers**, and only cores of the cluster register
pages. -/
theorem clusterInv_step {e : PlatformEvent} (hi : s.ClusterInv n)
    (hrep : RepInv H s.protector) (hload : s.AllLoaded)
    (hst : PlatformStep H O Kernel.reliable s e s') (he : e.atRuntime) :
    s'.ClusterInv n := by
  constructor
  · cases hst with
    | protectPage pagePtr pageAddr _ _ => exact ⟨hi.wired.cores, hi.wired.subscribers⟩
    | reset flush created hc => exact hi.wired.reset hload hc flush created
    | write addr hok hd =>
        -- a direct write touches no core; a trapped one flushes pages only
        rcases traps_or_direct hrep hok addr with hdirect | ⟨hp, hl, hne, htrap⟩
        · unfold Platform.write at hd
          rw [hdirect] at hd
          injection hd with hd
          injection hd with _ hs'
          rw [← hs']
          exact ⟨hi.wired.cores, hi.wired.subscribers⟩
        · have hclients : ∀ tp ∈ hp.targetPages, tp.c < n :=
            fun tp hmem => hi.clients tp.c ⟨_, hp, tp, hl, hmem, rfl⟩
          obtain ⟨mid, s₁, hd₁, hw₁, _⟩ := write_trapped hi.wired
            (engines_of_write hi.wired htrap hne hd) htrap hclients
          rw [hd₁] at hd
          injection hd with hd
          injection hd with _ hs'
          exact hs' ▸ hw₁
    | _ => exact absurd he (fun h => h)
  · intro c hent
    rcases hasEntry_step hst hent with hold | ⟨pagePtr, pageAddr, res, rfl⟩
    · exact hi.clients c hold
    · obtain ⟨core, _, hc, _⟩ := engine_eq_some
        (Option.get_mem (engine_of_protectPage hst))
      exact (hi.wired.cores c).mp (by rw [hc]; rfl)

section

variable {clusterid : U64} {tr : List (Platform σ × PlatformEvent)}

theorem clusterInv_of_reachable (hr : (cluster H O clusterid n).Reachable s) :
    s.ClusterInv n := by
  obtain ⟨tr, hr⟩ := hr
  induction hr with
  | start h0 =>
      have hbuilt := cpu_built H O Kernel.reliable clusterid n
      rw [show _ = cpu O clusterid n from h0]
      refine ⟨hbuilt.wired, ?_⟩
      rintro c ⟨k, hp, tp, hl, _⟩
      rw [hbuilt.protector] at hl
      cases hl
  | @snoc tr t t' e hpre hst ih =>
      have hplat := platform_of_cluster ⟨tr, hpre⟩
      exact clusterInv_step ih (repInv_of_cluster ⟨tr, hpre⟩)
        (allLoaded_of_reachable hplat) hst.1 hst.2

/-! ## §4. Coherence. -/

namespace PlatformEvent

/-- A core has successfully protected the target page `p`, in the host page `page`. -/
def protects (H : Host) (page p : U64) : PlatformEvent → Prop
  | .protectPage _ pagePtr pageAddr res => H.pageOf pagePtr = page ∧ pageAddr = p ∧ res = .ok ()
  | _ => False

/-- A write to the host page `page` is trapped. -/
def trapped (H : Host) (page : U64) : PlatformEvent → Prop
  | .write addr log => H.pageOf addr = page ∧ .fault addr ∈ log
  | _ => False

end PlatformEvent

/-- An entry for the target page `p` is stored, and its host page `page` is locked. -/
def Watched (H : Host) (page p : U64) (t : MemProtector Nat) : Prop :=
  ∃ tp, Holds H t tp ∧ H.pageOf tp.hostAddress = page ∧ tp.pageAddr = p

section

variable {page p : U64} {t t' : MemProtector Nat} {e : PlatformEvent}

/-- A write to a watched page is trapped by it. -/
theorem traps_of_watched (hw : Watched H page p s.protector) (hi : Inv H s.protector)
    (hok : ok ∈ Kernel.reliable) (ha : H.pageOf a = page) :
    ∃ hp tp, s.protector.lookup (H.pageOf a) = some hp ∧ tp ∈ hp.targetPages
      ∧ tp.pageAddr = p ∧ s.Traps H ok a hp := by
  obtain ⟨tp, hh, hpage, hp'⟩ := hw
  obtain ⟨hp, hl, _, hmem, htrap, _⟩ :=
    write_of_holds hi hh (ha.trans hpage.symm) (protector_write hok a s)
  exact ⟨hp, tp, hl, hmem, hp', htrap⟩

/-- A completed `protect_page` watches its page. -/
theorem watched_of_protects {K : Kernel} (hpart : ProtectorPart H O K t e t')
    (he : e.protects H page p) : Watched H page p t' := by
  cases hpart with
  | registered hs =>
      obtain ⟨rfl, rfl, rfl⟩ := he
      obtain ⟨tp, hh, hhost, hpage⟩ := holds_of_registered hs
      exact ⟨tp, hh, by rw [hhost], hpage⟩
  | quiet hq =>
      cases e with
      | protectPage c pagePtr pageAddr res => exact absurd hq (fun h => h)
      | _ => exact absurd he (fun h => h)
  | _ => exact absurd he (fun h => h)

/-- It stays watched until the next write to it. -/
theorem watched_step {K : Kernel} (hpart : ProtectorPart H O K t e t') (he : e.atRuntime)
    (hw : Watched H page p t) (hwrite : ∀ addr log, e = .write addr log → H.pageOf addr ≠ page) :
    Watched H page p t' := by
  obtain ⟨tp, hh, hpage, hp'⟩ := hw
  refine ⟨tp, ?_, hpage, hp'⟩
  cases hpart with
  | registered hs => exact holds_step hh hs (fun h => h) rfl
  | deregistered hs => exact absurd he (fun h => h)
  | @written _ addr actions log hs =>
      refine holds_step hh hs ?_ rfl
      intro hhit
      exact hwrite addr log rfl (hhit.trans hpage)
  | quiet _ => exact hh

end

/-- After a successful `protect_page` a page stays watched until a write to it is
trapped. -/
theorem watched_of_since (hr : (cluster H O clusterid n).Run tr s) {page p : U64}
    (hsince : Since (fun x => x.2.protects H page p) (fun x => x.2.trapped H page) tr) :
    Watched H page p s.protector := by
  refine hr.of_since (G := fun t => Watched H page p t.protector) ?_ ?_ hsince
  · intro t e t' _ hst he
    exact watched_of_protects (platformStep_protector hst.1) he
  · intro t e t' ht hst hw hnot
    refine watched_step (platformStep_protector hst.1) hst.2 hw ?_
    rintro addr log rfl ha
    -- a write to the watched page would have been trapped
    cases hst.1 with
    | write _ hok hd =>
        obtain ⟨hp, tp, _, _, _, htrap⟩ :=
          traps_of_watched hw (repInv_of_cluster ht).inv hok ha
        exact hnot ⟨ha, fault_mem_of_write htrap hd⟩

/-- As long as each reset gets a new engine, all cores have one. -/
theorem engines_of_run (hr : (cluster H O clusterid n).Run tr s)
    (hall : ∀ x ∈ tr, x.2.getsEngine) : ∀ i < n, (s.engine i).isSome = true := by
  induction hr with
  | start h0 =>
      rw [show _ = cpu O clusterid n from h0]
      exact (cpu_built H O Kernel.reliable clusterid n).engines
  | @snoc tr t t' e hpre hst ih =>
      intro i hi
      have hold := ih (fun x hx => hall x (List.mem_append_left _ hx)) i hi
      have he : e.getsEngine := hall (t, e) (by simp)
      -- only a reset can take an engine away, and it leaves a new one
      rw [engine_step (allLoaded_of_reachable (platform_of_cluster ⟨tr, hpre⟩)) hst.1 i]
      cases e with
      | reset c created deleted res =>
          show (if i = c then created else (t.engine i).isSome) = true
          split
          · exact he
          · exact hold
      | protectPage c pagePtr pageAddr res => exact hold
      | write addr log => exact hold
      | _ => exact absurd hst.2 (fun h => h)

/-- **Coherence of a cluster.**  After any run in which a core has successfully
protected the target page `p` in the host page `page`, with no trapped write to that
host page since:

a write to the host page faults, then the page `p` is flushed in the current engine of
every core, and then the write takes effect;

the write is carried out, unless a reset of the run has failed to get an engine. -/
theorem write_coherent (H : Host) (O : Ocx σ) (clusterid : U64) (n : Nat)
    (hr : (cluster H O clusterid n).Run tr s) {page p : U64}
    (hsince : Since (fun x => x.2.protects H page p) (fun x => x.2.trapped H page) tr) :
    (∀ a, H.pageOf a = page → ∀ log s',
      PlatformStep H O Kernel.reliable s (.write a log) s' →
      ∃ mid, log = .fault a :: mid ++ [.store a]
        ∧ ∀ i < n, ∃ inst, s.engine i = some inst
          ∧ .engine i inst (.tbFlushPage p (p + O.pageSize - 1#64)) ∈ mid
          ∧ .engine i inst (.invalidatePagePtr p) ∈ mid)
    ∧ ((∀ x ∈ tr, x.2.getsEngine) → ∀ a, H.pageOf a = page →
      ∃ log s', PlatformStep H O Kernel.reliable s (.write a log) s') := by
  have hwatched := watched_of_since hr hsince
  have hi : s.ClusterInv n := clusterInv_of_reachable ⟨tr, hr⟩
  have hrep : RepInv H s.protector := repInv_of_cluster ⟨tr, hr⟩
  have hclients : ∀ {a hp}, s.protector.lookup (H.pageOf a) = some hp →
      ∀ tp ∈ hp.targetPages, tp.c < n :=
    fun hl tp hmem => hi.clients tp.c ⟨_, _, tp, hl, hmem, rfl⟩
  constructor
  · intro a ha log s' hst
    cases hst with
    | write _ hok hd =>
        -- the entry of `p`, whichever core it was recorded for, is among the calls
        obtain ⟨hp, tp, hl, hmem, rfl, htrap⟩ := traps_of_watched hwatched hrep.inv hok ha
        have hengines := engines_of_write hi.wired htrap (List.ne_nil_of_mem hmem) hd
        obtain ⟨mid, s₁, hd₁, _, hcalls⟩ :=
          write_trapped (O := O) hi.wired hengines htrap (hclients hl)
        rw [hd₁] at hd
        injection hd with hd
        injection hd with hlog _
        refine ⟨mid, hlog.symm, ?_⟩
        intro i hlt
        obtain ⟨inst, hinst⟩ := Option.isSome_iff_exists.mp (hengines i hlt)
        have hin := hcalls tp hmem i hlt inst hinst
        exact ⟨inst, hinst, hin _ List.mem_cons_self,
          hin _ (List.mem_cons_of_mem _ List.mem_cons_self)⟩
  · intro hall a ha
    have hok : (fun _ => true) ∈ Kernel.reliable := fun _ => rfl
    obtain ⟨hp, tp, hl, _, _, htrap⟩ := traps_of_watched hwatched hrep.inv hok ha
    obtain ⟨mid, s', hd, _⟩ :=
      write_trapped (O := O) hi.wired (engines_of_run hr hall) htrap (hclients hl)
    exact ⟨_, s', .write s a hok hd⟩

end

/-- Two cores, of which the first protects a page: the write to its eighth byte. -/
theorem write_coherent_two_cores :
    ∃ mid s', PlatformStep Host.kib4 smallOcx Kernel.reliable
        ((cpu smallOcx 0 2).protectPage Host.kib4 smallOcx (fun _ => true) 0 0x1000#64 0#64).2
        (.write 0x1008#64 (.fault 0x1008#64 :: mid ++ [.store 0x1008#64])) s'
      ∧ ∃ inst, .engine 1 inst (.tbFlushPage 0#64 0xfff#64) ∈ mid := by
  have hok : (fun _ => true) ∈ Kernel.reliable := fun _ => rfl
  have hr : (cluster Host.kib4 smallOcx 0 2).Run _ _ :=
    .snoc (.start rfl) ⟨.protectPage (c := 0) _ 0x1000#64 0#64 hok rfl, trivial⟩
  have hprotects : PlatformEvent.protects Host.kib4 0x1000#64 0#64
      (.protectPage 0 0x1000#64 0#64 (.ok ())) := ⟨rfl, rfl, rfl⟩
  have hcoherent := write_coherent Host.kib4 smallOcx 0 2 hr (since_snoc.mpr (.inl hprotects))
  obtain ⟨log, s', hst⟩ := hcoherent.2 (by simp [PlatformEvent.getsEngine]) 0x1008#64 rfl
  obtain ⟨mid, rfl, hcalls⟩ := hcoherent.1 0x1008#64 rfl log s' hst
  obtain ⟨inst, _, hflush, _⟩ := hcalls 1 (by decide)
  exact ⟨mid, s', hst, inst, hflush⟩

end Avp64.Psp
