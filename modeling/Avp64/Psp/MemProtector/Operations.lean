/-
  Avp64.Psp.MemProtector.Operations — what each operation of `mem_protector` can do.

  One lemma per operation lists its outcomes with the state each leaves behind;
  the invariants and the claims about runs are proved from these lists and never
  unfold an operation.

    • `registerPage_case`        — the four outcomes of `register_page`,
    • `notifyPage_of_lookup`, `hostWrite_case` — the fault path,
    • `deregisterLoop_swept`     — page by page, for every answer of the kernel,
    • `deregisterLoop_reliable`  — exactly, when `mprotect` succeeds.
-/
import Avp64.Lib.FinmapWalk
import Avp64.Psp.MemProtector.Def

namespace Avp64.Psp

open Avp64.Lib

variable {C : Type}

/-! ## §1. Field lemmas of the map and of the page table. -/

namespace MemProtector

theorem lookup_setHostPage (s : MemProtector C) (k k' : U64) (hp : HostPageData C) :
    (s.setHostPage k hp).lookup k' = if k' = k then some hp else s.lookup k' := by
  unfold lookup setHostPage
  by_cases h : k' = k
  · subst h; simp
  · simp [h, Finmap.lookup_insert_of_ne _ h]

theorem lookup_eraseHostPage (s : MemProtector C) (k k' : U64) :
    (s.eraseHostPage k).lookup k' = if k' = k then none else s.lookup k' := by
  unfold lookup eraseHostPage
  by_cases h : k' = k
  · subst h; simp
  · simp [h, Finmap.lookup_erase_ne h]

@[simp] theorem lookup_setReadOnly (s : MemProtector C) (k k' : U64) (ro : Bool) :
    (s.setReadOnly k ro).lookup k' = s.lookup k' := rfl

@[simp] theorem readOnly_setHostPage (s : MemProtector C) (k : U64)
    (hp : HostPageData C) : (s.setHostPage k hp).readOnly = s.readOnly := rfl

@[simp] theorem readOnly_eraseHostPage (s : MemProtector C) (k : U64) :
    (s.eraseHostPage k).readOnly = s.readOnly := rfl

theorem readOnly_setReadOnly (s : MemProtector C) (k k' : U64) (ro : Bool) :
    (s.setReadOnly k ro).readOnly k' = if k' = k then ro else s.readOnly k' := by
  simp [setReadOnly, Function.update_apply]

@[simp] theorem lookup_empty (k : U64) : ({} : MemProtector C).lookup k = none := rfl

@[simp] theorem setHostPage_setHostPage (s : MemProtector C) (k : U64)
    (hp hp' : HostPageData C) :
    (s.setHostPage k hp).setHostPage k hp' = s.setHostPage k hp' := by
  unfold setHostPage
  simp

/-- Storing what is stored already changes nothing. -/
theorem setHostPage_of_lookup {s : MemProtector C} {k : U64} {hp : HostPageData C}
    (h : s.lookup k = some hp) : s.setHostPage k hp = s := by
  unfold setHostPage
  congr 1
  -- two maps are equal if they agree on every key
  refine Finmap.ext_lookup (fun k' => ?_)
  by_cases hk : k' = k
  · subst hk
    rw [Finmap.lookup_insert]
    exact h.symm
  · rw [Finmap.lookup_insert_of_ne _ hk]

theorem hostPage_of_lookup {s : MemProtector C} {k : U64} {hp : HostPageData C}
    (h : s.lookup k = some hp) : s.hostPage k = hp := by
  unfold hostPage
  rw [h]
  rfl

/-- A host page with an entry is stored. -/
theorem lookup_of_mem {s : MemProtector C} {k : U64} {tp : TargetPageData C}
    (h : tp ∈ (s.hostPage k).targetPages) : s.lookup k = some (s.hostPage k) := by
  unfold hostPage at h ⊢
  cases hl : s.lookup k with
  | none => rw [hl] at h; simp at h
  | some hp => simp

end MemProtector

open MemProtector

/-! ## §2. `register_page`. -/

/-- What the loop of `register_page` finds. -/
theorem scanTargetPages_spec (pageAddr hostAddr : U64) (locked : Bool) :
    ∀ (l : List (TargetPageData C)) (found : Bool),
      match scanTargetPages pageAddr hostAddr locked l found with
      | .error _ => ∃ tp ∈ l, tp.hostAddress = hostAddr ∧ tp.pageAddr ≠ pageAddr
      | .ok none => locked = true
          ∧ ∃ tp ∈ l, tp.hostAddress = hostAddr ∧ tp.pageAddr = pageAddr
      | .ok (some b) =>
          (∀ tp ∈ l, tp.hostAddress = hostAddr → tp.pageAddr = pageAddr ∧ locked = false)
          ∧ (b = true ↔ found = true ∨ ∃ tp ∈ l, tp.hostAddress = hostAddr) := by
  intro l
  induction l with
  | nil => intro found; simp [scanTargetPages]
  | cons tp tps ih =>
      intro found
      unfold scanTargetPages
      -- the cases of the loop body, in the order of the source
      by_cases hh : tp.hostAddress = hostAddr
      · by_cases hp : tp.pageAddr = pageAddr
        · cases hl : locked with
          | true => simp [hh, hp]
          | false =>
              -- the entry is known and the page is open: the scan goes on with `true`
              have h := ih true
              rw [hl] at h
              simp only [hh, hp, if_true, ne_eq, not_true_eq_false, if_false,
                Bool.false_eq_true]
              revert h
              cases scanTargetPages pageAddr hostAddr false tps true with
              | error e =>
                  intro h
                  obtain ⟨tp', hmem, h'⟩ := h
                  exact ⟨tp', List.mem_cons_of_mem _ hmem, h'⟩
              | ok r =>
                  cases r with
                  | none => intro h; simp at h
                  | some b => intro h; simpa [hh, hp] using h
        · simp [hh, hp]
      · have h := ih found
        simp only [hh, if_false]
        revert h
        cases scanTargetPages pageAddr hostAddr locked tps found with
        | error e =>
            intro h
            obtain ⟨tp', hmem, h'⟩ := h
            exact ⟨tp', List.mem_cons_of_mem _ hmem, h'⟩
        | ok r =>
            cases r with
            | none =>
                intro h
                obtain ⟨hl, tp', hmem, h'⟩ := h
                exact ⟨hl, tp', List.mem_cons_of_mem _ hmem, h'⟩
            | some b => intro h; simpa [hh] using h

/-- The host page after the list was brought up to date: the entry of
`new.hostAddress` is there already, or `new` is appended. -/
inductive Recorded (new : TargetPageData C) (hp : HostPageData C) :
    HostPageData C → Prop
  | known : (∃ tp ∈ hp.targetPages, tp.hostAddress = new.hostAddress) →
      hp.locked = false → Recorded new hp hp
  | added : (∀ tp ∈ hp.targetPages, tp.hostAddress ≠ new.hostAddress) →
      Recorded new hp { hp with targetPages := hp.targetPages ++ [new] }

/-- **The outcomes of `register_page`.** -/
inductive RegisterCase (H : Host) (pageSize : C → U64) (ok : U64 → Bool) (core : C)
    (pageAddr hostAddr : U64) (s : MemProtector C) :
    Except Error Unit → MemProtector C → Prop
  /-- A page size or the page address is refused. -/
  | refused (e : Error) :
      H.getPageSize < pageSize core ∨ pageSize core = 0
        ∨ (∃ tp ∈ (s.hostPage (H.pageOf hostAddr)).targetPages,
            tp.hostAddress = hostAddr ∧ tp.pageAddr ≠ pageAddr) →
      RegisterCase H pageSize ok core pageAddr hostAddr s (.error e) s
  /-- The early `return`: the page is registered and locked already. -/
  | alreadyLocked {hp : HostPageData C} {tp : TargetPageData C} :
      pageSize core ≤ H.getPageSize →
      s.lookup (H.pageOf hostAddr) = some hp → hp.locked = true →
      tp ∈ hp.targetPages → tp.hostAddress = hostAddr → tp.pageAddr = pageAddr →
      RegisterCase H pageSize ok core pageAddr hostAddr s (.ok ()) s
  /-- `protect_page` fails after the list was brought up to date. -/
  | unprotected (e : Error) {hp : HostPageData C} :
      Recorded ⟨core, pageAddr, pageSize core, hostAddr⟩
        (s.hostPage (H.pageOf hostAddr)) hp →
      H.pageOf hostAddr ≠ hostAddr ∨ ok hostAddr = false →
      RegisterCase H pageSize ok core pageAddr hostAddr s (.error e)
        (s.setHostPage (H.pageOf hostAddr) hp)
  /-- The host page is protected now. -/
  | locked {hp : HostPageData C} :
      pageSize core ≤ H.getPageSize →
      Recorded ⟨core, pageAddr, pageSize core, hostAddr⟩
        (s.hostPage (H.pageOf hostAddr)) hp →
      (∀ tp ∈ (s.hostPage (H.pageOf hostAddr)).targetPages,
        tp.hostAddress = hostAddr → tp.pageAddr = pageAddr) →
      H.pageOf hostAddr = hostAddr → ok hostAddr = true →
      RegisterCase H pageSize ok core pageAddr hostAddr s (.ok ())
        ((s.setHostPage (H.pageOf hostAddr) { hp with locked := true }).setReadOnly
          (H.pageOf hostAddr) true)

theorem registerPage_case (H : Host) (pageSize : C → U64) (ok : U64 → Bool)
    (core : C) (pageAddr hostAddr : U64) (s : MemProtector C) :
    RegisterCase H pageSize ok core pageAddr hostAddr s
      (registerPage H pageSize ok core pageAddr hostAddr s).1
      (registerPage H pageSize ok core pageAddr hostAddr s).2 := by
  unfold registerPage
  by_cases hsz : H.getPageSize < pageSize core
  · simp only [hsz, if_true]
    exact .refused _ (.inl hsz)
  have hle : pageSize core ≤ H.getPageSize := BitVec.not_lt.mp hsz
  by_cases hz : pageSize core = 0
  · simp only [hz, if_true]
    split <;> exact .refused _ (.inr (.inl hz))
  -- past the checks of the page sizes, the scan decides
  simp only [hsz, hz, if_false]
  have hscan := scanTargetPages_spec pageAddr hostAddr
    (s.hostPage (H.pageOf hostAddr)).locked
    (s.hostPage (H.pageOf hostAddr)).targetPages false
  revert hscan
  cases scanTargetPages pageAddr hostAddr (s.hostPage (H.pageOf hostAddr)).locked
      (s.hostPage (H.pageOf hostAddr)).targetPages false with
  | error e =>
      intro hscan
      obtain ⟨tp, hmem, h'⟩ := hscan
      -- the entry that disagrees shows that the page was stored before
      show RegisterCase _ _ _ _ _ _ _ (.error e) (s.setHostPage _ _)
      rw [setHostPage_of_lookup (lookup_of_mem hmem)]
      exact .refused _ (.inr (.inr ⟨tp, hmem, h'⟩))
  | ok r =>
      cases r with
      | none =>
          intro hscan
          obtain ⟨hl, tp, hmem, hh, hp⟩ := hscan
          show RegisterCase _ _ _ _ _ _ _ (.ok ()) (s.setHostPage _ _)
          rw [setHostPage_of_lookup (lookup_of_mem hmem)]
          exact .alreadyLocked hle (lookup_of_mem hmem) hl hmem hh hp
      | some found =>
          intro hscan
          obtain ⟨hagree, hfound⟩ := hscan
          simp only [Bool.false_eq_true, false_or] at hfound
          set page := (if found = true then s.hostPage (H.pageOf hostAddr)
            else { s.hostPage (H.pageOf hostAddr) with
              targetPages := (s.hostPage (H.pageOf hostAddr)).targetPages ++
                [⟨core, pageAddr, pageSize core, hostAddr⟩] }) with hpage
          -- `page` is the list with the entry appended where the scan has not found it
          have hrec : Recorded ⟨core, pageAddr, pageSize core, hostAddr⟩
              (s.hostPage (H.pageOf hostAddr)) page := by
            by_cases hf : found = true
            · rw [hpage, if_pos hf]
              obtain ⟨tp, hmem, hh⟩ := hfound.mp hf
              exact .known ⟨tp, hmem, hh⟩ (hagree tp hmem hh).2
            · rw [hpage, if_neg hf]
              exact .added (fun tp hmem hh => hf (hfound.mpr ⟨tp, hmem, hh⟩))
          simp only [setHostPage_setHostPage]
          -- `host_addr` is what the alignment check sees, not the host page
          unfold protectPage changePage mprotect
          by_cases hal : hostAddr &&& ~~~H.pageMask = 0
          · have hk := (H.and_not_pageMask hostAddr).mp hal
            by_cases hok : ok hostAddr = true
            · simp only [hal, hok, ne_eq, not_true_eq_false, if_false, if_true]
              have hcase := RegisterCase.locked hle hrec
                (fun tp hmem hh => (hagree tp hmem hh).1) hk hok
              -- for an aligned address the two stores of the host page are one
              have hst : ((s.setHostPage (H.pageOf hostAddr) page).setReadOnly hostAddr
                    (Prot.read == Prot.read)).setHostPage (H.pageOf hostAddr)
                    { page with locked := true }
                  = (s.setHostPage (H.pageOf hostAddr)
                      { page with locked := true }).setReadOnly
                      (H.pageOf hostAddr) true := by
                rw [hk]
                unfold setHostPage setReadOnly
                simp
              rw [hst]
              exact hcase
            · simp only [hal, hok, ne_eq, not_true_eq_false, if_false,
                Bool.false_eq_true]
              exact .unprotected _ hrec (.inr (by simpa using hok))
          · simp only [hal, ne_eq, not_false_eq_true, if_true]
            exact .unprotected _ hrec
              (.inl (fun h => hal ((H.and_not_pageMask hostAddr).mpr h)))

/-- The checks of the page sizes come before any change. -/
theorem registerPage_of_pageSize {H : Host} {pageSize : C → U64} {core : C}
    (hsz : H.getPageSize < pageSize core ∨ pageSize core = 0) (ok : U64 → Bool) (p h : U64)
    (s : MemProtector C) :
    ∃ e, registerPage H pageSize ok core p h s = (.error e, s) := by
  unfold registerPage
  rcases hsz with hlt | hz
  · simp only [hlt, if_true]
    exact ⟨_, rfl⟩
  · simp only [hz, if_true]
    split <;> exact ⟨_, rfl⟩

/-! ## §3. The fault path. -/

/-- The calls `notify_page` makes for a host page. -/
def updateCalls (hp : HostPageData C) : List (Action C) :=
  hp.targetPages.map (fun tp => .updatePage tp.c tp.pageAddr)

theorem mem_updateCalls {hp : HostPageData C} {c : C} {p : U64} :
    .updatePage c p ∈ updateCalls hp ↔ ∃ tp ∈ hp.targetPages, tp.c = c ∧ tp.pageAddr = p := by
  unfold updateCalls
  simp [List.mem_map]

/-- The state after `notify_page` made the host page writable again. -/
def unlock (s : MemProtector C) (k : U64) (hp : HostPageData C) : MemProtector C :=
  (s.setHostPage k { hp with locked := false }).setReadOnly k false

theorem notifyPage_of_none {H : Host} {ok : U64 → Bool} {a : U64} {s : MemProtector C}
    (h : s.lookup (H.pageOf a) = none) : notifyPage H ok a s = (.ok false, [], s) := by
  unfold notifyPage
  simp [h]

theorem notifyPage_of_lookup {H : Host} {ok : U64 → Bool} {a : U64}
    {s : MemProtector C} {hp : HostPageData C} (h : s.lookup (H.pageOf a) = some hp) :
    notifyPage H ok a s =
      if ok (H.pageOf a) then (.ok true, updateCalls hp, unlock s (H.pageOf a) hp)
      else (.ok false, updateCalls hp, s) := by
  have hal : H.pageOf a &&& ~~~H.pageMask = 0 :=
    (H.and_not_pageMask _).mpr (H.pageOf_pageOf a)
  unfold notifyPage unprotectPage changePage mprotect updateCalls unlock
  simp only [h, hal, ne_eq, not_true_eq_false, if_false]
  cases hok : ok (H.pageOf a) with
  | true =>
      simp only [if_true]
      unfold setHostPage setReadOnly
      rfl
  | false => simp

/-- **The outcomes of a write to host memory.** -/
inductive WriteCase (H : Host) (ok : U64 → Bool) (a : U64) (s : MemProtector C) :
    List (Action C) → MemProtector C → Prop
  /-- The page is writable: nothing is trapped. -/
  | direct : s.readOnly (H.pageOf a) = false → WriteCase H ok a s [.store a] s
  /-- The fault is not claimed: the page is not in the map, or it cannot be made
  writable. -/
  | unclaimed {calls : List (Action C)} :
      s.readOnly (H.pageOf a) = true →
      (s.lookup (H.pageOf a) = none ∧ calls = []
        ∨ ∃ hp, s.lookup (H.pageOf a) = some hp ∧ ok (H.pageOf a) = false
          ∧ calls = updateCalls hp) →
      WriteCase H ok a s (.fault a :: calls ++ [.original a]) s
  /-- The clients are told, then the write is let through. -/
  | trapped {hp : HostPageData C} :
      s.readOnly (H.pageOf a) = true → s.lookup (H.pageOf a) = some hp →
      ok (H.pageOf a) = true →
      WriteCase H ok a s (.fault a :: updateCalls hp ++ [.store a])
        (unlock s (H.pageOf a) hp)

theorem hostWrite_case (H : Host) (ok : U64 → Bool) (a : U64) (s : MemProtector C) :
    WriteCase H ok a s (hostWrite H ok a s).1 (hostWrite H ok a s).2 := by
  unfold hostWrite segfaultHandlerInt
  cases hro : s.readOnly (H.pageOf a) with
  | false =>
      simp only [Bool.false_eq_true, if_false]
      exact .direct hro
  | true =>
      simp only [if_true]
      cases hl : s.lookup (H.pageOf a) with
      | none =>
          -- nobody registered the page: the write faults again on the read-only page
          rw [notifyPage_of_none hl]
          simp only [hro, if_true]
          exact .unclaimed hro (.inl ⟨hl, rfl⟩)
      | some hp =>
          rw [notifyPage_of_lookup hl]
          cases hok : ok (H.pageOf a) with
          | true =>
              -- restarted after the handler, the write finds the page writable
              have hopen : (unlock s (H.pageOf a) hp).readOnly (H.pageOf a) = false := by
                unfold unlock
                simp [readOnly_setReadOnly]
              simp only [if_true, hopen, Bool.false_eq_true, if_false]
              exact .trapped hro hl hok
          | false =>
              simp only [Bool.false_eq_true, if_false, hro, if_true]
              exact .unclaimed hro (.inr ⟨hp, hl, hok, rfl⟩)

/-- A write calls clients that are stored for its host page. -/
theorem called_of_hostWrite {H : Host} {ok : U64 → Bool} {a : U64} {s : MemProtector C}
    {c : C} {p : U64} (h : .updatePage c p ∈ (hostWrite H ok a s).1) :
    ∃ tp ∈ (s.hostPage (H.pageOf a)).targetPages, tp.c = c ∧ tp.pageAddr = p := by
  have hstored : ∀ hp, s.lookup (H.pageOf a) = some hp → .updatePage c p ∈ updateCalls hp →
      ∃ tp ∈ (s.hostPage (H.pageOf a)).targetPages, tp.c = c ∧ tp.pageAddr = p := by
    intro hp hl hmem
    rw [hostPage_of_lookup hl]
    exact mem_updateCalls.mp hmem
  have hcase := hostWrite_case H ok a s
  revert h hcase
  generalize (hostWrite H ok a s).1 = actions
  generalize (hostWrite H ok a s).2 = s'
  intro h hcase
  cases hcase with
  | direct _ => simp at h
  | unclaimed _ hcalls =>
      rcases hcalls with ⟨_, rfl⟩ | ⟨hp, hl, _, rfl⟩
      · simp at h
      · exact hstored hp hl (by simpa using h)
  | @trapped hp _ hl _ => exact hstored hp hl (by simpa using h)

/-! ## §4. The deregistration loops. -/

theorem eraseTargetPages_eq_filter (covered : TargetPageData C → Bool)
    (l : List (TargetPageData C)) :
    eraseTargetPages covered l = l.filter (fun tp => !covered tp) := by
  induction l with
  | nil => rfl
  | cons tp tps ih =>
      unfold eraseTargetPages
      cases h : covered tp <;> simp [h, ih]

/-- The host page without the covered target pages. -/
def withoutCovered (covered : TargetPageData C → Bool) (hp : HostPageData C) :
    HostPageData C :=
  { hp with targetPages := hp.targetPages.filter (fun tp => !covered tp) }

/-- The loop reclaims a locked host page that lost its last target page. -/
def reclaims (covered : TargetPageData C → Bool) (hp : HostPageData C) : Bool :=
  (withoutCovered covered hp).targetPages.isEmpty && hp.locked

/-- What can become of one host page, whatever the kernel answers. -/
inductive Swept (covered : TargetPageData C → Bool) :
    Option (HostPageData C) → Bool → Option (HostPageData C) → Bool → Prop
  /-- The loop ended with an error before it met the page. -/
  | untouched (o : Option (HostPageData C)) (ro : Bool) : Swept covered o ro o ro
  | filtered (hp : HostPageData C) (ro : Bool) :
      Swept covered (some hp) ro (some (withoutCovered covered hp)) ro
  | reclaimed (hp : HostPageData C) (ro : Bool) : reclaims covered hp = true →
      Swept covered (some hp) ro none false

section

variable (H : Host) (ok : U64 → Bool) (covered : TargetPageData C → Bool)

/-- A host page that is not stored any more is passed over. -/
theorem deregisterLoop_skip {k : U64} {ks : List U64} {s : MemProtector C}
    (h : s.lookup k = none) :
    deregisterLoop H ok covered (k :: ks) s = deregisterLoop H ok covered ks s := by
  conv_lhs => unfold deregisterLoop
  rw [h]

/-- One iteration of the outer loop. -/
theorem deregisterLoop_cons {k : U64} {ks : List U64} {s : MemProtector C}
    {hp : HostPageData C} (h : s.lookup k = some hp) :
    deregisterLoop H ok covered (k :: ks) s =
      if reclaims covered hp then
        if H.pageOf k = k then
          if ok k then
            deregisterLoop H ok covered ks
              (((s.setHostPage k (withoutCovered covered hp)).setReadOnly k
                false).eraseHostPage k)
          else (.error .unprotectFailed, s.setHostPage k (withoutCovered covered hp))
        else (.error (.invalidPageAddress k),
          s.setHostPage k (withoutCovered covered hp))
      else
        deregisterLoop H ok covered ks (s.setHostPage k (withoutCovered covered hp)) := by
  conv_lhs => unfold deregisterLoop
  simp only [h, eraseTargetPages_eq_filter]
  -- the test of the source is `reclaims`, by definition
  show (if reclaims covered hp = true then _ else _) = _
  by_cases hr : reclaims covered hp = true
  · unfold unprotectPage changePage mprotect
    simp only [hr, if_true, ne_eq, H.and_not_pageMask]
    by_cases hk : H.pageOf k = k
    · cases hok : ok k <;> simp [hk] <;> rfl
    · simp [hk, withoutCovered]
  · simp only [hr]
    rfl

/-- From `s` to `t` the loop has met the host page `k` and no other. -/
structure SweptAt (covered : TargetPageData C → Bool) (k : U64) (s t : MemProtector C) :
    Prop where
  here : Swept covered (s.lookup k) (s.readOnly k) (t.lookup k) (t.readOnly k)
  elsewhere : ∀ k', k' ≠ k → t.lookup k' = s.lookup k' ∧ t.readOnly k' = s.readOnly k'

theorem sweptAt_filtered {k : U64} {s : MemProtector C} {hp : HostPageData C}
    (h : s.lookup k = some hp) :
    SweptAt covered k s (s.setHostPage k (withoutCovered covered hp)) := by
  constructor
  · rw [lookup_setHostPage, if_pos rfl, h]
    exact .filtered hp _
  · intro k' hne
    rw [lookup_setHostPage, if_neg hne]
    exact ⟨rfl, rfl⟩

theorem sweptAt_reclaimed {k : U64} {s : MemProtector C} {hp : HostPageData C}
    (h : s.lookup k = some hp) (hr : reclaims covered hp = true) :
    SweptAt covered k s (((s.setHostPage k (withoutCovered covered hp)).setReadOnly k
      false).eraseHostPage k) := by
  constructor
  · rw [lookup_eraseHostPage, if_pos rfl, readOnly_eraseHostPage, readOnly_setReadOnly,
      if_pos rfl, h]
    exact .reclaimed hp _ hr
  · intro k' hne
    rw [lookup_eraseHostPage, if_neg hne, lookup_setReadOnly, lookup_setHostPage,
      if_neg hne, readOnly_eraseHostPage, readOnly_setReadOnly, if_neg hne]
    exact ⟨rfl, rfl⟩

/-- One iteration sweeps its page, and the loop goes on or ends with an error. -/
theorem deregisterLoop_iterates {k : U64} (ks : List U64) {s : MemProtector C}
    {hp : HostPageData C} (h : s.lookup k = some hp) :
    ∃ t, SweptAt covered k s t
      ∧ (deregisterLoop H ok covered (k :: ks) s = deregisterLoop H ok covered ks t
        ∨ ∃ e, deregisterLoop H ok covered (k :: ks) s = (.error e, t)) := by
  rw [deregisterLoop_cons H ok covered h]
  split
  · next hr =>
      -- `unprotect_page` can refuse the address, fail, or succeed
      split
      · split
        · exact ⟨_, sweptAt_reclaimed covered h hr, .inl rfl⟩
        · exact ⟨_, sweptAt_filtered covered h, .inr ⟨_, rfl⟩⟩
      · exact ⟨_, sweptAt_filtered covered h, .inr ⟨_, rfl⟩⟩
  · exact ⟨_, sweptAt_filtered covered h, .inl rfl⟩

/-- The loop leaves the host pages it does not meet alone. -/
theorem deregisterLoop_frame {k : U64} :
    ∀ (ks : List U64) (s : MemProtector C), k ∉ ks →
      (deregisterLoop H ok covered ks s).2.lookup k = s.lookup k
      ∧ (deregisterLoop H ok covered ks s).2.readOnly k = s.readOnly k := by
  intro ks
  induction ks with
  | nil => intro s _; exact ⟨rfl, rfl⟩
  | cons k' ks ih =>
      intro s hk
      have hne : k ≠ k' := fun h => hk (h ▸ List.mem_cons_self)
      have hks : k ∉ ks := fun h => hk (List.mem_cons_of_mem _ h)
      cases hl : s.lookup k' with
      | none =>
          rw [deregisterLoop_skip H ok covered hl]
          exact ih s hks
      | some hp =>
          obtain ⟨t, hat, hgo | ⟨e, hstop⟩⟩ := deregisterLoop_iterates H ok covered ks hl
          · obtain ⟨hlk, hro⟩ := ih t hks
            obtain ⟨hlk', hro'⟩ := hat.elsewhere k hne
            rw [hgo]
            exact ⟨hlk.trans hlk', hro.trans hro'⟩
          · rw [hstop]
            exact hat.elsewhere k hne

/-- **What the loop does to a host page, whatever the kernel answers.** -/
theorem deregisterLoop_swept (k : U64) :
    ∀ (ks : List U64) (s : MemProtector C), ks.Nodup →
      Swept covered (s.lookup k) (s.readOnly k)
        ((deregisterLoop H ok covered ks s).2.lookup k)
        ((deregisterLoop H ok covered ks s).2.readOnly k) := by
  intro ks
  induction ks with
  | nil => intro s _; exact .untouched _ _
  | cons k' ks ih =>
      intro s hnd
      obtain ⟨hk', hks⟩ := List.nodup_cons.mp hnd
      cases hl : s.lookup k' with
      | none =>
          rw [deregisterLoop_skip H ok covered hl]
          exact ih s hks
      | some hp =>
          obtain ⟨t, hat, hrest⟩ := deregisterLoop_iterates H ok covered ks hl
          by_cases hkk : k = k'
          · -- the page the iteration is about: the rest of the loop frames it
            subst hkk
            rcases hrest with hgo | ⟨e, hstop⟩
            · obtain ⟨hlk, hro⟩ := deregisterLoop_frame H ok covered ks t hk'
              rw [hgo, hlk, hro]
              exact hat.here
            · rw [hstop]
              exact hat.here
          · obtain ⟨hlk, hro⟩ := hat.elsewhere k hkk
            rw [← hlk, ← hro]
            rcases hrest with hgo | ⟨e, hstop⟩
            · rw [hgo]
              exact ih t hks
            · rw [hstop]
              exact .untouched _ _

/-- What the loop makes of a host page when `mprotect` succeeds. -/
def sweep (covered : TargetPageData C → Bool) (hp : HostPageData C) :
    Option (HostPageData C) :=
  if reclaims covered hp then none else some (withoutCovered covered hp)

/-- One iteration when `mprotect` succeeds: the loop goes on, with the page swept. -/
theorem deregisterLoop_iterates_ok {k : U64} (ks : List U64) {s : MemProtector C}
    {hp : HostPageData C} (h : s.lookup k = some hp) (hk : H.pageOf k = k)
    (hok : ok k = true) :
    ∃ t, SweptAt covered k s t
      ∧ deregisterLoop H ok covered (k :: ks) s = deregisterLoop H ok covered ks t
      ∧ t.lookup k = sweep covered hp
      ∧ t.readOnly k = (s.readOnly k && !reclaims covered hp) := by
  rw [deregisterLoop_cons H ok covered h, if_pos hk, if_pos hok]
  unfold sweep
  split
  · next hr =>
      refine ⟨_, sweptAt_reclaimed covered h hr, rfl, ?_, ?_⟩
      · rw [lookup_eraseHostPage, if_pos rfl]
      · rw [readOnly_eraseHostPage, readOnly_setReadOnly, if_pos rfl, hr]
        simp
  · next hr =>
      refine ⟨_, sweptAt_filtered covered h, rfl, ?_, ?_⟩
      · rw [lookup_setHostPage, if_pos rfl]
      · simp [hr]

/-- The exact effect of the loop on the pages of a list of aligned keys. -/
theorem deregisterLoop_of_ok (hok : ∀ k, ok k = true) :
    ∀ (ks : List U64) (s : MemProtector C), ks.Nodup → (∀ k ∈ ks, H.pageOf k = k) →
      (deregisterLoop H ok covered ks s).1 = .ok ()
      ∧ ∀ k ∈ ks,
        (deregisterLoop H ok covered ks s).2.lookup k = (s.lookup k).bind (sweep covered)
        ∧ (deregisterLoop H ok covered ks s).2.readOnly k
            = (s.readOnly k && !(s.lookup k).any (reclaims covered)) := by
  intro ks
  induction ks with
  | nil => intro s _ _; exact ⟨rfl, by simp⟩
  | cons k' ks ih =>
      intro s hnd hal
      obtain ⟨hk', hks⟩ := List.nodup_cons.mp hnd
      have hal' := fun k hk => hal k (List.mem_cons_of_mem _ hk)
      cases hl : s.lookup k' with
      | none =>
          rw [deregisterLoop_skip H ok covered hl]
          obtain ⟨hres, hpages⟩ := ih s hks hal'
          refine ⟨hres, ?_⟩
          intro k hk
          rcases List.mem_cons.mp hk with rfl | hk
          · obtain ⟨hlk, hro⟩ := deregisterLoop_frame H ok covered ks s hk'
            rw [hlk, hro, hl]
            simp
          · exact hpages k hk
      | some hp =>
          obtain ⟨t, hat, hgo, htl, htr⟩ := deregisterLoop_iterates_ok H ok covered ks hl
            (hal k' List.mem_cons_self) (hok k')
          obtain ⟨hres, hpages⟩ := ih t hks hal'
          rw [hgo]
          refine ⟨hres, ?_⟩
          intro k hk
          rcases List.mem_cons.mp hk with rfl | hk
          · -- the rest of the loop frames the page of this iteration
            obtain ⟨hlk, hro⟩ := deregisterLoop_frame H ok covered ks t hk'
            rw [hlk, hro, htl, htr, hl]
            simp
          · have hne : k ≠ k' := fun h => hk' (h ▸ hk)
            obtain ⟨hlk, hro⟩ := hat.elsewhere k hne
            rw [(hpages k hk).1, (hpages k hk).2, hlk, hro]
            exact ⟨rfl, rfl⟩

/-- **The exact effect of a deregistration when `mprotect` succeeds**, for any
order in which the map is walked. -/
theorem deregisterLoop_reliable (hok : ∀ k, ok k = true) {s : MemProtector C}
    (walk : Walk s.protectedPages)
    (hal : ∀ k hp, s.lookup k = some hp → H.pageOf k = k) :
    (deregisterLoop H ok covered walk.order s).1 = .ok ()
    ∧ ∀ k,
      (deregisterLoop H ok covered walk.order s).2.lookup k
          = (s.lookup k).bind (sweep covered)
      ∧ (deregisterLoop H ok covered walk.order s).2.readOnly k
          = (s.readOnly k && !(s.lookup k).any (reclaims covered)) := by
  -- the loop meets exactly the stored pages, and their keys are aligned
  have hstored : ∀ k, k ∈ walk.order ↔ ∃ hp, s.lookup k = some hp :=
    fun k => (walk.mem_order k).trans Finmap.mem_iff
  have halign : ∀ k ∈ walk.order, H.pageOf k = k := by
    intro k hk
    obtain ⟨hp, hl⟩ := (hstored k).mp hk
    exact hal k hp hl
  obtain ⟨hres, hpages⟩ :=
    deregisterLoop_of_ok H ok covered hok walk.order s walk.nodup halign
  refine ⟨hres, fun k => ?_⟩
  by_cases hk : k ∈ walk.order
  · exact hpages k hk
  · have hnone : s.lookup k = none := by
      cases hl : s.lookup k with
      | none => rfl
      | some hp => exact absurd ((hstored k).mpr ⟨hp, hl⟩) hk
    obtain ⟨hlk, hro⟩ := deregisterLoop_frame H ok covered walk.order s hk
    rw [hlk, hro, hnone]
    simp

end

end Avp64.Psp
