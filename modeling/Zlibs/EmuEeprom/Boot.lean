import Zlibs.EmuEeprom.Contents

/-! Formatting, status queries and `init` over a backend that never fails. -/
namespace Zlibs.EmuEeprom

open Zlibs.Lib

variable {g : Geometry} {K : Logs → Prop} {L : Logs} {st : Option (Page × List Entry)}
  {s t : State} {S T b c : List Entry} {A p q : Page} {e : Entry} {a : Nat}

/-- The logs of a flash that `format` has written. -/
def Logs.fresh (g : Geometry) (L : Logs) (formatFactoryPage : Bool) : Logs :=
  ((L.cleared formatFactoryPage).marked g .page1 .valid).set .page2
    (pad g [statusEntry .formatted])

theorem Logs.fresh_page1 (formatFactoryPage : Bool) :
    L.fresh g formatFactoryPage .page1 = pad g [statusEntry .valid] := by
  rw [Logs.fresh, Logs.set_ne (q := .page1) (p := .page2) nofun, Logs.marked, Logs.set_self,
    L.cleared_page1, List.nil_append]

theorem Logs.fresh_factory (formatFactoryPage : Bool) :
    L.fresh g formatFactoryPage .factory = if formatFactoryPage then [] else L .factory := by
  rw [Logs.fresh, Logs.set_ne (q := .factory) (p := .page2) (by decide), Logs.marked,
    Logs.set_ne (q := .factory) (p := .page1) (by decide), Logs.cleared]
  split
  · exact Logs.set_self
  · rw [Logs.set_ne (q := .factory) (p := .page2) (by decide),
      Logs.set_ne (q := .factory) (p := .page1) (by decide)]

/-- The members after a successful `format`. -/
structure Formatted (r : Ram) (formatFactoryPage : Bool) (t : Ram) : Prop where
  cache : t.cache = fun _ => erasedValue
  dirty : t.cacheDirty = false
  factory : t.pageStatusCache .factory =
    if formatFactoryPage then .erased else r.pageStatusCache .factory

theorem ActivateEnd.of_never {r : Ram} {done : Bool} (h : ActivateEnd g never K L r done t)
    (hroom : (L .page1).length ≠ g.pageEntries) :
    done = true ∧ Kept ((r.setPageStatus .page1 .valid).setPageStatus .page2 .formatted) t.ram ∧
      t.ram.nextWriteOffsetCache = ⟨.page1, 0⟩ ∧
      Sees g never K ((L.marked g .page1 .valid).set .page2 (pad g [statusEntry .formatted]))
        none t := by
  cases h with
  | validRefused _ _ hst =>
    rcases hst with ⟨_, hfull | hfault⟩ | ⟨_, hfault⟩
    · exact absurd hfull hroom
    · exact absurd hfault not_readFault
    · exact absurd hfault not_blockFault
  | formattedRefused _ _ hst _ =>
    rcases hst with ⟨_, hfault⟩ | ⟨_, hfault⟩
    · exact absurd hfault not_readFault
    · exact absurd hfault not_blockFault
  | done hkept hnext hsees => exact ⟨rfl, hkept, hnext, hsees⟩

theorem format_working (h : Sees g never K L st s) (formatFactoryPage : Bool)
    (hsafe : FormatSafe K g L formatFactoryPage) :
    wp (format g formatFactoryPage) (fun r t => r = true ∧
      Working g K (L.fresh g formatFactoryPage) .page1 [] t ∧
      Formatted s.ram formatFactoryPage t.ram) s := by
  apply wp_mono (format_spec h formatFactoryPage hsafe)
  intro r t hend
  have hlen : (L.cleared formatFactoryPage .page1).length ≠ g.pageEntries := by
    have := pageEntries_pos (g := g)
    rw [L.cleared_page1, List.length_nil]
    omega
  cases hend with
  | kept1 _ _ hfault => exact absurd hfault not_eraseFault
  | kept2 _ _ hfault => exact absurd hfault not_eraseFault
  | keptFactory _ _ hfault => exact absurd hfault not_eraseFault
  | activated hend =>
    obtain ⟨rfl, hkept, hnext, hsees⟩ := hend.of_never hlen
    refine ⟨rfl, ⟨hsees, .unknown (fun c hc => by cases hc) (Or.inr (by rw [hnext])), by decide, ?_,
      ?_, ?_, ?_⟩, ?_, ?_, ?_⟩
    · rw [hkept.statuses]
      simp [Ram.setPageStatus]
    · rw [hkept.statuses]
      simp [Ram.setPageStatus, Page.other]
    · rw [L.fresh_page1]
      exact lastStatus_append_statusEntry (S := []) (by decide)
    · exact Logs.set_self
    · rw [hkept.cache]
      rfl
    · rw [hkept.dirty]
      rfl
    · rw [hkept.statuses]
      cases formatFactoryPage <;> rfl

/-- The offset cached for the page to write lies behind its status records. -/
theorem Working.statusBelowNext (h : Working g K L A b s) (q : Page) :
    StatusBelowNext s.ram L q := by
  intro hw hpage hoff
  rw [h.page .write] at hw
  cases hw
  have hnext := h.tail.known_next ⟨hpage, hoff⟩
  refine ⟨(L A).length + b.length, by rw [hnext], ?_⟩
  rw [List.take_of_length_le (by omega)]

theorem Working.located {r : Ram} (h : Working g K L A b s) (hr : Located s.ram L q r) :
    Working g K L A b { s with ram := r } ∧ Kept s.ram r := by
  rcases hr with rfl | ⟨hw, hn, rfl⟩
  · exact ⟨h, Kept.refl _⟩
  · rw [h.page .write] at hw
    cases hw
    have hnot : ¬ (s.ram.nextWriteOffsetCache.page = A ∧ s.ram.nextWriteOffsetCache.offset ≠ 0) :=
      fun hc => hn.elim (fun h => h hc.1) (fun h => hc.2 h)
    obtain ⟨rfl, htail⟩ := h.tail.unknown_next h.sees hnot
    exact ⟨h.withRam h.sees.staged htail rfl rfl, rfl, rfl, rfl⟩

theorem Working.lastStatus_eq (h : Working g K L A b s) (hq : q ≠ .factory) :
    lastStatus (L q) = s.ram.pageStatusCache q := by
  have hspare : lastStatus (pad g [statusEntry .formatted]) = .formatted :=
    lastStatus_append_statusEntry (S := []) nofun
  by_cases hA : q = A
  · subst hA
    rw [h.marked, h.valid]
  · have hB : q = A.other := by
      have hr := h.runtime
      cases A <;> cases q <;> simp_all [Page.other]
    subst hB
    rw [h.spare, hspare, h.other]

theorem Working.setStatus (h : Working g K L A b s) (q : Page) :
    Working g K L A b { s with ram := s.ram.setPageStatus q (lastStatus (L q)) } := by
  have hst : ∀ p, p ≠ .factory →
      (s.ram.setPageStatus q (lastStatus (L q))).pageStatusCache p = s.ram.pageStatusCache p := by
    intro p hp
    by_cases hq : p = q
    · subst hq
      rw [h.lastStatus_eq hp]
      simp [Ram.setPageStatus]
    · simp [Ram.setPageStatus, hq]
  refine h.withRam ?_ (h.tail.withRam rfl rfl) (hst A h.runtime) (hst A.other Page.other_runtime)
  cases hs : stage A b with
  | none => exact hs ▸ h.sees.staged
  | some w => exact hs ▸ h.sees.staged

theorem Working.refreshPageStatus (h : Working g K L A b s) (q : Page) :
    wp (refreshPageStatus g q) (fun r t => r = true ∧ Working g K L A b t ∧
      t.ram.cache = s.ram.cache ∧ t.ram.cacheDirty = s.ram.cacheDirty ∧
      t.ram.pageStatusCache = (s.ram.setPageStatus q (lastStatus (L q))).pageStatusCache) s := by
  apply wp_mono (refreshPageStatus_spec h.sees q)
  rintro r t ⟨n, ram, hloc, ⟨status, rfl, rfl, hstatus⟩ | ⟨rfl, hfault, rfl⟩⟩
  · obtain ⟨hw, hkept⟩ := h.located hloc
    rw [hstatus (h.statusBelowNext q)]
    have hset : (ram.setPageStatus q (lastStatus (L q))).pageStatusCache =
        (s.ram.setPageStatus q (lastStatus (L q))).pageStatusCache := by
      simp only [Ram.setPageStatus, hkept.statuses]
    exact ⟨rfl, (hw.setStatus q).atCalls n, hkept.cache, hkept.dirty, hset⟩
  · exact absurd hfault not_readFault

theorem Working.pageStatus (h : Working g K L A b s) (q : Page) :
    wp (pageStatus g q) (fun r t => r = lastStatus (L q) ∧ Working g K L A b t ∧
      t.ram.cache = s.ram.cache ∧ t.ram.cacheDirty = s.ram.cacheDirty) s := by
  apply wp_bind_of (h.refreshPageStatus q)
  rintro r t ⟨rfl, hw, hc, hd, hs⟩
  refine ⟨?_, hw, hc, hd⟩
  show t.ram.pageStatusCache q = _
  rw [hs]
  simp [Ram.setPageStatus]

variable {f : Faults}

/-- Nothing is staged, and a cached offset is at the end of its page. -/
def AtRest (g : Geometry) (r : Ram) (L : Logs) : Prop := ∀ p, Tail g r L none p []

theorem atRest_zero {r : Ram} (h : r.nextWriteOffsetCache.offset = 0) : AtRest g r L :=
  fun _ => .unknown (fun _ hc => by cases hc) (Or.inr h)

theorem atRest_end {r : Ram} (p : Page) : AtRest g (r.setNextWriteOffset p (4 * (L p).length)) L := by
  intro q
  by_cases hq : p = q
  · subst hq
    exact .clean 0 (fun _ hc => by cases hc) rfl g.entriesPerBlock_pos
  · exact .unknown (fun _ hc => by cases hc) (Or.inl hq)

theorem AtRest.withRam {r u : Ram} (h : AtRest g r L)
    (hn : u.nextWriteOffsetCache = r.nextWriteOffsetCache) : AtRest g u L :=
  fun p => (h p).move hn rfl fun _ hc => by cases hc

theorem AtRest.statusBelowNext (h : AtRest g s.ram L) (p : Page) : StatusBelowNext s.ram L p := by
  intro _ hpage hoff
  have hnext := (h p).known_next ⟨hpage, hoff⟩
  rw [List.length_nil, Nat.add_zero] at hnext
  exact ⟨(L p).length, by rw [hnext], by rw [List.take_length]⟩

theorem refreshPageStatus_atRest (h : Sees g f K L none s) (hr : AtRest g s.ram L) (q : Page) :
    wp (refreshPageStatus g q) (fun r t => Sees g f K L none t ∧ AtRest g t.ram L ∧
      t.ram.cache = s.ram.cache ∧ t.ram.cacheDirty = s.ram.cacheDirty ∧
      ((r = true ∧ t.ram.pageStatusCache =
          (s.ram.setPageStatus q (lastStatus (L q))).pageStatusCache) ∨
        (r = false ∧ ReadFault f ∧ t.ram.pageStatusCache = s.ram.pageStatusCache))) s := by
  have hloc : ∀ r, Located s.ram L q r → Sees g f K L none { s with ram := r } ∧ AtRest g r L ∧
      Kept s.ram r := by
    rintro r (rfl | ⟨_, _, rfl⟩)
    · exact ⟨h, hr, Kept.refl _⟩
    · exact ⟨h.setNext q _, atRest_end q, rfl, rfl, rfl⟩
  apply wp_mono (refreshPageStatus_spec h q)
  rintro r t ⟨n, ram, hl, ⟨status, rfl, rfl, hstatus⟩ | ⟨rfl, hfault, rfl⟩⟩
  · obtain ⟨hsees, hrest, hkept⟩ := hloc ram hl
    have hset : (ram.setPageStatus q status).pageStatusCache =
        (s.ram.setPageStatus q (lastStatus (L q))).pageStatusCache := by
      simp only [Ram.setPageStatus, hkept.statuses, hstatus (hr.statusBelowNext q)]
    have hs : Sees g f K L none { s with ram := ram.setPageStatus q status } :=
      h.clear hsees.staged
    exact ⟨hs.atCalls n, hrest.withRam rfl, hkept.cache, hkept.dirty, Or.inl ⟨rfl, hset⟩⟩
  · obtain ⟨hsees, hrest, hkept⟩ := hloc ram hl
    exact ⟨hsees.atCalls n, hrest, hkept.cache, hkept.dirty, Or.inr ⟨rfl, hfault, hkept.statuses⟩⟩

/-- The status scans of `init`. -/
def recognize (g : Geometry) : M Bool := do
  if !(← refreshPageStatus g .page1) then
    return false
  if !(← refreshPageStatus g .page2) then
    return false
  refreshPageStatus g .factory

theorem recognize_spec (h : Sees g f K L none s) (hr : AtRest g s.ram L) :
    wp (recognize g) (fun r t => Sees g f K L none t ∧ AtRest g t.ram L ∧
      t.ram.cache = s.ram.cache ∧ t.ram.cacheDirty = s.ram.cacheDirty ∧
      ((r = true ∧ t.ram.pageStatusCache = fun p => lastStatus (L p)) ∨
        (r = false ∧ ReadFault f ∧ ∀ p, t.ram.pageStatusCache p = s.ram.pageStatusCache p ∨
          t.ram.pageStatusCache p = lastStatus (L p)))) s := by
  have hset : ∀ (r : Ram) (q p : Page), (r.setPageStatus q (lastStatus (L q))).pageStatusCache p =
      if p = q then lastStatus (L q) else r.pageStatusCache p := fun _ _ _ => rfl
  rw [recognize]
  apply wp_bind_of (refreshPageStatus_atRest h hr .page1)
  rintro r t ⟨hs, hr, hc, hd, ⟨rfl, h1⟩ | ⟨rfl, hfault, h1⟩⟩
  · apply wp_bind_of (refreshPageStatus_atRest hs hr .page2)
    rintro r u ⟨hs, hr, hc', hd', ⟨rfl, h2⟩ | ⟨rfl, hfault, h2⟩⟩
    · apply wp_mono (refreshPageStatus_atRest hs hr .factory)
      rintro r v ⟨hs, hr, hc'', hd'', ⟨rfl, h3⟩ | ⟨rfl, hfault, h3⟩⟩
      · refine ⟨hs, hr, hc''.trans (hc'.trans hc), hd''.trans (hd'.trans hd), Or.inl ⟨rfl, ?_⟩⟩
        funext p
        rw [h3, hset, h2, hset, h1, hset]
        cases p <;> simp
      · refine ⟨hs, hr, hc''.trans (hc'.trans hc), hd''.trans (hd'.trans hd),
          Or.inr ⟨rfl, hfault, ?_⟩⟩
        intro p
        rw [h3, h2, hset, h1, hset]
        cases p <;> simp
    · have hst : ∀ p, u.ram.pageStatusCache p = s.ram.pageStatusCache p ∨
          u.ram.pageStatusCache p = lastStatus (L p) := by
        intro p
        rw [h2, h1, hset]
        cases p <;> simp
      exact ⟨hs, hr, hc'.trans hc, hd'.trans hd, Or.inr ⟨rfl, hfault, hst⟩⟩
  · exact ⟨hs, hr, hc, hd, Or.inr ⟨rfl, hfault, fun p => Or.inl (congrFun h1 p)⟩⟩

/-- `init` once the pages are recognized. -/
def repair (g : Geometry) : M Bool := do
  let statuses := (← get).ram.pageStatusCache
  match ← repairPages g (statuses .page1) (statuses .page2) with
  | .fail => return false
  | .proceed doCache =>
    if doCache then
      if !(← cache g) then
        return ← format g
    return true

/-- An erased page takes its status record. -/
theorem not_notMarked {r : Ram} {x : PageStatus} (hq : L q = []) :
    ¬ NotMarked g never K L none q x r t := by
  intro h
  cases h with
  | unflushed _ _ hfault =>
    obtain ⟨_, _, hst, _⟩ := hfault
    cases hst
  | noRoom _ _ hfull =>
    rcases hfull with hfull | hfault
    · have := pageEntries_pos (g := g)
      rw [Logs.flushed_none, hq, List.length_nil] at hfull
      omega
    · exact not_readFault hfault
  | refused _ _ _ _ hfault => exact not_blockFault hfault

/-- Filling the mirror from the valid page of two settled pages. -/
theorem cache_working (h : Sees g never K L none s) (hA : A ≠ .factory)
    (hv : s.ram.pageStatusCache A = .valid) (ho : s.ram.pageStatusCache A.other = .formatted)
    (hm : lastStatus (L A) = .valid) (hspare : L A.other = pad g [statusEntry .formatted]) :
    wp (cache g) (fun r t => r = true ∧ Working g K L A [] t ∧ t.ram.cache = mirror (L A) ∧
      t.ram.cacheDirty = false ∧
      t.ram.pageStatusCache .factory = s.ram.pageStatusCache .factory) s := by
  apply wp_mono (cache_spec h (findValidPage_working hA hv ho .read))
  rintro r t ⟨c, ⟨rfl, rfl⟩ | ⟨rfl, hfault, _⟩⟩
  · have hsees : Sees g never K L none
        { s with ram := s.ram.clearWriteBlock.clearCache.mirroring A (L A) (L A).length } :=
      h.clear rfl
    refine ⟨rfl, ⟨hsees.atCalls c, atRest_end A A, hA, hv, ho, hm, hspare⟩, ?_, rfl, rfl⟩
    show mirror ((L A).take (L A).length) = _
    rw [List.take_length]
  · exact absurd hfault not_readFault

theorem findValidPage_single {statuses : Page → PageStatus} (hA : A ≠ .factory)
    (hv : statuses A = .valid) (ho : statuses A.other ≠ .valid) :
    findValidPage statuses .read = some A := by
  cases A with
  | page1 =>
    have hv : statuses .page1 = .valid := hv
    rw [findValidPage, if_pos hv]
  | page2 =>
    have hv : statuses .page2 = .valid := hv
    have ho : statuses .page1 ≠ .valid := ho
    rw [findValidPage, if_neg ho, if_pos hv]
  | factory => exact absurd rfl hA

/-- What `init` does with a valid page depends on the other one. -/
theorem repairPages_valid (hA : A ≠ .factory) {x : Page → PageStatus} (hv : x A = .valid) :
    repairPages g (x .page1) (x .page2) = match x A.other with
      | .valid => reformat g true
      | .erased => formatErasedPage g A.other
      | .formatted => pure (.proceed true)
      | .receiving => repeatTransfer g A.other := by
  cases A with
  | page1 =>
    have hv : x .page1 = .valid := hv
    show repairPages g (x .page1) (x .page2) = match x .page2 with
      | .valid => reformat g true
      | .erased => formatErasedPage g .page2
      | .formatted => pure (.proceed true)
      | .receiving => repeatTransfer g .page2
    rw [hv]
    cases x .page2 <;> rfl
  | page2 =>
    have hv : x .page2 = .valid := hv
    show repairPages g (x .page1) (x .page2) = match x .page1 with
      | .valid => reformat g true
      | .erased => formatErasedPage g .page1
      | .formatted => pure (.proceed true)
      | .receiving => repeatTransfer g .page1
    rw [hv]
    cases x .page1 <;> rfl
  | factory => exact absurd rfl hA

theorem repairPages_none {x y : PageStatus} (hx : x ≠ .valid) (hy : y ≠ .valid) :
    repairPages g x y = reformat g false := by
  cases x <;> cases y <;> first | rfl | exact absurd rfl hx | exact absurd rfl hy

/-- What `init` may do to a flash whose page `A` is the only valid one. -/
structure RepairSafe (K : Logs → Prop) (g : Geometry) (L : Logs) (A : Page) : Prop where
  erased : lastStatus (L A.other) ≠ .formatted → K (L.set A.other [])
  formatted : lastStatus (L A.other) = .erased →
    K (L.set A.other (pad g [statusEntry .formatted]))
  transfer : lastStatus (L A.other) = .receiving →
    TransferSafe K g (L.set A.other []) A (copied (mirror (L A)) (List.range g.maxAddress))

/-- The log `init` leaves on the valid page: the one it found, or a copy of its values. -/
def Recovered (g : Geometry) (S T : List Entry) : Prop :=
  T = S ∨ ∃ C, T = C ++ pad g [statusEntry .valid] ∧
    Transferred g (pad g [statusEntry .receiving])
      (copied (mirror S) (List.range g.maxAddress)) C

/-- The state `init` leaves: a clean mirror of the valid page. -/
structure Booted (g : Geometry) (K : Logs → Prop) (L L' : Logs) (A : Page) (t : State) : Prop where
  working : Working g K L' A [] t
  cache : t.ram.cache = mirror (L' A)
  dirty : t.ram.cacheDirty = false
  factory : L' .factory = L .factory
  status : t.ram.pageStatusCache .factory = lastStatus (L .factory)

theorem repair_valid (h : Sees g never K L none s)
    (hs : s.ram.pageStatusCache = fun p => lastStatus (L p)) (hA : A ≠ .factory)
    (hm : lastStatus (L A) = .valid) (hB : lastStatus (L A.other) ≠ .valid)
    (hspare : lastStatus (L A.other) = .formatted → L A.other = pad g [statusEntry .formatted])
    (hK : RepairSafe K g L A) :
    wp (repair g) (fun r t => r = true ∧ ∃ A' L', Booted g K L L' A' t ∧
      Recovered g (L A) (L' A')) s := by
  have hne := Page.other_ne hA
  have hv : s.ram.pageStatusCache A = .valid := by rw [hs]; exact hm
  have hrepair := repairPages_valid (g := g) hA hv
  rw [repair, wp_bind, wp_get]
  dsimp only
  rw [hrepair]
  have ho : s.ram.pageStatusCache A.other = lastStatus (L A.other) := by rw [hs]
  rw [ho]
  cases hx : lastStatus (L A.other) with
  | valid => exact absurd hx hB
  | formatted =>
    rw [hx] at ho
    dsimp only
    rw [wp_bind, wp_pure]
    apply wp_bind_of (cache_working h hA hv ho hm (hspare hx))
    rintro r t ⟨rfl, hw, hc, hd, hf⟩
    exact ⟨rfl, A, L, ⟨hw, hc, hd, rfl, hf.trans (by rw [hs])⟩, Or.inl rfl⟩
  | erased =>
    dsimp only
    rw [wp_bind, formatErasedPage]
    have hE := hK.erased (by rw [hx]; decide)
    apply wp_bind_of (hwaErasePage_spec h h.staged hE)
    rintro r t ⟨hram, ⟨rfl, hsees⟩ | ⟨rfl, hfault, _⟩⟩
    · have hmark : Logs.marked g (L.set A.other []) A.other .formatted =
          L.set A.other (pad g [statusEntry .formatted]) := by
        rw [Logs.marked, Logs.set_self, Logs.set_set, List.nil_append]
      apply wp_bind_of (writePageStatus_spec hsees (q := A.other) (x := .formatted) (by decide)
        hsees.good (by rw [Logs.flushed_none, hmark]; exact hK.formatted hx))
      rintro r u (⟨rfl, hkept, _, _, hsees'⟩ | ⟨rfl, hnot⟩)
      · rw [Logs.flushed_none, hmark] at hsees'
        have hstat : ∀ q, u.ram.pageStatusCache q =
            if q = A.other then .formatted else s.ram.pageStatusCache q := by
          intro q
          rw [hkept.statuses, ← hram]
          rfl
        have hlog : L.set A.other (pad g [statusEntry .formatted]) A = L A := Logs.set_ne hne.symm
        have hcache := cache_working hsees' hA (by rw [hstat, if_neg hne.symm, hv])
          (by rw [hstat, if_pos rfl]) (by rw [hlog, hm]) Logs.set_self
        rw [hlog] at hcache
        simp only [Bool.not_true, Bool.false_eq_true, if_false]
        rw [wp_pure]
        apply wp_bind_of hcache
        rintro r v ⟨rfl, hw, hc, hd, hf⟩
        refine ⟨rfl, A, _, ⟨hw, by rw [hlog]; exact hc, hd,
          Logs.set_ne Page.other_runtime.symm, ?_⟩, Or.inl hlog⟩
        rw [State.ram] at hf
        exact hf.trans (by rw [hstat, if_neg Page.other_runtime.symm, hs])
      · exact absurd hnot (not_notMarked Logs.set_self)
    · exact absurd hfault not_eraseFault
  | receiving =>
    dsimp only
    rw [wp_bind, repeatTransfer]
    have hE := hK.erased (by rw [hx]; decide)
    apply wp_bind_of (hwaErasePage_spec h h.staged hE)
    rintro r t ⟨hram, ⟨rfl, hsees⟩ | ⟨rfl, hfault, _⟩⟩
    · have hlog : L.set A.other [] A = L A := Logs.set_ne hne.symm
      have hread : findValidPage t.ram.pageStatusCache .read = some A := by
        rw [hram]
        exact findValidPage_single hA hv (by rw [ho, hx]; decide)
      apply wp_bind_of (cache_spec hsees hread)
      rw [hlog]
      rintro r u ⟨c, ⟨rfl, rfl⟩ | ⟨rfl, hfault, _⟩⟩
      · have hcache : (t.ram.clearWriteBlock.clearCache.mirroring A (L A) (L A).length).cache =
            mirror (L A) := by
          show mirror ((L A).take (L A).length) = _
          rw [List.take_length]
        have hsees' : Sees g never K (L.set A.other []) none
            { t with ram := t.ram.clearWriteBlock.clearCache.mirroring A (L A) (L A).length } :=
          hsees.clear rfl
        have hroom := room_after_transfer (g := g) (mirror (L A))
        have hvals : copied (mirror (L A)) (List.range g.maxAddress) = copied
            (t.ram.clearWriteBlock.clearCache.mirroring A (L A) (L A).length).cache
            (List.range g.maxAddress) := by rw [hcache]
        apply wp_bind_of (pageTransfer_never (hsees'.atCalls c) hread hvals
          (R := pad g [statusEntry .receiving])
          (by rw [Logs.flushed_none, Logs.set_self, List.nil_append])
          (by rw [length_pad_status]; omega) (hK.transfer hx))
        rintro r v ⟨rfl, T, hT, hs', hstat, hc, hd, hn⟩
        refine ⟨rfl, A.other, _, ⟨working_transferred hA hs' hstat hn, ?_, hd, ?_, ?_⟩,
          Or.inr ⟨T, Logs.transferred_other hA, hT⟩⟩
        · rw [Logs.transferred_other hA]
          exact hc
        · rw [Logs.transferred_factory hA, Logs.flushed_none,
            Logs.set_ne Page.other_runtime.symm]
        · have hfac : v.ram.pageStatusCache .factory = t.ram.pageStatusCache .factory := by
            rw [hstat]
            simp [Ram.setPageStatus, hA.symm, Page.other_runtime.symm]
            rfl
          exact hfac.trans (by rw [hram, hs])
      · exact absurd hfault not_readFault
    · exact absurd hfault not_eraseFault

/-- A guarded step in front of a guarded rest. -/
theorem guard_bind {x y : M Bool} {k : Bool → M Bool} (hk : k false = pure false) :
    ((do if !(← x) then return false
         y) >>= k) = (do if !(← x) then return false
                         y >>= k) := by
  funext s
  have hx : ∀ z : Bool × State,
      (match (if !z.1 then pure false else y : M Bool) z.2 with | (r, t) => k r t) =
        (if !z.1 then pure false else y >>= k : M Bool) z.2 := by
    rintro ⟨_ | _, t⟩
    · exact congrFun hk t
    · rfl
  exact hx (x s)

theorem init_eq : init g = (do
    if !(← hwaInit) then
      return false
    modifyRam Ram.clearWriteBlock
    modifyRam (·.setNextWriteOffset .page1 0)
    modifyRam Ram.clearCache
    if !(← recognize g) then
      return false
    repair g) := by
  have hrest := guard_bind (x := refreshPageStatus g .page2) (y := refreshPageStatus g .factory)
    (k := fun r => if !r then pure false else repair g) rfl
  have hall := guard_bind (x := refreshPageStatus g .page1) (y := do
    if !(← refreshPageStatus g .page2) then return false
    refreshPageStatus g .factory) (k := fun r => if !r then pure false else repair g) rfl
  rw [hrest] at hall
  show init g = (do
    if !(← hwaInit) then
      return false
    modifyRam Ram.clearWriteBlock
    modifyRam (·.setNextWriteOffset .page1 0)
    modifyRam Ram.clearCache
    recognize g >>= fun r => if !r then pure false else repair g)
  rw [recognize, hall]
  rfl

/-- With no valid page `init` formats. -/
theorem repair_none (h : Sees g never K L none s)
    (hs : s.ram.pageStatusCache = fun p => lastStatus (L p))
    (h1 : lastStatus (L .page1) ≠ .valid) (h2 : lastStatus (L .page2) ≠ .valid)
    (hK : FormatSafe K g L false) :
    wp (repair g) (fun r t => r = true ∧ Booted g K L (L.fresh g false) .page1 t) s := by
  rw [repair, wp_bind, wp_get]
  dsimp only
  rw [hs, repairPages_none h1 h2, reformat, wp_bind]
  apply wp_bind_of (format_working h false hK)
  rintro r t ⟨rfl, hw, hf⟩
  refine ⟨rfl, hw, ?_, hf.dirty, Logs.fresh_factory false, ?_⟩
  · rw [L.fresh_page1]
    refine hf.cache.trans ?_
    funext a
    rw [mirror, lookup_statusBlock]
    rfl
  · refine hf.factory.trans ?_
    rw [hs]
    rfl

/-- `init` after its backend is ready, from any state. -/
theorem init_recognized (h : Sees g never K L st s) {Q : Bool → State → Prop}
    (hQ : ∀ t, Sees g never K L none t → t.ram.pageStatusCache = (fun p => lastStatus (L p)) →
      wp (repair g) Q t) : wp (init g) Q s := by
  have hf : s.hwa.fails s.hwa.calls .init = false := by rw [h.faults]; rfl
  have hstart : Sees g never K L none { s with
      ram := (s.ram.clearWriteBlock.setNextWriteOffset .page1 0).clearCache
      hwa := s.hwa.tick } :=
    ⟨h.faults, h.holds, rfl, h.traced, h.good⟩
  have hrec := recognize_spec hstart (atRest_zero rfl)
  rw [init_eq]
  apply wp_bind_of (P := fun r t => r = true ∧ t = { s with hwa := s.hwa.tick })
  · refine ⟨?_, rfl⟩
    show (!s.hwa.fails s.hwa.calls .init) = true
    rw [hf]
    rfl
  · rintro r t ⟨rfl, rfl⟩
    simp only [Bool.not_true, Bool.false_eq_true, if_false]
    rw [wp_bind, wp_modifyRam, wp_bind, wp_modifyRam, wp_bind, wp_modifyRam]
    apply wp_bind_of hrec
    rintro r t ⟨hs, _, _, _, ⟨rfl, hst⟩ | ⟨_, hfault, _⟩⟩
    · exact hQ t hs hst
    · exact absurd hfault not_readFault

theorem init_valid (h : Sees g never K L st s) (hA : A ≠ .factory)
    (hm : lastStatus (L A) = .valid) (hB : lastStatus (L A.other) ≠ .valid)
    (hspare : lastStatus (L A.other) = .formatted → L A.other = pad g [statusEntry .formatted])
    (hK : RepairSafe K g L A) :
    wp (init g) (fun r t => r = true ∧ ∃ A' L', Booted g K L L' A' t ∧
      Recovered g (L A) (L' A')) s :=
  init_recognized h fun _ hs hst => repair_valid hs hst hA hm hB hspare hK

theorem init_none (h : Sees g never K L st s) (h1 : lastStatus (L .page1) ≠ .valid)
    (h2 : lastStatus (L .page2) ≠ .valid) (hK : FormatSafe K g L false) :
    wp (init g) (fun r t => r = true ∧ Booted g K L (L.fresh g false) .page1 t) s :=
  init_recognized h fun _ hs hst => repair_none hs hst h1 h2 hK

end Zlibs.EmuEeprom
