import Zlibs.EmuEeprom.Steps

/-! The factory page: storing a snapshot of the active page and copying it back. -/
namespace Zlibs.EmuEeprom

open Zlibs.Lib

variable {g : Geometry} {f : Faults} {K : Logs → Prop} {L : Logs}
  {st : Option (Page × List Entry)} {s t : State} {S T b c : List Entry} {A p q : Page}
  {e : Entry} {a : Nat}

/-- What the factory page may hold while a snapshot of page `A` is stored. -/
structure StoreSafe (K : Logs → Prop) (g : Geometry) (L : Logs) (A : Page) : Prop where
  erased : K (L.set .factory [])
  copying : ∀ k, k * g.entriesPerBlock ≤ (L A).length →
    K (L.set .factory ((L A).take (k * g.entriesPerBlock)))

/-- `store_to_factory` once it has flushed. -/
def storeActive (g : Geometry) : M Bool := do
  match findValidPage (← get).ram.pageStatusCache .read with
  | none => return false
  | some activePage =>
    if !(← hwaErasePage .factory) then
      return false
    modifyRam (·.setPageStatus .factory .erased)
    if !(← copyBlocks g activePage .factory g.writeOffsets) then
      return false
    modifyRam fun ram => ram.setPageStatus .factory (ram.pageStatusCache activePage)
    return true

theorem storeToFactory_eq : storeToFactory g = (do
    if !(← flush g) then
      return false
    storeActive g) := rfl

/-- The members that the factory page does not touch. -/
structure RuntimeKept (r t : Ram) : Prop where
  cache : t.cache = r.cache
  dirty : t.cacheDirty = r.cacheDirty
  next : t.nextWriteOffsetCache = r.nextWriteOffsetCache
  statuses : ∀ p, p ≠ .factory → t.pageStatusCache p = r.pageStatusCache p

theorem RuntimeKept.refl (r : Ram) : RuntimeKept r r := ⟨rfl, rfl, rfl, fun _ _ => rfl⟩

theorem RuntimeKept.setFactory {r u : Ram} (h : RuntimeKept r u) (x : PageStatus) :
    RuntimeKept r (u.setPageStatus .factory x) where
  cache := h.cache
  dirty := h.dirty
  next := h.next
  statuses := fun p hp => (if_neg hp).trans (h.statuses p hp)

/-- The factory page gets the log of the active page, or a prefix of it. -/
theorem storeActive_spec (h : Sees g f K L none s)
    (hp : findValidPage s.ram.pageStatusCache .read = some A) (hK : StoreSafe K g L A) :
    wp (storeActive g) (fun r t => RuntimeKept s.ram t.ram ∧
      ((r = true ∧ Sees g f K (L.set .factory (L A)) none t) ∨
        (r = false ∧ (EraseFault f ∨ CopyFault g f) ∧ ∃ T,
          Sees g f K (L.set .factory T) none t))) s := by
  have hA := (findValidPage_read hp).1
  have hlog : ∀ T, L.set .factory T A = L A := fun _ => Logs.set_ne hA
  rw [EmuEeprom.storeActive, wp_bind, wp_get]
  simp only [hp]
  apply wp_bind_of (hwaErasePage_spec h h.staged hK.erased)
  rintro r t ⟨hram, ⟨rfl, hsees⟩ | ⟨rfl, hfault, hsees⟩⟩
  · simp only [Bool.not_true, Bool.false_eq_true, if_false]
    rw [wp_bind, wp_modifyRam]
    have hsees' : Sees g f K (L.set .factory []) none
        { t with ram := t.ram.setPageStatus .factory .erased } := hsees.clear hsees.staged
    have hkept' : RuntimeKept s.ram (t.ram.setPageStatus .factory .erased) :=
      RuntimeKept.setFactory (by rw [hram]; exact .refl _) .erased
    have hcopy := copyBlocks_spec hA hsees' Logs.set_self (by
      intro k hk
      rw [hlog] at hk ⊢
      rw [Logs.set_set]
      exact hK.copying k hk)
    rw [hlog] at hcopy
    simp only [Logs.set_set] at hcopy
    apply wp_bind_of hcopy
    rintro r u ⟨hram', ⟨rfl, hsees''⟩ | ⟨rfl, hfault, k, _, hsees''⟩⟩
    · simp only [Bool.not_true, Bool.false_eq_true, if_false]
      rw [wp_bind, wp_modifyRam]
      have hkept'' : RuntimeKept s.ram u.ram := by rw [hram']; exact hkept'
      exact ⟨hkept''.setFactory _, Or.inl ⟨rfl, hsees''.clear hsees''.staged⟩⟩
    · have hkept'' : RuntimeKept s.ram u.ram := by rw [hram']; exact hkept'
      exact ⟨hkept'', Or.inr ⟨rfl, Or.inr hfault, _, hsees''⟩⟩
  · have hkept : RuntimeKept s.ram t.ram := by rw [hram]; exact .refl _
    rw [← Logs.set_eq_self (L := L) (p := .factory) rfl] at hsees
    exact ⟨hkept, Or.inr ⟨rfl, Or.inl hfault, _, hsees⟩⟩

/-- A working store keeps working, and the factory page holds the log of its active page. -/
theorem Working.storeActive (h : Working g K L A [] s) (hK : StoreSafe K g L A) :
    wp (storeActive g) (fun r t => r = true ∧ Working g K (L.set .factory (L A)) A [] t ∧
      RuntimeKept s.ram t.ram) s := by
  have hA := h.runtime
  have hlog : L.set .factory (L A) A = L A := Logs.set_ne hA
  have hother : L.set .factory (L A) A.other = L A.other := Logs.set_ne Page.other_runtime
  apply wp_mono (storeActive_spec h.sees (h.page .read) hK)
  rintro r t ⟨hkept, ⟨rfl, hsees⟩ | ⟨rfl, hfault, _⟩⟩
  · exact ⟨rfl, ⟨hsees, h.tail.move hkept.next hlog (fun c hc => by cases hc), hA,
      (hkept.statuses A hA).trans h.valid, (hkept.statuses _ Page.other_runtime).trans h.other,
      by rw [hlog, h.marked], by rw [hother, h.spare]⟩, hkept⟩
  · rcases hfault with hfault | hfault | ⟨c, hfault⟩
    · exact absurd hfault not_eraseFault
    · exact absurd hfault not_readFault
    · exact absurd hfault not_blockFault

/-- The logs while the part `T` of a snapshot is on page 1. -/
def Logs.restoring (L : Logs) (T : List Entry) : Logs := (L.cleared false).set .page1 T

/-- The logs once the snapshot is restored. -/
def Logs.restored (g : Geometry) (L : Logs) : Logs :=
  ((L.restoring (L .factory)).marked g .page1 .valid).set .page2 (pad g [statusEntry .formatted])

theorem Logs.cleared_factory : L.cleared false .factory = L .factory := by
  rw [Logs.cleared, if_neg (by simp), Logs.set_ne (q := .factory) (p := .page2) (by decide),
    Logs.set_ne (q := .factory) (p := .page1) (by decide)]

theorem Logs.restored_page1 : L.restored g .page1 = L .factory ++ pad g [statusEntry .valid] := by
  rw [Logs.restored, Logs.set_ne (q := .page1) (p := .page2) nofun, Logs.marked, Logs.set_self,
    Logs.restoring, Logs.set_self]

theorem Logs.restored_factory : L.restored g .factory = L .factory := by
  rw [Logs.restored, Logs.set_ne (q := .factory) (p := .page2) (by decide), Logs.marked,
    Logs.set_ne (q := .factory) (p := .page1) (by decide), Logs.restoring,
    Logs.set_ne (q := .factory) (p := .page1) (by decide), Logs.cleared_factory]

/-- What the flash may hold while the snapshot is copied back. -/
structure RestoreSafe (K : Logs → Prop) (g : Geometry) (L : Logs) : Prop where
  erased1 : K (L.set .page1 [])
  erased2 : K ((L.set .page1 []).set .page2 [])
  copying : ∀ k, k * g.entriesPerBlock ≤ (L .factory).length →
    K (L.restoring ((L .factory).take (k * g.entriesPerBlock)))
  valid : K ((L.restoring (L .factory)).marked g .page1 .valid)
  formatted : K (L.restored g)

/-- `restore_from_factory` once the factory page is known to be valid. -/
def copyBack (g : Geometry) : M Bool := do
  modifyRam Ram.clearWriteBlock
  if !(← hwaErasePage .page1) then
    return false
  modifyRam (·.setPageStatus .page1 .erased)
  if !(← hwaErasePage .page2) then
    return false
  modifyRam (·.setPageStatus .page2 .erased)
  modifyRam Ram.clearCache
  if !(← copyBlocks g .factory .page1 g.writeOffsets) then
    return false
  if !(← activate g) then
    return false
  cache g

/-- The ways copying a snapshot back ends. -/
inductive CopyBackEnd (g : Geometry) (f : Faults) (K : Logs → Prop) (L : Logs) (r : Ram) :
    Bool → State → Prop
  | stopped {t : State} {L' : Logs} {st : Option (Page × List Entry)} (hsees : Sees g f K L' st t)
      (hcause : EraseFault f ∨ ReadFault f ∨ (∃ c, BlockFault g f c) ∨
        (L .factory).length = g.pageEntries) :
      CopyBackEnd g f K L r false t
  | done {t : State} (hsees : Sees g f K (L.restored g) none t)
      (h1 : t.ram.pageStatusCache .page1 = .valid)
      (h2 : t.ram.pageStatusCache .page2 = .formatted)
      (hf : t.ram.pageStatusCache .factory = r.pageStatusCache .factory)
      (hc : t.ram.cache = mirror (L .factory ++ pad g [statusEntry .valid]))
      (hd : t.ram.cacheDirty = false)
      (hn : t.ram.nextWriteOffsetCache =
        ⟨.page1, 4 * (L .factory ++ pad g [statusEntry .valid]).length⟩)
      (hroom : (L .factory).length < g.pageEntries) :
      CopyBackEnd g f K L r true t

theorem copyBack_spec (h : Sees g f K L st s) (hK : RestoreSafe K g L) :
    wp (copyBack g) (CopyBackEnd g f K L s.ram) s := by
  have hclear : Sees g f K L none { s with ram := s.ram.clearWriteBlock } := h.clear rfl
  rw [copyBack, wp_bind, wp_modifyRam]
  apply wp_bind_of (hwaErasePage_spec hclear rfl hK.erased1)
  rintro r t ⟨hram, ⟨rfl, hsees⟩ | ⟨rfl, hfault, hsees⟩⟩
  · simp only [Bool.not_true, Bool.false_eq_true, if_false]
    rw [wp_bind, wp_modifyRam, hram]
    have hsees1 : Sees g f K (L.set .page1 []) none
        { t with ram := s.ram.clearWriteBlock.setPageStatus .page1 .erased } := hsees.clear rfl
    apply wp_bind_of (hwaErasePage_spec hsees1 rfl hK.erased2)
    rintro r u ⟨hram', ⟨rfl, hsees'⟩ | ⟨rfl, hfault, hsees'⟩⟩
    · simp only [Bool.not_true, Bool.false_eq_true, if_false]
      rw [wp_bind, wp_modifyRam, wp_bind, wp_modifyRam]
      have hram2 : (u.ram.setPageStatus .page2 .erased).clearCache =
          ((s.ram.clearWriteBlock.setPageStatus .page1 .erased).setPageStatus .page2
            .erased).clearCache := by rw [hram']
      generalize (u.ram.setPageStatus .page2 .erased).clearCache = v at hram2
      have hsees2 : Sees g f K (L.cleared false) none { u with ram := v } :=
        hsees'.clear (by rw [hram2]; rfl)
      have hsource := L.cleared_factory
      have hcopy := copyBlocks_spec (p := .factory) (q := .page1) nofun hsees2 (L.cleared_page1 _) (by
        rw [hsource]
        exact hK.copying)
      rw [hsource] at hcopy
      apply wp_bind_of hcopy
      rintro r w ⟨hram'', ⟨rfl, hsees''⟩ | ⟨rfl, hfault, k, _, hsees''⟩⟩
      · have h2 : L.restoring (L .factory) .page2 = [] := by
          rw [Logs.restoring, Logs.set_ne (q := .page2) (p := .page1) nofun, L.cleared_page2]
        have hpage1 : L.restoring (L .factory) .page1 = L .factory := Logs.set_self
        apply wp_bind_of (activate_spec hsees'' h2 hK.valid hK.formatted)
        intro r x hend
        cases hend with
        | validRefused _ hs hst =>
          refine .stopped hs ?_
          rcases hst with ⟨_, hfull | hfault⟩ | ⟨_, hfault⟩
          · exact Or.inr (Or.inr (Or.inr (hpage1 ▸ hfull)))
          · exact Or.inr (Or.inl hfault)
          · exact Or.inr (Or.inr (Or.inl ⟨_, hfault⟩))
        | formattedRefused _ hs hst _ =>
          refine .stopped hs ?_
          rcases hst with ⟨_, hfault⟩ | ⟨_, hfault⟩
          · exact Or.inr (Or.inl hfault)
          · exact Or.inr (Or.inr (Or.inl ⟨_, hfault⟩))
        | done hkept hnext hs =>
          replace hs : Sees g f K (L.restored g) none x := hs
          have hx1 : x.ram.pageStatusCache .page1 = .valid := by
            rw [hkept.statuses]
            rfl
          have hx2 : x.ram.pageStatusCache .page2 = .formatted := by
            rw [hkept.statuses]
            rfl
          have hxf : x.ram.pageStatusCache .factory = s.ram.pageStatusCache .factory := by
            rw [hkept.statuses, hram'', hram2]
            rfl
          have hlog : L.restored g .page1 = L .factory ++ pad g [statusEntry .valid] :=
            L.restored_page1
          have hroom : (L .factory).length < g.pageEntries := by
            have hfits := (hs.wf .page1).fits
            rw [hlog, List.length_append, length_pad_status] at hfits
            have := g.entriesPerBlock_pos
            omega
          apply wp_mono (cache_spec hs (by rw [findValidPage, if_pos hx1]))
          rw [hlog]
          rintro r y ⟨c, ⟨rfl, rfl⟩ | ⟨rfl, hfault, k, _, rfl⟩⟩
          · refine .done ((hs.clear rfl).atCalls c) hx1 hx2 hxf ?_ rfl rfl hroom
            show mirror (List.take _ _) = _
            rw [List.take_length]
          · have hto := cachedTo_cached x.ram .page1 (L .factory ++ pad g [statusEntry .valid]) k
            exact .stopped ((hs.clear hto.idle).atCalls c) (Or.inr (Or.inl hfault))
      · refine .stopped hsees'' ?_
        rcases hfault with hfault | hfault
        · exact Or.inr (Or.inl hfault)
        · exact Or.inr (Or.inr (Or.inl hfault))
    · exact .stopped hsees' (Or.inl hfault)
  · exact .stopped hsees (Or.inl hfault)

theorem restoreFromFactory_eq : restoreFromFactory g = (do
    if !(← refreshPageStatus g .factory) then
      return false
    if (← get).ram.pageStatusCache .factory ≠ .valid then
      return false
    copyBack g) := by
  have hlast := guard_bind (x := writePageStatus g .page2 .formatted)
    (y := do modifyRam (·.setNextWriteOffset .page1 0)
             return true) (k := fun r => if !r then pure false else cache g) rfl
  have hall := guard_bind (x := writePageStatus g .page1 .valid) (y := do
    if !(← writePageStatus g .page2 .formatted) then return false
    modifyRam (·.setNextWriteOffset .page1 0)
    return true) (k := fun r => if !r then pure false else cache g) rfl
  rw [hlast] at hall
  have hactivate : (activate g >>= fun r => if !r then pure false else cache g) = (do
      if !(← writePageStatus g .page1 .valid) then
        return false
      if !(← writePageStatus g .page2 .formatted) then
        return false
      modifyRam (·.setNextWriteOffset .page1 0)
      cache g) := hall
  rw [show copyBack g = (do
    modifyRam Ram.clearWriteBlock
    if !(← hwaErasePage .page1) then
      return false
    modifyRam (·.setPageStatus .page1 .erased)
    if !(← hwaErasePage .page2) then
      return false
    modifyRam (·.setPageStatus .page2 .erased)
    modifyRam Ram.clearCache
    if !(← copyBlocks g .factory .page1 g.writeOffsets) then
      return false
    activate g >>= fun r => if !r then pure false else cache g) from rfl, hactivate]
  rfl

theorem findValidPage_runtime {statuses : Page → PageStatus} {op : PageOperation} :
    findValidPage statuses op ≠ some .factory := by
  cases op <;> rw [findValidPage] <;> split_ifs <;> decide

/-- A status query of the factory page reads the whole page. -/
theorem refreshFactory_spec (h : Sees g f K L st s) :
    wp (refreshPageStatus g .factory) (fun r t => ∃ n,
      (r = true ∧ t = { s with
        ram := s.ram.setPageStatus .factory (lastStatus (L .factory)) }.atCalls n) ∨
      (r = false ∧ ReadFault f ∧ t = s.atCalls n)) s := by
  apply wp_mono (refreshPageStatus_spec h .factory)
  rintro r t ⟨n, ram, rfl | ⟨hw, _⟩, ⟨status, rfl, rfl, hstatus⟩ | ⟨rfl, hfault, rfl⟩⟩
  · rw [hstatus fun hw => absurd hw findValidPage_runtime]
    exact ⟨n, Or.inl ⟨rfl, rfl⟩⟩
  · exact ⟨n, Or.inr ⟨rfl, hfault, rfl⟩⟩
  · exact absurd hw findValidPage_runtime
  · exact absurd hw findValidPage_runtime

inductive RestoreEnd (g : Geometry) (f : Faults) (K : Logs → Prop) (L : Logs) (s : State) :
    Bool → State → Prop
  | unread {n : Nat} (hfault : ReadFault f) : RestoreEnd g f K L s false (s.atCalls n)
  | invalid {n : Nat} (hstatus : lastStatus (L .factory) ≠ .valid) :
      RestoreEnd g f K L s false ({ s with
        ram := s.ram.setPageStatus .factory (lastStatus (L .factory)) }.atCalls n)
  | copied {r : Ram} {done : Bool} {t : State} (hstatus : lastStatus (L .factory) = .valid)
      (hr : r.pageStatusCache .factory = .valid) (hend : CopyBackEnd g f K L r done t) :
      RestoreEnd g f K L s done t

theorem restoreFromFactory_spec (h : Sees g f K L st s)
    (hK : lastStatus (L .factory) = .valid → RestoreSafe K g L) :
    wp (restoreFromFactory g) (RestoreEnd g f K L s) s := by
  rw [restoreFromFactory_eq]
  apply wp_bind_of (refreshFactory_spec h)
  rintro r t ⟨n, ⟨rfl, rfl⟩ | ⟨rfl, hfault, rfl⟩⟩
  · have hself : (s.ram.setPageStatus .factory (lastStatus (L .factory))).pageStatusCache
        .factory = lastStatus (L .factory) := by simp [Ram.setPageStatus]
    simp only [Bool.not_true, Bool.false_eq_true, if_false]
    rw [wp_bind, wp_get]
    apply wp_ite
    · intro hne
      exact .invalid (hself ▸ hne)
    · intro heq
      have hstatus : lastStatus (L .factory) = .valid := by
        by_contra hne
        exact heq (hself ▸ hne)
      have hsees : Sees g f K L st
          { s with ram := s.ram.setPageStatus .factory (lastStatus (L .factory)) } :=
        h.withRam (by cases st <;> exact h.staged)
      apply wp_mono (copyBack_spec (hsees.atCalls n) (hK hstatus))
      intro r t hend
      exact .copied hstatus (hself.trans hstatus) hend
  · exact .unread hfault

/-- What `restore_from_factory` does to a working store: it leaves it alone, goes back to the
snapshot, or loses it when the snapshot leaves no free block. -/
inductive Restored (g : Geometry) (K : Logs → Prop) (L : Logs) (A : Page) (b : List Entry)
    (s : State) : Bool → State → Prop
  | unchanged {t : State} (hstatus : lastStatus (L .factory) ≠ .valid) (hw : Working g K L A b t)
      (hkept : RuntimeKept s.ram t.ram) : Restored g K L A b s false t
  | lost {t : State} {L' : Logs} {st : Option (Page × List Entry)}
      (hstatus : lastStatus (L .factory) = .valid) (hfull : (L .factory).length = g.pageEntries)
      (hsees : Sees g never K L' st t) : Restored g K L A b s false t
  | done {t : State} (hstatus : lastStatus (L .factory) = .valid)
      (hroom : (L .factory).length < g.pageEntries)
      (hw : Working g K (L.restored g) .page1 [] t)
      (hc : t.ram.cache = mirror (L .factory ++ pad g [statusEntry .valid]))
      (hd : t.ram.cacheDirty = false) : Restored g K L A b s true t

theorem Working.restoreFromFactory (h : Working g K L A b s)
    (hK : lastStatus (L .factory) = .valid → RestoreSafe K g L) :
    wp (restoreFromFactory g) (Restored g K L A b s) s := by
  apply wp_mono (restoreFromFactory_spec h.sees hK)
  intro r t hend
  cases hend with
  | unread hfault => exact absurd hfault not_readFault
  | @invalid n hstatus =>
    exact .unchanged hstatus ((h.setStatus .factory).atCalls n) (.setFactory (.refl _) _)
  | copied hstatus _ hend =>
    cases hend with
    | stopped hsees hcause =>
      rcases hcause with hfault | hfault | ⟨c, hfault⟩ | hfull
      · exact absurd hfault not_eraseFault
      · exact absurd hfault not_readFault
      · exact absurd hfault not_blockFault
      · exact .lost hstatus hfull hsees
    | done hsees h1 h2 _ hc hd hn hroom =>
      have hspare : L.restored g .page2 = pad g [statusEntry .formatted] := Logs.set_self
      refine .done hstatus hroom ⟨hsees, ?_, nofun, h1, h2, ?_, hspare⟩ hc hd
      · exact .clean 0 (fun c hc => by cases hc) (by rw [hn, L.restored_page1]; rfl)
          g.entriesPerBlock_pos
      · rw [L.restored_page1]
        exact lastStatus_append_statusEntry nofun

end Zlibs.EmuEeprom
