import Zlibs.EmuEeprom.Internal

/-! The trace of a program: it is only added to, and each event goes on from the flash that the one
before it has left. -/
namespace Zlibs.EmuEeprom

variable {g : Geometry} {s t u : State} {α β : Type} {x : M α} {p : Page}

/-- Events, the newest first, that lead from one flash to another. -/
def Leads (flash : Flash) : List Event → Flash → Prop
  | [], last => last = flash
  | e :: trace, last => last = e.after ∧ Leads flash trace e.before

theorem Leads.append {flash middle last : Flash} {before after : List Event}
    (hb : Leads flash before middle) (ha : Leads middle after last) :
    Leads flash (after ++ before) last := by
  induction after generalizing last with
  | nil => exact (show last = middle from ha) ▸ hb
  | cons e after ih => exact ⟨ha.1, ih ha.2⟩

/-- The events of the second state that are not of the first one lead from its flash. -/
def Extends (s t : State) : Prop :=
  ∃ new, t.hwa.trace = new ++ s.hwa.trace ∧ Leads s.hwa.flash new t.hwa.flash

theorem Extends.trans (h : Extends s t) (h' : Extends t u) : Extends s u := by
  obtain ⟨new, ht, hl⟩ := h
  obtain ⟨new', hu, hl'⟩ := h'
  exact ⟨new' ++ new, by rw [hu, ht, List.append_assoc], hl.append hl'⟩

/-- A program that adds to the trace, and does nothing to it or the flash otherwise. -/
def Records (x : M α) : Prop := ∀ s, Extends s (x s).2

theorem records_pure (a : α) : Records (pure a : M α) := fun _ => ⟨[], rfl, rfl⟩

theorem records_bind {k : α → M β} (hx : Records x) (hk : ∀ a, Records (k a)) :
    Records (x >>= k) := fun s => (hx s).trans (hk _ _)

theorem records_ite {c : Prop} [Decidable c] {y : M α} (hx : Records x) (hy : Records y) :
    Records (if c then x else y) := by
  split
  · exact hx
  · exact hy

/-- An early return. -/
theorem records_exit {c : Prop} [Decidable c] {a : α} (hx : Records x) :
    Records (if c then pure a else x) :=
  records_ite (records_pure a) hx

theorem records_get : Records (get : M State) := fun _ => ⟨[], rfl, rfl⟩

theorem records_modifyRam (f : Ram → Ram) : Records (modifyRam f) := fun _ => ⟨[], rfl, rfl⟩

theorem records_modifyRam_pure (f : Ram → Ram) (a : α) :
    Records (do modifyRam f; return a) :=
  records_bind (records_modifyRam f) fun _ => records_pure a

theorem records_hwaInit : Records hwaInit := fun _ => ⟨[], rfl, rfl⟩

theorem records_hwaRead (offset size : Nat) : Records (hwaRead p offset size) :=
  fun _ => ⟨[], rfl, rfl⟩

theorem records_hwaErasePage : Records (hwaErasePage p) := fun _ => ⟨[_], rfl, rfl, rfl⟩

theorem records_hwaWrite (offset : Nat) (data : Span) : Records (hwaWrite p offset data) :=
  fun _ => ⟨[_], rfl, rfl, rfl⟩

theorem records_flushWriteBlock : Records (flushWriteBlock g) := by
  unfold flushWriteBlock
  refine records_bind records_get fun s => records_exit ?_
  refine records_bind (records_hwaWrite _ _) fun written => records_exit ?_
  have hend : Records (do modifyRam Ram.clearWriteBlock; return true) :=
    records_modifyRam_pure _ _
  exact records_ite (records_bind (records_modifyRam _) fun _ => hend) hend

theorem records_writeEntry (offset : Nat) (entry : Entry) :
    Records (writeEntry g p offset entry) := by
  unfold writeEntry
  have hfull : Records (do
      if (← get).ram.writeBlockEntries ≥ g.entriesPerBlock then
        if !(← flushWriteBlock g) then
          return WriteStatus.writeError
      return .ok) :=
    records_bind records_get fun s => records_ite
      (records_bind records_flushWriteBlock fun flushed => records_exit (records_pure _))
      (records_pure _)
  have hstage : Records (do
      modifyRam (·.stageEntry (offset - offset / g.writeBlockSize * g.writeBlockSize) entry)
      if (← get).ram.writeBlockEntries ≥ g.entriesPerBlock then
        if !(← flushWriteBlock g) then
          return WriteStatus.writeError
      return .ok) :=
    records_bind (records_modifyRam _) fun _ => hfull
  have hblock : Records (do
      if !(← get).ram.writeBlockDirty then
        modifyRam (·.stageBlock p (offset / g.writeBlockSize * g.writeBlockSize))
      modifyRam (·.stageEntry (offset - offset / g.writeBlockSize * g.writeBlockSize) entry)
      if (← get).ram.writeBlockEntries ≥ g.entriesPerBlock then
        if !(← flushWriteBlock g) then
          return WriteStatus.writeError
      return .ok) :=
    records_bind records_get fun s =>
      records_ite (records_bind (records_modifyRam _) fun _ => hstage) hstage
  refine records_exit (records_exit (records_bind records_get fun s => ?_))
  exact records_ite (records_bind records_flushWriteBlock fun flushed => records_exit hblock) hblock

theorem records_scanErasedBlock (offsets : List Nat) : Records (scanErasedBlock g p offsets) := by
  induction offsets with
  | nil => exact records_pure _
  | cons offset rest ih =>
    unfold scanErasedBlock
    refine records_bind (records_hwaRead _ _) fun buffer => ?_
    split
    · exact records_pure _
    split
    · exact records_pure _
    · exact ih

theorem records_findNextFreeOffset : Records (findNextFreeOffset g p) :=
  records_bind (records_scanErasedBlock _) fun _ => records_pure _

theorem records_refreshNextWriteOffset : Records (refreshNextWriteOffset g p) := by
  unfold refreshNextWriteOffset
  refine records_bind (records_scanErasedBlock _) fun found => ?_
  split
  · exact records_pure _
  · exact records_modifyRam_pure _ _
  · exact records_modifyRam_pure _ _

theorem records_scanPageStatus (blocks offset : Nat) :
    Records (scanPageStatus g p blocks offset) := by
  induction blocks generalizing offset with
  | zero =>
    unfold scanPageStatus
    refine records_bind (records_hwaRead _ _) fun buffer => ?_
    split
    · exact records_pure _
    split
    · exact records_pure _
    · exact records_pure _
  | succ blocks ih =>
    unfold scanPageStatus
    refine records_bind (records_hwaRead _ _) fun buffer => ?_
    split
    · exact records_pure _
    split
    · exact records_pure _
    · exact ih _

theorem records_refreshPageStatusFrom (offset : Nat) :
    Records (refreshPageStatusFrom g p offset) := by
  unfold refreshPageStatusFrom
  refine records_bind (records_scanPageStatus _ _) fun status => ?_
  split
  · exact records_pure _
  · exact records_modifyRam_pure _ _

theorem records_refreshPageStatus : Records (refreshPageStatus g p) := by
  unfold refreshPageStatus
  have hfrom : Records (do
      let cached := (← get).ram.nextWriteOffsetCache
      if cached.offset > 0 then
        refreshPageStatusFrom g p (min cached.offset g.pageSize - serializedEntrySize)
      else refreshPageStatusFrom g p (g.pageSize - serializedEntrySize)) :=
    records_bind records_get fun s =>
      records_ite (records_refreshPageStatusFrom _) (records_refreshPageStatusFrom _)
  refine records_bind records_get fun s => records_ite ?_ (records_refreshPageStatusFrom _)
  exact records_ite (records_bind records_refreshNextWriteOffset fun found => records_exit hfrom)
    hfrom

theorem records_writePageStatus (status : PageStatus) : Records (writePageStatus g p status) := by
  unfold writePageStatus
  refine records_bind records_flushWriteBlock fun flushed => records_exit ?_
  refine records_bind records_findNextFreeOffset fun found => ?_
  split
  · exact records_pure _
  refine records_bind (records_writeEntry _ _) fun written => records_exit ?_
  refine records_bind records_flushWriteBlock fun flushed => records_exit ?_
  refine records_bind records_get fun s => ?_
  have hend : Records (do modifyRam (·.setPageStatus p status); return true) :=
    records_modifyRam_pure _ _
  exact records_ite (records_bind (records_modifyRam _) fun _ => hend) hend

theorem records_appendEntry (offset : Nat) (entry : Entry) :
    Records (appendEntry g p offset entry) := by
  unfold appendEntry
  refine records_bind (records_writeEntry _ _) fun status => records_exit ?_
  exact records_bind (records_modifyRam _) fun _ => records_modifyRam_pure _ _

theorem records_writeInternal (entry : Entry) (cacheOnly : Bool) :
    Records (writeInternal g entry cacheOnly) := by
  unfold writeInternal
  refine records_exit (records_ite ?_ (records_bind records_get fun s => ?_))
  · exact records_bind (records_modifyRam _) fun _ => records_modifyRam_pure _ _
  split
  · exact records_pure _
  refine records_ite (records_exit (records_appendEntry _ _)) ?_
  refine records_bind records_refreshNextWriteOffset fun found => records_exit ?_
  exact records_bind records_get fun s => records_exit (records_appendEntry _ _)

theorem records_cacheEntries (buffer : Span) (base : Nat) (entries : List Nat) :
    Records (cacheEntries g buffer base entries) := by
  induction entries with
  | nil => exact records_pure _
  | cons entry rest ih =>
    unfold cacheEntries
    refine records_ite ih (records_ite ih (records_exit ?_))
    exact records_bind (records_modifyRam _) fun _ => ih

theorem records_cacheWriteBlocks (buffer : Span) (offset : Nat) (blocks : List Nat) :
    Records (cacheWriteBlocks g p buffer offset blocks) := by
  induction blocks with
  | nil => exact records_pure _
  | cons within rest ih =>
    unfold cacheWriteBlocks
    refine records_ite ?_ ?_
    · exact records_bind (records_modifyRam _) fun _ => records_modifyRam_pure _ _
    · refine records_bind (records_modifyRam _) fun _ => ?_
      exact records_bind (records_cacheEntries _ _ _) fun known => records_exit ih

theorem records_cacheReadBlocks (offsets : List Nat) : Records (cacheReadBlocks g p offsets) := by
  induction offsets with
  | nil => exact records_modifyRam_pure _ _
  | cons offset rest ih =>
    unfold cacheReadBlocks
    refine records_bind (records_hwaRead _ _) fun buffer => ?_
    split
    · exact records_pure _
    refine records_bind (records_cacheWriteBlocks _ _ _) fun result => ?_
    split
    · exact records_pure _
    · exact ih

theorem records_cache : Records (cache g) := by
  unfold cache
  refine records_bind (records_modifyRam _) fun _ => records_bind (records_modifyRam _) fun _ => ?_
  refine records_bind (records_modifyRam _) fun _ => records_bind records_get fun s => ?_
  split
  · exact records_pure _
  · exact records_cacheReadBlocks _

theorem records_transferEntries (addresses : List Nat) : Records (transferEntries g addresses) := by
  induction addresses with
  | nil => exact records_pure _
  | cons address rest ih =>
    unfold transferEntries
    refine records_bind records_get fun s => records_ite ih ?_
    exact records_bind (records_writeInternal _ _) fun status => records_exit ih

theorem records_pageTransfer : Records (pageTransfer g) := by
  unfold pageTransfer
  refine records_bind records_flushWriteBlock fun flushed => records_exit ?_
  refine records_bind records_get fun s => ?_
  split
  · exact records_pure _
  refine records_exit (records_bind (records_writePageStatus _) fun marked => records_exit ?_)
  refine records_bind (records_modifyRam _) fun _ => ?_
  refine records_bind (records_transferEntries _) fun status => records_exit ?_
  refine records_bind records_flushWriteBlock fun flushed => records_exit ?_
  refine records_bind records_hwaErasePage fun erased => records_exit ?_
  refine records_bind (records_writePageStatus _) fun formatted => records_exit ?_
  refine records_bind (records_writePageStatus _) fun marked => records_exit ?_
  exact records_bind records_cache fun cached => records_exit (records_modifyRam_pure _ _)

theorem records_write (entry : Entry) (cacheOnly : Bool) : Records (write g entry cacheOnly) := by
  unfold write
  refine records_exit (records_bind (records_writeInternal _ _) fun status => ?_)
  refine records_ite (records_bind records_pageTransfer fun status => ?_) (records_pure _)
  exact records_ite (records_writeInternal _ _) (records_pure _)

theorem records_flush : Records (flush g) := by
  unfold flush
  refine records_bind records_get fun s => records_ite ?_ records_flushWriteBlock
  exact records_bind records_pageTransfer fun status => records_exit records_flushWriteBlock

theorem records_format (formatFactoryPage : Bool) : Records (format g formatFactoryPage) := by
  unfold format
  have hmark : Records (do
      modifyRam Ram.clearCache
      if !(← writePageStatus g .page1 .valid) then
        return false
      if !(← writePageStatus g .page2 .formatted) then
        return false
      modifyRam (·.setNextWriteOffset .page1 0)
      return true) := by
    refine records_bind (records_modifyRam _) fun _ => ?_
    refine records_bind (records_writePageStatus _) fun marked => records_exit ?_
    exact records_bind (records_writePageStatus _) fun marked =>
      records_exit (records_modifyRam_pure _ _)
  refine records_bind (records_modifyRam _) fun _ => ?_
  refine records_bind records_hwaErasePage fun erased => records_exit ?_
  refine records_bind (records_modifyRam _) fun _ => ?_
  refine records_bind records_hwaErasePage fun erased => records_exit ?_
  refine records_bind (records_modifyRam _) fun _ => records_ite ?_ hmark
  refine records_bind records_hwaErasePage fun erased => records_exit ?_
  exact records_bind (records_modifyRam _) fun _ => hmark

theorem records_reformat (doCache : Bool) : Records (reformat g doCache) :=
  records_bind (records_format _) fun _ => records_exit (records_pure _)

theorem records_formatErasedPage : Records (formatErasedPage g p) := by
  unfold formatErasedPage
  refine records_bind records_hwaErasePage fun erased => records_exit ?_
  exact records_bind (records_writePageStatus _) fun formatted => records_exit (records_pure _)

theorem records_repeatTransfer : Records (repeatTransfer g p) := by
  unfold repeatTransfer
  refine records_bind records_hwaErasePage fun erased => records_exit ?_
  refine records_bind records_cache fun cached => records_ite (records_reformat _) ?_
  refine records_bind records_pageTransfer fun status => ?_
  exact records_ite (records_reformat _) (records_pure _)

theorem records_repairPages (x y : PageStatus) : Records (repairPages g x y) := by
  unfold repairPages
  split
  · exact records_formatErasedPage
  · exact records_reformat _
  · exact records_repeatTransfer
  · exact records_reformat _
  · exact records_reformat _
  · exact records_formatErasedPage
  · exact records_pure _
  · exact records_repeatTransfer
  · exact records_pure _
  · exact records_reformat _

theorem records_init : Records (init g) := by
  unfold init
  refine records_bind records_hwaInit fun ready => records_exit ?_
  refine records_bind (records_modifyRam _) fun _ => records_bind (records_modifyRam _) fun _ => ?_
  refine records_bind (records_modifyRam _) fun _ => ?_
  refine records_bind records_refreshPageStatus fun read => records_exit ?_
  refine records_bind records_refreshPageStatus fun read => records_exit ?_
  refine records_bind records_refreshPageStatus fun read => records_exit ?_
  refine records_bind records_get fun s => records_bind (records_repairPages _ _) fun repair => ?_
  split
  · exact records_pure _
  refine records_ite ?_ (records_pure _)
  exact records_bind records_cache fun cached =>
    records_ite (records_format _) (records_pure _)

end Zlibs.EmuEeprom
