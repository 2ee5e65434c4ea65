import Zlibs.EmuEeprom.Convergence

/-! Appending to pages with records of any kind, over a backend that never fails. -/
namespace Zlibs.EmuEeprom

open Zlibs.Lib

variable {g : Geometry} {N N' : Logs} {s t : State} {S T c d : List Entry} {p q : Page} {e : Entry}
  {x : PageStatus} {r : Ram}

/-- The flash holds a log on each page; its records need not be the store's. -/
structure Lays (g : Geometry) (N : Logs) (s : State) : Prop where
  faults : s.hwa.fails = never
  flash : ∀ p, s.hwa.flash p = image (N p)
  blocks : ∀ p, Blocks g (N p)

/-- The logs are on the flash, whatever the members are. -/
theorem Lays.withRam (h : Lays g N s) (r : Ram) : Lays g N ⟨r, s.hwa⟩ :=
  ⟨h.faults, h.flash, h.blocks⟩

theorem Lays.atCalls (h : Lays g N s) (n : Nat) : Lays g N (s.atCalls n) :=
  ⟨h.faults, h.flash, h.blocks⟩

theorem Lays.set (h : Lays g N s) (hS : Blocks g S) (hf : t.hwa.fails = never)
    (hflash : t.hwa.flash = s.hwa.flash.setPage p (image S)) : Lays g (N.set p S) t where
  faults := hf
  flash := by
    intro q
    rw [hflash]
    by_cases hq : q = p
    · rw [hq, Logs.set_self]
      exact if_pos rfl
    · rw [Logs.set_ne hq, ← h.flash q]
      exact if_neg hq
  blocks := by
    intro q
    by_cases hq : q = p
    · rw [hq, Logs.set_self]
      exact hS
    · rw [Logs.set_ne hq]
      exact h.blocks q

theorem Lays.erase (h : Lays g N s) (p : Page) :
    wp (hwaErasePage p) (fun r t => r = true ∧ t.ram = s.ram ∧ Lays g (N.set p []) t) s := by
  apply wp_mono (erase_never h.faults)
  rintro r t ⟨rfl, hram, hf, hflash⟩
  refine ⟨rfl, hram, h.set .nil hf ?_⟩
  rw [hflash, image_nil]
  rfl

/-- A block is programmed behind the log of its page. -/
theorem Lays.program (h : Lays g N s) (hroom : (N p).length < g.pageEntries)
    (hfits : c.length ≤ g.entriesPerBlock) (hused : ∃ e ∈ c, e ≠ erasedEntry)
    {data : Nat → UInt8} (hdata : ∀ i < g.writeBlockSize, data i = image c i) :
    wp (hwaWrite p (4 * (N p).length) ⟨g.writeBlockSize, data⟩) (fun r t => r = true ∧
      t.ram = s.ram ∧ Lays g (N.set p (N p ++ pad g c)) t) s := by
  have hok : s.hwa.fails s.hwa.calls (.write p (4 * (N p).length) ⟨g.writeBlockSize, data⟩) =
      false := by rw [h.faults]; rfl
  have hflash : s.hwa.flash.program p (4 * (N p).length) ⟨g.writeBlockSize, data⟩ =
      s.hwa.flash.setPage p (image (N p ++ pad g c)) := by
    rw [program_congr _ _ _ hdata, g.writeBlockSize_eq, program_image (h.flash p) hfits,
      image_append_pad]
  refine ⟨?_, rfl, h.set ((h.blocks p).append hfits hused hroom) h.faults ?_⟩
  · change (!s.hwa.fails s.hwa.calls _) = true
    rw [hok]
    rfl
  · rw [← hflash]
    change (if s.hwa.fails s.hwa.calls _ then s.hwa.flash else _) = _
    rw [hok]
    rfl

/-- The entries `c` wait to be programmed behind the log of page `p`. -/
structure Waits (g : Geometry) (N : Logs) (p : Page) (c : List Entry) (r : Ram) : Prop where
  dirty : r.writeBlockDirty = true
  page : r.writeBlockPage = p
  offset : r.writeBlockOffset = 4 * (N p).length
  buffer : r.writeBlockBuffer = image c
  entries : r.writeBlockEntries = c.length
  room : (N p).length < g.pageEntries
  fits : c.length ≤ g.entriesPerBlock
  used : ∃ e ∈ c, e ≠ erasedEntry

theorem Waits.ne_nil (h : Waits g N p c r) : c ≠ [] := by
  obtain ⟨e, he, _⟩ := h.used
  exact List.ne_nil_of_mem he

/-- Only the members of the write block and the log of its page matter. -/
theorem Waits.congr {u : Ram} (h : Waits g N p c r) (hM : N' p = N p)
    (hd : u.writeBlockDirty = r.writeBlockDirty) (hp : u.writeBlockPage = r.writeBlockPage)
    (ho : u.writeBlockOffset = r.writeBlockOffset) (hb : u.writeBlockBuffer = r.writeBlockBuffer)
    (he : u.writeBlockEntries = r.writeBlockEntries) : Waits g N' p c u :=
  ⟨hd.trans h.dirty, hp.trans h.page, by rw [ho, h.offset, hM], hb.trans h.buffer,
    he.trans h.entries, hM ▸ h.room, h.fits, h.used⟩

theorem flushed_idle (r : Ram) : (r.flushed g).writeBlockDirty = false := by
  rw [Ram.flushed]
  split
  · rfl
  · rename_i h
    simpa using h

theorem Lays.flushIdle (hd : s.ram.writeBlockDirty = false) :
    flushWriteBlock g s = (true, s) := by
  have hrun : flushWriteBlock g s = (if !s.ram.writeBlockDirty then pure true else do
      if !(← hwaWrite s.ram.writeBlockPage s.ram.writeBlockOffset
          ⟨g.writeBlockSize, s.ram.writeBlockBuffer⟩) then
        return false
      let cached := s.ram.nextWriteOffsetCache
      if cached.page = s.ram.writeBlockPage ∧ cached.offset > s.ram.writeBlockOffset ∧
          cached.offset < s.ram.writeBlockOffset + g.writeBlockSize then
        modifyRam (·.setNextWriteOffset s.ram.writeBlockPage
          (s.ram.writeBlockOffset + g.writeBlockSize))
      modifyRam Ram.clearWriteBlock
      return true : M Bool) s := rfl
  rw [hrun, if_pos (by simp [hd])]
  rfl

theorem Lays.flush (h : Lays g N s) (hw : Waits g N p c s.ram) :
    wp (flushWriteBlock g) (fun r t => r = true ∧ t.ram = s.ram.flushed g ∧
      Lays g (N.set p (N p ++ pad g c)) t) s := by
  rw [flushWriteBlock, wp_bind, wp_get]
  apply wp_ite
  · intro hn
    simp [hw.dirty] at hn
  · intro _
    rw [hw.page, hw.offset, hw.buffer]
    apply wp_bind_of (h.program hw.room hw.fits hw.used fun _ _ => rfl)
    rintro r t ⟨rfl, hram, ht⟩
    have hcond : s.ram.flushed g =
        (if s.ram.nextWriteOffsetCache.page = p ∧
          s.ram.nextWriteOffsetCache.offset > 4 * (N p).length ∧
          s.ram.nextWriteOffsetCache.offset < 4 * (N p).length + g.writeBlockSize then
        s.ram.setNextWriteOffset p (4 * (N p).length + g.writeBlockSize)
        else s.ram).clearWriteBlock := by
      rw [Ram.flushed, if_pos hw.dirty, hw.page, hw.offset]
    simp only [Bool.not_true, Bool.false_eq_true, if_false]
    apply wp_ite
    · intro hr
      rw [if_pos hr] at hcond
      rw [wp_bind, wp_modifyRam, wp_bind, wp_modifyRam]
      exact ⟨rfl, (congrArg (fun r : Ram => (r.setNextWriteOffset p
        (4 * (N p).length + g.writeBlockSize)).clearWriteBlock) hram).trans hcond.symm,
        ht.withRam _⟩
    · intro hr
      rw [if_neg hr] at hcond
      rw [wp_bind, wp_modifyRam]
      exact ⟨rfl, (congrArg Ram.clearWriteBlock hram).trans hcond.symm, ht.withRam _⟩

/-- An entry is staged behind those that wait, or starts a block. -/
theorem waits_staging (hst : r.writeBlockDirty = false ∧ c = [] ∨ Waits g N p c r)
    (hroom : (N p).length < g.pageEntries) (hc : c.length < g.entriesPerBlock)
    (he : e ≠ erasedEntry) :
    Waits g N p (c ++ [e]) (r.staging p (4 * (N p).length) (4 * c.length) e) := by
  have hfits : (c ++ [e]).length ≤ g.entriesPerBlock := by simpa using hc
  have hused : ∃ y ∈ c ++ [e], y ≠ erasedEntry := ⟨e, by simp, he⟩
  rcases hst with ⟨hd, rfl⟩ | hw
  · have hentries := staging_entries_idle (p := p) (e := e) hd (4 * (N p).length)
      (4 * ([] : List Entry).length)
    rw [Ram.staging, if_neg (by simp [hd])] at hentries ⊢
    refine ⟨rfl, rfl, rfl, ?_, hentries, hroom, hfits, hused⟩
    rw [← place_at_end, ← image_place (by simp), image_nil]
    rfl
  · have hentries := staging_entries_dirty (p := p) (e := e) hw.dirty (4 * (N p).length)
      (4 * c.length)
    rw [Ram.staging, if_pos hw.dirty] at hentries ⊢
    refine ⟨hw.dirty, hw.page, hw.offset, ?_, ?_, hroom, hfits, hused⟩
    · rw [← place_at_end, ← image_place (by omega), ← hw.buffer]
      rfl
    · rw [hentries, hw.entries, List.length_append, List.length_singleton]

/-- Where an entry behind `c` on page `p` ends up: in the staged block, or programmed with it. -/
def Added (g : Geometry) (N' : Logs) (p : Page) (c : List Entry) (e : Entry) (t : State) : Prop :=
  c.length + 1 < g.entriesPerBlock ∧ Lays g N' t ∧ Waits g N' p (c ++ [e]) t.ram ∨
  c.length + 1 = g.entriesPerBlock ∧ Lays g (N'.set p (N' p ++ pad g (c ++ [e]))) t ∧
    t.ram.writeBlockDirty = false

theorem Lays.stage (h : Lays g N s)
    (hst : s.ram.writeBlockDirty = false ∧ c = [] ∨ Waits g N p c s.ram)
    (hroom : (N p).length < g.pageEntries) (hc : c.length < g.entriesPerBlock)
    (he : e ≠ erasedEntry) :
    wp (stageAndFlush g p (4 * (N p).length) (4 * c.length) e) (fun r t => r = .ok ∧
      Kept s.ram t.ram ∧ (s.ram.nextWriteOffsetCache.page ≠ p →
        t.ram.nextWriteOffsetCache = s.ram.nextWriteOffsetCache) ∧
      t.ram.nextWriteOffsetCache.page = s.ram.nextWriteOffsetCache.page ∧
      Added g N p c e t) s := by
  have hw := waits_staging hst hroom hc he
  generalize hu : s.ram.staging p (4 * (N p).length) (4 * c.length) e = u at hw
  have hkept : Kept s.ram u := hu ▸ kept_staging ..
  have hnext : u.nextWriteOffsetCache = s.ram.nextWriteOffsetCache := by rw [← hu, staging_next]
  have hlen : (c ++ [e]).length = c.length + 1 := by simp
  apply wp_of_eq (stageAndFlush_run hu)
  apply wp_ite
  · intro hfull
    rw [hw.entries, hlen] at hfull
    apply wp_bind_of ((h.withRam u).flush hw)
    rintro r t ⟨rfl, hram, ht⟩
    change t.ram = u.flushed g at hram
    have hsame : s.ram.nextWriteOffsetCache.page ≠ p →
        t.ram.nextWriteOffsetCache = s.ram.nextWriteOffsetCache := by
      intro hne
      rw [hram, flushed_next (.inl (by rwa [hnext, hw.page])), hnext]
    have hpage : t.ram.nextWriteOffsetCache.page = s.ram.nextWriteOffsetCache.page := by
      rw [hram, flushed_next_page, hnext]
    have hidle : t.ram.writeBlockDirty = false := by
      rw [hram]
      exact flushed_idle u
    exact ⟨rfl, hram ▸ hkept.trans (kept_flushed u), hsame, hpage, .inr ⟨by omega, ht, hidle⟩⟩
  · intro hpart
    rw [hw.entries, hlen] at hpart
    exact ⟨rfl, hkept, fun _ => hnext, congrArg _ hnext, .inl ⟨by omega, h.withRam u, hw⟩⟩

/-- What the next entry for page `p` finds staged: entries it goes behind, or a block of another
page, which is programmed first. -/
inductive Target (g : Geometry) (N : Logs) (p : Page) (r : Ram) : List Entry → Logs → Prop
  | idle (hd : r.writeBlockDirty = false) : Target g N p r [] N
  | own {c : List Entry} (hw : Waits g N p c r) (hc : c.length < g.entriesPerBlock) :
      Target g N p r c N
  | other {q : Page} {d : List Entry} (hw : Waits g N q d r) (hne : q ≠ p) :
      Target g N p r [] (N.set q (N q ++ pad g d))

theorem Target.log (h : Target g N p r c N') : N' p = N p := by
  cases h with
  | idle => rfl
  | own => rfl
  | other _ hne => exact Logs.set_ne hne.symm

theorem Target.part (h : Target g N p r c N') : c.length < g.entriesPerBlock := by
  cases h with
  | idle => exact g.entriesPerBlock_pos
  | own _ hc => exact hc
  | other => exact g.entriesPerBlock_pos

theorem Target.setNext (h : Target g N p r c N') (q : Page) (o : Nat) :
    Target g N p (r.setNextWriteOffset q o) c N' := by
  cases h with
  | idle hd => exact .idle hd
  | own hw hc => exact .own (hw.congr rfl rfl rfl rfl rfl rfl) hc
  | other hw hne => exact .other (hw.congr rfl rfl rfl rfl rfl rfl) hne

theorem Lays.writeEntry (h : Lays g N s) (ht : Target g N p s.ram c N')
    (hroom : (N p).length + c.length < g.pageEntries) (he : e ≠ erasedEntry) :
    wp (writeEntry g p (4 * ((N p).length + c.length)) e) (fun r t => r = .ok ∧
      Kept s.ram t.ram ∧ (s.ram.writeBlockDirty = false →
        (s.ram.nextWriteOffsetCache.page ≠ p →
          t.ram.nextWriteOffsetCache = s.ram.nextWriteOffsetCache) ∧
        t.ram.nextWriteOffsetCache.page = s.ram.nextWriteOffsetCache.page) ∧
      Added g N' p c e t) s := by
  rw [writeEntry_at (h.blocks p).aligned ht.part hroom, wp_bind, wp_get]
  cases ht with
  | idle hd =>
    apply wp_ite
    · rintro ⟨hdirty, _⟩
      rw [hd] at hdirty
      cases hdirty
    · intro _
      apply wp_mono (h.stage (.inl ⟨hd, rfl⟩) (by omega) g.entriesPerBlock_pos he)
      rintro r t ⟨rfl, hk, hn, hp, hadd⟩
      exact ⟨rfl, hk, fun _ => ⟨hn, hp⟩, hadd⟩
  | own hw hc =>
    apply wp_ite
    · rintro ⟨_, hne | hne⟩
      · exact absurd hw.page hne
      · exact absurd hw.offset hne
    · intro _
      apply wp_mono (h.stage (.inr hw) hw.room hc he)
      rintro r t ⟨rfl, hk, hn, hp, hadd⟩
      exact ⟨rfl, hk, fun _ => ⟨hn, hp⟩, hadd⟩
  | @other q d hw hne =>
    have hlog : N.set q (N q ++ pad g d) p = N p := Logs.set_ne hne.symm
    apply wp_ite
    · intro _
      apply wp_bind_of (h.flush hw)
      rintro r t ⟨rfl, hram, ht⟩
      have hidle : t.ram.writeBlockDirty = false := by rw [hram]; exact flushed_idle _
      have hstage := ht.stage (p := p) (c := []) (e := e) (.inl ⟨hidle, rfl⟩) (by rw [hlog]; omega)
        g.entriesPerBlock_pos he
      rw [hlog] at hstage
      apply wp_mono hstage
      rintro r u ⟨rfl, hk, _, _, hadd⟩
      refine ⟨rfl, (hram ▸ kept_flushed s.ram : Kept s.ram t.ram).trans hk, fun hd => ?_, hadd⟩
      rw [hw.dirty] at hd
      cases hd
    · intro hn
      exact absurd ⟨hw.dirty, .inl (by rw [hw.page]; exact hne)⟩ hn

theorem findNextFreeOffset_blocks (h : Lays g N s) (p : Page) :
    wp (findNextFreeOffset g p) (fun r t => r = freeOffset g (N p) ∧ ∃ n, t = s.atCalls n) s := by
  have hscan := scanErasedBlock_from (h.blocks p) g.pageReads 0 (by omega) (by simp [entriesBefore])
    (h.flash p) h.faults
  rw [← List.range_eq_range'] at hscan
  apply wp_bind_of hscan
  rintro r t ⟨ht, rfl | ⟨rfl, hfault⟩⟩
  · exact ⟨rfl, ht⟩
  · exact absurd hfault not_readFault

theorem Lays.refreshNext (h : Lays g N s) (p : Page) :
    wp (refreshNextWriteOffset g p) (fun r t => r = true ∧ ∃ n,
      t = { s with ram := s.ram.setNextWriteOffset p (4 * (N p).length) }.atCalls n) s :=
  refreshNextWriteOffset_blocks (h.blocks p) (h.flash p) h.faults

/-- `write_page_status` once the free block is found. -/
theorem Lays.record (h : Lays g N s) (hd : s.ram.writeBlockDirty = false) (hx : x ≠ .erased)
    (hroom : (N p).length < g.pageEntries) :
    wp (do
      if (← EmuEeprom.writeEntry g p (4 * (N p).length)
          (makeEntry reservedStatusAddress (serializePageStatus x))) ≠ .ok then
        return false
      if !(← flushWriteBlock g) then
        return false
      if (← get).ram.nextWriteOffsetCache.page = p then
        modifyRam (·.setNextWriteOffset p
          (min (4 * (N p).length / g.writeBlockSize * g.writeBlockSize + g.writeBlockSize)
            g.pageSize))
      modifyRam (·.setPageStatus p x)
      return true : M Bool) (fun r t => r = true ∧ Lays g (N.marked g p x) t ∧
        t.ram.writeBlockDirty = false ∧ Kept (s.ram.setPageStatus p x) t.ram ∧
        t.ram.nextWriteOffsetCache = nextAfterStatus g s.ram.nextWriteOffsetCache N p) s := by
  have hwrite := h.writeEntry (p := p) (e := statusEntry x) (.idle hd) (by simpa using hroom)
    (statusEntry_ne_erasedEntry hx)
  rw [List.length_nil, Nat.add_zero] at hwrite
  apply wp_bind_of hwrite
  rintro r t ⟨rfl, hk, hn, hadd⟩
  obtain ⟨hnext, hpage⟩ := hn hd
  simp only [ne_eq, not_true_eq_false, if_false]
  have hend : wp (flushWriteBlock g) (fun r u => r = true ∧ Lays g (N.marked g p x) u ∧
      u.ram.writeBlockDirty = false ∧ Kept t.ram u.ram ∧
      u.ram.nextWriteOffsetCache.page = t.ram.nextWriteOffsetCache.page ∧
      (t.ram.nextWriteOffsetCache.page ≠ p →
        u.ram.nextWriteOffsetCache = t.ram.nextWriteOffsetCache)) t := by
    rcases hadd with ⟨_, hl, hw⟩ | ⟨_, hl, hidle⟩
    · apply wp_mono (hl.flush hw)
      rintro r u ⟨rfl, hram, hu⟩
      rw [hram]
      exact ⟨rfl, hu, flushed_idle _, kept_flushed _, flushed_next_page _,
        fun hne => flushed_next (.inl (by rwa [hw.page]))⟩
    · rw [wp, Lays.flushIdle hidle]
      exact ⟨rfl, hl, hidle, .refl _, rfl, fun _ => rfl⟩
  apply wp_bind_of hend
  rintro r u ⟨rfl, hl, hidle, hk', hpage', hnext'⟩
  have hoffset := status_offset (h.blocks p).aligned ((h.blocks p).room hroom)
  simp only [Bool.not_true, Bool.false_eq_true, if_false, hoffset]
  have hstatuses : (fun q => if q = p then x else u.ram.pageStatusCache q) =
      fun q => if q = p then x else s.ram.pageStatusCache q := by
    rw [hk'.statuses, hk.statuses]
  rw [wp_bind, wp_get]
  apply wp_ite
  · intro hq
    rw [hpage', hpage] at hq
    rw [nextAfterStatus, if_pos hq, wp_bind, wp_modifyRam, wp_bind, wp_modifyRam]
    exact ⟨rfl, hl.withRam _, hidle, ⟨hk'.cache.trans hk.cache, hstatuses,
      hk'.dirty.trans hk.dirty⟩, rfl⟩
  · intro hq
    rw [hpage', hpage] at hq
    rw [nextAfterStatus, if_neg hq, wp_bind, wp_modifyRam]
    exact ⟨rfl, hl.withRam _, hidle, ⟨hk'.cache.trans hk.cache, hstatuses,
      hk'.dirty.trans hk.dirty⟩, (hnext' (by rwa [hpage])).trans (hnext hq)⟩

/-- A page takes a status record as long as it has a free block. -/
theorem Lays.mark (h : Lays g N s) (hd : s.ram.writeBlockDirty = false) (hx : x ≠ .erased)
    (p : Page) :
    wp (writePageStatus g p x) (fun r t =>
      (r = true ∧ (N p).length < g.pageEntries ∧ Lays g (N.marked g p x) t ∧
        t.ram.writeBlockDirty = false ∧ Kept (s.ram.setPageStatus p x) t.ram ∧
        t.ram.nextWriteOffsetCache = nextAfterStatus g s.ram.nextWriteOffsetCache N p) ∨
      (r = false ∧ (N p).length = g.pageEntries ∧ ∃ n, t = s.atCalls n)) s := by
  rw [writePageStatus]
  apply wp_bind_of (P := fun r t => r = true ∧ t = s)
    (by rw [wp, Lays.flushIdle hd]; exact ⟨rfl, rfl⟩)
  rintro r t ⟨rfl, rfl⟩
  simp only [Bool.not_true, Bool.false_eq_true, if_false]
  apply wp_bind_of (findNextFreeOffset_blocks h p)
  rintro r u ⟨rfl, k, rfl⟩
  by_cases hroom : (N p).length < g.pageEntries
  · rw [freeOffset, if_pos hroom]
    apply wp_mono ((h.atCalls k).record hd hx hroom)
    rintro r u ⟨rfl, hl, hidle, hk, hn⟩
    exact .inl ⟨rfl, hroom, hl, hidle, hk, hn⟩
  · rw [freeOffset, if_neg hroom]
    exact .inr ⟨rfl, Nat.le_antisymm (h.blocks p).fits (Nat.le_of_not_lt hroom), k, rfl⟩

theorem Lays.append (h : Lays g N s) (ht : Target g N p s.ram c N')
    (hroom : (N p).length + c.length < g.pageEntries) (he : e.address ≠ reservedStatusAddress) :
    wp (appendEntry g p (4 * ((N p).length + c.length)) e) (fun r t => r = .ok ∧
      Kept (s.ram.setCache e.address.toNat e.value) t.ram ∧
      t.ram.nextWriteOffsetCache = ⟨p, 4 * ((N p).length + c.length + 1)⟩ ∧
      Added g N' p c e t) s := by
  rw [appendEntry]
  apply wp_bind_of (h.writeEntry ht hroom (user_ne_erased he))
  rintro r t ⟨rfl, hk, _, hadd⟩
  have hcache : (t.ram.setCache e.address.toNat e.value).cache =
      (s.ram.setCache e.address.toNat e.value).cache := by
    rw [Ram.setCache, Ram.setCache, hk.cache]
  have hadd' : Added g N' p c e ⟨(t.ram.setNextWriteOffset p (4 * ((N p).length + c.length) +
      serializedEntrySize)).setCache e.address.toNat e.value, t.hwa⟩ := by
    rcases hadd with ⟨hlt, hl, hw⟩ | ⟨heq, hl, hd⟩
    · exact .inl ⟨hlt, hl.withRam _, hw.congr rfl rfl rfl rfl rfl rfl⟩
    · exact .inr ⟨heq, hl.withRam _, hd⟩
  exact ⟨rfl, ⟨hcache, hk.statuses, hk.dirty⟩, rfl, hadd'⟩

/-- What the cached offset says of page `p` when `c` waits behind its log. -/
def AtEnd (N : Logs) (p : Page) (c : List Entry) (next : NextWriteOffsetCache) : Prop :=
  next = ⟨p, 4 * ((N p).length + c.length)⟩ ∨ c = [] ∧ (next.page ≠ p ∨ next.offset = 0)

theorem setNext_self {o : Nat} (h : r.nextWriteOffsetCache = ⟨p, o⟩) :
    r.setNextWriteOffset p o = r := by
  rw [Ram.setNextWriteOffset, ← h]

/-- A page that is not full has room for what waits for it. -/
theorem Target.room (h : Lays g N s) (ht : Target g N p r c N')
    (hfull : ¬ (N p).length + c.length < g.pageEntries) :
    c = [] ∧ (N p).length = g.pageEntries := by
  have hfits := (h.blocks p).fits
  cases ht with
  | idle => exact ⟨rfl, by rw [List.length_nil] at hfull; omega⟩
  | own hw hc =>
    have := (h.blocks p).room hw.room
    omega
  | other => exact ⟨rfl, by rw [List.length_nil] at hfull; omega⟩

/-- An immediate write goes to the end of the page to write, unless the page is full. -/
theorem Lays.writeInternal (h : Lays g N s)
    (hp : findValidPage s.ram.pageStatusCache .write = some p) (ht : Target g N p s.ram c N')
    (hn : AtEnd N p c s.ram.nextWriteOffsetCache) (he : e.address ≠ reservedStatusAddress)
    (ha : e.address.toNat < g.maxAddress) :
    wp (writeInternal g e) (fun r t =>
      (r = .ok ∧ Kept (s.ram.setCache e.address.toNat e.value) t.ram ∧
        t.ram.nextWriteOffsetCache = ⟨p, 4 * ((N p).length + c.length + 1)⟩ ∧
        Added g N' p c e t) ∨
      (r = .pageFull ∧ c = [] ∧ ∃ n, t = { s with
        ram := s.ram.setNextWriteOffset p (4 * (N p).length) }.atCalls n)) s := by
  have hbad : ¬ (e.address = reservedStatusAddress ∨ e.address.toNat ≥ g.maxAddress) := by
    rintro (hb | hb)
    · exact he hb
    · omega
  have hsize := g.pageSize_eq
  rw [EmuEeprom.writeInternal, if_neg hbad]
  simp only [Bool.false_eq_true, if_false]
  rw [wp_bind, wp_get]
  simp only [hp]
  apply wp_ite
  · rintro ⟨hpage, hoffset⟩
    have hnext := hn.resolve_right fun hn => hn.2.elim (absurd hpage) (absurd · hoffset)
    rw [hnext]
    apply wp_ite
    · intro hfull
      dsimp only at hfull
      obtain ⟨rfl, hlen⟩ := ht.room h (by omega)
      refine .inr ⟨rfl, rfl, s.hwa.calls, ?_⟩
      rw [List.length_nil, Nat.add_zero] at hnext
      rw [setNext_self hnext]
      rfl
    · intro hroom
      dsimp only at hroom
      apply wp_mono (h.append ht (by omega) he)
      rintro r t ⟨rfl, hk, hn', hadd⟩
      exact .inl ⟨rfl, hk, hn', hadd⟩
  · intro hne
    -- the scan finds what the cached offset would say
    have hc : c = [] := by
      rcases hn with hn | hn
      · by_contra hlen
        have := List.length_pos_of_ne_nil hlen
        refine hne ⟨by rw [hn], ?_⟩
        rw [hn]
        dsimp only
        omega
      · exact hn.1
    subst hc
    apply wp_bind_of (h.refreshNext p)
    rintro r t ⟨rfl, n, rfl⟩
    simp only [Bool.not_true, Bool.false_eq_true, if_false]
    rw [wp_bind, wp_get]
    apply wp_ite
    · intro _
      exact .inr ⟨rfl, trivial, n, rfl⟩
    · intro hroom
      have hroom : ¬ g.pageSize ≤ 4 * (N p).length := hroom
      have hstart : Lays g N (State.atCalls { s with
          ram := s.ram.setNextWriteOffset p (4 * (N p).length) } n) := (h.withRam _).atCalls n
      apply wp_mono (hstart.append (ht.setNext p (4 * (N p).length))
        (by rw [List.length_nil]; omega) he)
      rintro r t ⟨rfl, hk, hn', hadd⟩
      exact .inl ⟨rfl, ⟨hk.cache, hk.statuses, hk.dirty⟩, hn', hadd⟩

/-- Page `p` is being written: the accepted entries `c` wait for it or none do. -/
structure Filling (g : Geometry) (N : Logs) (p : Page) (c : List Entry) (s : State) : Prop
    extends Lays g N s where
  target : s.ram.writeBlockDirty = false ∧ c = [] ∨
    Waits g N p c s.ram ∧ c.length < g.entriesPerBlock
  next : s.ram.nextWriteOffsetCache = ⟨p, 4 * ((N p).length + c.length)⟩ ∨
    c = [] ∧ s.ram.nextWriteOffsetCache = ⟨p, 0⟩
  silent : Silent c
  known : ∀ e ∈ c, KnownAddress g e

theorem Filling.target' (h : Filling g N p c s) : Target g N p s.ram c N := by
  rcases h.target with ⟨hd, rfl⟩ | ⟨hw, hc⟩
  · exact .idle hd
  · exact .own hw hc

theorem Filling.atEnd (h : Filling g N p c s) : AtEnd N p c s.ram.nextWriteOffsetCache :=
  h.next.imp_right fun ⟨hc, hn⟩ => ⟨hc, .inr (by rw [hn])⟩

/-- Only entries of the store have been added, behind the log of page `p`. -/
structure Grown (g : Geometry) (N : Logs) (p : Page) (N' : Logs) : Prop where
  log : ∃ T, N' p = N p ++ T ∧ Silent T ∧ ∀ e ∈ T, KnownAddress g e
  others : ∀ q, q ≠ p → N' q = N q

theorem Grown.refl (N : Logs) (p : Page) : Grown g N p N :=
  ⟨⟨[], by simp, List.forall_mem_nil _, List.forall_mem_nil _⟩, fun _ _ => rfl⟩

theorem Grown.trans {N'' : Logs} (h : Grown g N p N') (k : Grown g N' p N'') :
    Grown g N p N'' := by
  obtain ⟨T, hT, hs, hk⟩ := h.log
  obtain ⟨T', hT', hs', hk'⟩ := k.log
  refine ⟨⟨T ++ T', by rw [hT', hT, List.append_assoc], hs.append hs', fun e he => ?_⟩,
    fun q hq => (k.others q hq).trans (h.others q hq)⟩
  exact (List.mem_append.mp he).elim (hk e) (hk' e)

theorem Grown.lastStatus (h : Grown g N p N') (q : Page) : lastStatus (N' q) = lastStatus (N q) := by
  by_cases hq : q = p
  · obtain ⟨T, hT, hs, _⟩ := h.log
    rw [hq, hT, hs.lastStatus]
  · rw [h.others q hq]

/-- A block of entries of the store is programmed. -/
theorem grown_pad (hs : Silent c) (hk : ∀ e ∈ c, KnownAddress g e) :
    Grown g N p (N.set p (N p ++ pad g c)) := by
  refine ⟨⟨pad g c, Logs.set_self, hs.append silent_replicate, fun e he => ?_⟩,
    fun q hq => Logs.set_ne hq⟩
  rcases List.mem_append.mp he with he | he
  · exact hk e he
  · exact .inl (by rw [List.eq_of_mem_replicate he]; rfl)

theorem Filling.added (h : Filling g N p c s) (hadd : Added g N p c e t)
    (hn : t.ram.nextWriteOffsetCache = ⟨p, 4 * ((N p).length + c.length + 1)⟩)
    (he : e.address ≠ reservedStatusAddress) (ha : e.address.toNat < g.maxAddress) :
    ∃ N' c', Filling g N' p c' t ∧ Grown g N p N' ∧
      (N' p).length + c'.length = (N p).length + c.length + 1 := by
  have hlen : (c ++ [e]).length = c.length + 1 := by simp
  have hs : Silent (c ++ [e]) := h.silent.append (.singleton (user_silent he))
  have hk : ∀ y ∈ c ++ [e], KnownAddress g y := by
    intro y hy
    rcases List.mem_append.mp hy with hy | hy
    · exact h.known y hy
    · rw [List.mem_singleton.mp hy]
      exact user_known ha
  rcases hadd with ⟨hlt, hl, hw⟩ | ⟨heq, hl, hd⟩
  · refine ⟨N, c ++ [e], ⟨hl, .inr ⟨hw, by omega⟩, .inl ?_, hs, hk⟩, .refl N p, by omega⟩
    rw [hn, hlen, Nat.add_assoc]
  · have hlog : (N.set p (N p ++ pad g (c ++ [e])) p).length = (N p).length + c.length + 1 := by
      rw [Logs.set_self, List.length_append, length_pad (by omega)]
      omega
    refine ⟨_, [], ⟨hl, .inl ⟨hd, rfl⟩, .inl ?_, nofun, nofun⟩, grown_pad hs hk, ?_⟩
    · rw [hn, hlog, List.length_nil, Nat.add_zero]
    · rw [hlog, List.length_nil, Nat.add_zero]

theorem Filling.transferEntries {l : List Nat} (h : Filling g N p c s)
    (hp : findValidPage s.ram.pageStatusCache .write = some p)
    (hl : ∀ a ∈ l, a < g.maxAddress) :
    wp (transferEntries g l) (fun r t => Kept s.ram t.ram ∧ ∃ N' c', Filling g N' p c' t ∧
      Grown g N p N' ∧ (r = .ok ∧ (N' p).length + c'.length =
        (N p).length + c.length + (copied s.ram.cache l).length ∨ r = .pageFull)) s := by
  induction l generalizing s N c with
  | nil => exact ⟨.refl _, N, c, h, .refl N p, .inl ⟨rfl, rfl⟩⟩
  | cons a l ih =>
    have hl' : ∀ x ∈ l, x < g.maxAddress := fun x hx => hl x (List.mem_cons_of_mem _ hx)
    rw [EmuEeprom.transferEntries, wp_bind, wp_get]
    apply wp_ite
    · intro hv
      rw [copied_cons_of_erased hv]
      exact ih h hp hl'
    · intro hv
      have ha := hl a List.mem_cons_self
      obtain ⟨hto, hne⟩ := address_ofNat ha
      have hset : s.ram.setCache (UInt16.ofNat a).toNat (s.ram.cache a) = s.ram := by
        rw [hto, setCache_self]
      apply wp_bind_of (h.toLays.writeInternal (e := makeEntry (UInt16.ofNat a) (s.ram.cache a)) hp
        h.target' h.atEnd hne (hto.symm ▸ ha))
      rintro r t (⟨rfl, hk, hn, hadd⟩ | ⟨rfl, rfl, n, rfl⟩)
      · have hk : Kept s.ram t.ram := hset ▸ hk
        obtain ⟨N₁, c₁, hfill, hgrown, hlen⟩ := h.added hadd hn hne (hto.symm ▸ ha)
        simp only [ne_eq, not_true_eq_false, if_false]
        apply wp_mono (ih hfill (hk.statuses ▸ hp) hl')
        rintro r u ⟨hk', N₂, c₂, hfill', hgrown', hr⟩
        refine ⟨hk.trans hk', N₂, c₂, hfill', hgrown.trans hgrown', hr.imp_left fun hr => ⟨hr.1, ?_⟩⟩
        rw [hr.2, hlen, hk.cache, copied_cons hv, List.length_cons]
        omega
      · have hfull : Filling g N p [] (State.atCalls { s with
            ram := s.ram.setNextWriteOffset p (4 * (N p).length) } n) := by
          refine ⟨(h.toLays.withRam _).atCalls n, .inl ⟨?_, rfl⟩, .inl rfl,
            List.forall_mem_nil _, List.forall_mem_nil _⟩
          rcases h.target with ⟨hd, _⟩ | ⟨hw, _⟩
          · exact hd
          · exact absurd rfl hw.ne_nil
        exact ⟨⟨rfl, rfl, rfl⟩, N, [], hfull, .refl N p, .inr rfl⟩

end Zlibs.EmuEeprom
