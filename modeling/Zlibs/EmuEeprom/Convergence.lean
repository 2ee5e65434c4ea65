import Zlibs.EmuEeprom.Locality

/-! What `init` makes of any flash whose programmed blocks come first on each page, and what it
makes of the result. -/
namespace Zlibs.EmuEeprom

open Zlibs.Lib

variable {g : Geometry} {L : Logs} {s t u : State} {S T N : List Entry} {A p q : Page}

theorem refreshFrom_blocks (hS : s.hwa.flash p = image S) (hf : s.hwa.fails = never) {k : Nat}
    (hk : S.length ≤ k + 1) :
    wp (refreshPageStatusFrom g p (4 * k)) (fun r t => r = true ∧ ∃ n,
      t = { s with ram := s.ram.setPageStatus p (lastStatus S) }.atCalls n) s := by
  apply wp_bind_of (scanPageStatus_from hS hf _ k rfl)
  rintro r t ⟨⟨n, rfl⟩, rfl | ⟨rfl, hfault⟩⟩
  · rw [List.take_of_length_le hk]
    exact ⟨rfl, n, rfl⟩
  · exact absurd hfault not_readFault

theorem refreshFrom_top (wf : Blocks g S) (hS : s.hwa.flash p = image S)
    (hf : s.hwa.fails = never) :
    wp (refreshPageStatusFrom g p (g.pageSize - serializedEntrySize)) (fun r t => r = true ∧ ∃ n,
      t = { s with ram := s.ram.setPageStatus p (lastStatus S) }.atCalls n) s := by
  have hpos := pageEntries_pos (g := g)
  have htop : g.pageSize - serializedEntrySize = 4 * (g.pageEntries - 1) := by
    rw [g.pageSize_eq, serializedEntrySize]
    omega
  rw [htop]
  exact refreshFrom_blocks hS hf (by have := wf.fits; omega)

theorem refreshNextWriteOffset_blocks (wf : Blocks g S) (hS : s.hwa.flash p = image S)
    (hf : s.hwa.fails = never) :
    wp (refreshNextWriteOffset g p) (fun r t => r = true ∧ ∃ n,
      t = { s with ram := s.ram.setNextWriteOffset p (4 * S.length) }.atCalls n) s := by
  have hscan := scanErasedBlock_from wf g.pageReads 0 (by omega) (by simp [entriesBefore]) hS hf
  rw [← List.range_eq_range'] at hscan
  apply wp_bind_of hscan
  rintro r t ⟨⟨n, rfl⟩, rfl | ⟨rfl, hfault⟩⟩
  · have hfits := wf.fits
    have hsize := g.pageSize_eq
    by_cases hlt : S.length < g.pageEntries
    · rw [freeOffset, if_pos hlt]
      exact ⟨rfl, n, rfl⟩
    · have hfull : g.pageSize = 4 * S.length := by omega
      rw [freeOffset, if_neg hlt, ← hfull]
      exact ⟨rfl, n, rfl⟩
  · exact absurd hfault not_readFault

/-- The cached offset, where there is one for the page, is that of its first erased block. -/
def OffsetOf (r : Ram) (p : Page) (S : List Entry) : Prop :=
  r.nextWriteOffsetCache.page = p →
    r.nextWriteOffsetCache.offset = 0 ∨ r.nextWriteOffsetCache.offset = 4 * S.length

/-- A cached offset that a refresh of page `p` starts from leaves none of the log behind. -/
def Covers (r : Ram) (p : Page) (S : List Entry) : Prop :=
  findValidPage r.pageStatusCache .write = some p → r.nextWriteOffsetCache.page = p →
    r.nextWriteOffsetCache.offset = 0 ∨
      ∃ m, S.length ≤ m ∧ r.nextWriteOffsetCache.offset = 4 * m

theorem OffsetOf.covers {r : Ram} (h : OffsetOf r p S) : Covers r p S :=
  fun _ hpage => (h hpage).imp_right fun h => ⟨_, le_rfl, h⟩

/-- The offset is scanned for only where none is cached for the page to write. -/
def Relocated (r : Ram) (p : Page) (S : List Entry) (ram : Ram) : Prop :=
  ram = r ∨ findValidPage r.pageStatusCache .write = some p ∧
    (r.nextWriteOffsetCache.page ≠ p ∨ r.nextWriteOffsetCache.offset = 0) ∧
    ram = r.setNextWriteOffset p (4 * S.length)

/-- The status of a page is that of its last status record. -/
theorem refreshPageStatus_blocks (wf : Blocks g S) (hS : s.hwa.flash p = image S)
    (hf : s.hwa.fails = never) (hnext : Covers s.ram p S) :
    wp (refreshPageStatus g p) (fun r t => r = true ∧ ∃ n ram,
      t = { s with ram := ram.setPageStatus p (lastStatus S) }.atCalls n ∧
      Relocated s.ram p S ram) s := by
  have hfits := wf.fits
  have hscan : ∀ {v : State} {ram : Ram}, Relocated s.ram p S ram →
      (∃ m, v = { s with ram := ram }.atCalls m) →
      (ram.nextWriteOffsetCache.offset = 0 ∨
        ∃ m, S.length ≤ m ∧ ram.nextWriteOffsetCache.offset = 4 * m) →
      wp (if ram.nextWriteOffsetCache.offset > 0 then
          refreshPageStatusFrom g p (min ram.nextWriteOffsetCache.offset g.pageSize -
            serializedEntrySize)
        else refreshPageStatusFrom g p (g.pageSize - serializedEntrySize)) (fun r t => r = true ∧
        ∃ n ram, t = { s with ram := ram.setPageStatus p (lastStatus S) }.atCalls n ∧
          Relocated s.ram p S ram) v := by
    rintro v ram hram ⟨m, rfl⟩ hoffset
    apply wp_ite
    · intro hpos
      obtain ⟨k, hk, hoffset⟩ := hoffset.resolve_left (by omega)
      have hoff : min ram.nextWriteOffsetCache.offset g.pageSize - serializedEntrySize =
          4 * (min k g.pageEntries - 1) := by
        rw [hoffset, g.pageSize_eq, serializedEntrySize]
        omega
      rw [hoff]
      apply wp_mono (refreshFrom_blocks (s := State.atCalls ⟨ram, s.hwa⟩ m) hS hf (by omega))
      rintro r t ⟨rfl, n, rfl⟩
      exact ⟨rfl, n, ram, rfl, hram⟩
    · intro _
      apply wp_mono (refreshFrom_top (s := State.atCalls ⟨ram, s.hwa⟩ m) wf hS hf)
      rintro r t ⟨rfl, n, rfl⟩
      exact ⟨rfl, n, ram, rfl, hram⟩
  rw [refreshPageStatus, wp_bind, wp_get]
  apply wp_ite
  · intro hwrite
    apply wp_ite
    · -- the offset is scanned for first
      intro hn
      apply wp_bind_of (refreshNextWriteOffset_blocks wf hS hf)
      rintro r t ⟨rfl, n, rfl⟩
      exact hscan (.inr ⟨hwrite, hn, rfl⟩) ⟨n, rfl⟩ (.inr ⟨_, le_rfl, rfl⟩)
    · intro hn
      have hpage : s.ram.nextWriteOffsetCache.page = p := by
        by_contra hne
        exact hn (.inl hne)
      exact hscan (.inl rfl) ⟨_, s.atCalls_self.symm⟩ (hnext hwrite hpage)
  · intro _
    apply wp_mono (refreshFrom_top wf hS hf)
    rintro r t ⟨rfl, n, rfl⟩
    exact ⟨rfl, n, s.ram, rfl, .inl rfl⟩

/-- The status of the factory page is whatever its last status record says. -/
theorem refreshPageStatus_factory (hf : s.hwa.fails = never) :
    wp (refreshPageStatus g .factory) (fun r t => r = true ∧ ∃ n status,
      t = { s with ram := s.ram.setPageStatus .factory status }.atCalls n) s := by
  rw [refreshPageStatus, wp_bind, wp_get]
  apply wp_ite
  · intro hw
    exact (findValidPage_runtime hw).elim
  · intro _
    apply wp_mono (refreshPageStatusFrom_calls hf _)
    rintro r t ⟨n, ⟨status, rfl, rfl⟩ | ⟨rfl, hfault, rfl⟩⟩
    · exact ⟨rfl, n, status, rfl⟩
    · exact absurd hfault not_readFault

/-- A flash whose programmed blocks come first on each runtime page. -/
structure Prefixed (g : Geometry) (N : Page → List Entry) (flash : Flash) : Prop where
  image : ∀ p, p ≠ .factory → flash p = image (N p)
  blocks : ∀ p, p ≠ .factory → Blocks g (N p)

/-- The pages are recognized by their last status records. -/
structure Recognized (N : Page → List Entry) (s t : State) : Prop where
  faults : t.hwa.fails = never
  flash : t.hwa.flash = s.hwa.flash
  trace : t.hwa.trace = s.hwa.trace
  statuses : ∀ p, p ≠ .factory → t.ram.pageStatusCache p = lastStatus (N p)
  idle : t.ram.writeBlockDirty = false

variable {M : Page → List Entry}

theorem recognize_blocks (hf : s.hwa.fails = never) (h : Prefixed g M s.hwa.flash)
    (hnext : s.ram.nextWriteOffsetCache = ⟨.page1, 0⟩) (hidle : s.ram.writeBlockDirty = false) :
    wp (recognize g) (fun r t => r = true ∧ Recognized M s t) s := by
  rw [recognize]
  apply wp_bind_of (refreshPageStatus_blocks (h.blocks .page1 (by decide)) (h.image .page1 (by decide)) hf
    fun _ _ => .inl (by rw [hnext]))
  rintro r t ⟨rfl, n1, r1, rfl, h1⟩
  have hnext1 : r1.nextWriteOffsetCache.page = .page1 := by
    rcases h1 with rfl | ⟨_, _, rfl⟩
    · rw [hnext]
    · rfl
  have hidle1 : r1.writeBlockDirty = false := by rcases h1 with rfl | ⟨_, _, rfl⟩ <;> exact hidle
  apply wp_bind_of (refreshPageStatus_blocks
    (s := State.atCalls ⟨r1.setPageStatus .page1 (lastStatus (M .page1)), s.hwa⟩ n1)
    (h.blocks .page2 (by decide)) (h.image .page2 (by decide)) hf
    fun _ hpage => absurd (hnext1.symm.trans hpage) (by decide))
  rintro r t ⟨rfl, n2, r2, rfl, h2⟩
  have hstatus2 : r2.pageStatusCache .page1 = lastStatus (M .page1) := by
    rcases h2 with rfl | ⟨_, _, rfl⟩ <;> rfl
  have hidle2 : r2.writeBlockDirty = false := by
    rcases h2 with rfl | ⟨_, _, rfl⟩ <;> exact hidle1
  apply wp_mono (refreshPageStatus_factory
    (s := State.atCalls ⟨r2.setPageStatus .page2 (lastStatus (M .page2)), s.hwa⟩ n2) hf)
  rintro r t ⟨rfl, n3, status, rfl⟩
  refine ⟨rfl, hf, rfl, rfl, ?_, hidle2⟩
  intro p hp
  cases p with
  | page1 =>
    exact hstatus2
  | page2 => rfl
  | factory => exact absurd rfl hp

/-- `init` once the pages are recognized. -/
theorem init_recognizes (hf : s.hwa.fails = never) (h : Prefixed g M s.hwa.flash)
    {Q : Bool → State → Prop} (hQ : ∀ t, Recognized M s t → wp (repair g) Q t) :
    wp (init g) Q s := by
  have hok : s.hwa.fails s.hwa.calls .init = false := by rw [hf]; rfl
  rw [init_eq]
  apply wp_bind_of (P := fun r t => r = true ∧ t = { s with hwa := s.hwa.tick })
  · refine ⟨?_, rfl⟩
    change (!s.hwa.fails s.hwa.calls .init) = true
    rw [hok]
    rfl
  · rintro r t ⟨rfl, rfl⟩
    rw [Bool.not_true, if_neg Bool.false_ne_true, wp_bind, wp_modifyRam, wp_bind, wp_modifyRam,
      wp_bind, wp_modifyRam]
    apply wp_bind_of (recognize_blocks (s := ⟨(s.ram.clearWriteBlock.setNextWriteOffset .page1
      0).clearCache, s.hwa.tick⟩) hf h rfl rfl)
    rintro r t ⟨rfl, ht⟩
    exact hQ t ⟨ht.faults, ht.flash, ht.trace, ht.statuses, ht.idle⟩

theorem cacheEntries_known {b : Span} {o m : Nat} (j cnt : Nat)
    (hb : ∀ k < 4 * (j + cnt), b.data (o + k) = image S (4 * m + k)) :
    wp (cacheEntries g b o (List.range' j cnt)) (fun r t => t.hwa = s.hwa ∧
      (r = true → ∀ k, j ≤ k → k < j + cnt → KnownAddress g (S.getD (m + k) erasedEntry))) s := by
  induction cnt generalizing j s with
  | zero => exact ⟨rfl, fun _ k _ _ => by omega⟩
  | succ cnt ih =>
    have hdata : ∀ i < 4, (b.subspan (o + j * serializedEntrySize)
        serializedEntrySize).data i = image S (4 * (m + j) + i) := by
      intro i hi
      simp only [Span.subspan, serializedEntrySize]
      rw [Nat.add_assoc, hb _ (by omega)]
      congr 1
      omega
    have hentry := deserializeEntry_image hdata
    have hrest : ∀ u : State, u.hwa = s.hwa → KnownAddress g (S.getD (m + j) erasedEntry) →
        wp (cacheEntries g b o (List.range' (j + 1) cnt)) (fun r t => t.hwa = s.hwa ∧
          (r = true → ∀ k, j ≤ k → k < j + (cnt + 1) →
            KnownAddress g (S.getD (m + k) erasedEntry))) u := by
      intro u hu hj
      apply wp_mono (ih (s := u) (j + 1) fun k hk => hb k (by omega))
      rintro r t ⟨ht, hk⟩
      refine ⟨ht.trans hu, fun hr k hlo hhi => ?_⟩
      rcases Nat.eq_or_lt_of_le hlo with rfl | hlt
      · exact hj
      · exact hk hr k hlt (by omega)
    rw [List.range'_succ, cacheEntries]
    apply wp_ite
    · intro he
      have hslot := (allErased_image (S := S) (k := m + j) (n := 1)
        (d := b.subspan (o + j * serializedEntrySize) serializedEntrySize) rfl
        (fun i hi => hdata i (by omega))).mp he 0 (by omega)
      rw [Nat.add_zero] at hslot
      exact hrest s rfl (Or.inl (by rw [hslot]; rfl))
    · intro _
      simp only [hentry]
      apply wp_ite
      · intro hr
        exact hrest s rfl (Or.inl hr)
      · intro _
        apply wp_ite
        · intro _
          exact ⟨rfl, fun h => by cases h⟩
        · intro hlt
          rw [wp_bind, wp_modifyRam]
          exact hrest _ rfl (Or.inr (by omega))

theorem cacheWriteBlocks_known (wf : Blocks g S) {b : Span} {i : Nat}
    (hb : ∀ k < g.readBlockSize, b.data k = image S (i * g.readBlockSize + k))
    (j cnt : Nat) (hj : j + cnt = g.blocksPerRead) :
    wp (cacheWriteBlocks g p b (i * g.readBlockSize)
        ((List.range' j cnt).map (· * g.writeBlockSize))) (fun r t => t.hwa = s.hwa ∧
      (r = some true → ∀ k, entriesBefore g i + j * g.entriesPerBlock ≤ k →
        KnownAddress g (S.getD k erasedEntry)) ∧
      (r = none → ∀ k, entriesBefore g i + j * g.entriesPerBlock ≤ k →
        k < entriesBefore g (i + 1) → KnownAddress g (S.getD k erasedEntry))) s := by
  induction cnt generalizing j s with
  | zero =>
    refine ⟨rfl, (fun hr => by cases hr), fun _ k hlo hhi => ?_⟩
    have hend : entriesBefore g i + j * g.entriesPerBlock = entriesBefore g (i + 1) := by
      rw [entriesBefore_succ, ← hj, Nat.add_zero, Nat.mul_comm]
    omega
  | succ cnt ih =>
    have hmul : (j + 1) * g.entriesPerBlock = j * g.entriesPerBlock + g.entriesPerBlock :=
      Nat.succ_mul ..
    have hoff : i * g.readBlockSize + j * g.writeBlockSize =
        4 * (entriesBefore g i + j * g.entriesPerBlock) := by
      rw [readBlock_offset, g.writeBlockSize_eq, Nat.mul_left_comm, ← Nat.mul_add]
    have herased := allErased_writeBlock wf hb (j := j) (by omega)
    rw [List.range'_succ, List.map_cons, cacheWriteBlocks]
    apply wp_ite
    · intro he
      refine ⟨rfl, fun _ k hk => Or.inl ?_, fun hr => by cases hr⟩
      rw [getD_erased_eq ((herased.mp he).trans hk)]
      rfl
    · intro _
      have hbytes : ∀ k < 4 * (0 + g.entriesPerBlock), b.data (j * g.writeBlockSize + k) =
          image S (4 * (entriesBefore g i + j * g.entriesPerBlock) + k) := by
        intro k hk
        have hin : j * g.writeBlockSize + k < g.readBlockSize := by
          have := Nat.mul_le_mul_right g.entriesPerBlock (show j + 1 ≤ g.blocksPerRead by omega)
          rw [g.writeBlockSize_eq, g.readBlockSize_eq, Nat.mul_left_comm j,
            Nat.mul_comm g.entriesPerBlock g.blocksPerRead]
          omega
        rw [hb _ hin, ← hoff, Nat.add_assoc]
      rw [wp_bind, wp_modifyRam]
      have hentries := cacheEntries_known (g := g) (s := ⟨s.ram.setNextWriteOffset p
        (i * g.readBlockSize + j * g.writeBlockSize + g.writeBlockSize), s.hwa⟩) 0
        g.entriesPerBlock hbytes
      rw [← List.range_eq_range'] at hentries
      apply wp_bind_of hentries
      rintro r t ⟨ht, hknown⟩
      cases r with
      | false => exact ⟨ht, (fun hr => by cases hr), fun hr => by cases hr⟩
      | true =>
        have hblock : ∀ k, entriesBefore g i + j * g.entriesPerBlock ≤ k →
            k < entriesBefore g i + (j + 1) * g.entriesPerBlock →
            KnownAddress g (S.getD k erasedEntry) := by
          intro k hlo hhi
          have := hknown rfl (k - (entriesBefore g i + j * g.entriesPerBlock)) (by omega) (by omega)
          rwa [Nat.add_sub_cancel' hlo] at this
        apply wp_mono (ih (s := t) (j + 1) (by omega))
        rintro r u ⟨hu, htrue, hnone⟩
        refine ⟨hu.trans ht, fun hr k hk => ?_, fun hr k hk hhi => ?_⟩
        · rcases Nat.lt_or_ge k (entriesBefore g i + (j + 1) * g.entriesPerBlock) with hlt | hge
          · exact hblock k hk hlt
          · exact htrue hr k hge
        · rcases Nat.lt_or_ge k (entriesBefore g i + (j + 1) * g.entriesPerBlock) with hlt | hge
          · exact hblock k hk hlt
          · exact hnone hr k hge hhi

theorem cacheReadBlocks_known (wf : Blocks g S) (n i : Nat) (hn : i + n = g.pageReads)
    (hS : s.hwa.flash p = image S) (hf : s.hwa.fails = never) :
    wp (cacheReadBlocks g p ((List.range' i n).map (· * g.readBlockSize))) (fun r t =>
      (t.hwa.fails = never ∧ t.hwa.flash = s.hwa.flash) ∧ (r = true → ∀ k, entriesBefore g i ≤ k →
        KnownAddress g (S.getD k erasedEntry))) s := by
  induction n generalizing i s with
  | zero =>
    refine ⟨⟨hf, rfl⟩, fun _ k hk => Or.inl ?_⟩
    have hend : i = g.pageReads := by omega
    rw [hend, entriesBefore_pageReads] at hk
    rw [getD_erased_eq (wf.fits.trans hk)]
    rfl
  | succ n ih =>
    rw [List.range'_succ, List.map_cons, cacheReadBlocks]
    apply wp_bind_of (hwaRead_spec hf _ _)
    rintro r t ⟨rfl, rfl | ⟨rfl, c, hc⟩⟩
    · have hblocks := cacheWriteBlocks_known (s := s.atCalls (s.hwa.calls + 1)) wf (p := p) (i := i)
        (b := ⟨g.readBlockSize, fun k => s.hwa.flash p (i * g.readBlockSize + k)⟩)
        (fun k _ => by rw [← hS]) 0 g.blocksPerRead (by omega)
      simp only [Nat.zero_mul, Nat.add_zero, ← List.range_eq_range'] at hblocks
      apply wp_bind_of hblocks
      rintro r t ⟨ht, htrue, hnone⟩
      have hflash : t.hwa.flash = s.hwa.flash := by rw [ht]; rfl
      cases r with
      | some r =>
        refine ⟨⟨(congrArg Hwa.fails ht).trans hf, hflash⟩, fun hr k hk => ?_⟩
        exact htrue (congrArg some hr) k hk
      | none =>
        apply wp_mono (ih (s := t) (i + 1) (by omega) ((congrArg (Hwa.flash · p) ht).trans hS)
          ((congrArg Hwa.fails ht).trans hf))
        rintro r u ⟨⟨hu, hflash'⟩, hk⟩
        refine ⟨⟨hu, hflash'.trans hflash⟩, fun hr k hlo => ?_⟩
        rcases Nat.lt_or_ge k (entriesBefore g (i + 1)) with hlt | hge
        · exact hnone rfl k hlo hlt
        · exact hk hr k hge
    · cases hc

/-- `cache` accepts a page only if every address on it is one of the store's. -/
theorem cache_known (wf : Blocks g S) (hS : s.hwa.flash p = image S) (hf : s.hwa.fails = never)
    (hp : findValidPage s.ram.pageStatusCache .read = some p) :
    wp (cache g) (fun r t => (t.hwa.fails = never ∧ t.hwa.flash = s.hwa.flash) ∧
      (r = true → WellFormed g S)) s := by
  have hblocks := cacheReadBlocks_known (s := ⟨s.ram.clearWriteBlock.clearCache.setNextWriteOffset
    .page1 0, s.hwa⟩) wf g.pageReads 0 (by omega) hS hf
  rw [← List.range_eq_range'] at hblocks
  rw [cache, wp_bind, wp_modifyRam, wp_bind, wp_modifyRam, wp_bind, wp_modifyRam, wp_bind, wp_get]
  simp only [show (((s.ram.clearWriteBlock).clearCache).setNextWriteOffset .page1 0).pageStatusCache
    = s.ram.pageStatusCache from rfl, hp]
  apply wp_mono hblocks
  rintro r t ⟨ht, hk⟩
  refine ⟨ht, fun hr => ⟨wf.aligned, wf.fits, wf.used, fun e he => ?_⟩⟩
  obtain ⟨k, hlt, rfl⟩ := List.getElem_of_mem he
  have := hk hr k (by simp [entriesBefore])
  rwa [List.getD_eq_getElem?_getD, List.getElem?_eq_getElem hlt, Option.getD_some] at this

theorem erase_never (hf : s.hwa.fails = never) :
    wp (hwaErasePage p) (fun r t => r = true ∧ t.ram = s.ram ∧ t.hwa.fails = never ∧
      t.hwa.flash = s.hwa.flash.erase p) s := by
  have hok : s.hwa.fails s.hwa.calls (.erasePage p) = false := by rw [hf]; rfl
  refine ⟨?_, rfl, hf, ?_⟩
  · change (!s.hwa.fails s.hwa.calls (.erasePage p)) = true
    rw [hok]
    rfl
  · change (if s.hwa.fails s.hwa.calls (.erasePage p) then s.hwa.flash
      else s.hwa.flash.erase p) = _
    rw [hok]
    rfl

/-- Page `A` is valid and the other one formatted, by the statuses and by the flash. -/
structure Repaired (g : Geometry) (A : Page) (S N : List Entry) (s : State) : Prop where
  faults : s.hwa.fails = never
  runtime : A ≠ .factory
  valid : s.ram.pageStatusCache A = .valid
  other : s.ram.pageStatusCache A.other = .formatted
  log : s.hwa.flash A = image S
  spare : s.hwa.flash A.other = image N
  blocks : Blocks g S
  spareBlocks : Blocks g N
  marked : lastStatus S = .valid
  spareMarked : lastStatus N = .formatted

/-- A repaired store with the mirror of its valid page. -/
structure Converged (g : Geometry) (A : Page) (S N : List Entry) (s : State) : Prop
    extends Repaired g A S N s where
  wellFormed : WellFormed g S
  cache : s.ram.cache = mirror S
  next : s.ram.nextWriteOffsetCache = ⟨A, 4 * S.length⟩ ∨ s.ram.nextWriteOffsetCache.offset = 0

theorem Repaired.page (h : Repaired g A S N s) (op : PageOperation) :
    findValidPage s.ram.pageStatusCache op = some A :=
  findValidPage_working h.runtime h.valid h.other op

theorem Repaired.cache_image (h : Repaired g A S N s) (wf : WellFormed g S) :
    wp (cache g) (fun r t => r = true ∧ t.hwa.flash = s.hwa.flash ∧ t.hwa.trace = s.hwa.trace ∧
      Converged g A S N t) s := by
  apply wp_mono (EmuEeprom.cache_image wf h.log h.faults (h.page .read))
  rintro r t ⟨c, ⟨rfl, rfl⟩ | ⟨rfl, hfault, _⟩⟩
  · refine ⟨rfl, rfl, rfl, ⟨h.faults, h.runtime, h.valid, h.other, h.log, h.spare, h.blocks,
      h.spareBlocks, h.marked, h.spareMarked⟩, wf, ?_, Or.inl rfl⟩
    show mirror (S.take S.length) = _
    rw [List.take_length]
  · exact absurd hfault not_readFault

/-- What agrees on the runtime pages with two logs that `init` leaves. -/
theorem converged_of_agree (h : Sees g never K L none t) (hA : A ≠ .factory)
    (hv : t.ram.pageStatusCache A = .valid) (ho : t.ram.pageStatusCache A.other = .formatted)
    (hm : lastStatus (L A) = .valid) (hs : L A.other = pad g [statusEntry .formatted])
    (hc : t.ram.cache = mirror (L A))
    (hn : t.ram.nextWriteOffsetCache = ⟨A, 4 * (L A).length⟩ ∨
      t.ram.nextWriteOffsetCache.offset = 0)
    (ha : Agree (· ≠ .factory) s t) :
    Converged g A (L A) (pad g [statusEntry .formatted]) s where
  faults := ha.left
  runtime := hA
  valid := by rw [ha.ram, hv]
  other := by rw [ha.ram, ho]
  log := (ha.flash A hA).trans (h.flash A)
  spare := (ha.flash _ Page.other_runtime).trans ((h.flash _).trans (congrArg image hs))
  blocks := (h.wf A).blocks
  spareBlocks := (wellFormed_statusBlock (x := .formatted) nofun).blocks
  marked := hm
  spareMarked := lastStatus_append_statusEntry (S := []) nofun
  wellFormed := h.wf A
  cache := by rw [ha.ram, hc]
  next := by rw [ha.ram]; exact hn

/-- `format` does not depend on what it erases. -/
theorem format_converges (hf : s.hwa.fails = never) :
    wp (format g) (fun r t => r = true ∧ Converged g .page1 (pad g [statusEntry .valid])
      (pad g [statusEntry .formatted]) t) s := by
  rw [format_eq, wp_bind, wp_modifyRam]
  apply wp_bind_of (erase_never (s := ⟨s.ram.clearWriteBlock, s.hwa⟩) hf)
  rintro r t ⟨rfl, hram, hft, hflash⟩
  simp only [Bool.not_true, Bool.false_eq_true, if_false]
  rw [wp_bind, wp_modifyRam]
  apply wp_bind_of (erase_never (s := ⟨t.ram.setPageStatus .page1 .erased, t.hwa⟩) hft)
  rintro r u ⟨rfl, hram', hfu, hflash'⟩
  simp only [Bool.not_true, Bool.false_eq_true, if_false]
  rw [wp_bind, wp_modifyRam, wp_bind, wp_modifyRam]
  have hidle : ((u.ram.setPageStatus .page2 .erased).clearCache).writeBlockDirty = false := by
    rw [hram']
    change t.ram.writeBlockDirty = false
    rw [hram]
    rfl
  have hblank : ∀ p, p ≠ .factory → u.hwa.flash p = image [] := by
    intro p hp
    rw [hflash', image_nil]
    cases p with
    | page1 =>
      change t.hwa.flash .page1 = _
      rw [hflash]
      rfl
    | page2 => rfl
    | factory => exact absurd rfl hp
  have hsees := sees_over (g := g) (s := ⟨(u.ram.setPageStatus .page2 .erased).clearCache, u.hwa⟩)
    (N := fun _ => []) (fun _ => .nil) hidle
  have hagree := agree_over (D := (· ≠ .factory))
    (s := ⟨(u.ram.setPageStatus .page2 .erased).clearCache, u.hwa⟩) hfu hblank hidle
  apply wp_mono (wp_local (local_activate (by decide) (by decide)) hagree
    (activate_spec hsees rfl trivial trivial))
  rintro r v ⟨⟨w, hend, ha⟩, _⟩
  have hroom : (0 : Nat) ≠ g.pageEntries := by
    have := pageEntries_pos (g := g)
    omega
  obtain ⟨rfl, hkept, hnext, hsees⟩ := hend.of_never hroom
  have hlog : ((Logs.marked g (fun _ => []) .page1 .valid).set .page2
      (pad g [statusEntry .formatted])) .page1 = pad g [statusEntry .valid] := by
    rw [Logs.set_ne (q := .page1) (p := .page2) (by decide), Logs.marked, Logs.set_self,
      List.nil_append]
  have hcache : w.ram.cache = mirror (pad g [statusEntry .valid]) := by
    rw [hkept.cache]
    funext a
    rw [mirror, lookup_statusBlock]
    rfl
  have := converged_of_agree hsees (A := .page1) (by decide)
    (by rw [hkept.statuses]; rfl) (by rw [hkept.statuses]; rfl)
    (by rw [hlog]; exact lastStatus_append_statusEntry (S := []) (by decide)) Logs.set_self
    (by rw [hlog, hcache]) (Or.inr (by rw [hnext])) ha
  rw [hlog] at this
  exact ⟨rfl, this⟩

/-- The state `init` leaves, whatever it had to repair. -/
def Settling (g : Geometry) (s : State) : Prop := ∃ A S N, Converged g A S N s

theorem format_settles (hf : s.hwa.fails = never) :
    wp (format g) (fun r t => r = true ∧ Settling g t) s := by
  apply wp_mono (format_converges hf)
  rintro r t ⟨rfl, h⟩
  exact ⟨rfl, _, _, _, h⟩

/-- The end of `init`: the mirror is filled, or the store is formatted. -/
theorem cache_or_format (h : Repaired g A S N s) :
    wp (do
      if !(← cache g) then
        return ← format g
      return true) (fun r t => r = true ∧ Settling g t) s := by
  by_cases wf : WellFormed g S
  · apply wp_bind_of (h.cache_image wf)
    rintro r t ⟨rfl, _, _, ht⟩
    exact ⟨rfl, _, _, _, ht⟩
  · apply wp_bind_of (cache_known h.blocks h.log h.faults (h.page .read))
    rintro r t ⟨⟨ht, _⟩, hwf⟩
    cases r with
    | true => exact absurd (hwf rfl) wf
    | false => exact format_settles ht

theorem reformat_settles (hf : s.hwa.fails = never) (doCache : Bool) :
    wp (reformat g doCache) (fun r t => r = .proceed doCache ∧ Settling g t) s := by
  apply wp_bind_of (format_settles hf)
  rintro r t ⟨rfl, ht⟩
  exact ⟨rfl, ht⟩

/-- The erased page next to a valid one gets its status record. -/
theorem formatErasedPage_repaired (hf : s.hwa.fails = never) (hA : A ≠ .factory)
    (hv : s.ram.pageStatusCache A = .valid) (hS : s.hwa.flash A = image S) (wf : Blocks g S)
    (hm : lastStatus S = .valid) (hidle : s.ram.writeBlockDirty = false) :
    wp (formatErasedPage g A.other) (fun r t => r = .proceed true ∧
      Repaired g A S (pad g [statusEntry .formatted]) t) s := by
  have hne := Page.other_ne hA
  rw [formatErasedPage]
  apply wp_bind_of (erase_never hf)
  rintro r t ⟨rfl, hram, hft, hflash⟩
  simp only [Bool.not_true, Bool.false_eq_true, if_false]
  have hidle' : t.ram.writeBlockDirty = false := by rw [hram, hidle]
  have hsees := sees_over (g := g) (s := t) (N := fun _ => []) (fun _ => .nil) hidle'
  have hagree := agree_over (D := (· = A.other)) (s := t) (N := fun _ => []) hft (by
    rintro p rfl
    rw [hflash, image_nil]
    exact if_pos rfl) hidle'
  apply wp_bind_of (wp_local (local_writePageStatus (D := (· = A.other)) rfl _) hagree
    (writePageStatus_spec hsees (x := .formatted) (by decide) trivial trivial))
  rintro r u ⟨⟨v, hend, ha⟩, hothers⟩
  rcases hend with ⟨rfl, hkept, _, _, hsees'⟩ | ⟨rfl, hnot⟩
  · have hstat : ∀ q, u.ram.pageStatusCache q =
        if q = A.other then .formatted else s.ram.pageStatusCache q := by
      intro q
      rw [ha.ram, hkept.statuses, ← hram]
      rfl
    have hlog : u.hwa.flash A = image S := by
      rw [hothers A hne.symm, hflash, ← hS]
      exact if_neg hne.symm
    have hspare : u.hwa.flash A.other = image (pad g [statusEntry .formatted]) := by
      rw [ha.flash _ rfl, hsees'.flash, Logs.flushed_none, Logs.marked, Logs.set_self,
        List.nil_append]
    have hvalid : u.ram.pageStatusCache A = .valid := by rw [hstat, if_neg hne.symm, hv]
    have hother : u.ram.pageStatusCache A.other = .formatted := by rw [hstat, if_pos rfl]
    exact ⟨rfl, ha.left, hA, hvalid, hother, hlog, hspare, wf,
      (wellFormed_statusBlock (x := .formatted) (by decide)).blocks, hm, lastStatus_append_statusEntry (S := []) (by decide)⟩
  · exact absurd hnot (not_notMarked rfl)

/-- An interrupted transfer is repeated, or the store is formatted. -/
theorem repeatTransfer_settles (hf : s.hwa.fails = never) (hA : A ≠ .factory)
    (hv : s.ram.pageStatusCache A = .valid) (ho : s.ram.pageStatusCache A.other = .receiving)
    (hS : s.hwa.flash A = image S) (wf : Blocks g S) :
    wp (repeatTransfer g A.other) (fun r t => r = .proceed false ∧ Settling g t) s := by
  have hne := Page.other_ne hA
  rw [repeatTransfer]
  apply wp_bind_of (erase_never hf)
  rintro r t ⟨rfl, hram, hft, hflash⟩
  simp only [Bool.not_true, Bool.false_eq_true, if_false]
  have hread : findValidPage t.ram.pageStatusCache .read = some A := by
    rw [hram]
    exact findValidPage_single hA hv (by rw [ho]; decide)
  have hlog : t.hwa.flash A = image S := by
    rw [hflash, ← hS]
    exact if_neg hne.symm
  by_cases hk : WellFormed g S
  · apply wp_bind_of (cache_image hk hlog hft hread)
    rintro r u ⟨c, ⟨rfl, rfl⟩ | ⟨rfl, hfault, _⟩⟩
    · have hcache : (t.ram.clearWriteBlock.clearCache.mirroring A S S.length).cache = mirror S := by
        show mirror (S.take S.length) = _
        rw [List.take_length]
      have hlogs : ∀ p, WellFormed g (Logs.set (fun _ => []) A S p) := by
        intro p
        by_cases hp : p = A
        · rw [hp, Logs.set_self]
          exact hk
        · rw [Logs.set_ne hp]
          exact .nil
      have hother : Logs.set (fun _ => []) A S A.other = [] := Logs.set_ne hne
      have hflash' : ∀ p, p ≠ .factory → t.hwa.flash p = image (Logs.set (fun _ => []) A S p) := by
        intro p hp
        rcases Page.runtime_cases hA hp with rfl | rfl
        · rw [Logs.set_self, hlog]
        · rw [hother, hflash, image_nil]
          exact if_pos rfl
      have hsees := sees_over (g := g) (s := State.atCalls ⟨t.ram.clearWriteBlock.clearCache.mirroring
        A S S.length, t.hwa⟩ c) hlogs rfl
      have hagree := agree_over (D := (· ≠ .factory)) (s := State.atCalls
        ⟨t.ram.clearWriteBlock.clearCache.mirroring A S S.length, t.hwa⟩ c) hft hflash' rfl
      have hroom := room_after_transfer (g := g) (mirror S)
      have hvals : copied (mirror S) (List.range g.maxAddress) = copied
          (t.ram.clearWriteBlock.clearCache.mirroring A S S.length).cache
          (List.range g.maxAddress) := by rw [hcache]
      have htransfer := pageTransfer_never hsees hread hvals (R := pad g [statusEntry .receiving])
        (by rw [Logs.flushed_none, hother, List.nil_append])
        (by rw [length_pad_status]; omega)
        ⟨trivial, fun _ _ => trivial, fun _ _ => trivial, fun _ _ => trivial, fun _ _ => trivial⟩
      apply wp_bind_of (wp_local (local_pageTransfer fun _ h => h) hagree htransfer)
      rintro r v ⟨⟨w, ⟨rfl, T, _, hs, hstat, hc, _, hn⟩, ha⟩, _⟩
      have hw := working_transferred hA hs hstat hn
      refine ⟨rfl, _, _, _, converged_of_agree hw.sees hw.runtime hw.valid hw.other hw.marked
        hw.spare ?_ (Or.inl ?_) ha⟩
      · rw [Logs.transferred_other hA, hc]
      · rw [Logs.transferred_other hA, hn]
    · exact absurd hfault not_readFault
  · apply wp_bind_of (cache_known wf hlog hft hread)
    rintro r u ⟨⟨hu, _⟩, hwf⟩
    cases r with
    | true => exact absurd (hwf rfl) hk
    | false => exact reformat_settles hu false

/-- `init` repairs every pair of page statuses. -/
theorem repair_settles (hf : s.hwa.fails = never) (h : Prefixed g M s.hwa.flash)
    (hs : ∀ p, p ≠ .factory → s.ram.pageStatusCache p = lastStatus (M p))
    (hidle : s.ram.writeBlockDirty = false) :
    wp (repair g) (fun r t => r = true ∧ Settling g t) s := by
  rw [repair, wp_bind, wp_get]
  dsimp only
  by_cases hvalid : ∃ A, A ≠ .factory ∧ s.ram.pageStatusCache A = .valid
  · obtain ⟨A, hA, hv⟩ := hvalid
    have hm : lastStatus (M A) = .valid := (hs A hA).symm.trans hv
    have ho := hs A.other Page.other_runtime
    rw [repairPages_valid hA hv]
    cases hx : s.ram.pageStatusCache A.other with
    | valid =>
      apply wp_bind_of (reformat_settles hf true)
      rintro r t ⟨rfl, _, _, _, ht⟩
      exact cache_or_format ht.toRepaired
    | erased =>
      apply wp_bind_of (formatErasedPage_repaired hf hA hv (h.image A hA) (h.blocks A hA) hm hidle)
      rintro r t ⟨rfl, ht⟩
      exact cache_or_format ht
    | formatted =>
      exact cache_or_format ⟨hf, hA, hv, hx, h.image A hA, h.image _ Page.other_runtime,
        h.blocks A hA, h.blocks _ Page.other_runtime, hm, ho.symm.trans hx⟩
    | receiving =>
      apply wp_bind_of (repeatTransfer_settles hf hA hv hx (h.image A hA) (h.blocks A hA))
      rintro r t ⟨rfl, ht⟩
      exact ⟨rfl, ht⟩
  · have hnone : ∀ A, A ≠ .factory → s.ram.pageStatusCache A ≠ .valid := fun A hA hv =>
      hvalid ⟨A, hA, hv⟩
    rw [repairPages_none (hnone .page1 (by decide)) (hnone .page2 (by decide))]
    apply wp_bind_of (reformat_settles hf false)
    rintro r t ⟨rfl, ht⟩
    exact ⟨rfl, ht⟩

/-- The logs of the runtime pages of a repaired store. -/
theorem Repaired.prefixed (h : Repaired g A S N s) :
    Prefixed g ((Logs.set (fun _ => []) A.other N).set A S) s.hwa.flash := by
  have hne := Page.other_ne h.runtime
  constructor
  · intro p hp
    rcases Page.runtime_cases h.runtime hp with rfl | rfl
    · rw [Logs.set_self, h.log]
    · rw [Logs.set_ne hne, Logs.set_self, h.spare]
  · intro p hp
    rcases Page.runtime_cases h.runtime hp with rfl | rfl
    · rw [Logs.set_self]
      exact h.blocks
    · rw [Logs.set_ne hne, Logs.set_self]
      exact h.spareBlocks

/-- A second `init` finds nothing to repair. -/
theorem Converged.init (h : Converged g A S N s) (ram : Ram) :
    wp (init g) (fun r t => r = true ∧ t.hwa.flash = s.hwa.flash ∧ t.hwa.trace = s.hwa.trace ∧
      Converged g A S N t) ⟨ram, s.hwa⟩ := by
  have hne := Page.other_ne h.runtime
  have hpre := h.prefixed
  apply init_recognizes (s := ⟨ram, s.hwa⟩) h.faults hpre
  intro t ht
  have hv : t.ram.pageStatusCache A = .valid := by
    rw [ht.statuses A h.runtime, Logs.set_self, h.marked]
  have ho : t.ram.pageStatusCache A.other = .formatted := by
    rw [ht.statuses _ Page.other_runtime, Logs.set_ne hne, Logs.set_self, h.spareMarked]
  have hrep : Repaired g A S N t := ⟨ht.faults, h.runtime, hv, ho,
    (congrFun ht.flash A).trans h.log, (congrFun ht.flash A.other).trans h.spare, h.blocks,
    h.spareBlocks, h.marked, h.spareMarked⟩
  rw [repair, wp_bind, wp_get]
  dsimp only
  rw [repairPages_valid h.runtime hv, ho]
  dsimp only
  rw [wp_bind, wp_pure]
  apply wp_bind_of (hrep.cache_image h.wellFormed)
  rintro r u ⟨rfl, hflash, htrace, hu⟩
  exact ⟨rfl, hflash.trans ht.flash, htrace.trans ht.trace, hu⟩

theorem Converged.pageStatus (h : Converged g A S N s) :
    (pageStatus g A s).1 = .valid ∧ (pageStatus g A.other s).1 = .formatted := by
  have hne := Page.other_ne h.runtime
  have hstatus : ∀ {p T}, Blocks g T → s.hwa.flash p = image T → OffsetOf s.ram p T →
      (EmuEeprom.pageStatus g p s).1 = lastStatus T := by
    intro p T wf hT hnext
    have hrefresh := refreshPageStatus_blocks wf hT h.faults hnext.covers
    have hwp : wp (EmuEeprom.pageStatus g p) (fun r _ => r = lastStatus T) s := by
      apply wp_bind_of hrefresh
      rintro r t ⟨rfl, n, ram, rfl, _⟩
      exact if_pos rfl
    exact hwp
  constructor
  · rw [hstatus h.blocks h.log, h.marked]
    intro hpage
    rcases h.next with hn | hn
    · exact .inr (by rw [hn])
    · exact .inl hn
  · rw [hstatus h.spareBlocks h.spare, h.spareMarked]
    intro hpage
    rcases h.next with hn | hn
    · rw [hn] at hpage
      exact absurd hpage.symm hne
    · exact .inl hn

/-- The programmed write blocks of a page, whatever is in them, come before its erased ones; what
lies behind the page reads as erased. -/
def ProgrammedFirst (g : Geometry) (data : Nat → UInt8) : Prop :=
  ∃ n, n * g.writeBlockSize ≤ g.pageSize ∧
    (∀ k < n, ∃ i < g.writeBlockSize, data (k * g.writeBlockSize + i) ≠ erasedByte) ∧
    ∀ i, n * g.writeBlockSize ≤ i → data i = erasedByte

theorem ProgrammedFirst.blocks {data : Nat → UInt8} (h : ProgrammedFirst g data) :
    ∃ S, data = image S ∧ Blocks g S := by
  obtain ⟨n, hn, hused, herased⟩ := h
  have hb := g.writeBlockSize_eq
  have hsize := g.pageSize_eq
  have hmul : n * g.writeBlockSize = 4 * (n * g.entriesPerBlock) := by rw [hb, Nat.mul_left_comm]
  rw [hmul] at hn herased
  have himage := image_entriesOf herased
  refine ⟨entriesOf data (n * g.entriesPerBlock), himage.symm, ?_, ?_, ?_⟩
  · rw [length_entriesOf]
    exact ⟨n, Nat.mul_comm ..⟩
  · rw [length_entriesOf]
    omega
  · intro k hk
    rw [length_entriesOf] at hk
    obtain ⟨i, hi, hne⟩ := hused k (Nat.lt_of_mul_lt_mul_right hk)
    refine ⟨i / 4, by omega, fun he => hne ?_⟩
    have hpos : k * g.writeBlockSize + i = 4 * (k * g.entriesPerBlock + i / 4) + i % 4 := by
      rw [hb, Nat.mul_left_comm]
      omega
    rw [← himage, hpos, image_slot _ _ (Nat.mod_lt i (by omega)), he,
      serializeEntry_erased (Nat.mod_lt i (by omega))]

theorem prefixed_of_programmedFirst {flash : Flash}
    (h : ∀ p, p ≠ .factory → ProgrammedFirst g (flash p)) : ∃ M, Prefixed g M flash := by
  obtain ⟨S, hS, hS'⟩ := (h .page1 nofun).blocks
  obtain ⟨N, hN, hN'⟩ := (h .page2 nofun).blocks
  refine ⟨fun p => if p = .page1 then S else N, fun p hp => ?_, fun p hp => ?_⟩
  · cases p with
    | page1 => exact hS
    | page2 => exact hN
    | factory => exact absurd rfl hp
  · cases p with
    | page1 => exact hS'
    | page2 => exact hN'
    | factory => exact absurd rfl hp

theorem init_settles (hf : s.hwa.fails = never)
    (h : ∀ p, p ≠ .factory → ProgrammedFirst g (s.hwa.flash p)) :
    wp (init g) (fun r t => r = true ∧ Settling g t) s := by
  obtain ⟨M, hM⟩ := prefixed_of_programmedFirst h
  apply init_recognizes hf hM
  intro t ht
  exact repair_settles ht.faults (ht.flash.symm ▸ hM) ht.statuses ht.idle

/-- Another start, from any members, erases and writes nothing and mirrors the same values. -/
def RestartsAlike (g : Geometry) (t : State) : Prop :=
  ∀ ram, (init g ⟨ram, t.hwa⟩).1 = true ∧
    (init g ⟨ram, t.hwa⟩).2.hwa.trace = t.hwa.trace ∧
    (init g ⟨ram, t.hwa⟩).2.hwa.flash = t.hwa.flash ∧
    (init g ⟨ram, t.hwa⟩).2.ram.cache = t.ram.cache

/-- One runtime page is valid and the other formatted, as cached and as scanned for again. -/
def OneValid (g : Geometry) (t : State) : Prop :=
  ∃ A, A ≠ .factory ∧
    t.ram.pageStatusCache A = .valid ∧ t.ram.pageStatusCache A.other = .formatted ∧
    (pageStatus g A t).1 = .valid ∧ (pageStatus g A.other t).1 = .formatted

/-- Over a backend that never fails `init` repairs any flash whose programmed blocks come first,
and what it leaves it does not change again. -/
theorem init_converges (hf : s.hwa.fails = never)
    (h : ∀ p, p ≠ .factory → ProgrammedFirst g (s.hwa.flash p)) :
    (init g s).1 = true ∧ OneValid g (init g s).2 ∧ RestartsAlike g (init g s).2 := by
  obtain ⟨hr, A, S, N, ht⟩ := init_settles hf h
  refine ⟨hr, ⟨A, ht.runtime, ht.valid, ht.other, ht.pageStatus⟩, fun ram => ?_⟩
  obtain ⟨hr', hflash, htrace, hu⟩ := ht.init ram
  exact ⟨hr', htrace, hflash, hu.cache.trans ht.cache.symm⟩

/-- A flash on which a transfer into page 2 was interrupted. -/
def interruptedFlash : Flash := fun p =>
  image (pad smallGeometry [statusEntry (if p = .page1 then .valid else .receiving)])

theorem interrupted_init_converges :
    let s : State := ⟨{}, ⟨interruptedFlash, never, 0, []⟩⟩
    (init smallGeometry s).1 = true ∧ OneValid smallGeometry (init smallGeometry s).2 ∧
      RestartsAlike smallGeometry (init smallGeometry s).2 := by
  refine init_converges rfl fun p _ => ⟨1, by decide, fun k hk => ⟨0, by decide, ?_⟩, fun i hi => ?_⟩
  · obtain rfl : k = 0 := by omega
    cases p <;> decide
  · exact image_beyond (by rw [length_pad_status]; exact hi)

end Zlibs.EmuEeprom
