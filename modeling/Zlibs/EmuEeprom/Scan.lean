import Zlibs.EmuEeprom.View

/-! The functions that only read the flash find what the logs say. -/
namespace Zlibs.EmuEeprom

open Zlibs.Lib

variable {g : Geometry} {f : Faults} {K : Logs → Prop} {L : Logs}
  {st : Option (Page × List Entry)} {s : State} {S T : List Entry} {p : Page} {a : Nat}

/-- The offset of the first free block, if the page has one. -/
def freeOffset (g : Geometry) (S : List Entry) : Option Nat :=
  if S.length < g.pageEntries then some (4 * S.length) else none

/-- Write blocks of the page that come before read block `i`, counted in entries. -/
def entriesBefore (g : Geometry) (i : Nat) : Nat := i * (g.entriesPerBlock * g.blocksPerRead)

theorem readBlock_offset (i : Nat) : i * g.readBlockSize = 4 * entriesBefore g i := by
  rw [g.readBlockSize_eq, entriesBefore, Nat.mul_left_comm]

theorem entriesBefore_succ (i : Nat) :
    entriesBefore g (i + 1) = entriesBefore g i + g.entriesPerBlock * g.blocksPerRead :=
  Nat.succ_mul ..

theorem entriesBefore_pageReads : entriesBefore g g.pageReads = g.pageEntries := by
  rw [entriesBefore, g.pageEntries_eq, Nat.mul_comm]

/-- The write block `j` of read block `i` starts at this entry. -/
theorem writeBlock_entry (i j : Nat) :
    entriesBefore g i + j * g.entriesPerBlock = (i * g.blocksPerRead + j) * g.entriesPerBlock := by
  rw [entriesBefore, Nat.add_mul, Nat.mul_assoc, Nat.mul_comm g.entriesPerBlock]

/-- A block of a log is erased exactly beyond the log's end. -/
theorem Blocks.erased_block_iff (h : Blocks g S) {k : Nat} :
    (∀ j < g.entriesPerBlock, S.getD (k * g.entriesPerBlock + j) erasedEntry = erasedEntry) ↔
      S.length ≤ k * g.entriesPerBlock := by
  constructor
  · intro he
    by_contra hlt
    obtain ⟨j, hj, hne⟩ := h.used k (by omega)
    exact hne (he j hj)
  · intro hle j _
    exact List.getD_eq_default _ _ (by omega)

theorem allErased_writeBlock (wf : Blocks g S) {buffer : Span} {i j : Nat}
    (hb : ∀ k < g.readBlockSize, buffer.data k = image S (i * g.readBlockSize + k))
    (hj : j < g.blocksPerRead) :
    allErased (buffer.subspan (j * g.writeBlockSize) g.writeBlockSize) = true ↔
      S.length ≤ entriesBefore g i + j * g.entriesPerBlock := by
  rw [writeBlock_entry, ← wf.erased_block_iff]
  apply allErased_image g.writeBlockSize_eq
  intro k hk
  have hin : j * g.writeBlockSize + k < g.readBlockSize := by
    have := Nat.mul_le_mul_right g.writeBlockSize (Nat.succ_le_of_lt hj)
    rw [Nat.succ_mul] at this
    have := g.writeBlockSize_eq
    have := g.readBlockSize_eq
    rw [Nat.mul_comm g.blocksPerRead, g.writeBlockSize_eq, Nat.mul_assoc] at *
    omega
  simp only [Span.subspan]
  rw [hb _ hin, readBlock_offset, ← writeBlock_entry, g.writeBlockSize_eq, Nat.mul_left_comm j]
  congr 1
  omega

/-- Read block `i` shows the end of the log when the log ends in it. -/
theorem erasedBlockIn_eq (wf : Blocks g S) {b : Span} {i : Nat}
    (hb : ∀ k < g.readBlockSize, b.data k = image S (i * g.readBlockSize + k))
    (hi : entriesBefore g i ≤ S.length) :
    erasedBlockIn g b (i * g.readBlockSize) =
      if S.length < entriesBefore g (i + 1) then some (4 * S.length) else none := by
  have hpos := g.entriesPerBlock_pos
  obtain ⟨q, hq⟩ := wf.aligned
  have hblock : ∀ j < g.blocksPerRead,
      allErased (b.subspan (j * g.writeBlockSize) g.writeBlockSize) = true ↔
        q ≤ i * g.blocksPerRead + j := by
    intro j hj
    rw [allErased_writeBlock wf hb hj, writeBlock_entry, hq, Nat.mul_comm,
      Nat.mul_le_mul_right_iff hpos]
  have hfrom : i * g.blocksPerRead ≤ q := by
    rw [entriesBefore, hq, Nat.mul_left_comm, Nat.mul_le_mul_left_iff hpos] at hi
    exact hi
  have hto : S.length < entriesBefore g (i + 1) ↔ q < i * g.blocksPerRead + g.blocksPerRead := by
    rw [entriesBefore, hq, Nat.mul_left_comm, Nat.mul_lt_mul_left hpos, Nat.succ_mul]
  rw [erasedBlockIn, Geometry.withinReadBlock, ← Geometry.blocksPerRead, List.find?_map]
  split
  case isTrue hlt =>
    have hfind : (List.range g.blocksPerRead).find?
        ((fun within => allErased (b.subspan within g.writeBlockSize)) ∘
          (· * g.writeBlockSize)) = some (q - i * g.blocksPerRead) := by
      rw [List.find?_range_eq_some]
      refine ⟨(hblock _ (by omega)).mpr (by omega), List.mem_range.mpr (by omega), ?_⟩
      intro j hj
      simp only [Function.comp, Bool.not_eq_true', ← Bool.not_eq_true, hblock j (by omega)]
      omega
    rw [hfind, Option.map_some, Option.map_some, readBlock_offset, g.writeBlockSize_eq,
      Nat.mul_left_comm, ← Nat.mul_add, writeBlock_entry, Nat.add_sub_cancel' hfrom, hq,
      Nat.mul_comm q]
  case isFalse hge =>
    have hfind : (List.range g.blocksPerRead).find?
        ((fun within => allErased (b.subspan within g.writeBlockSize)) ∘
          (· * g.writeBlockSize)) = none := by
      rw [List.find?_range_eq_none]
      intro j hj
      simp only [Function.comp, Bool.not_eq_true', ← Bool.not_eq_true, hblock j hj]
      omega
    rw [hfind, Option.map_none, Option.map_none]

theorem scanErasedBlock_from (wf : Blocks g S) (n i : Nat) (hn : i + n = g.pageReads)
    (hi : entriesBefore g i ≤ S.length) (hS : s.hwa.flash p = image S) (hf : s.hwa.fails = f) :
    wp (scanErasedBlock g p ((List.range' i n).map (· * g.readBlockSize)))
      (fun r t => (∃ k, t = s.atCalls k) ∧
        (r = some (freeOffset g S) ∨ r = none ∧ ReadFault f)) s := by
  induction n generalizing i s with
  | zero =>
    refine ⟨⟨_, s.atCalls_self.symm⟩, Or.inl ?_⟩
    have : i = g.pageReads := by omega
    subst this
    rw [entriesBefore_pageReads] at hi
    show some none = _
    rw [freeOffset, if_neg (by omega)]
  | succ n ih =>
    rw [List.range'_succ, List.map_cons, scanErasedBlock]
    apply wp_bind_of (hwaRead_spec hf _ _)
    rintro r t ⟨rfl, rfl | ⟨rfl, k, hk⟩⟩
    · have hb := erasedBlockIn_eq wf (i := i)
        (b := ⟨g.readBlockSize, fun k => s.hwa.flash p (i * g.readBlockSize + k)⟩)
        (fun k _ => by rw [← hS]) hi
      by_cases hlt : S.length < entriesBefore g (i + 1)
      · rw [if_pos hlt] at hb
        simp only [hb]
        refine ⟨⟨_, rfl⟩, Or.inl ?_⟩
        have hle : entriesBefore g (i + 1) ≤ g.pageEntries := by
          rw [← entriesBefore_pageReads]
          exact Nat.mul_le_mul_right _ (by omega)
        show some (some _) = _
        rw [freeOffset, if_pos (by omega)]
      · rw [if_neg hlt] at hb
        simp only [hb]
        apply wp_mono (ih (s := s.atCalls (s.hwa.calls + 1)) (i + 1) (by omega) (by omega) hS hf)
        rintro r t ⟨⟨k, rfl⟩, hr⟩
        exact ⟨⟨k, rfl⟩, hr⟩
    · exact ⟨⟨_, rfl⟩, Or.inr ⟨rfl, k, p, _, _, hk⟩⟩

theorem scanErasedBlock_spec (h : Sees g f K L st s) (p : Page) :
    wp (scanErasedBlock g p g.readOffsets) (fun r t => (∃ k, t = s.atCalls k) ∧
      (r = some (freeOffset g (L p)) ∨ r = none ∧ ReadFault f)) s := by
  rw [Geometry.readOffsets, List.range_eq_range']
  exact scanErasedBlock_from (h.wf p).blocks g.pageReads 0 (by omega) (by simp [entriesBefore])
    (h.flash p) h.faults

theorem findNextFreeOffset_spec (h : Sees g f K L st s) (p : Page) :
    wp (findNextFreeOffset g p) (fun r t => (∃ k, t = s.atCalls k) ∧
      (r = freeOffset g (L p) ∨ r = none ∧ ReadFault f)) s := by
  apply wp_bind_of (scanErasedBlock_spec h p)
  rintro r t ⟨ht, rfl | ⟨rfl, hf⟩⟩
  · exact ⟨ht, Or.inl rfl⟩
  · exact ⟨ht, Or.inr ⟨rfl, hf⟩⟩

/-- The first free offset, or the page size when the page is full: four bytes an entry. -/
theorem refreshNextWriteOffset_spec (h : Sees g f K L st s) (p : Page) :
    wp (refreshNextWriteOffset g p) (fun r t => (∃ k,
      (r = true ∧ t = { s with ram := s.ram.setNextWriteOffset p (4 * (L p).length) }.atCalls k) ∨
      (r = false ∧ ReadFault f ∧ t = s.atCalls k))) s := by
  apply wp_bind_of (scanErasedBlock_spec h p)
  rintro r t ⟨⟨k, rfl⟩, rfl | ⟨rfl, hf⟩⟩
  · have hfits := (h.wf p).fits
    have hsize := g.pageSize_eq
    by_cases hlt : (L p).length < g.pageEntries
    · rw [freeOffset, if_pos hlt]
      exact ⟨k, Or.inl ⟨rfl, rfl⟩⟩
    · have hfull : g.pageSize = 4 * (L p).length := by omega
      rw [freeOffset, if_neg hlt, ← hfull]
      exact ⟨k, Or.inl ⟨rfl, rfl⟩⟩
  · exact ⟨k, Or.inr ⟨rfl, hf, rfl⟩⟩

/-- The first `n` slots of a page, used or not. -/
def slots (S : List Entry) (n : Nat) : List Entry := (List.range n).map (S.getD · erasedEntry)

theorem slots_eq (S : List Entry) (n : Nat) :
    slots S n = S.take n ++ List.replicate (n - S.length) erasedEntry := by
  apply List.ext_getElem
  · simp [slots]
    omega
  · intro i h _
    rw [slots, List.length_map, List.length_range] at h
    simp only [slots, List.getElem_map, List.getElem_range, List.getD_eq_getElem?_getD,
      List.getElem_append, List.length_take, List.getElem_take, List.getElem_replicate]
    split
    · rw [List.getElem?_eq_getElem (by omega), Option.getD_some]
    · rw [List.getElem?_eq_none (by omega), Option.getD_none]

theorem lastMatch_slots {β : Type} {key : Entry → Option β} (hk : key erasedEntry = none)
    (n : Nat) : lastMatch key (slots S n) = lastMatch key (S.take n) := by
  rw [slots_eq, lastMatch_append, lastMatch_replicate_none hk, Option.none_or]

theorem slots_add (m n : Nat) :
    slots S (m + n) = slots S m ++ (List.range n).map fun k => S.getD (m + k) erasedEntry := by
  simp [slots, List.range_add, Function.comp_def]

theorem statusIn_eq {buffer : Span} {m k : Nat}
    (hb : ∀ i < 4 * (k + 1), buffer.data i = image S (4 * m + i)) :
    statusIn buffer (4 * k) =
      lastMatch statusOf ((List.range (k + 1)).map fun j => S.getD (m + j) erasedEntry) := by
  have hk : 4 * k / serializedEntrySize = k := by simp
  have hz : 4 * k % serializedEntrySize = 0 := by simp
  have hm : statusIn buffer (4 * k) =
      lastMatch statusOf ((List.range (k + 1)).map fun j => deserializeEntry
        (buffer.subspan (0 + j * serializedEntrySize) serializedEntrySize)) := by
    rw [statusIn, hk, hz, lastMatch, ← List.map_reverse, List.findSome?_map]
    rfl
  rw [hm]
  congr 1
  apply List.map_congr_left
  intro j hj
  rw [List.mem_range] at hj
  simp only [serializedEntrySize, Nat.zero_add]
  apply deserializeEntry_image
  intro i hi
  simp only [Span.subspan]
  rw [hb _ (by omega)]
  congr 1
  omega

/-- The downward scan finds the last status record at or below the entry it starts from. -/
theorem scanPageStatus_from (hS : s.hwa.flash p = image S) (hf : s.hwa.fails = f)
    (blocks k : Nat) (hk : 4 * k / g.readBlockSize = blocks) :
    wp (scanPageStatus g p blocks (4 * k)) (fun r t => (∃ n, t = s.atCalls n) ∧
      (r = some (lastStatus (S.take (k + 1))) ∨ r = none ∧ ReadFault f)) s := by
  induction blocks generalizing k s with
  | zero =>
    have hlt : 4 * k < 256 := by
      simp only [Geometry.readBlockSize, internalBlockSize] at hk
      omega
    rw [scanPageStatus]
    apply wp_bind_of (hwaRead_spec hf _ _)
    rintro r t ⟨rfl, rfl | ⟨rfl, n, hn⟩⟩
    · have hs : statusIn ⟨g.readBlockSize, fun i => s.hwa.flash p
          (4 * k / g.readBlockSize * g.readBlockSize + i)⟩
          (4 * k - 4 * k / g.readBlockSize * g.readBlockSize) =
          lastMatch statusOf (S.take (k + 1)) := by
        rw [hk, Nat.zero_mul, Nat.sub_zero, statusIn_eq (S := S) (m := 0)]
        · simp only [Nat.zero_add]
          exact lastMatch_slots statusOf_erasedEntry (k + 1)
        · intro i _
          simp [hS]
      simp only [hs, lastStatus]
      cases lastMatch statusOf (S.take (k + 1)) with
      | none => exact ⟨⟨_, rfl⟩, Or.inl rfl⟩
      | some status => exact ⟨⟨_, rfl⟩, Or.inl rfl⟩
    · exact ⟨⟨_, rfl⟩, Or.inr ⟨rfl, n, p, _, _, hn⟩⟩
  | succ blocks ih =>
    have hr : g.readBlockSize = 256 := rfl
    have hq : 4 * k / 256 = blocks + 1 := hk
    rw [scanPageStatus]
    apply wp_bind_of (hwaRead_spec hf _ _)
    rintro r t ⟨rfl, rfl | ⟨rfl, n, hn⟩⟩
    · have hm : 64 * (blocks + 1) ≤ k := by omega
      have hoff : 4 * k / g.readBlockSize * g.readBlockSize = 4 * (64 * (blocks + 1)) := by
        rw [hk, hr]
        omega
      have hw : 4 * k - 4 * (64 * (blocks + 1)) = 4 * (k - 64 * (blocks + 1)) := by omega
      have hs : statusIn ⟨g.readBlockSize, fun i => s.hwa.flash p (4 * (64 * (blocks + 1)) + i)⟩
          (4 * k - 4 * (64 * (blocks + 1))) =
          lastMatch statusOf ((List.range (k - 64 * (blocks + 1) + 1)).map
            fun j => S.getD (64 * (blocks + 1) + j) erasedEntry) := by
        rw [hw]
        apply statusIn_eq
        intro i _
        simp [hS]
      have hsplit : k + 1 = 64 * (blocks + 1) + (k - 64 * (blocks + 1) + 1) := by omega
      have hlast : lastMatch statusOf (S.take (k + 1)) =
          (lastMatch statusOf ((List.range (k - 64 * (blocks + 1) + 1)).map
            fun j => S.getD (64 * (blocks + 1) + j) erasedEntry)).or
          (lastMatch statusOf (S.take (64 * (blocks + 1)))) := by
        rw [← lastMatch_slots statusOf_erasedEntry, hsplit, slots_add, lastMatch_append,
          lastMatch_slots statusOf_erasedEntry]
      simp only [hoff, hs]
      cases hc : lastMatch statusOf ((List.range (k - 64 * (blocks + 1) + 1)).map
        fun j => S.getD (64 * (blocks + 1) + j) erasedEntry) with
      | some status =>
        rw [hc, Option.some_or] at hlast
        refine ⟨⟨_, rfl⟩, Or.inl ?_⟩
        show some status = _
        rw [lastStatus, hlast, Option.getD_some]
      | none =>
        rw [hc, Option.none_or] at hlast
        have hnext : 4 * (64 * (blocks + 1)) - serializedEntrySize =
            4 * (64 * (blocks + 1) - 1) := by
          simp only [serializedEntrySize]
          omega
        simp only [hnext]
        apply wp_mono (ih (s := s.atCalls (s.hwa.calls + 1)) hS hf (64 * (blocks + 1) - 1)
          (by rw [hr]; omega))
        rintro r t ⟨⟨n, rfl⟩, hr⟩
        have hone : 64 * (blocks + 1) - 1 + 1 = 64 * (blocks + 1) := by omega
        rw [lastStatus, hlast, ← lastStatus]
        rw [hone] at hr
        exact ⟨⟨n, rfl⟩, hr⟩
    · exact ⟨⟨_, rfl⟩, Or.inr ⟨rfl, n, p, _, _, hn⟩⟩

theorem refreshPageStatusFrom_spec (h : Sees g f K L st s) (p : Page) (k : Nat) :
    wp (refreshPageStatusFrom g p (4 * k)) (fun r t => ∃ n,
      (r = true ∧
        t = { s with ram := s.ram.setPageStatus p (lastStatus ((L p).take (k + 1))) }.atCalls n) ∨
      (r = false ∧ ReadFault f ∧ t = s.atCalls n)) s := by
  apply wp_bind_of (scanPageStatus_from (h.flash p) h.faults _ k rfl)
  rintro r t ⟨⟨n, rfl⟩, rfl | ⟨rfl, hf⟩⟩
  · exact ⟨n, Or.inl ⟨rfl, rfl⟩⟩
  · exact ⟨n, Or.inr ⟨rfl, hf, rfl⟩⟩

theorem scanPageStatus_calls (hf : s.hwa.fails = f) (blocks offset : Nat) :
    wp (scanPageStatus g p blocks offset) (fun r t => (∃ n, t = s.atCalls n) ∧
      (r = none → ReadFault f)) s := by
  induction blocks generalizing offset s with
  | zero =>
    rw [scanPageStatus]
    apply wp_bind_of (hwaRead_spec hf _ _)
    rintro r t ⟨rfl, rfl | ⟨rfl, n, hn⟩⟩
    · simp only
      split
      · exact ⟨⟨_, rfl⟩, fun h => by cases h⟩
      · exact ⟨⟨_, rfl⟩, fun h => by cases h⟩
    · exact ⟨⟨_, rfl⟩, fun _ => ⟨n, p, _, _, hn⟩⟩
  | succ blocks ih =>
    rw [scanPageStatus]
    apply wp_bind_of (hwaRead_spec hf _ _)
    rintro r t ⟨rfl, rfl | ⟨rfl, n, hn⟩⟩
    · simp only
      split
      · exact ⟨⟨_, rfl⟩, fun h => by cases h⟩
      · apply wp_mono (ih (s := s.atCalls (s.hwa.calls + 1)) hf _)
        rintro r t ⟨⟨k, rfl⟩, hr⟩
        exact ⟨⟨k, rfl⟩, hr⟩
    · exact ⟨⟨_, rfl⟩, fun _ => ⟨n, p, _, _, hn⟩⟩

/-- The cached offset of a page the status scan starts below lies behind its status records. -/
def StatusBelowNext (ram : Ram) (L : Logs) (p : Page) : Prop :=
  findValidPage ram.pageStatusCache .write = some p → ram.nextWriteOffsetCache.page = p →
    ram.nextWriteOffsetCache.offset ≠ 0 →
      ∃ k, ram.nextWriteOffsetCache.offset = 4 * k ∧ lastStatus ((L p).take k) = lastStatus (L p)

/-- A page whose cached offset is not known is scanned for it when it is the page to write. -/
def Located (ram : Ram) (L : Logs) (p : Page) (located : Ram) : Prop :=
  located = ram ∨
    (findValidPage ram.pageStatusCache .write = some p ∧
      (ram.nextWriteOffsetCache.page ≠ p ∨ ram.nextWriteOffsetCache.offset = 0) ∧
      located = ram.setNextWriteOffset p (4 * (L p).length))

theorem refreshPageStatusFrom_calls (hf : s.hwa.fails = f) (offset : Nat) :
    wp (refreshPageStatusFrom g p offset) (fun r t => ∃ n,
      (∃ status, r = true ∧ t = { s with ram := s.ram.setPageStatus p status }.atCalls n) ∨
      (r = false ∧ ReadFault f ∧ t = s.atCalls n)) s := by
  apply wp_bind_of (scanPageStatus_calls hf _ _)
  rintro r t ⟨⟨n, rfl⟩, hr⟩
  cases r with
  | none => exact ⟨n, Or.inr ⟨rfl, hr rfl, rfl⟩⟩
  | some status => exact ⟨n, Or.inl ⟨status, rfl, rfl⟩⟩

theorem pageEntries_pos : 0 < g.pageEntries := by
  have := g.page_pos
  have := g.pageSize_eq
  omega

theorem refreshPageStatusFrom_top (h : Sees g f K L st s) (p : Page) :
    wp (refreshPageStatusFrom g p (g.pageSize - serializedEntrySize)) (fun r t => ∃ n,
      (r = true ∧
        t = { s with ram := s.ram.setPageStatus p (lastStatus (L p)) }.atCalls n) ∨
      (r = false ∧ ReadFault f ∧ t = s.atCalls n)) s := by
  have hpos := pageEntries_pos (g := g)
  have htop : g.pageSize - serializedEntrySize = 4 * (g.pageEntries - 1) := by
    rw [g.pageSize_eq, serializedEntrySize]
    omega
  have hall : (L p).take (g.pageEntries - 1 + 1) = L p :=
    List.take_of_length_le (by have := (h.wf p).fits; omega)
  rw [htop]
  have hscan := refreshPageStatusFrom_spec h p (g.pageEntries - 1)
  rwa [hall] at hscan

theorem refreshPageStatus_spec (h : Sees g f K L st s) (p : Page) :
    wp (refreshPageStatus g p) (fun r t => ∃ n ram, Located s.ram L p ram ∧
      ((∃ status, r = true ∧ t = { s with ram := ram.setPageStatus p status }.atCalls n ∧
          (StatusBelowNext s.ram L p → status = lastStatus (L p))) ∨
        (r = false ∧ ReadFault f ∧ t = { s with ram := ram }.atCalls n))) s := by
  have htop : ∀ {u : State} {ram : Ram}, Sees g f K L st u → Located s.ram L p ram →
      (∃ m, u = { s with ram := ram }.atCalls m) →
      wp (refreshPageStatusFrom g p (g.pageSize - serializedEntrySize)) (fun r t => ∃ n ram,
        Located s.ram L p ram ∧
        ((∃ status, r = true ∧ t = { s with ram := ram.setPageStatus p status }.atCalls n ∧
            (StatusBelowNext s.ram L p → status = lastStatus (L p))) ∨
          (r = false ∧ ReadFault f ∧ t = { s with ram := ram }.atCalls n))) u := by
    rintro u ram hu hram ⟨m, rfl⟩
    apply wp_mono (refreshPageStatusFrom_top hu p)
    rintro r t ⟨n, ⟨rfl, rfl⟩ | ⟨rfl, hf, rfl⟩⟩
    · exact ⟨n, ram, hram, Or.inl ⟨_, rfl, rfl, fun _ => rfl⟩⟩
    · exact ⟨n, ram, hram, Or.inr ⟨rfl, hf, rfl⟩⟩
  rw [refreshPageStatus, wp_bind, wp_get]
  apply wp_ite
  · intro hw
    apply wp_ite
    · -- the offset is scanned for first
      intro hn
      apply wp_bind_of (refreshNextWriteOffset_spec h p)
      rintro r t ⟨k, ⟨rfl, rfl⟩ | ⟨rfl, hf, rfl⟩⟩
      · have hloc : Located s.ram L p (s.ram.setNextWriteOffset p (4 * (L p).length)) :=
          Or.inr ⟨hw, hn, rfl⟩
        have hsees : Sees g f K L st
            { s with ram := s.ram.setNextWriteOffset p (4 * (L p).length) } :=
          h.withRam (by cases st <;> exact h.staged)
        simp only [Bool.not_true, Bool.false_eq_true, if_false, wp_bind, wp_get]
        apply wp_ite
        · intro hpos
          obtain ⟨j, hj⟩ : ∃ j, (L p).length = j + 1 :=
            Nat.exists_eq_succ_of_ne_zero (by
              rintro h0
              rw [h0] at hpos
              exact absurd hpos (by simp [Ram.setNextWriteOffset]))
          have hfits := (h.wf p).fits
          have hoff : min (4 * (L p).length) g.pageSize - serializedEntrySize = 4 * j := by
            rw [g.pageSize_eq, serializedEntrySize]
            omega
          have hall : (L p).take (j + 1) = L p := List.take_of_length_le (by omega)
          have hscan := refreshPageStatusFrom_spec (hsees.atCalls k) p j
          rw [hall] at hscan
          show wp (refreshPageStatusFrom g p
            (min (4 * (L p).length) g.pageSize - serializedEntrySize)) _ _
          rw [hoff]
          apply wp_mono hscan
          rintro r t ⟨n, ⟨rfl, rfl⟩ | ⟨rfl, hf, rfl⟩⟩
          · exact ⟨n, _, hloc, Or.inl ⟨_, rfl, rfl, fun _ => rfl⟩⟩
          · exact ⟨n, _, hloc, Or.inr ⟨rfl, hf, rfl⟩⟩
        · intro _
          exact htop (hsees.atCalls k) hloc ⟨k, rfl⟩
      · exact ⟨k, s.ram, Or.inl rfl, Or.inr ⟨rfl, hf, rfl⟩⟩
    · intro hn
      rw [wp_bind, wp_get]
      have hpage : s.ram.nextWriteOffsetCache.page = p := by
        by_contra hne
        exact hn (Or.inl hne)
      have hoff : s.ram.nextWriteOffsetCache.offset ≠ 0 := fun h0 => hn (Or.inr h0)
      apply wp_ite
      · intro _
        by_cases hbelow : StatusBelowNext s.ram L p
        · obtain ⟨k, hk, hlast⟩ := hbelow hw hpage hoff
          obtain ⟨j, rfl⟩ : ∃ j, k = j + 1 := Nat.exists_eq_succ_of_ne_zero (by omega)
          have hfits := (h.wf p).fits
          have hpos := pageEntries_pos (g := g)
          have hmin : min s.ram.nextWriteOffsetCache.offset g.pageSize - serializedEntrySize =
              4 * (min (j + 1) g.pageEntries - 1) := by
            rw [g.pageSize_eq, serializedEntrySize, hk]
            omega
          have htake : (L p).take (min (j + 1) g.pageEntries - 1 + 1) = (L p).take (j + 1) := by
            rcases Nat.le_total (j + 1) g.pageEntries with hle | hle
            · congr 1
              omega
            · rw [List.take_of_length_le (by omega), List.take_of_length_le (by omega)]
          have hscan := refreshPageStatusFrom_spec h p (min (j + 1) g.pageEntries - 1)
          rw [htake, hlast] at hscan
          rw [hmin]
          apply wp_mono hscan
          rintro r t ⟨n, ⟨rfl, rfl⟩ | ⟨rfl, hf, rfl⟩⟩
          · exact ⟨n, _, Or.inl rfl, Or.inl ⟨_, rfl, rfl, fun _ => rfl⟩⟩
          · exact ⟨n, _, Or.inl rfl, Or.inr ⟨rfl, hf, rfl⟩⟩
        · apply wp_mono (refreshPageStatusFrom_calls h.faults _)
          rintro r t ⟨n, ⟨status, rfl, rfl⟩ | ⟨rfl, hf, rfl⟩⟩
          · exact ⟨n, _, Or.inl rfl, Or.inl ⟨_, rfl, rfl, fun hb => absurd hb hbelow⟩⟩
          · exact ⟨n, _, Or.inl rfl, Or.inr ⟨rfl, hf, rfl⟩⟩
      · intro hz
        exact absurd (Nat.pos_of_ne_zero hoff) hz
  · intro _
    exact htop h (Or.inl rfl) ⟨_, s.atCalls_self.symm⟩

end Zlibs.EmuEeprom
