import Zlibs.EmuEeprom.Scan

/-! The RAM mirror of the valid page: filling it, and reading through it. -/
namespace Zlibs.EmuEeprom

open Zlibs.Lib

variable {g : Geometry} {f : Faults} {K : Logs → Prop} {L : Logs}
  {st : Option (Page × List Entry)} {s : State} {S T : List Entry} {p : Page} {a : Nat}

/-- The mirror of a log; an address without a value mirrors as erased. -/
def mirror (S : List Entry) (a : Nat) : UInt16 := (lookup S a).getD erasedValue

theorem getD_erased_eq {n : Nat} (h : S.length ≤ n) : S.getD n erasedEntry = erasedEntry :=
  List.getD_eq_default _ _ h

theorem take_succ_getD {n : Nat} (h : n < S.length) :
    S.take (n + 1) = S.take n ++ [S.getD n erasedEntry] := by
  rw [List.take_succ_eq_append_getElem h, List.getD_eq_getElem?_getD, List.getElem?_eq_getElem h,
    Option.getD_some]

theorem lookup_take_succ {n : Nat} :
    lookup (S.take (n + 1)) a =
      (valueOf a (S.getD n erasedEntry)).or (lookup (S.take n) a) := by
  rcases Nat.lt_or_ge n S.length with h | h
  · rw [take_succ_getD h, lookup_concat]
  · rw [List.take_of_length_le h, List.take_of_length_le (by omega), getD_erased_eq h,
      valueOf_erasedEntry, Option.none_or]

theorem mirror_take_succ_of_none {n : Nat}
    (h : (S.getD n erasedEntry).address = reservedStatusAddress) :
    mirror (S.take (n + 1)) = mirror (S.take n) := by
  funext a
  rw [mirror, mirror, lookup_take_succ, valueOf, if_neg fun hc => hc.1 h, Option.none_or]

theorem mirror_take_succ {n : Nat} {e : Entry} (he : S.getD n erasedEntry = e)
    (h : e.address ≠ reservedStatusAddress) :
    mirror (S.take (n + 1)) =
      fun a => if a = e.address.toNat then e.value else mirror (S.take n) a := by
  funext a
  rw [mirror, lookup_take_succ, he, valueOf]
  by_cases ha : a = e.address.toNat
  · rw [if_pos ⟨h, ha.symm⟩, if_pos ha, Option.some_or, Option.getD_some]
  · rw [if_neg (fun hc => ha hc.2.symm), if_neg ha, Option.none_or, mirror]

theorem known_getD (wf : WellFormed g S) (n : Nat) : KnownAddress g (S.getD n erasedEntry) := by
  rcases Nat.lt_or_ge n S.length with h | h
  · rw [List.getD_eq_getElem?_getD, List.getElem?_eq_getElem h, Option.getD_some]
    exact wf.known _ (List.getElem_mem h)
  · rw [getD_erased_eq h]
    exact Or.inl rfl

def Ram.withMirror (ram : Ram) (S : List Entry) (n : Nat) : Ram :=
  { ram with cache := mirror (S.take n) }

/-- The members while `cache` has gone through the first `n` entries of a page. -/
def Ram.mirroring (ram : Ram) (p : Page) (S : List Entry) (n : Nat) : Ram :=
  (ram.withMirror S n).setNextWriteOffset p (4 * n)

theorem cacheEntries_spec (wf : WellFormed g S) {u : Span} {b m : Nat} (j cnt : Nat)
    (hb : ∀ k < 4 * (j + cnt), u.data (b + k) = image S (4 * m + k)) (ram : Ram)
    (hwa : Hwa) :
    wp (cacheEntries g u b (List.range' j cnt)) (fun r t =>
      r = true ∧ t = ⟨ram.withMirror S (m + j + cnt), hwa⟩) ⟨ram.withMirror S (m + j), hwa⟩ := by
  induction cnt generalizing j with
  | zero => exact ⟨rfl, rfl⟩
  | succ cnt ih =>
    have hdata : ∀ i < 4, (u.subspan (b + j * serializedEntrySize)
        serializedEntrySize).data i = image S (4 * (m + j) + i) := by
      intro i hi
      simp only [Span.subspan, serializedEntrySize]
      rw [Nat.add_assoc, hb _ (by omega)]
      congr 1
      omega
    have hentry := deserializeEntry_image hdata
    have hrest := ih (j + 1) fun k hk => hb k (by omega)
    have hidx : m + (j + 1) + cnt = m + j + (cnt + 1) := by omega
    rw [hidx, ← Nat.add_assoc] at hrest
    have hsame : (S.getD (m + j) erasedEntry).address = reservedStatusAddress →
        ram.withMirror S (m + j) = ram.withMirror S (m + j + 1) := fun hr => by
      rw [Ram.withMirror, Ram.withMirror, mirror_take_succ_of_none hr]
    rw [List.range'_succ, cacheEntries]
    apply wp_ite
    · intro he
      have hslot := (allErased_image (S := S) (k := m + j) (n := 1)
        (d := u.subspan (b + j * serializedEntrySize) serializedEntrySize) rfl
        (fun i hi => hdata i (by omega))).mp he 0 (by omega)
      rw [Nat.add_zero] at hslot
      rw [hsame (by rw [hslot]; rfl)]
      exact hrest
    · intro _
      simp only [hentry]
      apply wp_ite
      · intro hr
        rw [hsame hr]
        exact hrest
      · intro hr
        apply wp_ite
        · intro hge
          rcases known_getD wf (m + j) with hk | hk
          · exact absurd hk hr
          · omega
        · intro _
          have hset : (ram.withMirror S (m + j)).setCache
              (S.getD (m + j) erasedEntry).address.toNat (S.getD (m + j) erasedEntry).value =
              ram.withMirror S (m + j + 1) := by
            rw [Ram.setCache, Ram.withMirror, Ram.withMirror, mirror_take_succ rfl hr]
          apply wp_bind_of (P := fun _ t => t = ⟨ram.withMirror S (m + j + 1), hwa⟩)
          · exact congrArg (State.mk · hwa) hset
          · rintro _ _ rfl
            exact hrest

theorem cacheWriteBlocks_spec (wf : WellFormed g S) {b : Span} {i : Nat}
    (hb : ∀ k < g.readBlockSize, b.data k = image S (i * g.readBlockSize + k))
    (j cnt : Nat) (hj : j + cnt = g.blocksPerRead)
    (hle : entriesBefore g i + j * g.entriesPerBlock ≤ S.length) (ram : Ram) (hwa : Hwa)
    (hnext : ram.nextWriteOffsetCache =
      ⟨p, 4 * (entriesBefore g i + j * g.entriesPerBlock)⟩ ∨ 0 < cnt) :
    wp (cacheWriteBlocks g p b (i * g.readBlockSize)
        ((List.range' j cnt).map (· * g.writeBlockSize))) (fun r t =>
      (r = some true ∧ t = ⟨(ram.mirroring p S S.length).clearWriteBlock, hwa⟩) ∨
      (r = none ∧ entriesBefore g (i + 1) ≤ S.length ∧
        t = ⟨ram.mirroring p S (entriesBefore g (i + 1)), hwa⟩))
      ⟨ram.withMirror S (entriesBefore g i + j * g.entriesPerBlock), hwa⟩ := by
  induction cnt generalizing j ram with
  | zero =>
    have hend : entriesBefore g i + j * g.entriesPerBlock = entriesBefore g (i + 1) := by
      rw [entriesBefore_succ, ← hj, Nat.add_zero, Nat.mul_comm]
    rw [hend] at hle hnext ⊢
    right
    refine ⟨rfl, hle, ?_⟩
    rcases hnext with hnext | hc
    · rw [Ram.mirroring, Ram.setNextWriteOffset, ← hnext]
      rfl
    · omega
  | succ cnt ih =>
    have hmul : (j + 1) * g.entriesPerBlock = j * g.entriesPerBlock + g.entriesPerBlock :=
      Nat.succ_mul ..
    have hoff : i * g.readBlockSize + j * g.writeBlockSize =
        4 * (entriesBefore g i + j * g.entriesPerBlock) := by
      rw [readBlock_offset, g.writeBlockSize_eq, Nat.mul_left_comm, ← Nat.mul_add]
    have herased := allErased_writeBlock wf.blocks hb (j := j) (by omega)
    rw [List.range'_succ, List.map_cons, cacheWriteBlocks]
    apply wp_ite
    · intro he
      have hlen : entriesBefore g i + j * g.entriesPerBlock = S.length :=
        Nat.le_antisymm hle (herased.mp he)
      rw [hoff, hlen]
      exact Or.inl ⟨rfl, rfl⟩
    · intro he
      have hlt : entriesBefore g i + j * g.entriesPerBlock < S.length := by
        by_contra hge
        exact he (herased.mpr (by omega))
      have hroom : entriesBefore g i + (j + 1) * g.entriesPerBlock ≤ S.length := by
        obtain ⟨q, hq⟩ := wf.aligned
        rw [writeBlock_entry, hq, Nat.mul_comm g.entriesPerBlock] at hlt
        have := Nat.lt_of_mul_lt_mul_right hlt
        rw [writeBlock_entry, hq, Nat.mul_comm g.entriesPerBlock]
        exact Nat.mul_le_mul_right _ (by omega)
      have hbytes : ∀ k < 4 * (0 + g.entriesPerBlock), b.data (j * g.writeBlockSize + k) =
          image S (4 * (entriesBefore g i + j * g.entriesPerBlock) + k) := by
        intro k hk
        have hin : j * g.writeBlockSize + k < g.readBlockSize := by
          have := Nat.mul_le_mul_right g.entriesPerBlock (show j + 1 ≤ g.blocksPerRead by omega)
          rw [g.writeBlockSize_eq, g.readBlockSize_eq, Nat.mul_left_comm j,
            Nat.mul_comm g.entriesPerBlock g.blocksPerRead]
          omega
        rw [hb _ hin, ← hoff, Nat.add_assoc]
      have hnext : i * g.readBlockSize + j * g.writeBlockSize + g.writeBlockSize =
          4 * (entriesBefore g i + (j + 1) * g.entriesPerBlock) := by
        rw [hoff, hmul, g.writeBlockSize_eq]
        omega
      have hentries := cacheEntries_spec wf (u := b) (b := j * g.writeBlockSize)
        (m := entriesBefore g i + j * g.entriesPerBlock) 0 g.entriesPerBlock hbytes
        (ram.setNextWriteOffset p (4 * (entriesBefore g i + (j + 1) * g.entriesPerBlock))) hwa
      simp only [← List.range_eq_range', Nat.add_zero, Nat.add_assoc, ← hmul] at hentries
      rw [hnext]
      rw [wp_bind, wp_modifyRam]
      apply wp_bind_of hentries
      rintro r t ⟨rfl, rfl⟩
      exact ih (j + 1) (by omega) hroom _ (Or.inl rfl)

/-- What `cache` has after `i` read blocks: the scan starts with the offset of page 1 cleared. -/
def Ram.caching (ram : Ram) (p : Page) (S : List Entry) (n : Nat) : Ram :=
  if n = 0 then (ram.withMirror S 0).setNextWriteOffset .page1 0 else ram.mirroring p S n

theorem Ram.caching_withMirror (ram : Ram) (n : Nat) :
    (ram.caching p S n).withMirror S n = ram.caching p S n := by
  rw [Ram.caching]
  split
  case isTrue h => rw [h]; rfl
  case isFalse => rfl

theorem Ram.caching_mirroring (ram : Ram) (m n : Nat) :
    (ram.caching p S n).mirroring p S m = ram.mirroring p S m := by
  rw [Ram.caching]
  split <;> rfl

theorem entriesBefore_pos {i : Nat} (h : 0 < i) : 0 < entriesBefore g i :=
  Nat.mul_pos h (Nat.mul_pos g.entriesPerBlock_pos g.blocksPerRead_pos)

theorem cacheReadBlocks_spec (wf : WellFormed g S) (n i : Nat) (hn : i + n = g.pageReads)
    (hi : entriesBefore g i ≤ S.length) (ram : Ram) (hwa : Hwa)
    (hclear : ram.clearWriteBlock = ram) (hS : hwa.flash p = image S) (hf : hwa.fails = f) :
    wp (cacheReadBlocks g p ((List.range' i n).map (· * g.readBlockSize))) (fun r t => ∃ c,
      (r = true ∧ t = State.atCalls ⟨ram.mirroring p S S.length, hwa⟩ c) ∨
      (r = false ∧ ReadFault f ∧ ∃ k, (k = 0 ∨ LateReadFault g f) ∧
        t = State.atCalls ⟨ram.caching p S k, hwa⟩ c))
      ⟨ram.caching p S (entriesBefore g i), hwa⟩ := by
  induction n generalizing i hwa with
  | zero =>
    have : i = g.pageReads := by omega
    subst this
    rw [entriesBefore_pageReads] at hi ⊢
    have hpos := pageEntries_pos (g := g)
    have hlen : S.length = g.pageEntries := Nat.le_antisymm wf.fits hi
    refine ⟨hwa.calls, Or.inl ⟨rfl, ?_⟩⟩
    rw [Ram.caching, if_neg (by omega), hlen]
    exact congrArg (State.mk · hwa) (congrArg (Ram.mirroring · p S g.pageEntries) hclear)
  | succ n ih =>
    have hread := hwaRead_spec (s := ⟨ram.caching p S (entriesBefore g i), hwa⟩) hf (p := p)
      (i * g.readBlockSize) g.readBlockSize
    rw [List.range'_succ, List.map_cons, cacheReadBlocks]
    apply wp_bind_of hread
    rintro r t ⟨rfl, rfl | ⟨rfl, c, hc⟩⟩
    · have hblocks := cacheWriteBlocks_spec wf (p := p) (i := i)
        (b := ⟨g.readBlockSize, fun k => hwa.flash p (i * g.readBlockSize + k)⟩)
        (fun k _ => by rw [← hS]) 0 g.blocksPerRead (by omega) (by omega)
        (ram.caching p S (entriesBefore g i)) hwa.tick (Or.inr g.blocksPerRead_pos)
      simp only [Nat.zero_mul, Nat.add_zero, Ram.caching_withMirror, Ram.caching_mirroring,
        ← List.range_eq_range'] at hblocks
      apply wp_bind_of hblocks
      rintro r t (⟨rfl, rfl⟩ | ⟨rfl, hle, rfl⟩)
      · refine ⟨hwa.calls + 1, Or.inl ⟨rfl, ?_⟩⟩
        exact congrArg (State.mk · hwa.tick) (congrArg (Ram.mirroring · p S S.length) hclear)
      · have hpos : 0 < entriesBefore g (i + 1) := entriesBefore_pos (Nat.succ_pos i)
        have hcaching : ram.mirroring p S (entriesBefore g (i + 1)) =
            ram.caching p S (entriesBefore g (i + 1)) := by
          rw [Ram.caching, if_neg (by omega)]
        rw [hcaching]
        exact ih (i + 1) (by omega) hle hwa.tick hS hf
    · refine ⟨hwa.calls + 1, Or.inr ⟨rfl, ⟨c, p, _, _, hc⟩, entriesBefore g i, ?_, rfl⟩⟩
      rcases Nat.eq_zero_or_pos i with rfl | hi
      · exact Or.inl (by simp [entriesBefore])
      · exact Or.inr ⟨c, p, _, Nat.mul_pos hi (by simp [Geometry.readBlockSize]), hc⟩

/-- What `cache` leaves in the members: the mirror of the first `n` entries. -/
def Ram.cached (ram : Ram) (p : Page) (S : List Entry) (n : Nat) : Ram :=
  ram.clearWriteBlock.clearCache.caching p S n

/-- The mirror is empty or in part filled after a failed `cache`. -/
structure CachedTo (r : Ram) (S : List Entry) (n : Nat) (t : Ram) : Prop where
  statuses : t.pageStatusCache = r.pageStatusCache
  idle : t.writeBlockDirty = false
  clean : t.cacheDirty = false
  cache : t.cache = mirror (S.take n)
  next : n = 0 → t.nextWriteOffsetCache = ⟨.page1, 0⟩

theorem cachedTo_cached (r : Ram) (p : Page) (S : List Entry) (n : Nat) :
    CachedTo r S n (r.cached p S n) := by
  rw [Ram.cached, Ram.caching]
  split
  case isTrue h =>
    subst h
    exact ⟨rfl, rfl, rfl, rfl, fun _ => rfl⟩
  case isFalse h => exact ⟨rfl, rfl, rfl, rfl, fun h0 => absurd h0 h⟩

/-- `cache` looks at the valid page only. -/
theorem cache_image (wf : WellFormed g S) (hS : s.hwa.flash p = image S) (hf : s.hwa.fails = f)
    (hp : findValidPage s.ram.pageStatusCache .read = some p) :
    wp (cache g) (fun r t => ∃ c,
      (r = true ∧ t = { s with
        ram := s.ram.clearWriteBlock.clearCache.mirroring p S S.length }.atCalls c) ∨
      (r = false ∧ ReadFault f ∧ ∃ k, (k = 0 ∨ LateReadFault g f) ∧
        t = { s with ram := s.ram.cached p S k }.atCalls c)) s := by
  have hblocks := cacheReadBlocks_spec wf g.pageReads 0 (by omega) (by simp [entriesBefore])
    s.ram.clearWriteBlock.clearCache s.hwa rfl hS hf
  have hstart : s.ram.clearWriteBlock.clearCache.caching p S (entriesBefore g 0) =
      s.ram.clearWriteBlock.clearCache.setNextWriteOffset .page1 0 := by
    rw [entriesBefore, Nat.zero_mul, Ram.caching, if_pos rfl]
    rfl
  rw [hstart, ← List.range_eq_range'] at hblocks
  rw [cache, wp_bind, wp_modifyRam, wp_bind, wp_modifyRam, wp_bind, wp_modifyRam, wp_bind, wp_get]
  simp only [show (((s.ram.clearWriteBlock).clearCache).setNextWriteOffset .page1 0).pageStatusCache
    = s.ram.pageStatusCache from rfl, hp]
  exact hblocks

theorem cache_spec (h : Sees g f K L st s)
    (hp : findValidPage s.ram.pageStatusCache .read = some p) :
    wp (cache g) (fun r t => ∃ c,
      (r = true ∧ t = { s with
        ram := s.ram.clearWriteBlock.clearCache.mirroring p (L p) (L p).length }.atCalls c) ∨
      (r = false ∧ ReadFault f ∧ ∃ k, (k = 0 ∨ LateReadFault g f) ∧
        t = { s with ram := s.ram.cached p (L p) k }.atCalls c)) s :=
  cache_image (h.wf p) (h.flash p) h.faults hp

theorem readEntry_spec (hS : s.hwa.flash p = image S) (hf : s.hwa.fails = f) (k : Nat) :
    wp (readEntry g p (4 * k)) (fun r t => t = s.atCalls (s.hwa.calls + 1) ∧
      (r = some (S.getD k erasedEntry) ∨ r = none ∧ ReadFault f)) s := by
  have hb := g.writeBlockSize_eq
  have hdiv : 4 * k / g.writeBlockSize * g.writeBlockSize = 4 * (k / g.entriesPerBlock * g.entriesPerBlock) := by
    rw [hb, Nat.mul_div_mul_left _ _ (by omega), Nat.mul_left_comm]
  have hsub := Nat.div_add_mod k g.entriesPerBlock
  have hmod := Nat.mod_lt k g.entriesPerBlock_pos
  rw [Nat.mul_comm] at hsub
  rw [readEntry]
  apply wp_ite
  · intro h
    simp only [hdiv, serializedEntrySize] at h
    omega
  · intro _
    apply wp_bind_of (hwaRead_spec hf _ _)
    rintro r t ⟨rfl, rfl | ⟨rfl, c, hc⟩⟩
    · refine ⟨rfl, Or.inl (congrArg some ?_)⟩
      apply deserializeEntry_image
      intro i hi
      simp only [Span.subspan, hdiv, hS]
      congr 1
      omega
    · exact ⟨rfl, Or.inr ⟨rfl, c, p, _, _, hc⟩⟩

def Ram.remember (ram : Ram) (a : Nat) : Option UInt16 → Ram
  | none => ram
  | some v => ram.setCache a v

theorem valueOf_eq_of_address {e : Entry} (ha : a < 0xFFFF) (he : e.address.toNat = a) :
    valueOf a e = some e.value := by
  have hne : e.address ≠ reservedStatusAddress := by
    rintro hr
    rw [hr] at he
    have : reservedStatusAddress.toNat = 0xFFFF := rfl
    omega
  rw [valueOf, if_pos ⟨hne, he⟩]

/-- The downward scan finds the last value at or below the entry it starts from. -/
theorem readScan_spec (hS : s.hwa.flash p = image S) (hf : s.hwa.fails = f) (ha : a < 0xFFFF)
    (k : Nat) :
    wp (readScan g p a k (4 * k)) (fun r t => ∃ c,
      t = { s with ram := s.ram.remember a r }.atCalls c ∧
      (r = lookup (S.take (k + 1)) a ∨ ReadFault f)) s := by
  induction k generalizing s with
  | zero =>
    rw [readScan]
    apply wp_bind_of (readEntry_spec hS hf 0)
    rintro r t ⟨rfl, rfl | ⟨rfl, hfault⟩⟩
    · apply wp_ite
      · intro he
        refine ⟨s.hwa.calls + 1, rfl, Or.inl ?_⟩
        rw [lookup_take_succ, valueOf_eq_of_address ha he, Option.some_or]
        rfl
      · intro he
        refine ⟨s.hwa.calls + 1, rfl, Or.inl ?_⟩
        rw [lookup_take_succ, valueOf, if_neg (fun hc => he hc.2)]
        rfl
    · exact ⟨s.hwa.calls + 1, rfl, Or.inr hfault⟩
  | succ k ih =>
    have hdown : 4 * (k + 1) - serializedEntrySize = 4 * k := by
      simp only [serializedEntrySize]
      omega
    rw [readScan]
    apply wp_bind_of (readEntry_spec hS hf (k + 1))
    rintro r t ⟨rfl, rfl | ⟨rfl, hfault⟩⟩
    · apply wp_ite
      · intro he
        refine ⟨s.hwa.calls + 1, rfl, Or.inl ?_⟩
        rw [lookup_take_succ, valueOf_eq_of_address ha he, Option.some_or]
        rfl
      · intro he
        simp only [hdown]
        apply wp_mono (ih (s := s.atCalls (s.hwa.calls + 1)) hS hf)
        rintro r t ⟨c, rfl, hr⟩
        refine ⟨c, rfl, hr.imp_left fun hr => ?_⟩
        rw [hr, lookup_take_succ (n := k + 1), valueOf, if_neg (fun hc => he hc.2),
          Option.none_or]
    · simp only [hdown]
      apply wp_mono (ih (s := s.atCalls (s.hwa.calls + 1)) hS hf)
      rintro r t ⟨c, rfl, _⟩
      exact ⟨c, rfl, Or.inr hfault⟩

end Zlibs.EmuEeprom
