import Zlibs.EmuEeprom.Mirror

/-! Appending to the write page: the staged block, its flush, and the entries it takes. -/
namespace Zlibs.EmuEeprom

open Zlibs.Lib

variable {g : Geometry} {f : Faults} {K : Logs → Prop} {L : Logs}
  {st : Option (Page × List Entry)} {s t : State} {S T b c : List Entry} {p q : Page} {e : Entry}

/-- The logs once the staged block is programmed. -/
def Logs.flushed (g : Geometry) (L : Logs) : Option (Page × List Entry) → Logs
  | none => L
  | some (p, c) => L.set p (L p ++ pad g c)

/-- The members once the staged block is programmed: an offset inside it moves to its end. -/
def Ram.flushed (g : Geometry) (ram : Ram) : Ram :=
  if ram.writeBlockDirty then
    (if ram.nextWriteOffsetCache.page = ram.writeBlockPage ∧
        ram.nextWriteOffsetCache.offset > ram.writeBlockOffset ∧
        ram.nextWriteOffsetCache.offset < ram.writeBlockOffset + g.writeBlockSize then
      ram.setNextWriteOffset ram.writeBlockPage (ram.writeBlockOffset + g.writeBlockSize)
    else ram).clearWriteBlock
  else ram

@[simp] theorem Logs.flushed_none : L.flushed g none = L := rfl

@[simp] theorem Logs.flushed_self : L.flushed g (some (p, c)) p = L p ++ pad g c := Logs.set_self

theorem Logs.flushed_other (h : q ≠ p) : L.flushed g (some (p, c)) q = L q := Logs.set_ne h

/-- The members that appending to a page leaves alone. -/
structure Kept (r t : Ram) : Prop where
  cache : t.cache = r.cache
  statuses : t.pageStatusCache = r.pageStatusCache
  dirty : t.cacheDirty = r.cacheDirty

theorem Kept.refl (r : Ram) : Kept r r := ⟨rfl, rfl, rfl⟩

theorem Kept.trans {r s t : Ram} (h : Kept r s) (k : Kept s t) : Kept r t :=
  ⟨k.cache.trans h.cache, k.statuses.trans h.statuses, k.dirty.trans h.dirty⟩

theorem kept_flushed (r : Ram) : Kept r (r.flushed g) := by
  rw [Ram.flushed]
  split
  · split <;> exact ⟨rfl, rfl, rfl⟩
  · exact Kept.refl r

theorem flushed_clean {r : Ram} (h : r.writeBlockDirty = false) : r.flushed g = r := by
  rw [Ram.flushed, if_neg (by simp [h])]

/-- An offset that is not inside the staged block stays. -/
theorem flushed_next {r : Ram} (h : r.nextWriteOffsetCache.page ≠ r.writeBlockPage ∨
    r.nextWriteOffsetCache.offset ≤ r.writeBlockOffset ∨
    r.writeBlockOffset + g.writeBlockSize ≤ r.nextWriteOffsetCache.offset) :
    (r.flushed g).nextWriteOffsetCache = r.nextWriteOffsetCache := by
  rw [Ram.flushed]
  split
  · rw [if_neg]
    · rfl
    · rintro ⟨hpage, hlo, hhi⟩
      rcases h with h | h | h
      · exact h hpage
      · omega
      · omega
  · rfl

theorem flushed_next_page (r : Ram) :
    (r.flushed g).nextWriteOffsetCache.page = r.nextWriteOffsetCache.page := by
  rw [Ram.flushed]
  split
  · split
    case isTrue h => exact h.1.symm
    case isFalse => rfl
  · rfl

/-- An offset inside the staged block moves to the end of the block. -/
theorem flushed_next_inside {r : Ram} (hd : r.writeBlockDirty = true)
    (hpage : r.nextWriteOffsetCache.page = r.writeBlockPage)
    (hlo : r.writeBlockOffset < r.nextWriteOffsetCache.offset)
    (hhi : r.nextWriteOffsetCache.offset < r.writeBlockOffset + g.writeBlockSize) :
    (r.flushed g).nextWriteOffsetCache =
      ⟨r.writeBlockPage, r.writeBlockOffset + g.writeBlockSize⟩ := by
  rw [Ram.flushed, if_pos hd, if_pos ⟨hpage, hlo, hhi⟩]
  rfl

theorem flushWriteBlock_spec (h : Sees g f K L st s) (hK : K (L.flushed g st)) :
    wp (flushWriteBlock g) (fun r t =>
      (r = true ∧ t.ram = s.ram.flushed g ∧ Sees g f K (L.flushed g st) none t) ∨
      (r = false ∧ t.ram = s.ram ∧ Sees g f K L st t ∧
        ∃ p c, st = some (p, c) ∧ BlockFault g f c)) s := by
  rw [flushWriteBlock, wp_bind, wp_get]
  cases st with
  | none =>
    have hd : s.ram.writeBlockDirty = false := h.staged
    apply wp_ite
    · intro _
      exact Or.inl ⟨rfl, (flushed_clean hd).symm, h⟩
    · intro hn
      simp [hd] at hn
  | some w =>
    obtain ⟨p, c⟩ := w
    obtain ⟨hd, hpage, hoff, hbuf, hlt, hc⟩ := h.staged
    apply wp_ite
    · intro hn
      simp [hd] at hn
    · intro _
      rw [hpage, hoff, hbuf]
      apply wp_bind_of (hwaWrite_spec h hc hlt (fun _ _ => rfl) hK)
      rintro r t ⟨hram, ⟨rfl, hholds, hfails, htrace⟩ | ⟨rfl, hfault, hsees⟩⟩
      · have hcond : s.ram.flushed g =
            (if s.ram.nextWriteOffsetCache.page = p ∧
              s.ram.nextWriteOffsetCache.offset > 4 * (L p).length ∧
              s.ram.nextWriteOffsetCache.offset < 4 * (L p).length + g.writeBlockSize then
            s.ram.setNextWriteOffset p (4 * (L p).length + g.writeBlockSize)
            else s.ram).clearWriteBlock := by
          rw [Ram.flushed, if_pos hd, hpage, hoff]
        rw [← hram] at hcond
        simp only [Bool.not_true, Bool.false_eq_true, if_false]
        rw [← hram]
        apply wp_ite
        · intro hr
          rw [if_pos hr] at hcond
          rw [wp_bind, wp_modifyRam, wp_bind, wp_modifyRam]
          exact Or.inl ⟨rfl, hcond.symm, hfails, hholds, rfl, htrace, hK⟩
        · intro hr
          rw [if_neg hr] at hcond
          rw [wp_bind, wp_modifyRam]
          exact Or.inl ⟨rfl, hcond.symm, hfails, hholds, rfl, htrace, hK⟩
      · exact Or.inr ⟨rfl, hram, hsees, p, c, rfl, hfault⟩

/-- The end of `write_entry`: a block is staged, the entry put into it, a full block programmed. -/
def stageAndFlush (g : Geometry) (page : Page) (blockOffset withinBlock : Nat) (entry : Entry) :
    M WriteStatus := do
  if !(← get).ram.writeBlockDirty then
    modifyRam (·.stageBlock page blockOffset)
  modifyRam (·.stageEntry withinBlock entry)
  if (← get).ram.writeBlockEntries ≥ g.entriesPerBlock then
    if !(← flushWriteBlock g) then
      return .writeError
  return .ok

theorem writeEntry_eq (page : Page) (offset : Nat) (entry : Entry)
    (hfits : offset + serializedEntrySize ≤ g.pageSize)
    (hblock : offset - offset / g.writeBlockSize * g.writeBlockSize + serializedEntrySize ≤
      g.writeBlockSize) :
    writeEntry g page offset entry = (do
      let s ← get
      if s.ram.writeBlockDirty ∧ (s.ram.writeBlockPage ≠ page ∨
          s.ram.writeBlockOffset ≠ offset / g.writeBlockSize * g.writeBlockSize) then
        if !(← flushWriteBlock g) then
          return .writeError
      stageAndFlush g page (offset / g.writeBlockSize * g.writeBlockSize)
        (offset - offset / g.writeBlockSize * g.writeBlockSize) entry) := by
  rw [writeEntry, if_neg (by omega), if_neg (by omega)]
  rfl

def Ram.staging (ram : Ram) (page : Page) (blockOffset withinBlock : Nat) (entry : Entry) : Ram :=
  (if ram.writeBlockDirty then ram else ram.stageBlock page blockOffset).stageEntry withinBlock
    entry

theorem kept_staging (r : Ram) (blockOffset withinBlock : Nat) :
    Kept r (r.staging p blockOffset withinBlock e) := by
  rw [Ram.staging]
  split <;> exact ⟨rfl, rfl, rfl⟩

theorem staging_next (r : Ram) (blockOffset withinBlock : Nat) :
    (r.staging p blockOffset withinBlock e).nextWriteOffsetCache = r.nextWriteOffsetCache := by
  rw [Ram.staging]
  split <;> rfl

/-- The entry put at the end of `b` in the staged block makes it `b ++ [e]`. -/
theorem staged_staging {ram : Ram} {m : List Entry} (h : Staged g ram L st)
    (hst : st = none ∧ m = [] ∨ st = some (p, m)) (hplace : place m b.length e = b ++ [e])
    (hm : m.length ≤ b.length + 1) (hb : BlockOk g (b ++ [e]))
    (hlt : (L p).length < g.pageEntries) :
    Staged g (ram.staging p (4 * (L p).length) (4 * b.length) e) L (some (p, b ++ [e])) := by
  rcases hst with ⟨rfl, rfl⟩ | rfl
  · have hd : ram.writeBlockDirty = false := h
    rw [Ram.staging, if_neg (by simp [hd])]
    refine ⟨rfl, rfl, rfl, ?_, hlt, hb⟩
    rw [← hplace, ← image_place (by simp), image_nil]
    rfl
  · obtain ⟨hd, hpage, hoff, hbuf, hlt, _⟩ := h
    rw [Ram.staging, if_pos hd]
    refine ⟨hd, hpage, hoff, ?_, hlt, hb⟩
    rw [← hplace, ← image_place hm, ← hbuf]
    rfl

/-- The entry is staged before the block is looked at. -/
theorem stageAndFlush_run {u : Ram} {o w : Nat} (hu : s.ram.staging p o w e = u) :
    stageAndFlush g p o w e s = (do
      if u.writeBlockEntries ≥ g.entriesPerBlock then
        if !(← flushWriteBlock g) then
          return .writeError
      return .ok : M WriteStatus) { s with ram := u } := by
  subst hu
  cases hd : s.ram.writeBlockDirty <;>
    simp [stageAndFlush, Ram.staging, hd, bind, StateT.bind, get, getThe, MonadStateOf.get,
      StateT.get, modifyRam, modify, modifyGet, MonadStateOf.modifyGet, StateT.modifyGet, pure]

theorem stageAndFlush_spec (h : Sees g f K L st s) {m : List Entry}
    (hst : st = none ∧ m = [] ∨ st = some (p, m)) (hplace : place m b.length e = b ++ [e])
    (hm : m.length ≤ b.length + 1) (hb : BlockOk g (b ++ [e]))
    (hlt : (L p).length < g.pageEntries) (hK : K (L.set p (L p ++ pad g (b ++ [e]))))
    {u : Ram} (hu : s.ram.staging p (4 * (L p).length) (4 * b.length) e = u) :
    wp (stageAndFlush g p (4 * (L p).length) (4 * b.length) e) (fun r t =>
      (r = .ok ∧ u.writeBlockEntries < g.entriesPerBlock ∧ t.ram = u ∧
        Sees g f K L (some (p, b ++ [e])) t) ∨
      (r = .ok ∧ g.entriesPerBlock ≤ u.writeBlockEntries ∧ t.ram = u.flushed g ∧
        Sees g f K (L.set p (L p ++ pad g (b ++ [e]))) none t) ∨
      (r = .writeError ∧ g.entriesPerBlock ≤ u.writeBlockEntries ∧ t.ram = u ∧
        Sees g f K L (some (p, b ++ [e])) t ∧ BlockFault g f (b ++ [e]))) s := by
  have hsees : Sees g f K L (some (p, b ++ [e])) { s with ram := u } :=
    hu ▸ h.withRam (staged_staging h.staged hst hplace hm hb hlt)
  apply wp_of_eq (stageAndFlush_run hu)
  apply wp_ite
  · intro hfull
    apply wp_bind_of (flushWriteBlock_spec hsees hK)
    rintro r t (⟨rfl, hram, hsees⟩ | ⟨rfl, hram, hsees, q, c, hst, hfault⟩)
    · exact Or.inr (Or.inl ⟨rfl, hfull, hram, hsees⟩)
    · cases hst
      exact Or.inr (Or.inr ⟨rfl, hfull, hram, hsees, hfault⟩)
  · intro hfull
    exact Or.inl ⟨rfl, Nat.lt_of_not_le hfull, rfl, hsees⟩

/-- Entries that say nothing about the status of their page. -/
def Silent (l : List Entry) : Prop := ∀ e ∈ l, statusOf e = none

theorem Silent.append (hb : Silent b) (hc : Silent c) : Silent (b ++ c) := by
  intro e he
  rcases List.mem_append.mp he with he | he
  · exact hb e he
  · exact hc e he

theorem Silent.singleton (h : statusOf e = none) : Silent [e] := by
  intro x hx
  rwa [List.mem_singleton.mp hx]

theorem silent_replicate {n : Nat} : Silent (List.replicate n erasedEntry) := by
  intro e he
  rw [List.eq_of_mem_replicate he, statusOf_erasedEntry]

theorem Silent.lastStatus (h : Silent c) : lastStatus (S ++ c) = lastStatus S :=
  lastStatus_append_of_none (lastMatch_eq_none.mpr h)

/-- What the members know of the end of page `p`: the entries `b` are accepted but not yet on the
flash, and the cached offset, where it is set, is behind them. -/
inductive Tail (g : Geometry) (ram : Ram) (L : Logs) (st : Option (Page × List Entry)) (p : Page) :
    List Entry → Prop
  | unknown (hst : ∀ c, st ≠ some (p, c))
      (hn : ram.nextWriteOffsetCache.page ≠ p ∨ ram.nextWriteOffsetCache.offset = 0) :
      Tail g ram L st p []
  /-- Slots were skipped when a staged block was dropped. -/
  | clean (n : Nat) (hst : ∀ c, st ≠ some (p, c))
      (hn : ram.nextWriteOffsetCache = ⟨p, 4 * ((L p).length + n)⟩) (hlt : n < g.entriesPerBlock) :
      Tail g ram L st p (List.replicate n erasedEntry)
  | filling (b : List Entry) (hst : st = some (p, b)) (hs : Silent b)
      (hn : ram.nextWriteOffsetCache = ⟨p, 4 * ((L p).length + b.length)⟩)
      (he : ram.writeBlockEntries ≤ b.length)
      (hfull : b.length = g.entriesPerBlock → ram.writeBlockEntries < g.entriesPerBlock) :
      Tail g ram L st p b
  /-- The program of a full block failed: its last entry was not accepted. -/
  | refused (b : List Entry) (r : Entry) (hst : st = some (p, b ++ [r])) (hs : Silent (b ++ [r]))
      (hn : ram.nextWriteOffsetCache = ⟨p, 4 * ((L p).length + b.length)⟩)
      (hb : b.length + 1 = g.entriesPerBlock) (he : g.entriesPerBlock ≤ ram.writeBlockEntries) :
      Tail g ram L st p b

theorem Tail.withRam {r u : Ram} (h : Tail g r L st p b)
    (hn : u.nextWriteOffsetCache = r.nextWriteOffsetCache)
    (he : u.writeBlockEntries = r.writeBlockEntries) : Tail g u L st p b := by
  cases h with
  | unknown hst h => exact Tail.unknown hst (hn ▸ h)
  | clean n hst h hlt => exact Tail.clean n hst (hn.trans h) hlt
  | filling b hst hs h hle hfull =>
    exact Tail.filling b hst hs (hn.trans h) (he ▸ hle) (he ▸ hfull)
  | refused b r hst hs h hb hle => exact Tail.refused b r hst hs (hn.trans h) hb (he ▸ hle)

theorem Tail.silent {r : Ram} (h : Tail g r L st p b) : Silent b := by
  cases h with
  | unknown => exact fun _ h => absurd h List.not_mem_nil
  | clean n => exact silent_replicate
  | filling b hst hs => exact hs
  | refused b r hst hs => exact fun e he => hs e (List.mem_append_left _ he)

theorem place_nil {n : Nat} : place [] n e = List.replicate n erasedEntry ++ [e] := by
  rw [place]
  congr 1
  apply List.ext_getElem (by simp)
  intro i _ _
  simp

theorem Tail.length_le (h : Sees g f K L st s) (ht : Tail g s.ram L st p b) :
    b.length ≤ g.entriesPerBlock := by
  cases ht with
  | unknown => exact Nat.zero_le _
  | clean n hst hn hlt =>
    rw [List.length_replicate]
    exact Nat.le_of_lt hlt
  | filling b hst =>
    subst hst
    exact h.staged.2.2.2.2.2.fits
  | refused b r hst hs hn hb => omega

theorem Tail.known (h : Sees g f K L st s) (ht : Tail g s.ram L st p b) :
    ∀ e ∈ b, KnownAddress g e := by
  intro e he
  cases ht with
  | unknown => exact absurd he List.not_mem_nil
  | clean n hst hn hlt =>
    rw [List.eq_of_mem_replicate he]
    exact Or.inl rfl
  | filling b hst =>
    subst hst
    exact h.staged.2.2.2.2.2.known e he
  | refused b r hst =>
    subst hst
    exact h.staged.2.2.2.2.2.known e (List.mem_append_left _ he)

theorem blockOk_concat (hl : b.length < g.entriesPerBlock) (hb : ∀ e ∈ b, KnownAddress g e)
    (he : KnownAddress g e) (hne : e ≠ erasedEntry) : BlockOk g (b ++ [e]) where
  fits := by simpa using hl
  used := ⟨e, by simp, hne⟩
  known := by
    intro x hx
    rcases List.mem_append.mp hx with hx | hx
    · exact hb x hx
    · rw [List.mem_singleton.mp hx]
      exact he

/-- What accepting `e` at the end of page `p` does. -/
structure Appended (g : Geometry) (f : Faults) (K : Logs → Prop) (L : Logs)
    (st : Option (Page × List Entry)) (p : Page) (b added : List Entry) (L' : Logs)
    (st' : Option (Page × List Entry)) (b' : List Entry) (t : State) : Prop where
  sees : Sees g f K L' st' t
  content : live (L' p ++ b') = live (L p ++ b) ++ added
  length : (L' p).length + b'.length = (L p).length + b.length + added.length
  others : ∀ q, q ≠ p → L' q = L.flushed g st q

theorem block_offset {j k : Nat} (hj : g.entriesPerBlock ∣ j) (hk : k < g.entriesPerBlock) :
    4 * (j + k) / g.writeBlockSize * g.writeBlockSize = 4 * j := by
  obtain ⟨n, rfl⟩ := hj
  rw [g.writeBlockSize_eq, Nat.mul_div_mul_left _ _ (by omega), Nat.mul_add_div (by omega),
    Nat.div_eq_of_lt hk, Nat.add_zero, Nat.mul_left_comm, Nat.mul_comm n]

theorem writeEntry_at {j k : Nat} (hj : g.entriesPerBlock ∣ j) (hk : k < g.entriesPerBlock)
    (hlt : j + k < g.pageEntries) :
    writeEntry g p (4 * (j + k)) e = (do
      let s ← get
      if s.ram.writeBlockDirty ∧ (s.ram.writeBlockPage ≠ p ∨ s.ram.writeBlockOffset ≠ 4 * j) then
        if !(← flushWriteBlock g) then
          return .writeError
      stageAndFlush g p (4 * j) (4 * k) e) := by
  have hsize := g.pageSize_eq
  have hblock := g.writeBlockSize_eq
  have hsub : 4 * (j + k) - 4 * j = 4 * k := by omega
  rw [writeEntry_eq _ _ _ (by simp only [serializedEntrySize]; omega)
    (by rw [block_offset hj hk, hsub, serializedEntrySize]; omega), block_offset hj hk, hsub]

/-- The staged block is the one the entry goes to, or there is none. -/
theorem writeEntry_stay (h : Sees g f K L st s) {m : List Entry} {k : Nat}
    (hst : st = none ∧ m = [] ∨ st = some (p, m)) (hk : k < g.entriesPerBlock)
    (hlt : (L p).length + k < g.pageEntries) {Q : WriteStatus → State → Prop}
    (hQ : wp (stageAndFlush g p (4 * (L p).length) (4 * k) e) Q s) :
    wp (writeEntry g p (4 * ((L p).length + k)) e) Q s := by
  rw [writeEntry_at (h.wf p).aligned hk hlt, wp_bind, wp_get]
  apply wp_ite
  · rintro ⟨hd, hne⟩
    rcases hst with ⟨rfl, _⟩ | rfl
    · rw [show s.ram.writeBlockDirty = false from h.staged] at hd
      cases hd
    · obtain ⟨_, hpage, hoff, _⟩ := h.staged
      rcases hne with hne | hne
      · exact absurd hpage hne
      · exact absurd hoff hne
  · intro _
    exact hQ

/-- Another block is staged: it is programmed first. -/
theorem writeEntry_displace (h : Sees g f K L (some (q, c)) s) {j k : Nat}
    (hj : g.entriesPerBlock ∣ j) (hk : k < g.entriesPerBlock) (hlt : j + k < g.pageEntries)
    (hne : q ≠ p ∨ (L q).length ≠ j) (hK : K (L.flushed g (some (q, c))))
    {Q : WriteStatus → State → Prop}
    (hfail : ∀ t, t.ram = s.ram → Sees g f K L (some (q, c)) t → BlockFault g f c →
      Q .writeError t)
    (hQ : ∀ t, t.ram = s.ram.flushed g → Sees g f K (L.flushed g (some (q, c))) none t →
      wp (stageAndFlush g p (4 * j) (4 * k) e) Q t) :
    wp (writeEntry g p (4 * (j + k)) e) Q s := by
  obtain ⟨hd, hpage, hoff, _⟩ := h.staged
  rw [writeEntry_at hj hk hlt, wp_bind, wp_get]
  apply wp_ite
  · intro _
    apply wp_bind_of (flushWriteBlock_spec h hK)
    rintro r t (⟨rfl, hram, hsees⟩ | ⟨rfl, hram, hsees, q', c', hst, hfault⟩)
    · exact hQ t hram hsees
    · cases hst
      exact hfail t hram hsees hfault
  · intro hn
    refine absurd ⟨hd, ?_⟩ hn
    rw [hpage, hoff]
    rcases hne with hne | hne
    · exact Or.inl hne
    · exact Or.inr (by omega)

/-- The staged block, if any, holds exactly the accepted entries. -/
def OwnStage (st : Option (Page × List Entry)) (p : Page) (b : List Entry) : Prop :=
  st = none ∧ b = [] ∨ st = some (p, b)

/-- `e` was not accepted; it may be left staged. -/
def NotAppended (g : Geometry) (f : Faults) (K : Logs → Prop) (L : Logs)
    (st : Option (Page × List Entry)) (p : Page) (b : List Entry) (e : Entry) (s t : State) :
    Prop :=
  (t.ram = s.ram ∧ Sees g f K L st t ∧ ∃ q c, st = some (q, c) ∧ BlockFault g f c) ∨
  ∃ L' b', Appended g f K L st p b [] L' (some (p, b' ++ [e])) b' t ∧
    Tail g t.ram L' (some (p, b' ++ [e])) p b' ∧ BlockFault g f (b' ++ [e])

theorem staging_entries_idle {ram : Ram} (h : ram.writeBlockDirty = false) (o w : Nat) :
    (ram.staging p o w e).writeBlockEntries = 1 := by
  rw [Ram.staging, if_neg (by simp [h])]
  rfl

theorem staging_entries_dirty {ram : Ram} (h : ram.writeBlockDirty = true) (o w : Nat) :
    (ram.staging p o w e).writeBlockEntries = ram.writeBlockEntries + 1 := by
  rw [Ram.staging, if_pos h]
  rfl

theorem Logs.flushed_of_own (hst : st = none ∨ ∃ c, st = some (p, c)) (hq : q ≠ p) :
    L.flushed g st q = L q := by
  rcases hst with rfl | ⟨c, rfl⟩
  · rfl
  · exact Logs.set_ne hq

/-- The entry goes to the end of the accepted ones, in the block that is staged or to be staged. -/
theorem stageAndFlush_tail (h : Sees g f K L st s) {m : List Entry}
    (hst : st = none ∧ m = [] ∨ st = some (p, m)) (hplace : place m b.length e = b ++ [e])
    (hm : m.length ≤ b.length + 1) (hb : BlockOk g (b ++ [e]))
    (hlt : (L p).length < g.pageEntries) (hne : e ≠ erasedEntry) (hs : Silent (b ++ [e]))
    (hn : s.ram.nextWriteOffsetCache = ⟨p, 4 * ((L p).length + b.length)⟩)
    (hcount : ∀ n, n = (s.ram.staging p (4 * (L p).length) (4 * b.length) e).writeBlockEntries →
      (g.entriesPerBlock ≤ n → b.length + 1 = g.entriesPerBlock) ∧
        (n < g.entriesPerBlock → n ≤ b.length + 1))
    (hK : ∀ T, live T = live (L p ++ b) ++ [e] → K (L.set p T)) :
    wp (stageAndFlush g p (4 * (L p).length) (4 * b.length) e) (fun r t => Kept s.ram t.ram ∧
      ((r = .ok ∧ ∃ L' st' b', Appended g f K L st p b [e] L' st' b' t ∧ OwnStage st' p b' ∧
          Tail g (t.ram.setNextWriteOffset p (4 * ((L p).length + b.length) + 4)) L' st' p b') ∨
        (r = .writeError ∧ NotAppended g f K L st p b e s t))) s := by
  have hcontent : live (L p ++ (b ++ [e])) = live (L p ++ b) ++ [e] := by
    rw [← List.append_assoc, live_append (T := [e]), live_singleton hne]
  have hpad : live (L p ++ pad g (b ++ [e])) = live (L p ++ b) ++ [e] := by
    rw [live_append, live_pad, ← live_append, hcontent]
  have hown : st = none ∨ ∃ c, st = some (p, c) := hst.imp And.left fun hs => ⟨m, hs⟩
  generalize hu : s.ram.staging p (4 * (L p).length) (4 * b.length) e = u at hcount
  have hkept : Kept s.ram u := hu ▸ kept_staging ..
  have hnext : u.nextWriteOffsetCache = ⟨p, 4 * ((L p).length + b.length)⟩ := by
    rw [← hu, staging_next, hn]
  obtain ⟨hfull, hpart⟩ := hcount _ rfl
  apply wp_mono (stageAndFlush_spec h hst hplace hm hb hlt (hK _ hpad) hu)
  rintro r t (⟨rfl, hlo, hram, hsees⟩ | ⟨rfl, hhi, hram, hsees⟩ | ⟨rfl, hhi, hram, hsees, hfault⟩)
  · -- the block has room left
    refine ⟨hram ▸ hkept, Or.inl ⟨rfl, L, _, b ++ [e], ⟨hsees, hcontent, ?_, ?_⟩, Or.inr rfl, ?_⟩⟩
    · simp only [List.length_append, List.length_singleton]
      omega
    · exact fun q hq => (Logs.flushed_of_own hown hq).symm
    · refine Tail.filling _ rfl hs ?_ ?_ fun _ => hram ▸ hlo
      · simp only [Ram.setNextWriteOffset, List.length_append, List.length_singleton]
        congr 1
      · rw [List.length_append, List.length_singleton, Ram.setNextWriteOffset, hram]
        exact hpart hlo
  · have hlen : (pad g (b ++ [e])).length = b.length + 1 := by
      rw [length_pad hb.fits, hfull hhi]
    refine ⟨hram ▸ hkept.trans (kept_flushed u), Or.inl ⟨rfl, _, none, [],
      ⟨hsees, ?_, ?_, ?_⟩, Or.inl ⟨rfl, rfl⟩, ?_⟩⟩
    · rw [Logs.set_self, List.append_nil, hpad]
    · rw [Logs.set_self, List.length_append, hlen, List.length_nil, List.length_singleton]
      omega
    · intro q hq
      rw [Logs.set_ne hq, Logs.flushed_of_own hown hq]
    · refine Tail.clean 0 (fun c hc => by cases hc) ?_ g.entriesPerBlock_pos
      rw [Logs.set_self, List.length_append, hlen, Ram.setNextWriteOffset]
      congr 1
  · refine ⟨hram ▸ hkept, Or.inr ⟨rfl, Or.inr ⟨L, b, ⟨hsees, ?_, ?_, ?_⟩, ?_, hfault⟩⟩⟩
    · rw [List.append_nil]
    · rw [List.length_nil, Nat.add_zero]
    · exact fun q hq => (Logs.flushed_of_own hown hq).symm
    · exact Tail.refused b e rfl hs (hram ▸ hnext) (hfull hhi) (hram ▸ hhi)

theorem Appended.of_flushed {added b' : List Entry} {L' : Logs}
    {st' : Option (Page × List Entry)}
    (h : Appended g f K (L.flushed g st) none p c added L' st' b' t)
    (hcontent : live (L.flushed g st p ++ c) = live (L p ++ b))
    (hlength : (L.flushed g st p).length + c.length = (L p).length + b.length) :
    Appended g f K L st p b added L' st' b' t where
  sees := h.sees
  content := h.content.trans (by rw [hcontent])
  length := h.length.trans (by rw [hlength])
  others := h.others

theorem NotAppended.of_flushed {u : State}
    (h : NotAppended g f K (L.flushed g st) none p c e u t)
    (hcontent : live (L.flushed g st p ++ c) = live (L p ++ b))
    (hlength : (L.flushed g st p).length + c.length = (L p).length + b.length) :
    NotAppended g f K L st p b e s t := by
  rcases h with ⟨_, _, q, c, hqc, _⟩ | ⟨L', b', happ, htail, hfault⟩
  · cases hqc
  · exact Or.inr ⟨L', b', happ.of_flushed hcontent hlength, htail, hfault⟩

/-- An entry that does not go to the staged block has it programmed first. -/
theorem writeEntry_tail_displace (h : Sees g f K L (some (q, c)) s) {d : List Entry}
    (hne : q ≠ p ∨ (L q).length ≠ (L.flushed g (some (q, c)) p).length)
    (hd : d.length < g.entriesPerBlock)
    (hplace : place [] d.length e = d ++ [e]) (hb : BlockOk g (d ++ [e]))
    (hcontent : live (L.flushed g (some (q, c)) p ++ d) = live (L p ++ b))
    (hlength : (L.flushed g (some (q, c)) p).length + d.length = (L p).length + b.length)
    (hlt : (L p).length + b.length < g.pageEntries) (hee : e ≠ erasedEntry)
    (hs : Silent (d ++ [e])) (hn : (s.ram.flushed g).nextWriteOffsetCache = ⟨p, 4 * ((L p).length + b.length)⟩)
    (hK : K (L.flushed g (some (q, c))))
    (hK' : ∀ T, live T = live (L p ++ b) ++ [e] → K ((L.flushed g (some (q, c))).set p T)) :
    wp (writeEntry g p (4 * ((L p).length + b.length)) e) (fun r t => Kept s.ram t.ram ∧
      ((r = .ok ∧ ∃ L' st' b', Appended g f K L (some (q, c)) p b [e] L' st' b' t ∧
          OwnStage st' p b' ∧ Tail g (t.ram.setNextWriteOffset p (4 * ((L p).length + b.length) + 4)) L' st' p b') ∨
        (r = .writeError ∧ NotAppended g f K L (some (q, c)) p b e s t))) s := by
  rw [← hlength] at hlt hn ⊢
  have haligned : g.entriesPerBlock ∣ (L.flushed g (some (q, c)) p).length := by
    obtain ⟨_, _, _, _, hroom, hc⟩ := h.staged
    by_cases hq : p = q
    · subst hq
      rw [Logs.flushed_self]
      exact ((h.wf p).append hc hroom).aligned
    · rw [Logs.flushed_other hq]
      exact (h.wf p).aligned
  apply writeEntry_displace h haligned hd hlt hne hK
  · intro t hram hsees hfault
    exact ⟨hram ▸ Kept.refl _, Or.inr ⟨rfl, Or.inl ⟨hram, hsees, q, c, rfl, hfault⟩⟩⟩
  · intro u hram hsees
    have hidle : u.ram.writeBlockDirty = false := hsees.staged
    apply wp_mono (stageAndFlush_tail hsees (Or.inl ⟨rfl, rfl⟩) hplace (Nat.zero_le _) hb
      (by omega) hee hs (hram ▸ hn) ?_ ?_)
    · rintro r t ⟨hkept, ⟨rfl, L', st', b', happ, hown, htail⟩ | ⟨rfl, hnot⟩⟩
      · exact ⟨(hram ▸ kept_flushed s.ram).trans hkept,
          Or.inl ⟨rfl, L', st', b', happ.of_flushed hcontent hlength, hown, htail⟩⟩
      · exact ⟨(hram ▸ kept_flushed s.ram).trans hkept,
          Or.inr ⟨rfl, hnot.of_flushed hcontent hlength⟩⟩
    · rintro n rfl
      rw [staging_entries_idle hidle]
      omega
    · intro T hT
      exact hK' T (hT.trans (by rw [hcontent]))

theorem writeEntry_tail (h : Sees g f K L st s) (ht : Tail g s.ram L st p b)
    (hn : s.ram.nextWriteOffsetCache = ⟨p, 4 * ((L p).length + b.length)⟩)
    (hlt : (L p).length + b.length < g.pageEntries) (he : KnownAddress g e)
    (hne : e ≠ erasedEntry) (hs : statusOf e = none) (hK : K (L.flushed g st))
    (hK' : ∀ T, live T = live (L p ++ b) ++ [e] → K ((L.flushed g st).set p T)) :
    wp (writeEntry g p (4 * ((L p).length + b.length)) e) (fun r t => Kept s.ram t.ram ∧
      ((r = .ok ∧ ∃ L' st' b', Appended g f K L st p b [e] L' st' b' t ∧ OwnStage st' p b' ∧
          Tail g (t.ram.setNextWriteOffset p (4 * ((L p).length + b.length) + 4)) L' st' p b') ∨
        (r = .writeError ∧ NotAppended g f K L st p b e s t))) s := by
  have hknown := ht.known h
  have hsilent : Silent (b ++ [e]) := ht.silent.append (.singleton hs)
  have hskip : ∀ n, b = List.replicate n erasedEntry → n < g.entriesPerBlock →
      (∀ c, st ≠ some (p, c)) →
      wp (writeEntry g p (4 * ((L p).length + b.length)) e) (fun r t => Kept s.ram t.ram ∧
        ((r = .ok ∧ ∃ L' st' b', Appended g f K L st p b [e] L' st' b' t ∧ OwnStage st' p b' ∧
            Tail g (t.ram.setNextWriteOffset p (4 * ((L p).length + b.length) + 4)) L' st' p b') ∨
          (r = .writeError ∧ NotAppended g f K L st p b e s t))) s := by
    intro n hb hlt' hst
    have hlen : b.length = n := by rw [hb, List.length_replicate]
    have hplace : place [] b.length e = b ++ [e] := by rw [place_nil, hlen, ← hb]
    have hok := blockOk_concat (hlen ▸ hlt') hknown he hne
    cases st with
    | none =>
      apply writeEntry_stay h (Or.inl ⟨rfl, rfl⟩) (hlen ▸ hlt') hlt
      apply stageAndFlush_tail h (Or.inl ⟨rfl, rfl⟩) hplace (Nat.zero_le _) hok (by omega) hne hsilent hn
      · rintro m rfl
        rw [staging_entries_idle h.staged]
        omega
      · exact hK'
    | some w =>
      obtain ⟨q, c⟩ := w
      have hq : q ≠ p := fun hq => hst c (by rw [hq])
      obtain ⟨hd, hpage, _⟩ := h.staged
      have hother : L.flushed g (some (q, c)) p = L p := Logs.flushed_other (Ne.symm hq)
      apply writeEntry_tail_displace h (Or.inl hq) (hlen ▸ hlt') hplace hok
        (by rw [hother]) (by rw [hother]) hlt hne hsilent ?_ hK hK'
      rw [flushed_next (Or.inl (by rw [hn, hpage]; exact Ne.symm hq)), hn]
  have hle := ht.length_le h
  cases ht with
  | unknown hst _ => exact hskip 0 rfl g.entriesPerBlock_pos hst
  | clean n hst _ hlt' => exact hskip n rfl hlt' hst
  | filling b hst _ _ hentries hfull =>
    subst hst
    obtain ⟨hd, hpage, hoff, _, hroom, hok⟩ := h.staged
    rcases Nat.lt_or_ge b.length g.entriesPerBlock with hpart | hpart
    · apply writeEntry_stay h (Or.inr rfl) hpart hlt
      apply stageAndFlush_tail h (Or.inr rfl) place_at_end (by omega)
        (blockOk_concat hpart hknown he hne) hroom hne hsilent hn
      · rintro m rfl
        rw [staging_entries_dirty hd]
        omega
      · intro T hT
        have := hK' T hT
        rwa [Logs.flushed, Logs.set_set] at this
    · -- slots were skipped: the block is full with fewer entries than it has room for
      have hlen : b.length = g.entriesPerBlock := Nat.le_antisymm hle hpart
      have hpad : (L.flushed g (some (p, b)) p).length = (L p).length + b.length := by
        rw [Logs.flushed_self, List.length_append, length_pad hok.fits, hlen]
      have hpos := g.entriesPerBlock_pos
      apply writeEntry_tail_displace h (d := []) (Or.inr (by omega)) hpos place_nil
        (blockOk_concat hpos (by simp) he hne) ?_ hpad hlt hne (.singleton hs) ?_ hK hK'
      · rw [List.append_nil, Logs.flushed_self, live_append, live_pad, live_append]
      · rw [flushed_next (Or.inr (Or.inr ?_)), hn]
        rw [hn, hoff, g.writeBlockSize_eq, hlen, Nat.mul_add]
  | refused b r hst _ _ hb hentries =>
    subst hst
    obtain ⟨hd, hpage, hoff, _, hroom, hok⟩ := h.staged
    apply writeEntry_stay h (Or.inr rfl) (by omega) hlt
    apply stageAndFlush_tail h (Or.inr rfl) place_over (by simp)
      (blockOk_concat (by omega) hknown he hne) hroom hne hsilent hn
    · rintro m rfl
      rw [staging_entries_dirty hd]
      omega
    · intro T hT
      have := hK' T hT
      rwa [Logs.flushed, Logs.set_set] at this

theorem Tail.known_next (ht : Tail g s.ram L st p b)
    (hn : s.ram.nextWriteOffsetCache.page = p ∧ s.ram.nextWriteOffsetCache.offset ≠ 0) :
    s.ram.nextWriteOffsetCache = ⟨p, 4 * ((L p).length + b.length)⟩ := by
  cases ht with
  | unknown _ h => exact (h.elim (absurd hn.1) fun h => absurd h hn.2)
  | clean n _ h => rw [h, List.length_replicate]
  | filling b _ _ h => exact h
  | refused b r _ _ h => exact h

/-- Where the offset is not known, the scan finds it. -/
theorem Tail.unknown_next (h : Sees g f K L st s) (ht : Tail g s.ram L st p b)
    (hn : ¬ (s.ram.nextWriteOffsetCache.page = p ∧ s.ram.nextWriteOffsetCache.offset ≠ 0)) :
    b = [] ∧ Tail g (s.ram.setNextWriteOffset p (4 * (L p).length)) L st p [] := by
  have hscan : (∀ c, st ≠ some (p, c)) →
      Tail g (s.ram.setNextWriteOffset p (4 * (L p).length)) L st p [] := fun hst =>
    Tail.clean 0 hst rfl g.entriesPerBlock_pos
  have hzero : ∀ m, s.ram.nextWriteOffsetCache = ⟨p, 4 * ((L p).length + m)⟩ →
      (L p).length = 0 ∧ m = 0 := by
    intro m hm
    by_contra hne
    refine hn ⟨by rw [hm], ?_⟩
    rw [hm]
    show 4 * ((L p).length + m) ≠ 0
    omega
  cases ht with
  | unknown hst _ => exact ⟨rfl, hscan hst⟩
  | clean n hst h =>
    rw [(hzero n h).2]
    exact ⟨rfl, hscan hst⟩
  | filling b hst _ hnext =>
    subst hst
    obtain ⟨_, he, _⟩ := h.staged.2.2.2.2.2.used
    rw [List.eq_nil_of_length_eq_zero (hzero _ hnext).2] at he
    exact absurd he List.not_mem_nil
  | refused b r hst hs hnext hb he =>
    obtain rfl := List.eq_nil_of_length_eq_zero (hzero _ hnext).2
    exact ⟨rfl, Tail.refused [] r hst hs rfl hb he⟩

/-- A flush of the page's own block moves the offset behind it, unless the block starts at the
offset itself. -/
theorem Tail.flushed_own (h : Sees g f K L (some (p, c)) s)
    (ht : Tail g s.ram L (some (p, c)) p b)
    (hstale : s.ram.nextWriteOffsetCache.offset ≠ 4 * (L p).length) :
    Tail g (s.ram.flushed g) (L.flushed g (some (p, c))) none p [] := by
  obtain ⟨hd, hpage, hoff, _, hroom, hok⟩ := h.staged
  have hblock := g.writeBlockSize_eq
  have hlen : (L.flushed g (some (p, c)) p).length = (L p).length + g.entriesPerBlock := by
    rw [Logs.flushed_self, List.length_append, length_pad hok.fits]
  have hend : s.ram.nextWriteOffsetCache = ⟨p, 4 * ((L p).length + b.length)⟩ →
      b.length ≤ g.entriesPerBlock →
      Tail g (s.ram.flushed g) (L.flushed g (some (p, c))) none p [] := by
    intro hn hle
    refine Tail.clean 0 (fun c hc => by cases hc) ?_ g.entriesPerBlock_pos
    rw [hn] at hstale
    dsimp only at hstale
    rcases Nat.lt_or_ge b.length g.entriesPerBlock with hlt | hge
    · rw [flushed_next_inside hd (by rw [hn, hpage]) (by rw [hn, hoff]; dsimp only; omega)
        (by rw [hn, hoff]; dsimp only; omega), hpage, hoff, hlen]
      congr 1
      omega
    · rw [flushed_next (Or.inr (Or.inr (by rw [hn, hoff]; dsimp only; omega))), hn, hlen]
      congr 1
      omega
  have hle := ht.length_le h
  cases ht with
  | unknown hst => exact absurd rfl (hst c)
  | clean n hst => exact absurd rfl (hst c)
  | filling b _ _ hn => exact hend hn hle
  | refused b r _ _ hn => exact hend hn hle

/-- A flush of another page's block leaves the end of the page alone. -/
theorem Tail.flushed_other (h : Sees g f K L st s) (ht : Tail g s.ram L st p b)
    (hst : ∀ c, st ≠ some (p, c)) : Tail g (s.ram.flushed g) (L.flushed g st) none p b := by
  have hlog : L.flushed g st p = L p := by
    cases st with
    | none => rfl
    | some w => exact Logs.flushed_other fun hp => hst w.2 (by rw [hp])
  have hnext : s.ram.nextWriteOffsetCache.page = p →
      (s.ram.flushed g).nextWriteOffsetCache = s.ram.nextWriteOffsetCache := by
    intro hp
    cases st with
    | none => rw [flushed_clean h.staged]
    | some w =>
      apply flushed_next (Or.inl _)
      rw [hp, h.staged.2.1]
      exact fun hw => hst w.2 (by rw [hw])
  cases ht with
  | unknown _ hn =>
    refine Tail.unknown (fun c hc => by cases hc) ?_
    rw [flushed_next_page]
    by_cases hp : s.ram.nextWriteOffsetCache.page = p
    · rw [hnext hp]
      exact hn
    · exact Or.inl hp
  | clean n _ hn hlt =>
    refine Tail.clean n (fun c hc => by cases hc) ?_ hlt
    rw [hnext (by rw [hn]), hn, hlog]
  | filling b hb => exact absurd hb (hst _)
  | refused b r hb => exact absurd hb (hst _)

/-- An offset that is set to what it is leaves the view alone. -/
theorem Sees.setNext (h : Sees g f K L st s) (q : Page) (o : Nat) :
    Sees g f K L st { s with ram := s.ram.setNextWriteOffset q o } :=
  h.withRam (by cases st <;> exact h.staged)

/-- What a successful `append` of `e` leaves. -/
def Accepted (g : Geometry) (f : Faults) (K : Logs → Prop) (L : Logs)
    (st : Option (Page × List Entry)) (p : Page) (b : List Entry) (e : Entry) (s t : State) :
    Prop :=
  Kept (s.ram.setCache e.address.toNat e.value) t.ram ∧
    ∃ L' st' b', Appended g f K L st p b [e] L' st' b' t ∧ OwnStage st' p b' ∧
      Tail g t.ram L' st' p b'

theorem appendEntry_spec (h : Sees g f K L st s) (ht : Tail g s.ram L st p b)
    (hn : s.ram.nextWriteOffsetCache = ⟨p, 4 * ((L p).length + b.length)⟩)
    (hlt : (L p).length + b.length < g.pageEntries) (he : KnownAddress g e)
    (hne : e ≠ erasedEntry) (hs : statusOf e = none) (hK : K (L.flushed g st))
    (hK' : ∀ T, live T = live (L p ++ b) ++ [e] → K ((L.flushed g st).set p T)) :
    wp (appendEntry g p (4 * ((L p).length + b.length)) e) (fun r t =>
      (r = .ok ∧ Accepted g f K L st p b e s t) ∨
      (r = .writeError ∧ Kept s.ram t.ram ∧ NotAppended g f K L st p b e s t)) s := by
  rw [appendEntry]
  apply wp_bind_of (writeEntry_tail h ht hn hlt he hne hs hK hK')
  rintro r t ⟨hkept, ⟨rfl, L', st', b', happ, hown, htail⟩ | ⟨rfl, hnot⟩⟩
  · have hcache : (t.ram.setCache e.address.toNat e.value).cache =
        (s.ram.setCache e.address.toNat e.value).cache := by
      rw [Ram.setCache, Ram.setCache, hkept.cache]
    left
    refine ⟨rfl, ⟨hcache, hkept.statuses, hkept.dirty⟩, L', st', b', ⟨?_, happ.content,
      happ.length, happ.others⟩, hown, htail.withRam rfl rfl⟩
    exact happ.sees.withRam (by cases st' <;> exact happ.sees.staged)
  · exact Or.inr ⟨rfl, hkept, hnot⟩

theorem user_known (he : e.address.toNat < g.maxAddress) : KnownAddress g e := Or.inr he

theorem user_ne_erased (he : e.address ≠ reservedStatusAddress) : e ≠ erasedEntry := by
  rintro rfl
  exact he rfl

theorem user_silent (he : e.address ≠ reservedStatusAddress) : statusOf e = none := if_neg he

/-- What a write that is not accepted leaves: the accepted entries are still there, and at most
the refused one is staged behind them. -/
def Declined (g : Geometry) (f : Faults) (K : Logs → Prop) (L : Logs)
    (st : Option (Page × List Entry)) (p : Page) (b : List Entry) (e : Entry) (s t : State) :
    Prop :=
  Kept s.ram t.ram ∧ ∃ L' st' b', Sees g f K L' st' t ∧ Tail g t.ram L' st' p b' ∧
    live (L' p ++ b') = live (L p ++ b) ∧
    (L' p).length + b'.length = (L p).length + b.length ∧
    (st' = st ∧ L' = L ∧ b' = b ∨
      st' = some (p, b' ++ [e]) ∧ (∀ q, q ≠ p → L' q = L.flushed g st q) ∧
        BlockFault g f (b' ++ [e]))

theorem Declined.same (hk : Kept s.ram t.ram) (h : Sees g f K L st t)
    (ht : Tail g t.ram L st p b) : Declined g f K L st p b e s t :=
  ⟨hk, L, st, b, h, ht, rfl, rfl, Or.inl ⟨rfl, rfl, rfl⟩⟩

theorem NotAppended.declined {u : State} (h : NotAppended g f K L st p b e u t)
    (hu : Tail g u.ram L st p b) (hk : Kept s.ram t.ram) :
    Declined g f K L st p b e s t ∧ ∃ c, BlockFault g f c := by
  rcases h with ⟨hram, hsees, q, c, _, hfault⟩ | ⟨L', b', happ, htail, hfault⟩
  · exact ⟨.same hk hsees (hram ▸ hu), c, hfault⟩
  · exact ⟨⟨hk, L', _, b', happ.sees, htail, by rw [happ.content, List.append_nil],
      by rw [happ.length, List.length_nil, Nat.add_zero],
      Or.inr ⟨rfl, happ.others, hfault⟩⟩, _, hfault⟩

/-- Why a write to a page that takes `n` more entries before it is full is not accepted. -/
def Refusal (g : Geometry) (f : Faults) (used : Nat) (r : WriteStatus) : Prop :=
  r = .pageFull ∧ g.pageEntries ≤ used ∨
    r = .writeError ∧ (ReadFault f ∨ ∃ c, BlockFault g f c)

/-- An immediate write of an address the instance has, to a page whose end is known or can be
found. -/
theorem writeInternal_spec (h : Sees g f K L st s)
    (hp : findValidPage s.ram.pageStatusCache .write = some p) (ht : Tail g s.ram L st p b)
    (he : e.address ≠ reservedStatusAddress) (ha : e.address.toNat < g.maxAddress)
    (hK : K (L.flushed g st))
    (hK' : ∀ T, live T = live (L p ++ b) ++ [e] → K ((L.flushed g st).set p T)) :
    wp (writeInternal g e) (fun r t =>
      (r = .ok ∧ Accepted g f K L st p b e s t) ∨
      (r ≠ .ok ∧ Declined g f K L st p b e s t ∧
        Refusal g f ((L p).length + b.length) r)) s := by
  have hsize := g.pageSize_eq
  rw [writeInternal]
  apply wp_ite
  · intro hbad
    rcases hbad with hbad | hbad
    · exact absurd hbad he
    · omega
  · intro _
    simp only [Bool.false_eq_true, if_false]
    rw [wp_bind, wp_get]
    simp only [hp]
    apply wp_ite
    · intro hn
      have hnext := ht.known_next hn
      rw [hnext]
      apply wp_ite
      · intro hfull
        refine Or.inr ⟨nofun, .same (Kept.refl _) h ht, Or.inl ⟨rfl, ?_⟩⟩
        dsimp only at hfull
        omega
      · intro hroom
        dsimp only at hroom ⊢
        apply wp_mono (appendEntry_spec h ht hnext (by omega) (user_known ha) (user_ne_erased he)
          (user_silent he) hK hK')
        rintro r t (⟨rfl, hacc⟩ | ⟨rfl, hkept, hnot⟩)
        · exact Or.inl ⟨rfl, hacc⟩
        · obtain ⟨hdec, hfault⟩ := hnot.declined ht hkept
          exact Or.inr ⟨nofun, hdec, Or.inr ⟨rfl, Or.inr hfault⟩⟩
    · intro hn
      obtain ⟨rfl, htail⟩ := ht.unknown_next h hn
      apply wp_bind_of (refreshNextWriteOffset_spec h p)
      rintro r t ⟨k, ⟨rfl, rfl⟩ | ⟨rfl, hfault, rfl⟩⟩
      · have hsees := (h.setNext p (4 * (L p).length)).atCalls k
        simp only [Bool.not_true, Bool.false_eq_true, if_false]
        rw [wp_bind, wp_get]
        apply wp_ite
        · intro hfull
          have : g.pageSize ≤ 4 * (L p).length := hfull
          refine Or.inr ⟨nofun, .same ⟨rfl, rfl, rfl⟩ hsees htail, Or.inl ⟨rfl, ?_⟩⟩
          rw [List.length_nil]
          omega
        · intro hroom
          have : ¬ g.pageSize ≤ 4 * (L p).length := hroom
          apply wp_mono (appendEntry_spec hsees htail rfl (by rw [List.length_nil]; omega)
            (user_known ha) (user_ne_erased he) (user_silent he) hK hK')
          rintro r t (⟨rfl, hkept, hacc⟩ | ⟨rfl, hkept, hnot⟩)
          · exact Or.inl ⟨rfl, ⟨hkept.cache, hkept.statuses, hkept.dirty⟩, hacc⟩
          · obtain ⟨hdec, hfault⟩ := hnot.declined (s := s) htail
              ⟨hkept.cache, hkept.statuses, hkept.dirty⟩
            exact Or.inr ⟨nofun, hdec, Or.inr ⟨rfl, Or.inr hfault⟩⟩
      · exact Or.inr ⟨nofun, .same ⟨rfl, rfl, rfl⟩ (h.atCalls k) ht,
          Or.inr ⟨rfl, Or.inl hfault⟩⟩

end Zlibs.EmuEeprom
