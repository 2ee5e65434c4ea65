import Zlibs.EmuEeprom.Records

/-! What the cached write offset says of the page it belongs to, whatever is called. -/
namespace Zlibs.EmuEeprom

open Zlibs.Lib

variable {g : Geometry} {N N' : Logs} {s t : State} {S T c d : List Entry} {A p q : Page}
  {e : Entry} {r ram : Ram}

/-- The cached offset is unknown or that of the first erased block, unless its page is erased. -/
def Aimed (N : Logs) (next : NextWriteOffsetCache) : Prop :=
  next.offset = 0 ∨ N next.page = [] ∨ next.offset = 4 * (N next.page).length

theorem Aimed.congr {next : NextWriteOffsetCache} (h : Aimed N next)
    (hN : N' next.page = N next.page) : Aimed N' next := by
  rw [Aimed, hN]
  exact h

/-- Nothing waits, or a block of entries that are no status records. -/
inductive Position (g : Geometry) (N : Logs) (r : Ram) : Prop
  | idle (hd : r.writeBlockDirty = false) (ha : Aimed N r.nextWriteOffsetCache) : Position g N r
  | waiting {p : Page} {c : List Entry} (hw : Waits g N p c r) (hc : c.length < g.entriesPerBlock)
      (hs : Silent c) (hp : p ≠ .factory) (hx : r.pageStatusCache p ≠ .erased)
      (hn : r.nextWriteOffsetCache = ⟨p, 4 * ((N p).length + c.length)⟩ ∨
        r.nextWriteOffsetCache.page ≠ p ∧
        findValidPage r.pageStatusCache .write = some r.nextWriteOffsetCache.page ∧
        Aimed N r.nextWriteOffsetCache) : Position g N r

/-- The members agree with the logs on the flash, as far as they were read. -/
def Synced (N : Logs) (statuses : Page → PageStatus) : Prop :=
  ∀ p, p ≠ .factory → statuses p = .erased ∨ statuses p = lastStatus (N p)

structure Consistent (g : Geometry) (N : Logs) (s : State) : Prop extends Lays g N s where
  synced : Synced N s.ram.pageStatusCache
  runtime : s.ram.nextWriteOffsetCache.page ≠ .factory
  position : Position g N s.ram

theorem Consistent.atCalls (h : Consistent g N s) (n : Nat) : Consistent g N (s.atCalls n) :=
  ⟨h.toLays.atCalls n, h.synced, h.runtime, h.position⟩

/-- The mirror does not matter. -/
theorem Consistent.withMirror (h : Consistent g N s) (cache : Nat → UInt16) (cacheDirty : Bool) :
    Consistent g N ⟨{ s.ram with cache := cache, cacheDirty := cacheDirty }, s.hwa⟩ := by
  refine ⟨h.toLays.withRam _, h.synced, h.runtime, ?_⟩
  cases h.position with
  | idle hd ha => exact .idle hd ha
  | waiting hw hc hs hp hx hn => exact .waiting (hw.congr rfl rfl rfl rfl rfl rfl) hc hs hp hx hn

theorem find_ne_erased {statuses : Page → PageStatus} {op : PageOperation}
    (h : findValidPage statuses op = some p) : statuses p ≠ .erased := by
  intro he
  cases op <;> rw [findValidPage] at h <;> split_ifs at h <;> cases h <;> simp_all

theorem find_runtime {statuses : Page → PageStatus} {op : PageOperation}
    (h : findValidPage statuses op = some p) : p ≠ .factory := by
  rintro rfl
  exact findValidPage_runtime h

theorem findValidPage_congr {statuses statuses' : Page → PageStatus}
    (h : ∀ p, p ≠ .factory → statuses' p = statuses p) (op : PageOperation) :
    findValidPage statuses' op = findValidPage statuses op := by
  cases op <;> rw [findValidPage, findValidPage, h .page1 (by decide), h .page2 (by decide)]

theorem Synced.eq {statuses : Page → PageStatus} (h : Synced N statuses) (hp : p ≠ .factory)
    (hx : statuses p ≠ .erased) : statuses p = lastStatus (N p) := (h p hp).resolve_left hx

theorem Synced.congr {statuses : Page → PageStatus} (h : Synced N statuses)
    (hN : ∀ p, lastStatus (N' p) = lastStatus (N p)) : Synced N' statuses := by
  intro p hp
  rw [hN]
  exact h p hp

/-- A page that is found has records. -/
theorem Synced.ne_nil {statuses : Page → PageStatus} {op : PageOperation} (h : Synced N statuses)
    (hp : findValidPage statuses op = some p) : N p ≠ [] := by
  intro hnil
  have hx := find_ne_erased hp
  have heq := h.eq (find_runtime hp) hx
  rw [hnil] at heq
  exact hx heq

theorem Aimed.covers {next : NextWriteOffsetCache} (h : Aimed N next) (hne : N p ≠ [])
    (hpage : next.page = p) : next.offset = 0 ∨ next.offset = 4 * (N p).length := by
  subst hpage
  rcases h with h | h | h
  · exact .inl h
  · exact absurd h hne
  · exact .inr h

theorem Consistent.covers (h : Consistent g N s) (p : Page) : Covers s.ram p (N p) := by
  intro hfind hpage
  have hne := h.synced.ne_nil hfind
  cases h.position with
  | idle hd ha => exact (ha.covers hne hpage).imp_right fun h => ⟨_, le_rfl, h⟩
  | waiting hw hc hs hp hx hn =>
    rcases hn with hn | ⟨_, _, ha⟩
    · rw [hn] at hpage
      cases hpage
      exact .inr ⟨_, Nat.le_add_right _ _, by rw [hn]⟩
    · exact (ha.covers hne hpage).imp_right fun h => ⟨_, le_rfl, h⟩

theorem Consistent.relocated (h : Consistent g N s) (hr : Relocated s.ram p (N p) ram) :
    Consistent g N ⟨ram, s.hwa⟩ := by
  rcases hr with rfl | ⟨hfind, hne, rfl⟩
  · exact h
  · refine ⟨h.toLays.withRam _, h.synced, find_runtime hfind, ?_⟩
    cases h.position with
    | idle hd ha => exact .idle hd (.inr (.inr rfl))
    | @waiting q c hw hc hs hq hx hn =>
      have hpq : p ≠ q := by
        rintro rfl
        have hpos := List.length_pos_of_ne_nil hw.ne_nil
        rcases hn with hn | ⟨hpage, hfind', _⟩
        · rw [hn] at hne
          rcases hne with hne | hne
          · exact hne rfl
          · dsimp only at hne
            omega
        · exact hpage (Option.some.inj (hfind'.symm.trans hfind))
      exact .waiting (hw.congr rfl rfl rfl rfl rfl rfl) hc hs hq hx
        (.inr ⟨hpq, hfind, .inr (.inr rfl)⟩)

/-- Reading a status again changes nothing for a page whose status is known. -/
theorem Consistent.setStatus (h : Consistent g N s) (p : Page) :
    Consistent g N ⟨s.ram.setPageStatus p (lastStatus (N p)), s.hwa⟩ := by
  have hsame : ∀ q, q ≠ .factory → s.ram.pageStatusCache q ≠ .erased →
      (s.ram.setPageStatus p (lastStatus (N p))).pageStatusCache q = s.ram.pageStatusCache q := by
    intro q hq hx
    by_cases hqp : q = p
    · rw [h.synced.eq hq hx, ← hqp]
      exact if_pos rfl
    · exact if_neg hqp
  refine ⟨h.toLays.withRam _, ?_, h.runtime, ?_⟩
  · intro q hq
    by_cases hqp : q = p
    · rw [hqp]
      exact .inr (if_pos rfl)
    · change (if q = p then _ else s.ram.pageStatusCache q) = _ ∨
        (if q = p then _ else s.ram.pageStatusCache q) = _
      rw [if_neg hqp]
      exact h.synced q hq
  · cases h.position with
    | idle hd ha => exact .idle hd ha
    | @waiting q c hw hc hs hq hx hn =>
      refine .waiting (hw.congr rfl rfl rfl rfl rfl rfl) hc hs hq (by rwa [hsame q hq hx]) ?_
      refine hn.imp_right fun ⟨hpage, hfind, ha⟩ => ⟨hpage, ?_, ha⟩
      refine (findValidPage_congr (fun y hy => hsame y hy ?_) .write).trans hfind
      -- both runtime pages are known by now
      rcases Page.runtime_cases hq hy with rfl | rfl
      · exact hx
      · have hnext := find_ne_erased hfind
        rwa [(Page.runtime_cases hq h.runtime).resolve_left hpage] at hnext

theorem Consistent.refresh (h : Consistent g N s) (p : Page) :
    wp (refreshPageStatus g p) (fun r t => r = true ∧ Consistent g N t ∧
      t.ram.pageStatusCache p = lastStatus (N p) ∧
      (p = .factory → t.ram.nextWriteOffsetCache = s.ram.nextWriteOffsetCache)) s := by
  apply wp_mono (refreshPageStatus_blocks (h.blocks p) (h.flash p) h.faults (h.covers p))
  rintro r t ⟨rfl, n, ram, rfl, hr⟩
  refine ⟨rfl, ((h.relocated hr).setStatus p).atCalls n, if_pos rfl, fun hp => ?_⟩
  rcases hr with rfl | ⟨hfind, _, rfl⟩
  · rfl
  · exact absurd hp (find_runtime hfind)

theorem lastStatus_set_pad (hs : Silent c) (q : Page) :
    lastStatus (N.set p (N p ++ pad g c) q) = lastStatus (N q) := by
  by_cases hq : q = p
  · rw [hq, Logs.set_self]
    exact (hs.append silent_replicate).lastStatus
  · rw [Logs.set_ne hq]

/-- A block that is programmed moves an offset within it behind it. -/
theorem Waits.flushed_next (hw : Waits g N p c r) (hc : c.length < g.entriesPerBlock)
    (hn : r.nextWriteOffsetCache = ⟨p, 4 * ((N p).length + c.length)⟩) :
    (r.flushed g).nextWriteOffsetCache = ⟨p, 4 * (N p ++ pad g c).length⟩ := by
  have hpos := List.length_pos_of_ne_nil hw.ne_nil
  have hsize := g.writeBlockSize_eq
  have hin : r.nextWriteOffsetCache.page = r.writeBlockPage ∧
      r.nextWriteOffsetCache.offset > r.writeBlockOffset ∧
      r.nextWriteOffsetCache.offset < r.writeBlockOffset + g.writeBlockSize := by
    rw [hn, hw.page, hw.offset]
    dsimp only
    exact ⟨rfl, by omega, by omega⟩
  rw [Ram.flushed, if_pos hw.dirty, if_pos hin, hw.page, hw.offset, List.length_append,
    length_pad hw.fits, Nat.mul_add, hsize]
  rfl

theorem Consistent.flush (h : Consistent g N s) :
    wp (flushWriteBlock g) (fun r t => r = true ∧ t.ram.writeBlockDirty = false ∧
      Kept s.ram t.ram ∧ ∃ N', Consistent g N' t) s := by
  cases h.position with
  | idle hd ha =>
    rw [wp, Lays.flushIdle hd]
    exact ⟨rfl, hd, .refl _, N, h⟩
  | @waiting p c hw hc hs hp hx hn =>
    apply wp_mono (h.toLays.flush hw)
    rintro r t ⟨rfl, hram, hl⟩
    have hidle : t.ram.writeBlockDirty = false := hram ▸ flushed_idle _
    have hk : Kept s.ram t.ram := hram ▸ kept_flushed _
    have hpage : t.ram.nextWriteOffsetCache.page ≠ .factory := by
      rw [hram, flushed_next_page]
      exact h.runtime
    have haim : Aimed (N.set p (N p ++ pad g c)) t.ram.nextWriteOffsetCache := by
      rw [hram]
      rcases hn with hn | ⟨hne, _, ha⟩
      · rw [hw.flushed_next hc hn]
        exact .inr (.inr (by rw [Logs.set_self]))
      · rw [EmuEeprom.flushed_next (.inl (by rwa [hw.page]))]
        exact ha.congr (Logs.set_ne hne)
    refine ⟨rfl, hidle, hk, _, hl, ?_, hpage, .idle hidle haim⟩
    rw [hk.statuses]
    exact h.synced.congr (lastStatus_set_pad hs)

/-- What an entry for the page to write finds staged. -/
theorem Consistent.target (h : Consistent g N s)
    (hp : findValidPage s.ram.pageStatusCache .write = some p) :
    ∃ c N', Target g N p s.ram c N' ∧ AtEnd N p c s.ram.nextWriteOffsetCache ∧ Silent c ∧
      (∀ q, lastStatus (N' q) = lastStatus (N q)) ∧ (c = [] → ∀ d, ¬ Waits g N p d s.ram) := by
  have hne := h.synced.ne_nil hp
  have hend : Aimed N s.ram.nextWriteOffsetCache → AtEnd N p [] s.ram.nextWriteOffsetCache := by
    intro ha
    by_cases hpage : s.ram.nextWriteOffsetCache.page = p
    · rcases ha.covers hne hpage with h0 | hn
      · exact .inr ⟨rfl, .inr h0⟩
      · refine .inl ?_
        rw [List.length_nil, Nat.add_zero, ← hn, ← hpage]
    · exact .inr ⟨rfl, .inl hpage⟩
  cases h.position with
  | idle hd ha =>
    refine ⟨[], N, .idle hd, hend ha, nofun, fun _ => rfl, fun _ d hw => ?_⟩
    rw [hw.dirty] at hd
    cases hd
  | @waiting q c hw hc hs hq hx hn =>
    by_cases hqp : q = p
    · subst hqp
      refine ⟨c, N, .own hw hc, .inl ?_, hs, fun _ => rfl, fun hnil => absurd hnil hw.ne_nil⟩
      refine hn.resolve_right fun ⟨hpage, hfind, _⟩ => hpage ?_
      exact Option.some.inj (hfind.symm.trans hp)
    · refine ⟨[], _, .other hw hqp, ?_, nofun, lastStatus_set_pad hs, fun _ d hw' =>
        hqp (hw.page.symm.trans hw'.page)⟩
      rcases hn with hn | ⟨_, _, ha⟩
      · exact .inr ⟨rfl, .inl (by rw [hn]; exact hqp)⟩
      · exact hend ha

theorem Added.consistent (hadd : Added g N' p c e t) (hs : Silent c)
    (he : e.address ≠ reservedStatusAddress) (hp : p ≠ .factory)
    (hx : t.ram.pageStatusCache p ≠ .erased) (hsync : Synced N' t.ram.pageStatusCache)
    (hn : t.ram.nextWriteOffsetCache = ⟨p, 4 * ((N' p).length + c.length + 1)⟩) :
    ∃ N'', Consistent g N'' t := by
  have hs' : Silent (c ++ [e]) := hs.append (.singleton (user_silent he))
  have hlen : (c ++ [e]).length = c.length + 1 := by simp
  have hpage : t.ram.nextWriteOffsetCache.page ≠ .factory := by
    rw [hn]
    exact hp
  rcases hadd with ⟨hlt, hl, hw⟩ | ⟨heq, hl, hd⟩
  · exact ⟨N', hl, hsync, hpage, .waiting hw (by omega) hs' hp hx
      (.inl (by rw [hn, hlen, Nat.add_assoc]))⟩
  · refine ⟨_, hl, hsync.congr (lastStatus_set_pad hs'), hpage, .idle hd (.inr (.inr ?_))⟩
    rw [hn]
    dsimp only
    rw [Logs.set_self, List.length_append, length_pad (by omega)]
    omega

theorem Consistent.writeInternal (h : Consistent g N s) (e : Entry) (cacheOnly : Bool) :
    wp (writeInternal g e cacheOnly) (fun _ t => ∃ N', Consistent g N' t) s := by
  by_cases hbad : e.address = reservedStatusAddress ∨ e.address.toNat ≥ g.maxAddress
  · rw [EmuEeprom.writeInternal, if_pos hbad]
    exact ⟨N, h⟩
  cases cacheOnly with
  | true =>
    rw [EmuEeprom.writeInternal, if_neg hbad, if_pos rfl]
    exact ⟨N, h.withMirror _ true⟩
  | false =>
    have he : e.address ≠ reservedStatusAddress := fun he => hbad (.inl he)
    have ha : e.address.toNat < g.maxAddress := by
      by_contra hge
      exact hbad (.inr (by omega))
    cases hfind : findValidPage s.ram.pageStatusCache .write with
    | none =>
      rw [EmuEeprom.writeInternal, if_neg hbad, if_neg Bool.false_ne_true, wp_bind, wp_get]
      simp only [hfind]
      exact ⟨N, h⟩
    | some p =>
      obtain ⟨c, N', htarget, hend, hs, hlast, hown⟩ := h.target hfind
      have hp := find_runtime hfind
      apply wp_mono (h.toLays.writeInternal hfind htarget hend he ha)
      rintro r t (⟨rfl, hk, hn, hadd⟩ | ⟨rfl, rfl, n, rfl⟩)
      · have hx : t.ram.pageStatusCache p ≠ .erased := by
          rw [hk.statuses]
          exact find_ne_erased hfind
        refine hadd.consistent hs he hp hx ?_ (by rw [hn, htarget.log])
        rw [hk.statuses]
        exact h.synced.congr hlast
      · have hset : Consistent g N ⟨s.ram.setNextWriteOffset p (4 * (N p).length), s.hwa⟩ := by
          refine ⟨h.toLays.withRam _, h.synced, hp, ?_⟩
          cases h.position with
          | idle hd _ => exact .idle hd (.inr (.inr rfl))
          | @waiting q d hw hc hs' hq hx hn =>
            have hpq : p ≠ q := by
              rintro rfl
              exact hown rfl d hw
            exact .waiting (hw.congr rfl rfl rfl rfl rfl rfl) hc hs' hq hx
              (.inr ⟨hpq, hfind, .inr (.inr rfl)⟩)
        exact ⟨N, hset.atCalls n⟩

end Zlibs.EmuEeprom
