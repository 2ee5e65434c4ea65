import Zlibs.EmuEeprom.Upkeep

/-! The public calls, from any state in which the members agree with the flash. -/
namespace Zlibs.EmuEeprom

open Zlibs.Lib

variable {g : Geometry} {N N' : Logs} {s t : State} {S T c d F : List Entry} {A p q : Page}
  {e : Entry} {x : PageStatus} {r : Ram}

/-- The state from which a call transfers a page, if it does. -/
def transferFrom (g : Geometry) (s : State) : Operation → Option State
  | .pageTransfer => some s
  | .flush => if s.ram.cacheDirty then some s else none
  | .storeToFactory => if s.ram.cacheDirty then some s else none
  | .write entry cacheOnly =>
    if (writeInternal g entry cacheOnly s).1 = .pageFull then
      some (writeInternal g entry cacheOnly s).2
    else none
  | _ => none

theorem Consistent.write (h : Consistent g N s) (e : Entry) (cacheOnly : Bool)
    (hbuild : ∀ u, transferFrom g s (.write e cacheOnly) = some u → Rebuilds g u) :
    wp (write g e cacheOnly) (fun _ t => ∃ N', Consistent g N' t) s := by
  rw [EmuEeprom.write]
  apply wp_ite
  · intro _
    exact ⟨N, h⟩
  · intro _
    have hwrite : wp (EmuEeprom.writeInternal g e cacheOnly) (fun r t =>
        (r, t) = EmuEeprom.writeInternal g e cacheOnly s ∧ ∃ N', Consistent g N' t) s :=
      ⟨rfl, h.writeInternal e cacheOnly⟩
    apply wp_bind_of hwrite
    rintro status t ⟨heq, N₁, h₁⟩
    apply wp_ite
    · intro hfull
      have hfrom : transferFrom g s (.write e cacheOnly) = some t := by
        rw [transferFrom, ← heq, if_pos hfull]
      apply wp_bind_of (h₁.pageTransfer (hbuild t hfrom))
      rintro status' u ⟨N₂, h₂⟩
      apply wp_ite
      · intro _
        exact h₂.writeInternal e false
      · intro _
        exact ⟨N₂, h₂⟩
    · intro _
      exact ⟨N₁, h₁⟩

theorem Consistent.flushAll (h : Consistent g N s)
    (hbuild : s.ram.cacheDirty = true → Rebuilds g s) :
    wp (EmuEeprom.flush g) (fun _ t => ∃ N', Consistent g N' t) s := by
  have hend : ∀ {N' t}, Consistent g N' t →
      wp (flushWriteBlock g) (fun _ t => ∃ N', Consistent g N' t) t := by
    intro N' t h'
    apply wp_mono h'.flush
    rintro r u ⟨_, _, _, hu⟩
    exact hu
  rw [EmuEeprom.flush, wp_bind, wp_get]
  apply wp_ite
  · intro hd
    apply wp_bind_of (h.pageTransfer (hbuild hd))
    rintro status t ⟨N₁, h₁⟩
    apply wp_ite
    · intro _
      exact ⟨N₁, h₁⟩
    · intro _
      exact hend h₁
  · intro _
    exact hend h

theorem Consistent.readEntry (h : Consistent g N s) (p : Page) (o : Nat) :
    wp (readEntry g p o) (fun _ t => Consistent g N t) s := by
  rw [EmuEeprom.readEntry]
  apply wp_ite
  · intro _
    exact h
  · intro _
    apply wp_bind_of (hwaRead_spec h.faults _ _)
    rintro r t ⟨rfl, _⟩
    cases r with
    | none => exact h.atCalls _
    | some buffer => exact h.atCalls _

theorem Consistent.readScan (h : Consistent g N s) (p : Page) (a : Nat) (below o : Nat) :
    wp (readScan g p a below o) (fun _ t => Consistent g N t) s := by
  induction below generalizing s o with
  | zero =>
    rw [EmuEeprom.readScan]
    apply wp_bind_of (h.readEntry p o)
    intro entry t ht
    cases entry with
    | none => exact ht
    | some entry =>
      apply wp_ite
      · intro _
        exact ht.withMirror _ _
      · intro _
        exact ht
  | succ below ih =>
    rw [EmuEeprom.readScan]
    apply wp_bind_of (h.readEntry p o)
    intro entry t ht
    cases entry with
    | none => exact ih ht _
    | some entry =>
      apply wp_ite
      · intro _
        exact ht.withMirror _ _
      · intro _
        exact ih ht _

theorem Consistent.read (h : Consistent g N s) (a : Nat) :
    wp (read g a) (fun _ t => Consistent g N t) s := by
  rw [EmuEeprom.read]
  apply wp_ite
  · intro _
    exact h
  intro _
  rw [wp_bind, wp_get]
  apply wp_ite
  · intro _
    exact h
  intro _
  cases findValidPage s.ram.pageStatusCache .read with
  | none => exact h
  | some p =>
    apply wp_bind_of (h.readScan p a _ _)
    intro value t ht
    cases value with
    | none => exact ht
    | some value => exact ht

theorem Consistent.pageStatus (h : Consistent g N s) (p : Page) :
    wp (pageStatus g p) (fun _ t => Consistent g N t) s := by
  rw [EmuEeprom.pageStatus]
  apply wp_bind_of (h.refresh p)
  rintro r t ⟨rfl, ht, _⟩
  exact ht

/-- A page is copied block by block up to its first erased block. -/
theorem Lays.copyBlocks_from (hne : p ≠ q) (n i : Nat)
    (hn : (i + n) * g.entriesPerBlock = g.pageEntries) (hi : i * g.entriesPerBlock ≤ (N p).length)
    (h : Lays g (N.set q ((N p).take (i * g.entriesPerBlock))) s) :
    wp (copyBlocks g p q ((List.range' i n).map (· * g.writeBlockSize))) (fun r t =>
      r = true ∧ t.ram = s.ram ∧ Lays g (N.set q (N p)) t) s := by
  have hlog : ∀ T, N.set q T p = N p := fun T => Logs.set_ne hne
  have wf : Blocks g (N p) := hlog _ ▸ h.blocks p
  have hfits := wf.fits
  induction n generalizing i s with
  | zero =>
    rw [Nat.add_zero] at hn
    have hall : (N p).take (i * g.entriesPerBlock) = N p :=
      List.take_of_length_le (by rw [hn]; exact hfits)
    exact ⟨rfl, rfl, hall ▸ h⟩
  | succ n ih =>
    rw [List.range'_succ, List.map_cons, copyBlocks]
    apply wp_bind_of (hwaRead_spec h.faults _ _)
    rintro r t ⟨rfl, rfl | ⟨_, _, hc⟩⟩
    swap
    · cases hc
    have hbytes : ∀ k < g.writeBlockSize, (Span.mk g.writeBlockSize fun k =>
        s.hwa.flash p (i * g.writeBlockSize + k)).data k =
          image (N p) (i * g.writeBlockSize + k) := by
      intro k _
      show s.hwa.flash p _ = _
      rw [h.flash p, hlog]
    have herased := erased_block_at wf rfl hbytes
    apply wp_ite
    · intro he
      have hall : (N p).take (i * g.entriesPerBlock) = N p :=
        List.take_of_length_le (herased.mp he)
      exact ⟨rfl, rfl, hall ▸ h.atCalls _⟩
    · intro he
      have hlt : i * g.entriesPerBlock < (N p).length := by
        by_contra hge
        exact he (herased.mpr (by omega))
      obtain ⟨c, hused, _, hlen, hin, hnext, himage⟩ := wf.copied (q := q) hlt
      have hwrite := (h.atCalls (s.hwa.calls + 1)).program (p := q)
        (by rw [length_copied hi]; omega)
        hlen.le hused (fun k hk => (hbytes k hk).trans (himage k hk))
      rw [hnext, ← copied_offset hi] at hwrite
      apply wp_bind_of hwrite
      rintro r t ⟨rfl, hram, hl⟩
      simp only [Bool.not_true, Bool.false_eq_true, if_false]
      apply wp_mono (ih (i + 1) (by rw [← hn]; congr 1; omega) hin hl)
      rintro r u ⟨rfl, hram', hl'⟩
      exact ⟨rfl, hram'.trans hram, hl'⟩

theorem Lays.copyBlocks (h : Lays g N s) (hne : p ≠ q) (hq : N q = []) :
    wp (copyBlocks g p q g.writeOffsets) (fun r t =>
      r = true ∧ t.ram = s.ram ∧ Lays g (N.set q (N p)) t) s := by
  have hstart : N.set q ((N p).take (0 * g.entriesPerBlock)) = N := by
    rw [Nat.zero_mul, List.take_zero, Logs.set_eq_self hq]
  rw [Geometry.writeOffsets, List.range_eq_range']
  exact Lays.copyBlocks_from hne _ 0 (by rw [Nat.zero_add, writeBlocks_entries]) (by omega) (hstart.symm ▸ h)

/-- The status of the factory page decides nothing. -/
theorem Consistent.setFactory (h : Consistent g N s) (x : PageStatus) :
    Consistent g N ⟨s.ram.setPageStatus .factory x, s.hwa⟩ := by
  have hsame : ∀ q, q ≠ .factory →
      (s.ram.setPageStatus .factory x).pageStatusCache q = s.ram.pageStatusCache q :=
    fun q hq => if_neg hq
  refine ⟨h.toLays.withRam _, fun q hq => by rw [hsame q hq]; exact h.synced q hq, h.runtime, ?_⟩
  cases h.position with
  | idle hd ha => exact .idle hd ha
  | waiting hw hc hs hq hx hn =>
    refine .waiting (hw.congr rfl rfl rfl rfl rfl rfl) hc hs hq (by rwa [hsame _ hq]) ?_
    refine hn.imp_right fun ⟨hpage, hfind, ha⟩ => ⟨hpage, ?_, ha⟩
    exact (findValidPage_congr hsame .write).trans hfind

/-- The log of the factory page belongs to no offset and no block. -/
theorem Consistent.setLog (h : Consistent g N s) (hl : Lays g (N.set .factory T) t)
    (hram : t.ram = s.ram) : Consistent g (N.set .factory T) t := by
  have hsame : ∀ q, q ≠ .factory → N.set .factory T q = N q := fun q hq => Logs.set_ne hq
  refine ⟨hl, fun q hq => by rw [hram, hsame q hq]; exact h.synced q hq,
    by rw [hram]; exact h.runtime, ?_⟩
  rw [hram]
  cases h.position with
  | idle hd ha => exact .idle hd (ha.congr (hsame _ h.runtime))
  | waiting hw hc hs hq hx hn =>
    refine .waiting (hw.congr (hsame _ hq) rfl rfl rfl rfl rfl) hc hs hq hx ?_
    rw [hsame _ hq]
    exact hn.imp_right fun ⟨hpage, hfind, ha⟩ => ⟨hpage, hfind, ha.congr (hsame _ h.runtime)⟩

theorem Consistent.storeActive (h : Consistent g N s) :
    wp (storeActive g) (fun _ t => ∃ N', Consistent g N' t) s := by
  rw [EmuEeprom.storeActive, wp_bind, wp_get]
  cases hread : findValidPage s.ram.pageStatusCache .read with
  | none => exact ⟨N, h⟩
  | some A =>
    have hA := find_runtime hread
    apply wp_bind_of (h.toLays.erase .factory)
    rintro r t ⟨rfl, hram, hl⟩
    simp only [Bool.not_true, Bool.false_eq_true, if_false]
    have ht := (h.setLog hl hram).setFactory .erased
    rw [wp_bind, wp_modifyRam]
    apply wp_bind_of (ht.toLays.copyBlocks hA Logs.set_self)
    rintro r u ⟨rfl, hram', hl'⟩
    simp only [Bool.not_true, Bool.false_eq_true, if_false]
    rw [wp_bind, wp_modifyRam]
    exact ⟨_, (ht.setLog hl' hram').setFactory _⟩

theorem Consistent.storeToFactory (h : Consistent g N s)
    (hbuild : s.ram.cacheDirty = true → Rebuilds g s) :
    wp (storeToFactory g) (fun _ t => ∃ N', Consistent g N' t) s := by
  rw [storeToFactory_eq]
  apply wp_bind_of (h.flushAll hbuild)
  rintro r t ⟨N₁, h₁⟩
  apply wp_ite
  · intro _
    exact ⟨N₁, h₁⟩
  · intro _
    exact h₁.storeActive

/-- `activate` over an erased page 2. -/
theorem Lays.activate (h : Lays g N s) (hd : s.ram.writeBlockDirty = false)
    (h2 : N .page2 = []) :
    wp (activate g) (fun r t =>
      (r = true ∧ (N .page1).length < g.pageEntries ∧
        Lays g ((N.marked g .page1 .valid).marked g .page2 .formatted) t ∧
        t.ram.writeBlockDirty = false ∧ t.ram.pageStatusCache .page1 = .valid ∧
        t.ram.pageStatusCache .page2 = .formatted ∧ t.ram.nextWriteOffsetCache = ⟨.page1, 0⟩) ∨
      (r = false ∧ (N .page1).length = g.pageEntries ∧ ∃ n, t = s.atCalls n)) s := by
  rw [EmuEeprom.activate]
  apply wp_bind_of (h.mark hd (x := .valid) (by decide) .page1)
  rintro r t (⟨rfl, hroom, hl, hd', hk, _⟩ | ⟨rfl, hfull, n, rfl⟩)
  · simp only [Bool.not_true, Bool.false_eq_true, if_false]
    apply wp_bind_of (hl.mark hd' (x := .formatted) (by decide) .page2)
    rintro r u (⟨rfl, _, hl', hd'', hk', _⟩ | ⟨_, hfull, _⟩)
    · have h1 : u.ram.pageStatusCache .page1 = .valid := by
        rw [hk'.statuses]
        change t.ram.pageStatusCache .page1 = .valid
        rw [hk.statuses]
        rfl
      have h2' : u.ram.pageStatusCache .page2 = .formatted := by
        rw [hk'.statuses]
        rfl
      exact .inl ⟨rfl, hroom, hl'.withRam _, hd'', h1, h2', rfl⟩
    · have hpos := pageEntries_pos (g := g)
      rw [Logs.marked_ne (q := .page2) (p := .page1) (by decide), h2, List.length_nil] at hfull
      omega
  · exact .inr ⟨rfl, hfull, n, rfl⟩

theorem activated_synced {statuses : Page → PageStatus} (h1 : statuses .page1 = .valid)
    (h2 : statuses .page2 = .formatted) :
    Synced ((N.marked g .page1 .valid).marked g .page2 .formatted) statuses := by
  refine .marked (fun q hq hne => ?_) h2 nofun
  obtain rfl : q = .page1 := by
    cases q with
    | page1 => rfl
    | page2 => exact absurd rfl hne
    | factory => exact absurd rfl hq
  rw [lastStatus_marked (x := .valid) nofun]
  exact .inr h1

/-- `format` needs to know nothing of the pages it erases. -/
theorem format_consistent (hf : s.hwa.fails = never) (hF : s.hwa.flash .factory = image F)
    (hB : Blocks g F) (formatFactoryPage : Bool) :
    wp (format g formatFactoryPage) (fun r t => r = true ∧
      t.ram.pageStatusCache .page1 = .valid ∧ t.ram.pageStatusCache .page2 = .formatted ∧
      ∃ N', Consistent g N' t) s := by
  rw [format_eq, wp_bind, wp_modifyRam]
  apply wp_bind_of (erase_never (s := ⟨s.ram.clearWriteBlock, s.hwa⟩) hf)
  rintro r t ⟨rfl, hram, hft, hflash⟩
  simp only [Bool.not_true, Bool.false_eq_true, if_false]
  rw [wp_bind, wp_modifyRam]
  apply wp_bind_of (erase_never (s := ⟨t.ram.setPageStatus .page1 .erased, t.hwa⟩) hft)
  rintro r u ⟨rfl, hram', hfu, hflash'⟩
  simp only [Bool.not_true, Bool.false_eq_true, if_false]
  rw [wp_bind, wp_modifyRam]
  have hidle : u.ram.writeBlockDirty = false := by
    rw [hram']
    change t.ram.writeBlockDirty = false
    rw [hram]
    rfl
  have hl : Lays g (Logs.set (fun _ => []) .factory F) u := by
    refine ⟨hfu, fun q => ?_, fun q => ?_⟩
    · rw [hflash']
      cases q with
      | page1 =>
        change t.hwa.flash .page1 = _
        rw [hflash, Logs.set_ne (q := .page1) (p := .factory) nofun, image_nil]
        rfl
      | page2 =>
        rw [Logs.set_ne (q := .page2) (p := .factory) nofun, image_nil]
        rfl
      | factory =>
        change t.hwa.flash .factory = _
        rw [hflash, Logs.set_self, ← hF]
        rfl
    · by_cases hq : q = .factory
      · rw [hq, Logs.set_self]
        exact hB
      · rw [Logs.set_ne hq]
        exact .nil
  have hend : ∀ {M' v}, Lays g M' v → v.ram.writeBlockDirty = false → M' .page1 = [] →
      M' .page2 = [] → wp (EmuEeprom.activate g) (fun r t => r = true ∧
        t.ram.pageStatusCache .page1 = .valid ∧ t.ram.pageStatusCache .page2 = .formatted ∧
        ∃ N', Consistent g N' t) v := by
    intro M' v hv hd h1 h2
    apply wp_mono (hv.activate hd h2)
    rintro r w (⟨rfl, _, hw, hd', hs1, hs2, hn⟩ | ⟨_, hfull, _⟩)
    · exact ⟨rfl, hs1, hs2, _, hw, activated_synced hs1 hs2, by rw [hn]; exact nofun,
        .idle hd' (.inl (by rw [hn]))⟩
    · have hpos := pageEntries_pos (g := g)
      rw [h1, List.length_nil] at hfull
      omega
  have h1 : Logs.set (fun _ => []) .factory F .page1 = [] := Logs.set_ne nofun
  have h2 : Logs.set (fun _ => []) .factory F .page2 = [] := Logs.set_ne nofun
  cases formatFactoryPage with
  | false =>
    simp only [Bool.false_eq_true, if_false]
    rw [wp_bind, wp_modifyRam]
    exact hend (hl.withRam (u.ram.setPageStatus .page2 .erased).clearCache) hidle h1 h2
  | true =>
    simp only [if_true]
    apply wp_bind_of ((hl.withRam (u.ram.setPageStatus .page2 .erased)).erase .factory)
    rintro r v ⟨rfl, hram'', hv⟩
    simp only [Bool.not_true, Bool.false_eq_true, if_false]
    rw [wp_bind, wp_modifyRam, wp_bind, wp_modifyRam]
    have hidle' : v.ram.writeBlockDirty = false := by
      rw [hram'']
      exact hidle
    exact hend (hv.withRam (v.ram.setPageStatus .factory .erased).clearCache) hidle'
      (by rw [Logs.set_ne (q := .page1) (p := .factory) nofun, h1])
      (by rw [Logs.set_ne (q := .page2) (p := .factory) nofun, h2])

/-- The snapshot names only addresses of the store, or fills its page while no offset inside
page 1 is cached. -/
def Restores (g : Geometry) (s : State) : Prop :=
  ∀ S, s.hwa.flash .factory = image S → Blocks g S → lastStatus S = .valid →
    if S.length < g.pageEntries then ∀ e ∈ S, KnownAddress g e
    else s.ram.nextWriteOffsetCache.page = .page1 →
      s.ram.nextWriteOffsetCache.offset = 0 ∨ s.ram.nextWriteOffsetCache.offset = g.pageSize

theorem Lays.copyBack (h : Lays g N s) (hpage : s.ram.nextWriteOffsetCache.page ≠ .factory)
    (hm : lastStatus (N .factory) = .valid) (hres : Restores g s) :
    wp (copyBack g) (fun _ t => ∃ N', Consistent g N' t) s := by
  have hres := hres (N .factory) (h.flash .factory) (h.blocks .factory) hm
  rw [EmuEeprom.copyBack, wp_bind, wp_modifyRam]
  apply wp_bind_of ((h.withRam s.ram.clearWriteBlock).erase .page1)
  rintro r t ⟨rfl, hram, hl⟩
  simp only [Bool.not_true, Bool.false_eq_true, if_false]
  rw [wp_bind, wp_modifyRam]
  apply wp_bind_of ((hl.withRam (t.ram.setPageStatus .page1 .erased)).erase .page2)
  rintro r u ⟨rfl, hram', hl'⟩
  simp only [Bool.not_true, Bool.false_eq_true, if_false]
  rw [wp_bind, wp_modifyRam, wp_bind, wp_modifyRam]
  have hram'' : (u.ram.setPageStatus .page2 .erased).clearCache =
      ((s.ram.clearWriteBlock.setPageStatus .page1 .erased).setPageStatus .page2
        .erased).clearCache := by rw [hram', hram]
  generalize (u.ram.setPageStatus .page2 .erased).clearCache = ram at hram''
  have hl2 : Lays g (N.cleared false) ⟨ram, u.hwa⟩ := hl'.withRam ram
  have hcopy := hl2.copyBlocks (p := .factory) (q := .page1) (by decide) (N.cleared_page1 false)
  rw [N.cleared_factory] at hcopy
  apply wp_bind_of hcopy
  rintro r v ⟨rfl, hramv, hl3⟩
  simp only [Bool.not_true, Bool.false_eq_true, if_false]
  have hramv : v.ram = ((s.ram.clearWriteBlock.setPageStatus .page1 .erased).setPageStatus .page2
      .erased).clearCache := hramv.trans hram''
  have hdv : v.ram.writeBlockDirty = false := by rw [hramv]; rfl
  have hnv : v.ram.nextWriteOffsetCache = s.ram.nextWriteOffsetCache := by rw [hramv]; rfl
  have h1 : (N.cleared false).set .page1 (N .factory) .page1 = N .factory := Logs.set_self
  have h2 : (N.cleared false).set .page1 (N .factory) .page2 = [] := by
    rw [Logs.set_ne (q := .page2) (p := .page1) (by decide), N.cleared_page2]
  apply wp_bind_of (hl3.activate hdv h2)
  rintro r w (⟨rfl, hroom, hw, hd', hs1, hs2, hn⟩ | ⟨rfl, hfull, n, rfl⟩)
  · simp only [Bool.not_true, Bool.false_eq_true, if_false]
    rw [h1] at hroom
    rw [if_pos hroom] at hres
    have hk : ∀ e ∈ (((N.cleared false).set .page1 (N .factory)).marked g .page1 .valid).marked g
        .page2 .formatted .page1, KnownAddress g e := by
      rw [Logs.marked_ne (q := .page1) (p := .page2) (by decide)]
      exact known_marked (by rw [h1]; exact hres)
    apply wp_mono (hw.cached (activated_synced hs1 hs2) (by rw [findValidPage, if_pos hs1]) hk)
    rintro r y ⟨_, hy, _⟩
    exact ⟨_, hy⟩
  · -- the copy fills page 1, so that the status record is refused
    rw [h1] at hfull
    rw [if_neg (by omega)] at hres
    refine ⟨_, Consistent.atCalls ⟨hl3, fun q hq => ?_, by rw [hnv]; exact hpage,
      .idle hdv ?_⟩ n⟩
    · rw [hramv]
      cases q with
      | page1 => exact .inl rfl
      | page2 => exact .inl rfl
      | factory => exact absurd rfl hq
    · rw [hnv]
      cases hp : s.ram.nextWriteOffsetCache.page with
      | page1 =>
        refine (hres hp).imp_right fun ho => .inr ?_
        rw [ho, hp, h1, hfull, g.pageSize_eq]
      | page2 => exact .inr (.inl (by rw [hp, h2]))
      | factory => exact absurd hp hpage

theorem Consistent.restoreFromFactory (h : Consistent g N s) (hres : Restores g s) :
    wp (restoreFromFactory g) (fun _ t => ∃ N', Consistent g N' t) s := by
  rw [restoreFromFactory_eq]
  have hrefresh : wp (refreshPageStatus g .factory) (fun r t => r = true ∧ Consistent g N t ∧
      t.ram.pageStatusCache .factory = lastStatus (N .factory) ∧
      t.ram.nextWriteOffsetCache = s.ram.nextWriteOffsetCache) s := by
    apply wp_mono (h.refresh .factory)
    rintro r t ⟨rfl, ht, hx, hn⟩
    exact ⟨rfl, ht, hx, hn rfl⟩
  apply wp_bind_of hrefresh
  rintro r t ⟨rfl, ht, hx, hn⟩
  simp only [Bool.not_true, Bool.false_eq_true, if_false]
  rw [wp_bind, wp_get]
  apply wp_ite
  · intro _
    exact ⟨N, ht⟩
  · intro hv
    have hm : lastStatus (N .factory) = .valid := by
      rw [← hx]
      by_contra hne
      exact hv hne
    apply ht.toLays.copyBack ht.runtime hm
    intro S hS hB hval
    rw [hn]
    exact hres S (by rw [h.flash, ← ht.flash, hS]) hB hval

/-- The end of `init`: the mirror is filled, or the store is formatted. -/
theorem Lays.cacheOrFormat (h : Lays g N s) (hsync : Synced N s.ram.pageStatusCache)
    (hp : findValidPage s.ram.pageStatusCache .read = some p) :
    wp (do
      if !(← cache g) then
        return ← format g
      return true) (fun _ t => ∃ N', Consistent g N' t) s := by
  by_cases hk : ∀ e ∈ N p, KnownAddress g e
  · apply wp_bind_of (h.cached hsync hp hk)
    rintro r t ⟨rfl, ht, _⟩
    exact ⟨N, ht⟩
  · apply wp_bind_of (cache_known (h.blocks p) (h.flash p) h.faults hp)
    rintro r t ⟨⟨hf, hflash⟩, hwf⟩
    cases r with
    | true => exact absurd (hwf rfl).known hk
    | false =>
      apply wp_mono (format_consistent hf (by rw [hflash]; exact h.flash .factory)
        (h.blocks .factory) false)
      rintro r u ⟨_, _, _, hu⟩
      exact hu

theorem Lays.reformat (h : Lays g N s) (doCache : Bool) :
    wp (reformat g doCache) (fun r t => r = .proceed doCache ∧
      t.ram.pageStatusCache .page1 = .valid ∧ ∃ N', Consistent g N' t) s := by
  apply wp_bind_of (format_consistent h.faults (h.flash .factory) (h.blocks .factory) false)
  rintro r t ⟨rfl, h1, _, ht⟩
  exact ⟨rfl, h1, ht⟩

theorem Lays.formatErasedPage (h : Lays g N s) (hd : s.ram.writeBlockDirty = false)
    (hA : A ≠ .factory) (hv : s.ram.pageStatusCache A = .valid) (hm : lastStatus (N A) = .valid) :
    wp (formatErasedPage g A.other) (fun r t => r = .proceed true ∧ ∃ N', Lays g N' t ∧
      Synced N' t.ram.pageStatusCache ∧ findValidPage t.ram.pageStatusCache .read = some A) s := by
  have hne := Page.other_ne hA
  rw [EmuEeprom.formatErasedPage]
  apply wp_bind_of (h.erase A.other)
  rintro r t ⟨rfl, hram, hl⟩
  simp only [Bool.not_true, Bool.false_eq_true, if_false]
  apply wp_bind_of (hl.mark (by rw [hram, hd]) (x := .formatted) (by decide) A.other)
  rintro r u (⟨rfl, _, hl', _, hk, _⟩ | ⟨_, hfull, _⟩)
  · have hold : u.ram.pageStatusCache A = .valid := by
      rw [hk.statuses]
      refine (if_neg hne.symm).trans ?_
      rw [hram, hv]
    have hnew : u.ram.pageStatusCache A.other = .formatted := by
      rw [hk.statuses]
      exact if_pos rfl
    refine ⟨rfl, _, hl', .marked (fun q hq hqA => ?_) hnew (by decide),
      findValidPage_working hA hold hnew .read⟩
    obtain rfl := (Page.runtime_cases hA hq).resolve_right hqA
    rw [Logs.set_ne hne.symm]
    exact .inr (hold.trans hm.symm)
  · have hpos := pageEntries_pos (g := g)
    rw [Logs.set_self, List.length_nil] at hfull
    omega

theorem Lays.repeatTransfer (h : Lays g N s) (hA : A ≠ .factory)
    (hv : s.ram.pageStatusCache A = .valid) (ho : s.ram.pageStatusCache A.other = .receiving)
    (hm : lastStatus (N A) = .valid) :
    wp (repeatTransfer g A.other) (fun r t => r = .proceed false ∧ ∃ N', Consistent g N' t) s := by
  have hne := Page.other_ne hA
  rw [EmuEeprom.repeatTransfer]
  apply wp_bind_of (h.erase A.other)
  rintro r t ⟨rfl, hram, hl⟩
  simp only [Bool.not_true, Bool.false_eq_true, if_false]
  have hread : findValidPage t.ram.pageStatusCache .read = some A := by
    rw [hram]
    exact findValidPage_single hA hv (by rw [ho]; decide)
  have hlog : N.set A.other [] A = N A := Logs.set_ne hne.symm
  have hreformat : ∀ {N' u}, Lays g N' u → wp (EmuEeprom.reformat g false)
      (fun r t => r = .proceed false ∧ ∃ N', Consistent g N' t) u := by
    intro N' u hu
    apply wp_mono (hu.reformat false)
    rintro r v ⟨hr, _, hv⟩
    exact ⟨hr, hv⟩
  by_cases hk : WellFormed g (N A)
  · apply wp_bind_of (cache_image hk (by rw [hl.flash, hlog]) hl.faults hread)
    rintro r u ⟨n, ⟨rfl, rfl⟩ | ⟨_, hfault, _⟩⟩
    swap
    · exact absurd hfault not_readFault
    simp only [Bool.not_true, Bool.false_eq_true, if_false]
    generalize hu : State.atCalls ⟨t.ram.clearWriteBlock.clearCache.mirroring A (N A)
      (N A).length, t.hwa⟩ n = u
    have hlu : Lays g (N.set A.other []) u := hu ▸ (hl.withRam _).atCalls n
    have hdu : u.ram.writeBlockDirty = false := by rw [← hu]; rfl
    have hsu : u.ram.pageStatusCache = s.ram.pageStatusCache := by rw [← hu, ← hram]; rfl
    have htransfer : wp (pageTransfer g) (fun _ t => ∃ N', Consistent g N' t) u := by
      rw [pageTransfer_eq]
      apply wp_bind_of (P := fun r v => r = true ∧ v = u)
        (by rw [wp, Lays.flushIdle hdu]; exact ⟨rfl, rfl⟩)
      rintro r v ⟨rfl, rfl⟩
      simp only [Bool.not_true, Bool.false_eq_true, if_false]
      rw [wp_bind, wp_get]
      simp only [hsu, ← hram, hread, if_neg hA]
      apply wp_bind_of (hlu.mark hdu (x := .receiving) (by decide) A.other)
      rintro r v (⟨rfl, _, hl', hd', hk', _⟩ | ⟨_, hfull, _⟩)
      · simp only [Bool.not_true, Bool.false_eq_true, if_false]
        apply hl'.transferInto hA hd'
        · rw [hk'.statuses]
          refine (if_neg hne.symm).trans ?_
          rw [hsu, hv]
        · rw [hk'.statuses]
          exact if_pos rfl
        · rw [hlog, hm]
        · rw [Logs.set_self]
          exact ⟨0, rfl⟩
        · rw [Logs.set_self]
          exact fun _ => List.forall_mem_nil _
      · have hpos := pageEntries_pos (g := g)
        rw [Logs.set_self, List.length_nil] at hfull
        omega
    apply wp_bind_of htransfer
    rintro status v ⟨N', hv⟩
    apply wp_ite
    · intro _
      exact hreformat hv.toLays
    · intro _
      exact ⟨rfl, N', hv⟩
  · apply wp_bind_of (cache_known (h.blocks A) (by rw [hl.flash, hlog]) hl.faults hread)
    rintro r u ⟨⟨hf, hflash⟩, hwf⟩
    cases r with
    | true => exact absurd (hwf rfl) hk
    | false =>
      have hlu : Lays g (N.set A.other []) u := ⟨hf, fun p => by rw [hflash, hl.flash], hl.blocks⟩
      exact hreformat hlu

theorem Lays.repair (h : Lays g N s) (hd : s.ram.writeBlockDirty = false)
    (hs : ∀ p, p ≠ .factory → s.ram.pageStatusCache p = lastStatus (N p)) :
    wp (repair g) (fun _ t => ∃ N', Consistent g N' t) s := by
  have hsync : Synced N s.ram.pageStatusCache := fun p hp => .inr (hs p hp)
  rw [EmuEeprom.repair, wp_bind, wp_get]
  dsimp only
  by_cases hvalid : ∃ A, A ≠ .factory ∧ s.ram.pageStatusCache A = .valid
  · obtain ⟨A, hA, hv⟩ := hvalid
    have hm : lastStatus (N A) = .valid := (hs A hA).symm.trans hv
    rw [repairPages_valid hA hv]
    cases hx : s.ram.pageStatusCache A.other with
    | valid =>
      apply wp_bind_of (h.reformat true)
      rintro r t ⟨rfl, h1, N', ht⟩
      exact ht.toLays.cacheOrFormat ht.synced (by rw [findValidPage, if_pos h1])
    | erased =>
      apply wp_bind_of (h.formatErasedPage hd hA hv hm)
      rintro r t ⟨rfl, N', hl, hsync', hread⟩
      exact hl.cacheOrFormat hsync' hread
    | formatted => exact h.cacheOrFormat hsync (findValidPage_working hA hv hx .read)
    | receiving =>
      apply wp_bind_of (h.repeatTransfer hA hv hx hm)
      rintro r t ⟨rfl, ht⟩
      exact ht
  · have hnone : ∀ A, A ≠ .factory → s.ram.pageStatusCache A ≠ .valid := fun A hA hv =>
      hvalid ⟨A, hA, hv⟩
    rw [repairPages_none (hnone .page1 (by decide)) (hnone .page2 (by decide))]
    apply wp_bind_of (h.reformat false)
    rintro r t ⟨rfl, _, ht⟩
    exact ht

theorem Lays.init (h : Lays g N s) : wp (init g) (fun _ t => ∃ N', Consistent g N' t) s := by
  apply init_recognizes h.faults ⟨fun p _ => h.flash p, fun p _ => h.blocks p⟩
  intro t ht
  have hl : Lays g N t := ⟨ht.faults, fun p => by rw [ht.flash, h.flash], h.blocks⟩
  exact hl.repair ht.idle ht.statuses

/-- A call in which `cache()` accepts what a transfer or a restore has built. -/
structure CacheAccepts (g : Geometry) (s : State) (op : Operation) : Prop where
  transfer : ∀ u, transferFrom g s op = some u → Rebuilds g u
  restore : op = .restoreFromFactory → Restores g s

theorem Consistent.perform (h : Consistent g N s) {op : Operation} (hop : CacheAccepts g s op) :
    ∃ N', Consistent g N' (perform g op s).2 := by
  cases op with
  | init => exact h.toLays.init
  | read a => exact ⟨N, h.read a⟩
  | write e cacheOnly => exact h.write e cacheOnly hop.transfer
  | flush => exact h.flushAll fun hd => hop.transfer s (by rw [transferFrom, if_pos hd])
  | pageTransfer => exact h.pageTransfer (hop.transfer s rfl)
  | pageStatus p => exact ⟨N, h.pageStatus p⟩
  | format formatFactoryPage =>
    obtain ⟨_, _, _, ht⟩ := format_consistent h.faults (h.flash .factory) (h.blocks .factory)
      formatFactoryPage
    exact ht
  | storeToFactory =>
    exact h.storeToFactory fun hd => hop.transfer s (by rw [transferFrom, if_pos hd])
  | restoreFromFactory => exact h.restoreFromFactory (hop.restore rfl)

end Zlibs.EmuEeprom
