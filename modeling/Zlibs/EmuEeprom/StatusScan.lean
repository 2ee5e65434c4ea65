import Zlibs.Lib.Run
import Zlibs.EmuEeprom.Calls

/-! `refresh_page_status` as its two loops run, and what it finds in the states of a run. -/
namespace Zlibs.EmuEeprom

open Zlibs.Lib

variable {g : Geometry} {N : Logs} {s t u : State} {S : List Entry} {p page : Page} {fuel inner : Nat}

/-- `uint32_t` subtraction where it does not wrap around. -/
def subU32 (a b : Nat) : Option Nat := if b ≤ a then some (a - b) else none

theorem subU32_of_le {a b : Nat} (h : b ≤ a) : subU32 a b = some (a - b) := if_pos h

/-- The inner loop: `none` where an offset wraps around or the fuel runs out, else the status of
the first record met, if there is one. -/
def statusLoop (buffer : Span) : Nat → Nat → Option (Option PageStatus)
  | 0, _ => none
  | fuel + 1, within =>
    match statusOf (deserializeEntry (buffer.subspan within serializedEntrySize)) with
    | some status => some (some status)
    | none =>
      if within < serializedEntrySize then some none
      else match subU32 within serializedEntrySize with
        | none => none
        | some within => statusLoop buffer fuel within

/-- The outer loop, with the fuel of the inner one first. -/
def scanLoop (g : Geometry) (page : Page) (inner : Nat) : Nat → Nat → M (Option Bool)
  | 0, _ => return none
  | fuel + 1, offset => do
    let readBlockOffset := offset / g.readBlockSize * g.readBlockSize
    match ← hwaRead page readBlockOffset g.readBlockSize with
    | none => return some false
    | some buffer =>
      match subU32 offset readBlockOffset with
      | none => return none
      | some within =>
        match statusLoop buffer inner within with
        | none => return none
        | some (some status) =>
          modifyRam (·.setPageStatus page status)
          return some true
        | some none =>
          if readBlockOffset = 0 then
            modifyRam (·.setPageStatus page .erased)
            return some true
          match subU32 readBlockOffset serializedEntrySize with
          | none => return none
          | some offset => scanLoop g page inner fuel offset

/-- `refresh_page_status`; `none` where an offset wraps around or the fuel runs out. -/
def refreshPageStatusLoop (g : Geometry) (fuel : Nat) (page : Page) : M (Option Bool) := do
  match subU32 g.pageSize serializedEntrySize with
  | none => return none
  | some offset =>
    let s ← get
    if findValidPage s.ram.pageStatusCache .write = some page then
      let cached := s.ram.nextWriteOffsetCache
      if cached.page ≠ page ∨ cached.offset = 0 then
        if !(← refreshNextWriteOffset g page) then
          return some false
      let cached := (← get).ram.nextWriteOffsetCache
      if cached.offset > 0 then
        match subU32 (min cached.offset g.pageSize) serializedEntrySize with
        | none => return none
        | some offset => scanLoop g page fuel fuel offset
      else scanLoop g page fuel fuel offset
    else scanLoop g page fuel fuel offset

theorem statusIn_succ {buffer : Span} {within : Nat} (h : ¬ within < serializedEntrySize) :
    statusIn buffer within =
      (statusOf (deserializeEntry (buffer.subspan within serializedEntrySize))).or
        (statusIn buffer (within - serializedEntrySize)) := by
  simp only [serializedEntrySize] at h
  have hdiv : within / 4 = (within - 4) / 4 + 1 := by omega
  have hmod : within % 4 = (within - 4) % 4 := by omega
  have hself : (within - 4) % 4 + ((within - 4) / 4 + 1) * 4 = within := by omega
  rw [statusIn, statusIn]
  simp only [serializedEntrySize]
  rw [hdiv, hmod, List.range_succ, List.reverse_append, List.reverse_singleton,
    List.singleton_append, List.findSome?_cons, hself]
  cases statusOf (deserializeEntry (buffer.subspan within 4)) <;> rfl

/-- The inner loop searches the entries from the top down. -/
theorem statusLoop_eq {buffer : Span} {within : Nat} (h : within / 4 < fuel) :
    statusLoop buffer fuel within = some (statusIn buffer within) := by
  induction fuel generalizing within with
  | zero => omega
  | succ fuel ih =>
    rw [statusLoop]
    by_cases hw : within < serializedEntrySize
    · have hin : statusIn buffer within =
          statusOf (deserializeEntry (buffer.subspan within serializedEntrySize)) := by
        simp only [serializedEntrySize] at hw
        have hdiv : within / 4 = 0 := by omega
        have hmod : within % 4 = within := by omega
        rw [statusIn]
        simp only [serializedEntrySize, hdiv, hmod]
        simp
      rw [hin]
      cases statusOf (deserializeEntry (buffer.subspan within serializedEntrySize)) with
      | some status => rfl
      | none => exact if_pos hw
    · rw [statusIn_succ hw]
      cases statusOf (deserializeEntry (buffer.subspan within serializedEntrySize)) with
      | some status => rfl
      | none =>
        have hle : serializedEntrySize ≤ within := Nat.le_of_not_lt hw
        simp only [if_neg hw, subU32_of_le hle, Option.none_or]
        apply ih
        simp only [serializedEntrySize] at hle ⊢
        omega

theorem readBlockSize_large : serializedEntrySize ≤ g.readBlockSize := by
  simp only [serializedEntrySize, Geometry.readBlockSize, internalBlockSize]
  omega

/-- `refreshPageStatusFrom` a read block at a time. -/
theorem refreshFrom_step (offset : Nat) : refreshPageStatusFrom g page offset = (do
    match ← hwaRead page (offset / g.readBlockSize * g.readBlockSize) g.readBlockSize with
    | none => return false
    | some buffer =>
      match statusIn buffer (offset - offset / g.readBlockSize * g.readBlockSize) with
      | some status =>
        modifyRam (·.setPageStatus page status)
        return true
      | none =>
        if offset / g.readBlockSize * g.readBlockSize = 0 then
          modifyRam (·.setPageStatus page .erased)
          return true
        refreshPageStatusFrom g page
          (offset / g.readBlockSize * g.readBlockSize - serializedEntrySize)) := by
  have hsize := readBlockSize_large (g := g)
  have hpos : 0 < serializedEntrySize := Nat.succ_pos 3
  cases hk : offset / g.readBlockSize with
  | zero =>
    rw [refreshPageStatusFrom, hk, scanPageStatus, hk, bind_assoc, Nat.zero_mul]
    refine congrArg _ (funext fun r => ?_)
    cases r with
    | none => rfl
    | some buffer =>
      dsimp only
      cases statusIn buffer (offset - 0) <;> rfl
  | succ k =>
    have hmul : (k + 1) * g.readBlockSize = k * g.readBlockSize + g.readBlockSize := Nat.succ_mul ..
    have hne : (k + 1) * g.readBlockSize ≠ 0 := by omega
    have hdiv : ((k + 1) * g.readBlockSize - serializedEntrySize) / g.readBlockSize = k := by
      apply Nat.div_eq_of_lt_le
      · omega
      · omega
    rw [refreshPageStatusFrom, hk, scanPageStatus, hk, bind_assoc]
    refine congrArg _ (funext fun r => ?_)
    cases r with
    | none => rfl
    | some buffer =>
      dsimp only
      cases statusIn buffer (offset - (k + 1) * g.readBlockSize) with
      | some status => rfl
      | none =>
        dsimp only
        rw [if_neg hne, refreshPageStatusFrom, hdiv]

/-- The outer loop goes from read block to read block, and no offset wraps around. -/
theorem scanLoop_eq {offset : Nat} (hi : g.readBlockSize ≤ inner)
    (hf : offset / g.readBlockSize < fuel) :
    scanLoop g page inner fuel offset =
      (do return some (← refreshPageStatusFrom g page offset) : M (Option Bool)) := by
  have hsize := readBlockSize_large (g := g)
  have hentry : 0 < serializedEntrySize := Nat.succ_pos 3
  have hpos : 0 < g.readBlockSize := by omega
  induction fuel generalizing offset with
  | zero => exact absurd hf (Nat.not_lt_zero _)
  | succ fuel ih =>
    have hle : offset / g.readBlockSize * g.readBlockSize ≤ offset := Nat.div_mul_le_self _ _
    have hwithin : (offset - offset / g.readBlockSize * g.readBlockSize) / 4 < inner := by
      have hmod := Nat.mod_lt offset hpos
      have hdiv := Nat.div_add_mod offset g.readBlockSize
      rw [Nat.mul_comm] at hdiv
      omega
    rw [scanLoop, refreshFrom_step, bind_assoc]
    refine congrArg _ (funext fun r => ?_)
    cases r with
    | none => rfl
    | some buffer =>
      dsimp only
      rw [subU32_of_le hle]
      dsimp only
      rw [statusLoop_eq hwithin]
      cases statusIn buffer (offset - offset / g.readBlockSize * g.readBlockSize) with
      | some status => rfl
      | none =>
        dsimp only
        by_cases h0 : offset / g.readBlockSize * g.readBlockSize = 0
        · rw [if_pos h0, if_pos h0]
          rfl
        · have hge : serializedEntrySize ≤ offset / g.readBlockSize * g.readBlockSize := by
            have hk : 1 ≤ offset / g.readBlockSize :=
              Nat.one_le_iff_ne_zero.mpr fun hk => h0 (by rw [hk, Nat.zero_mul])
            have := Nat.mul_le_mul_right g.readBlockSize hk
            omega
          rw [if_neg h0, if_neg h0, subU32_of_le hge]
          apply ih
          have hlt : (offset / g.readBlockSize * g.readBlockSize - serializedEntrySize) /
              g.readBlockSize < offset / g.readBlockSize := by
            rw [Nat.div_lt_iff_lt_mul hpos]
            omega
          exact Nat.lt_of_lt_of_le hlt (Nat.le_of_lt_succ hf)

/-- The whole function, started from any page and any offset a run leaves behind. -/
theorem refreshPageStatusLoop_eq (hS : s.hwa.flash p = image S) (wf : Blocks g S)
    (hf : s.hwa.fails = never) (hnext : Covers s.ram p S) (hfuel : g.pageSize ≤ fuel) :
    refreshPageStatusLoop g fuel p s =
      (do return some (← refreshPageStatus g p) : M (Option Bool)) s := by
  have hsize := readBlockSize_large (g := g)
  have hpage : g.readBlockSize ≤ g.pageSize := Nat.le_of_dvd g.page_pos (by
    rw [Nat.dvd_iff_mod_eq_zero]
    exact g.page_internal)
  have hscan : ∀ {o : Nat} {v : State} {P : Bool → State → Prop}, o < g.pageSize →
      wp (refreshPageStatusFrom g p o) P v →
      wp (scanLoop g p fuel fuel o) (fun r t => ∃ b, r = some b ∧ P b t) v := by
    intro o v P ho h
    have hdiv := Nat.div_le_self o g.readBlockSize
    rw [scanLoop_eq (hpage.trans hfuel) (by omega)]
    exact ⟨_, rfl, h⟩
  have htop : serializedEntrySize ≤ g.pageSize := hsize.trans hpage
  have hentry : 0 < serializedEntrySize := Nat.succ_pos 3
  -- the scan that starts from the cached offset
  have hfrom : ∀ {o : Nat} {v : State} {P : Bool → State → Prop},
      (o = 0 ∨ ∃ m, S.length ≤ m ∧ o = 4 * m) →
      wp (if o > 0 then refreshPageStatusFrom g p (min o g.pageSize - serializedEntrySize)
        else refreshPageStatusFrom g p (g.pageSize - serializedEntrySize)) P v →
      wp (if o > 0 then
          match subU32 (min o g.pageSize) serializedEntrySize with
          | none => return none
          | some offset => scanLoop g p fuel fuel offset
        else scanLoop g p fuel fuel (g.pageSize - serializedEntrySize) : M (Option Bool))
        (fun r t => ∃ b, r = some b ∧ P b t) v := by
    intro o v P ho h
    by_cases hpos : o > 0
    · obtain ⟨m, _, hm⟩ := ho.resolve_left (by omega)
      have hle : serializedEntrySize ≤ min o g.pageSize := by
        simp only [serializedEntrySize] at htop ⊢
        omega
      rw [if_pos hpos] at h ⊢
      rw [subU32_of_le hle]
      exact hscan (by omega) h
    · rw [if_neg hpos] at h ⊢
      exact hscan (by omega) h
  have hloop : ∀ {P : Bool → State → Prop}, wp (refreshPageStatus g p) P s →
      wp (refreshPageStatusLoop g fuel p) (fun r t => ∃ b, r = some b ∧ P b t) s := by
    intro P h
    rw [refreshPageStatus, wp_bind, wp_get] at h
    rw [refreshPageStatusLoop, subU32_of_le htop]
    dsimp only
    rw [wp_bind, wp_get]
    by_cases hw : findValidPage s.ram.pageStatusCache .write = some p
    · rw [if_pos hw] at h ⊢
      by_cases hc : s.ram.nextWriteOffsetCache.page ≠ p ∨ s.ram.nextWriteOffsetCache.offset = 0
      · rw [if_pos hc] at h ⊢
        obtain ⟨hr, n, ht⟩ := refreshNextWriteOffset_blocks wf hS hf
        rw [wp_bind, wp, hr, ht] at h
        rw [wp_bind, wp, hr, ht]
        simp only [Bool.not_true, Bool.false_eq_true, if_false] at h ⊢
        rw [wp_bind, wp_get] at h ⊢
        exact hfrom (.inr ⟨_, le_rfl, rfl⟩) h
      · rw [if_neg hc] at h ⊢
        rw [wp_bind, wp_get] at h ⊢
        have hpage : s.ram.nextWriteOffsetCache.page = p := by
          by_contra hne
          exact hc (.inl hne)
        exact hfrom (hnext hw hpage) h
    · rw [if_neg hw] at h ⊢
      exact hscan (by omega) h
  obtain ⟨b, hr, hb, ht⟩ := hloop (P := fun r t => r = (refreshPageStatus g p s).1 ∧
    t = (refreshPageStatus g p s).2) ⟨rfl, rfl⟩
  exact Prod.ext (hr.trans (congrArg some hb)) ht

/-- The last status record among all the entries of a page, searched from the top. -/
def scannedStatus (g : Geometry) (data : Nat → UInt8) : PageStatus :=
  ((List.range g.pageEntries).reverse.findSome? fun k =>
    statusOf (deserializeEntry ⟨serializedEntrySize, fun i => data (serializedEntrySize * k + i)⟩)).getD
      .erased

theorem scannedStatus_image (wf : Blocks g S) : scannedStatus g (image S) = lastStatus S := by
  have hslots : (List.range g.pageEntries).reverse.findSome? (fun k => statusOf (deserializeEntry
      ⟨serializedEntrySize, fun i => image S (serializedEntrySize * k + i)⟩)) =
      lastMatch statusOf (slots S g.pageEntries) := by
    rw [lastMatch, slots, ← List.map_reverse, List.findSome?_map]
    congr 1
    funext k
    exact congrArg statusOf (deserializeEntry_image fun _ _ => rfl)
  rw [scannedStatus, hslots, lastMatch_slots statusOf_erasedEntry,
    List.take_of_length_le wf.fits, lastStatus]

/-- `refresh_page_status` ends, no offset wraps around, and it caches the status that a scan of
the whole page finds. -/
def RefreshesTo (g : Geometry) (s : State) (page : Page) : Prop :=
  ∀ fuel, g.pageSize ≤ fuel →
    (refreshPageStatusLoop g fuel page s).1 = some true ∧
    (refreshPageStatusLoop g fuel page s).2 = (refreshPageStatus g page s).2 ∧
    (refreshPageStatus g page s).2.ram.pageStatusCache page =
      scannedStatus g (s.hwa.flash page)

/-- The members when `init` starts to recognize the pages. -/
def State.starting (s : State) : State :=
  ⟨(s.ram.clearWriteBlock.setNextWriteOffset .page1 0).clearCache, s.hwa.tick⟩

/-- The states in which a call made in `s` refreshes the status of a page. -/
inductive Refreshing (g : Geometry) (s : State) : Page → State → Prop
  | asked (page : Page) : Refreshing g s page s
  | first : Refreshing g s .page1 s.starting
  | second : Refreshing g s .page2 (refreshPageStatus g .page1 s.starting).2
  | third : Refreshing g s .factory
      (refreshPageStatus g .page2 (refreshPageStatus g .page1 s.starting).2).2

/-- A new instance over pages whose programmed blocks come first, and a backend that never fails. -/
def FreshStart (g : Geometry) (s : State) : Prop :=
  ∃ flash, (∀ p, ProgrammedFirst g (flash p)) ∧ s = State.powerUp flash never

/-- One call after another, each as `admits` allows it. -/
def CalledWhen (g : Geometry) (admits : State → Operation → Prop) (_ : List Operation) (s : State)
    (op : Operation) (t : State) : Prop :=
  admits s op ∧ t = (perform g op s).2

theorem FreshStart.consistent (h : FreshStart g s) : ∃ N, Consistent g N s := by
  obtain ⟨flash, hflash, rfl⟩ := h
  choose N hN hB using fun p => (hflash p).blocks
  exact ⟨N, ⟨rfl, hN, hB⟩, fun _ _ => .inl rfl, nofun, .idle rfl (.inl rfl)⟩

theorem Lays.refreshesTo (h : Lays g N s) (hp : Covers s.ram p (N p)) : RefreshesTo g s p := by
  intro fuel hfuel
  have hloop := refreshPageStatusLoop_eq (h.flash p) (h.blocks p) h.faults hp hfuel
  obtain ⟨hr, n, ram, ht, _⟩ := refreshPageStatus_blocks (h.blocks p) (h.flash p) h.faults hp
  refine ⟨?_, ?_, ?_⟩
  · rw [hloop]
    exact congrArg some hr
  · rw [hloop]
    rfl
  · rw [ht, h.flash, scannedStatus_image (h.blocks p)]
    exact if_pos rfl

/-- A refresh leaves the offset of another page, or of none. -/
theorem Lays.refreshed (h : Lays g N s) (hp : Covers s.ram p (N p)) :
    Lays g N (refreshPageStatus g p s).2 ∧
      (s.ram.nextWriteOffsetCache.page = p →
        (refreshPageStatus g p s).2.ram.nextWriteOffsetCache.page = p) := by
  obtain ⟨_, n, ram, ht, hr⟩ := refreshPageStatus_blocks (h.blocks p) (h.flash p) h.faults hp
  rw [ht]
  refine ⟨(h.withRam _).atCalls n, fun hpage => ?_⟩
  rcases hr with rfl | ⟨_, _, rfl⟩
  · exact hpage
  · rfl

theorem covers_factory {r : Ram} : Covers r .factory S := fun hfind =>
  absurd hfind findValidPage_runtime

theorem Consistent.refreshing (h : Consistent g N s) (hu : Refreshing g s page u) :
    RefreshesTo g u page := by
  have hstart : Lays g N s.starting := ⟨h.faults, h.flash, h.blocks⟩
  have h1 : Covers s.starting.ram .page1 (N .page1) := fun _ _ => .inl rfl
  obtain ⟨hl, hpage⟩ := hstart.refreshed h1
  have h2 : Covers (refreshPageStatus g .page1 s.starting).2.ram .page2 (N .page2) :=
    fun _ hne => absurd ((hpage rfl).symm.trans hne) nofun
  cases hu with
  | asked => exact h.toLays.refreshesTo (h.covers page)
  | first => exact hstart.refreshesTo h1
  | second => exact hl.refreshesTo h2
  | third => exact (hl.refreshed h2).1.refreshesTo covers_factory

/-- In a run in which `cache()` accepts what transfers and restores build, every refresh caches
what a scan of the whole page finds. -/
theorem refresh_scans_page {ops : List Operation}
    (hr : Run (FreshStart g) (CalledWhen g (CacheAccepts g)) ops s)
    (hu : Refreshing g s page u) : RefreshesTo g u page := by
  have hinv : ∃ N, Consistent g N s := by
    refine hr.invariant (I := fun _ s => ∃ N, Consistent g N s) (fun s h => h.consistent) ?_
    rintro _ s op t ⟨N, h⟩ ⟨hop, rfl⟩
    exact h.perform hop
  obtain ⟨N, h⟩ := hinv
  exact h.refreshing hu

theorem written_refresh_scans_page :
    RefreshesTo smallGeometry (perform smallGeometry (.write (makeEntry 3 7) false)
      (perform smallGeometry .init (State.powerUp blankFlash never)).2).2 .page1 := by
  have hwritten : (writeInternal smallGeometry (makeEntry 3 7) false
      (perform smallGeometry .init (State.powerUp blankFlash never)).2).1 ≠ .pageFull := by
    decide +kernel
  have hblank : FreshStart smallGeometry (State.powerUp blankFlash never) :=
    ⟨blankFlash, fun _ => ⟨0, Nat.zero_le _, fun _ hk => absurd hk (Nat.not_lt_zero _),
      fun _ _ => rfl⟩, rfl⟩
  have hinit : Run (FreshStart smallGeometry) (CalledWhen smallGeometry (CacheAccepts smallGeometry))
      [.init] (perform smallGeometry .init (State.powerUp blankFlash never)).2 :=
    .snoc (.nil hblank) ⟨⟨fun _ h => (by cases h), fun h => (by cases h)⟩, rfl⟩
  refine refresh_scans_page (.snoc (l := .write (makeEntry 3 7) false) hinit
    ⟨⟨fun _ h => ?_, fun h => (by cases h)⟩, rfl⟩) (.asked .page1)
  rw [transferFrom, if_neg hwritten] at h
  cases h

/-- A formatted store whose factory page holds a snapshot that fills its page. -/
def fullSnapshotFlash : Flash
  | .page1 => image (pad smallGeometry [statusEntry .valid])
  | .page2 => image (pad smallGeometry [statusEntry .formatted])
  | .factory => image (pad smallGeometry [statusEntry .formatted] ++
      pad smallGeometry [statusEntry .receiving] ++
      (List.range 16).map (fun a => makeEntry (UInt16.ofNat a) (UInt16.ofNat (a + 1))) ++
      pad smallGeometry [statusEntry .valid])

theorem fullSnapshotFlash_programmedFirst (p : Page) :
    ProgrammedFirst smallGeometry (fullSnapshotFlash p) := by
  cases p with
  | page1 =>
    exact ⟨1, by decide, fun k hk => ⟨0, by decide, by interval_cases k; decide⟩,
      fun i hi => image_beyond (by rw [length_pad_status]; exact hi)⟩
  | page2 =>
    exact ⟨1, by decide, fun k hk => ⟨0, by decide, by interval_cases k; decide⟩,
      fun i hi => image_beyond (by rw [length_pad_status]; exact hi)⟩
  | factory =>
    refine ⟨4, by decide, fun k hk => ⟨0, by decide, ?_⟩, fun i hi => image_beyond ?_⟩
    · interval_cases k <;> decide
    · simp only [List.length_append, length_pad_status, List.length_map, List.length_range]
      exact hi

/-- A restore of that snapshot is refused its status record and leaves the old offset, from which
the record copied last is not found. -/
theorem stale_offset_hides_status :
    ¬ ∀ ops s page u, Run (FreshStart smallGeometry)
      (CalledWhen smallGeometry fun _ _ => True) ops s →
      Refreshing smallGeometry s page u → RefreshesTo smallGeometry u page := by
  intro h
  have hstart : Run (FreshStart smallGeometry) (CalledWhen smallGeometry fun _ _ => True) []
      (State.powerUp fullSnapshotFlash never) :=
    .nil ⟨fullSnapshotFlash, fullSnapshotFlash_programmedFirst, rfl⟩
  have hrun : Run (FreshStart smallGeometry) (CalledWhen smallGeometry fun _ _ => True)
      [.init, .restoreFromFactory, .pageStatus .page1] (perform smallGeometry
        (.pageStatus .page1) (perform smallGeometry .restoreFromFactory
          (perform smallGeometry .init (State.powerUp fullSnapshotFlash never)).2).2).2 :=
    ((hstart.snoc ⟨trivial, rfl⟩).snoc ⟨trivial, rfl⟩).snoc ⟨trivial, rfl⟩
  have hscan := (h _ _ _ _ hrun (.asked .page1) 256 le_rfl).2.2
  have hfound : (refreshPageStatus smallGeometry .page1 (perform smallGeometry
      (.pageStatus .page1) (perform smallGeometry .restoreFromFactory
        (perform smallGeometry .init (State.powerUp fullSnapshotFlash never)).2).2).2).2.ram.pageStatusCache
      .page1 = .formatted := by decide +kernel
  have hlast : scannedStatus smallGeometry ((perform smallGeometry
      (.pageStatus .page1) (perform smallGeometry .restoreFromFactory
        (perform smallGeometry .init (State.powerUp fullSnapshotFlash never)).2).2).2.hwa.flash
      .page1) = .valid := by decide +kernel
  rw [hfound, hlast] at hscan
  cases hscan

end Zlibs.EmuEeprom
