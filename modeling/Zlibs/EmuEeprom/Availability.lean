import Zlibs.EmuEeprom.Refinement

/-! When a write finds room: every state of a run over a backend that never fails. -/
namespace Zlibs.EmuEeprom

open Zlibs.Lib

variable {g : Geometry} {L : Logs} {s t : State} {S T b c F : List Entry} {A p q : Page}
  {e : Entry} {a : Nat} {flash : Flash} {op : Operation} {calls : List Call}

/-- Nothing is asked of what the flash holds meanwhile. -/
abbrev Always : Logs → Prop := fun _ => True

theorem writeSafe_always : WriteSafe Always g L A b e r :=
  ⟨trivial, fun _ _ => trivial, ⟨trivial, fun _ _ => trivial, fun _ _ => trivial,
    fun _ _ => trivial, fun _ _ => trivial⟩, fun _ _ _ _ => trivial⟩

theorem formatSafe_always {formatFactoryPage : Bool} : FormatSafe Always g L formatFactoryPage :=
  ⟨trivial, trivial, trivial, trivial, trivial⟩

theorem repairSafe_always : RepairSafe Always g L A :=
  ⟨fun _ => trivial, fun _ => trivial, fun _ => ⟨trivial, fun _ _ => trivial, fun _ _ => trivial,
    fun _ _ => trivial, fun _ _ => trivial⟩⟩

/-- Where the next entry goes: the cached offset, or the first free block of the page. -/
def writePosition (g : Geometry) (s : State) : Nat :=
  match findValidPage s.ram.pageStatusCache .write with
  | none => g.pageSize
  | some page =>
    let cached := s.ram.nextWriteOffsetCache
    if cached.page = page ∧ cached.offset ≠ 0 then cached.offset
    else (findNextFreeOffset g page s).1.getD g.pageSize

/-- The addresses that a transfer copies. -/
def heldAddresses (g : Geometry) (s : State) : List Nat :=
  (List.range g.maxAddress).filter fun a => decide (s.ram.cache a ≠ erasedValue)

/-- A restore leaves a page to write: the snapshot has a free block, or there is none. -/
def Restorable (g : Geometry) (s : State) : Prop :=
  (findNextFreeOffset g .factory s).1.isSome ∨ (pageStatus g .factory s).1 ≠ .valid

def WorkStep (g : Geometry) (_ : List Call) (s : State) (call : Call) (t : State) : Prop :=
  (call.1 = .restoreFromFactory → Restorable g s) ∧ perform g call.1 s = (call.2, t)

theorem Working.writePosition_eq (h : Working g K L A b s) :
    writePosition g s = 4 * ((L A).length + b.length) := by
  rw [writePosition, h.page .write]
  dsimp only
  split
  case isTrue hn => rw [h.tail.known_next hn]
  case isFalse hn =>
    obtain ⟨rfl, _⟩ := h.tail.unknown_next h.sees hn
    have hfits := (h.sees.wf A).fits
    have hsize := g.pageSize_eq
    obtain ⟨_, hr | ⟨_, hfault⟩⟩ := findNextFreeOffset_spec h.sees A
    · rw [hr, freeOffset, List.length_nil]
      split
      · rfl
      · rw [Option.getD_none]
        omega
    · exact absurd hfault not_readFault

theorem length_dumped (s : State) : (dumped g s.ram).length = (heldAddresses g s).length := by
  rw [dumped, copied, List.length_map]
  rfl

/-- A transfer leaves room for one more entry unless the values it copies reach into the fourth
block from the end. -/
theorem room_after_dump (s : State) : entriesAfterTransfer g s.ram < g.pageEntries ↔
    (heldAddresses g s).length + 4 * g.entriesPerBlock ≤ g.pageEntries := by
  obtain ⟨hdvd, hle, _⟩ := roundUp_spec (g := g) (dumped g s.ram).length
  have hpage := g.entriesPerBlock_dvd
  have hpos := g.entriesPerBlock_pos
  rw [← length_dumped, entriesAfterTransfer]
  constructor
  · intro hlt
    have hsub : g.entriesPerBlock ∣
        g.pageEntries - (3 * g.entriesPerBlock + g.roundUp (dumped g s.ram).length) :=
      Nat.dvd_sub hpage (Nat.dvd_add ⟨3, Nat.mul_comm ..⟩ hdvd)
    have := Nat.le_of_dvd (by omega) hsub
    omega
  · intro hroom
    have hsub : g.entriesPerBlock ∣ g.pageEntries - 4 * g.entriesPerBlock :=
      Nat.dvd_sub hpage ⟨4, Nat.mul_comm ..⟩
    have := roundUp_le hsub (n := (dumped g s.ram).length) (by omega)
    omega

/-- A write in a working state is accepted exactly where there is room for it, before a transfer
or after it. -/
theorem Working.write_ok_iff (h : Working g Always L A b s)
    (he : e.address ≠ reservedStatusAddress) (ha : e.address.toNat < g.maxAddress) :
    (EmuEeprom.write g e false s).1 = .ok ↔ writePosition g s < g.pageSize ∨
      (heldAddresses g s).length + 4 * g.entriesPerBlock ≤ g.pageEntries := by
  have hend := h.write he ha writeSafe_always false
  have hsize := g.pageSize_eq
  rw [h.writePosition_eq, ← room_after_dump]
  rw [wp] at hend
  generalize EmuEeprom.write g e false s = x at hend
  obtain ⟨r, t⟩ := x
  dsimp only at hend ⊢
  cases hend with
  | appended hroom =>
    exact ⟨fun _ => Or.inl (by omega), fun _ => rfl⟩
  | transferred _ _ hroom => exact ⟨fun _ => Or.inr hroom, fun _ => rfl⟩
  | full hfull _ hroom =>
    refine ⟨(fun h => by cases h), fun h => ?_⟩
    omega

/-- A write that only goes to the mirror is always accepted. -/
theorem Working.write_cacheOnly (h : Working g Always L A b s)
    (he : e.address ≠ reservedStatusAddress) (ha : e.address.toNat < g.maxAddress) :
    (EmuEeprom.write g e true s).1 = .ok := by
  have hend := h.write he ha writeSafe_always true
  rw [wp] at hend
  generalize EmuEeprom.write g e true s = x at hend
  obtain ⟨r, t⟩ := x
  cases hend with
  | cached => rfl

theorem restorable_length (h : Working g Always L A b s) (hr : Restorable g s)
    (hstatus : lastStatus (L .factory) = .valid) : (L .factory).length < g.pageEntries := by
  rcases hr with hr | hr
  · obtain ⟨_, hf | ⟨_, hfault⟩⟩ := findNextFreeOffset_spec h.sees .factory
    · rw [hf, freeOffset] at hr
      split at hr
      · assumption
      · cases hr
    · exact absurd hfault not_readFault
  · exact absurd ((h.pageStatus .factory).1.trans hstatus) hr

/-- Every call leaves a working store, unless a snapshot without a free block is restored. -/
theorem Working.perform (h : Working g Always L A b s)
    (hr : op = .restoreFromFactory → Restorable g s) :
    wp (perform g op) (fun _ t => ∃ L A b, Working g Always L A b t) s := by
  cases op with
  | init =>
    have hother : lastStatus (L A.other) ≠ .valid := by
      rw [h.spare, lastStatus_formattedBlock]
      nofun
    apply wp_bind_of (init_valid h.sees h.runtime h.marked hother (fun _ => h.spare)
      repairSafe_always)
    rintro r t ⟨rfl, A', L', hboot, _⟩
    exact ⟨L', A', [], hboot.working⟩
  | read a =>
    rcases Nat.lt_or_ge a g.maxAddress with ha | ha
    · apply wp_bind_of (h.read ha)
      rintro r t ⟨_, n, rfl⟩
      exact ⟨L, A, b, (h.remember _ _).atCalls n⟩
    · rw [EmuEeprom.perform, wp_bind, wp, read_beyond ha]
      exact ⟨L, A, b, h⟩
  | write e cacheOnly =>
    by_cases hbad : e.address = reservedStatusAddress ∨ e.address.toNat ≥ g.maxAddress
    · rw [EmuEeprom.perform, wp_bind, wp, write_refused hbad]
      exact ⟨L, A, b, h⟩
    · have hbad := not_or.mp hbad
      apply wp_bind_of (h.write hbad.1 (Nat.lt_of_not_le hbad.2) writeSafe_always cacheOnly)
      intro r t hend
      cases hend with
      | cached =>
        refine ⟨L, A, b, h.withRam ?_ (h.tail.withRam rfl rfl) rfl rfl⟩
        cases hst : stage A b with
        | none => exact hst ▸ h.sees.staged
        | some w => exact hst ▸ h.sees.staged
      | appended _ hw => exact ⟨_, _, _, hw⟩
      | transferred _ _ _ hw => exact ⟨_, _, _, hw⟩
      | full _ _ _ hw => exact ⟨_, _, _, hw⟩
  | flush =>
    apply wp_bind_of (h.flush trivial fun _ => (writeSafe_always (e := erasedEntry)).transfer)
    rintro r t ⟨rfl, hend⟩
    cases hend with
    | programmed _ _ hw => exact ⟨_, _, _, hw⟩
    | transferred _ _ hw => exact ⟨_, _, _, hw⟩
  | pageTransfer =>
    apply wp_bind_of (h.pageTransfer rfl (writeSafe_always (e := erasedEntry)).transfer)
    rintro r t ⟨rfl, T, _, hw, _⟩
    exact ⟨_, _, _, hw⟩
  | pageStatus q =>
    apply wp_bind_of (h.pageStatus q)
    rintro r t ⟨_, hw, _⟩
    exact ⟨_, _, _, hw⟩
  | format formatFactoryPage =>
    apply wp_bind_of (format_working h.sees formatFactoryPage formatSafe_always)
    rintro r t ⟨rfl, hw, _⟩
    exact ⟨_, _, _, hw⟩
  | storeToFactory =>
    have hstore : wp (EmuEeprom.storeToFactory g) (fun _ t => ∃ L A b, Working g Always L A b t) s := by
      have hactive : ∀ {L A t}, Working g Always L A [] t →
          wp (EmuEeprom.storeActive g) (fun _ t => ∃ L A b, Working g Always L A b t) t := by
        intro L A t hw
        apply wp_mono (hw.storeActive ⟨trivial, fun _ _ => trivial⟩)
        rintro r t ⟨_, hw, _⟩
        exact ⟨_, _, _, hw⟩
      rw [storeToFactory_eq]
      apply wp_bind_of (h.flush trivial fun _ => (writeSafe_always (e := erasedEntry)).transfer)
      rintro r t ⟨rfl, hend⟩
      cases hend with
      | programmed _ _ hw => exact hactive hw
      | transferred _ _ hw => exact hactive hw
    apply wp_bind_of hstore
    intro r t hw
    exact hw
  | restoreFromFactory =>
    apply wp_bind_of (h.restoreFromFactory fun _ => ⟨trivial, trivial, fun _ _ => trivial, trivial,
      trivial⟩)
    intro r t hend
    cases hend with
    | unchanged _ hw => exact ⟨_, _, _, hw⟩
    | lost hstatus hfull =>
      have := restorable_length h (hr rfl) hstatus
      omega
    | done _ _ hw => exact ⟨_, _, _, hw⟩

theorem Flash.Formatted.working (h : flash.Formatted g F) (hs : Started g flash s) :
    ∃ L A b, Working g Always L A b s := by
  have hinit := h.init any_none
  rw [wp, hs] at hinit
  obtain ⟨L, A, hserving, _⟩ := hinit.2
  exact ⟨L, A, [], hserving.working.mono fun _ _ => trivial⟩

theorem working_run (hflash : flash.Formatted g F)
    (hr : Run (Started g flash) (WorkStep g) calls s) : ∃ L A b, Working g Always L A b s := by
  refine Run.invariant (I := fun _ s => ∃ L A b, Working g Always L A b s) ?_ ?_ hr
  · exact fun s hs => hflash.working hs
  · rintro calls s ⟨op, out⟩ t ⟨L, A, b, hw⟩ ⟨hrest, hrun⟩
    have := hw.perform hrest
    rwa [wp, hrun] at this

/-- In every state of a run a write to the mirror is accepted, and an immediate write exactly
where the active page has a free slot or a transfer leaves one. -/
theorem write_available_iff (hflash : flash.Formatted g F)
    (hr : Run (Started g flash) (WorkStep g) calls s) (he : e.address ≠ reservedStatusAddress)
    (ha : e.address.toNat < g.maxAddress) :
    (write g e true s).1 = .ok ∧
      ((write g e false s).1 = .ok ↔ writePosition g s < g.pageSize ∨
        (heldAddresses g s).length + 4 * g.entriesPerBlock ≤ g.pageEntries) := by
  obtain ⟨L, A, b, hw⟩ := working_run hflash hr
  exact ⟨hw.write_cacheOnly he ha, hw.write_ok_iff he ha⟩

/-- A flushed value, and one that waits in the write block. -/
def usedCalls : List Operation := [.write ⟨0, 7⟩ false, .flush, .write ⟨5, 8⟩ false]

def usedStore : State := (performAll smallGeometry usedCalls startedStore).2

theorem usedStore_run : Run (Started smallGeometry blankFlash) (WorkStep smallGeometry)
    (performAll smallGeometry usedCalls startedStore).1 usedStore := by
  have hstep : ∀ h s, ∀ op ∈ usedCalls, WorkStep smallGeometry h s
      (op, (perform smallGeometry op s).1) (perform smallGeometry op s).2 := by
    intro h s op hop
    refine ⟨?_, rfl⟩
    rintro rfl
    exact absurd hop (by decide)
  exact run_performAll hstep (.nil started_startedStore)

theorem usedStore_available :
    (write smallGeometry ⟨5, 10⟩ true usedStore).1 = .ok ∧
      (write smallGeometry ⟨5, 10⟩ false usedStore).1 = .ok := by
  obtain ⟨hcached, himmediate⟩ :=
    write_available_iff blankFlash_formatted usedStore_run (e := ⟨5, 10⟩) (by decide) (by decide)
  exact ⟨hcached, himmediate.mpr (.inl (by decide +kernel))⟩

/-- Values for all addresses, written to the mirror and flushed. -/
def fillingCalls : List Operation :=
  (List.range 16).map (fun a => .write ⟨UInt16.ofNat a, 7⟩ true) ++ [.flush]

def fullStore : State := (performAll smallGeometry fillingCalls startedStore).2

/-- A store that holds a value for every address refuses each further write. -/
theorem full_store_refuses :
    Run (Started smallGeometry blankFlash) (WorkStep smallGeometry)
        (performAll smallGeometry fillingCalls startedStore).1 fullStore ∧
      (write smallGeometry ⟨0, 9⟩ false fullStore).1 = .pageFull ∧
      (write smallGeometry ⟨0, 9⟩ false
        (write smallGeometry ⟨0, 9⟩ false fullStore).2).1 = .pageFull := by
  have hstep : ∀ h s, ∀ op ∈ fillingCalls, WorkStep smallGeometry h s
      (op, (perform smallGeometry op s).1) (perform smallGeometry op s).2 := by
    intro h s op hop
    refine ⟨?_, rfl⟩
    rintro rfl
    exact absurd hop (by decide)
  exact ⟨run_performAll hstep (.nil started_startedStore), by decide +kernel, by decide +kernel⟩

end Zlibs.EmuEeprom
