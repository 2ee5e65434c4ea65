import Zlibs.EmuEeprom.Availability

/-! What becomes of the erased value: it is stored like any other, but the mirror and a transfer
take it for the lack of one. -/
namespace Zlibs.EmuEeprom

open Zlibs.Lib

variable {g : Geometry} {L : Logs} {s t u : State} {b F : List Entry} {A : Page} {e : Entry}
  {a : Nat} {flash : Flash} {op : Operation} {calls later : List Call}

/-- The entry in slot `k` of the write block. -/
def stagedEntry (g : Geometry) (r : Ram) (k : Nat) : Entry :=
  deserializeEntry (Span.subspan ⟨g.writeBlockSize, r.writeBlockBuffer⟩ (serializedEntrySize * k)
    serializedEntrySize)

/-- No record of the address waits in the write block. -/
def Unstaged (g : Geometry) (a : Nat) (r : Ram) : Prop :=
  r.writeBlockDirty = true → ∀ k < g.entriesPerBlock, (stagedEntry g r k).address.toNat ≠ a

/-- The calls that leave the erased value of an address on the valid page: nothing is transferred,
the address is given no other value, and its record is programmed before it is looked for. -/
def KeepsErased (g : Geometry) (a : Nat) (s : State) : Operation → Prop
  | .init => Unstaged g a s.ram
  | .read address => address = a → Unstaged g a s.ram
  | .write entry cacheOnly => (entry.address.toNat = a → entry.value = erasedValue) ∧
      (cacheOnly = false → entry.address.toNat < g.maxAddress → writePosition g s < g.pageSize)
  | .flush => s.ram.cacheDirty = false
  | .storeToFactory => s.ram.cacheDirty = false
  | .pageStatus _ => True
  | .pageTransfer => False
  | .format _ => False
  | .restoreFromFactory => False

def KeepStep (g : Geometry) (a : Nat) (_ : List Call) (s : State) (call : Call) (t : State) :
    Prop :=
  KeepsErased g a s call.1 ∧ perform g call.1 s = (call.2, t)

/-- The erased value is the newest one of the address on the valid page or on its way there. -/
structure HoldsErased (g : Geometry) (a : Nat) (L : Logs) (A : Page) (b : List Entry) (s : State) :
    Prop where
  working : Working g Always L A b s
  cache : s.ram.cache a = erasedValue
  newest : lookup (L A ++ b) a = some erasedValue

/-- An entry of the staged block is in one of the slots of the buffer. -/
theorem Working.not_staged (h : Working g Always L A b s) (hu : Unstaged g a s.ram) :
    ∀ e ∈ b, e.address.toNat ≠ a := by
  intro e he
  cases hb : b with
  | nil =>
    rw [hb] at he
    cases he
  | cons first rest =>
    have hstaged := h.sees.staged
    rw [hb] at hstaged he
    obtain ⟨hdirty, -, -, hbuffer, -, hok⟩ := hstaged
    obtain ⟨k, hk, rfl⟩ := List.mem_iff_getElem.mp he
    have hslot : stagedEntry g s.ram k = (first :: rest).getD k erasedEntry := by
      apply deserializeEntry_image
      intro i _
      rw [← hbuffer]
      rfl
    have hlt : k < g.entriesPerBlock := hk.trans_le hok.fits
    have hne := hu hdirty k hlt
    rwa [hslot, List.getD_eq_getElem _ _ hk] at hne

theorem Working.mirrored (h : Working g Always L A b s) (x : Nat) (v : UInt16) :
    Working g Always L A b { s with ram := { s.ram.setCache x v with cacheDirty := true } } := by
  refine h.withRam ?_ (h.tail.withRam rfl rfl) rfl rfl
  cases hst : stage A b with
  | none => exact hst ▸ h.sees.staged
  | some w => exact hst ▸ h.sees.staged

theorem HoldsErased.programmed (h : HoldsErased g a L A b s) (hu : Unstaged g a s.ram) :
    lookup (L A) a = some erasedValue := by
  have hb : lookup b a = none := by
    refine lastMatch_eq_none.mpr fun e he => ?_
    rw [valueOf, if_neg fun hc => h.working.not_staged hu e he hc.2]
  have hnewest := h.newest
  rwa [lookup_append, hb, Option.none_or] at hnewest

/-- A read finds the record that has been programmed. -/
theorem HoldsErased.read (h : HoldsErased g a L A b s) (ha : a < g.maxAddress)
    (hu : Unstaged g a s.ram) :
    wp (EmuEeprom.read g a) (fun r t => r = (.ok, some erasedValue) ∧ HoldsErased g a L A b t) s := by
  have hexposed : exposed s L A a = some erasedValue := by
    rw [exposed, if_neg (not_not.mpr h.cache), h.programmed hu]
  apply wp_mono (h.working.read ha)
  rintro r t ⟨hr, n, rfl⟩
  rw [hexposed] at hr ⊢
  exact ⟨hr, (h.working.remember _ _).atCalls n, if_pos rfl, h.newest⟩

theorem HoldsErased.read_other (h : HoldsErased g a L A b s) {x : Nat} (hx : x ≠ a) :
    wp (EmuEeprom.read g x) (fun _ t => HoldsErased g a L A b t) s := by
  rcases Nat.lt_or_ge x g.maxAddress with hlt | hge
  · apply wp_mono (h.working.read hlt)
    rintro r t ⟨-, n, rfl⟩
    refine ⟨(h.working.remember _ _).atCalls n, ?_, h.newest⟩
    change (s.ram.remember x (exposed s L A x)).cache a = _
    cases exposed s L A x with
    | none => exact h.cache
    | some v => exact (if_neg hx.symm).trans h.cache
  · rw [wp, read_beyond hge]
    exact h

/-- What an accepted entry leaves in the mirror and in the log. -/
theorem holdsErased_appended {S : List Entry} {L' : Logs} {A' : Page} {b' : List Entry} {r : Ram}
    (hw : Working g Always L' A' b' t) (hcontent : live (L' A' ++ b') = live S ++ [e])
    (he : e.address ≠ reservedStatusAddress)
    (hkept : Kept (r.setCache e.address.toNat e.value) t.ram)
    (hvalue : e.address.toNat = a → e.value = erasedValue)
    (hother : e.address.toNat ≠ a → r.cache a = erasedValue ∧ lookup S a = some erasedValue) :
    HoldsErased g a L' A' b' t := by
  have hcache : t.ram.cache a = if a = e.address.toNat then e.value else r.cache a := by
    rw [hkept.cache]
    rfl
  have hlookup := congrFun (lookup_of_live he hcontent) a
  rw [Contents.set] at hlookup
  refine ⟨hw, ?_, ?_⟩
  · rw [hcache]
    split_ifs with heq
    · exact hvalue heq.symm
    · exact (hother (Ne.symm heq)).1
  · rw [hlookup]
    split_ifs with heq
    · rw [hvalue heq.symm]
    · exact (hother (Ne.symm heq)).2

theorem HoldsErased.write (h : HoldsErased g a L A b s) {cacheOnly : Bool}
    (hvalue : e.address.toNat = a → e.value = erasedValue)
    (hroom : cacheOnly = false → e.address.toNat < g.maxAddress →
      writePosition g s < g.pageSize) :
    wp (EmuEeprom.write g e cacheOnly) (fun _ t => ∃ L A b, HoldsErased g a L A b t) s := by
  by_cases hbad : e.address = reservedStatusAddress ∨ e.address.toNat ≥ g.maxAddress
  · rw [wp, write_refused hbad]
    exact ⟨L, A, b, h⟩
  obtain ⟨he, hlt⟩ := not_or.mp hbad
  have hlt : e.address.toNat < g.maxAddress := Nat.lt_of_not_le hlt
  have hsize := g.pageSize_eq
  have hposition := h.working.writePosition_eq
  have hcached := h.working.mirrored e.address.toNat e.value
  apply wp_mono (h.working.write he hlt writeSafe_always cacheOnly)
  intro r t hend
  cases hend with
  | cached =>
    refine ⟨L, A, b, hcached, ?_, h.newest⟩
    change (if a = e.address.toNat then e.value else s.ram.cache a) = erasedValue
    split_ifs with heq
    · exact hvalue heq.symm
    · exact h.cache
  | appended _ hw hcontent _ hkept =>
    exact ⟨_, _, _, holdsErased_appended hw hcontent he hkept hvalue fun _ => ⟨h.cache, h.newest⟩⟩
  | transferred hfull =>
    have hlow := hroom rfl hlt
    omega
  | full hfull =>
    have hlow := hroom rfl hlt
    omega

theorem HoldsErased.flush (h : HoldsErased g a L A b s) (hclean : s.ram.cacheDirty = false) :
    wp (EmuEeprom.flush g) (fun _ t => HoldsErased g a (L.flushed g (stage A b)) A [] t) s := by
  apply wp_mono (h.working.flush trivial fun _ => (writeSafe_always (e := erasedEntry)).transfer)
  rintro r t ⟨-, hend⟩
  cases hend with
  | programmed _ hkept hw =>
    refine ⟨hw, hkept.cache ▸ h.cache, ?_⟩
    rw [List.append_nil, lookup_congr live_stage a]
    exact h.newest
  | transferred hdirty =>
    rw [hclean] at hdirty
    cases hdirty

/-- A restart finds the pages as they are and fills the mirror from the valid one. -/
theorem Working.init_found (h : Working g Always L A b s) :
    wp (EmuEeprom.init g) (fun _ t => Working g Always L A [] t ∧ t.ram.cache = mirror (L A)) s := by
  refine init_recognized h.sees fun t ht hstatuses => ?_
  have hv : t.ram.pageStatusCache A = .valid := by rw [hstatuses]; exact h.marked
  have ho : t.ram.pageStatusCache A.other = .formatted := by
    rw [hstatuses]
    dsimp only
    rw [h.spare, lastStatus_formattedBlock]
  rw [repair, wp_bind, wp_get]
  dsimp only
  rw [repairPages_valid h.runtime hv, ho]
  dsimp only
  rw [wp_bind, wp_pure]
  apply wp_bind_of (cache_working ht h.runtime hv ho h.marked h.spare)
  rintro r u ⟨rfl, hw, hc, -, -⟩
  exact ⟨hw, hc⟩

theorem HoldsErased.init (h : HoldsErased g a L A b s) (hu : Unstaged g a s.ram) :
    wp (EmuEeprom.init g) (fun _ t => HoldsErased g a L A [] t) s := by
  apply wp_mono h.working.init_found
  rintro r t ⟨hw, hc⟩
  refine ⟨hw, ?_, ?_⟩
  · rw [hc, mirror, h.programmed hu]
    rfl
  · rw [List.append_nil, h.programmed hu]

theorem HoldsErased.storeToFactory (h : HoldsErased g a L A b s)
    (hclean : s.ram.cacheDirty = false) :
    wp (EmuEeprom.storeToFactory g) (fun _ t => ∃ L A b, HoldsErased g a L A b t) s := by
  rw [storeToFactory_eq]
  apply wp_bind_of (h.working.flush trivial fun _ =>
    (writeSafe_always (e := erasedEntry)).transfer)
  rintro r t ⟨rfl, hend⟩
  cases hend with
  | programmed _ hkept hw =>
    apply wp_mono (hw.storeActive ⟨trivial, fun _ _ => trivial⟩)
    rintro r u ⟨-, hwu, hkeptu⟩
    refine ⟨_, _, _, hwu, ?_, ?_⟩
    · rw [hkeptu.cache, hkept.cache]
      exact h.cache
    · rw [List.append_nil, Logs.set_ne hw.runtime, lookup_congr live_stage a]
      exact h.newest
  | transferred hdirty =>
    rw [hclean] at hdirty
    cases hdirty

theorem HoldsErased.perform (h : HoldsErased g a L A b s) (ha : a < g.maxAddress)
    (hop : KeepsErased g a s op) :
    wp (EmuEeprom.perform g op) (fun out t => (∃ L A b, HoldsErased g a L A b t) ∧
      (op = .read a → out = .delivered .ok (some erasedValue))) s := by
  cases op with
  | init =>
    apply wp_bind_of (h.init hop)
    intro r t ht
    exact ⟨⟨_, _, _, ht⟩, nofun⟩
  | read x =>
    by_cases hx : x = a
    · subst hx
      apply wp_bind_of (h.read ha (hop rfl))
      rintro r t ⟨rfl, ht⟩
      exact ⟨⟨_, _, _, ht⟩, fun _ => rfl⟩
    · apply wp_bind_of (h.read_other hx)
      intro r t ht
      exact ⟨⟨_, _, _, ht⟩, fun heq => absurd (Operation.read.inj heq) hx⟩
  | write e cacheOnly =>
    apply wp_bind_of (h.write hop.1 hop.2)
    intro r t ht
    exact ⟨ht, nofun⟩
  | flush =>
    apply wp_bind_of (h.flush hop)
    intro r t ht
    exact ⟨⟨_, _, _, ht⟩, nofun⟩
  | storeToFactory =>
    apply wp_bind_of (h.storeToFactory hop)
    intro r t ht
    exact ⟨ht, nofun⟩
  | pageStatus q =>
    apply wp_bind_of (h.working.pageStatus q)
    rintro r t ⟨-, hw, hc, -⟩
    exact ⟨⟨_, _, _, hw, hc ▸ h.cache, h.newest⟩, nofun⟩
  | pageTransfer => exact hop.elim
  | format => exact hop.elim
  | restoreFromFactory => exact hop.elim

/-- An immediate write of the erased value that is accepted. -/
theorem Working.writeErased (h : Working g Always L A b s) {address : UInt16}
    (hw : EmuEeprom.write g ⟨address, erasedValue⟩ false s = (.ok, t)) :
    address.toNat < g.maxAddress ∧ ∃ L A b, HoldsErased g address.toNat L A b t := by
  by_cases hbad : address = reservedStatusAddress ∨ address.toNat ≥ g.maxAddress
  · rw [write_refused hbad] at hw
    exact absurd (congrArg Prod.fst hw) nofun
  obtain ⟨he, hlt⟩ := not_or.mp hbad
  have hlt : address.toNat < g.maxAddress := Nat.lt_of_not_le hlt
  have hend := h.write (e := ⟨address, erasedValue⟩) he hlt writeSafe_always false
  rw [wp, hw] at hend
  refine ⟨hlt, ?_⟩
  cases hend with
  | appended _ hw hcontent _ hkept =>
    exact ⟨_, _, _, holdsErased_appended hw hcontent he hkept (fun _ => rfl)
      fun hne => absurd rfl hne⟩
  | transferred _ _ _ hw hcontent _ _ _ _ hkept =>
    exact ⟨_, _, _, holdsErased_appended hw hcontent he hkept (fun _ => rfl)
      fun hne => absurd rfl hne⟩

/-- The erased value reads back after an immediate write of it, until the values are transferred. -/
theorem erased_value_kept {address : UInt16} (hflash : flash.Formatted g F)
    (hr : Run (Started g flash) (WorkStep g) calls s)
    (hw : write g ⟨address, erasedValue⟩ false s = (.ok, t))
    (hlater : Run (· = t) (KeepStep g address.toNat) later u) :
    ∀ out, (Operation.read address.toNat, out) ∈ later →
      out = .delivered .ok (some erasedValue) := by
  obtain ⟨L, A, b, hworking⟩ := working_run hflash hr
  obtain ⟨ha, hholds⟩ := hworking.writeErased hw
  have hinvariant : (∃ L A b, HoldsErased g address.toNat L A b u) ∧
      ∀ out, (Operation.read address.toNat, out) ∈ later →
        out = .delivered .ok (some erasedValue) := by
    refine Run.invariant (I := fun later u => (∃ L A b, HoldsErased g address.toNat L A b u) ∧
      ∀ out, (Operation.read address.toNat, out) ∈ later →
        out = .delivered .ok (some erasedValue)) ?_ ?_ hlater
    · rintro _ rfl
      exact ⟨hholds, fun out hout => by cases hout⟩
    · rintro later v ⟨op, out⟩ u ⟨⟨L, A, b, hv⟩, hreads⟩ ⟨hop, hrun⟩
      have hstep := hv.perform ha hop
      rw [wp, hrun] at hstep
      refine ⟨hstep.1, fun out' hout => ?_⟩
      rcases List.mem_append.mp hout with hout | hout
      · exact hreads out' hout
      · obtain ⟨hread, rfl⟩ := Prod.mk.inj (List.mem_singleton.mp hout)
        exact hstep.2 hread.symm
  exact hinvariant.2

/-- A value that is on the flash. -/
def storedSeven : State := (performAll smallGeometry [.write ⟨1, 7⟩ false, .flush] startedStore).2

theorem run_storedSeven : Run (Started smallGeometry blankFlash) (WorkStep smallGeometry)
    (performAll smallGeometry [.write ⟨1, 7⟩ false, .flush] startedStore).1 storedSeven := by
  have hstep : ∀ h s, ∀ op ∈ [Operation.write ⟨1, 7⟩ false, .flush], WorkStep smallGeometry h s
      (op, (perform smallGeometry op s).1) (perform smallGeometry op s).2 := by
    intro h s op hop
    refine ⟨?_, rfl⟩
    rintro rfl
    exact absurd hop (by decide)
  exact run_performAll hstep (.nil started_startedStore)

/-- The erased value over it, written at once. -/
def erasedOverSeven : State := (write smallGeometry ⟨1, erasedValue⟩ false storedSeven).2

theorem run_flush_read : Run (· = erasedOverSeven) (KeepStep smallGeometry 1)
    [(.flush, (perform smallGeometry .flush erasedOverSeven).1),
      (.read 1, (perform smallGeometry (.read 1) (flush smallGeometry erasedOverSeven).2).1)]
    (perform smallGeometry (.read 1) (flush smallGeometry erasedOverSeven).2).2 := by
  have hflush : KeepsErased smallGeometry 1 erasedOverSeven .flush :=
    (by decide +kernel : erasedOverSeven.ram.cacheDirty = false)
  have hread : KeepsErased smallGeometry 1 (flush smallGeometry erasedOverSeven).2 (.read 1) := by
    intro _ hdirty
    exact absurd hdirty (by decide +kernel)
  have hflushed : Run (· = erasedOverSeven) (KeepStep smallGeometry 1)
      ([] ++ [(.flush, (perform smallGeometry .flush erasedOverSeven).1)])
      (flush smallGeometry erasedOverSeven).2 := .snoc (.nil rfl) ⟨hflush, rfl⟩
  exact .snoc hflushed ⟨hread, rfl⟩

theorem erased_value_kept_example :
    (perform smallGeometry (.read 1) (flush smallGeometry erasedOverSeven).2).1 =
      .delivered .ok (some erasedValue) := by
  have hw : write smallGeometry ⟨1, erasedValue⟩ false storedSeven = (.ok, erasedOverSeven) :=
    Prod.ext (by decide +kernel) rfl
  exact erased_value_kept blankFlash_formatted run_storedSeven hw run_flush_read _
    (List.mem_cons_of_mem _ List.mem_cons_self)

/-- The former value returns: the mirror is not asked for the erased one, and the flash holds the
former. -/
theorem former_value_returns :
    Run (Started smallGeometry blankFlash) (WorkStep smallGeometry)
        (performAll smallGeometry [.write ⟨1, 7⟩ false, .flush] startedStore).1 storedSeven ∧
      (∀ cacheOnly, (write smallGeometry ⟨1, erasedValue⟩ cacheOnly storedSeven).1 = .ok ∧
        (read smallGeometry 1 (write smallGeometry ⟨1, erasedValue⟩ cacheOnly storedSeven).2).1 =
          (.ok, some 7)) ∧
      (read smallGeometry 1 (pageTransfer smallGeometry (flush smallGeometry
        (write smallGeometry ⟨1, erasedValue⟩ false storedSeven).2).2).2).1 = (.noVariable, none) :=
  ⟨run_storedSeven, by decide +kernel, by decide +kernel⟩

end Zlibs.EmuEeprom
