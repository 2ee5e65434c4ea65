import Zlibs.Lessdb.AddressSafety

/-! What the parameters are in the contents of a backend that reads back what was written. -/
namespace Zlibs.Lessdb
open Lib

/-- Every access within the addresses succeeds, and what was written is read back. -/
structure ReadsBack (hwa : Hwa) : Prop where
  read : ∀ calls address (type : SectionParameterType),
    address + type.width ≤ hwa.addressCount.toNat →
      ∃ value, value < 2 ^ (8 * type.width) ∧ hwa.read calls address type = some value
  write : ∀ calls address value (type : SectionParameterType),
    address + type.width ≤ hwa.addressCount.toNat → hwa.write calls address value type = true
  written : ∀ calls address value (type type' : SectionParameterType),
    address + type.width ≤ hwa.addressCount.toNat → type'.width = type.width →
      hwa.read (calls ++ [.write address value type]) address type' =
        some (value % 2 ^ (8 * type.width))
  apart : ∀ calls address value (type : SectionParameterType) address'
    (type' : SectionParameterType), address' + type'.width ≤ hwa.addressCount.toNat →
      Disjoint address (address + type.width) address' (address' + type'.width) →
      hwa.read (calls ++ [.write address value type]) address' type' = hwa.read calls address' type'
  quiet : ∀ calls address type address' type',
    hwa.read (calls ++ [.read address type]) address' type' = hwa.read calls address' type'

/-- The bytes of a memory after the calls. -/
def bytesAfter (bytes : Nat → Nat) (calls : List HwaCall) : Nat → Nat :=
  calls.foldl (fun bytes call =>
    match call with
    | .write address value type => fun x =>
      if address ≤ x ∧ x < address + type.width then value / 256 ^ (x - address) % 256 else bytes x
    | _ => bytes) bytes

/-- The little-endian number in the bytes from an address on. -/
def wordAt (bytes : Nat → Nat) : Nat → Nat → Nat
  | _, 0 => 0
  | address, width + 1 => bytes address % 256 + 256 * wordAt bytes (address + 1) width

def memory (addressCount : UInt32) (bytes : Nat → Nat) : Hwa where
  addressCount := addressCount
  read := fun calls address type => some (wordAt (bytesAfter bytes calls) address type.width)
  write := fun _ _ _ _ => true
  clear := fun _ => true

theorem wordAt_lt {bytes : Nat → Nat} {address width : Nat} :
    wordAt bytes address width < 256 ^ width := by
  induction width generalizing address with
  | zero => exact Nat.one_pos
  | succ width ih =>
    have hrest : wordAt bytes (address + 1) width < 256 ^ width := ih
    have hbyte : bytes address % 256 < 256 := Nat.mod_lt _ (by decide)
    rw [wordAt, Nat.pow_succ]
    omega

theorem wordAt_congr {bytes bytes' : Nat → Nat} {address width : Nat}
    (h : ∀ x, address ≤ x → x < address + width → bytes' x = bytes x) :
    wordAt bytes' address width = wordAt bytes address width := by
  induction width generalizing address with
  | zero => rfl
  | succ width ih =>
    rw [wordAt, wordAt, h address le_rfl (by omega), ih fun x h1 h2 => h x (by omega) (by omega)]

theorem wordAt_written {bytes : Nat → Nat} {address width value : Nat}
    (h : ∀ i < width, bytes (address + i) = value / 256 ^ i % 256) :
    wordAt bytes address width = value % 256 ^ width := by
  induction width generalizing address value with
  | zero => rw [wordAt, Nat.pow_zero, Nat.mod_one]
  | succ width ih =>
    have hrest : wordAt bytes (address + 1) width = value / 256 % 256 ^ width := by
      apply ih
      intro i hi
      have hnext := h (i + 1) (by omega)
      rw [Nat.pow_succ', ← Nat.div_div_eq_div_mul] at hnext
      rw [Nat.add_assoc, Nat.add_comm 1 i, hnext]
    have hfirst := h 0 (by omega)
    rw [Nat.add_zero, Nat.pow_zero, Nat.div_one] at hfirst
    rw [wordAt, hrest, hfirst, Nat.mod_mod, Nat.pow_succ', Nat.mod_mul]

theorem memory_readsBack (addressCount : UInt32) (bytes : Nat → Nat) :
    ReadsBack (memory addressCount bytes) where
  read := fun calls address type _ => ⟨_, by rw [pow_mul]; exact wordAt_lt, rfl⟩
  write := fun _ _ _ _ _ => rfl
  written := by
    intro calls address value type type' _ hwidth
    show some (wordAt _ address type'.width) = _
    rw [hwidth, pow_mul]
    refine congrArg some (wordAt_written fun i hi => ?_)
    rw [bytesAfter, List.foldl_append]
    show (if address ≤ address + i ∧ address + i < address + type.width then _ else _) = _
    rw [if_pos ⟨by omega, by omega⟩, Nat.add_sub_cancel_left]
  apart := by
    intro calls address value type address' type' _ hdisjoint
    refine congrArg some (wordAt_congr fun x h1 h2 => ?_)
    rw [bytesAfter, List.foldl_append]
    show (if address ≤ x ∧ x < address + type.width then _ else _) = _
    rw [if_neg]
    · rfl
    · unfold Disjoint at hdisjoint
      omega
  quiet := by
    intro calls address type address' type'
    refine congrArg some (wordAt_congr fun x _ _ => ?_)
    rw [bytesAfter, List.foldl_append]
    rfl

namespace Section

/-- The offset of a parameter within its section. -/
def cell (sect : Section) (p : Nat) : Nat :=
  match sect.parameterType with
  | .bit => p / 8 % 256
  | .byte => p
  | .halfByte => p / 2
  | .word => p * 2
  | .dword => p * 4

/-- The parameter as part of what is read at its offset. -/
def extract (sect : Section) (p raw : Nat) : Nat :=
  match sect.parameterType with
  | .bit => (LessDb.hasBit raw ((p - p / 8 % 256 * 8) % 256)).toNat
  | .byte => raw &&& 0xFF
  | .halfByte => (if p % 2 ≠ 0 then raw / 2 ^ 4 else raw) &&& 0x0F
  | .word => raw &&& 0xFFFF
  | .dword => raw

/-- What is written at its offset for a new value. -/
def insert (sect : Section) (p raw newValue : Nat) : Nat :=
  match sect.parameterType with
  | .bit => LessDb.withBit raw ((p - 8 * (p / 8 % 256)) % 256) (newValue &&& 1)
  | .byte => newValue &&& 0xFF
  | .halfByte =>
    if p % 2 ≠ 0 then (raw &&& 0x0F) ||| u32 ((newValue &&& 0x0F) * 2 ^ 4)
    else (raw &&& 0xF0) ||| (newValue &&& 0x0F)
  | .word => newValue &&& 0xFFFF
  | .dword => newValue

/-- Several parameters share a byte. -/
def Packed (sect : Section) : Prop :=
  sect.parameterType = .bit ∨ sect.parameterType = .halfByte

theorem Packed.width {sect : Section} (h : sect.Packed) : sect.parameterType.width = 1 := by
  rcases h with h | h <;> rw [h] <;> rfl

theorem cell_le {sect : Section} {p : Nat} (hp : p < sect.numberOfParameters) :
    sect.cell p + sect.parameterType.width ≤ sect.size := by
  obtain ⟨hbit, hbyte, hhalf, hword, hdword⟩ := LessDb.parameter_inside hp
  unfold cell
  split
  · next h => rw [h]; exact hbit h
  · next h => rw [h]; exact hbyte h
  · next h => rw [h]; exact hhalf h
  · next h => rw [h]; exact hword h
  · next h => rw [h]; exact hdword h

end Section

namespace LessDb

variable {hwa : Hwa} {db db' db'' : LessDb} {address value lo hi : Nat}
  {type : SectionParameterType} {block : Block} {sect : Section} {b s p : Nat}
  {blocks : List (List Section)} {startAddress : Nat}

/-- What no access of the backend changes. -/
structure SameConfig (db db' : LessDb) : Prop where
  layout : db'.layout = db.layout
  initialAddress : db'.initialAddress = db.initialAddress
  layoutUid : db'.layoutUid = db.layoutUid
  initProviders : db'.initProviders = db.initProviders

theorem SameConfig.refl : SameConfig db db := ⟨rfl, rfl, rfl, rfl⟩

theorem SameConfig.trans (h : SameConfig db db') (h' : SameConfig db' db'') : SameConfig db db'' :=
  ⟨h'.layout.trans h.layout, h'.initialAddress.trans h.initialAddress,
    h'.layoutUid.trans h.layoutUid, h'.initProviders.trans h.initProviders⟩

theorem SameConfig.placed (h : SameConfig db db') (hp : Placed blocks startAddress db) :
    Placed blocks startAddress db' :=
  ⟨h.layout.trans hp.layout, h.initialAddress.trans hp.initialAddress, hp.fits⟩

theorem SameConfig.initValue (h : SameConfig db db') {defaultValue : UInt32} :
    db'.initValue b s p defaultValue = db.initValue b s p defaultValue := by
  rw [LessDb.initValue, LessDb.initValue, h.initProviders, h.layoutUid]

/-- The backend reads the same as before. -/
def SameContents (hwa : Hwa) (db db' : LessDb) : Prop :=
  ∀ address type, hwa.read db'.calls address type = hwa.read db.calls address type

/-- What a write within the addresses does. -/
structure Wrote (hwa : Hwa) (address value : Nat) (type : SectionParameterType)
    (db db' : LessDb) : Prop where
  config : SameConfig db db'
  written : ∀ type' : SectionParameterType, type'.width = type.width →
    hwa.read db'.calls address type' = some (value % 2 ^ (8 * type.width))
  apart : ∀ address' (type' : SectionParameterType),
    address' + type'.width ≤ hwa.addressCount.toNat →
    Disjoint address (address + type.width) address' (address' + type'.width) →
    hwa.read db'.calls address' type' = hwa.read db.calls address' type'
  lastReadValue : db'.lastReadValue = db.lastReadValue
  lastReadAddress : db'.lastReadAddress =
    if address = db.lastReadAddress then invalidAddress else db.lastReadAddress

theorem write_spec (value : Nat) (db : LessDb) (h : ReadsBack hwa) (hin : address + type.width ≤ hwa.addressCount.toNat) :
    ((write hwa address value type db).1 = true ↔ value < 2 ^ (8 * type.width)) ∧
      Wrote hwa address value type db (write hwa address value type db).2 := by
  set marked : LessDb :=
    if address = db.lastReadAddress then { db with lastReadAddress := invalidAddress } else db
    with hmarked
  have hcalls : marked.calls = db.calls := by
    rw [hmarked]
    split_ifs <;> rfl
  have hrun : write hwa address value type db =
      (decide (value = value % 2 ^ (8 * type.width)),
        { marked with calls := marked.calls ++ [.write address value type] ++ [.read address type] })
      := by
    have hwrite := h.write marked.calls address value type hin
    have hread := h.written marked.calls address value type type hin rfl
    simp only [write, bind, StateT.bind, modify, modifyGet, MonadStateOf.modifyGet,
      StateT.modifyGet, pure, ← hmarked, hwaWrite, hwrite, Bool.not_true, Bool.false_eq_true,
      if_false, hwaRead, hread, StateT.pure]
  rw [hrun]
  refine ⟨?_, ⟨?_, ?_, ?_, ?_, ?_⟩⟩
  · rw [decide_eq_true_iff]
    exact ⟨fun he => he ▸ Nat.mod_lt _ (Nat.two_pow_pos _), fun hlt => (Nat.mod_eq_of_lt hlt).symm⟩
  · rw [hmarked]
    split_ifs <;> exact ⟨rfl, rfl, rfl, rfl⟩
  · intro type' hwidth
    rw [h.quiet, h.written _ _ _ _ _ hin hwidth]
  · intro address' type' hin' hdisjoint
    rw [h.quiet, h.apart _ _ _ _ _ _ hin' hdisjoint, hcalls]
  · rw [hmarked]
    split_ifs <;> rfl
  · rw [hmarked]
    split_ifs <;> rfl

/-- The byte that is remembered, if it is one of packed parameters, is as the backend has it. -/
def Coherent (hwa : Hwa) (startAddress : Nat) (db : LessDb) : Prop :=
  ∀ (b s : Nat) (block : Block) (sect : Section), db.layout[b]? = some block →
    block.sections[s]? = some sect → sect.Packed →
    firstAddress startAddress block sect ≤ db.lastReadAddress →
    db.lastReadAddress < firstAddress startAddress block sect + sect.size →
    hwa.read db.calls db.lastReadAddress sect.parameterType = some db.lastReadValue

/-- An accepted layout over a backend that reads back what was written. -/
structure Accepted (hwa : Hwa) (blocks : List (List Section)) (startAddress : Nat) (db : LessDb) :
    Prop where
  readsBack : ReadsBack hwa
  placed : Placed blocks startAddress db
  inside : startAddress + totalSize blocks ≤ hwa.addressCount.toNat

theorem Accepted.config (h : Accepted hwa blocks startAddress db) (hc : SameConfig db db') :
    Accepted hwa blocks startAddress db' := ⟨h.readsBack, hc.placed h.placed, h.inside⟩

theorem Accepted.end_le (h : Accepted hwa blocks startAddress db) (hb : db.layout[b]? = some block)
    (hs : block.sections[s]? = some sect) :
    firstAddress startAddress block sect + sect.size ≤ hwa.addressCount.toNat := by
  have hend := h.placed.end_le hb hs
  have hinside := h.inside
  omega

/-- A section that shares an address with another one is that one. -/
theorem Accepted.same (h : Accepted hwa blocks startAddress db) {b' s' : Nat} {block' : Block}
    {sect' : Section} (hb : db.layout[b]? = some block) (hs : block.sections[s]? = some sect)
    (hb' : db.layout[b']? = some block') (hs' : block'.sections[s']? = some sect')
    (h1 : firstAddress startAddress block sect ≤ address)
    (h2 : address < firstAddress startAddress block sect + sect.size)
    (h3 : firstAddress startAddress block' sect' ≤ address)
    (h4 : address < firstAddress startAddress block' sect' + sect'.size) :
    b = b' ∧ s = s' ∧ block = block' ∧ sect = sect' := by
  have hfits := h.placed.fits
  have heq : (b, s) = (b', s') := by
    by_contra hne
    rw [h.placed.layout] at hb hb'
    rcases sections_disjoint (by omega) hb hs hb' hs' hne startAddress with hd | hd <;> omega
  cases heq
  rw [hb] at hb'
  cases hb'
  rw [hs] at hs'
  cases hs'
  exact ⟨rfl, rfl, rfl, rfl⟩

/-- What a read changes: nothing but what is remembered. -/
structure Looked (hwa : Hwa) (startAddress : Nat) (db db' : LessDb) : Prop where
  config : SameConfig db db'
  contents : SameContents hwa db db'
  coherent : Coherent hwa startAddress db'

theorem readCached_spec (address : Nat) (h : Accepted hwa blocks startAddress db)
    (hcoherent : Coherent hwa startAddress db) (hb : db.layout[b]? = some block)
    (hs : block.sections[s]? = some sect) (hpacked : sect.Packed)
    (hlo : firstAddress startAddress block sect ≤ address)
    (hhi : address < firstAddress startAddress block sect + sect.size) :
    ∃ raw, hwa.read db.calls address sect.parameterType = some raw ∧
      (readCached hwa address sect.parameterType db).1 = some raw ∧
      Looked hwa startAddress db (readCached hwa address sect.parameterType db).2 := by
  have hwidth := hpacked.width
  have hend := h.end_le hb hs
  obtain ⟨raw, hraw, hread⟩ := h.readsBack.read db.calls address sect.parameterType (by omega)
  rw [hwidth] at hraw
  refine ⟨raw, hread, ?_⟩
  by_cases hlast : address = db.lastReadAddress
  · have hvalue := hcoherent b s block sect hb hs hpacked (by omega) (by omega)
    rw [← hlast, hread] at hvalue
    have hrun : readCached hwa address sect.parameterType db = (some db.lastReadValue, db) := by
      simp [readCached, bind, StateT.bind, get, getThe, MonadStateOf.get, StateT.get, hlast, pure,
        StateT.pure]
    rw [hrun]
    exact ⟨hvalue.symm, SameConfig.refl, fun _ _ => rfl, hcoherent⟩
  · have hbyte : raw % 256 = raw := Nat.mod_eq_of_lt hraw
    have hrun : readCached hwa address sect.parameterType db = (some raw, { db with
        calls := db.calls ++ [.read address sect.parameterType]
        lastReadValue := raw
        lastReadAddress := address }) := by
      simp [readCached, bind, StateT.bind, get, getThe, MonadStateOf.get, StateT.get, hlast, pure,
        StateT.pure, hwaRead, hread, modify, modifyGet, MonadStateOf.modifyGet, StateT.modifyGet,
        hbyte]
    rw [hrun]
    refine ⟨rfl, ⟨rfl, rfl, rfl, rfl⟩, fun _ _ => h.readsBack.quiet .., ?_⟩
    intro b' s' block' sect' hb' hs' _ h1 h2
    obtain ⟨-, -, -, rfl⟩ := h.same hb hs hb' hs' hlo hhi h1 h2
    show hwa.read (db.calls ++ _) address sect.parameterType = some raw
    rw [h.readsBack.quiet, hread]

theorem readDirect_spec (address mask : Nat) (h : Accepted hwa blocks startAddress db)
    (hb : db.layout[b]? = some block) (hs : block.sections[s]? = some sect)
    (hnot : ¬ sect.Packed) (hlo : firstAddress startAddress block sect ≤ address)
    (hhi : address + sect.parameterType.width ≤
      firstAddress startAddress block sect + sect.size) :
    ∃ raw, hwa.read db.calls address sect.parameterType = some raw ∧
      (readDirect hwa address mask sect.parameterType db).1 = some (raw &&& mask) ∧
      Looked hwa startAddress db (readDirect hwa address mask sect.parameterType db).2 := by
  have hpos : 0 < sect.parameterType.width := width_pos
  have hend := h.end_le hb hs
  obtain ⟨raw, -, hread⟩ := h.readsBack.read db.calls address sect.parameterType (by omega)
  have hrun : readDirect hwa address mask sect.parameterType db = (some (raw &&& mask), { db with
      calls := db.calls ++ [.read address sect.parameterType]
      lastReadAddress := address }) := by
    simp [readDirect, bind, StateT.bind, pure, StateT.pure, hwaRead, hread, modify, modifyGet,
      MonadStateOf.modifyGet, StateT.modifyGet]
  refine ⟨raw, hread, ?_⟩
  rw [hrun]
  refine ⟨rfl, ⟨rfl, rfl, rfl, rfl⟩, fun _ _ => h.readsBack.quiet .., ?_⟩
  -- The address that is remembered now is in no packed section.
  intro b' s' block' sect' hb' hs' hpacked h1 h2
  obtain ⟨-, -, -, rfl⟩ := h.same hb hs hb' hs' hlo (by omega) h1 h2
  exact absurd hpacked hnot

theorem read_spec (h : Accepted hwa blocks startAddress db)
    (hcoherent : Coherent hwa startAddress db) (hsect : db.sectionAt b s = some (block, sect))
    (hp : p < sect.numberOfParameters) :
    ∃ raw, hwa.read db.calls (firstAddress startAddress block sect + sect.cell p)
        sect.parameterType = some raw ∧
      (read hwa b s p db).1 = some (sect.extract p raw) ∧
      Looked hwa startAddress db (read hwa b s p db).2 := by
  obtain ⟨hb, hs⟩ := sectionAt_some hsect
  have hcell := Section.cell_le hp
  have hend := h.placed.end_le hb hs
  have hfits := h.placed.fits
  have hpos : 0 < sect.parameterType.width := width_pos
  have haddress : u32 (firstAddress startAddress block sect + sect.cell p) =
      firstAddress startAddress block sect + sect.cell p := u32_of_lt (by omega)
  have hplace := h.placed.sectionAddress hb hs
  have hnot : ¬ p ≥ sect.numberOfParameters := Nat.not_le.mpr hp
  have hunpacked : sect.parameterType ≠ .bit → sect.parameterType ≠ .halfByte → ¬ sect.Packed :=
    fun hb hh hpacked => hpacked.elim hb hh
  unfold Section.cell at haddress hcell ⊢
  unfold Section.extract
  cases htype : sect.parameterType with
  | bit =>
    simp only [htype, SectionParameterType.width] at haddress hcell ⊢
    obtain ⟨raw, hread, hresult, hlooked⟩ := readCached_spec
      (firstAddress startAddress block sect + p / 8 % 256) h hcoherent hb hs (.inl htype) (by omega)
      (by omega)
    rw [htype] at hread hresult hlooked
    have hrun : read hwa b s p db = ((readCached hwa
        (firstAddress startAddress block sect + p / 8 % 256) .bit db).1.map fun value =>
          (hasBit value ((p - p / 8 % 256 * 8) % 256)).toNat, (readCached hwa
        (firstAddress startAddress block sect + p / 8 % 256) .bit db).2) := by
      simp [read, bind, StateT.bind, get, getThe, MonadStateOf.get, StateT.get, hsect, hnot, htype,
        hplace, haddress, pure, StateT.pure]
      rfl
    rw [hrun, hresult]
    exact ⟨raw, hread, rfl, hlooked⟩
  | byte =>
    simp only [htype, SectionParameterType.width] at haddress hcell ⊢
    obtain ⟨raw, hread, hresult, hlooked⟩ := readDirect_spec
      (firstAddress startAddress block sect + p) 0xFF h hb hs (hunpacked (by simp [htype]) (by simp [htype])) (by omega)
      (by rw [htype]; simp only [SectionParameterType.width]; omega)
    rw [htype] at hread hresult hlooked
    have hrun : read hwa b s p db = readDirect hwa
        (firstAddress startAddress block sect + p) 0xFF .byte db := by
      simp [read, bind, StateT.bind, get, getThe, MonadStateOf.get, StateT.get, hsect, hnot, htype,
        hplace, haddress, pure]
    rw [hrun, hresult]
    exact ⟨raw, hread, rfl, hlooked⟩
  | halfByte =>
    simp only [htype, SectionParameterType.width] at haddress hcell ⊢
    obtain ⟨raw, hread, hresult, hlooked⟩ := readCached_spec
      (firstAddress startAddress block sect + p / 2) h hcoherent hb hs (.inr htype) (by omega)
      (by omega)
    rw [htype] at hread hresult hlooked
    have hrun : read hwa b s p db = ((readCached hwa
        (firstAddress startAddress block sect + p / 2) .halfByte db).1.map fun value =>
          (if p % 2 ≠ 0 then value / 2 ^ 4 else value) &&& 0x0F, (readCached hwa
        (firstAddress startAddress block sect + p / 2) .halfByte db).2) := by
      simp [read, bind, StateT.bind, get, getThe, MonadStateOf.get, StateT.get, hsect, hnot, htype,
        hplace, haddress, pure, StateT.pure]
      rfl
    rw [hrun, hresult]
    exact ⟨raw, hread, rfl, hlooked⟩
  | word =>
    simp only [htype, SectionParameterType.width] at haddress hcell ⊢
    obtain ⟨raw, hread, hresult, hlooked⟩ := readDirect_spec
      (firstAddress startAddress block sect + p * 2) 0xFFFF h hb hs (hunpacked (by simp [htype]) (by simp [htype])) (by omega)
      (by rw [htype]; simp only [SectionParameterType.width]; omega)
    rw [htype] at hread hresult hlooked
    have hrun : read hwa b s p db = readDirect hwa
        (firstAddress startAddress block sect + p * 2) 0xFFFF .word db := by
      simp [read, bind, StateT.bind, get, getThe, MonadStateOf.get, StateT.get, hsect, hnot, htype,
        hplace, haddress, pure]
    rw [hrun, hresult]
    exact ⟨raw, hread, rfl, hlooked⟩
  | dword =>
    simp only [htype, SectionParameterType.width] at haddress hcell ⊢
    obtain ⟨raw, -, hread⟩ := h.readsBack.read db.calls
      (firstAddress startAddress block sect + p * 4) .dword
      (by have := h.inside; simp only [SectionParameterType.width]; omega)
    have hrun : read hwa b s p db = hwaRead hwa
        (firstAddress startAddress block sect + p * 4) .dword db := by
      simp [read, bind, StateT.bind, get, getThe, MonadStateOf.get, StateT.get, hsect, hnot, htype,
        hplace, haddress, pure]
    rw [hrun]
    refine ⟨raw, hread, hread, ⟨rfl, rfl, rfl, rfl⟩, fun _ _ => h.readsBack.quiet .., ?_⟩
    intro b' s' block' sect' hb' hs' hpacked h1 h2
    show hwa.read (db.calls ++ _) _ _ = _
    rw [h.readsBack.quiet]
    exact hcoherent b' s' block' sect' hb' hs' hpacked h1 h2

end LessDb

end Zlibs.Lessdb
