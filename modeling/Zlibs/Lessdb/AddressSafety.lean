import Zlibs.Lib.StateProgram
import Zlibs.Lessdb.Database

/-! The addresses of a layout, and those that the backend is called with. -/
namespace Zlibs.Lessdb
open Lib

variable {hwa : Hwa} {db db' db'' : LessDb} {lo hi address value : Nat}
  {type : SectionParameterType} {block : Block} {sect : Section} {b s p : Nat}

/-- The bytes of an access. -/
def SectionParameterType.width : SectionParameterType → Nat
  | .bit => 1
  | .byte => 1
  | .halfByte => 1
  | .word => 2
  | .dword => 4

/-- The access lies between two addresses. -/
def HwaCall.Inside (lo hi : Nat) : HwaCall → Prop
  | .read address type => lo ≤ address ∧ address + type.width ≤ hi
  | .write address _ type => lo ≤ address ∧ address + type.width ≤ hi
  | .clear => False

/-- Blocks as they are given to `make_block` and `make_layout`. -/
def built (blocks : List (List Section)) : List Block :=
  makeLayout (blocks.map fun sections => ⟨makeBlock sections, 0⟩)

/-- The exact size of a layout. -/
def totalSize (blocks : List (List Section)) : Nat :=
  (blocks.map fun sections => (sections.map Section.size).sum).sum

variable {blocks : List (List Section)}

theorem makeBlock_getElem? {sections : List Section} {i : Nat}
    (h : (sections.map Section.size).sum < 2 ^ 32) : (makeBlock sections)[i]? =
      sections[i]?.map fun s => { s with address := ((sections.take i).map Section.size).sum } := by
  rw [makeBlock, stampFrom_getElem? (f := Section.size) (fun s _ hs => Section.byteSize_eq hs)
    (by rwa [Nat.zero_add])]
  simp only [Nat.zero_add]

theorem map_size_stampFrom {byteSize : Section → Nat} {offset : Nat} {sections : List Section} :
    (stampFrom byteSize (fun s address => { s with address := address }) offset sections).map
      Section.size = sections.map Section.size := by
  induction sections generalizing offset with
  | nil => rfl
  | cons s rest ih => simp [stampFrom, ih, Section.size]

theorem size_makeBlock {sections : List Section} :
    Block.size ⟨makeBlock sections, 0⟩ = (sections.map Section.size).sum := by
  rw [Block.size, makeBlock, map_size_stampFrom]

theorem totalSize_eq : totalSize blocks =
    ((blocks.map fun sections => (⟨makeBlock sections, 0⟩ : Block)).map Block.size).sum := by
  simp only [totalSize, List.map_map, Function.comp_def, size_makeBlock]

theorem built_getElem? (h : totalSize blocks < 2 ^ 32) {i : Nat} : (built blocks)[i]? =
    blocks[i]?.map fun sections => ⟨makeBlock sections,
      ((blocks.take i).map fun sections => (sections.map Section.size).sum).sum⟩ := by
  rw [built, makeLayout, stampFrom_getElem? (f := Block.size) (fun b _ hb => Block.byteSize_eq hb)
    (by rw [Nat.zero_add, ← totalSize_eq]; exact h)]
  simp [List.getElem?_map, ← List.map_take, Function.comp_def, size_makeBlock]

/-- Where a section of a layout is: the sizes of the blocks and sections before it. -/
theorem section_place (h : totalSize blocks < 2 ^ 32) (hb : (built blocks)[b]? = some block)
    (hs : block.sections[s]? = some sect) :
    ∃ sections, blocks[b]? = some sections ∧ sections[s]?.map Section.size = some sect.size ∧
      block.blockOffset =
        ((blocks.take b).map fun sections => (sections.map Section.size).sum).sum ∧
      sect.address = ((sections.take s).map Section.size).sum := by
  rw [built_getElem? h] at hb
  obtain ⟨sections, hsections, rfl⟩ := Option.map_eq_some_iff.mp hb
  have hsize : (sections.map Section.size).sum < 2 ^ 32 := by
    have := sum_take_add_le (f := fun sections => (sections.map Section.size).sum) hsections
    unfold totalSize at h
    omega
  rw [makeBlock_getElem? hsize] at hs
  obtain ⟨raw, hraw, rfl⟩ := Option.map_eq_some_iff.mp hs
  exact ⟨sections, hsections, by rw [hraw]; rfl, rfl, rfl⟩

/-- The first address of a section, for a layout that begins at a start address. -/
def firstAddress (startAddress : Nat) (block : Block) (sect : Section) : Nat :=
  startAddress + block.blockOffset + sect.address

/-- Sections lie within the layout. -/
theorem section_end_le (h : totalSize blocks < 2 ^ 32) (hb : (built blocks)[b]? = some block)
    (hs : block.sections[s]? = some sect) (startAddress : Nat) :
    firstAddress startAddress block sect + sect.size ≤ startAddress + totalSize blocks := by
  obtain ⟨sections, hsections, hsize, hoffset, haddress⟩ := section_place h hb hs
  obtain ⟨raw, hraw, hrs⟩ := Option.map_eq_some_iff.mp hsize
  have h1 := sum_take_add_le (f := Section.size) hraw
  have h2 := sum_take_add_le (f := fun sections => (sections.map Section.size).sum) hsections
  rw [hrs] at h1
  rw [firstAddress, hoffset, haddress, totalSize]
  omega

/-- A section that comes before another one ends before it begins. -/
theorem section_before (h : totalSize blocks < 2 ^ 32) {b' s' : Nat} {block' : Block}
    {sect' : Section} (hb : (built blocks)[b]? = some block) (hs : block.sections[s]? = some sect)
    (hb' : (built blocks)[b']? = some block') (hs' : block'.sections[s']? = some sect')
    (hlt : b < b' ∨ b = b' ∧ s < s') (startAddress : Nat) :
    firstAddress startAddress block sect + sect.size ≤ firstAddress startAddress block' sect' := by
  obtain ⟨sections, hsections, hsize, hoffset, haddress⟩ := section_place h hb hs
  obtain ⟨sections', hsections', _, hoffset', haddress'⟩ := section_place h hb' hs'
  obtain ⟨raw, hraw, hrs⟩ := Option.map_eq_some_iff.mp hsize
  rw [firstAddress, firstAddress, hoffset, haddress, hoffset', haddress']
  rcases hlt with hlt | ⟨rfl, hlt⟩
  · have h1 := sum_take_add_le (f := Section.size) hraw
    have h2 := sum_take_le (f := fun sections => (sections.map Section.size).sum) hlt hsections
    rw [hrs] at h1
    omega
  · rw [hsections] at hsections'
    cases hsections'
    have h1 := sum_take_le (f := Section.size) hlt hraw
    rw [hrs] at h1
    omega

/-- Two byte ranges have no byte in common. -/
def Disjoint (lo hi lo' hi' : Nat) : Prop := hi ≤ lo' ∨ hi' ≤ lo

theorem sections_disjoint (h : totalSize blocks < 2 ^ 32) {b' s' : Nat} {block' : Block}
    {sect' : Section} (hb : (built blocks)[b]? = some block) (hs : block.sections[s]? = some sect)
    (hb' : (built blocks)[b']? = some block') (hs' : block'.sections[s']? = some sect')
    (hne : (b, s) ≠ (b', s')) (startAddress : Nat) :
    Disjoint (firstAddress startAddress block sect)
      (firstAddress startAddress block sect + sect.size)
      (firstAddress startAddress block' sect')
      (firstAddress startAddress block' sect' + sect'.size) := by
  have hcases : (b < b' ∨ b = b' ∧ s < s') ∨ (b' < b ∨ b' = b ∧ s' < s) := by
    by_contra hno
    apply hne
    have hbb : b = b' := by omega
    have hss : s = s' := by omega
    rw [hbb, hss]
  rcases hcases with hlt | hlt
  · exact .inl (section_before h hb hs hb' hs' hlt startAddress)
  · exact .inr (section_before h hb' hs' hb hs hlt startAddress)

theorem layoutSize_built (h : totalSize blocks < 2 ^ 32) :
    layoutSize (built blocks) = totalSize blocks := by
  have hlength : (built blocks).length = blocks.length := by
    rw [built, makeLayout, length_stampFrom, List.length_map]
  rw [layoutSize, List.getLast?_eq_getElem?, hlength, built_getElem? h]
  rcases hlast : blocks[blocks.length - 1]? with _ | sections
  · have hnil : blocks = [] := by
      rw [List.getElem?_eq_none_iff] at hlast
      exact List.length_eq_zero_iff.mp (by omega)
    rw [hnil]
    rfl
  · obtain ⟨hlt, hget⟩ := List.getElem?_eq_some_iff.mp hlast
    have hsplit : blocks.take (blocks.length - 1) ++ [sections] = blocks := by
      rw [← hget, ← List.take_succ_eq_append_getElem hlt, Nat.sub_add_cancel (by omega),
        List.take_length]
    have htotal : ((blocks.take (blocks.length - 1)).map fun sections =>
        (sections.map Section.size).sum).sum + (sections.map Section.size).sum =
          totalSize blocks := by
      conv_rhs => rw [totalSize, ← hsplit, List.map_append, List.sum_append]
      simp only [List.map_cons, List.map_nil, List.sum_singleton]
    have hsize : Block.byteSize ⟨makeBlock sections, ((blocks.take (blocks.length - 1)).map
        fun sections => (sections.map Section.size).sum).sum⟩ = (sections.map Section.size).sum := by
      rw [Block.byteSize_eq]
      · exact size_makeBlock
      · show Block.size ⟨makeBlock sections, 0⟩ < 2 ^ 32
        rw [size_makeBlock]
        omega
    simp only [Option.map_some]
    rw [hsize, htotal, u32_of_lt h]

namespace LessDb

/-- What stays as it is, and the calls of the backend that are added, between two addresses. -/
structure Confined (lo hi : Nat) (db db' : LessDb) : Prop where
  layout : db'.layout = db.layout
  initialAddress : db'.initialAddress = db.initialAddress
  calls : ∃ new, db'.calls = db.calls ++ new ∧ ∀ call ∈ new, call.Inside lo hi

theorem Confined.refl : Confined lo hi db db := ⟨rfl, rfl, [], by simp, nofun⟩

theorem Confined.trans (h : Confined lo hi db db') (h' : Confined lo hi db' db'') :
    Confined lo hi db db'' := by
  obtain ⟨new, hnew, hin⟩ := h.calls
  obtain ⟨new', hnew', hin'⟩ := h'.calls
  refine ⟨h'.layout.trans h.layout, h'.initialAddress.trans h.initialAddress, new ++ new', ?_, ?_⟩
  · rw [hnew', hnew, List.append_assoc]
  · intro call hc
    rcases List.mem_append.mp hc with hc | hc
    · exact hin call hc
    · exact hin' call hc

/-- A step that calls nothing. -/
theorem Confined.silent (hl : db'.layout = db.layout)
    (hi' : db'.initialAddress = db.initialAddress) (hc : db'.calls = db.calls) :
    Confined lo hi db db' := ⟨hl, hi', [], by rw [hc, List.append_nil], nofun⟩

variable (hin : lo ≤ address ∧ address + type.width ≤ hi)

include hin in
theorem hwaRead_confined : Confined lo hi db (hwaRead hwa address type db).2 :=
  ⟨rfl, rfl, [.read address type], rfl, by simpa [HwaCall.Inside] using hin⟩

include hin in
theorem hwaWrite_confined : Confined lo hi db (hwaWrite hwa address value type db).2 :=
  ⟨rfl, rfl, [.write address value type], rfl, by simpa [HwaCall.Inside] using hin⟩

include hin in
theorem readCached_confined : wp (readCached hwa address type) (fun _ => Confined lo hi db) db := by
  refine wp_bind_of (P := fun a t => a = db ∧ t = db) ⟨rfl, rfl⟩ ?_
  rintro _ _ ⟨rfl, rfl⟩
  refine wp_ite (fun _ => Confined.refl) fun _ => ?_
  refine wp_bind_of (P := fun _ => Confined lo hi _) (hwaRead_confined hin) ?_
  intro value t ht
  cases value with
  | none => exact ht
  | some value => exact ht.trans (.silent rfl rfl rfl)

include hin in
theorem readDirect_confined {mask : Nat} :
    wp (readDirect hwa address mask type) (fun _ => Confined lo hi db) db := by
  refine wp_bind_of (P := fun _ => Confined lo hi db) (hwaRead_confined hin) ?_
  intro value t ht
  cases value with
  | none => exact ht
  | some value => exact ht.trans (.silent rfl rfl rfl)

include hin in
theorem write_confined : wp (write hwa address value type) (fun _ => Confined lo hi db) db := by
  refine wp_bind_of (P := fun _ => Confined lo hi db) ?_ ?_
  · show Confined lo hi db (if address = db.lastReadAddress then _ else db)
    split_ifs
    · exact .silent rfl rfl rfl
    · exact .refl
  intro _ t ht
  refine wp_bind_of (P := fun _ => Confined lo hi db) (ht.trans (hwaWrite_confined hin)) ?_
  intro accepted t ht
  cases accepted with
  | false => exact ht
  | true =>
    refine wp_bind_of (P := fun _ => Confined lo hi db) (ht.trans (hwaRead_confined hin)) ?_
    intro value t ht
    cases value <;> exact ht

include hin in
theorem modifyByte_confined {change : Nat → Nat} :
    wp (modifyByte hwa address change type) (fun _ => Confined lo hi db) db := by
  refine wp_bind_of (P := fun _ => Confined lo hi db) (hwaRead_confined hin) ?_
  intro current t ht
  cases current with
  | none => exact ht
  | some current => exact wp_mono (write_confined hin) fun _ _ h => ht.trans h

theorem writeEach_confined {α : Type} {f : α → StateM LessDb Bool} {xs : List α}
    (h : ∀ x ∈ xs, ∀ db, Confined lo hi db (f x db).2) (db : LessDb) :
    Confined lo hi db (writeEach f xs db).2 := by
  induction xs generalizing db with
  | nil => exact .refl
  | cons x rest ih =>
    have hx := h x (by simp) db
    rw [writeEach_cons]
    split_ifs
    · exact hx.trans (ih (fun y hy => h y (by simp [hy])) _)
    · exact hx

/-- A layout that has been set, with all its addresses below 2^32. -/
structure Placed (blocks : List (List Section)) (startAddress : Nat) (db : LessDb) : Prop where
  layout : db.layout = built blocks
  initialAddress : db.initialAddress = startAddress
  fits : startAddress + totalSize blocks < 2 ^ 32

variable {startAddress : Nat}

theorem Confined.placed (h : Placed blocks startAddress db) (hc : Confined lo hi db db') :
    Placed blocks startAddress db' :=
  ⟨hc.layout.trans h.layout, hc.initialAddress.trans h.initialAddress, h.fits⟩

theorem sectionAt_some (h : db.sectionAt b s = some (block, sect)) :
    db.layout[b]? = some block ∧ block.sections[s]? = some sect := by
  obtain ⟨block', hb, hs⟩ := Option.bind_eq_some_iff.mp h
  obtain ⟨sect', hs, he⟩ := Option.map_eq_some_iff.mp hs
  cases he
  exact ⟨hb, hs⟩

theorem Placed.end_le (h : Placed blocks startAddress db) (hb : db.layout[b]? = some block)
    (hs : block.sections[s]? = some sect) :
    firstAddress startAddress block sect + sect.size ≤ startAddress + totalSize blocks := by
  rw [h.layout] at hb
  have hfits := h.fits
  exact section_end_le (by omega) hb hs startAddress

theorem Placed.sectionAddress (h : Placed blocks startAddress db) (hb : db.layout[b]? = some block)
    (hs : block.sections[s]? = some sect) :
    db.sectionAddress block sect = firstAddress startAddress block sect := by
  have hend := h.end_le hb hs
  have hfits := h.fits
  rw [firstAddress] at hend ⊢
  rw [LessDb.sectionAddress, h.initialAddress,
    u32_of_lt (show startAddress + block.blockOffset < 2 ^ 32 by omega), u32_of_lt (by omega)]

theorem width_pos : 0 < type.width := by cases type <;> decide

/-- An access within a section. -/
theorem offset_inside (h : Placed blocks startAddress db) (hb : db.layout[b]? = some block)
    (hs : block.sections[s]? = some sect) {offset : Nat} (ho : offset + type.width ≤ sect.size) :
    firstAddress startAddress block sect ≤ u32 (firstAddress startAddress block sect + offset) ∧
      u32 (firstAddress startAddress block sect + offset) + type.width ≤
        firstAddress startAddress block sect + sect.size := by
  have hend := h.end_le hb hs
  have hfits := h.fits
  have hwidth : 0 < type.width := width_pos
  rw [u32_of_lt (by omega)]
  omega

/-- The byte of a bit, its index cut to eight bits, and those of the other parameters. -/
theorem parameter_inside (hp : p < sect.numberOfParameters) :
    (sect.parameterType = .bit → p / 8 % 256 + 1 ≤ sect.size) ∧
      (sect.parameterType = .byte → p + 1 ≤ sect.size) ∧
      (sect.parameterType = .halfByte → p / 2 + 1 ≤ sect.size) ∧
      (sect.parameterType = .word → p * 2 + 2 ≤ sect.size) ∧
      (sect.parameterType = .dword → p * 4 + 4 ≤ sect.size) := by
  refine ⟨?_, ?_, ?_, ?_, ?_⟩ <;> intro htype <;> rw [Section.size, htype, parametersSize] <;>
    (try split_ifs) <;> omega

theorem read_confined (h : Placed blocks startAddress db)
    (hsect : db.sectionAt b s = some (block, sect)) :
    wp (read hwa b s p) (fun _ => Confined (firstAddress startAddress block sect)
      (firstAddress startAddress block sect + sect.size) db) db := by
  obtain ⟨hb, hs⟩ := sectionAt_some hsect
  have hplace := h.sectionAddress hb hs
  refine wp_bind_of (P := fun a t => a = db ∧ t = db) ⟨rfl, rfl⟩ ?_
  rintro _ _ ⟨rfl, rfl⟩
  rw [hsect]
  refine wp_ite (fun _ => Confined.refl) fun hp => ?_
  obtain ⟨hbit, hbyte, hhalf, hword, hdword⟩ := parameter_inside (Nat.lt_of_not_ge hp)
  simp only [hplace]
  cases htype : sect.parameterType with
  | bit =>
    refine wp_bind_of (readCached_confined ?_) fun value t ht => ht
    exact offset_inside h hb hs (hbit htype)
  | byte => exact readDirect_confined (offset_inside h hb hs (hbyte htype))
  | halfByte =>
    refine wp_bind_of (readCached_confined ?_) fun value t ht => ht
    exact offset_inside h hb hs (hhalf htype)
  | word => exact readDirect_confined (offset_inside h hb hs (hword htype))
  | dword => exact hwaRead_confined (offset_inside h hb hs (hdword htype))

theorem update_confined (h : Placed blocks startAddress db)
    (hsect : db.sectionAt b s = some (block, sect)) :
    wp (update hwa b s p value) (fun _ => Confined (firstAddress startAddress block sect)
      (firstAddress startAddress block sect + sect.size) db) db := by
  obtain ⟨hb, hs⟩ := sectionAt_some hsect
  have hplace := h.sectionAddress hb hs
  refine wp_bind_of (P := fun a t => a = db ∧ t = db) ⟨rfl, rfl⟩ ?_
  rintro _ _ ⟨rfl, rfl⟩
  rw [hsect]
  refine wp_ite (fun _ => Confined.refl) fun hp => ?_
  obtain ⟨hbit, hbyte, hhalf, hword, hdword⟩ := parameter_inside (Nat.lt_of_not_ge hp)
  simp only [hplace]
  cases htype : sect.parameterType with
  | bit => exact modifyByte_confined (offset_inside h hb hs (hbit htype))
  | byte => exact write_confined (offset_inside h hb hs (hbyte htype))
  | halfByte => exact modifyByte_confined (offset_inside h hb hs (hhalf htype))
  | word => exact write_confined (offset_inside h hb hs (hword htype))
  | dword => exact write_confined (offset_inside h hb hs (hdword htype))

theorem initEach_confined {width : Nat} (h : Placed blocks startAddress db)
    (hb : db.layout[b]? = some block) (hs : block.sections[s]? = some sect)
    (hw : sect.parameterType.width = width)
    (hsize : sect.size = sect.numberOfParameters * width) (db' : LessDb) :
    Confined (firstAddress startAddress block sect)
      (firstAddress startAddress block sect + sect.size) db'
      (initEach hwa b s (firstAddress startAddress block sect) width sect db').2 := by
  apply writeEach_confined
  intro parameter hp db'
  rw [List.mem_range] at hp
  have ho : parameter * width + sect.parameterType.width ≤ sect.size := by
    rw [hw, hsize, ← Nat.succ_mul]
    exact Nat.mul_le_mul_right width hp
  exact write_confined (offset_inside h hb hs ho)

theorem initBytes_confined {perByte bits : Nat} (h : Placed blocks startAddress db)
    (hb : db.layout[b]? = some block) (hs : block.sections[s]? = some sect) (db' : LessDb) :
    Confined (firstAddress startAddress block sect)
      (firstAddress startAddress block sect + sect.size) db'
      (initBytes hwa b s (firstAddress startAddress block sect) perByte bits sect db').2 := by
  apply writeEach_confined
  intro loop hp db'
  rw [List.mem_range] at hp
  have ho : loop + SectionParameterType.byte.width ≤ sect.size := hp
  exact write_confined (offset_inside h hb hs ho)

/-- A section that is not spared is initialised as its type asks. -/
theorem initSection_eq {reset : FactoryResetType}
    (hreset : ¬ (sect.preserveOnPartialReset = .enable ∧ reset = .partialReset)) :
    initSection hwa reset b s block sect db = (match sect.parameterType with
      | .byte => initEach hwa b s (db.sectionAddress block sect) 1 sect
      | .word => initEach hwa b s (db.sectionAddress block sect) 2 sect
      | .dword => initEach hwa b s (db.sectionAddress block sect) 4 sect
      | .bit => initBytes hwa b s (db.sectionAddress block sect) 8 1 sect
      | .halfByte => initBytes hwa b s (db.sectionAddress block sect) 2 4 sect) db := by
  unfold initSection
  rw [if_neg hreset]
  rfl

theorem initSection_confined {reset : FactoryResetType} (h : Placed blocks startAddress db)
    (hb : db.layout[b]? = some block) (hs : block.sections[s]? = some sect) :
    wp (initSection hwa reset b s block sect) (fun _ =>
      Confined (firstAddress startAddress block sect)
        (firstAddress startAddress block sect + sect.size) db) db := by
  have hplace := h.sectionAddress hb hs
  refine wp_ite (fun _ => Confined.refl) fun _ => ?_
  refine wp_bind_of (P := fun a t => a = db ∧ t = db) ⟨rfl, rfl⟩ ?_
  rintro _ _ ⟨rfl, rfl⟩
  simp only [hplace]
  have hsize : sect.size = parametersSize sect.numberOfParameters sect.parameterType := rfl
  cases htype : sect.parameterType with
  | bit => exact initBytes_confined h hb hs _
  | byte =>
    exact initEach_confined h hb hs (by rw [htype]; rfl) (by rw [hsize, htype, Nat.mul_one]; rfl) _
  | halfByte => exact initBytes_confined h hb hs _
  | word => exact initEach_confined h hb hs (by rw [htype]; rfl) (by rw [hsize, htype]; rfl) _
  | dword => exact initEach_confined h hb hs (by rw [htype]; rfl) (by rw [hsize, htype]; rfl) _

/-- The calls that a step adds. -/
def addedCalls (db db' : LessDb) : List HwaCall := db'.calls.drop db.calls.length

theorem addedCalls_append {new : List HwaCall} (h : db'.calls = db.calls ++ new) :
    addedCalls db db' = new := by
  rw [addedCalls, h, List.drop_left]

/-- Calls that lie within the section with these indices. -/
def WithinSection (layout : List Block) (startAddress : Nat) (part : (Nat × Nat) × List HwaCall) :
    Prop :=
  ∀ call ∈ part.2, ∃ block sect, layout[part.1.1]? = some block ∧
    block.sections[part.1.2]? = some sect ∧
    call.Inside (firstAddress startAddress block sect)
      (firstAddress startAddress block sect + sect.size)

/-- What `init_data` calls for each section, up to the one that fails. -/
def initTrace (hwa : Hwa) (reset : FactoryResetType) :
    List (Nat × Nat × Block × Section) → LessDb → List ((Nat × Nat) × List HwaCall)
  | [], _ => []
  | (b, s, block, sect) :: rest, db =>
    let done := initSection hwa reset b s block sect db
    ((b, s), addedCalls db done.2) :: if done.1 then initTrace hwa reset rest done.2 else []

theorem mem_indexedSections {layout : List Block} (h : (b, s, block, sect) ∈ indexedSections layout) :
    layout[b]? = some block ∧ block.sections[s]? = some sect := by
  obtain ⟨⟨block', b'⟩, hb, hs⟩ := List.mem_flatMap.mp h
  obtain ⟨⟨sect', s'⟩, hs, he⟩ := List.mem_map.mp hs
  cases he
  exact ⟨List.mem_zipIdx_iff_getElem?.mp hb, List.mem_zipIdx_iff_getElem?.mp hs⟩

/-- The sections that are initialised, one after the other. -/
theorem initEntries_within (hwa : Hwa) (reset : FactoryResetType)
    {entries : List (Nat × Nat × Block × Section)} (h : Placed blocks startAddress db)
    (hentries : ∀ entry ∈ entries, entry ∈ indexedSections db.layout) :
    Placed blocks startAddress (writeEach (fun (entry : Nat × Nat × Block × Section) =>
        initSection hwa reset entry.1 entry.2.1 entry.2.2.1 entry.2.2.2) entries db).2 ∧
      (writeEach (fun (entry : Nat × Nat × Block × Section) =>
        initSection hwa reset entry.1 entry.2.1 entry.2.2.1 entry.2.2.2) entries db).2.calls =
          db.calls ++ (initTrace hwa reset entries db).flatMap Prod.snd ∧
      ∀ part ∈ initTrace hwa reset entries db, WithinSection db.layout startAddress part := by
  induction entries generalizing db with
  | nil => exact ⟨h, by simp [initTrace], nofun⟩
  | cons entry rest ih =>
    obtain ⟨b, s, block, sect⟩ := entry
    obtain ⟨hb, hs⟩ := mem_indexedSections (hentries _ List.mem_cons_self)
    have hconf : Confined (firstAddress startAddress block sect)
        (firstAddress startAddress block sect + sect.size) db
        (initSection hwa reset b s block sect db).2 := initSection_confined h hb hs
    have hplaced := hconf.placed h
    obtain ⟨new, hnew, hin⟩ := hconf.calls
    have hadded := addedCalls_append hnew
    have hhead : WithinSection db.layout startAddress
        ((b, s), addedCalls db (initSection hwa reset b s block sect db).2) := by
      intro call hcall
      rw [hadded] at hcall
      exact ⟨block, sect, hb, hs, hin call hcall⟩
    rw [writeEach_cons, initTrace]
    by_cases hok : (initSection hwa reset b s block sect db).1 = true
    · have hrest := ih hplaced (fun e he => by
        rw [hconf.layout]
        exact hentries e (List.mem_cons_of_mem _ he))
      obtain ⟨hp, hcalls, hparts⟩ := hrest
      simp only [hok, if_true]
      refine ⟨hp, ?_, ?_⟩
      · rw [hcalls, List.flatMap_cons, hadded, hnew, List.append_assoc]
      · intro part hpart
        rcases List.mem_cons.mp hpart with rfl | hpart
        · exact hhead
        · rw [← hconf.layout]
          exact hparts part hpart
    · rw [Bool.not_eq_true] at hok
      simp only [hok, Bool.false_eq_true, if_false]
      refine ⟨hplaced, ?_, ?_⟩
      · rw [List.flatMap_cons, hadded, hnew, List.flatMap_nil, List.append_nil]
      · intro part hpart
        rw [List.mem_singleton.mp hpart]
        exact hhead

inductive DbOp where
  | read (blockIndex sectionIndex parameterIndex : Nat)
  | update (blockIndex sectionIndex parameterIndex newValue : Nat)
  | initData (type : FactoryResetType)
  | clear
  | registerLayoutInitProvider (blockIndex sectionIndex : Nat)
    (provider : Option (Nat → Option UInt32))
  | clearInitProviders

def perform (hwa : Hwa) : DbOp → LessDb → LessDb
  | .read b s p, db => (read hwa b s p db).2
  | .update b s p value, db => (update hwa b s p value db).2
  | .initData reset, db => (initData hwa reset db).2
  | .clear, db => (clear hwa db).2
  | .registerLayoutInitProvider b s provider, db => (registerLayoutInitProvider b s provider db).2
  | .clearInitProviders, db => (clearInitProviders db).2

/-- What an operation calls for each section that it addresses. -/
def trace (hwa : Hwa) (op : DbOp) (db : LessDb) : List ((Nat × Nat) × List HwaCall) :=
  match op with
  | .read b s _ => [((b, s), addedCalls db (perform hwa op db))]
  | .update b s _ _ => [((b, s), addedCalls db (perform hwa op db))]
  | .initData reset => initTrace hwa reset (indexedSections db.layout) db
  | _ => []

/-- What an operation calls for no section. -/
def erasing : DbOp → List HwaCall
  | .clear => [.clear]
  | _ => []

variable {op : DbOp} {ops : List DbOp}

/-- An operation that accesses the section with the indices, if there is one. -/
theorem addressed_within (h : Placed blocks startAddress db)
    (habsent : db.sectionAt b s = none → db' = db)
    (hsect : ∀ block sect, db.sectionAt b s = some (block, sect) →
      Confined (firstAddress startAddress block sect)
        (firstAddress startAddress block sect + sect.size) db db') :
    Placed blocks startAddress db' ∧ db'.calls = db.calls ++ addedCalls db db' ∧
      WithinSection db.layout startAddress ((b, s), addedCalls db db') := by
  rcases hat : db.sectionAt b s with _ | ⟨block, sect⟩
  · have heq : db' = db := habsent hat
    have hnew : db'.calls = db.calls ++ [] := by rw [heq, List.append_nil]
    rw [addedCalls_append hnew]
    exact ⟨by rw [heq]; exact h, hnew, nofun⟩
  · have hconf := hsect block sect hat
    obtain ⟨hb, hs⟩ := sectionAt_some hat
    obtain ⟨new, hnew, hin⟩ := hconf.calls
    rw [addedCalls_append hnew]
    exact ⟨hconf.placed h, hnew, fun call hcall => ⟨block, sect, hb, hs, hin call hcall⟩⟩

theorem read_absent (h : db.sectionAt b s = none) : (read hwa b s p db).2 = db := by
  simp [read, h, bind, StateT.bind, get, getThe, MonadStateOf.get, StateT.get, pure, StateT.pure]

theorem update_absent (h : db.sectionAt b s = none) : (update hwa b s p value db).2 = db := by
  simp [update, h, bind, StateT.bind, get, getThe, MonadStateOf.get, StateT.get, pure, StateT.pure]

/-- Every operation keeps the layout in its place, and its accesses in the sections it addresses. -/
theorem perform_within (hwa : Hwa) (op : DbOp) (h : Placed blocks startAddress db) :
    Placed blocks startAddress (perform hwa op db) ∧
      (perform hwa op db).calls =
        db.calls ++ (trace hwa op db).flatMap Prod.snd ++ erasing op ∧
      ∀ part ∈ trace hwa op db, WithinSection db.layout startAddress part := by
  cases op with
  | read b s p =>
    have habsent : db.sectionAt b s = none → (read hwa b s p db).2 = db := read_absent
    obtain ⟨hp, hcalls, hin⟩ := addressed_within h habsent fun _ _ hat => read_confined h hat
    refine ⟨hp, ?_, ?_⟩
    · simpa [trace, erasing, perform] using hcalls
    · intro part hpart
      rw [List.mem_singleton.mp hpart]
      exact hin
  | update b s p value =>
    have habsent : db.sectionAt b s = none → (update hwa b s p value db).2 = db := update_absent
    obtain ⟨hp, hcalls, hin⟩ := addressed_within h habsent fun _ _ hat => update_confined h hat
    refine ⟨hp, ?_, ?_⟩
    · simpa [trace, erasing, perform] using hcalls
    · intro part hpart
      rw [List.mem_singleton.mp hpart]
      exact hin
  | initData reset =>
    obtain ⟨hp, hcalls, hin⟩ :=
      initEntries_within hwa reset h fun entry he => he
    refine ⟨hp, ?_, hin⟩
    rw [erasing, List.append_nil]
    · exact hcalls
    · nofun
  | clear =>
    refine ⟨⟨h.layout, h.initialAddress, h.fits⟩, ?_, nofun⟩
    simp [perform, clear, trace, erasing]
  | registerLayoutInitProvider b s provider =>
    refine ⟨⟨h.layout, h.initialAddress, h.fits⟩, ?_, nofun⟩
    simp [perform, trace, erasing, registerLayoutInitProvider]
    rfl
  | clearInitProviders =>
    refine ⟨⟨h.layout, h.initialAddress, h.fits⟩, ?_, nofun⟩
    simp [perform, trace, erasing, clearInitProviders]
    rfl

theorem run_placed (hwa : Hwa) (ops : List DbOp) (h : Placed blocks startAddress db) :
    Placed blocks startAddress (ops.foldl (fun db op => perform hwa op db) db) := by
  induction ops generalizing db with
  | nil => exact h
  | cons op rest ih => exact ih (perform_within hwa op h).1

/-- A layout that `set_layout` accepts is in its place, within the addresses of the backend. -/
theorem setLayout_accepted {uid : Nat} (htotal : totalSize blocks < 2 ^ 32)
    (h : (setLayout hwa (built blocks) startAddress uid db).1 = true) :
    startAddress + totalSize blocks ≤ hwa.addressCount.toNat ∧
      Placed blocks startAddress (setLayout hwa (built blocks) startAddress uid db).2 := by
  have hsize := layoutSize_built htotal
  have hcount : hwa.addressCount.toNat < 2 ^ 32 := hwa.addressCount.toNat_lt
  simp only [setLayout] at h ⊢
  split_ifs at h ⊢ with hstart hempty hfits
  · cases h
  · cases h
  · cases h
  · rw [hsize] at hfits
    have hle : startAddress + totalSize blocks ≤ hwa.addressCount.toNat := by omega
    exact ⟨hle, rfl, rfl, by omega⟩

/-- The sections of a layout that `set_layout` accepts are disjoint and within the backend, and
whatever is done with the database then, an operation accesses only the section it addresses. -/
theorem addresses_safe (hwa : Hwa) (blocks : List (List Section)) (startAddress uid : Nat)
    (db : LessDb) (htotal : totalSize blocks < 2 ^ 32)
    (haccepted : (setLayout hwa (built blocks) startAddress uid db).1 = true) :
    (∀ (b s : Nat) (block : Block) (sect : Section), (built blocks)[b]? = some block →
        block.sections[s]? = some sect →
        startAddress ≤ firstAddress startAddress block sect ∧
          firstAddress startAddress block sect + sect.size ≤ hwa.addressCount.toNat) ∧
      (∀ (b s b' s' : Nat) (block block' : Block) (sect sect' : Section),
        (built blocks)[b]? = some block → block.sections[s]? = some sect →
        (built blocks)[b']? = some block' → block'.sections[s']? = some sect' →
        (b, s) ≠ (b', s') →
        Disjoint (firstAddress startAddress block sect)
          (firstAddress startAddress block sect + sect.size)
          (firstAddress startAddress block' sect')
          (firstAddress startAddress block' sect' + sect'.size)) ∧
      ∀ (ops : List DbOp) (op : DbOp),
        let now := ops.foldl (fun db op => perform hwa op db)
          (setLayout hwa (built blocks) startAddress uid db).2
        (perform hwa op now).calls =
            now.calls ++ (trace hwa op now).flatMap Prod.snd ++ erasing op ∧
          ∀ part ∈ trace hwa op now, WithinSection (built blocks) startAddress part := by
  obtain ⟨hle, hplaced⟩ := setLayout_accepted htotal haccepted
  refine ⟨?_, ?_, ?_⟩
  · intro b s block sect hb hs
    have hend := section_end_le htotal hb hs startAddress
    exact ⟨by rw [firstAddress]; omega, by omega⟩
  · intro b s b' s' block block' sect sect' hb hs hb' hs' hne
    exact sections_disjoint htotal hb hs hb' hs' hne startAddress
  · intro ops op
    have hnow := run_placed hwa ops hplaced
    obtain ⟨-, hcalls, hin⟩ := perform_within hwa op hnow
    refine ⟨hcalls, ?_⟩
    rw [hnow.layout] at hin
    exact hin

def packedBlocks : List (List Section) :=
  [[⟨10, .bit, .disable, .disable, 1, 0⟩, ⟨3, .word, .enable, .enable, 500, 0⟩],
    [⟨5, .halfByte, .disable, .disable, 3, 0⟩]]

def echoHwa : Hwa where
  addressCount := 20
  read := fun _ _ _ => some 0
  write := fun _ _ _ _ => true
  clear := fun _ => true

theorem addresses_safe_packed :
    (setLayout echoHwa (built packedBlocks) 4 0 {}).1 = true ∧
      ∀ part ∈ trace echoHwa (.initData .fullReset) (perform echoHwa (.update 0 1 2 7)
        (setLayout echoHwa (built packedBlocks) 4 0 {}).2),
        WithinSection (built packedBlocks) 4 part := by
  have haccepted : (setLayout echoHwa (built packedBlocks) 4 0 {}).1 = true := by decide
  have hsafe := addresses_safe echoHwa packedBlocks 4 0 {} (by decide) haccepted
  exact ⟨haccepted, (hsafe.2.2 [.update 0 1 2 7] (.initData .fullReset)).2⟩

end LessDb

end Zlibs.Lessdb
