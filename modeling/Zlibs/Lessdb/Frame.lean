import Zlibs.Lessdb.Contents

/-! The bytes of the backend that an initialisation or an update leaves alone. -/
namespace Zlibs.Lessdb
open Lib

variable {hwa : Hwa} {db db' : LessDb} {block : Block} {sect : Section} {b s p x : Nat}
  {blocks : List (List Section)} {startAddress : Nat}

/-- The bytes of a backend, whose writes change only those of their type at their address. -/
structure ExactWrites (byte : List HwaCall → Nat → UInt8) : Prop where
  read : ∀ calls address type x, byte (calls ++ [.read address type]) x = byte calls x
  write : ∀ calls address value (type : SectionParameterType) x,
    ¬ (address ≤ x ∧ x < address + type.width) →
      byte (calls ++ [.write address value type]) x = byte calls x

variable {byte : List HwaCall → Nat → UInt8}

/-- A byte that no access is near. -/
theorem ExactWrites.kept (h : ExactWrites byte) {calls new : List HwaCall}
    (hnew : ∀ call ∈ new, ∃ lo hi, call.Inside lo hi ∧ ¬ (lo ≤ x ∧ x < hi)) :
    byte (calls ++ new) x = byte calls x := by
  induction new generalizing calls with
  | nil => rw [List.append_nil]
  | cons call rest ih =>
    have hrest : byte ((calls ++ [call]) ++ rest) x = byte (calls ++ [call]) x :=
      ih fun c hc => hnew c (List.mem_cons_of_mem _ hc)
    rw [List.append_assoc, List.singleton_append] at hrest
    rw [hrest]
    obtain ⟨lo, hi, hin, hx⟩ := hnew call List.mem_cons_self
    cases call with
    | read address type => exact h.read ..
    | write address value type =>
      apply h.write
      rintro ⟨hlo, hhi⟩
      obtain ⟨h1, h2⟩ := hin
      exact hx ⟨by omega, by omega⟩
    | clear => exact hin.elim

/-- The byte belongs to the section. -/
def InSection (startAddress : Nat) (block : Block) (sect : Section) (x : Nat) : Prop :=
  firstAddress startAddress block sect ≤ x ∧ x < firstAddress startAddress block sect + sect.size

namespace LessDb

/-- A section that a reset spares is not accessed. -/
theorem initTrace_spared {reset : FactoryResetType} {entries : List (Nat × Nat × Block × Section)} :
    ∀ part ∈ initTrace hwa reset entries db, part.2 ≠ [] →
      ∃ block sect, (part.1.1, part.1.2, block, sect) ∈ entries ∧
        ¬ (sect.preserveOnPartialReset = .enable ∧ reset = .partialReset) := by
  induction entries generalizing db with
  | nil => nofun
  | cons entry rest ih =>
    obtain ⟨b, s, block, sect⟩ := entry
    intro part hpart hcalls
    rw [initTrace] at hpart
    rcases List.mem_cons.mp hpart with rfl | hpart
    · refine ⟨block, sect, List.mem_cons_self, fun hspared => hcalls ?_⟩
      have hsame : (initSection hwa reset b s block sect db).2 = db := by
        unfold initSection
        rw [if_pos hspared]
        rfl
      show addedCalls db (initSection hwa reset b s block sect db).2 = []
      rw [hsame, addedCalls, List.drop_length]
    · split_ifs at hpart with hok
      · obtain ⟨block', sect', hmem, hno⟩ := ih part hpart hcalls
        exact ⟨block', sect', List.mem_cons_of_mem _ hmem, hno⟩
      · cases hpart

/-- A byte is kept by an initialisation if it is in no section that is initialised. -/
theorem initData_kept (hexact : ExactWrites byte) (h : Placed blocks startAddress db)
    {reset : FactoryResetType}
    (hx : ∀ (b s : Nat) (block : Block) (sect : Section), db.layout[b]? = some block →
      block.sections[s]? = some sect →
      ¬ (sect.preserveOnPartialReset = .enable ∧ reset = .partialReset) →
      ¬ InSection startAddress block sect x) :
    byte (initData hwa reset db).2.calls x = byte db.calls x := by
  obtain ⟨-, hcalls, hin⟩ := perform_within hwa (.initData reset) h
  rw [erasing, List.append_nil] at hcalls
  · rw [show (initData hwa reset db).2.calls = _ from hcalls]
    apply hexact.kept
    intro call hcall
    obtain ⟨part, hpart, hmem⟩ := List.mem_flatMap.mp hcall
    obtain ⟨block, sect, hentry, hno⟩ :=
      initTrace_spared part hpart (List.ne_nil_of_mem hmem)
    obtain ⟨hb, hs⟩ := mem_indexedSections hentry
    obtain ⟨block', sect', hb', hs', hinside⟩ := hin part hpart call hmem
    rw [hb] at hb'
    cases hb'
    rw [hs] at hs'
    cases hs'
    exact ⟨_, _, hinside, hx _ _ _ _ hb hs hno⟩
  · intro h
    cases h

/-- A byte is kept by an update if it is not in the section of the parameter. -/
theorem update_kept (hexact : ExactWrites byte) (h : Placed blocks startAddress db) {value : Nat}
    (hx : ∀ block sect, db.layout[b]? = some block → block.sections[s]? = some sect →
      ¬ InSection startAddress block sect x) :
    byte (update hwa b s p value db).2.calls x = byte db.calls x := by
  obtain ⟨-, hcalls, hin⟩ := perform_within hwa (.update b s p value) h
  rw [erasing, List.append_nil] at hcalls
  · rw [show (update hwa b s p value db).2.calls = _ from hcalls]
    apply hexact.kept
    intro call hcall
    obtain ⟨part, hpart, hmem⟩ := List.mem_flatMap.mp hcall
    obtain ⟨block, sect, hb, hs, hinside⟩ := hin part hpart call hmem
    rw [List.mem_singleton.mp hpart] at hb hs
    exact ⟨_, _, hinside, hx _ _ hb hs⟩
  · intro h
    cases h

/-- Outside the layout, or within a section that partial resets preserve. -/
def OutOfReach (blocks : List (List Section)) (startAddress : Nat) (reset : FactoryResetType)
    (x : Nat) : Prop :=
  x < startAddress ∨ startAddress + layoutSize (built blocks) ≤ x ∨
    reset = .partialReset ∧ ∃ (b s : Nat) (block : Block) (sect : Section),
      (built blocks)[b]? = some block ∧ block.sections[s]? = some sect ∧
      sect.preserveOnPartialReset = .enable ∧
      InSection startAddress block sect x

theorem OutOfReach.not_in (htotal : totalSize blocks < 2 ^ 32) {reset : FactoryResetType}
    (hx : OutOfReach blocks startAddress reset x) (hb : (built blocks)[b]? = some block)
    (hs : block.sections[s]? = some sect)
    (hno : ¬ (sect.preserveOnPartialReset = .enable ∧ reset = .partialReset)) :
    ¬ InSection startAddress block sect x := by
  rintro ⟨hlo, hhi⟩
  have hend := section_end_le htotal hb hs startAddress
  have hfirst : startAddress ≤ firstAddress startAddress block sect := by
    rw [firstAddress]
    omega
  rcases hx with hx | hx | ⟨hreset, b', s', block', sect', hb', hs', hkeep, hlo', hhi'⟩
  · omega
  · rw [layoutSize_built htotal] at hx
    omega
  · have hne : (b, s) ≠ (b', s') := by
      intro he
      cases he
      rw [hb] at hb'
      cases hb'
      rw [hs] at hs'
      cases hs'
      exact hno ⟨hkeep, hreset⟩
    rcases sections_disjoint htotal hb hs hb' hs' hne startAddress with hd | hd <;> omega

/-- A backend that takes every write and answers a read with what was written last. -/
def takingHwa (addressCount : UInt32) : Hwa where
  addressCount := addressCount
  read := fun calls _ _ =>
    match calls.getLast? with
    | some (.write _ value _) => some value
    | _ => some 0
  write := fun _ _ _ _ => true
  clear := fun _ => true

/-- A byte that was written. -/
def Touched (x : Nat) (calls : List HwaCall) : Prop :=
  ∃ address value type, HwaCall.write address value type ∈ calls ∧ address ≤ x ∧
    x < address + type.width

theorem Touched.append {calls new : List HwaCall} (h : Touched x calls) :
    Touched x (calls ++ new) := by
  obtain ⟨address, value, type, hmem, hin⟩ := h
  exact ⟨address, value, type, List.mem_append_left _ hmem, hin⟩

/-- What was written does not depend on what there was before. -/
theorem Touched.bytesAfter_eq {calls : List HwaCall} (h : Touched x calls)
    (bytes bytes' : Nat → Nat) : bytesAfter bytes calls x = bytesAfter bytes' calls x := by
  induction calls using List.reverseRecOn with
  | nil =>
    obtain ⟨_, _, _, hmem, _⟩ := h
    cases hmem
  | append_singleton rest call ih =>
    simp only [bytesAfter, List.foldl_append, List.foldl_cons, List.foldl_nil]
    obtain ⟨address, value, type, hmem, hin⟩ := h
    rcases List.mem_append.mp hmem with hmem | hmem
    · have hrest : bytesAfter bytes rest x = bytesAfter bytes' rest x :=
        ih ⟨address, value, type, hmem, hin⟩
      rw [bytesAfter, bytesAfter] at hrest
      cases call <;> simp [hrest]
    · rw [← List.mem_singleton.mp hmem]
      simp [hin]

/-- The bytes of a memory. -/
theorem bytesAfter_exact (bytes : Nat → Nat) :
    ExactWrites fun calls x => UInt8.ofNat (bytesAfter bytes calls x) := by
  constructor
  · intro calls address type x
    simp [bytesAfter]
  · intro calls address value type x hx
    simp [bytesAfter, hx]

/-- A step that succeeds and keeps what it is told by. -/
structure Taken (db db' : LessDb) : Prop where
  config : SameConfig db db'
  calls : ∃ new, db'.calls = db.calls ++ new

theorem Taken.refl : Taken db db := ⟨.refl, [], by rw [List.append_nil]⟩

theorem Taken.trans {db'' : LessDb} (h : Taken db db') (h' : Taken db' db'') : Taken db db'' := by
  obtain ⟨new, hnew⟩ := h.calls
  obtain ⟨new', hnew'⟩ := h'.calls
  exact ⟨h.config.trans h'.config, new ++ new', by rw [hnew', hnew, List.append_assoc]⟩

theorem Taken.touched (h : Taken db db') (hx : Touched x db.calls) : Touched x db'.calls := by
  obtain ⟨new, hnew⟩ := h.calls
  rw [hnew]
  exact hx.append

theorem write_taken (count : UInt32) (address value : Nat) (type : SectionParameterType)
    (db : LessDb) : (write (takingHwa count) address value type db).1 = true ∧
      Taken db (write (takingHwa count) address value type db).2 ∧
      ∀ x, address ≤ x → x < address + type.width →
        Touched x (write (takingHwa count) address value type db).2.calls := by
  have hcalls : (write (takingHwa count) address value type db).2.calls =
      db.calls ++ [.write address value type, .read address type] := by
    by_cases haddress : address = db.lastReadAddress <;>
      simp [write, takingHwa, hwaWrite, hwaRead, bind, StateT.bind, modify, modifyGet,
        MonadStateOf.modifyGet, StateT.modifyGet, pure, StateT.pure, haddress]
  refine ⟨?_, ⟨?_, _, hcalls⟩, fun x hlo hhi => ?_⟩
  · simp [write, takingHwa, hwaWrite, hwaRead, bind, StateT.bind, modify, modifyGet,
      MonadStateOf.modifyGet, StateT.modifyGet, pure, StateT.pure]
  · by_cases haddress : address = db.lastReadAddress <;>
      constructor <;> simp [write, takingHwa, hwaWrite, hwaRead, bind, StateT.bind, modify,
        modifyGet, MonadStateOf.modifyGet, StateT.modifyGet, pure, StateT.pure, haddress]
  · rw [hcalls]
    exact ⟨address, value, type, by simp, hlo, hhi⟩

/-- A row of steps that all succeed reaches what each of them reaches. -/
theorem writeEach_taken {α : Type} (db : LessDb) (f : α → StateM LessDb Bool) (xs : List α)
    (h : ∀ y ∈ xs, ∀ db', SameConfig db db' → (f y db').1 = true ∧ Taken db' (f y db').2) :
    (writeEach f xs db).1 = true ∧ Taken db (writeEach f xs db).2 ∧
      ∀ x, (∃ y ∈ xs, ∀ db', SameConfig db db' → Touched x (f y db').2.calls) →
        Touched x (writeEach f xs db).2.calls := by
  induction xs using List.reverseRecOn with
  | nil => exact ⟨rfl, .refl, by simp⟩
  | append_singleton rest y ih =>
    obtain ⟨hok, htaken, hreach⟩ := ih fun z hz => h z (List.mem_append_left _ hz)
    obtain ⟨hlast, hlasttaken⟩ := h y (by simp) _ htaken.config
    have hrun : writeEach f (rest ++ [y]) db = (true, (f y (writeEach f rest db).2).2) := by
      rw [writeEach_append, if_pos hok, writeEach_cons, if_pos hlast, writeEach_nil]
    rw [hrun]
    refine ⟨rfl, htaken.trans hlasttaken, ?_⟩
    rintro x ⟨z, hz, hx⟩
    rcases List.mem_append.mp hz with hz | hz
    · exact hlasttaken.touched (hreach x ⟨z, hz, hx⟩)
    · rw [List.mem_singleton] at hz
      rw [← hz]
      exact hx _ htaken.config

/-- Every byte of a section below 2^32 is reached, and no step fails. -/
def Reaches (start size : Nat) (db : LessDb) (result : Bool × LessDb) : Prop :=
  result.1 = true ∧ Taken db result.2 ∧
    ∀ o < size, start + o < 2 ^ 32 → Touched (start + o) result.2.calls

theorem initEach_reaches (count : UInt32) {start width : Nat} (db : LessDb)
    (hw : sect.parameterType.width = width)
    (hsize : sect.size = sect.numberOfParameters * width) :
    Reaches start sect.size db (initEach (takingHwa count) b s start width sect db) := by
  have hpos : 0 < width := by
    rw [← hw]
    exact width_pos
  obtain ⟨hok, htaken, hreach⟩ := writeEach_taken db
    (fun parameter => do
      let db ← get
      let defaultValue :=
        if sect.autoIncrement = .enable then sect.defaultValue + UInt32.ofNat parameter
        else sect.defaultValue
      write (takingHwa count) (u32 (start + parameter * width))
        (db.initValue b s parameter defaultValue).toNat sect.parameterType)
    (List.range sect.numberOfParameters)
    fun parameter _ db' _ => ⟨(write_taken count _ _ _ db').1, (write_taken count _ _ _ db').2.1⟩
  refine ⟨hok, htaken, fun o ho hlt => hreach _ ⟨o / width, ?_, ?_⟩⟩
  · rw [List.mem_range, Nat.div_lt_iff_lt_mul hpos, ← hsize]
    exact ho
  · intro db' _
    have hdiv := Nat.div_add_mod' o width
    have hmod := Nat.mod_lt o hpos
    have hplace : u32 (start + o / width * width) = start + o / width * width :=
      u32_of_lt (by omega)
    exact (write_taken count _ _ _ db').2.2 _ (by rw [hplace]; omega) (by rw [hplace, hw]; omega)

theorem initBytes_reaches (count : UInt32) {start perByte bits : Nat} (db : LessDb) :
    Reaches start sect.size db (initBytes (takingHwa count) b s start perByte bits sect db) := by
  obtain ⟨hok, htaken, hreach⟩ := writeEach_taken db
    (fun loop => do
      let db ← get
      write (takingHwa count) (u32 (start + loop))
        (db.initByte b s sect perByte bits (loop * perByte)) .byte)
    (List.range sect.size)
    fun loop _ db' _ => ⟨(write_taken count _ _ _ db').1, (write_taken count _ _ _ db').2.1⟩
  refine ⟨hok, htaken, fun o ho hlt => hreach _ ⟨o, List.mem_range.mpr ho, ?_⟩⟩
  intro db' _
  have hplace : u32 (start + o) = start + o := u32_of_lt hlt
  exact (write_taken count _ _ _ db').2.2 _ (by rw [hplace]) (by
    rw [hplace, SectionParameterType.width]
    omega)

theorem initSection_reaches (count : UInt32) (db : LessDb) :
    Reaches (db.sectionAddress block sect) sect.size db
      (initSection (takingHwa count) .fullReset b s block sect db) := by
  have hsize : sect.size = parametersSize sect.numberOfParameters sect.parameterType := rfl
  rw [initSection_eq (by rintro ⟨-, h⟩; cases h)]
  cases htype : sect.parameterType with
  | bit => exact initBytes_reaches count db
  | byte =>
    exact initEach_reaches count db (by rw [htype]; rfl) (by rw [hsize, htype, Nat.mul_one]; rfl)
  | halfByte => exact initBytes_reaches count db
  | word => exact initEach_reaches count db (by rw [htype]; rfl) (by rw [hsize, htype]; rfl)
  | dword => exact initEach_reaches count db (by rw [htype]; rfl) (by rw [hsize, htype]; rfl)

/-- A full initialisation reaches every byte of every section that lies below 2^32. -/
theorem initData_reaches (count : UInt32) (hb : db.layout[b]? = some block)
    (hs : block.sections[s]? = some sect) {o : Nat} (ho : o < sect.size)
    (hlt : db.sectionAddress block sect + o < 2 ^ 32) :
    Touched (db.sectionAddress block sect + o)
      (initData (takingHwa count) .fullReset db).2.calls := by
  have hentry : (b, s, block, sect) ∈ indexedSections db.layout := by
    refine List.mem_flatMap.mpr ⟨(block, b), List.mem_zipIdx_iff_getElem?.mpr hb, ?_⟩
    exact List.mem_map.mpr ⟨(sect, s), List.mem_zipIdx_iff_getElem?.mpr hs, rfl⟩
  obtain ⟨-, -, hreach⟩ := writeEach_taken db
    (fun (entry : Nat × Nat × Block × Section) =>
      initSection (takingHwa count) .fullReset entry.1 entry.2.1 entry.2.2.1 entry.2.2.2)
    (indexedSections db.layout)
    fun entry _ db' _ => ⟨(initSection_reaches count db').1, (initSection_reaches count db').2.1⟩
  refine hreach _ ⟨_, hentry, fun db' hc => ?_⟩
  have hplace : db'.sectionAddress block sect = db.sectionAddress block sect := by
    rw [LessDb.sectionAddress, LessDb.sectionAddress, hc.initialAddress]
  have hin : Reaches (db'.sectionAddress block sect) sect.size db'
    (initSection (takingHwa count) .fullReset b s block sect db') := initSection_reaches count db'
  have htouched := hin.2.2 o ho (by rw [hplace]; exact hlt)
  rwa [hplace] at htouched

/-- The offsets that are stamped are exact as long as what stands before is below 2^32. -/
theorem stampFrom_before {α : Type} {byteSize f : α → Nat} {stamp : α → Nat → α} {offset i : Nat}
    {xs : List α} {x : α} (hsizes : ∀ x, f x < 2 ^ 32 → byteSize x = f x) (hx : xs[i]? = some x)
    (ht : offset + ((xs.take i).map f).sum < 2 ^ 32) :
    (stampFrom byteSize stamp offset xs)[i]? =
      some (stamp x (offset + ((xs.take i).map f).sum)) := by
  induction xs generalizing offset i with
  | nil => cases hx
  | cons y rest ih =>
    cases i with
    | zero =>
      cases hx
      simp [stampFrom]
    | succ i =>
      simp only [List.take_succ_cons, List.map_cons, List.sum_cons] at ht
      have hy : byteSize y = f y := hsizes y (by omega)
      rw [stampFrom, hy, u32_of_lt (by omega), List.getElem?_cons_succ, ih hx (by omega)]
      simp [Nat.add_assoc]

/-- The part of a row of sizes in which a place lies. -/
theorem exists_part {α : Type} (f : α → Nat) {xs : List α} {place : Nat}
    (h : place < (xs.map f).sum) : ∃ i x o, xs[i]? = some x ∧ o < f x ∧
      place = ((xs.take i).map f).sum + o := by
  induction xs generalizing place with
  | nil => cases h
  | cons y rest ih =>
    simp only [List.map_cons, List.sum_cons] at h
    by_cases hy : place < f y
    · exact ⟨0, y, place, rfl, hy, by simp⟩
    · have hrest : place - f y < (rest.map f).sum := by omega
      obtain ⟨i, x, o, hx, ho, hplace⟩ := ih hrest
      refine ⟨i + 1, x, o, hx, ho, ?_⟩
      simp only [List.take_succ_cons, List.map_cons, List.sum_cons]
      omega

/-- The section of a layout in which a place below 2^32 lies. -/
theorem exists_section {place : Nat} (h : place < totalSize blocks) (hlt : place < 2 ^ 32) :
    ∃ (b s : Nat) (block : Block) (sect : Section) (o : Nat),
      (built blocks)[b]? = some block ∧ block.sections[s]? = some sect ∧
      o < sect.size ∧ place = block.blockOffset + sect.address + o := by
  obtain ⟨b, sections, rest, hsections, hrest, hplace⟩ :=
    exists_part (fun (sections : List Section) => (sections.map Section.size).sum) h
  obtain ⟨s, raw, o, hraw, ho, hrestplace⟩ := exists_part Section.size hrest
  have hbefore : ((blocks.map fun sections => (⟨makeBlock sections, 0⟩ : Block)).take b).map
      Block.size = (blocks.take b).map fun sections => (sections.map Section.size).sum := by
    rw [← List.map_take, List.map_map]
    simp only [Function.comp_def, size_makeBlock]
  have hblock : (stampFrom Block.byteSize (fun b offset => { b with blockOffset := offset }) 0
      (blocks.map fun sections => (⟨makeBlock sections, 0⟩ : Block)))[b]? = _ :=
    stampFrom_before (f := Block.size) (x := ⟨makeBlock sections, 0⟩) (fun _ => Block.byteSize_eq)
      (by simp [hsections]) (by
        rw [hbefore]
        omega)
  have hsect : (stampFrom Section.byteSize (fun s address => { s with address := address }) 0
      sections)[s]? = _ :=
    stampFrom_before (f := Section.size) (fun _ => Section.byteSize_eq) hraw (by omega)
  refine ⟨b, s, _, _, o, hblock, hsect, ho, ?_⟩
  simp only [hbefore]
  omega

/-- An initialisation leaves alone what is out of its reach, and an update what is not in the
section of its parameter. -/
def Framed (hwa : Hwa) (byte : List HwaCall → Nat → UInt8) (blocks : List (List Section))
    (startAddress : Nat) (db : LessDb) : Prop :=
  (∀ reset x, OutOfReach blocks startAddress reset x →
    byte (initData hwa reset db).2.calls x = byte db.calls x) ∧
  ∀ (b s p value x : Nat), (∀ (block : Block) (sect : Section), (built blocks)[b]? = some block →
      block.sections[s]? = some sect → ¬ InSection startAddress block sect x) →
    byte (update hwa b s p value db).2.calls x = byte db.calls x

theorem framed_of_lt (hexact : ExactWrites byte) (htotal : totalSize blocks < 2 ^ 32)
    (h : Placed blocks startAddress db) : Framed hwa byte blocks startAddress db := by
  constructor
  · intro reset x hx
    apply initData_kept hexact h
    intro b s block sect hb hs hno
    rw [h.layout] at hb
    exact hx.not_in htotal hb hs hno
  · intro b s p value x hx
    apply update_kept hexact h
    intro block sect hb hs
    rw [h.layout] at hb
    exact hx block sect hb hs

/-- Whether a layout is accepted depends on the number of addresses only. -/
theorem setLayout_same {hwa hwa' : Hwa} {layout : List Block} {uid : Nat}
    (hcount : hwa'.addressCount = hwa.addressCount) :
    (setLayout hwa' layout startAddress uid db').1 = (setLayout hwa layout startAddress uid db).1 := by
  simp only [setLayout]
  rw [hcount]
  split_ifs <;> rfl

/-- A layout that does not fit into 32 bits is accepted by its size modulo 2^32, and its
initialisation then writes behind that size. -/
theorem end_touched {count : UInt32} {uid : Nat} (htotal : 2 ^ 32 ≤ totalSize blocks)
    (haccepted : (setLayout (takingHwa count) (built blocks) startAddress uid {}).1 = true) :
    Touched (startAddress + layoutSize (built blocks)) (initData (takingHwa count) .fullReset
      (setLayout (takingHwa count) (built blocks) startAddress uid {}).2).2.calls := by
  have hlt : count.toNat < 2 ^ 32 := count.toNat_lt
  generalize hdb : (setLayout (takingHwa count) (built blocks) startAddress uid {}).2 = db
  have hset : startAddress + layoutSize (built blocks) ≤ count.toNat ∧
      db.layout = built blocks ∧ db.initialAddress = startAddress := by
    simp only [setLayout] at haccepted hdb
    rw [show (takingHwa count).addressCount = count from rfl] at haccepted hdb
    split_ifs at haccepted hdb with hstart hempty hfits
    · cases haccepted
    · cases haccepted
    · cases haccepted
    · rw [← hdb]
      exact ⟨by omega, rfl, rfl⟩
  obtain ⟨hfits, hlayout, haddress⟩ := hset
  have hsize : layoutSize (built blocks) < 2 ^ 32 := by omega
  obtain ⟨b, s, block, sect, o, hb, hs, ho, hplace⟩ :=
    exists_section (show layoutSize (built blocks) < totalSize blocks by omega) hsize
  have hsection : db.sectionAddress block sect =
      startAddress + block.blockOffset + sect.address := by
    rw [LessDb.sectionAddress, haddress,
      u32_of_lt (show startAddress + block.blockOffset < 2 ^ 32 by omega), u32_of_lt (by omega)]
  rw [← hlayout] at hb
  have hreached := initData_reaches count hb hs ho (by rw [hsection]; omega)
  rw [hsection] at hreached
  rw [hplace]
  convert hreached using 1
  omega

/-- The byte behind the layout, when it is not what is written there. -/
theorem end_overrun {count : UInt32} {uid : Nat} (htotal : 2 ^ 32 ≤ totalSize blocks)
    (haccepted : (setLayout (takingHwa count) (built blocks) startAddress uid {}).1 = true) :
    ∃ old : Nat, bytesAfter (fun _ => old) (initData (takingHwa count) .fullReset
      (setLayout (takingHwa count) (built blocks) startAddress uid {}).2).2.calls
        (startAddress + layoutSize (built blocks)) % 256 ≠ old % 256 := by
  have htouched := end_touched htotal haccepted
  generalize (initData (takingHwa count) .fullReset
    (setLayout (takingHwa count) (built blocks) startAddress uid {}).2).2.calls = calls
    at htouched ⊢
  refine ⟨bytesAfter (fun _ => 0) calls (startAddress + layoutSize (built blocks)) + 1, ?_⟩
  rw [htouched.bytesAfter_eq _ fun _ => 0]
  omega

/-- Initialisations and updates keep to their bytes, whatever is done with an accepted layout
before, exactly when the size of the layout fits into 32 bits. -/
theorem framed_iff (hwa : Hwa) (blocks : List (List Section)) (startAddress uid : Nat) (db : LessDb)
    (haccepted : (setLayout hwa (built blocks) startAddress uid db).1 = true) :
    (∀ (backend : Hwa) (byte : List HwaCall → Nat → UInt8) (before : LessDb) (ops : List DbOp),
      backend.addressCount = hwa.addressCount → ExactWrites byte →
      Framed backend byte blocks startAddress
        (ops.foldl (fun db op => perform backend op db)
          (setLayout backend (built blocks) startAddress uid before).2)) ↔
      totalSize blocks < 2 ^ 32 := by
  constructor
  · intro h
    by_contra hlarge
    have htaken : (setLayout (takingHwa hwa.addressCount) (built blocks) startAddress uid {}).1 =
        true := (setLayout_same rfl).trans haccepted
    obtain ⟨old, hold⟩ := end_overrun (by omega) htaken
    have hframed := h (takingHwa hwa.addressCount) _ {} [] rfl (bytesAfter_exact fun _ => old)
    have hkept := hframed.1 .fullReset _ (.inr (.inl le_rfl))
    have hnone : (setLayout (takingHwa hwa.addressCount) (built blocks) startAddress uid {}).2.calls =
        [] := by
      simp only [setLayout]
      split_ifs <;> rfl
    rw [List.foldl_nil, hnone] at hkept
    have hmod := congrArg UInt8.toNat hkept
    simp only [UInt8.toNat_ofNat'] at hmod
    exact hold hmod
  · intro htotal backend byte before ops hcount hexact
    apply framed_of_lt hexact htotal
    have hsame : (setLayout backend (built blocks) startAddress uid before).1 = true :=
      (setLayout_same hcount).trans haccepted
    exact run_placed backend ops (setLayout_accepted htotal hsame).2

theorem framed_packed : Framed echoHwa (fun calls x => UInt8.ofNat (bytesAfter (fun _ => 7) calls x))
    packedBlocks 4 (setLayout echoHwa (built packedBlocks) 4 0 {}).2 :=
  (framed_iff echoHwa packedBlocks 4 0 {} (by decide)).mpr (by decide) echoHwa _ {} [] rfl
    (bytesAfter_exact _)

/-- One section whose size wraps to four bytes. -/
def wrappingBlocks : List (List Section) := [[⟨2 ^ 30 + 1, .dword, .disable, .disable, 0, 0⟩]]

/-- A layout of four bytes by its wrapped size is accepted, and its initialisation writes the byte
behind it. -/
theorem wrapping_overruns :
    layoutSize (built wrappingBlocks) = 4 ∧
    (setLayout (takingHwa 20) (built wrappingBlocks) 0 0 {}).1 = true ∧
    ∃ old : Nat, bytesAfter (fun _ => old) (initData (takingHwa 20) .fullReset
      (setLayout (takingHwa 20) (built wrappingBlocks) 0 0 {}).2).2.calls
        (0 + layoutSize (built wrappingBlocks)) % 256 ≠ old % 256 := by
  have haccepted : (setLayout (takingHwa 20) (built wrappingBlocks) 0 0 {}).1 = true := by decide
  have htotal : 2 ^ 32 ≤ totalSize wrappingBlocks := by decide
  exact ⟨by decide, haccepted, end_overrun htotal haccepted⟩

end LessDb

end Zlibs.Lessdb
