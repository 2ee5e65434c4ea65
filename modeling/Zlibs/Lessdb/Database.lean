import Zlibs.Lib.Sending
import Zlibs.Lessdb.Layout

/-! `LessDb`: parameters read from and written to a backend, by the layout. -/
namespace Zlibs.Lessdb
open Lib

inductive HwaCall where
  | read (address : Nat) (type : SectionParameterType)
  | write (address value : Nat) (type : SectionParameterType)
  | clear
  deriving DecidableEq

/-- The backend; it answers a call after the calls before it. -/
structure Hwa where
  addressCount : UInt32
  read : List HwaCall → Nat → SectionParameterType → Option Nat
  write : List HwaCall → Nat → Nat → SectionParameterType → Bool
  clear : List HwaCall → Bool

structure InitProvider where
  layoutUid : Nat
  blockIndex : Nat
  sectionIndex : Nat
  provider : Option (Nat → Option UInt32)

def invalidAddress : Nat := 0xFFFFFFFF

structure LessDb where
  initialAddress : Nat := 0
  layoutUid : Nat := 0
  lastReadValue : Nat := 0
  lastReadAddress : Nat := invalidAddress
  layout : List Block := []
  initProviders : List InitProvider := []
  /-- The calls of the backend so far. -/
  calls : List HwaCall := []

namespace LessDb

/-- `BIT_MASK[bit]` of a byte is set. -/
def hasBit (value bit : Nat) : Bool := value / 2 ^ bit % 2 = 1

def withBit (value bit newValue : Nat) : Nat :=
  if newValue ≠ 0 then value ||| 2 ^ bit else value &&& (2 ^ 32 - 1 - 2 ^ bit)

def sectionAt (db : LessDb) (blockIndex sectionIndex : Nat) : Option (Block × Section) :=
  db.layout[blockIndex]?.bind fun block => block.sections[sectionIndex]?.map fun sect => (block, sect)

def sectionAddress (db : LessDb) (block : Block) (sect : Section) : Nat :=
  u32 (u32 (db.initialAddress + block.blockOffset) + sect.address)

variable (hwa : Hwa)

def hwaRead (address : Nat) (type : SectionParameterType) : StateM LessDb (Option Nat) := fun db =>
  (hwa.read db.calls address type, { db with calls := db.calls ++ [.read address type] })

def hwaWrite (address value : Nat) (type : SectionParameterType) : StateM LessDb Bool := fun db =>
  (hwa.write db.calls address value type,
    { db with calls := db.calls ++ [.write address value type] })

def setLayout (layout : List Block) (startAddress uid : Nat) : StateM LessDb Bool := do
  if startAddress ≥ hwa.addressCount.toNat then
    return false
  if layout.isEmpty then
    return false
  let totalUsage := layoutSize layout
  let available := hwa.addressCount.toNat - startAddress
  if totalUsage > available then
    return false
  modify fun db => { db with initialAddress := startAddress, layoutUid := uid, layout := layout }
  return true

/-- A byte of bits or half bytes, from the last read if it was of the same address. -/
def readCached (address : Nat) (type : SectionParameterType) : StateM LessDb (Option Nat) := do
  let db ← get
  if address = db.lastReadAddress then
    return some db.lastReadValue
  match ← hwaRead hwa address type with
  | none => return none
  | some value =>
    modify fun db => { db with lastReadValue := value % 256, lastReadAddress := address }
    return some (value % 256)

/-- A parameter of its own address. -/
def readDirect (address mask : Nat) (type : SectionParameterType) : StateM LessDb (Option Nat) := do
  match ← hwaRead hwa address type with
  | none => return none
  | some value =>
    modify fun db => { db with lastReadAddress := address }
    return some (value &&& mask)

def read (blockIndex sectionIndex parameterIndex : Nat) : StateM LessDb (Option Nat) := do
  let db ← get
  match db.sectionAt blockIndex sectionIndex with
  | none => return none
  | some (block, sect) =>
    if parameterIndex ≥ sect.numberOfParameters then
      return none
    let start := db.sectionAddress block sect
    match sect.parameterType with
    | .bit =>
      -- The index of the byte is cut to eight bits.
      let arrayIndex := parameterIndex / 8 % 256
      let bitIndex := (parameterIndex - arrayIndex * 8) % 256
      let value ← readCached hwa (u32 (start + arrayIndex)) .bit
      return value.map fun value => (hasBit value bitIndex).toNat
    | .byte => readDirect hwa (u32 (start + parameterIndex)) 0xFF .byte
    | .halfByte =>
      let value ← readCached hwa (u32 (start + parameterIndex / 2)) .halfByte
      return value.map fun value =>
        (if parameterIndex % 2 ≠ 0 then value / 2 ^ 4 else value) &&& 0x0F
    | .word => readDirect hwa (u32 (start + parameterIndex * 2)) 0xFFFF .word
    | .dword => hwaRead hwa (u32 (start + parameterIndex * 4)) .dword

def write (address value : Nat) (type : SectionParameterType) : StateM LessDb Bool := do
  modify fun db =>
    if address = db.lastReadAddress then { db with lastReadAddress := invalidAddress } else db
  if !(← hwaWrite hwa address value type) then
    return false
  match ← hwaRead hwa address type with
  | none => return false
  | some readValue => return value = readValue

/-- A byte of bits or half bytes is read, changed and written back. -/
def modifyByte (address : Nat) (change : Nat → Nat) (type : SectionParameterType) :
    StateM LessDb Bool := do
  match ← hwaRead hwa address type with
  | none => return false
  | some value => write hwa address (change value) type

def update (blockIndex sectionIndex parameterIndex newValue : Nat) : StateM LessDb Bool := do
  let db ← get
  match db.sectionAt blockIndex sectionIndex with
  | none => return false
  | some (block, sect) =>
    if parameterIndex ≥ sect.numberOfParameters then
      return false
    let start := db.sectionAddress block sect
    match sect.parameterType with
    | .bit =>
      let arrayIndex := parameterIndex / 8 % 256
      let bitIndex := (parameterIndex - 8 * arrayIndex) % 256
      modifyByte hwa (u32 (start + arrayIndex))
        (fun value => withBit value bitIndex (newValue &&& 1)) .bit
    | .byte => write hwa (u32 (start + parameterIndex)) (newValue &&& 0xFF) .byte
    | .halfByte =>
      modifyByte hwa (u32 (start + parameterIndex / 2))
        (fun value =>
          if parameterIndex % 2 ≠ 0 then (value &&& 0x0F) ||| u32 ((newValue &&& 0x0F) * 2 ^ 4)
          else (value &&& 0xF0) ||| (newValue &&& 0x0F)) .halfByte
    | .word => write hwa (u32 (start + parameterIndex * 2)) (newValue &&& 0xFFFF) .word
    | .dword => write hwa (u32 (start + parameterIndex * 4)) newValue .dword

/-- `init_value`: the value of the first provider of the section that gives one. -/
def initValue (db : LessDb) (blockIndex sectionIndex parameterIndex : Nat) (defaultValue : UInt32) :
    UInt32 :=
  (db.initProviders.findSome? fun entry =>
    if entry.layoutUid = db.layoutUid ∧ entry.blockIndex = blockIndex ∧
        entry.sectionIndex = sectionIndex then
      entry.provider.bind fun provider => provider parameterIndex
    else none).getD defaultValue

/-- The byte that holds the initial values of up to `perByte` parameters from `first` on. -/
def initByte (db : LessDb) (blockIndex sectionIndex : Nat) (sect : Section) (perByte bits first : Nat) :
    Nat :=
  ((List.range perByte).map fun k =>
    if first + k < sect.numberOfParameters then
      (db.initValue blockIndex sectionIndex (first + k) sect.defaultValue).toNat % 2 ^ bits *
        2 ^ (bits * k)
    else 0).sum

/-- The parameters of a section with an address each, `width` bytes apart. -/
def initEach (blockIndex sectionIndex start width : Nat) (sect : Section) : StateM LessDb Bool :=
  writeEach (fun parameter => do
    let db ← get
    let defaultValue :=
      if sect.autoIncrement = .enable then sect.defaultValue + UInt32.ofNat parameter
      else sect.defaultValue
    write hwa (u32 (start + parameter * width))
      (db.initValue blockIndex sectionIndex parameter defaultValue).toNat sect.parameterType)
    (List.range sect.numberOfParameters)

/-- The bytes of a section with `perByte` parameters in each. -/
def initBytes (blockIndex sectionIndex start perByte bits : Nat) (sect : Section) :
    StateM LessDb Bool :=
  writeEach (fun loop => do
    let db ← get
    write hwa (u32 (start + loop))
      (db.initByte blockIndex sectionIndex sect perByte bits (loop * perByte)) .byte)
    (List.range (parametersSize sect.numberOfParameters sect.parameterType))

/-- What `init_data` does with one section. -/
def initSection (type : FactoryResetType) (blockIndex sectionIndex : Nat) (block : Block)
    (sect : Section) : StateM LessDb Bool := do
  if sect.preserveOnPartialReset = .enable ∧ type = .partialReset then
    return true
  let db ← get
  let start := db.sectionAddress block sect
  match sect.parameterType with
  | .byte => initEach hwa blockIndex sectionIndex start 1 sect
  | .word => initEach hwa blockIndex sectionIndex start 2 sect
  | .dword => initEach hwa blockIndex sectionIndex start 4 sect
  | .bit => initBytes hwa blockIndex sectionIndex start 8 1 sect
  | .halfByte => initBytes hwa blockIndex sectionIndex start 2 4 sect

/-- The sections of the layout, with their indices. -/
def indexedSections (layout : List Block) : List (Nat × Nat × Block × Section) :=
  layout.zipIdx.flatMap fun (block, blockIndex) =>
    block.sections.zipIdx.map fun (sect, sectionIndex) => (blockIndex, sectionIndex, block, sect)

def initData (type : FactoryResetType) : StateM LessDb Bool := do
  let db ← get
  writeEach (fun (entry : Nat × Nat × Block × Section) =>
    initSection hwa type entry.1 entry.2.1 entry.2.2.1 entry.2.2.2) (indexedSections db.layout)

def clear : StateM LessDb Bool := fun db =>
  (hwa.clear db.calls, { db with calls := db.calls ++ [.clear] })

def registerLayoutInitProvider (blockIndex sectionIndex : Nat)
    (provider : Option (Nat → Option UInt32)) : StateM LessDb Unit :=
  modify fun db => { db with
    initProviders := db.initProviders ++ [⟨db.layoutUid, blockIndex, sectionIndex, provider⟩] }

def clearInitProviders : StateM LessDb Unit := modify fun db => { db with initProviders := [] }

end LessDb

end Zlibs.Lessdb
