import Mathlib

/-! Entries, page statuses and the geometry an EmuEEPROM instance is compiled for. -/
namespace Zlibs.EmuEeprom

def erasedValue : UInt16 := 0xFFFF

def erasedByte : UInt8 := 0xFF

structure Entry where
  address : UInt16 := 0
  value : UInt16 := 0
  deriving DecidableEq, Repr

def reservedStatusAddress : UInt16 := erasedValue

@[simp] def serializedValueOffset : Nat := 0

@[simp] def serializedAddressOffset : Nat := 2

@[simp] def serializedEntrySize : Nat := 4

@[simp] def internalBlockSize : Nat := 256

@[simp] def minInternalEntryBlockCount : Nat := 3

def addressCountFor (pageSize writeBlockSize : Nat) : Nat :=
  let pageEntryCount := pageSize / serializedEntrySize
  let entriesPerBackendBlock := writeBlockSize / serializedEntrySize
  let internalEntryCount := minInternalEntryBlockCount * entriesPerBackendBlock
  if pageEntryCount ≤ internalEntryCount then 0
  else
    let addressCount := pageEntryCount - internalEntryCount
    if addressCount > reservedStatusAddress.toNat then reservedStatusAddress.toNat
    else addressCount

def makeEntry (address value : UInt16) : Entry := ⟨address, value⟩

inductive PageStatus where
  | valid | erased | formatted | receiving
  deriving DecidableEq, Repr

inductive ReadStatus where
  | ok | noVariable | noPage | readError
  deriving DecidableEq, Repr

inductive WriteStatus where
  | ok | pageFull | noPage | writeError
  deriving DecidableEq, Repr

inductive Page where
  | page1 | page2 | factory
  deriving DecidableEq, Repr

/-- The template parameters of `EmuEeprom` with its static assertions. Page offsets are
`uint32_t`, so a page is shorter than `2 ^ 32` bytes. -/
structure Geometry where
  pageSize : Nat
  writeBlockSize : Nat
  logicalAddressCount : Nat
  count_pos : 0 < logicalAddressCount
  count_uint16 : logicalAddressCount ≤ 0xFFFF
  page_pos : 0 < pageSize
  page_entry : pageSize % serializedEntrySize = 0
  page_internal : pageSize % internalBlockSize = 0
  page_uint32 : pageSize < 2 ^ 32
  block_min : serializedEntrySize ≤ writeBlockSize
  block_entry : writeBlockSize % serializedEntrySize = 0
  block_max : writeBlockSize ≤ internalBlockSize
  block_internal : internalBlockSize % writeBlockSize = 0
  capacity_pos : 0 < addressCountFor pageSize writeBlockSize
  count_le : logicalAddressCount ≤ addressCountFor pageSize writeBlockSize

/-- A run of bytes handed to or filled by the backend: `std::span`. -/
structure Span where
  size : Nat
  data : Nat → UInt8

def Span.subspan (s : Span) (offset count : Nat) : Span := ⟨count, fun i => s.data (offset + i)⟩

def serializeValue (value : UInt16) (index : Nat) : UInt8 :=
  (value >>> UInt16.ofNat (index * 8)).toUInt8 &&& erasedByte

def deserializeValue (data : Nat → UInt8) : UInt16 :=
  (List.range 2).foldl
    (fun value index => value ||| (data index).toUInt16 <<< UInt16.ofNat (index * 8)) 0

def serializeEntry (entry : Entry) (index : Nat) : UInt8 :=
  if index < serializedAddressOffset then
    serializeValue entry.value (index - serializedValueOffset)
  else serializeValue entry.address (index - serializedAddressOffset)

def deserializeEntry (data : Span) : Entry :=
  makeEntry (deserializeValue (data.subspan serializedAddressOffset 2).data)
    (deserializeValue (data.subspan serializedValueOffset 2).data)

def serializePageStatus : PageStatus → UInt16
  | .valid => 0x0000
  | .erased => erasedValue
  | .formatted => 0xEEEE
  | .receiving => 0x7777

/-- `Erased` is never decoded: an erased slot carries no status record. -/
def deserializePageStatus (value : UInt16) : Option PageStatus :=
  if value = serializePageStatus .valid then some .valid
  else if value = serializePageStatus .formatted then some .formatted
  else if value = serializePageStatus .receiving then some .receiving
  else none

/-- `all_erased` of the anonymous namespace. -/
def allErased (data : Span) : Bool :=
  (List.range data.size).all fun i => data.data i == erasedByte

end Zlibs.EmuEeprom
