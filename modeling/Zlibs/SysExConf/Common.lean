import Zlibs.Midi.Common

/-! The configuration protocol over SysEx: its constants, its layout descriptors and its handler. -/
namespace Zlibs.SysExConf
open Midi

inductive Wish where
  | get | set | backup | invalid
  deriving DecidableEq, Repr

def Wish.toByte : Wish → UInt8
  | get => 0
  | set => 1
  | backup => 2
  | invalid => 3

/-- `static_cast<Wish>`. The bytes that are no enumerator fail `check_wish` like `Invalid`. -/
def Wish.ofByte (byte : UInt8) : Wish :=
  if byte = 0 then get else if byte = 1 then set else if byte = 2 then backup else invalid

inductive Amount where
  | single | all | invalid
  deriving DecidableEq, Repr

def Amount.toByte : Amount → UInt8
  | single => 0
  | all => 1
  | invalid => 2

def Amount.ofByte (byte : UInt8) : Amount :=
  if byte = 0 then single else if byte = 1 then all else invalid

inductive Status where
  | request | ack | errorStatus | errorConnection | errorWish | errorAmount | errorBlock
  | errorSection | errorPart | errorIndex | errorNewValue | errorMessageLength | errorWrite
  | errorNotSupported | errorRead
  deriving DecidableEq, Repr

def Status.toByte : Status → UInt8
  | request => 0x00
  | ack => 0x01
  | errorStatus => 0x02
  | errorConnection => 0x03
  | errorWish => 0x04
  | errorAmount => 0x05
  | errorBlock => 0x06
  | errorSection => 0x07
  | errorPart => 0x08
  | errorIndex => 0x09
  | errorNewValue => 0x0A
  | errorMessageLength => 0x0B
  | errorWrite => 0x0C
  | errorNotSupported => 0x0D
  | errorRead => 0x0E

theorem Status.toByte_inj {a b : Status} : a.toByte = b.toByte ↔ a = b := by
  cases a <;> cases b <;> decide

/-- The status byte as it is written into a frame, see `set_status`. -/
theorem Status.toByte_and (status : Status) : status.toByte &&& midiDataByteMask = status.toByte := by
  cases status <;> rfl

def connClose : UInt8 := 0

def connOpen : UInt8 := 1

def bytesPerValueRequest : UInt8 := 2

def paramsPerMessageRequest : UInt8 := 3

def specialRequestCount : Nat := 4

@[simp] def startByte : Nat := 0

@[simp] def idByte1 : Nat := 1

@[simp] def idByte2 : Nat := 2

@[simp] def idByte3 : Nat := 3

@[simp] def statusByte : Nat := 4

@[simp] def partByte : Nat := 5

@[simp] def wishByte : Nat := 6

@[simp] def amountByte : Nat := 7

@[simp] def blockByte : Nat := 8

@[simp] def sectionByte : Nat := 9

@[simp] def indexByte : Nat := 10

def partAllMessages : UInt8 := 127

def partAllMessagesWithAck : UInt8 := 126

def partAllMessagesAckPart : UInt8 := 0x7E

@[simp] def paramsPerMessage : Nat := 32

@[simp] def bytesPerValue : Nat := 2

def value14BitMask : UInt16 := 0x3FFF

@[simp] def specialReqMsgSize : Nat := wishByte + 1 + 1

@[simp] def stdReqMinMsgSize : Nat := indexByte + bytesPerValue * 2 + 1

def maxMessageSize : Nat := stdReqMinMsgSize + paramsPerMessage * bytesPerValue

theorem maxMessageSize_eq : maxMessageSize = 79 := rfl

def merge14Bit (high low : UInt8) : UInt16 :=
  let low := if high &&& 0x01 ≠ 0 then low ||| 0x80 else low &&& ~~~0x80
  (high >>> 1).toUInt16 <<< 8 ||| low.toUInt16

/-- The high and the low byte. -/
def split14Bit (value : UInt16) : UInt8 × UInt8 :=
  let newHigh := (value >>> 8 &&& 0xFF).toUInt8
  let newLow := (value &&& 0xFF).toUInt8
  let newHigh := newHigh <<< 1 &&& midiDataByteMask
  let newHigh := if newLow >>> 7 &&& 0x01 ≠ 0 then newHigh ||| 0x01 else newHigh &&& ~~~0x01
  (newHigh, newLow &&& midiDataByteMask)

structure Section where
  numberOfParameters : UInt16
  newValueMin : UInt16
  newValueMax : UInt16
  deriving DecidableEq, Repr

/-- `parts()`: a section with more than 255 parts keeps the low byte of their number. -/
def Section.parts (sect : Section) : UInt8 :=
  UInt8.ofNat (sect.numberOfParameters.toNat / paramsPerMessage +
    if sect.numberOfParameters.toNat % paramsPerMessage ≠ 0 then 1 else 0)

structure Block where
  sections : List Section
  deriving DecidableEq, Repr

structure ManufacturerId where
  id1 : UInt8 := 0
  id2 : UInt8 := 0
  id3 : UInt8 := 0
  deriving DecidableEq, Repr

structure CustomRequest where
  requestId : UInt16 := 0
  connOpenCheck : Bool := false
  deriving DecidableEq, Repr

structure DecodedRequest where
  status : Status := .request
  wish : Wish := .get
  amount : Amount := .single
  block : UInt8 := 0
  sect : UInt8 := 0
  part : UInt8 := 0
  index : UInt16 := 0
  newValue : UInt16 := 0
  deriving DecidableEq, Repr

/-- What a custom request handler does: it appends values, each time told whether there was room,
and ends with a status. -/
inductive CustomAction (η : Type) where
  | done (result : Status) (next : η)
  | append (value : UInt16) (next : Bool → CustomAction η)

/-- `DataHandler` with a state of type `η`. It does not call back into the protocol. -/
structure DataHandler (η : Type) where
  get : (block sect : UInt8) → (index : UInt16) → η → (Status × UInt16) × η
  set : (block sect : UInt8) → (index newValue : UInt16) → η → Status × η
  customRequest : (request : UInt16) → η → CustomAction η
  sendResponse : MidiUmp → η → Bool × η

/-- What a `SysExConf` refers to for its whole life. -/
structure Device (η : Type) where
  dataHandler : DataHandler η
  manufacturerId : ManufacturerId

end Zlibs.SysExConf
