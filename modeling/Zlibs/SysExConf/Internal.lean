import Zlibs.SysExConf.Common
import Zlibs.Midi.Bytes
import Zlibs.Lib.FaultProgram

/-! The protocol as the source computes it, over its members and a trace of what it does. -/
namespace Zlibs.SysExConf
open Lib Midi

/-- The public calls that change the members. -/
inductive Call where
  | setLayout (layout : List Block)
  | setupCustomRequests (requests : List CustomRequest)
  | reset
  | closeConnection
  | setUserErrorIgnoreMode (state : Bool)
  | handlePacket (packet : MidiUmp)
  | sendCustomMessage (values : List UInt16) (ack : Bool)

/-- What happens during a call. The calls themselves, the frame that `handle_request` is given and
the frame that `send_response` sends are marked next to the calls of the handler. -/
inductive Event where
  | call (c : Call)
  | request (frame : List UInt8)
  | get (block sect : UInt8) (index : UInt16) (result : Status) (value : UInt16)
  | set (block sect : UInt8) (index newValue : UInt16) (result : Status)
  | customRequest (request : UInt16)
  | response (frame : List UInt8)
  | sendResponse (packet : MidiUmp) (accepted : Bool)

/-- The members. `_response_counter` and the loop counters of the source are far from the limits
of their types wherever the array is not left. -/
structure Members where
  responseArray : Vector UInt8 maxMessageSize := Vector.replicate maxMessageSize 0
  responseCounter : Nat := 0
  configurationEnabled : Bool := false
  userErrorIgnoreModeEnabled : Bool := false
  umpMessageActive : Bool := false
  layout : List Block := []
  customRequests : List CustomRequest := []
  decodedRequest : DecodedRequest := {}

/-- The bytes written so far, `std::span(_response_array, _response_counter)`. -/
def Members.frame (m : Members) : List UInt8 := m.responseArray.toList.take m.responseCounter

structure World (η : Type) where
  ram : Members
  handler : η
  trace : List Event

/-- Where a run leaves what the source defines: an access outside `_response_array`, or the loop
of `write_sysex7_payload_as_ump_packets` on an empty payload. -/
inductive Fault where
  | outOfBounds | endlessLoop
  deriving DecidableEq, Repr

abbrev SysExM (η : Type) := FaultM Fault (World η)

variable {η : Type} (device : Device η)

def log (event : Event) : SysExM η Unit :=
  modify fun w => { w with trace := w.trace ++ [event] }

def modifyMembers (f : Members → Members) : SysExM η Unit :=
  modify fun w => { w with ram := f w.ram }

def modifyDecoded (f : DecodedRequest → DecodedRequest) : SysExM η Unit :=
  modifyMembers fun m => { m with decodedRequest := f m.decodedRequest }

def readResponse (i : Nat) : SysExM η UInt8 := do
  let w ← get
  if h : i < maxMessageSize then return w.ram.responseArray[i] else throw .outOfBounds

def writeResponse (i : Nat) (byte : UInt8) : SysExM η Unit :=
  if h : i < maxMessageSize then
    modifyMembers fun m => { m with responseArray := m.responseArray.set i byte }
  else throw .outOfBounds

/-- `_response_array[_response_counter++] = byte`. -/
def push (byte : UInt8) : SysExM η Unit := do
  let w ← get
  writeResponse w.ram.responseCounter byte
  modifyMembers fun m => { m with responseCounter := m.responseCounter + 1 }

def pushAll : List UInt8 → SysExM η Unit
  | [] => pure ()
  | byte :: rest => do
    push byte
    pushAll rest

/-- Write a message from the start of the array. -/
def startMessage (bytes : List UInt8) : SysExM η Unit := do
  modifyMembers fun m => { m with responseCounter := 0 }
  pushAll bytes

def setStatus (status : Status) : SysExM η Unit :=
  writeResponse statusByte (status.toByte &&& midiDataByteMask)

def addToResponse (value : UInt16) : SysExM η Bool := do
  let split := split14Bit value
  if (← get).ram.responseCounter ≥ maxMessageSize - 1 then
    return false
  push split.1
  push split.2
  return true

def callGet (block sect : UInt8) (index : UInt16) : SysExM η (Status × UInt16) := do
  let w ← get
  let ((result, value), handler) := device.dataHandler.get block sect index w.handler
  set { w with handler := handler, trace := w.trace ++ [Event.get block sect index result value] }
  return (result, value)

def callSet (block sect : UInt8) (index newValue : UInt16) : SysExM η Status := do
  let w ← get
  let (result, handler) := device.dataHandler.set block sect index newValue w.handler
  set { w with handler := handler, trace := w.trace ++ [Event.set block sect index newValue result] }
  return result

def callSendResponse (packet : MidiUmp) : SysExM η Bool := do
  let w ← get
  let (accepted, handler) := device.dataHandler.sendResponse packet w.handler
  set { w with handler := handler, trace := w.trace ++ [Event.sendResponse packet accepted] }
  return accepted

/-- The bytes between the start and the end byte. -/
def payloadOf (frame : List UInt8) : List UInt8 := (frame.drop 1).take (frame.length - 2)

def sendResponse [Zephyr] : SysExM η Unit := do
  push sysExEnd
  let response := (← get).ram.frame
  if response.length < 2 ∨ response.head? ≠ some sysExStart ∨
      response.getLast? ≠ some sysExEnd then
    return
  log (.response response)
  if (payloadOf response).isEmpty then
    throw .endlessLoop
  let _ ← writeSysex7PayloadAsUmpPackets 0 (payloadOf response) (callSendResponse device)

namespace Members

variable (m : Members)

/-- `_layout[block]._sections[section]` of the decoded request, asked for once both exist. -/
def requestedSection : Section :=
  (m.layout.getD m.decodedRequest.block.toNat ⟨[]⟩).sections.getD m.decodedRequest.sect.toNat
    ⟨0, 0, 0⟩

def checkWish : Bool := m.decodedRequest.wish ≠ .invalid

def checkAmount : Bool := m.decodedRequest.amount ≠ .invalid

def checkBlock : Bool := m.decodedRequest.block.toNat < m.layout.length

def checkSection : Bool :=
  m.decodedRequest.sect.toNat <
    (m.layout.getD m.decodedRequest.block.toNat ⟨[]⟩).sections.length

def checkPart : Bool :=
  if m.decodedRequest.part = partAllMessages ∨
      m.decodedRequest.part = partAllMessagesWithAck then
    m.decodedRequest.wish = .get ∨ m.decodedRequest.wish = .backup
  else if m.decodedRequest.amount = .all then
    m.decodedRequest.part < m.requestedSection.parts
  else m.decodedRequest.part = 0

def checkParameterIndex : Bool :=
  m.decodedRequest.index < m.requestedSection.numberOfParameters

def checkNewValue : Bool :=
  if m.requestedSection.newValueMin ≠ m.requestedSection.newValueMax then
    m.requestedSection.newValueMin ≤ m.decodedRequest.newValue ∧
      m.decodedRequest.newValue ≤ m.requestedSection.newValueMax
  else true

/-- In 16-bit arithmetic. -/
def generateMessageLength : Nat :=
  match m.decodedRequest.amount with
  | .single => stdReqMinMsgSize
  | _ =>
    match m.decodedRequest.wish with
    | .get | .backup => stdReqMinMsgSize
    | _ =>
      let size := m.requestedSection.numberOfParameters.toNat
      let size :=
        if size > paramsPerMessage then
          if m.decodedRequest.part.toNat + 1 = m.requestedSection.parts.toNat then
            (size + 2 ^ 16 - (m.requestedSection.parts.toNat - 1) * paramsPerMessage) % 2 ^ 16
          else paramsPerMessage
        else size
      let size := size * bytesPerValue % 2 ^ 16
      (size + indexByte + 1) % 2 ^ 16

end Members

def checkManufacturerId : SysExM η Bool := do
  let byte1 ← readResponse idByte1
  let byte2 ← readResponse idByte2
  let byte3 ← readResponse idByte3
  return byte1 = device.manufacturerId.id1 ∧ byte2 = device.manufacturerId.id2 ∧
    byte3 = device.manufacturerId.id3

def checkStatus : SysExM η Bool := do
  let byte ← readResponse statusByte
  return byte = Status.request.toByte

def resetDecodedRequest : SysExM η Unit :=
  modifyDecoded fun _ =>
    { status := .ack, wish := .invalid, amount := .invalid, block := 0, sect := 0, part := 0,
      index := 0, newValue := 0 }

def resetUmpMessage : SysExM η Unit :=
  modifyMembers fun m => { m with responseCounter := 0, umpMessageActive := false }

/-- Refuse a request with a status. -/
def refuse (status : Status) : SysExM η Bool := do
  setStatus status
  return false

/-- The index of a request for a single parameter and the value it is to be set to. -/
def decodeOperands : SysExM η Unit := do
  let d := (← get).ram.decodedRequest
  if d.amount = .single then
    let high ← readResponse indexByte
    let low ← readResponse (indexByte + 1)
    modifyDecoded fun d => { d with index := merge14Bit high low }
    if d.wish = .set then
      let high ← readResponse (indexByte + bytesPerValue)
      let low ← readResponse (indexByte + bytesPerValue + 1)
      modifyDecoded fun d => { d with newValue := merge14Bit high low }

/-- The message is the first `size` bytes of `_response_array`. -/
def decodeStandardRequest (size : Nat) : SysExM η Bool := do
  if size = specialReqMsgSize then
    return true
  if size < stdReqMinMsgSize - bytesPerValue then
    return ← refuse .errorMessageLength
  if !(← get).ram.configurationEnabled then
    return ← refuse .errorConnection
  let part ← readResponse partByte
  let wish ← readResponse wishByte
  let amount ← readResponse amountByte
  let block ← readResponse blockByte
  let sect ← readResponse sectionByte
  modifyDecoded fun d =>
    { d with part, wish := .ofByte wish, amount := .ofByte amount, block, sect }
  let m := (← get).ram
  if !m.checkWish then
    return ← refuse .errorWish
  if !m.checkBlock then
    return ← refuse .errorBlock
  if !m.checkSection then
    return ← refuse .errorSection
  if !m.checkAmount then
    return ← refuse .errorAmount
  if !m.checkPart then
    return ← refuse .errorPart
  if size ≠ m.generateMessageLength then
    return ← refuse .errorMessageLength
  setStatus .ack
  decodeOperands
  return true

/-- Get one value and append it to the response. -/
def getValue (index : UInt16) : SysExM η Bool := do
  let d := (← get).ram.decodedRequest
  let (result, value) ← callGet device d.block d.sect index
  if result = .ack then
    let _ ← addToResponse value
    return true
  if (← get).ram.userErrorIgnoreModeEnabled then
    let _ ← addToResponse 0
    return true
  refuse result

/-- Set one value to the decoded one. -/
def setValue (index : UInt16) : SysExM η Bool := do
  let d := (← get).ram.decodedRequest
  let result ← callSet device d.block d.sect index d.newValue
  if result = .ack then
    return true
  if (← get).ram.userErrorIgnoreModeEnabled then
    return true
  refuse result

/-- The body of the value loop on the path of `Wish::Get`. -/
def processGet (i : Nat) : SysExM η Bool := do
  let m := (← get).ram
  if m.decodedRequest.amount = .single then
    if !m.checkParameterIndex then
      return ← refuse .errorIndex
    getValue device m.decodedRequest.index
  else getValue device (UInt16.ofNat i)

/-- The body of the value loop on the path of `Wish::Set`. -/
def processSet (startIndex i : Nat) : SysExM η Bool := do
  let m := (← get).ram
  if m.decodedRequest.amount = .single then
    if !m.checkParameterIndex then
      return ← refuse .errorIndex
    if !m.checkNewValue then
      return ← refuse .errorNewValue
    setValue device m.decodedRequest.index
  else
    let arrayIndex := ((i - startIndex) % 2 ^ 8 * bytesPerValue % 2 ^ 8 + indexByte) % 2 ^ 8
    let high ← readResponse arrayIndex
    let low ← readResponse (arrayIndex + 1)
    modifyDecoded fun d => { d with newValue := merge14Bit high low }
    if !(← get).ram.checkNewValue then
      return ← refuse .errorNewValue
    setValue device (UInt16.ofNat i)

def processValue (startIndex i : Nat) : SysExM η Bool := do
  if (← get).ram.decodedRequest.wish = .get then processGet device i
  else processSet device startIndex i

/-- The loop over parameter indices; `startIndex` is the first of them. -/
def processValues (startIndex : Nat) : List Nat → SysExM η Bool
  | [] => return true
  | i :: rest => do
    if !(← processValue device startIndex i) then
      return false
    processValues startIndex rest

/-- The index that the first pair of bytes of a message part belongs to. -/
def startIndex (m : Members) : Nat :=
  if m.decodedRequest.amount = .all then paramsPerMessage * m.decodedRequest.part.toNat else 0

/-- The parameter indices of one message part. -/
def partIndices (m : Members) : List Nat :=
  if m.decodedRequest.amount = .all then
    let endIndex := startIndex m + paramsPerMessage
    let endIndex :=
      if endIndex > m.requestedSection.numberOfParameters.toNat then
        m.requestedSection.numberOfParameters.toNat
      else endIndex
    List.range' (startIndex m) (endIndex - startIndex m)
  else [0]

/-- A transfer of all parts puts its own part number into the response. -/
def selectPart (allPartsLoop : Bool) (j : Nat) : SysExM η Unit := do
  if allPartsLoop then
    modifyDecoded fun d => { d with part := UInt8.ofNat j }
    writeResponse partByte (UInt8.ofNat j)

/-- The loop over message parts. -/
def processParts [Zephyr] (allPartsLoop : Bool) (responseCounterLocal : Nat) :
    List Nat → SysExM η Bool
  | [] => return true
  | j :: rest => do
    modifyMembers fun m => { m with responseCounter := responseCounterLocal }
    selectPart allPartsLoop j
    let m := (← get).ram
    if !(← processValues device (startIndex m) (partIndices m)) then
      return false
    sendResponse device
    processParts allPartsLoop responseCounterLocal rest

/-- The length of the response before its values. A backup first turns the request into its
response, a request to set the values that follow. -/
def prepareResponse (receivedArraySize : Nat) : SysExM η Nat := do
  let m := (← get).ram
  if m.decodedRequest.wish = .backup then
    writeResponse statusByte Status.request.toByte
    writeResponse wishByte Wish.set.toByte
    modifyDecoded fun d => { d with wish := .get }
    return receivedArraySize - 1 - 2 * bytesPerValue
  return m.responseCounter

/-- The message that ends a transfer of all parts, where it was asked for. -/
def sendFinalAck [Zephyr] (allPartsAck : Bool) : SysExM η Unit := do
  if allPartsAck then
    let d := (← get).ram.decodedRequest
    startMessage [sysExStart, device.manufacturerId.id1, device.manufacturerId.id2,
      device.manufacturerId.id3, Status.ack.toByte, partAllMessagesAckPart, d.wish.toByte,
      d.amount.toByte, d.block, d.sect, 0, 0, 0, 0]
    sendResponse device

def processStandardRequest [Zephyr] (receivedArraySize : Nat) : SysExM η Bool := do
  let m := (← get).ram
  let d := m.decodedRequest
  let reads := d.wish = .backup ∨ d.wish = .get
  let allPartsLoop := reads ∧ (d.part = partAllMessages ∨ d.part = partAllMessagesWithAck)
  let msgPartsLoop := if allPartsLoop then m.requestedSection.parts.toNat else 1
  let responseCounterLocal ← prepareResponse receivedArraySize
  if !(← processParts device allPartsLoop responseCounterLocal (List.range msgPartsLoop)) then
    return false
  sendFinalAck device (allPartsLoop ∧ d.part = partAllMessagesWithAck)
  return true

/-- `CustomResponse::append`. -/
def appendCustom (value : UInt16) : SysExM η Bool := do
  let value := value &&& value14BitMask
  if (← get).ram.responseCounter + bytesPerValue ≥ maxMessageSize then
    return false
  let split := split14Bit value
  push split.1
  push split.2
  return true

/-- Let the handler append its values; the second result is `_overflowed`. -/
def runCustom : CustomAction η → Bool → SysExM η (Status × Bool)
  | .done result next, overflowed => do
    modify fun w => { w with handler := next }
    return (result, overflowed)
  | .append value next, overflowed => do
    let appended ← appendCustom value
    runCustom (next appended) (overflowed || !appended)

def processCustomRequest (request : CustomRequest) : SysExM η Bool := do
  if (← get).ram.configurationEnabled || !request.connOpenCheck then
    setStatus .ack
    log (.customRequest request.requestId)
    let (result, overflowed) ←
      runCustom (device.dataHandler.customRequest request.requestId (← get).handler) false
    if overflowed then
      return ← refuse .errorRead
    match result with
    | .ack => return true
    | .request =>
      setStatus .errorStatus
      return true
    | _ => refuse result
  else
    setStatus .errorConnection
    return true

/-- The replies to `BytesPerValue` and `ParamsPerMessage`. -/
def replyConstant (value : UInt8) : SysExM η Bool := do
  if (← get).ram.configurationEnabled then
    setStatus .ack
    push 0
    push value
    return true
  else
    setStatus .errorConnection
    return true

def processSpecialRequest : SysExM η Bool := do
  let wish ← readResponse wishByte
  if wish = connClose then
    if !(← get).ram.configurationEnabled then
      setStatus .errorConnection
      return true
    modifyMembers fun m => { m with configurationEnabled := false }
    setStatus .ack
    return true
  else if wish = connOpen then
    modifyMembers fun m => { m with configurationEnabled := true }
    setStatus .ack
    return true
  else if wish = bytesPerValueRequest then
    replyConstant (UInt8.ofNat bytesPerValue)
  else if wish = paramsPerMessageRequest then
    replyConstant (UInt8.ofNat paramsPerMessage)
  else
    match (← get).ram.customRequests.find? fun request => request.requestId = wish.toUInt16 with
    | some request => processCustomRequest device request
    | none =>
      setStatus .errorWish
      return true

/-- What `handle_request` does with a frame for this device; whether it still has to send the
response. -/
def answerRequest [Zephyr] (size : Nat) : SysExM η Bool := do
  if !(← checkStatus) then
    setStatus .errorStatus
    return true
  if !(← decodeStandardRequest size) then
    resetDecodedRequest
    return true
  if size = specialReqMsgSize then
    let _ ← processSpecialRequest device
    return true
  if !(← processStandardRequest device size) then
    resetDecodedRequest
    return true
  return false

/-- The message is the first `size` bytes of `_response_array`, so copying it there changes
nothing. -/
def handleRequest [Zephyr] (size : Nat) : SysExM η Unit := do
  let m := (← get).ram
  log (.request (m.responseArray.toList.take size))
  if m.layout.isEmpty then
    return
  if size < specialReqMsgSize then
    return
  if (← readResponse startByte) ≠ sysExStart then
    return
  if (← readResponse (size - 1)) ≠ sysExEnd then
    return
  if size > maxMessageSize then
    return
  resetDecodedRequest
  modifyMembers fun m => { m with responseCounter := size - 1 }
  if !(← checkManufacturerId device) then
    return
  if ← answerRequest device size then
    sendResponse device

/-- Start a frame if the packet does; whether there is a frame that the packet belongs to. -/
def joinFrame (startsFrame : Bool) : SysExM η Bool := do
  if startsFrame then
    resetUmpMessage
    push sysExStart
    modifyMembers fun m => { m with umpMessageActive := true }
    return true
  return (← get).ram.umpMessageActive

def handlePacket [Zephyr] (packet : MidiUmp) : SysExM η Unit := do
  if !isSysex7Packet packet then
    resetUmpMessage
    return
  let sysexStatus := sysex7Status packet
  let size := sysex7PayloadSize packet
  let startsFrame := sysex7StartsMessage sysexStatus
  let endsFrame := sysex7EndsMessage sysexStatus
  if !(← joinFrame startsFrame) then
    return
  let requiredSize := (← get).ram.responseCounter + size + if endsFrame then 1 else 0
  if requiredSize > maxMessageSize then
    resetUmpMessage
    return
  pushAll ((List.range size).map (readSysex7PayloadByte packet))
  if !endsFrame then
    return
  push sysExEnd
  modifyMembers fun m => { m with umpMessageActive := false }
  handleRequest device (← get).ram.responseCounter
  resetUmpMessage

def sendCustomMessage [Zephyr] (values : List UInt16) (ack : Bool) : SysExM η Unit := do
  startMessage [sysExStart, device.manufacturerId.id1, device.manufacturerId.id2,
    device.manufacturerId.id3, (if ack then Status.ack else Status.request).toByte, 0]
  pushAll (values.map UInt16.toUInt8)
  sendResponse device

def reset : SysExM η Unit := do
  modifyMembers fun m =>
    { m with
      configurationEnabled := false, userErrorIgnoreModeEnabled := false, decodedRequest := {},
      responseCounter := 0, layout := [], customRequests := [] }
  resetUmpMessage

def setLayout (layout : List Block) : SysExM η Bool := do
  modifyMembers fun m => { m with configurationEnabled := false }
  if !layout.isEmpty then
    modifyMembers fun m => { m with layout := layout }
    return true
  return false

def setupCustomRequests (requests : List CustomRequest) : SysExM η Bool := do
  if !requests.isEmpty then
    modifyMembers fun m => { m with customRequests := requests }
    if requests.any fun request => request.requestId.toNat < specialRequestCount then
      modifyMembers fun m => { m with customRequests := [] }
      return false
    return true
  return false

def closeConnection : SysExM η Unit :=
  modifyMembers fun m => { m with configurationEnabled := false }

def setUserErrorIgnoreMode (state : Bool) : SysExM η Unit :=
  modifyMembers fun m => { m with userErrorIgnoreModeEnabled := state }

/-- One public call, marked in the trace. -/
def invoke [Zephyr] (c : Call) : SysExM η Unit := do
  log (.call c)
  match c with
  | .setLayout layout => let _ ← setLayout layout
  | .setupCustomRequests requests => let _ ← setupCustomRequests requests
  | .reset => reset
  | .closeConnection => closeConnection
  | .setUserErrorIgnoreMode state => setUserErrorIgnoreMode state
  | .handlePacket packet => handlePacket device packet
  | .sendCustomMessage values ack => sendCustomMessage device values ack

def invokeAll [Zephyr] : List Call → SysExM η Unit
  | [] => pure ()
  | c :: rest => do
    invoke device c
    invokeAll rest

/-- A new object over a handler in a given state. -/
def World.initial (handler : η) : World η := { ram := {}, handler := handler, trace := [] }

end Zlibs.SysExConf
