import Zlibs.Midi.Bytes
import Zlibs.Lib.Machine

/-! `Midi1ByteToUmpParser`. -/
namespace Zlibs.Midi
open Lib

structure Parser where
  pending : Nat → UInt8 := fun _ => 0
  runningStatus : UInt8 := 0
  pendingIndex : Nat := 0
  expectedSize : Nat := 0
  sysexBuffer : Nat → UInt8 := fun _ => 0
  sysexSize : Nat := 0
  sysexActive : Bool := false
  sysexMultiPacket : Bool := false

namespace Parser

/-- `reset`: every member goes back to its initial value. -/
def reset (_ : Parser) : Parser := {}

def setPending (p : Parser) (index : Nat) (data : UInt8) : Parser :=
  { p with pending := fun i => if i = index then data else p.pending i }

/-- `_sysex_buffer.at(_sysex_size++) = data` -/
def bufferByte (p : Parser) (data : UInt8) : Parser :=
  { p with
    sysexBuffer := fun i => if i = p.sysexSize then data &&& midiDataByteMask else p.sysexBuffer i
    sysexSize := p.sysexSize + 1 }

variable [Zephyr]

def flushSysex (p : Parser) (group : UInt8) (status : SysEx7Status) : MidiUmp × Parser :=
  (sysex7Packet group status ((List.range p.sysexSize).map p.sysexBuffer),
    { p with sysexSize := 0 })

def completeMessage (p : Parser) (group : UInt8) : MidiUmp × Parser :=
  let status := p.pending 0
  let data1 := if p.expectedSize > 1 then p.pending 1 else 0
  let data2 := if p.expectedSize > 2 then p.pending 2 else 0
  let p := { p with pendingIndex := 0, expectedSize := 0 }
  if status < midiSystemMessageMin then
    (midi1ChannelVoiceUmp group status data1 data2, { p with runningStatus := status })
  else (systemUmp group status data1 data2, { p with runningStatus := 0 })

/-- Hand out the message once all its bytes are there. -/
def completeIfFull (p : Parser) (group : UInt8) : Option MidiUmp × Parser :=
  if p.pendingIndex ≥ p.expectedSize then
    let r := p.completeMessage group
    (some r.1, r.2)
  else (none, p)

/-- The branch of `parse` for a byte that starts a message: no SysEx is active and no byte is
pending. -/
def parseFirst (p : Parser) (data group : UInt8) : Option MidiUmp × Parser :=
  let p :=
    if data < midiStatusMin ∧ isChannelMessage (typeFromStatusByte p.runningStatus) then
      { (p.setPending 0 p.runningStatus).setPending 1 data with pendingIndex := 2 }
    else { p.setPending 0 data with pendingIndex := 1 }
  let type := typeFromStatusByte (p.pending 0)
  match type with
  | .sysRealTimeStart | .sysRealTimeContinue | .sysRealTimeStop | .sysRealTimeClock
  | .sysRealTimeActiveSensing | .sysRealTimeSystemReset | .sysCommonTuneRequest =>
    (some (systemUmp group type.toByte 0 0), { p with pendingIndex := 0, expectedSize := 0 })
  | .programChange | .afterTouchChannel | .sysCommonTimeCodeQuarterFrame
  | .sysCommonSongSelect => { p with expectedSize := 2 }.completeIfFull group
  | .noteOn | .noteOff | .controlChange | .pitchBend | .afterTouchPoly
  | .sysCommonSongPosition => { p with expectedSize := 3 }.completeIfFull group
  | _ => (none, p.reset)

/-- `parse_sysex_byte`. Its recursive call of `parse` finds the parser reset and a byte that
does not start a SysEx, which leaves the branch of a first byte. -/
def parseSysexByte (p : Parser) (data group : UInt8) : Option MidiUmp × Parser :=
  if data = sysExEnd then
    let status := if p.sysexMultiPacket then SysEx7Status.end else .complete
    let r := { p with sysexActive := false }.flushSysex group status
    (some r.1, r.2)
  else if data ≥ midiStatusMin then p.reset.parseFirst data group
  else if p.sysexSize = sysex7Data64MaxPayloadSize then
    let r := p.flushSysex group (if p.sysexMultiPacket then .continue else .start)
    (some r.1, { r.2 with sysexMultiPacket := true }.bufferByte data)
  else (none, p.bufferByte data)

def parse (group : UInt8) (p : Parser) (data : UInt8) : Option MidiUmp × Parser :=
  if data = sysExStart then
    (none, { p with
      pendingIndex := 0
      expectedSize := 0
      runningStatus := 0
      sysexSize := 0
      sysexActive := true
      sysexMultiPacket := false })
  else if p.sysexActive then p.parseSysexByte data group
  else if p.pendingIndex = 0 then p.parseFirst data group
  else if data ≥ midiStatusMin then p.reset.parseFirst data group
  else
    { p.setPending p.pendingIndex data with
      pendingIndex := p.pendingIndex + 1 }.completeIfFull group

/-- The recursive calls in the source, after a reset, take the branch of a first byte. -/
theorem parse_reset (p : Parser) (group data : UInt8) (h : data ≠ sysExStart) :
    parse group p.reset data = p.reset.parseFirst data group := by
  simp [parse, h, reset]

end Parser

end Zlibs.Midi
