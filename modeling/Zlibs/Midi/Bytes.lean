import Zlibs.Midi.Common
import Zlibs.Lib.Chunks
import Zlibs.Lib.Sending

/-! Packets as MIDI 1 bytes, and SysEx payloads as packets. -/
namespace Zlibs.Midi
open Lib

variable [Zephyr]

/-- The bytes `write_ump_as_midi1_bytes` writes, in order, or nothing where it refuses the packet
before it writes any. -/
def midi1Bytes (packet : MidiUmp) (group : UInt8) : Option (List UInt8) :=
  if umpGroup packet ≠ group then none
  else if umpMt packet = umpMtMidi1ChannelVoice then
    let status := umpMidiStatus packet
    match typeFromStatusByte status with
    | .programChange | .afterTouchChannel => some [status, umpMidi1P1 packet]
    | _ => some [status, umpMidi1P1 packet, umpMidi1P2 packet]
  else if umpMt packet = umpMtSysRtCommon then
    let status := umpMidiStatus packet
    match typeFromStatusByte status with
    | .sysCommonTimeCodeQuarterFrame | .sysCommonSongSelect => some [status, umpMidi1P1 packet]
    | .sysCommonSongPosition => some [status, umpMidi1P1 packet, umpMidi1P2 packet]
    | _ => some [status]
  else if umpMt packet = umpMtData64 then
    if !isSysex7Packet packet then none
    else
      let status := sysex7Status packet
      some ((if sysex7StartsMessage status then [sysExStart] else []) ++
        (List.range (sysex7PayloadSize packet)).map (readSysex7PayloadByte packet) ++
        (if sysex7EndsMessage status then [sysExEnd] else []))
  else none

/-- `write_ump_as_midi1_bytes`. -/
def writeUmpAsMidi1Bytes {m : Type → Type} [Monad m] (packet : MidiUmp) (group : UInt8)
    (writeByte : UInt8 → m Bool) : m Bool :=
  match midi1Bytes packet group with
  | none => return false
  | some bytes => writeEach writeByte bytes

/-- Write payload bytes into a packet, the first of them at `index`. -/
def writePayloadFrom (packet : MidiUmp) (index : Nat) : List UInt8 → MidiUmp
  | [] => packet
  | data :: rest => writePayloadFrom (writeSysex7PayloadByte packet index data) (index + 1) rest

/-- The packet with the given payload bytes. -/
def sysex7Packet (group : UInt8) (status : SysEx7Status) (payload : List UInt8) : MidiUmp :=
  writePayloadFrom { data0 := sysex7Header group status payload.length } 0 payload

/-- The status of a chunk by its place in the payload. -/
def chunkStatus : (first last : Bool) → SysEx7Status
  | true, true => .complete
  | true, false => .start
  | false, true => .end
  | false, false => .continue

/-- The packets of successive chunks of one payload. -/
def packetsFrom (group : UInt8) (first : Bool) : List (List UInt8) → List MidiUmp
  | [] => []
  | chunk :: rest =>
    sysex7Packet group (chunkStatus first rest.isEmpty) chunk :: packetsFrom group false rest

def sysex7Packets (group : UInt8) (payload : List UInt8) : List MidiUmp :=
  packetsFrom group true (chunks sysex7Data64MaxPayloadSize payload)

/-- `write_sysex7_payload_as_ump_packets` of a payload that is not empty. With an empty one the
loop of the source only ends when a packet is refused. -/
def writeSysex7PayloadAsUmpPackets {m : Type → Type} [Monad m] (group : UInt8)
    (payload : List UInt8) (writePacket : MidiUmp → m Bool) : m Bool :=
  writeEach writePacket (sysex7Packets group payload)

end Zlibs.Midi
