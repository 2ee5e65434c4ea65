import Mathlib

/-! Universal MIDI Packets: their fields, the MIDI 1 message types and the SysEx7 payload bytes. -/
namespace Zlibs.Midi

/-- `struct midi_ump` of Zephyr: four 32-bit words. -/
structure MidiUmp where
  data0 : UInt32 := 0
  data1 : UInt32 := 0
  data2 : UInt32 := 0
  data3 : UInt32 := 0
  deriving DecidableEq, Repr

/-- The accessors and message types that `zephyr/audio/midi.h` defines. The header is not part
of the repository, so they are parameters. -/
class Zephyr where
  umpMtSysRtCommon : UInt32
  umpMtMidi1ChannelVoice : UInt32
  umpMtData64 : UInt32
  umpMt : MidiUmp → UInt32
  umpGroup : MidiUmp → UInt8
  umpMidiStatus : MidiUmp → UInt8
  umpMidi1P1 : MidiUmp → UInt8
  umpMidi1P2 : MidiUmp → UInt8

export Zephyr (umpMtSysRtCommon umpMtMidi1ChannelVoice umpMtData64 umpMt umpGroup umpMidiStatus
  umpMidi1P1 umpMidi1P2)

/-- The positions of the fields in the first word, and the message type numbers. -/
structure Zephyr.Documented [Zephyr] : Prop where
  sysRtCommon : umpMtSysRtCommon = 0x1
  channelVoice : umpMtMidi1ChannelVoice = 0x2
  data64 : umpMtData64 = 0x3
  mt (packet : MidiUmp) : umpMt packet = packet.data0 >>> 28
  group (packet : MidiUmp) : umpGroup packet = (packet.data0 >>> 24 &&& 0xF).toUInt8
  midiStatus (packet : MidiUmp) : umpMidiStatus packet = (packet.data0 >>> 16 &&& 0xFF).toUInt8
  midi1P1 (packet : MidiUmp) : umpMidi1P1 packet = (packet.data0 >>> 8 &&& 0x7F).toUInt8
  midi1P2 (packet : MidiUmp) : umpMidi1P2 packet = (packet.data0 &&& 0x7F).toUInt8

instance zephyrMidi : Zephyr where
  umpMtSysRtCommon := 0x1
  umpMtMidi1ChannelVoice := 0x2
  umpMtData64 := 0x3
  umpMt packet := packet.data0 >>> 28
  umpGroup packet := (packet.data0 >>> 24 &&& 0xF).toUInt8
  umpMidiStatus packet := (packet.data0 >>> 16 &&& 0xFF).toUInt8
  umpMidi1P1 packet := (packet.data0 >>> 8 &&& 0x7F).toUInt8
  umpMidi1P2 packet := (packet.data0 &&& 0x7F).toUInt8

theorem zephyrMidi_documented : @Zephyr.Documented zephyrMidi where
  sysRtCommon := rfl
  channelVoice := rfl
  data64 := rfl
  mt _ := rfl
  group _ := rfl
  midiStatus _ := rfl
  midi1P1 _ := rfl
  midi1P2 _ := rfl

def midiDataByteMask : UInt8 := 0x7F

def midiStatusMin : UInt8 := 0x80

def midiSystemMessageMin : UInt8 := 0xF0

def sysExStart : UInt8 := 0xF0

def sysExEnd : UInt8 := 0xF7

def defaultRxGroup : UInt8 := 0

def sysex7Data64MaxPayloadSize : Nat := 6

def sysex7Data64FirstWordPayloadSize : Nat := 2

def lowNibbleMask : UInt8 := 0x0F

def highNibbleMask : UInt8 := 0xF0

inductive MessageType where
  | noteOff | noteOn | controlChange | programChange | afterTouchChannel | afterTouchPoly
  | pitchBend | sysEx | sysCommonTimeCodeQuarterFrame | sysCommonSongPosition
  | sysCommonSongSelect | sysCommonTuneRequest | sysRealTimeClock | sysRealTimeStart
  | sysRealTimeContinue | sysRealTimeStop | sysRealTimeActiveSensing | sysRealTimeSystemReset
  | invalid
  deriving DecidableEq, Repr

/-- The value of the enumerator. -/
def MessageType.toByte : MessageType → UInt8
  | noteOff => 0x80
  | noteOn => 0x90
  | controlChange => 0xB0
  | programChange => 0xC0
  | afterTouchChannel => 0xD0
  | afterTouchPoly => 0xA0
  | pitchBend => 0xE0
  | sysEx => 0xF0
  | sysCommonTimeCodeQuarterFrame => 0xF1
  | sysCommonSongPosition => 0xF2
  | sysCommonSongSelect => 0xF3
  | sysCommonTuneRequest => 0xF6
  | sysRealTimeClock => 0xF8
  | sysRealTimeStart => 0xFA
  | sysRealTimeContinue => 0xFB
  | sysRealTimeStop => 0xFC
  | sysRealTimeActiveSensing => 0xFE
  | sysRealTimeSystemReset => 0xFF
  | invalid => 0x00

/-- `static_cast<MessageType>` of a channel command nibble. -/
def MessageType.ofCommand (command : UInt8) : MessageType :=
  if command = 0x80 then noteOff
  else if command = 0x90 then noteOn
  else if command = 0xA0 then afterTouchPoly
  else if command = 0xB0 then controlChange
  else if command = 0xC0 then programChange
  else if command = 0xD0 then afterTouchChannel
  else if command = 0xE0 then pitchBend
  else invalid

/-- The system messages that `type_from_status_byte` lists. -/
def MessageType.systemTypes : List MessageType :=
  [sysEx, sysCommonTimeCodeQuarterFrame, sysCommonSongPosition, sysCommonSongSelect,
    sysCommonTuneRequest, sysRealTimeClock, sysRealTimeStart, sysRealTimeContinue,
    sysRealTimeStop, sysRealTimeActiveSensing, sysRealTimeSystemReset]

def isChannelMessage : MessageType → Bool
  | .noteOff | .noteOn | .controlChange | .afterTouchPoly | .afterTouchChannel | .pitchBend
  | .programChange => true
  | _ => false

def isSystemRealTime : MessageType → Bool
  | .sysRealTimeClock | .sysRealTimeStart | .sysRealTimeContinue | .sysRealTimeStop
  | .sysRealTimeActiveSensing | .sysRealTimeSystemReset => true
  | _ => false

def isSystemCommon : MessageType → Bool
  | .sysCommonTimeCodeQuarterFrame | .sysCommonSongPosition | .sysCommonSongSelect
  | .sysCommonTuneRequest => true
  | _ => false

def typeFromStatusByte (status : UInt8) : MessageType :=
  if status < midiStatusMin ∨ status = 0xF4 ∨ status = 0xF5 ∨ status = 0xF9 ∨ status = 0xFD then
    .invalid
  else if status < midiSystemMessageMin then .ofCommand (status &&& highNibbleMask)
  else (MessageType.systemTypes.find? fun type => type.toByte = status).getD .invalid

inductive SysEx7Status where
  | complete | start | continue | end
  deriving DecidableEq, Repr

def SysEx7Status.toByte : SysEx7Status → UInt8
  | complete => 0x00
  | start => 0x01
  | .continue => 0x02
  | .end => 0x03

def sysex7Header [Zephyr] (group : UInt8) (status : SysEx7Status) (size : Nat) : UInt32 :=
  umpMtData64 <<< 28 ||| (group &&& lowNibbleMask).toUInt32 <<< 24 |||
    (status.toByte &&& lowNibbleMask).toUInt32 <<< 20 |||
    (UInt8.ofNat size &&& lowNibbleMask).toUInt32 <<< 16

/-- The status nibble, which `is_sysex7_packet` compares with the enumerators. -/
def sysex7StatusNibble (packet : MidiUmp) : UInt8 := (packet.data0 >>> 20 &&& 0xF).toUInt8

/-- Values past `End` are no enumerator; callers only ask about SysEx7 packets. -/
def sysex7Status (packet : MidiUmp) : SysEx7Status :=
  if sysex7StatusNibble packet = 0 then .complete
  else if sysex7StatusNibble packet = 1 then .start
  else if sysex7StatusNibble packet = 2 then .continue
  else .end

def sysex7PayloadSize (packet : MidiUmp) : Nat := (packet.data0 >>> 16 &&& 0xF).toNat

def sysex7StartsMessage : SysEx7Status → Bool
  | .complete | .start => true
  | _ => false

def sysex7EndsMessage : SysEx7Status → Bool
  | .complete | .end => true
  | _ => false

def isSysex7Packet [Zephyr] (packet : MidiUmp) : Bool :=
  umpMt packet = umpMtData64 ∧ sysex7PayloadSize packet ≤ sysex7Data64MaxPayloadSize ∧
    sysex7StatusNibble packet ≤ SysEx7Status.end.toByte

/-- The bit position of a payload byte within its word. -/
def payloadShift (index : Nat) : UInt32 :=
  if index < sysex7Data64FirstWordPayloadSize then
    UInt32.ofNat (8 * (sysex7Data64FirstWordPayloadSize - 1 - index))
  else UInt32.ofNat (8 * (sysex7Data64MaxPayloadSize - 1 - index))

def writeSysex7PayloadByte (packet : MidiUmp) (index : Nat) (data : UInt8) : MidiUmp :=
  let byte := (data &&& midiDataByteMask).toUInt32
  if index < sysex7Data64FirstWordPayloadSize then
    { packet with data0 := packet.data0 ||| byte <<< payloadShift index }
  else { packet with data1 := packet.data1 ||| byte <<< payloadShift index }

def readSysex7PayloadByte (packet : MidiUmp) (index : Nat) : UInt8 :=
  if index < sysex7Data64FirstWordPayloadSize then
    (packet.data0 >>> payloadShift index).toUInt8 &&& midiDataByteMask
  else (packet.data1 >>> payloadShift index).toUInt8 &&& midiDataByteMask

def midi1ChannelVoiceUmp [Zephyr] (group status data1 data2 : UInt8) : MidiUmp where
  data0 := umpMtMidi1ChannelVoice <<< 28 ||| (group &&& lowNibbleMask).toUInt32 <<< 24 |||
    ((status &&& highNibbleMask) >>> 4).toUInt32 <<< 20 |||
    (status &&& lowNibbleMask).toUInt32 <<< 16 |||
    (data1 &&& midiDataByteMask).toUInt32 <<< 8 ||| (data2 &&& midiDataByteMask).toUInt32

def systemUmp [Zephyr] (group status data1 data2 : UInt8) : MidiUmp where
  data0 := umpMtSysRtCommon <<< 28 ||| (group &&& lowNibbleMask).toUInt32 <<< 24 |||
    status.toUInt32 <<< 16 |||
    (data1 &&& midiDataByteMask).toUInt32 <<< 8 ||| (data2 &&& midiDataByteMask).toUInt32

end Zlibs.Midi
