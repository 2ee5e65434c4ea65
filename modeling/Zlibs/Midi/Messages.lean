import Zlibs.Midi.Fields

/-! MIDI 1 messages, their packets and their bytes. -/
namespace Zlibs.Midi
open Lib

/-- How many data bytes follow the status byte. -/
def dataCount : MessageType → Nat
  | .programChange | .afterTouchChannel | .sysCommonTimeCodeQuarterFrame
  | .sysCommonSongSelect => 1
  | .noteOff | .noteOn | .controlChange | .afterTouchPoly | .pitchBend
  | .sysCommonSongPosition => 2
  | _ => 0

/-- A channel voice, system common or system real-time message. Data bytes it does not have are
zero, as in its packet. -/
structure ShortMessage where
  status : UInt8
  data1 : UInt8
  data2 : UInt8
  known : isChannelMessage (typeFromStatusByte status) ∨
    isSystemCommon (typeFromStatusByte status) ∨ isSystemRealTime (typeFromStatusByte status)
  data1_lt : data1 < midiStatusMin
  data2_lt : data2 < midiStatusMin
  unused1 : dataCount (typeFromStatusByte status) < 1 → data1 = 0
  unused2 : dataCount (typeFromStatusByte status) < 2 → data2 = 0

namespace ShortMessage

variable (m : ShortMessage)

def type : MessageType := typeFromStatusByte m.status

def isChannelVoice : Bool := isChannelMessage m.type

def dataBytes : List UInt8 := [m.data1, m.data2].take (dataCount m.type)

def bytes : List UInt8 := m.status :: m.dataBytes

def ump [Zephyr] (group : UInt8) : MidiUmp :=
  if m.isChannelVoice then midi1ChannelVoiceUmp group m.status m.data1 m.data2
  else systemUmp group m.status m.data1 m.data2

end ShortMessage

inductive Message where
  | short (m : ShortMessage)
  | sysEx (payload : List UInt8) (data : ∀ b ∈ payload, b < midiStatusMin)

def Message.bytes : Message → List UInt8
  | short m => m.bytes
  | sysEx payload _ => sysExStart :: payload ++ [sysExEnd]

/-- The packets of a message, a SysEx message cut into full ones except the last. -/
def Message.umps [Zephyr] (group : UInt8) : Message → List MidiUmp
  | short m => [m.ump group]
  | sysEx payload _ => sysex7Packets group payload

theorem channel_status {status : UInt8} :
    isChannelMessage (typeFromStatusByte status) = true ↔
      midiStatusMin ≤ status ∧ status < midiSystemMessageMin := by
  have : ∀ b : Fin 256, isChannelMessage (typeFromStatusByte (UInt8.ofFin b)) = true ↔
      midiStatusMin ≤ UInt8.ofFin b ∧ UInt8.ofFin b < midiSystemMessageMin := by decide +kernel
  exact this status.toFin

theorem data_type {data : UInt8} (h : data < midiStatusMin) :
    typeFromStatusByte data = .invalid := by
  unfold typeFromStatusByte
  rw [if_pos (.inl h)]

theorem toByte_type {status : UInt8} (h : midiSystemMessageMin ≤ status)
    (hi : typeFromStatusByte status ≠ .invalid) : (typeFromStatusByte status).toByte = status := by
  have : ∀ b : Fin 256, midiSystemMessageMin ≤ UInt8.ofFin b →
      typeFromStatusByte (UInt8.ofFin b) ≠ .invalid →
      (typeFromStatusByte (UInt8.ofFin b)).toByte = UInt8.ofFin b := by decide +kernel
  exact this status.toFin h hi

theorem known_status {status : UInt8} (h : isChannelMessage (typeFromStatusByte status) ∨
    isSystemCommon (typeFromStatusByte status) ∨ isSystemRealTime (typeFromStatusByte status)) :
    midiStatusMin ≤ status ∧ status ≠ sysExStart ∧ status ≠ sysExEnd := by
  have : ∀ b : Fin 256, (isChannelMessage (typeFromStatusByte (UInt8.ofFin b)) ∨
      isSystemCommon (typeFromStatusByte (UInt8.ofFin b)) ∨
      isSystemRealTime (typeFromStatusByte (UInt8.ofFin b))) →
      midiStatusMin ≤ UInt8.ofFin b ∧ UInt8.ofFin b ≠ sysExStart ∧
        UInt8.ofFin b ≠ sysExEnd := by decide +kernel
  exact this status.toFin h

theorem system_status {status : UInt8}
    (hc : ¬ isChannelMessage (typeFromStatusByte status) = true)
    (h : midiStatusMin ≤ status) : ¬ status < midiSystemMessageMin := fun hlt =>
  hc (channel_status.mpr ⟨h, hlt⟩)

end Zlibs.Midi
