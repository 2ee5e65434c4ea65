import Zlibs.Midi.Relay
import Zlibs.Midi.BleRoundTrip
import Zlibs.SysExConf.Common

/-! The MIDI 1 message builders: what they build reaches the far end of a serial line and of a BLE
connection, and the parameters of a receiver there follow the NRPN calls. -/
namespace Zlibs.Midi.Midi1
open Lib
open SysExConf (split14Bit)

def maxValue7Bit : UInt16 := 127

def maxValue14Bit : UInt16 := 16383

def dataMsbShift : UInt16 := 7

def mtcTypeMask : UInt8 := 0x07

def mtcDataMask : UInt8 := 0x0F

def mmcAllCallDeviceId : UInt8 := 0x7F

def mmcSubId : UInt8 := 0x06

def nrpnMsbController : UInt8 := 99

def nrpnLsbController : UInt8 := 98

def dataEntryMsbController : UInt8 := 6

def dataEntryLsbController : UInt8 := 38

def controlChangeLsbOffset : UInt16 := 32

/-- The MMC enumerators of `MessageType`, the only ones `mmc` is defined for. -/
inductive MmcType where
  | mmcPlay | mmcStop | mmcPause | mmcRecordStart | mmcRecordStop
  deriving DecidableEq, Repr

def MmcType.toByte : MmcType → UInt8
  | mmcPlay => 0x02
  | mmcStop => 0x01
  | mmcPause => 0x09
  | mmcRecordStart => 0x06
  | mmcRecordStop => 0x07

/-- The channel of a status byte, counted from one. -/
def channelFromStatusByte (status : UInt8) : UInt8 := (status &&& lowNibbleMask) + 1

section Builders

variable [Zephyr]

def sysex7CompleteUmp (group : UInt8) (payload : List UInt8) : Option MidiUmp :=
  if payload.length > sysex7Data64MaxPayloadSize then none
  else some (sysex7Packet group .complete payload)

def channelVoice (type : MessageType) (group channel data1 data2 : UInt8) : MidiUmp :=
  midi1ChannelVoiceUmp group (type.toByte ||| channel &&& lowNibbleMask) data1 data2

def noteOn (group channel noteNumber velocity : UInt8) : MidiUmp :=
  channelVoice .noteOn group channel noteNumber velocity

def noteOff (group channel noteNumber velocity : UInt8) (sendAsNoteOn : Bool) : MidiUmp :=
  if sendAsNoteOn then noteOn group channel noteNumber 0
  else channelVoice .noteOff group channel noteNumber velocity

def programChange (group channel programNumber : UInt8) : MidiUmp :=
  channelVoice .programChange group channel programNumber 0

def controlChange (group channel controlNumber controlValue : UInt8) : MidiUmp :=
  channelVoice .controlChange group channel controlNumber controlValue

/-- The control numbers are narrowed to a byte by the calls. -/
def controlChange14Bit (group channel : UInt8) (controlNumber controlValue : UInt16) :
    List MidiUmp :=
  let split := split14Bit controlValue
  [controlChange group channel controlNumber.toUInt8 split.1,
    controlChange group channel (controlNumber + controlChangeLsbOffset).toUInt8 split.2]

def polyAfterTouch (group channel noteNumber pressure : UInt8) : MidiUmp :=
  channelVoice .afterTouchPoly group channel noteNumber pressure

def channelAfterTouch (group channel pressure : UInt8) : MidiUmp :=
  channelVoice .afterTouchChannel group channel pressure 0

def pitchBend (group channel : UInt8) (pitchValue : UInt16) : MidiUmp :=
  let split := split14Bit (pitchValue &&& maxValue14Bit)
  channelVoice .pitchBend group channel split.2 split.1

def system (type : MessageType) (group data1 data2 : UInt8) : MidiUmp :=
  systemUmp group type.toByte data1 data2

def tuneRequest (group : UInt8) : MidiUmp := system .sysCommonTuneRequest group 0 0

def timeCodeQuarterFrame (group data : UInt8) : MidiUmp :=
  system .sysCommonTimeCodeQuarterFrame group data 0

/-- The overload that joins the data byte from its two nibbles. -/
def timeCodeQuarterFrameOf (group typeNibble valuesNibble : UInt8) : MidiUmp :=
  timeCodeQuarterFrame group ((typeNibble &&& mtcTypeMask) <<< 4 ||| valuesNibble &&& mtcDataMask)

def songPosition (group : UInt8) (beats : UInt16) : MidiUmp :=
  system .sysCommonSongPosition group (beats &&& maxValue7Bit).toUInt8
    (beats >>> dataMsbShift &&& maxValue7Bit).toUInt8

def songSelect (group songNumber : UInt8) : MidiUmp := system .sysCommonSongSelect group songNumber 0

def timingClock (group : UInt8) : MidiUmp := system .sysRealTimeClock group 0 0

def start (group : UInt8) : MidiUmp := system .sysRealTimeStart group 0 0

def continuePlayback (group : UInt8) : MidiUmp := system .sysRealTimeContinue group 0 0

def stop (group : UInt8) : MidiUmp := system .sysRealTimeStop group 0 0

def activeSensing (group : UInt8) : MidiUmp := system .sysRealTimeActiveSensing group 0 0

def systemReset (group : UInt8) : MidiUmp := system .sysRealTimeSystemReset group 0 0

def sysex7Complete (group : UInt8) (payload : List UInt8) : Option MidiUmp :=
  sysex7CompleteUmp group payload

def mmc (type : MmcType) (group deviceId : UInt8) : Option MidiUmp :=
  sysex7Complete group [mmcAllCallDeviceId, deviceId, mmcSubId, type.toByte]

def nrpn7Bit (group channel : UInt8) (parameterNumber : UInt16) (value : UInt8) : List MidiUmp :=
  let parameter := split14Bit parameterNumber
  [controlChange group channel nrpnMsbController parameter.1,
    controlChange group channel nrpnLsbController parameter.2,
    controlChange group channel dataEntryMsbController value]

def nrpn14Bit (group channel : UInt8) (parameterNumber value : UInt16) : List MidiUmp :=
  let parameter := split14Bit parameterNumber
  let splitValue := split14Bit value
  [controlChange group channel nrpnMsbController parameter.1,
    controlChange group channel nrpnLsbController parameter.2,
    controlChange group channel dataEntryMsbController splitValue.1,
    controlChange group channel dataEntryLsbController splitValue.2]

end Builders

/-- A call of a builder, without its group. -/
inductive Request where
  | noteOn (channel noteNumber velocity : UInt8)
  | noteOff (channel noteNumber velocity : UInt8) (sendAsNoteOn : Bool)
  | programChange (channel programNumber : UInt8)
  | controlChange (channel controlNumber controlValue : UInt8)
  | controlChange14Bit (channel : UInt8) (controlNumber controlValue : UInt16)
  | polyAfterTouch (channel noteNumber pressure : UInt8)
  | channelAfterTouch (channel pressure : UInt8)
  | pitchBend (channel : UInt8) (pitchValue : UInt16)
  | tuneRequest
  | timeCodeQuarterFrame (data : UInt8)
  | timeCodeQuarterFrameOf (typeNibble valuesNibble : UInt8)
  | songPosition (beats : UInt16)
  | songSelect (songNumber : UInt8)
  | timingClock
  | start
  | continuePlayback
  | stop
  | activeSensing
  | systemReset
  | sysex7Complete (payload : List UInt8)
  | mmc (type : MmcType) (deviceId : UInt8)
  | nrpn7Bit (channel : UInt8) (parameterNumber : UInt16) (value : UInt8)
  | nrpn14Bit (channel : UInt8) (parameterNumber value : UInt16)

/-- The packets to be sent for a call; none where the builder has refused. -/
def Request.packets [Zephyr] (group : UInt8) : Request → List MidiUmp
  | noteOn channel note velocity => [Midi1.noteOn group channel note velocity]
  | noteOff channel note velocity asNoteOn => [Midi1.noteOff group channel note velocity asNoteOn]
  | programChange channel program => [Midi1.programChange group channel program]
  | controlChange channel number value => [Midi1.controlChange group channel number value]
  | controlChange14Bit channel number value => Midi1.controlChange14Bit group channel number value
  | polyAfterTouch channel note pressure => [Midi1.polyAfterTouch group channel note pressure]
  | channelAfterTouch channel pressure => [Midi1.channelAfterTouch group channel pressure]
  | pitchBend channel value => [Midi1.pitchBend group channel value]
  | tuneRequest => [Midi1.tuneRequest group]
  | timeCodeQuarterFrame data => [Midi1.timeCodeQuarterFrame group data]
  | timeCodeQuarterFrameOf type values => [Midi1.timeCodeQuarterFrameOf group type values]
  | songPosition beats => [Midi1.songPosition group beats]
  | songSelect song => [Midi1.songSelect group song]
  | timingClock => [Midi1.timingClock group]
  | start => [Midi1.start group]
  | continuePlayback => [Midi1.continuePlayback group]
  | stop => [Midi1.stop group]
  | activeSensing => [Midi1.activeSensing group]
  | systemReset => [Midi1.systemReset group]
  | sysex7Complete payload => (Midi1.sysex7Complete group payload).toList
  | mmc type deviceId => (Midi1.mmc type group deviceId).toList
  | nrpn7Bit channel parameter value => Midi1.nrpn7Bit group channel parameter value
  | nrpn14Bit channel parameter value => Midi1.nrpn14Bit group channel parameter value

section Messages

variable [Zephyr] {type : MessageType} {channel data1 data2 : UInt8}

/-- The packets of every group are those of the messages, in the group that its low nibble is. -/
def Says (packets : UInt8 → List MidiUmp) (messages : List Message) : Prop :=
  ∀ group, packets group = messages.flatMap (·.umps (group &&& lowNibbleMask))

theorem Says.append {ps qs : UInt8 → List MidiUmp} {xs ys : List Message} (hp : Says ps xs)
    (hq : Says qs ys) : Says (fun group => ps group ++ qs group) (xs ++ ys) := by
  intro group
  simp only [hp group, hq group, List.flatMap_append]

omit [Zephyr] in
theorem channelVoice_status (hc : isChannelMessage type) :
    typeFromStatusByte (type.toByte ||| channel &&& lowNibbleMask) = type := by
  have : ∀ c : Fin 256, ∀ t ∈ [MessageType.noteOff, .noteOn, .controlChange, .programChange,
      .afterTouchChannel, .afterTouchPoly, .pitchBend],
      typeFromStatusByte (t.toByte ||| UInt8.ofFin c &&& lowNibbleMask) = t := by decide +kernel
  exact this channel.toFin type (by cases type <;> simp_all [isChannelMessage])

omit [Zephyr] in
theorem type_toByte : typeFromStatusByte type.toByte = type := by
  cases type <;> rfl

/-- Data bytes that the type does not have are zero. -/
def Trimmed (type : MessageType) (data1 data2 : UInt8) : Prop :=
  (dataCount type < 1 → data1 = 0) ∧ (dataCount type < 2 → data2 = 0)

omit [Zephyr] in
/-- The message with the status and the data bytes, cut to seven bits. -/
theorem exists_short {status : UInt8} (ht : typeFromStatusByte status = type)
    (hk : isChannelMessage type ∨ isSystemCommon type ∨ isSystemRealTime type)
    (hd : Trimmed type data1 data2) :
    ∃ m : ShortMessage, m.status = status ∧ m.data1 = data1 &&& midiDataByteMask ∧
      m.data2 = data2 &&& midiDataByteMask := by
  subst ht
  refine ⟨⟨status, data1 &&& midiDataByteMask, data2 &&& midiDataByteMask, hk, masked_data,
    masked_data, fun h => ?_, fun h => ?_⟩, rfl, rfl, rfl⟩
  · rw [hd.1 h, UInt8.zero_and]
  · rw [hd.2 h, UInt8.zero_and]

theorem says_channelVoice (hc : isChannelMessage type) (hd : Trimmed type data1 data2) :
    ∃ messages, Says (fun group => [channelVoice type group channel data1 data2]) messages := by
  have ht := @channelVoice_status _ channel hc
  obtain ⟨m, hs, h1, h2⟩ := exists_short ht (.inl hc) hd
  refine ⟨[.short m], fun group => ?_⟩
  have hv : m.isChannelVoice = true := by
    rw [ShortMessage.isChannelVoice, ShortMessage.type, hs, ht, hc]
  simp only [List.flatMap_singleton, Message.umps, ShortMessage.ump, hv, if_true, hs, h1, h2,
    channelVoice, midi1ChannelVoiceUmp, UInt8.and_assoc, UInt8.and_self]

theorem says_system (hs : isSystemCommon type ∨ isSystemRealTime type)
    (hd : Trimmed type data1 data2) :
    ∃ messages, Says (fun group => [system type group data1 data2]) messages := by
  have ht := @type_toByte type
  obtain ⟨m, hm, h1, h2⟩ := exists_short ht (.inr hs) hd
  refine ⟨[.short m], fun group => ?_⟩
  have hv : m.isChannelVoice = false := by
    rw [ShortMessage.isChannelVoice, ShortMessage.type, hm, ht]
    cases type <;> simp_all [isSystemCommon, isSystemRealTime, isChannelMessage]
  simp only [List.flatMap_singleton, Message.umps, ShortMessage.ump, hv, Bool.false_eq_true,
    if_false, hm, h1, h2, system, systemUmp, UInt8.and_assoc, UInt8.and_self]

theorem says_sysex7Complete (payload : List UInt8) :
    ∃ messages, Says (fun group => (sysex7Complete group payload).toList) messages := by
  by_cases hl : payload.length > sysex7Data64MaxPayloadSize
  · exact ⟨[], fun group => by simp [sysex7Complete, sysex7CompleteUmp, hl]⟩
  · have hdata : ∀ b ∈ payload.map (· &&& midiDataByteMask), b < midiStatusMin := by
      intro b hb
      obtain ⟨c, -, rfl⟩ := List.mem_map.mp hb
      exact masked_data
    refine ⟨[.sysEx _ hdata], fun group => ?_⟩
    have hchunks : chunks sysex7Data64MaxPayloadSize (payload.map (· &&& midiDataByteMask)) =
        [payload.map (· &&& midiDataByteMask)] := chunks_of_le (by simpa using hl)
    simp only [sysex7Complete, sysex7CompleteUmp, hl, if_false, Option.toList_some,
      List.flatMap_singleton, Message.umps, sysex7Packets, hchunks, packetsFrom,
      List.isEmpty_nil, chunkStatus, sysex7Packet_masked]
    rw [sysex7Packet, sysex7Packet, writePayloadFrom_masked, List.length_map]

theorem says_controlChanges (values : List (UInt8 × UInt8)) :
    ∃ messages, Says (fun group => values.map fun v => controlChange group channel v.1 v.2)
      messages := by
  induction values with
  | nil => exact ⟨[], fun group => rfl⟩
  | cons v rest ih =>
    obtain ⟨ys, hy⟩ := ih
    obtain ⟨xs, hx⟩ := @says_channelVoice _ .controlChange channel v.1 v.2 rfl ⟨fun h => absurd h (by decide), fun h => absurd h (by decide)⟩
    exact ⟨xs ++ ys, hx.append hy⟩

omit [Zephyr] in
theorem Trimmed.two (h : dataCount type = 2) : Trimmed type data1 data2 :=
  ⟨fun hd => by omega, fun hd => by omega⟩

omit [Zephyr] in
theorem Trimmed.one (h : dataCount type = 1) : Trimmed type data1 0 :=
  ⟨fun hd => by omega, fun _ => rfl⟩

omit [Zephyr] in
theorem Trimmed.none : Trimmed type 0 0 := ⟨fun _ => rfl, fun _ => rfl⟩

theorem exists_messages (request : Request) :
    ∃ messages, Says (fun group => request.packets group) messages := by
  cases request with
  | noteOn | polyAfterTouch | controlChange | pitchBend => exact says_channelVoice rfl (.two rfl)
  | noteOff channel note velocity asNoteOn =>
    cases asNoteOn with
    | true => exact @says_channelVoice _ .noteOn _ _ _ rfl (.two rfl)
    | false => exact @says_channelVoice _ .noteOff _ _ _ rfl (.two rfl)
  | programChange | channelAfterTouch => exact says_channelVoice rfl (.one rfl)
  | controlChange14Bit channel number value => exact says_controlChanges [(_, _), (_, _)]
  | timeCodeQuarterFrame | timeCodeQuarterFrameOf | songSelect =>
    exact says_system (.inl rfl) (.one rfl)
  | songPosition => exact says_system (.inl rfl) (.two rfl)
  | tuneRequest => exact says_system (.inl rfl) .none
  | timingClock | start | continuePlayback | stop | activeSensing | systemReset =>
    exact says_system (.inr rfl) .none
  | sysex7Complete payload => exact says_sysex7Complete payload
  | mmc type deviceId =>
    exact says_sysex7Complete [mmcAllCallDeviceId, deviceId, mmcSubId, type.toByte]
  | nrpn7Bit channel parameter value => exact says_controlChanges [(_, _), (_, _), (_, _)]
  | nrpn14Bit channel parameter value =>
    exact says_controlChanges [(_, _), (_, _), (_, _), (_, _)]

/-- What the calls build, and what they would build in the receive group. -/
theorem exists_messages_all (requests : List (UInt8 × Request)) :
    ∃ messages : List (UInt8 × Message), (∀ m ∈ messages, m.1 < 16) ∧
      requests.flatMap (fun r => r.2.packets r.1) = messages.flatMap (fun m => m.2.umps m.1) ∧
      requests.flatMap (fun r => r.2.packets defaultRxGroup) =
        messages.flatMap (·.2.umps defaultRxGroup) := by
  induction requests with
  | nil => exact ⟨[], by simp, rfl, rfl⟩
  | cons r rest ih =>
    obtain ⟨ys, hlt, hsent, hheard⟩ := ih
    obtain ⟨xs, hx⟩ := exists_messages r.2
    simp only [Says] at hx
    refine ⟨xs.map (fun m => (r.1 &&& lowNibbleMask, m)) ++ ys, ?_, ?_, ?_⟩
    · intro m hm
      rcases List.mem_append.mp hm with hm | hm
      · obtain ⟨x, -, rfl⟩ := List.mem_map.mp hm
        exact masked_lt
      · exact hlt m hm
    · rw [List.flatMap_cons, List.flatMap_append, hsent, hx r.1, List.flatMap_map]
    · rw [List.flatMap_cons, List.flatMap_append, hheard, hx defaultRxGroup, List.flatMap_map]
      rfl

theorem sentBytes_messages (hz : Zephyr.Documented) {messages : List (UInt8 × Message)}
    (hg : ∀ m ∈ messages, m.1 < 16) :
    sentBytes (messages.flatMap fun m => m.2.umps m.1) = messages.flatMap (·.2.bytes) := by
  have hfrom : ∀ sent : List UInt8, (messages.flatMap fun m => m.2.umps m.1).foldl
      (fun sent packet => (serialWrite packet collect sent).2) sent =
        sent ++ messages.flatMap (·.2.bytes) := by
    induction messages with
    | nil => simp
    | cons m rest ih =>
      intro sent
      have hm := streamBytes_umps hz (hg m (by simp)) m.2
      rw [List.flatMap_cons, List.foldl_append, foldl_serialWrite hm,
        ih (fun m h => hg m (List.mem_cons_of_mem _ h)), List.flatMap_cons, List.append_assoc]
  exact hfrom []

theorem feed_bytes (messages : List (UInt8 × Message)) :
    (feed (Parser.parse defaultRxGroup) {} (messages.flatMap (·.2.bytes))).1 =
      messages.flatMap (·.2.umps defaultRxGroup) := by
  have hparse : Emits (Parser.parse defaultRxGroup) (Idle 0)
      ((messages.map Prod.snd).flatMap (·.bytes))
      ((messages.map Prod.snd).flatMap (·.umps defaultRxGroup)) (fun p => ∃ r, Idle r p) :=
    emits_transmitted (transmitted_flatMap none _) fun s hs => by cases hs
  rw [List.flatMap_map, List.flatMap_map] at hparse
  exact (hparse {} idle_initial).1

/-- What the parser at the far end of a serial line makes of the calls. -/
theorem feed_sentBytes (hz : Zephyr.Documented) (requests : List (UInt8 × Request)) :
    (feed (Parser.parse defaultRxGroup) {}
      (sentBytes (requests.flatMap fun r => r.2.packets r.1))).1 =
        requests.flatMap fun r => r.2.packets defaultRxGroup := by
  obtain ⟨messages, hlt, hsent, hheard⟩ := exists_messages_all requests
  rw [hsent, sentBytes_messages hz hlt, feed_bytes, hheard]

/-- Whatever the builders are called with, their packets reach the far end as they were built, but
in its receive group: over a serial line, and in the packets of a BLE connection. -/
theorem requests_carried (hz : Zephyr.Documented) (requests : List (UInt8 × Request)) :
    let packets := requests.flatMap fun r => r.2.packets r.1
    let heard := requests.flatMap fun r => r.2.packets defaultRxGroup
    (feed (Parser.parse defaultRxGroup) {} (sentBytes packets)).1 = heard ∧
      ∀ (env : BleEnv) (sender receiver : BleTransport), 3 ≤ env.capacity →
        (∀ n, env.accepts n = true) →
        let written := writeEach (BleTransport.write env) packets sender
        written.1 = true ∧ ∃ sent, written.2.sent = sender.sent ++ sent ∧
          { receiver.init with received := sent }.readAll env.capacity = heard := by
  intro packets heard
  refine ⟨feed_sentBytes hz requests, fun env sender receiver hc ha => ?_⟩
  intro written
  obtain ⟨messages, hlt, hsent, hheard⟩ := exists_messages_all requests
  have hwritten : writeEach (BleTransport.write env)
      (messages.flatMap fun m => m.2.umps m.1) sender = written := by rw [← hsent]
  obtain ⟨hok, parts, ps, hps, ⟨hf, hbytes⟩, hquiet⟩ := writeMessages_spec hz ha hc hlt sender
  rw [hwritten] at hok hps
  have hleft : Left env.capacity (messages.flatMap (·.2.bytes))
      { receiver.init with received := ps } :=
    ⟨[], parts, by rw [List.nil_append, hbytes], .inl ⟨rfl, rfl⟩, hf, trivial, hquiet⟩
  refine ⟨hok, ps, hps, ?_⟩
  rw [readAll_left hleft]
  exact (feed_bytes messages).trans hheard.symm

end Messages

/-- A stop command to device 16 and a pitch bend on the fifth channel, with arguments that are cut
to their fields; over BLE in packets of one MIDI byte each. -/
theorem requests_carried_stop :
    let env : BleEnv := ⟨3, fun n => 100 * n, fun _ => true⟩
    let requests : List (UInt8 × Request) := [(3, .mmc .mmcStop 0x90), (19, .pitchBend 20 0xFFFF)]
    let packets := requests.flatMap fun r => r.2.packets r.1
    let heard := requests.flatMap fun r => r.2.packets defaultRxGroup
    let written := writeEach (BleTransport.write env) packets {}
    heard = [sysex7Packet 0 .complete [0x7F, 0x10, 6, 1], midi1ChannelVoiceUmp 0 0xE4 0x7F 0x7F] ∧
      (feed (Parser.parse defaultRxGroup) {} (sentBytes packets)).1 = heard ∧
      written.1 = true ∧ ∃ sent, written.2.sent = sent ∧
        { BleTransport.init {} with received := sent }.readAll 3 = heard :=
  ⟨by decide +kernel, (requests_carried zephyrMidi_documented _).1,
    (requests_carried zephyrMidi_documented _).2 ⟨3, fun n => 100 * n, fun _ => true⟩ {} {}
      (by decide) fun _ => rfl⟩

/-- What a receiver holds: the last value of each controller, and the parameters that data entry
has set, by channel and number. -/
structure Receiver where
  controllers : UInt8 → UInt8 → UInt8
  parameters : UInt8 → Nat → Nat

namespace Receiver

/-- The parameter that the two NRPN controllers of the channel select. -/
def selected (r : Receiver) (channel : UInt8) : Nat :=
  (r.controllers channel nrpnMsbController).toNat * 128 +
    (r.controllers channel nrpnLsbController).toNat

def enter (r : Receiver) (channel : UInt8) (value : Nat → Nat) : Receiver :=
  let number := r.selected channel
  { r with
    parameters := Function.update r.parameters channel
      (Function.update (r.parameters channel) number (value (r.parameters channel number))) }

/-- A data entry controller sets the upper or the lower half of the selected parameter; the upper
one clears the lower. -/
def control (r : Receiver) (channel number value : UInt8) : Receiver :=
  let r := { r with
    controllers := Function.update r.controllers channel
      (Function.update (r.controllers channel) number value) }
  if number = dataEntryMsbController then r.enter channel fun _ => value.toNat * 128
  else if number = dataEntryLsbController then
    r.enter channel fun old => old / 128 * 128 + value.toNat
  else r

def hear [Zephyr] (r : Receiver) (packet : MidiUmp) : Receiver :=
  if umpMt packet = umpMtMidi1ChannelVoice ∧
      typeFromStatusByte (umpMidiStatus packet) = .controlChange then
    r.control (channelFromStatusByte (umpMidiStatus packet)) (umpMidi1P1 packet)
      (umpMidi1P2 packet)
  else r

end Receiver

/-- What a call means for the parameters: an NRPN call sets one of them, the others none. -/
def Request.sets (parameters : UInt8 → Nat → Nat) : Request → UInt8 → Nat → Nat
  | nrpn7Bit channel parameter value =>
    Function.update parameters ((channel &&& lowNibbleMask) + 1)
      (Function.update (parameters ((channel &&& lowNibbleMask) + 1)) (parameter.toNat % 2 ^ 14)
        (value.toNat % 128 * 128))
  | nrpn14Bit channel parameter value =>
    Function.update parameters ((channel &&& lowNibbleMask) + 1)
      (Function.update (parameters ((channel &&& lowNibbleMask) + 1)) (parameter.toNat % 2 ^ 14)
        (value.toNat % 2 ^ 14))
  | _ => parameters

/-- The controller, cut to seven bits, is not one for data entry. -/
def NoEntry (number : UInt8) : Prop :=
  number &&& midiDataByteMask ≠ dataEntryMsbController ∧
    number &&& midiDataByteMask ≠ dataEntryLsbController

/-- A plain control change of the call does not go to a data entry controller. -/
def Request.LeavesEntry : Request → Prop
  | controlChange _ number _ => NoEntry number
  | controlChange14Bit _ number _ =>
    NoEntry number.toUInt8 ∧ NoEntry (number + controlChangeLsbOffset).toUInt8
  | _ => True

/-- The two bytes of a value hold its lower fourteen bits. -/
theorem split14Bit_toNat (value : UInt16) :
    (split14Bit value).1.toNat = value.toNat / 128 % 128 ∧
      (split14Bit value).2.toNat = value.toNat % 128 := by
  have hhigh : ∀ (h : Fin 256) (odd : Bool),
      (if odd then UInt8.ofFin h <<< 1 &&& midiDataByteMask ||| 0x01
        else UInt8.ofFin h <<< 1 &&& midiDataByteMask &&& ~~~0x01).toNat =
        2 * h.val % 128 + odd.toNat := by decide +kernel
  have hlow : ∀ l : Fin 256, (UInt8.ofFin l &&& midiDataByteMask).toNat = l.val % 128 ∧
      (decide (UInt8.ofFin l >>> 7 &&& 0x01 ≠ 0)).toNat = l.val / 128 := by decide +kernel
  have hbytes : (value >>> 8 &&& 0xFF).toUInt8.toNat = value.toNat / 256 ∧
      (value &&& 0xFF).toUInt8.toNat = value.toNat % 256 := by
    have hv := value.toNat_lt
    have h255 : ∀ n : Nat, n &&& 255 = n % 256 := fun n => Nat.and_two_pow_sub_one_eq_mod n 8
    simp only [UInt16.toNat_toUInt8, UInt16.toNat_and, UInt16.toNat_shiftRight,
      UInt16.reduceToNat, Nat.reduceMod, Nat.shiftRight_eq_div_pow, h255]
    omega
  obtain ⟨hl, hodd⟩ := hlow (value &&& 0xFF).toUInt8.toFin
  have hh := hhigh (value >>> 8 &&& 0xFF).toUInt8.toFin
    (decide ((value &&& 0xFF).toUInt8 >>> 7 &&& 0x01 ≠ 0))
  have hfin : ∀ b : UInt8, (b.toFin : Nat) = b.toNat := fun b => rfl
  simp only [UInt8.ofFin_toFin, decide_eq_true_eq, hfin, hbytes] at hl hodd hh
  refine ⟨?_, ?_⟩
  · rw [split14Bit]
    simp only [hh, hodd]
    omega
  · rw [split14Bit]
    simp only [hl]
    omega

theorem split14Bit_lt (value : UInt16) :
    (split14Bit value).1 < midiStatusMin ∧ (split14Bit value).2 < midiStatusMin := by
  obtain ⟨h1, h2⟩ := split14Bit_toNat value
  simp only [UInt8.lt_iff_toNat_lt, h1, h2, show midiStatusMin.toNat = 128 from rfl]
  omega

namespace Receiver

variable {r : Receiver} {channel number value high low : UInt8}

theorem control_parameters (h6 : number ≠ dataEntryMsbController)
    (h38 : number ≠ dataEntryLsbController) :
    (r.control channel number value).parameters = r.parameters := by
  simp only [control, h6, h38, if_false]

theorem control_selected (h99 : number ≠ nrpnMsbController) (h98 : number ≠ nrpnLsbController) :
    (r.control channel number value).selected channel = r.selected channel := by
  have hc : (r.control channel number value).controllers = Function.update r.controllers channel
      (Function.update (r.controllers channel) number value) := by
    unfold control
    split_ifs <;> rfl
  simp only [selected, hc, Function.update_self, Function.update_of_ne h99.symm,
    Function.update_of_ne h98.symm]

/-- The parameter that the two controllers of an NRPN call select. -/
theorem selected_after : ((r.control channel nrpnMsbController high).control channel
    nrpnLsbController low).selected channel = high.toNat * 128 + low.toNat := by
  simp [selected, control, nrpnMsbController, nrpnLsbController, dataEntryMsbController,
    dataEntryLsbController]

theorem parameters_after : ((r.control channel nrpnMsbController high).control channel
    nrpnLsbController low).parameters = r.parameters := by
  rw [control_parameters (by decide) (by decide), control_parameters (by decide) (by decide)]

theorem control_msb : (r.control channel dataEntryMsbController value).parameters =
    Function.update r.parameters channel
      (Function.update (r.parameters channel) (r.selected channel) (value.toNat * 128)) := by
  simp [control, enter, selected, nrpnMsbController, nrpnLsbController, dataEntryMsbController]

theorem control_lsb : (r.control channel dataEntryLsbController value).parameters =
    Function.update r.parameters channel
      (Function.update (r.parameters channel) (r.selected channel)
        (r.parameters channel (r.selected channel) / 128 * 128 + value.toNat)) := by
  simp [control, enter, selected, nrpnMsbController, nrpnLsbController, dataEntryMsbController,
    dataEntryLsbController]

end Receiver

section Heard

variable [Zephyr] (hz : Zephyr.Documented)

include hz

theorem hear_controlChange {r : Receiver} {group channel number value : UInt8} (hg : group < 16) :
    r.hear (controlChange group channel number value) =
      r.control ((channel &&& lowNibbleMask) + 1) (number &&& midiDataByteMask)
        (value &&& midiDataByteMask) := by
  obtain ⟨hmt, -, hstatus, h1, h2⟩ := channelVoice_fields hz
    (MessageType.controlChange.toByte ||| channel &&& lowNibbleMask) number value hg
  have ht := @channelVoice_status .controlChange channel rfl
  have hch : channelFromStatusByte
      (MessageType.controlChange.toByte ||| channel &&& lowNibbleMask) =
        (channel &&& lowNibbleMask) + 1 := by
    have : ∀ c : Fin 256, channelFromStatusByte
        (MessageType.controlChange.toByte ||| UInt8.ofFin c &&& lowNibbleMask) =
          (UInt8.ofFin c &&& lowNibbleMask) + 1 := by decide +kernel
    exact this channel.toFin
  rw [Receiver.hear, controlChange, channelVoice, hmt, hstatus, h1, h2, ht, hch,
    if_pos ⟨rfl, rfl⟩]

theorem hear_channelVoice {r : Receiver} {type : MessageType} {group channel data1 data2 : UInt8}
    (hg : group < 16) (hc : isChannelMessage type) (hne : type ≠ .controlChange) :
    r.hear (channelVoice type group channel data1 data2) = r := by
  obtain ⟨-, -, hstatus, -, -⟩ := channelVoice_fields hz
    (type.toByte ||| channel &&& lowNibbleMask) data1 data2 hg
  rw [Receiver.hear, channelVoice, hstatus, channelVoice_status hc, if_neg fun h => hne h.2]

theorem hear_system {r : Receiver} {type : MessageType} {group data1 data2 : UInt8}
    (hg : group < 16) : r.hear (system type group data1 data2) = r := by
  obtain ⟨hmt, -⟩ := system_fields hz type.toByte data1 data2 hg
  have hne : umpMtSysRtCommon ≠ umpMtMidi1ChannelVoice := by
    rw [hz.sysRtCommon, hz.channelVoice]
    decide
  rw [Receiver.hear, system, hmt, if_neg fun h => hne h.1]

theorem hear_sysex7Complete {r : Receiver} {group : UInt8} {payload : List UInt8}
    (hg : group < 16) : (sysex7Complete group payload).toList.foldl Receiver.hear r = r := by
  by_cases hl : payload.length > sysex7Data64MaxPayloadSize
  · simp [sysex7Complete, sysex7CompleteUmp, hl]
  · have hmt := (sysex7Packet_fields hz (t := .complete) (not_lt.mp hl) hg).1
    have hne : umpMtData64 ≠ umpMtMidi1ChannelVoice := by
      rw [hz.data64, hz.channelVoice]
      decide
    simp only [sysex7Complete, sysex7CompleteUmp, hl, if_false, Option.toList_some,
      List.foldl_cons, List.foldl_nil]
    rw [Receiver.hear, hmt, if_neg fun h => hne h.1]

theorem hear_short {r : Receiver} {group channel number value : UInt8} (hg : group < 16)
    (hn : number < midiStatusMin) (hv : value < midiStatusMin) :
    r.hear (controlChange group channel number value) =
      r.control ((channel &&& lowNibbleMask) + 1) number value := by
  rw [hear_controlChange hz hg, and_data_of_lt hn, and_data_of_lt hv]

theorem hear_plain {r : Receiver} {group channel number value : UInt8} (hg : group < 16)
    (hn : NoEntry number) :
    (r.hear (controlChange group channel number value)).parameters = r.parameters := by
  rw [hear_controlChange hz hg, Receiver.control_parameters hn.1 hn.2]

/-- The two control changes that begin an NRPN call. -/
theorem hear_select {r : Receiver} {group channel : UInt8} {parameter : UInt16}
    (hg : group < 16) :
    let s := (r.hear (controlChange group channel nrpnMsbController (split14Bit parameter).1)).hear
      (controlChange group channel nrpnLsbController (split14Bit parameter).2)
    s.selected ((channel &&& lowNibbleMask) + 1) = parameter.toNat % 2 ^ 14 ∧
      s.parameters = r.parameters := by
  intro s
  obtain ⟨hhigh, hlow⟩ := split14Bit_lt parameter
  have hs : s = (r.control ((channel &&& lowNibbleMask) + 1) nrpnMsbController
      (split14Bit parameter).1).control ((channel &&& lowNibbleMask) + 1) nrpnLsbController
        (split14Bit parameter).2 := by
    simp only [s, hear_short hz hg (show nrpnMsbController < midiStatusMin by decide) hhigh,
      hear_short hz hg (show nrpnLsbController < midiStatusMin by decide) hlow]
  rw [hs]
  refine ⟨?_, Receiver.parameters_after⟩
  obtain ⟨h1, h2⟩ := split14Bit_toNat parameter
  rw [Receiver.selected_after, h1, h2]
  omega

theorem hear_nrpn7Bit {r : Receiver} {group channel value : UInt8} {parameter : UInt16}
    (hg : group < 16) :
    ((nrpn7Bit group channel parameter value).foldl Receiver.hear r).parameters =
      (Request.nrpn7Bit channel parameter value).sets r.parameters := by
  obtain ⟨hsel, hpar⟩ := @hear_select _ hz r group channel parameter hg
  have hv : (value &&& midiDataByteMask).toNat = value.toNat % 128 := by
    rw [UInt8.toNat_and]
    exact Nat.and_two_pow_sub_one_eq_mod value.toNat 7
  simp only [nrpn7Bit, List.foldl_cons, List.foldl_nil, Request.sets]
  rw [hear_controlChange hz hg, and_data_of_lt (by decide), Receiver.control_msb, hsel, hpar, hv]

theorem hear_nrpn14Bit {r : Receiver} {group channel : UInt8} {parameter value : UInt16}
    (hg : group < 16) :
    ((nrpn14Bit group channel parameter value).foldl Receiver.hear r).parameters =
      (Request.nrpn14Bit channel parameter value).sets r.parameters := by
  obtain ⟨hsel, hpar⟩ := @hear_select _ hz r group channel parameter hg
  obtain ⟨hhigh, hlow⟩ := split14Bit_lt value
  obtain ⟨h1, h2⟩ := split14Bit_toNat value
  simp only [nrpn14Bit, List.foldl_cons, List.foldl_nil, Request.sets]
  rw [hear_short hz hg (by decide) hlow, Receiver.control_lsb, hear_short hz hg (by decide) hhigh,
    Receiver.control_selected (by decide) (by decide), hsel, Receiver.control_msb, hsel, hpar, h1,
    h2]
  -- The second data entry keeps the upper half that the first one has set.
  simp only [Function.update_self, Function.update_idem]
  congr 2
  omega

/-- What a receiver's parameters become by the packets of one call. -/
theorem hear_packets {request : Request} (h : request.LeavesEntry) (r : Receiver)
    {group : UInt8} (hg : group < 16) :
    ((request.packets group).foldl Receiver.hear r).parameters = request.sets r.parameters := by
  cases request with
  | noteOn | programChange | polyAfterTouch | channelAfterTouch | pitchBend =>
    exact congrArg _ (hear_channelVoice hz hg rfl (by decide))
  | noteOff channel note velocity asNoteOn =>
    cases asNoteOn with
    | true => exact congrArg _ (@hear_channelVoice _ hz _ .noteOn _ _ _ _ hg rfl (by decide))
    | false => exact congrArg _ (@hear_channelVoice _ hz _ .noteOff _ _ _ _ hg rfl (by decide))
  | controlChange channel number value => exact hear_plain hz hg h
  | controlChange14Bit channel number value =>
    exact (hear_plain hz hg h.2).trans (hear_plain hz hg h.1)
  | tuneRequest | timeCodeQuarterFrame | timeCodeQuarterFrameOf | songPosition | songSelect
  | timingClock | start | continuePlayback | stop | activeSensing | systemReset =>
    exact congrArg _ (hear_system hz hg)
  | sysex7Complete payload => exact congrArg _ (hear_sysex7Complete hz hg)
  | mmc type deviceId =>
    exact congrArg _ (@hear_sysex7Complete _ hz r group
      [mmcAllCallDeviceId, deviceId, mmcSubId, type.toByte] hg)
  | nrpn7Bit channel parameter value => exact hear_nrpn7Bit hz hg
  | nrpn14Bit channel parameter value => exact hear_nrpn14Bit hz hg

theorem hear_all {requests : List (UInt8 × Request)} (h : ∀ r ∈ requests, r.2.LeavesEntry)
    (r : Receiver) :
    ((requests.flatMap fun r => r.2.packets defaultRxGroup).foldl Receiver.hear r).parameters =
      requests.foldl (fun parameters r => r.2.sets parameters) r.parameters := by
  induction requests generalizing r with
  | nil => rfl
  | cons q rest ih =>
    rw [List.flatMap_cons, List.foldl_append, ih (fun q hq => h q (List.mem_cons_of_mem _ hq)),
      hear_packets hz (h q (by simp)) r (by decide), List.foldl_cons]

/-- The parameters of a receiver at the far end of a serial line follow the NRPN calls, each of
which selects its parameter anew: any other calls may stand between them, to any channels, as long
as no plain control change goes to a data entry controller. -/
theorem parameters_follow {requests : List (UInt8 × Request)}
    (h : ∀ r ∈ requests, r.2.LeavesEntry) (receiver : Receiver) :
    let bytes := sentBytes (requests.flatMap fun r => r.2.packets r.1)
    ((feed (Parser.parse defaultRxGroup) {} bytes).1.foldl Receiver.hear receiver).parameters =
      requests.foldl (fun parameters r => r.2.sets parameters) receiver.parameters := by
  intro bytes
  rw [feed_sentBytes hz requests, hear_all hz h]

end Heard

/-- Two parameters of one number on two channels, a note between them and another selection after
them. -/
theorem parameters_follow_two :
    let requests : List (UInt8 × Request) := [(0, .nrpn14Bit 0 300 5000), (5, .noteOn 1 60 100),
      (2, .nrpn7Bit 1 300 9), (0, .controlChange 0 99 1)]
    let bytes := sentBytes (requests.flatMap fun r => r.2.packets r.1)
    let heard := (feed (Parser.parse defaultRxGroup) {} bytes).1.foldl Receiver.hear
      ⟨fun _ _ => 0, fun _ _ => 0⟩
    heard.parameters 1 300 = 5000 ∧ heard.parameters 2 300 = 1152 := by
  intro requests bytes heard
  have h : heard.parameters = _ := @parameters_follow _ zephyrMidi_documented
    requests (by simp [requests, Request.LeavesEntry, NoEntry]; decide) _
  rw [h]
  decide +kernel

end Zlibs.Midi.Midi1
