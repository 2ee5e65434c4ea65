import Zlibs.Midi.Bytes

/-! What the fields of a packet read back as, for every function that builds one. -/
namespace Zlibs.Midi
open Lib

variable {packet : MidiUmp} {group status data1 data2 data : UInt8} {i j size k : Nat}

theorem and_data_of_lt (h : data < midiStatusMin) : data &&& midiDataByteMask = data := by
  have : ∀ d : Fin 256, UInt8.ofFin d < midiStatusMin →
      UInt8.ofFin d &&& midiDataByteMask = UInt8.ofFin d := by decide +kernel
  exact this data.toFin h

theorem and_nibble_of_lt (h : group < 16) : group &&& lowNibbleMask = group := by
  have : ∀ d : Fin 256, UInt8.ofFin d < 16 →
      UInt8.ofFin d &&& lowNibbleMask = UInt8.ofFin d := by decide +kernel
  exact this group.toFin h

theorem read_write_same (hi : i < 6) :
    readSysex7PayloadByte (writeSysex7PayloadByte packet i data) i =
      readSysex7PayloadByte packet i ||| data &&& midiDataByteMask := by
  apply UInt8.toBitVec_inj.mp
  ext b hb
  simp only [writeSysex7PayloadByte, readSysex7PayloadByte, payloadShift, midiDataByteMask,
    sysex7Data64FirstWordPayloadSize, sysex7Data64MaxPayloadSize]
  interval_cases i <;> simp <;> interval_cases b <;> simp

theorem read_write_other (hi : i < 6) (hj : j < 6) (h : i ≠ j) :
    readSysex7PayloadByte (writeSysex7PayloadByte packet i data) j =
      readSysex7PayloadByte packet j := by
  apply UInt8.toBitVec_inj.mp
  ext b hb
  simp only [writeSysex7PayloadByte, readSysex7PayloadByte, payloadShift, midiDataByteMask,
    sysex7Data64FirstWordPayloadSize, sysex7Data64MaxPayloadSize]
  interval_cases i <;> interval_cases j <;> simp at h ⊢ <;> interval_cases b <;> simp

theorem write_upper (hi : i < 6) :
    (writeSysex7PayloadByte packet i data).data0 >>> 16 = packet.data0 >>> 16 := by
  apply UInt32.toBitVec_inj.mp
  ext b hb
  simp only [writeSysex7PayloadByte, payloadShift, midiDataByteMask,
    sysex7Data64FirstWordPayloadSize, sysex7Data64MaxPayloadSize]
  interval_cases i <;> simp <;> interval_cases b <;> simp

theorem writePayloadFrom_upper {xs : List UInt8} (h : k + xs.length ≤ 6) :
    (writePayloadFrom packet k xs).data0 >>> 16 = packet.data0 >>> 16 := by
  induction xs generalizing packet k with
  | nil => rfl
  | cons x rest ih =>
    rw [List.length_cons] at h
    rw [writePayloadFrom, ih (by omega), write_upper (by omega)]

theorem read_writePayloadFrom {x : List UInt8} (h : k + x.length ≤ 6) (hj : j < 6) :
    readSysex7PayloadByte (writePayloadFrom packet k x) j =
      readSysex7PayloadByte packet j |||
        (if k ≤ j then x.getD (j - k) 0 else 0) &&& midiDataByteMask := by
  induction x generalizing packet k with
  | nil => simp [writePayloadFrom]
  | cons b rest ih =>
    rw [List.length_cons] at h
    rw [writePayloadFrom, ih (by omega)]
    by_cases he : k = j
    · subst he
      simp [read_write_same (i := k) (by omega)]
    · rw [read_write_other (by omega) hj he]
      by_cases hk : k ≤ j
      · have hs : j - k = j - (k + 1) + 1 := by omega
        simp [hk, hs, show k + 1 ≤ j by omega]
      · simp [hk, show ¬ k + 1 ≤ j by omega]

/-- The fields of a packet other than its payload depend on the upper half of the first word. -/
theorem shift_upper (word : UInt32) :
    word >>> 28 = word >>> 16 >>> 12 ∧ word >>> 24 = word >>> 16 >>> 8 ∧
      word >>> 20 = word >>> 16 >>> 4 := by
  refine ⟨?_, ?_, ?_⟩ <;> apply UInt32.toBitVec_inj.mp <;> ext b hb <;>
    simp

/-- A channel voice word puts the two nibbles of the status next to each other. -/
theorem channel_word {mt : UInt32} : mt <<< 28 ||| (group &&& lowNibbleMask).toUInt32 <<< 24 |||
      ((status &&& highNibbleMask) >>> 4).toUInt32 <<< 20 |||
      (status &&& lowNibbleMask).toUInt32 <<< 16 |||
      (data1 &&& midiDataByteMask).toUInt32 <<< 8 ||| (data2 &&& midiDataByteMask).toUInt32 =
    mt <<< 28 ||| (group &&& lowNibbleMask).toUInt32 <<< 24 ||| status.toUInt32 <<< 16 |||
      (data1 &&& midiDataByteMask).toUInt32 <<< 8 ||| (data2 &&& midiDataByteMask).toUInt32 := by
  apply UInt32.toBitVec_inj.mp
  ext b hb
  simp only [lowNibbleMask, highNibbleMask, midiDataByteMask]
  interval_cases b <;> simp

theorem message_word {mt : UInt32} (hm : mt = 1 ∨ mt = 2) (hg : group < 16) :
    let word := mt <<< 28 ||| (group &&& lowNibbleMask).toUInt32 <<< 24 |||
      status.toUInt32 <<< 16 |||
      (data1 &&& midiDataByteMask).toUInt32 <<< 8 ||| (data2 &&& midiDataByteMask).toUInt32
    word >>> 28 = mt ∧ (word >>> 24 &&& 0xF).toUInt8 = group ∧
      (word >>> 16 &&& 0xFF).toUInt8 = status ∧
      (word >>> 8 &&& 0x7F).toUInt8 = data1 &&& midiDataByteMask ∧
      (word &&& 0x7F).toUInt8 = data2 &&& midiDataByteMask := by
  simp only [lowNibbleMask, midiDataByteMask]
  refine ⟨?_, ?_, ?_, ?_, ?_⟩
  · apply UInt32.toBitVec_inj.mp
    ext b hb
    cases hm <;> subst mt <;> interval_cases b <;> simp
  · rw [← and_nibble_of_lt hg]
    apply UInt8.toBitVec_inj.mp
    ext b hb
    interval_cases b <;> simp [lowNibbleMask]
  all_goals
    apply UInt8.toBitVec_inj.mp
    ext b hb
    interval_cases b <;> simp

section Built

variable [Zephyr] (hz : Zephyr.Documented)

include hz

theorem header_mt {t : SysEx7Status} : sysex7Header group t size >>> 28 = 0x3 := by
  rw [sysex7Header, hz.data64]
  apply UInt32.toBitVec_inj.mp
  ext b hb
  simp [lowNibbleMask]
  interval_cases b <;> simp

theorem header_group {t : SysEx7Status} (hg : group < 16) :
    (sysex7Header group t size >>> 24 &&& 0xF).toUInt8 = group := by
  rw [← and_nibble_of_lt hg, sysex7Header, hz.data64]
  apply UInt8.toBitVec_inj.mp
  ext b hb
  simp [lowNibbleMask]
  interval_cases b <;> simp

theorem header_status {t : SysEx7Status} :
    (sysex7Header group t size >>> 20 &&& 0xF).toUInt8 = t.toByte := by
  rw [sysex7Header, hz.data64]
  apply UInt8.toBitVec_inj.mp
  ext b hb
  cases t <;> simp [lowNibbleMask, SysEx7Status.toByte] <;> interval_cases b <;> simp

theorem header_size {t : SysEx7Status} (hs : size ≤ 6) :
    (sysex7Header group t size >>> 16 &&& 0xF) = UInt32.ofNat size := by
  rw [sysex7Header, hz.data64]
  apply UInt32.toBitVec_inj.mp
  ext b hb
  interval_cases size <;> simp [lowNibbleMask] <;> interval_cases b <;> simp

theorem sysex7Packet_fields {t : SysEx7Status} {payload : List UInt8}
    (hl : payload.length ≤ 6) (hg : group < 16) :
    umpMt (sysex7Packet group t payload) = umpMtData64 ∧
      umpGroup (sysex7Packet group t payload) = group ∧
      sysex7StatusNibble (sysex7Packet group t payload) = t.toByte ∧
      sysex7PayloadSize (sysex7Packet group t payload) = payload.length := by
  obtain ⟨h28, h24, h20⟩ := shift_upper (sysex7Packet group t payload).data0
  obtain ⟨g28, g24, g20⟩ := shift_upper (sysex7Header group t payload.length)
  have hu : (sysex7Packet group t payload).data0 >>> 16 =
      sysex7Header group t payload.length >>> 16 := writePayloadFrom_upper (by omega)
  refine ⟨?_, ?_, ?_, ?_⟩
  · rw [hz.mt, hz.data64, h28, hu, ← g28, header_mt hz]
  · rw [hz.group, h24, hu, ← g24, header_group hz hg]
  · rw [sysex7StatusNibble, h20, hu, ← g20, header_status hz]
  · rw [sysex7PayloadSize, hu, header_size hz hl]
    simp only [UInt32.toNat_ofNat']
    omega

theorem sysex7Packet_status {t : SysEx7Status} {payload : List UInt8}
    (hl : payload.length ≤ 6) (hg : group < 16) :
    sysex7Status (sysex7Packet group t payload) = t := by
  obtain ⟨_, _, hn, _⟩ := sysex7Packet_fields hz (t := t) hl hg
  unfold sysex7Status
  rw [hn]
  cases t <;> rfl

theorem sysex7Packet_isSysex7 {t : SysEx7Status} {payload : List UInt8}
    (hl : payload.length ≤ 6) (hg : group < 16) :
    isSysex7Packet (sysex7Packet group t payload) = true := by
  obtain ⟨hm, _, hn, hs⟩ := sysex7Packet_fields hz (t := t) hl hg
  have hle : t.toByte ≤ SysEx7Status.end.toByte := by cases t <;> decide
  simp [isSysex7Packet, hm, hn, hs, hle, sysex7Data64MaxPayloadSize, hl]

theorem read_header {t : SysEx7Status} (hj : j < 6) :
    readSysex7PayloadByte { data0 := sysex7Header group t size } j = 0 := by
  rw [sysex7Header, hz.data64]
  apply UInt8.toBitVec_inj.mp
  ext b hb
  simp only [readSysex7PayloadByte, payloadShift, midiDataByteMask, lowNibbleMask,
    sysex7Data64FirstWordPayloadSize, sysex7Data64MaxPayloadSize]
  interval_cases j <;> simp; interval_cases b <;> simp

theorem sysex7Packet_payload {t : SysEx7Status} {payload : List UInt8}
    (hl : payload.length ≤ 6) :
    (List.range payload.length).map (readSysex7PayloadByte (sysex7Packet group t payload)) =
      payload.map (· &&& midiDataByteMask) := by
  apply List.ext_getElem (by simp)
  intro j hj _
  simp only [List.length_map, List.length_range] at hj
  simp [sysex7Packet, read_writePayloadFrom (k := 0) (x := payload) (by omega)
    (show j < 6 by omega), read_header hz (show j < 6 by omega), hj]

theorem channelVoice_fields (status data1 data2 : UInt8) (hg : group < 16) :
    umpMt (midi1ChannelVoiceUmp group status data1 data2) = umpMtMidi1ChannelVoice ∧
      umpGroup (midi1ChannelVoiceUmp group status data1 data2) = group ∧
      umpMidiStatus (midi1ChannelVoiceUmp group status data1 data2) = status ∧
      umpMidi1P1 (midi1ChannelVoiceUmp group status data1 data2) = data1 &&& midiDataByteMask ∧
      umpMidi1P2 (midi1ChannelVoiceUmp group status data1 data2) =
        data2 &&& midiDataByteMask := by
  rw [hz.mt, hz.group, hz.midiStatus, hz.midi1P1, hz.midi1P2, hz.channelVoice,
    midi1ChannelVoiceUmp, hz.channelVoice]
  simpa only [channel_word] using message_word (.inr rfl) hg

theorem system_fields (status data1 data2 : UInt8) (hg : group < 16) :
    umpMt (systemUmp group status data1 data2) = umpMtSysRtCommon ∧
      umpGroup (systemUmp group status data1 data2) = group ∧
      umpMidiStatus (systemUmp group status data1 data2) = status ∧
      umpMidi1P1 (systemUmp group status data1 data2) = data1 &&& midiDataByteMask ∧
      umpMidi1P2 (systemUmp group status data1 data2) = data2 &&& midiDataByteMask := by
  rw [hz.mt, hz.group, hz.midiStatus, hz.midi1P1, hz.midi1P2, hz.sysRtCommon, systemUmp,
    hz.sysRtCommon]
  exact message_word (.inl rfl) hg

end Built

end Zlibs.Midi
