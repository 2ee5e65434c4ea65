import Zlibs.Midi.Messages

/-! The bytes the packets of a message are written as. -/
namespace Zlibs.Midi
open Lib

variable [Zephyr] {group : UInt8} {packets ps qs : List MidiUmp} {bytes xs ys : List UInt8}

/-- The bytes of packets written one after the other, where each of them can be written. -/
def streamBytes (group : UInt8) : List MidiUmp → Option (List UInt8)
  | [] => some []
  | packet :: rest => do
    let bytes ← midi1Bytes packet group
    let more ← streamBytes group rest
    return bytes ++ more

@[simp] theorem streamBytes_nil : streamBytes group [] = some [] := rfl

theorem streamBytes_cons {packet : MidiUmp} (hp : midi1Bytes packet group = some xs)
    (hr : streamBytes group packets = some ys) :
    streamBytes group (packet :: packets) = some (xs ++ ys) := by
  simp [streamBytes, hp, hr]

theorem exists_of_streamBytes_cons {packet : MidiUmp}
    (h : streamBytes group (packet :: packets) = some bytes) :
    ∃ first rest, midi1Bytes packet group = some first ∧ streamBytes group packets = some rest ∧
      bytes = first ++ rest := by
  cases hm : midi1Bytes packet group with
  | none => simp [streamBytes, hm] at h
  | some first =>
    cases hr : streamBytes group packets with
    | none => simp [streamBytes, hm, hr] at h
    | some rest =>
      simp only [streamBytes, hm, hr] at h
      cases h
      exact ⟨first, rest, rfl, rfl, rfl⟩

theorem streamBytes_append (hp : streamBytes group ps = some xs)
    (hq : streamBytes group qs = some ys) : streamBytes group (ps ++ qs) = some (xs ++ ys) := by
  induction ps generalizing xs with
  | nil =>
    cases hp
    simpa using hq
  | cons p rest ih =>
    obtain ⟨bs, cs, hm, hr, rfl⟩ := exists_of_streamBytes_cons hp
    simpa using streamBytes_cons hm (ih hr)

section Documented

variable (hz : Zephyr.Documented) (hg : group < 16)

include hz hg

theorem midi1Bytes_ump (m : ShortMessage) : midi1Bytes (m.ump group) group = some m.bytes := by
  have hd1 : m.data1 &&& midiDataByteMask = m.data1 := and_data_of_lt m.data1_lt
  have hd2 : m.data2 &&& midiDataByteMask = m.data2 := and_data_of_lt m.data2_lt
  have hmt : umpMtSysRtCommon ≠ umpMtMidi1ChannelVoice := by
    rw [hz.sysRtCommon, hz.channelVoice]
    decide
  obtain ⟨hm, hgr, hs, h1, h2⟩ := channelVoice_fields hz m.status m.data1
    m.data2 hg
  obtain ⟨sm, sg, ss, s1, s2⟩ := system_fields hz m.status m.data1 m.data2 hg
  have known := m.known
  unfold ShortMessage.bytes ShortMessage.dataBytes ShortMessage.ump ShortMessage.isChannelVoice
    ShortMessage.type
  cases ht : typeFromStatusByte m.status <;>
    simp_all [midi1Bytes, isChannelMessage, isSystemCommon, isSystemRealTime, dataCount]

theorem midi1Bytes_sysex7Packet {t : SysEx7Status} {payload : List UInt8}
    (hl : payload.length ≤ 6) (hd : ∀ b ∈ payload, b < midiStatusMin) :
    midi1Bytes (sysex7Packet group t payload) group =
      some ((if sysex7StartsMessage t then [sysExStart] else []) ++ payload ++
        (if sysex7EndsMessage t then [sysExEnd] else [])) := by
  obtain ⟨hm, hgr, _, hsize⟩ := sysex7Packet_fields hz (t := t) hl hg
  have hmask : payload.map (· &&& midiDataByteMask) = payload := by
    rw [List.map_congr_left fun b hb => and_data_of_lt (hd b hb), List.map_id']
  have h3 : umpMtData64 ≠ umpMtMidi1ChannelVoice ∧ umpMtData64 ≠ umpMtSysRtCommon := by
    rw [hz.sysRtCommon, hz.channelVoice, hz.data64]
    decide
  simp [midi1Bytes, hm, hgr, h3, sysex7Packet_isSysex7 hz hl hg, sysex7Packet_status hz hl hg,
    hsize, sysex7Packet_payload hz hl, hmask]

theorem streamBytes_packetsFrom {f : Bool} {cs : List (List UInt8)} (hne : cs ≠ [])
    (hl : ∀ c ∈ cs, c.length ≤ 6) (hd : ∀ c ∈ cs, ∀ b ∈ c, b < midiStatusMin) :
    streamBytes group (packetsFrom group f cs) =
      some ((if f then [sysExStart] else []) ++ cs.flatten ++ [sysExEnd]) := by
  induction cs generalizing f with
  | nil => exact absurd rfl hne
  | cons c rest ih =>
    have hc := midi1Bytes_sysex7Packet hz hg (t := chunkStatus f rest.isEmpty)
      (hl c (by simp)) (hd c (by simp))
    cases rest with
    | nil =>
      simp only [packetsFrom, streamBytes_cons hc streamBytes_nil]
      cases f <;> simp [chunkStatus, sysex7StartsMessage, sysex7EndsMessage]
    | cons d more =>
      have hr := ih (f := false) (by simp) (fun c h => hl c (by simp [h]))
        (fun c h => hd c (by simp [h]))
      rw [packetsFrom, streamBytes_cons hc hr]
      cases f <;> simp [chunkStatus, sysex7StartsMessage, sysex7EndsMessage]

theorem streamBytes_umps (m : Message) : streamBytes group (m.umps group) = some m.bytes := by
  cases m with
  | short m => simpa [Message.bytes, Message.umps] using
      streamBytes_cons (midi1Bytes_ump hz hg m) streamBytes_nil
  | sysEx payload data =>
    have hn : 0 < sysex7Data64MaxPayloadSize := by decide
    rw [Message.umps, sysex7Packets, streamBytes_packetsFrom hz hg chunks_ne_nil
      (fun c hc => length_of_mem_chunks hn hc), chunks_flatten hn]
    · simp [Message.bytes]
    · intro c hc b hb
      refine data b ?_
      rw [← chunks_flatten hn (x := payload)]
      exact List.mem_flatten_of_mem hc hb

end Documented

/-- Writing packets one after the other hands the sink their bytes. -/
theorem writeEach_umps {σ : Type} {writeByte : UInt8 → StateM σ Bool} {s : σ}
    (h : streamBytes group packets = some bytes) :
    writeEach (fun packet => writeUmpAsMidi1Bytes packet group writeByte) packets s =
      writeEach writeByte bytes s := by
  induction packets generalizing bytes s with
  | nil =>
    cases h
    rfl
  | cons p rest ih =>
    obtain ⟨bs, cs, hm, hr, rfl⟩ := exists_of_streamBytes_cons h
    have hp : writeUmpAsMidi1Bytes p group writeByte = writeEach writeByte bs := by
      simp only [writeUmpAsMidi1Bytes, hm]
    rw [writeEach_cons, hp, ih hr]
    exact writeEach_append.symm

end Zlibs.Midi
