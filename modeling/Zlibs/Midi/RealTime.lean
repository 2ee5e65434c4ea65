import Zlibs.Midi.SerialRoundTrip
import Zlibs.Lib.Insertion

/-! Real-time messages inserted into a stream of MIDI 1 bytes. -/
namespace Zlibs.Midi
open Lib

def isRealTimeByte (data : UInt8) : Bool := isSystemRealTime (typeFromStatusByte data)

/-- Bytes that belong to a stream without real-time messages. -/
def isPlainByte (data : UInt8) : Bool := !isRealTimeByte data

def Message.isRealTime : Message → Bool
  | .short m => isSystemRealTime m.type
  | .sysEx _ _ => false

/-- No message has begun that is not complete. -/
def Busy (p : Parser) : Prop :=
  (∃ received expected, Awaiting received expected p) ∨ ∃ buffered multi, InSysex buffered multi p

section Stream

variable [Zephyr] {group running : UInt8} {bytes part : List UInt8} {os us : List MidiUmp}

def isRealTimeUmp (packet : MidiUmp) : Bool :=
  umpMt packet = umpMtSysRtCommon ∧ isRealTimeByte (umpMidiStatus packet)

/-- The packets of the real-time messages among some bytes. -/
def realTimeUmps (group : UInt8) (bytes : List UInt8) : List MidiUmp :=
  (bytes.filter isRealTimeByte).map fun status => systemUmp group status 0 0

/-- Packets `us` with those of the real-time messages among `bytes` mixed in. -/
def Mixture (group : UInt8) (bytes : List UInt8) (os us : List MidiUmp) : Prop :=
  os.filter isRealTimeUmp = realTimeUmps group bytes ∧
    os.filter (fun packet => !isRealTimeUmp packet) = us

theorem Mixture.append {bytes' : List UInt8} {os' us' : List MidiUmp}
    (h : Mixture group bytes os us) (h' : Mixture group bytes' os' us') :
    Mixture group (bytes ++ bytes') (os ++ os') (us ++ us') := by
  constructor
  · simp [realTimeUmps, h.1, h'.1]
  · simp [h.2, h'.2]

theorem Mixture.plain (ho : ∀ u ∈ us, isRealTimeUmp u = false)
    (hb : ∀ b ∈ bytes, isPlainByte b = true) : Mixture group bytes us us := by
  have hf : us.filter isRealTimeUmp = [] := List.filter_eq_nil_iff.mpr fun u hu => by simp [ho u hu]
  have hn : bytes.filter isRealTimeByte = [] :=
    List.filter_eq_nil_iff.mpr fun b hb' => by simpa [isPlainByte] using hb b hb'
  have hs : us.filter (fun packet => !isRealTimeUmp packet) = us :=
    List.filter_eq_self.mpr fun u hu => by simp [ho u hu]
  exact ⟨by simp [realTimeUmps, hf, hn], hs⟩

theorem emits_realTime (hb : ∀ b ∈ bytes, isRealTimeByte b = true) :
    Emits (Parser.parse group) (Idle running) bytes (realTimeUmps group bytes) (Idle running) := by
  induction bytes with
  | nil => exact Emits.nil
  | cons b rest ih =>
    have hk : isRealTimeByte b = true := hb b (by simp)
    obtain ⟨hs, hn, _⟩ := known_status (.inr (.inr hk))
    have hu : realTimeUmps group (b :: rest) =
        [systemUmp group b 0 0] ++ realTimeUmps group rest := by
      simp [realTimeUmps, hk]
    rw [hu]
    exact (emits_single hs hn (.inl hk)).cons (ih fun b h => hb b (by simp [h]))

/-- Outside any message, without a running status, only real-time messages mean anything. -/
theorem emits_noises (hb : ∀ b ∈ bytes, isPlainByte b = true →
      b < midiStatusMin ∨ b = sysExEnd) :
    Emits (Parser.parse group) (Idle 0) bytes (realTimeUmps group bytes) (Idle 0) := by
  induction bytes with
  | nil => exact Emits.nil
  | cons b rest ih =>
    have hr := ih fun b h => hb b (by simp [h])
    by_cases hk : isRealTimeByte b = true
    · obtain ⟨hs, hn, _⟩ := known_status (.inr (.inr hk))
      have hu : realTimeUmps group (b :: rest) =
          [systemUmp group b 0 0] ++ realTimeUmps group rest := by
        simp [realTimeUmps, hk]
      rw [hu]
      exact (emits_single hs hn (.inl hk)).cons hr
    · have hu : realTimeUmps group (b :: rest) = [] ++ realTimeUmps group rest := by
        simp [realTimeUmps, hk]
      rw [hu]
      exact (emits_noise (hb b (by simp) (by simpa [isPlainByte] using hk))).cons hr

theorem emits_busy {status : UInt8} (hk : isRealTimeByte status = true) :
    Emits (Parser.parse group) Busy [status] [systemUmp group status 0 0] (Idle 0) := by
  intro p hp
  obtain ⟨received, expected, h⟩ | ⟨buffered, multi, h⟩ := hp
  · exact emits_interrupted hk p h
  · exact emits_sysExInterrupted hk p h

section Documented

variable (hz : Zephyr.Documented) (hg : group < 16)

include hz hg

theorem realTimeUmps_mixture : Mixture group bytes (realTimeUmps group bytes) [] := by
  have hr : ∀ u ∈ realTimeUmps group bytes, isRealTimeUmp u = true := by
    intro u hu
    simp only [realTimeUmps, List.mem_map, List.mem_filter] at hu
    obtain ⟨b, ⟨_, hb⟩, rfl⟩ := hu
    obtain ⟨hm, _, hs, _⟩ := system_fields hz b 0 0 hg
    simp [isRealTimeUmp, hm, hs, hb]
  exact ⟨List.filter_eq_self.mpr hr, List.filter_eq_nil_iff.mpr fun u hu => by simp [hr u hu]⟩

theorem ump_plain (m : ShortMessage) (h : isSystemRealTime m.type = false) :
    isRealTimeUmp (m.ump group) = false := by
  obtain ⟨hm, _, hs, _⟩ := system_fields hz m.status m.data1 m.data2 hg
  obtain ⟨hcm, _⟩ := channelVoice_fields hz m.status m.data1 m.data2 hg
  unfold ShortMessage.ump
  split
  · simp [isRealTimeUmp, hcm, hz.sysRtCommon, hz.channelVoice]
  · simp only [isRealTimeUmp, hm, hs, isRealTimeByte, decide_eq_false_iff_not, true_and]
    simpa [ShortMessage.type] using h

theorem sysex7Packet_plain {t : SysEx7Status} {payload : List UInt8} (hl : payload.length ≤ 6) :
    isRealTimeUmp (sysex7Packet group t payload) = false := by
  obtain ⟨hm, _⟩ := sysex7Packet_fields hz (t := t) hl hg
  simp [isRealTimeUmp, hm, hz.sysRtCommon, hz.data64]

theorem packetsFrom_plain {first : Bool} {cs : List (List UInt8)} (hl : ∀ c ∈ cs, c.length ≤ 6) :
    ∀ u ∈ packetsFrom group first cs, isRealTimeUmp u = false := by
  induction cs generalizing first with
  | nil => simp [packetsFrom]
  | cons c rest ih =>
    intro u hu
    rw [packetsFrom, List.mem_cons] at hu
    cases hu with
    | inl h => exact h ▸ sysex7Packet_plain hz hg (hl c (by simp))
    | inr h => exact ih (fun c hc => hl c (by simp [hc])) u h

theorem umps_plain (m : Message) (h : m.isRealTime = false) :
    ∀ u ∈ m.umps group, isRealTimeUmp u = false := by
  cases m with
  | short m => simpa [Message.umps] using ump_plain hz hg m h
  | sysEx payload data =>
    exact packetsFrom_plain hz hg fun c hc => length_of_mem_chunks (by decide) hc

end Documented

end Stream

end Zlibs.Midi
