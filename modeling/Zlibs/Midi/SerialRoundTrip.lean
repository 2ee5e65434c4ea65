import Zlibs.Midi.ParserSteps
import Zlibs.Midi.Written

/-! Packets written as MIDI 1 bytes and parsed back. -/
namespace Zlibs.Midi
open Lib

namespace ShortMessage

/-- The running status after a message: real-time messages and tune requests leave it alone. -/
def leaves (m : ShortMessage) (running : UInt8) : UInt8 :=
  if dataCount m.type = 0 then running else runningAfter m.status

variable {m : ShortMessage}

theorem single (h : dataCount m.type = 0) :
    isSystemRealTime m.type ∨ m.type = .sysCommonTuneRequest := by
  have known := m.known
  unfold type at h ⊢
  cases ht : typeFromStatusByte m.status <;>
    simp_all [dataCount, isChannelMessage, isSystemCommon, isSystemRealTime]

theorem channel_dataCount (hc : m.isChannelVoice) :
    dataCount m.type = 1 ∨ dataCount m.type = 2 := by
  unfold isChannelVoice at hc
  cases ht : m.type <;> simp_all [isChannelMessage, dataCount]

theorem data1_unused (h : dataCount m.type = 0) : m.data1 = 0 :=
  m.unused1 (Nat.lt_of_le_of_lt (Nat.le_of_eq h) (by decide))

theorem data2_unused (h : dataCount m.type = 1) : m.data2 = 0 :=
  m.unused2 (Nat.lt_of_le_of_lt (Nat.le_of_eq h) (by decide))

theorem runningAfter_channel (hc : m.isChannelVoice) : runningAfter m.status = m.status :=
  if_pos (channel_status.mp hc).2

theorem dataBytes_data (m : ShortMessage) : ∀ b ∈ m.dataBytes, b < midiStatusMin := by
  intro b hb
  have : b ∈ [m.data1, m.data2] := List.mem_of_mem_take hb
  simp only [List.mem_cons, List.not_mem_nil, or_false] at this
  cases this with
  | inl h => exact h ▸ m.data1_lt
  | inr h => exact h ▸ m.data2_lt

end ShortMessage

/-- The status byte the next message may leave out. -/
def Message.channelStatus : Message → Option UInt8
  | .short m => if m.isChannelVoice then some m.status else none
  | .sysEx _ _ => none

/-- The bytes of messages, where the status byte of a channel voice message may be left out when
the message directly before it is a channel voice message with the same status. -/
inductive Transmitted : Option UInt8 → List Message → List UInt8 → Prop
  | nil {before : Option UInt8} : Transmitted before [] []
  | whole {before : Option UInt8} (m : Message) {rest : List Message} {bytes : List UInt8}
      (h : Transmitted m.channelStatus rest bytes) :
      Transmitted before (m :: rest) (m.bytes ++ bytes)
  | running (m : ShortMessage) (hc : m.isChannelVoice) {rest : List Message}
      {bytes : List UInt8} (h : Transmitted (some m.status) rest bytes) :
      Transmitted (some m.status) (.short m :: rest) (m.dataBytes ++ bytes)

theorem transmitted_flatMap (before : Option UInt8) (messages : List Message) :
    Transmitted before messages (messages.flatMap (·.bytes)) := by
  induction messages generalizing before with
  | nil => exact .nil
  | cons m rest ih => exact .whole m (ih _)

/-- A byte sink that takes every byte. -/
def collect (data : UInt8) : StateM (List UInt8) Bool := fun sent => (true, sent ++ [data])

theorem writeEach_collect {sent bytes : List UInt8} :
    writeEach collect bytes sent = (true, sent ++ bytes) := by
  induction bytes generalizing sent with
  | nil => simp
  | cons b rest ih => simp [writeEach_cons, collect, ih]

theorem dataCount_le (type : MessageType) : dataCount type ≤ 2 := by
  cases type <;> decide

theorem leaves_channelStatus {m : ShortMessage} {status running : UInt8}
    (h : (Message.short m).channelStatus = some status) : m.leaves running = status := by
  simp only [Message.channelStatus, Option.ite_none_right_eq_some, Option.some.injEq] at h
  obtain ⟨hc, rfl⟩ := h
  have hd : dataCount m.type ≠ 0 := by
    obtain h | h := ShortMessage.channel_dataCount hc <;> simp [h]
  simp only [ShortMessage.leaves, hd, if_false]
  exact ShortMessage.runningAfter_channel hc

section Parsed

variable [Zephyr] {group running : UInt8} {payload buffered : List UInt8}

theorem shortUmp_eq (m : ShortMessage) :
    shortUmp group m.status m.data1 m.data2 = m.ump group := by
  obtain ⟨hs, _⟩ := known_status m.known
  unfold shortUmp ShortMessage.ump ShortMessage.isChannelVoice ShortMessage.type
  by_cases hc : isChannelMessage (typeFromStatusByte m.status) = true
  · simp [hc, (channel_status.mp hc).2]
  · simp [hc, system_status hc hs]

theorem single_ump {m : ShortMessage} (h : dataCount m.type = 0) :
    m.ump group = systemUmp group m.status 0 0 := by
  have hc : ¬ isChannelMessage m.type = true := by
    cases m.single h with
    | inl h => cases ht : m.type <;> simp_all [isSystemRealTime, isChannelMessage]
    | inr h => simp [h, isChannelMessage]
  have h2 : m.data2 = 0 := m.unused2 (Nat.lt_of_le_of_lt (Nat.le_of_eq h) (by decide))
  simp [ShortMessage.ump, ShortMessage.isChannelVoice, hc, ShortMessage.data1_unused h, h2]

/-- The data bytes of a message whose status byte has been read. -/
theorem emits_dataBytes (m : ShortMessage) (h : dataCount m.type ≠ 0) :
    Emits (Parser.parse group) (Awaiting [m.status] (dataCount m.type + 1)) m.dataBytes
      [m.ump group] (Idle (runningAfter m.status)) := by
  have hle := dataCount_le m.type
  rw [← shortUmp_eq]
  unfold ShortMessage.dataBytes
  obtain hc | hc : dataCount m.type = 1 ∨ dataCount m.type = 2 := by omega
  · rw [hc, ShortMessage.data2_unused hc]
    exact emits_last m.data1_lt rfl
  · rw [hc]
    exact (emits_more m.data1_lt (Nat.lt_succ_self 2)).cons (emits_last m.data2_lt rfl)

theorem emits_short (m : ShortMessage) :
    Emits (Parser.parse group) (Idle running) m.bytes [m.ump group] (Idle (m.leaves running)) := by
  obtain ⟨hs, hn, _⟩ := known_status m.known
  by_cases hc : dataCount m.type = 0
  · simp only [ShortMessage.bytes, ShortMessage.dataBytes, ShortMessage.leaves, hc,
      List.take_zero, if_true, single_ump hc]
    exact emits_single hs hn (m.single hc)
  · obtain ⟨n, hd⟩ := Nat.exists_eq_succ_of_ne_zero hc
    have hb : Emits (Parser.parse group) (Awaiting [m.status] (n + 2)) m.dataBytes
        [m.ump group] (Idle (runningAfter m.status)) := by
      have he : dataCount m.type + 1 = n + 2 := by rw [hd]
      exact he ▸ emits_dataBytes m hc
    simp only [ShortMessage.leaves, hc, if_false]
    exact (emits_begin hs hn hd).cons hb

/-- A channel voice message whose status byte is the running status. -/
theorem emits_running (m : ShortMessage) (hc : m.isChannelVoice) :
    Emits (Parser.parse group) (Idle m.status) m.dataBytes [m.ump group] (Idle m.status) := by
  have hr : runningAfter m.status = m.status := ShortMessage.runningAfter_channel hc
  rw [← shortUmp_eq]
  unfold ShortMessage.dataBytes
  obtain hd | hd := ShortMessage.channel_dataCount hc
  · have he : Emits (Parser.parse group) (Idle m.status) [m.data1]
        [shortUmp group m.status m.data1 0] (Idle (runningAfter m.status)) :=
      emits_running_whole m.data1_lt hc hd
    rw [hr] at he
    rw [hd, ShortMessage.data2_unused hd]
    exact he
  · have he : Emits (Parser.parse group) (Awaiting [m.status, m.data1] 3) [m.data2]
        [shortUmp group m.status m.data1 m.data2] (Idle (runningAfter m.status)) :=
      emits_last m.data2_lt rfl
    rw [hr] at he
    rw [hd]
    exact (emits_running_begin m.data1_lt hc hd).cons he

variable (group buffered) in
/-- Bytes of a SysEx message: the packets handed out so far are the first ones of the payload, the
bytes in the buffer begin the rest. -/
theorem emits_sysExBytes (data : ∀ b ∈ payload, b < midiStatusMin)
    (hl : buffered.length ≤ sysex7Data64MaxPayloadSize) (m : Bool) :
    ∃ os left n, Emits (Parser.parse group) (InSysex buffered m) payload os (InSysex left n) ∧
      left.length ≤ sysex7Data64MaxPayloadSize ∧
      ∀ rest, packetsFrom group (!m)
          (chunks sysex7Data64MaxPayloadSize (buffered ++ (payload ++ rest))) =
        os ++ packetsFrom group (!n) (chunks sysex7Data64MaxPayloadSize (left ++ rest)) := by
  induction payload generalizing buffered m with
  | nil => exact ⟨[], buffered, m, Emits.nil, hl, fun rest => rfl⟩
  | cons b more ih =>
    have hb := data b (by simp)
    have hmore : ∀ b ∈ more, b < midiStatusMin := fun b h => data b (by simp [h])
    obtain hlt | heq := Nat.lt_or_eq_of_le hl
    · obtain ⟨os, left, n, he, hleft, hp⟩ :=
        ih (buffered ++ [b]) hmore (by simpa using hlt) m
      exact ⟨os, left, n, (emits_sysExByte hb hlt).cons he, hleft,
        fun rest => by simpa using hp rest⟩
    · -- The seventh byte hands the full buffer out and is the first of the next packet.
      obtain ⟨os, left, n, he, hleft, hp⟩ := ih [b] hmore
        (by simp [sysex7Data64MaxPayloadSize]) true
      refine ⟨_, left, n, (emits_sysExFull hb heq).cons he, hleft, fun rest => ?_⟩
      have hd : (buffered ++ b :: (more ++ rest)).take sysex7Data64MaxPayloadSize = buffered ∧
          (buffered ++ b :: (more ++ rest)).drop sysex7Data64MaxPayloadSize =
            b :: (more ++ rest) := by
        rw [← heq]
        simp
      rw [List.cons_append, chunks_of_gt (by decide) (by simp [heq]), hd.1, hd.2, packetsFrom,
        List.isEmpty_eq_false_iff.mpr chunks_ne_nil]
      have hs : chunkStatus (!m) false = if m then .continue else .start := by cases m <;> rfl
      rw [hs, List.append_assoc, ← hp rest]
      rfl

theorem emits_sysExRest (data : ∀ b ∈ payload, b < midiStatusMin) :
    Emits (Parser.parse group) (InSysex [] false) (payload ++ [sysExEnd])
      (sysex7Packets group payload) (Idle 0) := by
  obtain ⟨os, left, n, he, hleft, hp⟩ := emits_sysExBytes group [] data (Nat.zero_le _) false
  have hs : (if n then SysEx7Status.end else .complete) = chunkStatus (!n) true := by
    cases n <;> rfl
  have hr : sysex7Packets group payload =
      os ++ [sysex7Packet group (if n then .end else .complete) left] := by
    have h := hp []
    rw [List.append_nil, List.append_nil, chunks_of_le hleft] at h
    rw [hs]
    exact h
  rw [hr]
  exact he.append emits_sysExEnd

theorem emits_sysEx (data : ∀ b ∈ payload, b < midiStatusMin) :
    Emits (Parser.parse group) (Idle running) (sysExStart :: payload ++ [sysExEnd])
      (sysex7Packets group payload) (Idle 0) :=
  emits_sysExStart.cons (emits_sysExRest data)

theorem emits_message (m : Message) :
    ∃ after, Emits (Parser.parse group) (Idle running) m.bytes (m.umps group) (Idle after) ∧
      ∀ s, m.channelStatus = some s → after = s := by
  cases m with
  | short m => exact ⟨_, emits_short m, fun s hs => leaves_channelStatus hs⟩
  | sysEx payload data => exact ⟨_, emits_sysEx data, fun s hs => by cases hs⟩

theorem emits_transmitted {before : Option UInt8} {messages : List Message} {bytes : List UInt8}
    (h : Transmitted before messages bytes) (hb : ∀ s, before = some s → running = s) :
    Emits (Parser.parse group) (Idle running) bytes (messages.flatMap (·.umps group))
      (fun p => ∃ r, Idle r p) := by
  induction h generalizing running with
  | nil => exact Emits.nil.mono (fun _ h => h) fun _ h => ⟨running, h⟩
  | whole m h ih =>
    obtain ⟨_, hm, hs⟩ := @emits_message _ group running m
    exact hm.append (ih hs)
  | running m hc h ih =>
    cases hb m.status rfl
    exact (emits_running m hc).append (ih fun s hs => Option.some.inj hs)

theorem streamBytes_flatMap (hz : Zephyr.Documented) (hg : group < 16) (messages : List Message) :
    streamBytes group (messages.flatMap (·.umps group)) = some (messages.flatMap (·.bytes)) := by
  induction messages with
  | nil => rfl
  | cons m rest ih => exact streamBytes_append (streamBytes_umps hz hg m) ih

/-- Packets written to a serial line come back from the parser as they were, whether or not
repeated status bytes are left out. -/
theorem serial_round_trip (hz : Zephyr.Documented) (hg : group < 16) (messages : List Message) :
    let packets := messages.flatMap (·.umps group)
    (∃ bytes, writeEach (fun packet => writeUmpAsMidi1Bytes packet group collect) packets [] =
        (true, bytes) ∧ (feed (Parser.parse group) {} bytes).1 = packets) ∧
      ∀ bytes, Transmitted none messages bytes →
        (feed (Parser.parse group) {} bytes).1 = packets := by
  have parsed {bytes : List UInt8} (h : Transmitted none messages bytes) :
      (feed (Parser.parse group) {} bytes).1 = messages.flatMap (·.umps group) :=
    (emits_transmitted h (fun s hs => by cases hs) {} idle_initial).1
  refine ⟨⟨messages.flatMap (·.bytes), ?_, parsed (transmitted_flatMap none messages)⟩,
    fun bytes h => parsed h⟩
  rw [writeEach_umps (streamBytes_flatMap hz hg messages), writeEach_collect, List.nil_append]

end Parsed

/-- Note on, key 60 or 61, on channel 4. -/
def noteMessage (key : UInt8) (h : key = 60 ∨ key = 61) : ShortMessage where
  status := 0x93
  data1 := key
  data2 := 64
  known := by decide
  data1_lt := by cases h <;> subst key <;> decide
  data2_lt := by decide
  unused1 := fun h => absurd h (by decide)
  unused2 := fun h => absurd h (by decide)

/-- A SysEx message of seven bytes and two notes, the second without its status byte. -/
theorem serial_round_trip_notes :
    (feed (Parser.parse 2) {} [0xF0, 1, 2, 3, 4, 5, 6, 7, 0xF7, 0x93, 60, 64, 61, 64]).1 =
      [Message.sysEx [1, 2, 3, 4, 5, 6, 7] (by decide +kernel),
        .short (noteMessage 60 (.inl rfl)),
        .short (noteMessage 61 (.inr rfl))].flatMap (Message.umps 2) :=
  (serial_round_trip zephyrMidi_documented (by decide) _).2 _
    (.whole _ (.whole _ (.running (noteMessage 61 (.inr rfl)) (by decide) .nil)))

end Zlibs.Midi
