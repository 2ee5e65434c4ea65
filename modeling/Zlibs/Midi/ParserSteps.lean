import Zlibs.Midi.Parser
import Zlibs.Midi.Messages

/-! What the parser does with one byte, by the state it is in. -/
namespace Zlibs.Midi
open Lib

/-- No message is under way. -/
def Idle (running : UInt8) (p : Parser) : Prop :=
  p.pendingIndex = 0 ∧ p.sysexActive = false ∧ p.runningStatus = running

/-- A short message of `expected` bytes has begun with the given ones. -/
structure Awaiting (received : List UInt8) (expected : Nat) (p : Parser) : Prop where
  begun : received ≠ []
  sysex : p.sysexActive = false
  index : p.pendingIndex = received.length
  expects : p.expectedSize = expected
  pending : ∀ i (h : i < received.length), p.pending i = received[i]

/-- A SysEx message is under way, with the given bytes not yet handed out. -/
structure InSysex (buffered : List UInt8) (multi : Bool) (p : Parser) : Prop where
  active : p.sysexActive = true
  index : p.pendingIndex = 0
  running : p.runningStatus = 0
  packets : p.sysexMultiPacket = multi
  size : p.sysexSize = buffered.length
  fits : buffered.length ≤ sysex7Data64MaxPayloadSize
  bytes : ∀ i (h : i < buffered.length), p.sysexBuffer i = buffered[i]

variable {group data running status : UInt8} {received buffered : List UInt8}
  {expected : Nat} {multi : Bool}

theorem idle_initial : Idle 0 {} := ⟨rfl, rfl, rfl⟩

theorem data_ne_start (hd : data < midiStatusMin) : data ≠ sysExStart := by
  rintro rfl
  exact absurd hd (by decide)

theorem data_ne_end (hd : data < midiStatusMin) : data ≠ sysExEnd := by
  rintro rfl
  exact absurd hd (by decide)

theorem Awaiting.index_ne {p : Parser} (h : Awaiting received expected p) :
    p.pendingIndex ≠ 0 := by
  rw [h.index]
  exact fun hl => h.begun (List.length_eq_zero_iff.mp hl)

theorem Awaiting.stored {p : Parser} (h : Awaiting received expected p) (i : Nat)
    (hi : i < (received ++ [data]).length) :
    (p.setPending received.length data).pending i = (received ++ [data])[i] := by
  simp only [List.length_append, List.length_singleton] at hi
  by_cases he : i = received.length
  · subst he
    simp [Parser.setPending]
  · have hlt : i < received.length := by omega
    simp only [Parser.setPending, he, if_false]
    rw [List.getElem_append_left hlt, h.pending i hlt]

/-- A byte goes to the end of the buffer. -/
theorem InSysex.buffer {p : Parser} (h : InSysex buffered multi p) (hd : data < midiStatusMin)
    (hl : buffered.length < sysex7Data64MaxPayloadSize) :
    InSysex (buffered ++ [data]) multi (p.bufferByte data) := by
  refine ⟨h.active, h.index, h.running, h.packets, by simp [Parser.bufferByte, h.size],
    by simpa using hl, fun i hi => ?_⟩
  simp only [Parser.bufferByte, h.size, and_data_of_lt hd]
  simp only [List.length_append, List.length_singleton] at hi
  by_cases he : i = buffered.length
  · subst he
    simp
  · have hlt : i < buffered.length := by omega
    rw [if_neg he, List.getElem_append_left hlt, h.bytes i hlt]

variable [Zephyr]

/-- The packet of a complete short message. -/
def shortUmp (group status data1 data2 : UInt8) : MidiUmp :=
  if status < midiSystemMessageMin then midi1ChannelVoiceUmp group status data1 data2
  else systemUmp group status data1 data2

/-- The running status a complete short message leaves. -/
def runningAfter (status : UInt8) : UInt8 := if status < midiSystemMessageMin then status else 0

theorem parse_idle {p : Parser} (hp : Idle running p) (hn : data ≠ sysExStart) :
    Parser.parse group p data = p.parseFirst data group := by
  obtain ⟨hi, ha, _⟩ := hp
  simp [Parser.parse, hn, ha, hi]

/-- A status byte that starts no SysEx is read as by a parser that has just been reset, or as by
one that has no message under way. -/
theorem parse_status {p : Parser} (hs : midiStatusMin ≤ data) (hn : data ≠ sysExStart)
    (he : data ≠ sysExEnd) :
    Parser.parse group p data = Parser.parse group p.reset data ∨ Idle p.runningStatus p := by
  rw [Parser.parse_reset p group data hn]
  unfold Parser.parse
  rw [if_neg hn]
  by_cases ha : p.sysexActive = true
  · rw [if_pos ha, Parser.parseSysexByte, if_neg he, if_pos hs]
    exact .inl rfl
  rw [if_neg ha]
  by_cases hi : p.pendingIndex = 0
  · exact .inr ⟨hi, Bool.eq_false_of_not_eq_true ha, rfl⟩
  · rw [if_neg hi, if_pos hs]
    exact .inl rfl

/-- A status byte is the first byte of its own message, whatever the running status. -/
theorem parseFirst_status {p : Parser} (hs : midiStatusMin ≤ status) :
    p.parseFirst status group =
      let q := { p.setPending 0 status with pendingIndex := 1 }
      match typeFromStatusByte status with
      | .sysRealTimeStart | .sysRealTimeContinue | .sysRealTimeStop | .sysRealTimeClock
      | .sysRealTimeActiveSensing | .sysRealTimeSystemReset | .sysCommonTuneRequest =>
        (some (systemUmp group (typeFromStatusByte status).toByte 0 0),
          { q with pendingIndex := 0, expectedSize := 0 })
      | .programChange | .afterTouchChannel | .sysCommonTimeCodeQuarterFrame
      | .sysCommonSongSelect => { q with expectedSize := 2 }.completeIfFull group
      | .noteOn | .noteOff | .controlChange | .pitchBend | .afterTouchPoly
      | .sysCommonSongPosition => { q with expectedSize := 3 }.completeIfFull group
      | _ => (none, q.reset) := by
  have hlt : ¬ status < midiStatusMin := UInt8.not_lt.mpr hs
  simp only [Parser.parseFirst, hlt, false_and, if_false]
  rfl

theorem parseFirst_single {p : Parser} (hs : midiStatusMin ≤ status)
    (hk : isSystemRealTime (typeFromStatusByte status) ∨
      typeFromStatusByte status = .sysCommonTuneRequest) :
    p.parseFirst status group = (some (systemUmp group status 0 0),
      { p.setPending 0 status with pendingIndex := 0, expectedSize := 0 }) := by
  have hm : midiSystemMessageMin ≤ status := by
    refine UInt8.not_lt.mp fun hlt => ?_
    have := channel_status.mpr ⟨hs, hlt⟩
    cases ht : typeFromStatusByte status <;> simp_all [isChannelMessage, isSystemRealTime]
  rw [parseFirst_status hs]
  have hb : (typeFromStatusByte status).toByte = status :=
    toByte_type hm fun h => by simp [h, isSystemRealTime] at hk
  cases ht : typeFromStatusByte status <;> simp_all [isSystemRealTime]

theorem parseFirst_begin {p : Parser} (hs : midiStatusMin ≤ status)
    (hk : dataCount (typeFromStatusByte status) = expected + 1) :
    p.parseFirst status group = (none,
      { p.setPending 0 status with pendingIndex := 1, expectedSize := expected + 2 }) := by
  rw [parseFirst_status hs]
  cases ht : typeFromStatusByte status <;> simp_all [dataCount, Parser.completeIfFull]

/-- A data byte under a running status is the second byte of the message the status begins. -/
theorem parseFirst_running {p : Parser} (hd : data < midiStatusMin)
    (hk : isChannelMessage (typeFromStatusByte p.runningStatus)) :
    p.parseFirst data group =
      { (p.setPending 0 p.runningStatus).setPending 1 data with
        pendingIndex := 2
        expectedSize :=
          dataCount (typeFromStatusByte p.runningStatus) + 1 }.completeIfFull group := by
  simp only [Parser.parseFirst, hd, hk, and_self, if_true]
  cases ht : typeFromStatusByte p.runningStatus <;>
    simp_all [isChannelMessage, dataCount, Parser.setPending]

/-- Bytes that mean nothing outside a message. -/
theorem parseFirst_noise {p : Parser} (hr : p.runningStatus = 0)
    (hd : data < midiStatusMin ∨ data = sysExEnd) : p.parseFirst data group = (none, {}) := by
  have hc : ¬ isChannelMessage (typeFromStatusByte p.runningStatus) = true := by
    rw [hr]
    decide
  have ht : typeFromStatusByte data = .invalid := by
    cases hd with
    | inl h => exact data_type h
    | inr h =>
      subst h
      decide
  simp [Parser.parseFirst, hc, Parser.setPending, ht, Parser.reset]

theorem Awaiting.next {p : Parser} (h : Awaiting received expected p)
    (hd : data < midiStatusMin) :
    Parser.parse group p data = { p.setPending received.length data with
      pendingIndex := received.length + 1 }.completeIfFull group := by
  have hn := data_ne_start hd
  have hs : ¬ data ≥ midiStatusMin := UInt8.not_le.mpr hd
  simp only [Parser.parse, hn, h.sysex, h.index_ne, hs, if_false, Bool.false_eq_true]
  rw [h.index]

theorem Awaiting.interrupt {p : Parser} (h : Awaiting received expected p)
    (hs : midiStatusMin ≤ status) (hn : status ≠ sysExStart) :
    Parser.parse group p status = p.reset.parseFirst status group := by
  simp [Parser.parse, hn, h.sysex, h.index_ne, hs]

theorem emits_single (hs : midiStatusMin ≤ status) (hn : status ≠ sysExStart)
    (hk : isSystemRealTime (typeFromStatusByte status) ∨
      typeFromStatusByte status = .sysCommonTuneRequest) :
    Emits (Parser.parse group) (Idle running) [status] [systemUmp group status 0 0]
      (Idle running) := by
  refine Emits.one fun p hp => ?_
  rw [parse_idle hp hn, parseFirst_single hs hk]
  exact ⟨rfl, rfl, hp.2.1, hp.2.2⟩

theorem emits_begin (hs : midiStatusMin ≤ status) (hn : status ≠ sysExStart)
    (hk : dataCount (typeFromStatusByte status) = expected + 1) :
    Emits (Parser.parse group) (Idle running) [status] [] (Awaiting [status] (expected + 2)) := by
  refine Emits.one fun p hp => ?_
  rw [parse_idle hp hn, parseFirst_begin hs hk]
  refine ⟨rfl, by simp, hp.2.1, rfl, rfl, fun i hi => ?_⟩
  have : i = 0 := by simpa using hi
  subst this
  rfl

theorem emits_more (hd : data < midiStatusMin) (hl : received.length + 1 < expected) :
    Emits (Parser.parse group) (Awaiting received expected) [data] []
      (Awaiting (received ++ [data]) expected) := by
  refine Emits.one fun p hp => ?_
  rw [hp.next hd, Parser.completeIfFull, if_neg (by
    simp only [Parser.setPending, hp.expects]
    omega)]
  exact ⟨rfl, by simp, hp.sysex, by simp, hp.expects, hp.stored⟩

/-- The parser at the last byte of a short message. -/
theorem completeMessage_spec (p : Parser) (group : UInt8) {bytes : List UInt8} (hb : bytes ≠ [])
    (ha : p.sysexActive = false) (he : p.expectedSize = bytes.length)
    (hp : ∀ i (h : i < bytes.length), p.pending i = bytes[i]) :
    (p.completeMessage group).1 =
        shortUmp group (bytes.getD 0 0) (bytes.getD 1 0) (bytes.getD 2 0) ∧
      Idle (runningAfter (bytes.getD 0 0)) (p.completeMessage group).2 := by
  have h0 : 0 < bytes.length := List.length_pos_iff.mpr hb
  have pending (i : Nat) : (if p.expectedSize > i then p.pending i else 0) = bytes.getD i 0 := by
    rw [he]
    by_cases hi : i < bytes.length
    · simp [hi, hp i hi]
    · simp [hi]
  have p0 : p.pending 0 = bytes.getD 0 0 := by simpa [he, h0] using pending 0
  simp only [Parser.completeMessage, pending 1, pending 2, p0, shortUmp, runningAfter]
  split
  · exact ⟨rfl, rfl, ha, rfl⟩
  · exact ⟨rfl, rfl, ha, rfl⟩

theorem emits_last (hd : data < midiStatusMin) (hl : received.length + 1 = expected) :
    Emits (Parser.parse group) (Awaiting received expected) [data]
      [shortUmp group ((received ++ [data]).getD 0 0) ((received ++ [data]).getD 1 0)
        ((received ++ [data]).getD 2 0)]
      (Idle (runningAfter ((received ++ [data]).getD 0 0))) := by
  refine Emits.one fun p hp => ?_
  rw [hp.next hd, Parser.completeIfFull, if_pos (by
    simp only [Parser.setPending, hp.expects]
    omega)]
  obtain ⟨hu, hi⟩ := completeMessage_spec
    { p.setPending received.length data with pendingIndex := received.length + 1 } group
    (by simp : received ++ [data] ≠ []) hp.sysex (by simp [Parser.setPending, hp.expects, hl]) hp.stored
  exact ⟨by simp [hu], hi⟩

/-- A data byte with the status omitted leaves the parser where the status would have. -/
theorem emits_running_begin (hd : data < midiStatusMin)
    (hk : isChannelMessage (typeFromStatusByte running))
    (hc : dataCount (typeFromStatusByte running) = 2) :
    Emits (Parser.parse group) (Idle running) [data] [] (Awaiting [running, data] 3) := by
  refine Emits.one fun p hp => ?_
  have ha := hp.2.1
  have hr := hp.2.2
  rw [parse_idle hp (data_ne_start hd), parseFirst_running hd (by rwa [hr]), hr, hc]
  refine ⟨rfl, by simp, ha, rfl, rfl, fun i hi => ?_⟩
  have : i = 0 ∨ i = 1 := by simp only [List.length_cons, List.length_nil] at hi; omega
  cases this <;> subst i <;> rfl

theorem emits_running_whole (hd : data < midiStatusMin)
    (hk : isChannelMessage (typeFromStatusByte running))
    (hc : dataCount (typeFromStatusByte running) = 1) :
    Emits (Parser.parse group) (Idle running) [data] [shortUmp group running data 0]
      (Idle (runningAfter running)) := by
  refine Emits.one fun p hp => ?_
  have ha := hp.2.1
  have hr := hp.2.2
  rw [parse_idle hp (data_ne_start hd), parseFirst_running hd (by rwa [hr]), hr, hc]
  obtain ⟨hu, hi⟩ := completeMessage_spec
    { (p.setPending 0 running).setPending 1 data with pendingIndex := 2, expectedSize := 2 }
    group (by simp : [running, data] ≠ []) ha rfl (fun i hi => by
        have : i = 0 ∨ i = 1 := by simp only [List.length_cons, List.length_nil] at hi; omega
        cases this <;> subst i <;> rfl)
  simp only [Parser.completeIfFull, ge_iff_le, le_refl, if_true]
  exact ⟨by simpa using hu, hi⟩

theorem emits_noise (hd : data < midiStatusMin ∨ data = sysExEnd) :
    Emits (Parser.parse group) (Idle 0) [data] [] (Idle 0) := by
  have hn : data ≠ sysExStart := by
    rintro rfl
    exact absurd hd (by decide)
  refine Emits.one fun p hp => ?_
  rw [parse_idle hp hn, parseFirst_noise hp.2.2 hd]
  exact ⟨rfl, idle_initial⟩

theorem emits_interrupted (hk : isSystemRealTime (typeFromStatusByte status)) :
    Emits (Parser.parse group) (Awaiting received expected) [status]
      [systemUmp group status 0 0] (Idle 0) := by
  obtain ⟨hs, hn, _⟩ := known_status (.inr (.inr hk))
  refine Emits.one fun p hp => ?_
  rw [hp.interrupt hs hn, parseFirst_single hs (.inl hk)]
  exact ⟨rfl, rfl, rfl, rfl⟩

/-- A SysEx message starts over whatever is under way. -/
theorem emits_start {P : Parser → Prop} :
    Emits (Parser.parse group) P [sysExStart] [] (InSysex [] false) := by
  refine Emits.one fun p _ => ?_
  simp only [Parser.parse, if_true]
  exact ⟨rfl, rfl, rfl, rfl, rfl, rfl, by decide, fun i hi => absurd hi (Nat.not_lt_zero i)⟩

theorem emits_sysExStart :
    Emits (Parser.parse group) (Idle running) [sysExStart] [] (InSysex [] false) := emits_start

theorem parse_inSysex {p : Parser} (h : InSysex buffered multi p) (hn : data ≠ sysExStart) :
    Parser.parse group p data = p.parseSysexByte data group := by
  simp [Parser.parse, hn, h.active]

theorem flushSysex_spec {p : Parser} {t : SysEx7Status} (hs : p.sysexSize = buffered.length)
    (hb : ∀ i (h : i < buffered.length), p.sysexBuffer i = buffered[i]) :
    p.flushSysex group t = (sysex7Packet group t buffered, { p with sysexSize := 0 }) := by
  have : (List.range p.sysexSize).map p.sysexBuffer = buffered := by
    refine List.ext_getElem (by simp [hs]) fun i hi hj => ?_
    simp [hb i hj]
  simp [Parser.flushSysex, this]

theorem emits_sysExEnd :
    Emits (Parser.parse group) (InSysex buffered multi) [sysExEnd]
      [sysex7Packet group (if multi then .end else .complete) buffered] (Idle 0) := by
  refine Emits.one fun p hp => ?_
  have hf (t : SysEx7Status) : { p with sysexActive := false }.flushSysex group t =
      (sysex7Packet group t buffered, { p with sysexActive := false, sysexSize := 0 }) :=
    flushSysex_spec hp.size hp.bytes
  rw [parse_inSysex hp (by decide), Parser.parseSysexByte, if_pos rfl]
  simp only [hf]
  rw [hp.packets]
  exact ⟨rfl, hp.index, rfl, hp.running⟩

theorem parseSysexByte_data {p : Parser} (hd : data < midiStatusMin) :
    p.parseSysexByte data group =
      if p.sysexSize = sysex7Data64MaxPayloadSize then
        let r := p.flushSysex group (if p.sysexMultiPacket then .continue else .start)
        (some r.1, { r.2 with sysexMultiPacket := true }.bufferByte data)
      else (none, p.bufferByte data) := by
  have he := data_ne_end hd
  have hs : ¬ data ≥ midiStatusMin := UInt8.not_le.mpr hd
  simp only [Parser.parseSysexByte, he, hs, if_false]

theorem emits_sysExByte (hd : data < midiStatusMin)
    (hl : buffered.length < sysex7Data64MaxPayloadSize) :
    Emits (Parser.parse group) (InSysex buffered multi) [data] []
      (InSysex (buffered ++ [data]) multi) := by
  refine Emits.one fun p hp => ?_
  rw [parse_inSysex hp (data_ne_start hd), parseSysexByte_data hd, hp.size, if_neg (by omega)]
  exact ⟨rfl, hp.buffer hd hl⟩

theorem emits_sysExFull (hd : data < midiStatusMin)
    (hl : buffered.length = sysex7Data64MaxPayloadSize) :
    Emits (Parser.parse group) (InSysex buffered multi) [data]
      [sysex7Packet group (if multi then .continue else .start) buffered]
      (InSysex [data] true) := by
  refine Emits.one fun p hp => ?_
  rw [parse_inSysex hp (data_ne_start hd), parseSysexByte_data hd, hp.size, if_pos hl]
  simp only [flushSysex_spec hp.size hp.bytes]
  rw [hp.packets]
  have hb : InSysex [] true { p with sysexSize := 0, sysexMultiPacket := true } :=
    ⟨hp.active, hp.index, hp.running, rfl, rfl, by decide,
      fun i hi => absurd hi (Nat.not_lt_zero i)⟩
  exact ⟨rfl, hb.buffer hd (by decide)⟩

theorem emits_sysExInterrupted (hk : isSystemRealTime (typeFromStatusByte status)) :
    Emits (Parser.parse group) (InSysex buffered multi) [status] [systemUmp group status 0 0]
      (Idle 0) := by
  obtain ⟨hs, hn, he⟩ := known_status (.inr (.inr hk))
  refine Emits.one fun p hp => ?_
  rw [parse_inSysex hp hn, Parser.parseSysexByte, if_neg he, if_pos hs,
    parseFirst_single hs (.inl hk)]
  exact ⟨rfl, rfl, rfl, rfl⟩

end Zlibs.Midi
