import Zlibs.Lib.Run
import Zlibs.Midi.Packetisation
import Zlibs.Midi.SerialRoundTrip

/-! The parser and any bytes at all: its indices, its SysEx packets, and the message that comes
next. -/
namespace Zlibs.Midi
open Lib

/-- `parse` or `reset` -/
inductive ParserInput where
  | byte (data group : UInt8)
  | reset

/-- An input and what the parser hands out for it. -/
abbrev ParserEvent := ParserInput × Option MidiUmp

namespace ParserEvent

variable [Zephyr]

/-- A data byte, and whatever the parser hands out for it is a SysEx packet of that status. -/
structure Within (status : SysEx7Status) (e : ParserEvent) : Prop where
  input : ∃ data group, e.1 = .byte data group ∧ data < midiStatusMin
  output : ∀ packet, e.2 = some packet → isSysex7Packet packet = true ∧ sysex7Status packet = status

/-- A SysEx message is under way: a packet has started it, and what has come since are its data
bytes and continuing packets. -/
def Started (trace : List ParserEvent) : Prop :=
  ∃ front start middle, trace = front ++ start :: middle ∧ start.Within .start ∧
    start.2.isSome = true ∧ ∀ e ∈ middle, e.Within .continue

/-- A packet that goes on with a SysEx message is small enough and belongs to one that has
started. -/
def Follows (before : List ParserEvent) (e : ParserEvent) : Prop :=
  ∀ packet, e.2 = some packet → isSysex7Packet packet = true →
    sysex7Status packet = .continue ∨ sysex7Status packet = .end →
    sysex7PayloadSize packet ≤ sysex7Data64MaxPayloadSize ∧ Started before

end ParserEvent

def Parser.take [Zephyr] (p : Parser) : ParserInput → Option MidiUmp × Parser
  | .byte data group => Parser.parse group p data
  | .reset => (none, p.reset)

/-- What the parser hands out for several inputs, and the parser after them. -/
def Parser.trace [Zephyr] (p : Parser) : List ParserInput → List ParserEvent × Parser
  | [] => ([], p)
  | input :: rest =>
    let r := p.take input
    ((input, r.1) :: (r.2.trace rest).1, (r.2.trace rest).2)

/-- Any bytes and resets at all, from the initial parser. -/
abbrev ParserRun [Zephyr] : List ParserEvent → Parser → Prop :=
  Run (· = {}) fun _ p e t => p.take e.1 = (e.2, t)

/-- The indices stay within their arrays: nothing is written past their ends. -/
structure Bounded (p : Parser) : Prop where
  index : p.pendingIndex ≤ 2
  expects : p.expectedSize ≤ 3
  below : p.pendingIndex ≠ 0 → p.pendingIndex < p.expectedSize
  size : p.sysexSize ≤ sysex7Data64MaxPayloadSize
  pending : ∀ i, 3 ≤ i → p.pending i = 0
  buffer : ∀ i, sysex7Data64MaxPayloadSize ≤ i → p.sysexBuffer i = 0

variable {p t : Parser} {group status data1 data2 data : UInt8} {out : Option MidiUmp}
  {trace : List ParserEvent} {packet : MidiUmp} {i : Nat}

theorem bounded_initial : Bounded {} :=
  ⟨Nat.zero_le _, Nat.zero_le _, fun h => absurd rfl h, Nat.zero_le _, fun _ _ => rfl,
    fun _ _ => rfl⟩

theorem setPending_zero (hi : i < 3) (hp : ∀ j, 3 ≤ j → p.pending j = 0) :
    ∀ j, 3 ≤ j → (p.setPending i data).pending j = 0 := by
  intro j hj
  have hne : ¬ j = i := by omega
  exact (if_neg hne).trans (hp j hj)

theorem bufferByte_bounded (h : Bounded p) (hs : p.sysexSize < sysex7Data64MaxPayloadSize) :
    Bounded (p.bufferByte data) := by
  refine ⟨h.index, h.expects, h.below, hs, h.pending, fun i hi => ?_⟩
  have hne : ¬ i = p.sysexSize := by omega
  exact (if_neg hne).trans (h.buffer i hi)

/-- The parser with the first byte of a message stored, after the running status if it has one. -/
def Parser.first (p : Parser) (data : UInt8) : Parser :=
  if data < midiStatusMin ∧ isChannelMessage (typeFromStatusByte p.runningStatus) then
    { (p.setPending 0 p.runningStatus).setPending 1 data with pendingIndex := 2 }
  else { p.setPending 0 data with pendingIndex := 1 }

section Steps

variable [Zephyr]

theorem parseFirst_eq : p.parseFirst data group =
    match typeFromStatusByte ((p.first data).pending 0) with
    | .sysRealTimeStart | .sysRealTimeContinue | .sysRealTimeStop | .sysRealTimeClock
    | .sysRealTimeActiveSensing | .sysRealTimeSystemReset | .sysCommonTuneRequest =>
      (some (systemUmp group (typeFromStatusByte ((p.first data).pending 0)).toByte 0 0),
        { p.first data with pendingIndex := 0, expectedSize := 0 })
    | .programChange | .afterTouchChannel | .sysCommonTimeCodeQuarterFrame
    | .sysCommonSongSelect => { p.first data with expectedSize := 2 }.completeIfFull group
    | .noteOn | .noteOff | .controlChange | .pitchBend | .afterTouchPoly
    | .sysCommonSongPosition => { p.first data with expectedSize := 3 }.completeIfFull group
    | _ => (none, (p.first data).reset) := rfl

/-- What follows the first byte. -/
theorem parseFirst_cases {Q : Option MidiUmp × Parser → Prop}
    (hsingle : ∀ type : MessageType, Q (some (systemUmp group type.toByte 0 0),
      { p.first data with pendingIndex := 0, expectedSize := 0 }))
    (hfull : ∀ n, n = 2 ∨ n = 3 → Q ({ p.first data with expectedSize := n }.completeIfFull group))
    (hreset : Q (none, {})) : Q (p.parseFirst data group) := by
  rw [parseFirst_eq]
  cases typeFromStatusByte ((p.first data).pending 0)
  all_goals first
    | exact hsingle _
    | exact hfull 2 (.inl rfl)
    | exact hfull 3 (.inr rfl)
    | exact hreset

theorem completeMessage_eq : ∃ running, (p.completeMessage group).2 =
    { p with pendingIndex := 0, expectedSize := 0, runningStatus := running } := by
  unfold Parser.completeMessage
  dsimp only
  by_cases hlt : p.pending 0 < midiSystemMessageMin
  · rw [if_pos hlt]
    exact ⟨_, rfl⟩
  · rw [if_neg hlt]
    exact ⟨_, rfl⟩

theorem completeIfFull_bounded (he : p.expectedSize ≤ 3)
    (hs : p.sysexSize ≤ sysex7Data64MaxPayloadSize) (hp : ∀ i, 3 ≤ i → p.pending i = 0)
    (hb : ∀ i, sysex7Data64MaxPayloadSize ≤ i → p.sysexBuffer i = 0) :
    Bounded (p.completeIfFull group).2 := by
  unfold Parser.completeIfFull
  dsimp only
  split_ifs with hfull
  · obtain ⟨running, hr⟩ := @completeMessage_eq p group _
    simp only [hr]
    exact ⟨Nat.zero_le _, Nat.zero_le _, fun h => absurd rfl h, hs, hp, hb⟩
  · have hlt : p.pendingIndex < p.expectedSize := not_le.mp hfull
    exact ⟨Nat.le_of_lt_succ (hlt.trans_le he), he, fun _ => hlt, hs, hp, hb⟩

theorem parseFirst_bounded (h : Bounded p) : Bounded (p.parseFirst data group).2 := by
  have hpending : ∀ i, 3 ≤ i → (p.first data).pending i = 0 := by
    unfold Parser.first
    split_ifs
    · exact setPending_zero (by decide) (setPending_zero (by decide) h.pending)
    · exact setPending_zero (by decide) h.pending
  have hsysex : (p.first data).sysexSize = p.sysexSize ∧
      (p.first data).sysexBuffer = p.sysexBuffer := by
    unfold Parser.first
    split_ifs <;> exact ⟨rfl, rfl⟩
  have hsize : (p.first data).sysexSize ≤ sysex7Data64MaxPayloadSize := by
    rw [hsysex.1]
    exact h.size
  have hbuffer : ∀ i, sysex7Data64MaxPayloadSize ≤ i → (p.first data).sysexBuffer i = 0 := by
    rw [hsysex.2]
    exact h.buffer
  refine parseFirst_cases (Q := fun r => Bounded r.2) (fun _ => ?_) (fun n hn => ?_) ?_
  · exact ⟨Nat.zero_le _, Nat.zero_le _, fun h => absurd rfl h, hsize, hpending, hbuffer⟩
  · exact completeIfFull_bounded (by simp only; omega) hsize hpending hbuffer
  · exact bounded_initial

theorem parseSysexByte_bounded (h : Bounded p) : Bounded (p.parseSysexByte data group).2 := by
  have hflushed : ∀ active multi, Bounded { p with
      sysexSize := 0, sysexActive := active, sysexMultiPacket := multi } := fun _ _ =>
    ⟨h.index, h.expects, h.below, Nat.zero_le _, h.pending, h.buffer⟩
  unfold Parser.parseSysexByte
  by_cases hend : data = sysExEnd
  · rw [if_pos hend]
    exact hflushed _ _
  rw [if_neg hend]
  by_cases hs : data ≥ midiStatusMin
  · rw [if_pos hs]
    exact parseFirst_bounded bounded_initial
  rw [if_neg hs]
  by_cases hfull : p.sysexSize = sysex7Data64MaxPayloadSize
  · rw [if_pos hfull]
    exact bufferByte_bounded (hflushed _ _) (Nat.succ_pos _)
  · rw [if_neg hfull]
    exact bufferByte_bounded h (lt_of_le_of_ne h.size hfull)

theorem parse_bounded (h : Bounded p) : Bounded (Parser.parse group p data).2 := by
  unfold Parser.parse
  split_ifs with hstart ha hi hs
  · exact ⟨Nat.zero_le _, Nat.zero_le _, fun h => absurd rfl h, Nat.zero_le _, h.pending, h.buffer⟩
  · exact parseSysexByte_bounded h
  · exact parseFirst_bounded h
  · exact parseFirst_bounded bounded_initial
  · have hindex := h.index
    exact completeIfFull_bounded h.expects h.size (setPending_zero (by omega) h.pending) h.buffer

/-- What the parser may do with a byte, as far as SysEx packets are concerned. -/
inductive Parsed (p : Parser) (data : UInt8) : Option MidiUmp → Parser → Prop
  | plain {out : Option MidiUmp} {t : Parser}
      (hout : ∀ packet, out = some packet → isSysex7Packet packet = true →
        sysex7Status packet = .complete)
      (hend : t.sysexActive = true → t.sysexMultiPacket = false) : Parsed p data out t
  | buffered {t : Parser} (hd : data < midiStatusMin) (ha : p.sysexActive = true)
      (hm : t.sysexMultiPacket = p.sysexMultiPacket) : Parsed p data none t
  | packet {packet : MidiUmp} {t : Parser} (hd : data < midiStatusMin)
      (ha : p.sysexActive = true) (hs : isSysex7Packet packet = true)
      (ht : sysex7Status packet = if p.sysexMultiPacket then .continue else .start)
      (hl : sysex7PayloadSize packet ≤ sysex7Data64MaxPayloadSize) :
      Parsed p data (some packet) t
  | ended {packet : MidiUmp} {t : Parser} (ha : p.sysexActive = true)
      (hm : p.sysexMultiPacket = true)
      (hl : sysex7PayloadSize packet ≤ sysex7Data64MaxPayloadSize)
      (hend : t.sysexActive = false) : Parsed p data (some packet) t

/-- What every run keeps. -/
structure Synchronised (trace : List ParserEvent) (p : Parser) : Prop where
  bounded : Bounded p
  started : p.sysexActive = true → p.sysexMultiPacket = true → ParserEvent.Started trace

theorem parsed_follows (h : Synchronised trace p) (hp : Parsed p data out t) :
    ParserEvent.Follows trace (.byte data group, out) := by
  intro packet hpacket hs hstatus
  cases hp with
  | plain hout _ =>
    have hcomplete := hout packet hpacket hs
    rw [hcomplete] at hstatus
    exact absurd hstatus (by decide)
  | buffered _ _ _ => exact absurd hpacket nofun
  | packet _ ha _ ht hl =>
    obtain rfl := Option.some.inj hpacket
    have hm : p.sysexMultiPacket = true := by
      by_contra hm
      rw [ht, if_neg hm] at hstatus
      exact absurd hstatus (by decide)
    exact ⟨hl, h.started ha hm⟩
  | ended ha hm hl _ =>
    obtain rfl := Option.some.inj hpacket
    exact ⟨hl, h.started ha hm⟩

theorem parsed_started (h : Synchronised trace p) (hp : Parsed p data out t)
    (ha : t.sysexActive = true) (hm : t.sysexMultiPacket = true) :
    ParserEvent.Started (trace ++ [(.byte data group, out)]) := by
  have continued (hstarted : ParserEvent.Started trace)
      (he : ParserEvent.Within .continue (.byte data group, out)) :
      ParserEvent.Started (trace ++ [(.byte data group, out)]) := by
    obtain ⟨front, start, middle, rfl, hstart, hsome, hmiddle⟩ := hstarted
    refine ⟨front, start, middle ++ [(.byte data group, out)], by simp, hstart, hsome, ?_⟩
    intro e hmem
    obtain hmem | hmem := List.mem_append.mp hmem
    · exact hmiddle e hmem
    · exact List.mem_singleton.mp hmem ▸ he
  cases hp with
  | plain _ hend => exact absurd ((hend ha).symm.trans hm) nofun
  | buffered hd hactive hmulti =>
    exact continued (h.started hactive (hmulti.symm.trans hm)) ⟨⟨data, group, rfl, hd⟩, nofun⟩
  | @packet packet _ hd hactive hs ht _ =>
    have hwithin : ParserEvent.Within (if p.sysexMultiPacket then .continue else .start)
        (.byte data group, some packet) := by
      refine ⟨⟨data, group, rfl, hd⟩, fun u hu => ?_⟩
      obtain rfl := Option.some.inj hu
      exact ⟨hs, ht⟩
    cases hmulti : p.sysexMultiPacket with
    | true =>
      rw [hmulti] at hwithin
      exact continued (h.started hactive hmulti) hwithin
    | false =>
      rw [hmulti] at hwithin
      exact ⟨trace, _, [], rfl, hwithin, rfl, nofun⟩
  | ended _ _ _ hend => exact absurd (hend.symm.trans ha) nofun

/-- A step that goes on with no SysEx message. -/
structure Calm (p : Parser) (out : Option MidiUmp) (t : Parser) : Prop where
  active : t.sysexActive = p.sysexActive
  other : ∀ packet, out = some packet → isSysex7Packet packet = false

theorem Calm.some_of (ha : t.sysexActive = p.sysexActive) (h : isSysex7Packet packet = false) :
    Calm p (some packet) t := by
  refine ⟨ha, fun u hu => ?_⟩
  obtain rfl : packet = u := Option.some.inj hu
  exact h

section Packets

variable (hz : Zephyr.Documented)

include hz

theorem channelVoice_other : isSysex7Packet (midi1ChannelVoiceUmp group status data1 data2) = false := by
  have hmask : midi1ChannelVoiceUmp (group &&& lowNibbleMask) status data1 data2 =
      midi1ChannelVoiceUmp group status data1 data2 := by
    unfold midi1ChannelVoiceUmp
    rw [UInt8.and_assoc, UInt8.and_self]
  have hmt := (channelVoice_fields hz status data1 data2 (@masked_lt group)).1
  rw [hmask] at hmt
  simp [isSysex7Packet, hmt, hz.channelVoice, hz.data64]

theorem system_other : isSysex7Packet (systemUmp group status data1 data2) = false := by
  have hmask : systemUmp (group &&& lowNibbleMask) status data1 data2 =
      systemUmp group status data1 data2 := by
    unfold systemUmp
    rw [UInt8.and_assoc, UInt8.and_self]
  have hmt := (system_fields hz status data1 data2 (@masked_lt group)).1
  rw [hmask] at hmt
  simp [isSysex7Packet, hmt, hz.sysRtCommon, hz.data64]

theorem completeMessage_calm :
    Calm p (some (p.completeMessage group).1) (p.completeMessage group).2 := by
  unfold Parser.completeMessage
  generalize (if p.expectedSize > 1 then p.pending 1 else 0) = data1
  generalize (if p.expectedSize > 2 then p.pending 2 else 0) = data2
  dsimp only
  split_ifs
  · exact .some_of rfl (channelVoice_other hz)
  · exact .some_of rfl (system_other hz)

theorem completeIfFull_calm :
    Calm p (p.completeIfFull group).1 (p.completeIfFull group).2 := by
  unfold Parser.completeIfFull
  split_ifs
  · exact completeMessage_calm hz
  · exact ⟨rfl, nofun⟩

theorem parseFirst_calm (ha : p.sysexActive = false) :
    Calm p (p.parseFirst data group).1 (p.parseFirst data group).2 := by
  have hactive : (p.first data).sysexActive = p.sysexActive := by
    unfold Parser.first
    split_ifs <;> rfl
  refine parseFirst_cases (Q := fun r => Calm p r.1 r.2) (fun _ => ?_) (fun n hn => ?_) ?_
  · exact .some_of hactive (system_other hz)
  · have h := @completeIfFull_calm { p.first data with expectedSize := n } group _ hz
    exact ⟨h.active.trans hactive, h.other⟩
  · exact ⟨ha.symm, nofun⟩

theorem flushSysex_any (h : p.sysexSize ≤ sysex7Data64MaxPayloadSize) (t : SysEx7Status) :
    isSysex7Packet (p.flushSysex group t).1 = true ∧
      sysex7Status (p.flushSysex group t).1 = t ∧
      sysex7PayloadSize (p.flushSysex group t).1 ≤ sysex7Data64MaxPayloadSize := by
  have hl : ((List.range p.sysexSize).map p.sysexBuffer).length ≤ 6 := by
    rw [List.length_map, List.length_range]
    exact h
  unfold Parser.flushSysex
  rw [← sysex7Packet_masked]
  exact ⟨sysex7Packet_isSysex7 hz hl masked_lt, sysex7Packet_status hz hl masked_lt,
    (sysex7Packet_fields hz hl masked_lt).2.2.2.le.trans hl⟩

theorem parseFirst_parsed (ha : t.sysexActive = false) :
    Parsed p data (t.parseFirst data group).1 (t.parseFirst data group).2 := by
  have hcalm := @parseFirst_calm t group data _ hz ha
  refine .plain (fun packet hp hs => ?_) fun hactive => ?_
  · exact absurd (hs.symm.trans (hcalm.other packet hp)) nofun
  · exact absurd (hactive.symm.trans (hcalm.active.trans ha)) nofun

theorem parse_parsed (h : Bounded p) :
    Parsed p data (Parser.parse group p data).1 (Parser.parse group p data).2 := by
  unfold Parser.parse
  by_cases hstart : data = sysExStart
  · rw [if_pos hstart]
    exact .plain nofun fun _ => rfl
  rw [if_neg hstart]
  by_cases ha : p.sysexActive = true
  · rw [if_pos ha]
    unfold Parser.parseSysexByte
    by_cases hend : data = sysExEnd
    · rw [if_pos hend]
      cases hm : p.sysexMultiPacket with
      | true =>
        obtain ⟨_, _, hl⟩ := @flushSysex_any { p with sysexActive := false } group _ hz h.size .end
        exact .ended ha hm hl rfl
      | false =>
        obtain ⟨_, ht, _⟩ :=
          @flushSysex_any { p with sysexActive := false } group _ hz h.size .complete
        refine .plain (fun packet hp _ => ?_) nofun
        exact Option.some.inj hp ▸ ht
    rw [if_neg hend]
    by_cases hstatus : data ≥ midiStatusMin
    · rw [if_pos hstatus]
      exact parseFirst_parsed hz rfl
    rw [if_neg hstatus]
    have hd : data < midiStatusMin := UInt8.not_le.mp hstatus
    by_cases hfull : p.sysexSize = sysex7Data64MaxPayloadSize
    · rw [if_pos hfull]
      obtain ⟨hs, ht, hl⟩ := @flushSysex_any p group _ hz h.size
        (if p.sysexMultiPacket then .continue else .start)
      exact .packet hd ha hs ht hl
    · rw [if_neg hfull]
      exact .buffered hd ha rfl
  · rw [if_neg ha]
    have ha' : p.sysexActive = false := Bool.eq_false_of_not_eq_true ha
    by_cases hi : p.pendingIndex = 0
    · rw [if_pos hi]
      exact parseFirst_parsed hz ha'
    rw [if_neg hi]
    by_cases hstatus : data ≥ midiStatusMin
    · rw [if_pos hstatus]
      exact parseFirst_parsed hz rfl
    rw [if_neg hstatus]
    have hcalm := @completeIfFull_calm
      { p.setPending p.pendingIndex data with pendingIndex := p.pendingIndex + 1 } group _ hz
    refine .plain (fun packet hp hs => ?_) fun hactive => ?_
    · exact absurd (hs.symm.trans (hcalm.other packet hp)) nofun
    · exact absurd (hactive.symm.trans (hcalm.active.trans ha')) nofun

theorem take_follows {e : ParserEvent} (h : Synchronised trace p)
    (ht : p.take e.1 = (e.2, t)) : e.Follows trace := by
  obtain ⟨input, out⟩ := e
  cases input with
  | byte data group =>
    have hp := @parse_parsed p group data _ hz h.bounded
    rw [show Parser.parse group p data = (out, t) from ht] at hp
    exact parsed_follows h hp
  | reset =>
    intro packet hpacket
    obtain rfl : none = out := congrArg Prod.fst ht
    exact absurd hpacket nofun

theorem take_synchronised {e : ParserEvent} (h : Synchronised trace p)
    (ht : p.take e.1 = (e.2, t)) : Synchronised (trace ++ [e]) t := by
  obtain ⟨input, out⟩ := e
  cases input with
  | byte data group =>
    have hb := @parse_bounded p group data _ h.bounded
    have hp := @parse_parsed p group data _ hz h.bounded
    rw [show Parser.parse group p data = (out, t) from ht] at hb hp
    exact ⟨hb, parsed_started h hp⟩
  | reset =>
    obtain rfl : ({} : Parser) = t := congrArg Prod.snd ht
    exact ⟨bounded_initial, nofun⟩

theorem run_synchronised (h : ParserRun trace p) : Synchronised trace p := by
  refine h.invariant (I := Synchronised) ?_ fun _ _ _ _ hi hn => take_synchronised hz hi hn
  rintro _ rfl
  exact ⟨bounded_initial, nofun⟩

end Packets

theorem feed_short (m : ShortMessage) :
    (feed (Parser.parse group) p m.bytes).1 = [m.ump group] := by
  obtain ⟨hs, hn, he⟩ := known_status m.known
  obtain hreset | hidle := @parse_status group m.status _ p hs hn he
  · have hfeed : feed (Parser.parse group) p m.bytes =
        feed (Parser.parse group) p.reset m.bytes := by
      simp only [ShortMessage.bytes, feed, hreset]
    rw [hfeed]
    exact (emits_short m p.reset idle_initial).1
  · exact (emits_short m p hidle).1

theorem feed_sysEx {payload : List UInt8} (hd : ∀ b ∈ payload, b < midiStatusMin) :
    (feed (Parser.parse group) p (sysExStart :: payload ++ [sysExEnd])).1 =
      sysex7Packets group payload := by
  have hwhole : Emits (Parser.parse group) (· = p) _ _ _ := emits_start.cons (emits_sysExRest hd)
  exact (hwhole p rfl).1

theorem feed_message (m : Message) :
    (feed (Parser.parse group) p m.bytes).1 = m.umps group := by
  cases m with
  | short m => exact feed_short m
  | sysEx payload hd => exact feed_sysEx hd

/-- After any bytes at all, the parser is within its arrays, the SysEx packets it has handed out
belong to messages it has started, and it is ready for any message. -/
theorem synchronisation (hz : Zephyr.Documented) (h : ParserRun trace p) :
    Bounded p ∧
      (∀ before e after, trace = before ++ e :: after → ParserEvent.Follows before e) ∧
      ∀ (m : Message) (group : UInt8),
        (feed (Parser.parse group) p m.bytes).1 = m.umps group := by
  refine ⟨(run_synchronised hz h).bounded, ?_, fun m _ => feed_message m⟩
  rintro before e after rfl
  obtain ⟨s, u, hbefore, hstep⟩ := h.split
  exact take_follows hz (run_synchronised hz hbefore) hstep

end Steps

/-- All inputs make a run. -/
theorem parserRun_trace [Zephyr] (inputs : List ParserInput) (h : ParserRun trace p) :
    ParserRun (trace ++ (p.trace inputs).1) (p.trace inputs).2 := by
  induction inputs generalizing trace p with
  | nil =>
    rw [Parser.trace, List.append_nil]
    exact h
  | cons input rest ih =>
    have hrest := ih (h.snoc (l := (input, (p.take input).1)) rfl)
    rwa [List.append_assoc] at hrest

/-- In the middle of a SysEx message of which two packets have been handed out. -/
theorem synchronisation_continued :
    let r := ({} : Parser).trace ((sysExStart :: List.replicate 13 5).map (.byte · 2))
    (r.1.filterMap Prod.snd).map sysex7Status = [.start, .continue] ∧ Bounded r.2 ∧
      (∀ before e after, r.1 = before ++ e :: after → ParserEvent.Follows before e) ∧
      ∀ (m : Message) (group : UInt8),
        (feed (Parser.parse group) r.2 m.bytes).1 = m.umps group := by
  have hr := parserRun_trace ((sysExStart :: List.replicate 13 5).map (.byte · 2)) (.nil rfl)
  rw [List.nil_append] at hr
  exact ⟨by decide +kernel, synchronisation zephyrMidi_documented hr⟩

end Zlibs.Midi
