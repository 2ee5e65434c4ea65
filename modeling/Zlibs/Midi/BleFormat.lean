import Zlibs.Midi.BleRoundTrip

/-! BLE packets as any sender may lay them out, and what is read from them. -/
namespace Zlibs.Midi
open Lib

/-- A MIDI byte of a packet, with the timestamp before it if there is one. -/
structure BleItem where
  timestamp : Option UInt8
  data : UInt8

namespace BleItem

def bytes (item : BleItem) : List UInt8 := item.timestamp.toList ++ [item.data]

/-- A status byte has a timestamp; a data byte may have one. -/
structure Valid (item : BleItem) : Prop where
  status : ∀ timestamp, item.timestamp = some timestamp → timestamp &&& midiStatusMin ≠ 0
  stamped : item.timestamp = none → item.data &&& midiStatusMin = 0

end BleItem

/-- A packet of a header and the given items. -/
structure IsPacket (capacity : Nat) (items : List BleItem) (packet : BlePacket) : Prop where
  layout : ∃ header, packet = header :: items.flatMap BleItem.bytes
  valid : ∀ item ∈ items, item.Valid
  fits : packet.length ≤ capacity

/-- A timestamp that does not begin its packet is found outside SysEx only. -/
def Legible : Bool → List BleItem → Prop
  | _, [] => True
  | active, item :: rest =>
    (item.timestamp ≠ none → active = false) ∧ Legible (sysexAfter active item.data) rest

/-- The first timestamp of a packet is found in any case, and the one of the second item not
directly after a data byte that begins the packet. -/
def LegiblePacket (active : Bool) : List BleItem → Prop
  | [] => True
  | item :: rest =>
    (item.timestamp = none → ∀ next ∈ rest.head?, next.timestamp = none) ∧
      Legible (sysexAfter active item.data) rest

def activeAfter (active : Bool) (items : List BleItem) : Bool :=
  (items.map BleItem.data).foldl sysexAfter active

def LegiblePackets : Bool → List (List BleItem) → Prop
  | _, [] => True
  | active, items :: rest =>
    LegiblePacket active items ∧ LegiblePackets (activeAfter active items) rest

def midiBytes (packets : List (List BleItem)) : List UInt8 :=
  packets.flatten.map BleItem.data

section Reading

variable {capacity : Nat} {item : BleItem} {items : List BleItem} {t : BleTransport}

/-- Where the transport is within the packet at hand, if it has one: `items` are left of it. -/
def AtItem (capacity : Nat) (items : List BleItem) (t : BleTransport) : Prop :=
  t.rxPacketActive = false ∧ items = [] ∨
    t.rxPacketActive = true ∧ t.rxPacket.length ≤ capacity ∧
      t.rxPacket.drop t.rxPacketIndex = items.flatMap BleItem.bytes ∧
      t.rxSearchTimestamp = (items.head?.any fun item => item.timestamp.isSome)

/-- A timestamp is expected next exactly if the next item has one. -/
theorem timestampNext_spec {active : Bool} (hv : ∀ item ∈ items, item.Valid)
    (hl : Legible active items) :
    (!active && (items.flatMap BleItem.bytes).head?.any fun next => next &&& midiStatusMin ≠ 0) =
      items.head?.any fun item => item.timestamp.isSome := by
  cases items with
  | nil => simp
  | cons item rest =>
    obtain ⟨hstatus, hstamped⟩ := hv item (by simp)
    cases ht : item.timestamp with
    | none => simp [BleItem.bytes, ht, hstamped ht]
    | some timestamp =>
      have hactive := hl.1 (by simp [ht])
      simp [BleItem.bytes, ht, hactive, hstatus timestamp ht]

/-- The byte of an item whose timestamp has been passed. -/
theorem scanPacket_byte (hs : t.rxSearchTimestamp = false) (hv : ∀ item ∈ items, item.Valid)
    {data : UInt8} (hl : Legible (sysexAfter t.rxSysexActive data) items) :
    t.scanPacket (data :: items.flatMap BleItem.bytes) = (some data, { t with
      rxPacketIndex := t.rxPacketIndex + 1
      rxSysexActive := sysexAfter t.rxSysexActive data
      rxSearchTimestamp := items.head?.any fun item => item.timestamp.isSome }) := by
  have hn := timestampNext_spec hv hl
  simp only [BleTransport.scanPacket, hs, Bool.false_eq_true, if_false]
  unfold sysexAfter at hn ⊢
  rw [hn]

/-- The first item that is left of the packet at hand. -/
theorem scanPacket_item (hs : t.rxSearchTimestamp = item.timestamp.isSome)
    (hv : ∀ i ∈ item :: items, i.Valid)
    (hl : Legible (sysexAfter t.rxSysexActive item.data) items) :
    t.scanPacket ((item :: items).flatMap BleItem.bytes) = (some item.data, { t with
      rxPacketIndex := t.rxPacketIndex + item.bytes.length
      rxSysexActive := sysexAfter t.rxSysexActive item.data
      rxSearchTimestamp := items.head?.any fun item => item.timestamp.isSome }) := by
  have hrest : ∀ i ∈ items, i.Valid := fun i hi => hv i (List.mem_cons_of_mem _ hi)
  cases ht : item.timestamp with
  | none =>
    rw [ht] at hs
    have hd := scanPacket_byte (t := t) hs hrest hl
    simpa [List.flatMap_cons, BleItem.bytes, ht] using hd
  | some timestamp =>
    rw [ht] at hs
    have hstatus := (hv item (by simp)).status timestamp ht
    have hd := scanPacket_byte (t := { t with
      rxPacketIndex := t.rxPacketIndex + 1
      rxSearchTimestamp := false }) rfl hrest hl
    have hskip : t.scanPacket (timestamp :: item.data :: items.flatMap BleItem.bytes) = _ :=
      scanPacket_timestamp hs hstatus
    rw [hd] at hskip
    simpa [List.flatMap_cons, BleItem.bytes, ht] using hskip

theorem readPacket_item (ha : AtItem capacity (item :: items) t)
    (hv : ∀ i ∈ item :: items, i.Valid)
    (hl : Legible (sysexAfter t.rxSysexActive item.data) items) :
    ∃ u, t.readPacket capacity = (some item.data, u) ∧ AtItem capacity items u ∧
      u.received = t.received ∧ u.rxSysexActive = sysexAfter t.rxSysexActive item.data ∧
      u.parser = t.parser := by
  obtain ⟨_, hnil⟩ | ⟨hact, hfits, hd, hs⟩ := ha
  · cases hnil
  · have hscan := scanPacket_item (t := t) (by simpa using hs) hv hl
    refine ⟨_, by rw [BleTransport.readPacket, if_neg (by omega), hd, hscan], ?_⟩
    refine ⟨.inr ⟨hact, hfits, ?_, rfl⟩, rfl, rfl, rfl⟩
    have hdrop := congrArg (List.drop item.bytes.length) hd
    simpa [List.drop_drop, List.flatMap_cons] using hdrop

theorem sysexAfter_data {active : Bool} {data : UInt8} (h : data &&& midiStatusMin = 0) :
    sysexAfter active data = active := by
  have hs : data ≠ sysExStart := by
    rintro rfl
    exact absurd h (by decide)
  have he : data ≠ sysExEnd := by
    rintro rfl
    exact absurd h (by decide)
  simp [sysexAfter, hs, he]

/-- The first byte of a packet. -/
theorem readPacket_first {packet : BlePacket} (waiting : List BlePacket)
    (hp : IsPacket capacity (item :: items) packet)
    (hl : LegiblePacket t.rxSysexActive (item :: items)) :
    ∃ u, (t.takePacket packet waiting).readPacket capacity = (some item.data, u) ∧
      AtItem capacity items u ∧ u.received = waiting ∧
      u.rxSysexActive = sysexAfter t.rxSysexActive item.data ∧ u.parser = t.parser := by
  obtain ⟨⟨header, rfl⟩, hv, hfits⟩ := hp
  have hread : (t.takePacket (header :: (item :: items).flatMap BleItem.bytes) waiting).rxPacket.drop
      (t.takePacket (header :: (item :: items).flatMap BleItem.bytes) waiting).rxPacketIndex =
        (item :: items).flatMap BleItem.bytes := rfl
  cases ht : item.timestamp with
  | some timestamp =>
    refine readPacket_item (.inr ⟨rfl, hfits, hread, ?_⟩) hv hl.2
    simp [BleTransport.takePacket, ht]
  | none =>
    have hstamped := (hv item (by simp)).stamped ht
    have hnext : (items.head?.any fun item => item.timestamp.isSome) = false := by
      have hnone := hl.1 ht
      cases items with
      | nil => rfl
      | cons next rest => simp [hnone next rfl]
    have hbytes : (item :: items).flatMap BleItem.bytes = item.data :: items.flatMap BleItem.bytes := by
      simp [List.flatMap_cons, BleItem.bytes, ht]
    refine ⟨{ t.takePacket (header :: (item :: items).flatMap BleItem.bytes) waiting with
      rxPacketIndex := 2
      rxSearchTimestamp := false }, ?_, .inr ⟨rfl, hfits, ?_, hnext.symm⟩, rfl, ?_, rfl⟩
    · have hcap : ¬ (t.takePacket (header :: (item :: items).flatMap BleItem.bytes)
          waiting).rxPacket.length > capacity := Nat.not_lt.mpr hfits
      rw [BleTransport.readPacket, if_neg hcap, hread, hbytes]
      simp [BleTransport.takePacket, BleTransport.scanPacket, hstamped]
    · simp [BleTransport.takePacket, hbytes]
    · exact (sysexAfter_data hstamped).symm

/-- The bytes still to be handed over: of the packet at hand and of the packets to come. -/
structure Unread (capacity : Nat) (items : List BleItem) (packets : List (List BleItem))
    (t : BleTransport) : Prop where
  place : AtItem capacity items t
  valid : ∀ item ∈ items, item.Valid
  legible : Legible t.rxSysexActive items
  received : List.Forall₂ (IsPacket capacity) packets t.received
  packets : LegiblePackets (activeAfter t.rxSysexActive items) packets

/-- The next byte, if one is left, and what is left then. -/
def Next (capacity : Nat) (bytes : List UInt8) (t : BleTransport)
    (r : Option UInt8 × BleTransport) : Prop :=
  match bytes with
  | [] => r.1 = none
  | data :: rest => r.1 = some data ∧ r.2.parser = t.parser ∧
    ∃ items packets, rest = items.map BleItem.data ++ midiBytes packets ∧
      Unread capacity items packets r.2

theorem readPackets_next {packets : List (List BleItem)} {waiting : List BlePacket}
    (hp : List.Forall₂ (IsPacket capacity) packets waiting)
    (hl : LegiblePackets t.rxSysexActive packets) :
    Next capacity (midiBytes packets) t (t.readPackets capacity waiting) := by
  induction hp generalizing t with
  | nil => rfl
  | @cons items packet packets waiting hpacket hrest ih =>
    obtain ⟨hfirst, hlater⟩ := hl
    cases items with
    | nil =>
      -- A packet of a header only.
      obtain ⟨⟨header, rfl⟩, _, hfits⟩ := hpacket
      have hread : (t.takePacket [header] waiting).readPacket capacity =
          (none, { t.takePacket [header] waiting with rxPacketActive := false }) := by
        have hcap : ¬ (t.takePacket [header] waiting).rxPacket.length > capacity :=
          Nat.not_lt.mpr hfits
        rw [BleTransport.readPacket, if_neg hcap]
        rfl
      have hnext := ih (t := { t.takePacket [header] waiting with rxPacketActive := false }) hlater
      simp only [List.flatMap_nil, BleTransport.readPackets, hread]
      exact hnext
    | cons item items =>
      obtain ⟨u, hu, hat, hru, hsu, hpu⟩ := readPacket_first (t := t) waiting hpacket hfirst
      simp only [BleTransport.readPackets, hu]
      refine ⟨rfl, hpu, items, packets, by simp [midiBytes], hat, ?_, ?_, hru ▸ hrest, ?_⟩
      · exact fun i hi => hpacket.valid i (List.mem_cons_of_mem _ hi)
      · rw [hsu]
        exact hfirst.2
      · rw [hsu]
        exact hlater

theorem readMidiByte_next {packets : List (List BleItem)} (h : Unread capacity items packets t) :
    Next capacity (items.map BleItem.data ++ midiBytes packets) t (t.readMidiByte capacity) := by
  obtain ⟨hat, hv, hl, hr, hls⟩ := h
  cases items with
  | nil =>
    have hread : ∃ v : BleTransport, t.readMidiByte capacity = v.readPackets capacity t.received ∧
        v.rxSysexActive = t.rxSysexActive ∧ v.parser = t.parser := by
      unfold BleTransport.readMidiByte
      split
      · rename_i hact
        obtain ⟨hoff, _⟩ | ⟨_, hfits, hd, _⟩ := hat
        · rw [hact] at hoff
          cases hoff
        · rw [BleTransport.readPacket, if_neg (by omega), hd]
          exact ⟨{ t with rxPacketActive := false }, rfl, rfl, rfl⟩
      · exact ⟨t, rfl, rfl, rfl⟩
    obtain ⟨v, hv, hvs, hvp⟩ := hread
    have hnext := readPackets_next (t := v) hr (by rw [hvs]; exact hls)
    rw [hv]
    simp only [List.map_nil, List.nil_append]
    unfold Next at hnext ⊢
    rw [hvp] at hnext
    exact hnext
  | cons item items =>
    have hact : t.rxPacketActive = true := by
      obtain ⟨_, hnil⟩ | ⟨hact, _⟩ := hat
      · cases hnil
      · exact hact
    obtain ⟨u, hu, hau, hru, hsu, hpu⟩ := readPacket_item hat hv hl.2
    have hread : t.readMidiByte capacity = (some item.data, u) := by
      simp [BleTransport.readMidiByte, hact, hu]
    rw [hread]
    refine ⟨rfl, hpu, items, packets, rfl, hau, ?_, ?_, hru ▸ hr, ?_⟩
    · exact fun i hi => hv i (List.mem_cons_of_mem _ hi)
    · rw [hsu]
      exact hl.2
    · rw [hsu]
      exact hls

variable [Zephyr]

/-- Reading hands the parser the MIDI bytes that are left, without a timestamp among them. -/
theorem readAll_unread {bytes : List UInt8} {packets : List (List BleItem)}
    (hb : bytes = items.map BleItem.data ++ midiBytes packets)
    (h : Unread capacity items packets t) :
    t.readAll capacity = (feed (Parser.parse defaultRxGroup) t.parser bytes).1 := by
  induction bytes generalizing t items packets with
  | nil =>
    have hnext := readMidiByte_next h
    rw [← hb] at hnext
    have hread : t.readMidiByte capacity = (none, (t.readMidiByte capacity).2) := by
      rw [← (show (t.readMidiByte capacity).1 = none from hnext)]
    rw [BleTransport.readAll_none (BleTransport.read_none hread), feed_nil]
  | cons b rest ih =>
    have hnext := readMidiByte_next h
    rw [← hb] at hnext
    obtain ⟨hdata, hp, items', packets', hrest, hleft⟩ := hnext
    generalize hu : (t.readMidiByte capacity).2 = u at hp hleft
    have hr := BleTransport.read_some (u := u) (by rw [← hdata, ← hu])
    rw [hp] at hr
    rcases hparse : Parser.parse defaultRxGroup t.parser b with ⟨_ | packet, parser⟩
    · have hlater := ih (t := { u with parser := parser }) hrest
        ⟨hleft.place, hleft.valid, hleft.legible, hleft.received, hleft.packets⟩
      simp only [hparse] at hr
      rw [BleTransport.readAll_congr hr, hlater]
      simp [feed, hparse]
    · have hlater := ih (t := { u with parser := parser }) hrest
        ⟨hleft.place, hleft.valid, hleft.legible, hleft.received, hleft.packets⟩
      simp only [hparse] at hr
      rw [BleTransport.readAll_some hr, hlater]
      simp [feed, hparse]

end Reading

section CutOff

variable [Zephyr] {group : UInt8} {buffered : List UInt8} {multi : Bool}

/-- A short message puts an end to the SysEx message. -/
theorem emits_short_cut (m : ShortMessage) :
    Emits (Parser.parse group) (InSysex buffered multi) m.bytes [m.ump group] (Idle (m.leaves 0)) := by
  obtain ⟨hs, hn, he⟩ := known_status m.known
  intro p hp
  have hfirst : Parser.parse group p m.status = Parser.parse group p.reset m.status := by
    refine (parse_status hs hn he).resolve_right fun hidle => ?_
    exact absurd (hidle.2.1.symm.trans hp.active) nofun
  have hfeed : feed (Parser.parse group) p m.bytes = feed (Parser.parse group) p.reset m.bytes := by
    simp only [ShortMessage.bytes, feed, hfirst]
  rw [hfeed]
  exact emits_short m p.reset idle_initial

theorem emits_transmitted_cut {messages : List Message} {bytes : List UInt8}
    (h : Transmitted none messages bytes) {p : Parser} (hp : InSysex buffered multi p) :
    (feed (Parser.parse group) p bytes).1 = messages.flatMap (·.umps group) := by
  cases h with
  | nil => rfl
  | whole m h =>
    cases m with
    | short m =>
      have hrest : Emits (Parser.parse group) (InSysex buffered multi) _ _ _ :=
        (emits_short_cut m).append (emits_transmitted h fun s hs => leaves_channelStatus hs)
      exact (hrest p hp).1
    | sysEx payload data =>
      have hrest : Emits (Parser.parse group) (InSysex buffered multi) _ _ _ :=
        (emits_start.cons (emits_sysExRest data)).append
          (emits_transmitted h fun s hs => by cases hs)
      exact (hrest p hp).1

end CutOff

/-- All the packets received so far have been read, and the last message of them is complete or is
a SysEx message without its end. -/
structure Rested (t : BleTransport) : Prop where
  packet : t.rxPacketActive = false
  parser : (∃ running, Idle running t.parser) ∨ ∃ buffered multi, InSysex buffered multi t.parser

/-- Messages laid out in packets are read as they were, if every timestamp is where the transport
looks for one. -/
theorem ble_reads_format [Zephyr] {capacity : Nat} {t : BleTransport} {messages : List Message}
    {packets : List (List BleItem)} (hr : Rested t)
    (hp : List.Forall₂ (IsPacket capacity) packets t.received)
    (hm : Transmitted none messages (midiBytes packets))
    (hl : LegiblePackets t.rxSysexActive packets) :
    t.readAll capacity = messages.flatMap (·.umps defaultRxGroup) := by
  have hleft : Unread capacity [] packets t := ⟨.inl ⟨hr.packet, rfl⟩, nofun, trivial, hp, hl⟩
  rw [readAll_unread rfl hleft]
  rcases hr.parser with ⟨running, hidle⟩ | ⟨buffered, multi, hin⟩
  · exact (emits_transmitted hm (fun s hs => by cases hs) t.parser hidle).1
  · exact emits_transmitted_cut hm hin

/-- A SysEx message that was cut off has been read, and a note is to be. -/
def cutOffNote [Zephyr] : BleTransport where
  received := [[0x80, 0x85, 0x93, 60, 64]]
  rxSysexActive := true
  parser := (feed (Parser.parse defaultRxGroup) {} [0xF0, 1]).2

theorem ble_reads_format_note : cutOffNote.readAll 20 =
    [Message.short (noteMessage 60 (.inl rfl))].flatMap (·.umps defaultRxGroup) := by
  have hcut : Emits (Parser.parse defaultRxGroup) (Idle 0) [0xF0, 1] [] (InSysex [1] false) :=
    emits_sysExStart.cons (emits_sysExByte (by decide) (by decide))
  refine @ble_reads_format _ 20 cutOffNote [.short (noteMessage 60 (.inl rfl))]
    [[⟨some 0x85, 0x93⟩, ⟨none, 60⟩, ⟨none, 64⟩]] ?_ ?_ (.whole _ .nil)
    ⟨⟨nofun, by decide, by decide, trivial⟩, trivial⟩
  · exact ⟨rfl, .inr ⟨_, _, (hcut {} idle_initial).2⟩⟩
  · refine .cons ⟨⟨0x80, rfl⟩, ?_, by decide⟩ .nil
    intro item hi
    simp only [List.mem_cons, List.not_mem_nil, or_false] at hi
    rcases hi with rfl | rfl | rfl
    · exact ⟨fun timestamp ht => by cases ht; decide, nofun⟩
    · exact ⟨nofun, fun _ => by decide⟩
    · exact ⟨nofun, fun _ => by decide⟩

theorem read_skip [Zephyr] {capacity : Nat} {t u : BleTransport} {data : UInt8} {parser : Parser}
    (h : t.readMidiByte capacity = (some data, u))
    (hp : Parser.parse defaultRxGroup u.parser data = (none, parser)) :
    t.read capacity = { u with parser := parser }.read capacity := by
  rw [BleTransport.read_some h, hp]

/-- The end of a SysEx message has a timestamp, as any status byte, and the message is lost. -/
theorem stamped_end_lost :
    let packets : List (List BleItem) := [[⟨some 0x80, 0xF0⟩, ⟨none, 1⟩, ⟨some 0x80, 0xF7⟩]]
    let messages := [Message.sysEx [1] (by decide +kernel)]
    let t : BleTransport := { received := [[0x80, 0x80, 0xF0, 1, 0x80, 0xF7]] }
    List.Forall₂ (IsPacket 20) packets t.received ∧ Transmitted none messages (midiBytes packets) ∧
      t.readAll 20 = [] ∧ messages.flatMap (·.umps defaultRxGroup) ≠ [] := by
  refine ⟨.cons ⟨⟨0x80, rfl⟩, ?_, by decide⟩ .nil, .whole _ .nil, ?_, ?_⟩
  · intro item hi
    simp only [List.mem_cons, List.not_mem_nil, or_false] at hi
    rcases hi with rfl | rfl | rfl
    · exact ⟨fun timestamp ht => by cases ht; decide, nofun⟩
    · exact ⟨nofun, fun _ => by decide⟩
    · exact ⟨fun timestamp ht => by cases ht; decide, nofun⟩
  · apply BleTransport.readAll_none
    rw [read_skip rfl rfl, read_skip rfl rfl, read_skip rfl rfl, read_skip rfl rfl]
    exact BleTransport.read_none rfl
  · simp [Message.umps, sysex7Packets, chunks_of_le, sysex7Data64MaxPayloadSize, packetsFrom]

end Zlibs.Midi
