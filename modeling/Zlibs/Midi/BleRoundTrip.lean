import Zlibs.Midi.Ble
import Zlibs.Midi.SerialRoundTrip
import Zlibs.Lib.StateProgram

/-! Packets sent over BLE and read back. -/
namespace Zlibs.Midi
open Lib

/-- A packet of a header, a timestamp and some MIDI bytes. -/
structure IsFrame (capacity : Nat) (part : List UInt8) (packet : BlePacket) : Prop where
  frame : ∃ header timestamp, packet = header :: timestamp :: part ∧
    timestamp &&& midiStatusMin ≠ 0
  carries : part ≠ []
  fits : packet.length ≤ capacity

/-- The packets `ps` carry the bytes, cut anywhere. -/
def Carries (capacity : Nat) (parts : List (List UInt8)) (bytes : List UInt8)
    (ps : List BlePacket) : Prop :=
  List.Forall₂ (IsFrame capacity) parts ps ∧ parts.flatten = bytes

theorem or_status_ne_zero (data : UInt8) : (data ||| midiStatusMin) &&& midiStatusMin ≠ 0 := by
  have : ∀ b : Fin 256, (UInt8.ofFin b ||| midiStatusMin) &&& midiStatusMin ≠ 0 := by
    decide +kernel
  exact this data.toFin

/-- The packets sent since `start` and the one being filled hold the bytes written so far. -/
def Filling (capacity : Nat) (start : List BlePacket) (bytes : List UInt8) (t : BleTransport) :
    Prop :=
  ∃ parts ps current header timestamp, bytes = parts.flatten ++ current ∧
    t.sent = start ++ ps ∧ List.Forall₂ (IsFrame capacity) parts ps ∧
    t.txBuffer = header :: timestamp :: current ∧ timestamp &&& midiStatusMin ≠ 0 ∧
    t.txBuffer.length ≤ capacity

/-- The packets sent since `start` carry the bytes. -/
def Sent (capacity : Nat) (start : List BlePacket) (bytes : List UInt8) (t : BleTransport) :
    Prop :=
  ∃ parts ps, t.sent = start ++ ps ∧ Carries capacity parts bytes ps

section Writing

variable {env : BleEnv} {start : List BlePacket} {bytes : List UInt8} {t : BleTransport}
  (ha : ∀ n, env.accepts n = true) (hc : 3 ≤ env.capacity)

include hc in
theorem startPacket_spec (h : Sent env.capacity start bytes t) :
    wp (BleTransport.startPacket env) (fun _ => Filling env.capacity start bytes) t := by
  obtain ⟨parts, ps, hs, hf, rfl⟩ := h
  refine ⟨parts, ps, [], _, _, (List.append_nil _).symm, ?_, hf, rfl, or_status_ne_zero _,
    Nat.le_trans (by decide : 2 ≤ 3) hc⟩
  exact hs

include ha in
/-- Flushing leaves complete packets only. -/
theorem flushPacket_spec (h : Filling env.capacity start bytes t) :
    wp (BleTransport.flushPacket env) (fun ok u => ok = true ∧ Sent env.capacity start bytes u)
      t := by
  obtain ⟨parts, ps, current, header, timestamp, rfl, hs, hf, hb, ht, hl⟩ := h
  cases current with
  | nil =>
    have hlen : t.txBuffer.length ≤ 2 := by simp [hb]
    simp only [BleTransport.flushPacket, wp_bind, wp_get, hlen, if_true, wp_pure]
    exact ⟨trivial, parts, ps, hs, hf, by simp⟩
  | cons b rest =>
    have hlen : ¬ t.txBuffer.length ≤ 2 := by simp [hb]
    simp only [BleTransport.flushPacket, wp_bind, wp_get, hlen, if_false]
    refine ⟨ha _, parts ++ [b :: rest], ps ++ [t.txBuffer], ?_, ?_, by simp⟩
    · simp [BleTransport.hwaWrite, ha, hs]
    · exact List.rel_append hf (.cons ⟨⟨header, timestamp, hb, ht⟩, by simp, hl⟩ .nil)

theorem pushByte {data : UInt8} (h : Filling env.capacity start bytes t)
    (hl : t.txBuffer.length < env.capacity) :
    Filling env.capacity start (bytes ++ [data]) { t with txBuffer := t.txBuffer ++ [data] } := by
  obtain ⟨parts, ps, current, header, timestamp, rfl, hs, hf, hb, ht, _⟩ := h
  exact ⟨parts, ps, current ++ [data], header, timestamp, by simp, hs, hf, by simp [hb], ht,
    by simpa using hl⟩

include ha hc in
theorem writeMidiByte_spec (data : UInt8) (h : Filling env.capacity start bytes t) :
    wp (BleTransport.writeMidiByte env data) (fun ok u => ok = true ∧
      Filling env.capacity start (bytes ++ [data]) u) t := by
  unfold BleTransport.writeMidiByte
  rw [wp_bind, wp_get]
  refine wp_ite (fun _ => ?_) fun hl => ?_
  · rw [wp_bind]
    refine wp_mono (flushPacket_spec ha h) ?_
    rintro _ u ⟨rfl, hu⟩
    simp only [Bool.not_true, Bool.false_eq_true, if_false]
    rw [wp_bind]
    refine ⟨rfl, pushByte (startPacket_spec hc hu) ?_⟩
    exact Nat.lt_of_lt_of_le (by decide : 2 < 3) hc
  · exact ⟨rfl, pushByte h (by simpa using hl)⟩

include ha hc in
theorem writeBytes_spec {data : List UInt8} (h : Filling env.capacity start bytes t) :
    wp (writeEach (BleTransport.writeMidiByte env) data) (fun ok u => ok = true ∧
      Filling env.capacity start (bytes ++ data) u) t := by
  induction data generalizing bytes t with
  | nil => exact ⟨rfl, by simpa using h⟩
  | cons b rest ih =>
    rw [wp, writeEach_cons]
    obtain ⟨hok, hb⟩ := writeMidiByte_spec ha hc b h
    have hr := ih hb
    rw [List.append_assoc] at hr
    rw [if_pos hok]
    exact hr

variable [Zephyr] {group : UInt8}

include ha hc in
/-- One packet is written whole. -/
theorem write_spec {packet : MidiUmp} {data : List UInt8}
    (hp : midi1Bytes packet group = some data) (h : Sent env.capacity start bytes t) :
    wp (BleTransport.write env packet) (fun ok u => ok = true ∧
      Sent env.capacity start (bytes ++ data) u) t := by
  have hg : umpGroup packet = group := by
    by_contra hne
    simp [midi1Bytes, hne] at hp
  have hw : writeUmpAsMidi1Bytes packet (umpGroup packet) (BleTransport.writeMidiByte env) =
      writeEach (BleTransport.writeMidiByte env) data := by
    simp only [writeUmpAsMidi1Bytes, hg, hp]
  unfold BleTransport.write
  rw [hw, wp_bind]
  refine wp_mono (startPacket_spec hc h) fun _ u hu => ?_
  rw [wp_bind]
  refine wp_mono (writeBytes_spec ha hc hu) ?_
  rintro _ v ⟨rfl, hv⟩
  exact flushPacket_spec ha hv

include ha hc in
theorem writeUmps_spec {packets : List MidiUmp} {data : List UInt8}
    (hp : streamBytes group packets = some data) (h : Sent env.capacity start bytes t) :
    wp (writeEach (BleTransport.write env) packets) (fun ok u => ok = true ∧
      Sent env.capacity start (bytes ++ data) u) t := by
  induction packets generalizing bytes data t with
  | nil =>
    cases hp
    exact ⟨rfl, by simpa using h⟩
  | cons p rest ih =>
    obtain ⟨bs, cs, hm, hr, rfl⟩ := exists_of_streamBytes_cons hp
    obtain ⟨hok, hb⟩ := write_spec ha hc hm h
    have hrest := ih hr hb
    rw [List.append_assoc] at hrest
    rw [wp, writeEach_cons, if_pos hok]
    exact hrest

end Writing

def sysexAfter (active : Bool) (data : UInt8) : Bool :=
  if data = sysExStart then true else if data = sysExEnd then false else active

/-- Outside SysEx no status byte follows another byte. -/
def Quiet : Bool → List UInt8 → Prop
  | _, [] => True
  | active, data :: rest =>
    (sysexAfter active data = true ∨ ∀ next ∈ rest.head?, next &&& midiStatusMin = 0) ∧
      Quiet (sysexAfter active data) rest

def QuietParts : Bool → List (List UInt8) → Prop
  | _, [] => True
  | active, part :: rest => Quiet active part ∧ QuietParts (part.foldl sysexAfter active) rest

theorem Quiet.append {active : Bool} {xs ys : List UInt8} (h : Quiet active (xs ++ ys)) :
    Quiet active xs ∧ Quiet (xs.foldl sysexAfter active) ys := by
  induction xs generalizing active with
  | nil => exact ⟨trivial, h⟩
  | cons b rest ih =>
    obtain ⟨hb, hr⟩ := h
    obtain ⟨hq, hy⟩ := ih hr
    refine ⟨⟨hb.imp_right fun hn next hnext => hn next ?_, hq⟩, hy⟩
    cases rest with
    | nil => cases hnext
    | cons c rest => exact hnext

theorem Quiet.parts {active : Bool} {parts : List (List UInt8)}
    (h : Quiet active parts.flatten) : QuietParts active parts := by
  induction parts generalizing active with
  | nil => trivial
  | cons part rest ih =>
    obtain ⟨hp, hr⟩ := Quiet.append h
    exact ⟨hp, ih hr⟩

theorem QuietParts.append {active : Bool} {ps qs : List (List UInt8)} (hp : QuietParts active ps)
    (hq : QuietParts (ps.flatten.foldl sysexAfter active) qs) :
    QuietParts active (ps ++ qs) := by
  induction ps generalizing active with
  | nil => exact hq
  | cons p rest ih =>
    refine ⟨hp.1, ih hp.2 ?_⟩
    simpa [List.foldl_append] using hq

section Reading

variable {capacity : Nat} {data : UInt8} {rest bytes : List UInt8} {t : BleTransport}

theorem scanPacket_data (hs : t.rxSearchTimestamp = false)
    (hq : Quiet t.rxSysexActive (data :: rest)) :
    t.scanPacket (data :: rest) = (some data, { t with
      rxPacketIndex := t.rxPacketIndex + 1
      rxSysexActive := sysexAfter t.rxSysexActive data
      rxSearchTimestamp := false }) := by
  have hn : (!sysexAfter t.rxSysexActive data &&
      rest.head?.any (fun next => next &&& midiStatusMin ≠ 0)) = false := by
    cases hq.1 with
    | inl h => simp [h]
    | inr h =>
      cases rest with
      | nil => simp
      | cons c more => simp [h c rfl]
  simp only [BleTransport.scanPacket, hs, Bool.false_eq_true, if_false]
  unfold sysexAfter at hn ⊢
  rw [hn]

theorem scanPacket_timestamp (hs : t.rxSearchTimestamp = true)
    (ht : data &&& midiStatusMin ≠ 0) :
    t.scanPacket (data :: rest) = { t with
      rxPacketIndex := t.rxPacketIndex + 1
      rxSearchTimestamp := false }.scanPacket rest := by
  simp [BleTransport.scanPacket, hs, ht]

theorem scanPacket_frame {timestamp : UInt8} (hs : t.rxSearchTimestamp = true)
    (ht : timestamp &&& midiStatusMin ≠ 0) (hq : Quiet t.rxSysexActive (data :: rest)) :
    t.scanPacket (timestamp :: data :: rest) = (some data, { t with
      rxPacketIndex := t.rxPacketIndex + 1 + 1
      rxSysexActive := sysexAfter t.rxSysexActive data
      rxSearchTimestamp := false }) := by
  have hd := scanPacket_data (t := { t with
    rxPacketIndex := t.rxPacketIndex + 1
    rxSearchTimestamp := false }) rfl hq
  rw [scanPacket_timestamp hs ht, hd]

/-- Where the transport is within the packet at hand, if it has one: `part` is left of it. -/
def At (capacity : Nat) (part : List UInt8) (t : BleTransport) : Prop :=
  t.rxPacketActive = false ∧ part = [] ∨
    t.rxPacketActive = true ∧ t.rxSearchTimestamp = false ∧ t.rxPacket.length ≤ capacity ∧
      t.rxPacket.drop t.rxPacketIndex = part

/-- The bytes still to be handed over: the rest of the packet at hand and those of the packets to
come. -/
def Left (capacity : Nat) (bytes : List UInt8) (t : BleTransport) : Prop :=
  ∃ part parts, bytes = part ++ parts.flatten ∧ At capacity part t ∧
    List.Forall₂ (IsFrame capacity) parts t.received ∧ Quiet t.rxSysexActive part ∧
    QuietParts (part.foldl sysexAfter t.rxSysexActive) parts

/-- The next byte of the packet at hand. -/
theorem readPacket_data (ha : At capacity (data :: rest) t)
    (hq : Quiet t.rxSysexActive (data :: rest)) :
    ∃ u, t.readPacket capacity = (some data, u) ∧ At capacity rest u ∧
      u.received = t.received ∧ u.rxSysexActive = sysexAfter t.rxSysexActive data ∧
      u.parser = t.parser := by
  obtain ⟨_, hnil⟩ | ⟨hact, hs, hl, hd⟩ := ha
  · cases hnil
  · refine ⟨{ t with
      rxPacketIndex := t.rxPacketIndex + 1
      rxSysexActive := sysexAfter t.rxSysexActive data
      rxSearchTimestamp := false }, ?_, .inr ⟨hact, rfl, hl, ?_⟩, rfl, rfl, rfl⟩
    · rw [BleTransport.readPacket, if_neg (by omega), hd, scanPacket_data hs hq]
    · have := congrArg (List.drop 1) hd
      simpa [List.drop_drop] using this

theorem readPacket_done (ha : At capacity [] t) (hact : t.rxPacketActive = true) :
    t.readPacket capacity = (none, { t with rxPacketActive := false }) := by
  obtain ⟨h, _⟩ | ⟨_, hs, hl, hd⟩ := ha
  · simp [hact] at h
  · rw [BleTransport.readPacket, if_neg (by omega), hd]
    rfl

/-- The first byte of the next packet. -/
theorem readPackets_frame {packet : BlePacket} (waiting : List BlePacket)
    (hf : IsFrame capacity (data :: rest) packet) (hq : Quiet t.rxSysexActive (data :: rest)) :
    ∃ u, t.readPackets capacity (packet :: waiting) = (some data, u) ∧ At capacity rest u ∧
      u.received = waiting ∧ u.rxSysexActive = sysexAfter t.rxSysexActive data ∧
      u.parser = t.parser := by
  obtain ⟨⟨header, timestamp, rfl, ht⟩, _, hl⟩ := hf
  have hscan := scanPacket_frame (t := t.takePacket (header :: timestamp :: data :: rest) waiting)
    rfl ht hq
  have hread : (t.takePacket (header :: timestamp :: data :: rest) waiting).readPacket capacity =
      (t.takePacket (header :: timestamp :: data :: rest) waiting).scanPacket
        (timestamp :: data :: rest) := by
    rw [BleTransport.readPacket, if_neg (by simp only [BleTransport.takePacket]; omega)]
    simp only [BleTransport.takePacket, List.drop_succ_cons, List.drop_zero] at hscan ⊢
    rw [hscan]
  refine ⟨_, by rw [BleTransport.readPackets, hread, hscan], ?_⟩
  exact ⟨.inr ⟨rfl, rfl, hl, rfl⟩, rfl, rfl, rfl⟩

theorem readMidiByte_left_nil (h : Left capacity [] t) :
    ∃ u, t.readMidiByte capacity = (none, u) := by
  obtain ⟨part, parts, hb, ha, hf, _⟩ := h
  obtain ⟨rfl, hparts⟩ := List.append_eq_nil_iff.mp hb.symm
  have hr : t.received = [] := by
    generalize t.received = waiting at hf
    cases hf with
    | nil => rfl
    | cons h _ => exact absurd (List.append_eq_nil_iff.mp hparts).1 h.carries
  unfold BleTransport.readMidiByte
  split
  · rename_i hact
    rw [readPacket_done ha hact]
    exact ⟨_, by simp only [hr, BleTransport.readPackets]; rfl⟩
  · exact ⟨_, by simp only [hr, BleTransport.readPackets]; rfl⟩

theorem readMidiByte_left_cons (h : Left capacity (data :: bytes) t) :
    ∃ u, t.readMidiByte capacity = (some data, u) ∧ Left capacity bytes u ∧
      u.parser = t.parser := by
  obtain ⟨part, parts, hb, ha, hf, hq, hqs⟩ := h
  cases part with
  | cons b more =>
    simp only [List.cons_append, List.cons.injEq] at hb
    obtain ⟨rfl, rfl⟩ := hb
    obtain ⟨u, hu, hau, hru, hsu, hpu⟩ := readPacket_data ha hq
    have hact : t.rxPacketActive = true := by
      obtain ⟨_, h⟩ | ⟨h, _⟩ := ha
      · cases h
      · exact h
    refine ⟨u, by simp [BleTransport.readMidiByte, hact, hu], ⟨more, parts, rfl, hau, hru ▸ hf,
      hsu ▸ hq.2, hsu ▸ hqs⟩, hpu⟩
  | nil =>
    -- Nothing is left of the packet at hand: the next one is asked for.
    have hread : ∃ v : BleTransport, t.readMidiByte capacity = v.readPackets capacity t.received ∧
        v.rxSysexActive = t.rxSysexActive ∧ v.parser = t.parser := by
      unfold BleTransport.readMidiByte
      split
      · rename_i hact
        rw [readPacket_done ha hact]
        exact ⟨{ t with rxPacketActive := false }, rfl, rfl, rfl⟩
      · exact ⟨t, rfl, rfl, rfl⟩
    obtain ⟨v, hv, hvs, hvp⟩ := hread
    generalize t.received = waiting at hf hv
    cases hf with
    | nil => cases hb
    | @cons part packet parts waiting hframe hrest =>
      cases part with
      | nil => exact absurd rfl hframe.carries
      | cons b more =>
        simp only [List.flatten_cons, List.nil_append, List.cons_append, List.cons.injEq] at hb
        obtain ⟨rfl, rfl⟩ := hb
        obtain ⟨hqp, hqr⟩ := hqs
        simp only [List.foldl_nil] at hqp hqr
        obtain ⟨u, hu, hau, hru, hsu, hpu⟩ :=
          readPackets_frame (t := v) waiting hframe (hvs ▸ hqp)
        rw [hvs] at hsu
        exact ⟨u, hv.trans hu, ⟨more, parts, rfl, hau, hru ▸ hrest, hsu ▸ hqp.2, hsu ▸ hqr⟩,
          hpu.trans hvp⟩

variable [Zephyr]

/-- Reading hands the parser the bytes that are left. -/
theorem readAll_left (h : Left capacity bytes t) :
    t.readAll capacity = (feed (Parser.parse defaultRxGroup) t.parser bytes).1 := by
  induction bytes generalizing t with
  | nil =>
    obtain ⟨u, hu⟩ := readMidiByte_left_nil h
    rw [BleTransport.readAll_none (BleTransport.read_none hu), feed_nil]
  | cons b rest ih =>
    obtain ⟨u, hu, hl, hp⟩ := readMidiByte_left_cons h
    have hr := BleTransport.read_some hu
    rw [hp] at hr
    rcases hparse : Parser.parse defaultRxGroup t.parser b with ⟨_ | packet, parser⟩
    · have hnext := ih (t := { u with parser := parser }) hl
      simp only [hparse] at hr
      rw [BleTransport.readAll_congr hr, hnext]
      simp [feed, hparse]
    · have hnext := ih (t := { u with parser := parser }) hl
      simp only [hparse] at hr
      rw [BleTransport.readAll_some hr, hnext]
      simp [feed, hparse]

end Reading

theorem and_status {data : UInt8} (h : data < midiStatusMin) : data &&& midiStatusMin = 0 := by
  have : ∀ d : Fin 256, UInt8.ofFin d < midiStatusMin → UInt8.ofFin d &&& midiStatusMin = 0 := by
    decide +kernel
  exact this data.toFin h

theorem quiet_data {a : Bool} {data : List UInt8} (hd : ∀ b ∈ data, b < midiStatusMin) :
    Quiet a data ∧ data.foldl sysexAfter a = a := by
  induction data with
  | nil => exact ⟨trivial, rfl⟩
  | cons b rest ih =>
    have hb := hd b (by simp)
    obtain ⟨hq, hf⟩ := ih fun b h => hd b (by simp [h])
    have hs : sysexAfter a b = a := by
      simp [sysexAfter, data_ne_start hb, data_ne_end hb]
    refine ⟨⟨.inr fun next hn => and_status (hd next ?_), by rwa [hs]⟩, by simp [hs, hf]⟩
    exact List.mem_cons_of_mem _ (List.mem_of_mem_head? hn)

/-- Inside SysEx the end byte may follow a data byte. -/
theorem quiet_payload {payload : List UInt8} (hd : ∀ b ∈ payload, b < midiStatusMin) :
    Quiet true (payload ++ [sysExEnd]) ∧
      (payload ++ [sysExEnd]).foldl sysexAfter true = false := by
  induction payload with
  | nil => exact ⟨⟨.inr fun next hn => by simp at hn, trivial⟩, rfl⟩
  | cons b rest ih =>
    have hb := hd b (by simp)
    obtain ⟨hq, hf⟩ := ih fun b h => hd b (by simp [h])
    have hs : sysexAfter true b = true := by
      simp [sysexAfter, data_ne_end hb]
    exact ⟨⟨.inl hs, by rwa [hs]⟩, by simpa [hs] using hf⟩

theorem quiet_message (m : Message) :
    Quiet false m.bytes ∧ m.bytes.foldl sysexAfter false = false := by
  cases m with
  | short m =>
    obtain ⟨_, hn, he⟩ := known_status m.known
    have hd : ∀ b ∈ m.dataBytes, b < midiStatusMin := m.dataBytes_data
    have hs : sysexAfter false m.status = false := by simp [sysexAfter, hn, he]
    obtain ⟨hq, hf⟩ := quiet_data (a := false) hd
    refine ⟨⟨.inr fun next hnext => and_status (hd next (List.mem_of_mem_head? hnext)), ?_⟩, ?_⟩
    · rwa [hs]
    · simpa [Message.bytes, ShortMessage.bytes, hs] using hf
  | sysEx payload data =>
    obtain ⟨hq, hf⟩ := quiet_payload data
    exact ⟨⟨.inl rfl, hq⟩, hf⟩

section Delivered

variable [Zephyr] {env : BleEnv}

theorem writeMessages_spec (hz : Zephyr.Documented) (ha : ∀ n, env.accepts n = true)
    (hc : 3 ≤ env.capacity) {messages : List (UInt8 × Message)} (hg : ∀ m ∈ messages, m.1 < 16)
    (t : BleTransport) :
    wp (writeEach (BleTransport.write env) (messages.flatMap fun m => m.2.umps m.1))
      (fun ok u => ok = true ∧ ∃ parts ps, u.sent = t.sent ++ ps ∧
        Carries env.capacity parts (messages.flatMap (·.2.bytes)) ps ∧
        QuietParts false parts) t := by
  induction messages generalizing t with
  | nil => exact ⟨rfl, [], [], by simp, ⟨.nil, rfl⟩, trivial⟩
  | cons m rest ih =>
    have hstart : Sent env.capacity t.sent [] t := ⟨[], [], by simp, .nil, rfl⟩
    obtain ⟨hok, parts, ps, hs, hf, hbytes⟩ :=
      writeUmps_spec ha hc (streamBytes_umps hz (hg m (by simp)) m.2) hstart
    obtain ⟨hquiet, hend⟩ := quiet_message m.2
    rw [List.nil_append] at hbytes
    rw [← hbytes] at hquiet hend
    obtain ⟨hok', parts', ps', hs', ⟨hf', hbytes'⟩, hq'⟩ :=
      ih (fun m h => hg m (List.mem_cons_of_mem _ h)) _
    rw [List.flatMap_cons, wp, writeEach_append, if_pos hok]
    refine ⟨hok', parts ++ parts', ps ++ ps', ?_, ⟨List.rel_append hf hf', ?_⟩, ?_⟩
    · rw [hs', hs, List.append_assoc]
    · rw [List.flatten_append, hbytes, hbytes', List.flatMap_cons]
    · exact hquiet.parts.append (by rwa [hend])

/-- Packets written to a BLE transport and handed to a freshly initialised one are read as they
were, in the receive group: for every capacity of at least three bytes, at any uptimes. -/
theorem ble_round_trip (hz : Zephyr.Documented) (hc : 3 ≤ env.capacity)
    (ha : ∀ n, env.accepts n = true) {messages : List (UInt8 × Message)}
    (hg : ∀ m ∈ messages, m.1 < 16) (sender receiver : BleTransport) :
    let written := writeEach (BleTransport.write env) (messages.flatMap fun m => m.2.umps m.1)
      sender
    written.1 = true ∧ ∃ packets, written.2.sent = sender.sent ++ packets ∧
      { receiver.init with received := packets }.readAll env.capacity =
        messages.flatMap (·.2.umps defaultRxGroup) := by
  obtain ⟨hok, parts, ps, hs, ⟨hf, hbytes⟩, hq⟩ := writeMessages_spec hz ha hc hg sender
  refine ⟨hok, ps, hs, ?_⟩
  have hleft : Left env.capacity (messages.flatMap (·.2.bytes))
      { receiver.init with received := ps } :=
    ⟨[], parts, by rw [List.nil_append, hbytes], .inl ⟨rfl, rfl⟩, hf, trivial, hq⟩
  have hparse : Emits (Parser.parse defaultRxGroup) (Idle 0)
      ((messages.map Prod.snd).flatMap (·.bytes))
      ((messages.map Prod.snd).flatMap (·.umps defaultRxGroup)) (fun p => ∃ r, Idle r p) :=
    emits_transmitted (transmitted_flatMap none _) fun s hs => by cases hs
  rw [List.flatMap_map, List.flatMap_map] at hparse
  rw [readAll_left hleft]
  exact (hparse {} idle_initial).1

end Delivered

/-- A note and a SysEx message in packets of one MIDI byte each. -/
theorem ble_round_trip_note :
    let env : BleEnv := ⟨3, fun n => 100 * n, fun _ => true⟩
    let messages : List (UInt8 × Message) :=
      [(4, .short (noteMessage 60 (.inl rfl))), (7, .sysEx [1, 2] (by decide +kernel))]
    let written := writeEach (BleTransport.write env) (messages.flatMap fun m => m.2.umps m.1) {}
    written.1 = true ∧ ∃ packets, written.2.sent = packets ∧
      { BleTransport.init {} with received := packets }.readAll 3 =
        messages.flatMap (·.2.umps defaultRxGroup) :=
  ble_round_trip zephyrMidi_documented (by decide) (fun _ => rfl) (by simp) {} {}

end Zlibs.Midi
