import Zlibs.Midi.Synchronisation

/-! Serial lines joined by devices that forward what they read: which packets of an arbitrary
stream of bytes reach the end. -/
namespace Zlibs.Midi
open Lib

section Relay

variable [Zephyr]

/-- `Serial::Transport::write`. -/
def serialWrite {m : Type → Type} [Monad m] (packet : MidiUmp) (writeByte : UInt8 → m Bool) :
    m Bool :=
  writeUmpAsMidi1Bytes packet (umpGroup packet) writeByte

/-- What a serial destination that takes every byte is sent for the packets. `thru` does not look
at the answers. -/
def sentBytes (packets : List MidiUmp) : List UInt8 :=
  packets.foldl (fun sent packet => (serialWrite packet collect sent).2) []

/-- What a line carries behind a device that forwards another line to it. -/
def relay (bytes : List UInt8) : List UInt8 :=
  sentBytes (feed (Parser.parse defaultRxGroup) {} bytes).1

/-- More of the SysEx message is to come. -/
def isOpen (packet : MidiUmp) : Bool :=
  isSysex7Packet packet && !sysex7EndsMessage (sysex7Status packet)

/-- The SysEx message has begun before. -/
def isContinuation (packet : MidiUmp) : Bool :=
  isSysex7Packet packet && !sysex7StartsMessage (sysex7Status packet)

/-- The packets without those that end in the middle of a SysEx message. -/
def settle : List MidiUmp → List MidiUmp
  | [] => []
  | packet :: rest =>
    if isOpen packet && !rest.head?.any isContinuation then settle rest
    else packet :: settle rest

end Relay

theorem masked_data {data : UInt8} : data &&& midiDataByteMask < midiStatusMin := by
  have : ∀ d : Fin 256, UInt8.ofFin d &&& midiDataByteMask < midiStatusMin := by decide +kernel
  exact this data.toFin

theorem writePayloadFrom_masked {payload : List UInt8} {packet : MidiUmp} {i : Nat} :
    writePayloadFrom packet i (payload.map (· &&& midiDataByteMask)) =
      writePayloadFrom packet i payload := by
  induction payload generalizing packet i with
  | nil => rfl
  | cons b rest ih =>
    simp only [List.map_cons, writePayloadFrom, ih, writeSysex7PayloadByte, UInt8.and_assoc,
      UInt8.and_self]

/-- What the bytes alone say: the SysEx messages that end, and how much there is of one that has
not. Any other status byte drops it. -/
def hear (heard : Option (List UInt8)) (data : UInt8) : Option (List UInt8) × Option (List UInt8) :=
  if data = sysExStart then (none, some [])
  else match heard with
    | none => (none, none)
    | some payload =>
      if data = sysExEnd then (some payload, none)
      else if data < midiStatusMin then (none, some (payload ++ [data]))
      else (none, none)

/-- The payload of a packet of a SysEx message that goes on. -/
structure FullChunk where
  bytes : List UInt8
  full : bytes.length = sysex7Data64MaxPayloadSize
  data : ∀ b ∈ bytes, b < midiStatusMin

/-- A message, or the packets of a SysEx message that was not finished. -/
inductive Piece where
  | whole (m : Message)
  | cut (chunks : List FullChunk)

namespace Piece

def bytes : Piece → List UInt8
  | whole m => m.bytes
  | cut [] => []
  | cut (c :: rest) => sysExStart :: (c :: rest).flatMap (·.bytes)

def sysEx? : Piece → Option (List UInt8)
  | whole (.sysEx payload _) => some payload
  | _ => none

/-- The last packet of an unfinished SysEx message stays behind in the next parser. -/
def passed : Piece → Piece
  | whole m => whole m
  | cut chunks => cut chunks.dropLast

end Piece

section Pieces

variable [Zephyr] {group running status data : UInt8} {multi : Bool} {p : Parser}
  {buffered : List UInt8} {pieces : List Piece} {heard after : Option (List UInt8)}

def chunkPackets (group : UInt8) (multi : Bool) : List FullChunk → List MidiUmp
  | [] => []
  | c :: rest =>
    sysex7Packet group (if multi then .continue else .start) c.bytes :: chunkPackets group true rest

def Piece.umps (group : UInt8) : Piece → List MidiUmp
  | whole m => m.umps group
  | cut chunks => chunkPackets group false chunks

/-- A status byte is read as by a parser with no message under way. -/
theorem feed_status {rest : List UInt8} (hs : midiStatusMin ≤ status) (hn : status ≠ sysExStart)
    (he : status ≠ sysExEnd) (p : Parser) :
    ∃ q r, Idle r q ∧ feed (Parser.parse group) p (status :: rest) =
      feed (Parser.parse group) q (status :: rest) := by
  obtain h | h := @parse_status group status _ p hs hn he
  · exact ⟨p.reset, 0, idle_initial, by simp only [feed, h]⟩
  · exact ⟨p, _, h, rfl⟩

theorem emits_message_anywhere (m : Message) :
    Emits (Parser.parse group) (fun _ => True) m.bytes (m.umps group) (fun _ => True) := by
  cases m with
  | sysEx payload hd => exact (emits_start.cons (emits_sysExRest hd)).mono (fun _ h => h) fun _ _ => trivial
  | short m =>
    intro p _
    obtain ⟨hs, hn, he⟩ := known_status m.known
    obtain ⟨q, r, hq, hf⟩ := @feed_status _ group _ m.dataBytes hs hn he p
    refine ⟨?_, trivial⟩
    show (feed (Parser.parse group) p (m.status :: m.dataBytes)).1 = _
    rw [hf]
    exact (emits_short m q hq).1

/-- Bytes that fit into the buffer. -/
theorem emits_sysExFits {payload : List UInt8} (hd : ∀ b ∈ payload, b < midiStatusMin)
    (hl : buffered.length + payload.length ≤ sysex7Data64MaxPayloadSize) :
    Emits (Parser.parse group) (InSysex buffered multi) payload []
      (InSysex (buffered ++ payload) multi) := by
  induction payload generalizing buffered with
  | nil => simpa using Emits.nil
  | cons b rest ih =>
    rw [List.length_cons] at hl
    have hb : Emits (Parser.parse group) (InSysex buffered multi) [b] []
        (InSysex (buffered ++ [b]) multi) := emits_sysExByte (hd b List.mem_cons_self) (by omega)
    rw [List.append_cons]
    exact hb.cons (ih (fun b h => hd b (List.mem_cons_of_mem _ h)) (by simp; omega))

/-- The first byte of a chunk hands out the chunk before it. -/
theorem emits_chunk (c : FullChunk) (hl : buffered.length = sysex7Data64MaxPayloadSize) :
    Emits (Parser.parse group) (InSysex buffered multi) c.bytes
      [sysex7Packet group (if multi then .continue else .start) buffered]
      (InSysex c.bytes true) := by
  obtain ⟨xs, hf, hd⟩ := c
  cases xs with
  | nil => exact absurd hf (by decide)
  | cons b rest =>
    have hfit : [b].length + rest.length ≤ sysex7Data64MaxPayloadSize := by
      simp only [List.length_cons, List.length_nil] at hf ⊢
      omega
    exact (emits_sysExFull (hd b List.mem_cons_self) hl).cons
      (emits_sysExFits (fun b h => hd b (List.mem_cons_of_mem _ h)) hfit)

theorem emits_chunks (rest : List FullChunk) (c : FullChunk) :
    Emits (Parser.parse group) (InSysex c.bytes multi) (rest.flatMap (·.bytes))
      (chunkPackets group multi (c :: rest).dropLast) (fun _ => True) := by
  induction rest generalizing c multi with
  | nil => exact Emits.nil.mono (fun _ h => h) fun _ _ => trivial
  | cons d rest ih => exact (emits_chunk d c.full).append (ih d)

theorem emits_piece_anywhere (x : Piece) :
    Emits (Parser.parse group) (fun _ => True) x.bytes (x.passed.umps group) (fun _ => True) := by
  cases x with
  | whole m => exact emits_message_anywhere m
  | cut chunks =>
    cases chunks with
    | nil => exact Emits.nil
    | cons c rest =>
      have hfirst : Emits (Parser.parse group) (InSysex [] false) c.bytes [] (InSysex c.bytes false) :=
        emits_sysExFits c.data (by simp [c.full])
      exact emits_start.cons (hfirst.append (emits_chunks rest c))

theorem emits_pieces_anywhere (pieces : List Piece) :
    Emits (Parser.parse group) (fun _ => True) (pieces.flatMap (·.bytes))
      (pieces.flatMap fun x => x.passed.umps group) (fun _ => True) := by
  induction pieces with
  | nil => exact Emits.nil
  | cons x rest ih => exact (emits_piece_anywhere x).append ih

section Documented

variable (hz : Zephyr.Documented) (hg : group < 16)

theorem group_of_midi1Bytes {packet : MidiUmp} {bytes : List UInt8}
    (h : midi1Bytes packet group = some bytes) : umpGroup packet = group := by
  unfold midi1Bytes at h
  split at h
  · cases h
  · exact not_not.mp ‹_›

theorem foldl_serialWrite {packets : List MidiUmp} {bytes sent : List UInt8}
    (h : streamBytes group packets = some bytes) :
    packets.foldl (fun sent packet => (serialWrite packet collect sent).2) sent = sent ++ bytes := by
  induction packets generalizing bytes sent with
  | nil =>
    cases h
    simp
  | cons packet rest ih =>
    obtain ⟨bs, cs, hm, hr, rfl⟩ := exists_of_streamBytes_cons h
    have hw : (serialWrite packet collect sent).2 = sent ++ bs := by
      simp [serialWrite, writeUmpAsMidi1Bytes, group_of_midi1Bytes hm, hm, writeEach_collect]
    rw [List.foldl_cons, hw, ih hr, List.append_assoc]

theorem sentBytes_stream {packets : List MidiUmp} {bytes : List UInt8}
    (h : streamBytes group packets = some bytes) : sentBytes packets = bytes :=
  foldl_serialWrite h

include hz hg

theorem streamBytes_chunkPackets (c : FullChunk) (rest : List FullChunk) :
    streamBytes group (chunkPackets group multi (c :: rest)) =
      some ((if multi then [] else [sysExStart]) ++ (c :: rest).flatMap (·.bytes)) := by
  have hc := midi1Bytes_sysex7Packet hz hg (t := if multi then .continue else .start)
    c.full.le c.data
  induction rest generalizing c multi with
  | nil =>
    rw [chunkPackets, chunkPackets, streamBytes_cons hc streamBytes_nil]
    cases multi <;> simp [sysex7StartsMessage, sysex7EndsMessage]
  | cons d more ih =>
    have hd := midi1Bytes_sysex7Packet hz hg (t := .continue) d.full.le d.data
    rw [chunkPackets, streamBytes_cons hc (@ih true d hd)]
    cases multi <;> simp [sysex7StartsMessage, sysex7EndsMessage]

theorem streamBytes_pieces (pieces : List Piece) :
    streamBytes group (pieces.flatMap (·.umps group)) = some (pieces.flatMap (·.bytes)) := by
  induction pieces with
  | nil => rfl
  | cons x rest ih =>
    refine streamBytes_append ?_ ih
    cases x with
    | whole m => exact streamBytes_umps hz hg m
    | cut chunks =>
      cases chunks with
      | nil => rfl
      | cons c rest => exact streamBytes_chunkPackets hz hg c rest

theorem isOpen_sysex7Packet {t : SysEx7Status} {payload : List UInt8} (hl : payload.length ≤ 6) :
    isOpen (sysex7Packet group t payload) = !sysex7EndsMessage t ∧
      isContinuation (sysex7Packet group t payload) = !sysex7StartsMessage t := by
  simp [isOpen, isContinuation, sysex7Packet_isSysex7 hz hl hg, sysex7Packet_status hz hl hg]

omit hg in
theorem short_other (m : ShortMessage) : isSysex7Packet (m.ump group) = false := by
  unfold ShortMessage.ump
  split
  · exact channelVoice_other hz
  · exact system_other hz

omit hz hg in
theorem settle_keep {packet : MidiUmp} {rest : List MidiUmp}
    (h : isOpen packet = false ∨ rest.head?.any isContinuation = true) :
    settle (packet :: rest) = packet :: settle rest := by
  obtain h | h := h <;> simp [settle, h]

theorem settle_packetsFrom {first : Bool} {cs : List (List UInt8)} (hne : cs ≠ [])
    (hl : ∀ c ∈ cs, c.length ≤ 6) (rest : List MidiUmp) :
    settle (packetsFrom group first cs ++ rest) = packetsFrom group first cs ++ settle rest := by
  induction cs generalizing first with
  | nil => exact absurd rfl hne
  | cons c more ih =>
    have hc := fun t => isOpen_sysex7Packet hz hg (t := t) (hl c List.mem_cons_self)
    cases more with
    | nil =>
      rw [packetsFrom, packetsFrom, List.cons_append, settle_keep (.inl ?_)]
      · rfl
      · rw [(hc _).1]
        cases first <;> rfl
    | cons d more =>
      have hd := isOpen_sysex7Packet hz hg (t := chunkStatus false more.isEmpty)
        (hl d (List.mem_cons_of_mem _ List.mem_cons_self))
      have hrest := @ih false (List.cons_ne_nil d more)
        (fun c h => hl c (List.mem_cons_of_mem _ h))
      rw [packetsFrom, List.cons_append, settle_keep (.inr ?_), hrest]
      · rfl
      · rw [packetsFrom, List.cons_append, List.head?_cons, Option.any_some, hd.2]
        cases more <;> rfl

/-- The last packet of the unfinished message goes. -/
theorem settle_chunkPackets {rest : List MidiUmp} (c : FullChunk) (cs : List FullChunk)
    (hr : rest.head?.any isContinuation = false) :
    settle (chunkPackets group multi (c :: cs) ++ rest) =
      chunkPackets group multi (c :: cs).dropLast ++ settle rest := by
  induction cs generalizing c multi with
  | nil =>
    have hc := isOpen_sysex7Packet hz hg (t := if multi then .continue else .start) c.full.le
    have ho : isOpen (sysex7Packet group (if multi then .continue else .start) c.bytes) = true := by
      rw [hc.1]
      cases multi <;> rfl
    simp [chunkPackets, settle, ho, hr]
  | cons d more ih =>
    have hd := isOpen_sysex7Packet hz hg (t := .continue) d.full.le
    rw [chunkPackets, List.cons_append, settle_keep (.inr ?_), @ih true d]
    · rfl
    · rw [chunkPackets, List.cons_append, List.head?_cons, Option.any_some]
      exact hd.2

/-- No piece begins with the rest of a message. -/
theorem head_pieces (pieces : List Piece) :
    (pieces.flatMap (·.umps group)).head?.any isContinuation = false := by
  induction pieces with
  | nil => rfl
  | cons x rest ih =>
    rw [List.flatMap_cons]
    cases x with
    | whole m =>
      cases m with
      | short m => simp [Piece.umps, Message.umps, isContinuation, short_other hz m]
      | sysEx payload hd =>
        obtain ⟨c, cs, hc⟩ := List.exists_cons_of_ne_nil (chunks_ne_nil (n := 6) (x := payload))
        have hl : c.length ≤ 6 :=
          length_of_mem_chunks (by decide) (hc ▸ List.mem_cons_self : c ∈ chunks 6 payload)
        have hs := isOpen_sysex7Packet hz hg (t := chunkStatus true cs.isEmpty) hl
        have hu : Piece.umps group (.whole (.sysEx payload hd)) =
            packetsFrom group true (c :: cs) := congrArg (packetsFrom group true) hc
        rw [hu, packetsFrom, List.cons_append, List.head?_cons, Option.any_some, hs.2]
        cases cs <;> rfl
    | cut chunks =>
      cases chunks with
      | nil => exact ih
      | cons c cs => exact (isOpen_sysex7Packet hz hg (t := .start) c.full.le).2

theorem settle_pieces (pieces : List Piece) :
    settle (pieces.flatMap (·.umps group)) = pieces.flatMap fun x => x.passed.umps group := by
  induction pieces with
  | nil => rfl
  | cons x rest ih =>
    rw [List.flatMap_cons, List.flatMap_cons, ← ih]
    cases x with
    | whole m =>
      cases m with
      | short m => exact settle_keep (.inl (by simp [isOpen, short_other hz m]))
      | sysEx payload hd =>
        exact settle_packetsFrom hz hg chunks_ne_nil
          (fun c hc => length_of_mem_chunks (by decide) hc) _
    | cut chunks =>
      cases chunks with
      | nil => rfl
      | cons c cs => exact settle_chunkPackets hz hg c cs (head_pieces hz hg rest)

end Documented

omit [Zephyr] in
theorem hear_start {heard : Option (List UInt8)} : hear heard sysExStart = (none, some []) := rfl

omit [Zephyr] in
theorem hear_none (hn : data ≠ sysExStart) : hear none data = (none, none) := by
  simp only [hear, if_neg hn]

omit [Zephyr] in
theorem hear_end {payload : List UInt8} : hear (some payload) sysExEnd = (some payload, none) := rfl

omit [Zephyr] in
theorem hear_data {payload : List UInt8} (hd : data < midiStatusMin) :
    hear (some payload) data = (none, some (payload ++ [data])) := by
  have hn : data ≠ sysExStart := fun h => by subst h; exact absurd hd (by decide)
  have he : data ≠ sysExEnd := fun h => by subst h; exact absurd hd (by decide)
  simp only [hear, if_neg hn, if_neg he, if_pos hd]

omit [Zephyr] in
theorem hear_status {heard : Option (List UInt8)} (hs : midiStatusMin ≤ data)
    (hn : data ≠ sysExStart) (he : data ≠ sysExEnd) : hear heard data = (none, none) := by
  cases heard with
  | none => exact hear_none hn
  | some payload => simp only [hear, if_neg hn, if_neg he, if_neg (UInt8.not_lt.mpr hs)]

/-- No SysEx message is under way. -/
inductive Outside (p : Parser) : Prop
  | idle {running : UInt8} (h : Idle running p)
      (hr : running = 0 ∨ isChannelMessage (typeFromStatusByte running))
  | begun {status : UInt8} {received : List UInt8} {left : Nat}
      (h : Awaiting (status :: received) (dataCount (typeFromStatusByte status) + 1) p)
      (hc : dataCount (typeFromStatusByte status) = received.length + left + 1)
      (hd : ∀ b ∈ received, b < midiStatusMin)

/-- What has been read so far, what it holds of a SysEx message under way, and where it leaves the
parser. -/
inductive Heard (pieces : List Piece) (heard : Option (List UInt8)) (p : Parser) : Prop
  | outside (h : Outside p) (hh : heard = none)
  | first {buffered : List UInt8} (h : InSysex buffered false p)
      (hd : ∀ b ∈ buffered, b < midiStatusMin) (hh : heard = some buffered)
  | more {front : List Piece} {c : FullChunk} {cs : List FullChunk} {buffered : List UInt8}
      (he : pieces = front ++ [.cut (c :: cs)]) (h : InSysex buffered true p)
      (hd : ∀ b ∈ buffered, b < midiStatusMin) (hb : buffered ≠ [])
      (hh : heard = some ((c :: cs).flatMap (·.bytes) ++ buffered))

omit [Zephyr] in
theorem known_of_dataCount (hc : 0 < dataCount (typeFromStatusByte status)) :
    isChannelMessage (typeFromStatusByte status) ∨ isSystemCommon (typeFromStatusByte status) ∨
      isSystemRealTime (typeFromStatusByte status) := by
  cases ht : typeFromStatusByte status <;> simp_all [dataCount, isChannelMessage, isSystemCommon]

/-- A message with at least one data byte. -/
def shortOf (status data1 data2 : UInt8) (hc : 0 < dataCount (typeFromStatusByte status))
    (h1 : data1 < midiStatusMin) (h2 : data2 < midiStatusMin)
    (hu : dataCount (typeFromStatusByte status) = 1 → data2 = 0) : ShortMessage where
  status := status
  data1 := data1
  data2 := data2
  known := known_of_dataCount hc
  data1_lt := h1
  data2_lt := h2
  unused1 h := absurd (Nat.lt_one_iff.mp h) hc.ne'
  unused2 h := hu (le_antisymm (Nat.lt_succ_iff.mp h) hc)

/-- The pieces account for a byte: what it completes is a message. -/
def Accounted (pieces : List Piece) (heard : Option (List UInt8)) (group : UInt8) (p : Parser)
    (data : UInt8) : Prop :=
  ∃ pieces', Heard pieces' (hear heard data).2 (feed (Parser.parse group) p [data]).2 ∧
    pieces'.flatMap (·.umps group) =
      pieces.flatMap (·.umps group) ++ (feed (Parser.parse group) p [data]).1 ∧
    pieces'.filterMap Piece.sysEx? = pieces.filterMap Piece.sysEx? ++ (hear heard data).1.toList

theorem accounted_none {P Q : Parser → Prop} (h : Emits (Parser.parse group) P [data] [] Q)
    (hp : P p) (hh : hear heard data = (none, after)) (hq : ∀ t, Q t → Heard pieces after t) :
    Accounted pieces heard group p data := by
  obtain ⟨ho, ht⟩ := h p hp
  exact ⟨pieces, by rw [hh]; exact hq _ ht, by rw [ho, List.append_nil], by simp [hh]⟩

theorem accounted_short {P Q : Parser → Prop} (m : ShortMessage)
    (h : Emits (Parser.parse group) P [data] (Message.umps group (.short m)) Q)
    (hp : P p) (hh : hear heard data = (none, none)) (hq : ∀ t, Q t → Outside t) :
    Accounted pieces heard group p data := by
  obtain ⟨ho, ht⟩ := h p hp
  refine ⟨pieces ++ [.whole (.short m)], .outside (hq _ ht) (by rw [hh]), by simp [ho, Piece.umps], ?_⟩
  rw [hh, List.filterMap_append]
  rfl

omit [Zephyr] in
theorem outside_after {t : Parser} (h : Idle (runningAfter status) t)
    (hs : midiStatusMin ≤ status) : Outside t := by
  refine .idle h ?_
  unfold runningAfter
  split_ifs with hlt
  · exact .inr (channel_status.mpr ⟨hs, hlt⟩)
  · exact .inl rfl

omit [Zephyr] in
theorem sysEx_status (h : typeFromStatusByte data = .sysEx) : data = sysExStart := by
  have : ∀ b : Fin 256, typeFromStatusByte (UInt8.ofFin b) = .sysEx →
      UInt8.ofFin b = sysExStart := by decide +kernel
  exact this data.toFin h

theorem emits_unknown (hs : midiStatusMin ≤ data) (hn : data ≠ sysExStart)
    (ht : typeFromStatusByte data = .invalid) :
    Emits (Parser.parse group) (Idle running) [data] [] (Idle 0) := by
  refine Emits.one fun p hp => ?_
  rw [parse_idle hp hn, parseFirst_status hs]
  simp only [ht]
  exact ⟨rfl, idle_initial⟩

/-- A status byte that starts no SysEx message, with no message under way. -/
theorem accounted_idle (hs : midiStatusMin ≤ data) (hn : data ≠ sysExStart) (hp : Idle running p)
    (hr : running = 0 ∨ isChannelMessage (typeFromStatusByte running))
    (hh : hear heard data = (none, none)) : Accounted pieces heard group p data := by
  cases hc : dataCount (typeFromStatusByte data) with
  | succ n =>
    refine accounted_none (emits_begin hs hn hc) hp hh fun t ht => .outside ?_ rfl
    have hleft : dataCount (typeFromStatusByte data) = ([] : List UInt8).length + n + 1 := by
      simp [hc]
    exact .begun (by rw [hc]; exact ht) hleft (by simp)
  | zero =>
    by_cases hk : isSystemRealTime (typeFromStatusByte data) = true ∨
        typeFromStatusByte data = .sysCommonTuneRequest
    · let m : ShortMessage := ⟨data, 0, 0, by
        rcases hk with h | h
        · exact .inr (.inr h)
        · exact .inr (.inl (by rw [h]; rfl)), by decide, by decide, fun _ => rfl, fun _ => rfl⟩
      have he : Emits (Parser.parse group) (Idle running) [data] [m.ump group] (Idle running) := by
        rw [single_ump (m := m) hc]
        exact emits_single hs hn hk
      exact accounted_short m he hp hh fun t ht => .idle ht hr
    · have ht : typeFromStatusByte data = .invalid := by
        cases ht : typeFromStatusByte data with
        | sysEx => exact absurd (sysEx_status ht) hn
        | _ => simp_all [dataCount, isSystemRealTime]
      exact accounted_none (emits_unknown hs hn ht) hp hh fun t ht => .outside (.idle ht (.inl rfl)) rfl

/-- Whatever was under way, the byte is read as by a parser that has been reset. -/
theorem accounted_reset (hs : midiStatusMin ≤ data) (hn : data ≠ sysExStart)
    (h : Parser.parse group p data = Parser.parse group p.reset data)
    (hh : hear heard data = (none, none)) : Accounted pieces heard group p data := by
  have ha : Accounted pieces heard group p.reset data :=
    accounted_idle hs hn idle_initial (.inl rfl) hh
  unfold Accounted feed at ha ⊢
  rw [h]
  exact ha

/-- The packets of a message of full chunks and some more bytes. -/
theorem packetsFrom_chunks (hb : buffered ≠ []) (hl : buffered.length ≤ sysex7Data64MaxPayloadSize)
    (c : FullChunk) (cs : List FullChunk) :
    packetsFrom group (!multi)
        (chunks sysex7Data64MaxPayloadSize ((c :: cs).flatMap (·.bytes) ++ buffered)) =
      chunkPackets group multi (c :: cs) ++ [sysex7Packet group .end buffered] := by
  have hpos : 0 < buffered.length := List.length_pos_iff.mpr hb
  have cut (c : FullChunk) (rest : List UInt8) (h : 0 < rest.length) (multi : Bool) :
      packetsFrom group (!multi) (chunks sysex7Data64MaxPayloadSize (c.bytes ++ rest)) =
        sysex7Packet group (if multi then .continue else .start) c.bytes ::
          packetsFrom group false (chunks sysex7Data64MaxPayloadSize rest) := by
    have hf := c.full
    have hgt : sysex7Data64MaxPayloadSize < (c.bytes ++ rest).length := by
      rw [List.length_append]
      omega
    rw [chunks_of_gt (by decide) hgt, ← hf, List.take_left, List.drop_left, packetsFrom,
      List.isEmpty_eq_false_iff.mpr chunks_ne_nil]
    cases multi <;> rfl
  induction cs generalizing c multi with
  | nil =>
    rw [List.flatMap_singleton, cut c buffered hpos, chunks_of_le hl]
    rfl
  | cons d ds ih =>
    rw [List.flatMap_cons, List.append_assoc, cut c _ (by rw [List.length_append]; omega)]
    exact congrArg (List.cons _) (@ih true d)

theorem chunkPackets_concat (c d : FullChunk) (cs : List FullChunk) :
    chunkPackets group multi (c :: (cs ++ [d])) =
      chunkPackets group multi (c :: cs) ++ [sysex7Packet group .continue d.bytes] := by
  induction cs generalizing c multi with
  | nil => rfl
  | cons e cs ih => exact congrArg (List.cons _) (@ih true e)

theorem accounted_outside (h : Outside p) (data : UInt8) (hn : data ≠ sysExStart) :
    Accounted pieces none group p data := by
  have hh : hear none data = (none, none) := hear_none hn
  cases h with
  | @idle running h hr =>
    by_cases hs : midiStatusMin ≤ data
    · exact accounted_idle hs hn h hr hh
    have hd : data < midiStatusMin := UInt8.not_le.mp hs
    rcases hr with rfl | hr
    · exact accounted_none (emits_noise (.inl hd)) h hh fun t ht => .outside (.idle ht (.inl rfl)) rfl
    have hlow : midiStatusMin ≤ running := (channel_status.mp hr).1
    obtain hc | hc : dataCount (typeFromStatusByte running) = 1 ∨
        dataCount (typeFromStatusByte running) = 2 := by
      cases ht : typeFromStatusByte running <;> simp_all [isChannelMessage, dataCount]
    · let m := shortOf running data 0 (by omega) hd (by decide) fun _ => rfl
      have he : Emits (Parser.parse group) (Idle running) [data] [m.ump group]
          (Idle (runningAfter running)) := by
        rw [← shortUmp_eq]
        exact emits_running_whole hd hr hc
      exact accounted_short m he h hh fun t ht => outside_after ht hlow
    · refine accounted_none (emits_running_begin hd hr hc) h hh fun t ht => .outside ?_ rfl
      have hleft : dataCount (typeFromStatusByte running) = [data].length + 0 + 1 := hc
      have hw : Awaiting [running, data] (dataCount (typeFromStatusByte running) + 1) t := by
        rw [hc]
        exact ht
      exact @Outside.begun _ running [data] 0 hw hleft (by simpa using hd)
  | @begun status received left h hc hd' =>
    by_cases hs : midiStatusMin ≤ data
    · refine accounted_reset hs hn ?_ hh
      rw [h.interrupt hs hn, Parser.parse_reset p group data hn]
    have hd : data < midiStatusMin := UInt8.not_le.mp hs
    have hlow : midiStatusMin ≤ status := by
      refine UInt8.not_lt.mp fun hlt => ?_
      rw [data_type hlt] at hc
      cases hc
    cases left with
    | succ left =>
      refine accounted_none (emits_more hd ?_) h hh fun t ht => .outside ?_ rfl
      · simp only [List.length_cons]
        omega
      · have hleft : dataCount (typeFromStatusByte status) =
            (received ++ [data]).length + left + 1 := by
          simp only [List.length_append, List.length_singleton]
          omega
        refine .begun ht hleft fun b hb => ?_
        obtain hb | hb := List.mem_append.mp hb
        · exact hd' b hb
        · exact List.mem_singleton.mp hb ▸ hd
    | zero =>
      have hlast : Emits (Parser.parse group)
          (Awaiting (status :: received) (dataCount (typeFromStatusByte status) + 1)) [data]
          [shortUmp group status ((received ++ [data]).getD 0 0) ((received ++ [data]).getD 1 0)]
          (Idle (runningAfter status)) := emits_last hd (by simp [hc])
      have hle := dataCount_le (typeFromStatusByte status)
      cases received with
      | nil =>
        let m := shortOf status data 0 (by omega) hd (by decide) fun _ => rfl
        refine accounted_short m ?_ h hh fun t ht => outside_after ht hlow
        rw [Message.umps, ← shortUmp_eq]
        exact hlast
      | cons first rest =>
        obtain rfl : rest = [] := by
          refine List.length_eq_zero_iff.mp ?_
          rw [List.length_cons] at hc
          omega
        let m := shortOf status first data (by omega) (hd' first List.mem_cons_self) hd
          (by intro h1; rw [h1] at hc; cases hc)
        refine accounted_short m ?_ h hh fun t ht => outside_after ht hlow
        rw [Message.umps, ← shortUmp_eq]
        exact hlast

theorem accounted_sysEx {buffered : List UInt8} (h : InSysex buffered multi p)
    (hn : data ≠ sysExStart) (he : data ≠ sysExEnd) (hs : midiStatusMin ≤ data) :
    Accounted pieces heard group p data := by
  obtain hr | hi := @parse_status group data _ p hs hn he
  · exact accounted_reset hs hn hr (hear_status hs hn he)
  · exact absurd (hi.2.1.symm.trans h.active) Bool.false_ne_true

omit [Zephyr] in
theorem all_concat (hd : ∀ b ∈ buffered, b < midiStatusMin) (h : data < midiStatusMin) :
    ∀ b ∈ buffered ++ [data], b < midiStatusMin := by
  intro b hb
  obtain hb | hb := List.mem_append.mp hb
  · exact hd b hb
  · exact List.mem_singleton.mp hb ▸ h

theorem accounted (h : Heard pieces heard p) (data : UInt8) : Accounted pieces heard group p data := by
  by_cases hn : data = sysExStart
  · subst hn
    exact accounted_none (P := fun _ => True) emits_start trivial hear_start fun t ht =>
      .first ht (by simp) rfl
  cases h with
  | outside h hh => exact hh ▸ accounted_outside h data hn
  | @first buffered h hd hh =>
    subst hh
    by_cases he : data = sysExEnd
    · subst he
      have hend : Emits (Parser.parse group) (InSysex buffered false) [sysExEnd] _ _ := emits_sysExEnd
      obtain ⟨ho, ht⟩ := hend p h
      refine ⟨pieces ++ [.whole (.sysEx buffered hd)], ?_, ?_, ?_⟩
      · rw [hear_end]
        exact .outside (.idle ht (.inl rfl)) rfl
      · have hu : Message.umps group (.sysEx buffered hd) =
            [sysex7Packet group .complete buffered] := by
          rw [Message.umps, sysex7Packets, chunks_of_le h.fits]
          rfl
        rw [ho, List.flatMap_append, List.flatMap_singleton, Piece.umps, hu]
        rfl
      · rw [hear_end, List.filterMap_append]
        rfl
    by_cases hs : midiStatusMin ≤ data
    · exact accounted_sysEx h hn he hs
    have hdata : data < midiStatusMin := UInt8.not_le.mp hs
    obtain hlt | heq := Nat.lt_or_eq_of_le h.fits
    · exact accounted_none (emits_sysExByte hdata hlt) h (hear_data hdata) fun t ht =>
        .first ht (all_concat hd hdata) rfl
    · have hfull : Emits (Parser.parse group) (InSysex buffered false) [data] _ _ :=
        emits_sysExFull hdata heq
      obtain ⟨ho, ht⟩ := hfull p h
      refine ⟨pieces ++ [.cut [⟨buffered, heq, hd⟩]], ?_, ?_, ?_⟩
      · rw [hear_data hdata]
        exact .more rfl ht (by simpa using hdata) (by simp) (by simp)
      · rw [ho, List.flatMap_append]
        rfl
      · rw [hear_data hdata, List.filterMap_append]
        rfl
  | @more front c cs buffered hp h hd hb hh =>
    subst hh
    by_cases he : data = sysExEnd
    · subst he
      have hend : Emits (Parser.parse group) (InSysex buffered true) [sysExEnd] _ _ := emits_sysExEnd
      obtain ⟨ho, ht⟩ := hend p h
      have hpayload : ∀ b ∈ (c :: cs).flatMap (·.bytes) ++ buffered, b < midiStatusMin := by
        intro b hb
        obtain hb | hb := List.mem_append.mp hb
        · obtain ⟨chunk, -, hb⟩ := List.mem_flatMap.mp hb
          exact chunk.data b hb
        · exact hd b hb
      refine ⟨front ++ [.whole (.sysEx _ hpayload)], ?_, ?_, ?_⟩
      · rw [hear_end]
        exact .outside (.idle ht (.inl rfl)) rfl
      · have hu := @packetsFrom_chunks _ group false _ hb h.fits c cs
        rw [ho, hp, List.flatMap_append, List.flatMap_append, List.append_assoc,
          List.flatMap_singleton, List.flatMap_singleton]
        exact congrArg _ hu
      · rw [hear_end, hp, List.filterMap_append, List.filterMap_append, List.append_assoc]
        rfl
    by_cases hs : midiStatusMin ≤ data
    · exact accounted_sysEx h hn he hs
    have hdata : data < midiStatusMin := UInt8.not_le.mp hs
    obtain hlt | heq := Nat.lt_or_eq_of_le h.fits
    · exact accounted_none (emits_sysExByte hdata hlt) h (hear_data hdata) fun t ht =>
        .more hp ht (all_concat hd hdata) (by simp) (by rw [List.append_assoc])
    · have hfull : Emits (Parser.parse group) (InSysex buffered true) [data] _ _ :=
        emits_sysExFull hdata heq
      obtain ⟨ho, ht⟩ := hfull p h
      refine ⟨front ++ [.cut (c :: (cs ++ [⟨buffered, heq, hd⟩]))], ?_, ?_, ?_⟩
      · rw [hear_data hdata]
        exact .more rfl ht (by simpa using hdata) (by simp) (by simp)
      · rw [ho, hp, List.flatMap_append, List.flatMap_append, List.append_assoc,
          List.flatMap_singleton, List.flatMap_singleton]
        exact congrArg _ (chunkPackets_concat c _ cs)
      · rw [hear_data hdata, hp, List.filterMap_append, List.filterMap_append, List.append_assoc]
        rfl

/-- The parser reads pieces, whose whole SysEx messages are those that the bytes say. -/
theorem heard_bytes (bytes : List UInt8) :
    ∃ pieces, Heard pieces (feed hear none bytes).2 (feed (Parser.parse group) {} bytes).2 ∧
      (feed (Parser.parse group) {} bytes).1 = pieces.flatMap (·.umps group) ∧
      (feed hear none bytes).1 = pieces.filterMap Piece.sysEx? := by
  induction bytes using List.reverseRecOn with
  | nil => exact ⟨[], .outside (.idle idle_initial (.inl rfl)) rfl, rfl, rfl⟩
  | append_singleton bytes data ih =>
    obtain ⟨pieces, hp, ho, hm⟩ := ih
    obtain ⟨pieces', hp', ho', hm'⟩ : Accounted pieces _ group _ data := accounted hp data
    rw [feed_append, feed_append, ho, hm]
    refine ⟨pieces', hp', ho'.symm, ?_⟩
    rw [hm']
    simp [feed]

/-- Behind any number of devices, the packets are those of the first line without the last ones of
unfinished SysEx messages, one for each device. Streams of whole messages pass unchanged. -/
theorem relays_settle (hz : Zephyr.Documented) (bytes : List UInt8) (k : Nat) :
    let packets := fun bytes => (feed (Parser.parse defaultRxGroup) {} bytes).1
    packets (relay^[k] bytes) = settle^[k] (packets bytes) ∧
      ∀ messages : List Message, packets bytes = messages.flatMap (·.umps defaultRxGroup) →
        packets (relay^[k] bytes) = packets bytes := by
  intro packets
  have hone : ∀ bytes, packets (relay bytes) = settle (packets bytes) := by
    intro bytes
    obtain ⟨pieces, -, hp, -⟩ := @heard_bytes _ defaultRxGroup bytes
    have hs : relay bytes = pieces.flatMap (·.bytes) :=
      (congrArg sentBytes hp).trans (sentBytes_stream (streamBytes_pieces hz (by decide) pieces))
    have hf := (@emits_pieces_anywhere _ defaultRxGroup pieces {} trivial).1
    show (feed (Parser.parse defaultRxGroup) {} (relay bytes)).1 = settle _
    rw [hs, hf, ← settle_pieces hz (by decide), ← hp]
  have hmany : packets (relay^[k] bytes) = settle^[k] (packets bytes) := by
    induction k with
    | zero => rfl
    | succ k ih => rw [Function.iterate_succ_apply', Function.iterate_succ_apply', hone, ih]
  refine ⟨hmany, fun messages hm => ?_⟩
  have hfix : settle (packets bytes) = packets bytes := by
    have hw := settle_pieces hz (by decide : defaultRxGroup < 16) (messages.map Piece.whole)
    rw [List.flatMap_map, List.flatMap_map] at hw
    rw [hm]
    exact hw
  rw [hmany, Function.iterate_fixed hfix]

end Pieces

/-- A SysEx message that a note breaks off after eight bytes, behind one device. -/
theorem relays_settle_note :
    (feed (Parser.parse defaultRxGroup) {}
      (relay^[1] [0xF0, 1, 2, 3, 4, 5, 6, 7, 8, 0x93, 60, 64])).1 =
        [midi1ChannelVoiceUmp 0 0x93 60 64] :=
  (relays_settle zephyrMidi_documented _ 1).1.trans (by decide +kernel)

end Zlibs.Midi
