import Zlibs.Midi.Fields

/-! A SysEx payload as packets: the loop of the source, run with fuel, and what it hands to the
writer. -/
namespace Zlibs.Midi
open Lib

/-- A writer that keeps the packets it is given and accepts some. -/
def recorder (accept : List MidiUmp → MidiUmp → Bool) (packet : MidiUmp) :
    StateM (List MidiUmp) Bool :=
  fun written => (accept written packet, written ++ [packet])

variable {accept : List MidiUmp → MidiUmp → Bool} {packets written : List MidiUmp}

theorem writeEach_recorder_all (h : ∀ written packet, accept written packet = true) :
    writeEach (recorder accept) packets written = (true, written ++ packets) := by
  induction packets generalizing written with
  | nil => rw [writeEach_nil, List.append_nil]
  | cons packet packets ih =>
    rw [writeEach_cons]
    simp only [recorder, h, if_true]
    rw [ih, List.append_assoc, List.singleton_append]

theorem writeEach_recorder_refused {k : Nat} (hk : k < packets.length)
    (hbefore : ∀ j (hj : j < k), accept (written ++ packets.take j) packets[j] = true)
    (hrefused : accept (written ++ packets.take k) packets[k] = false) :
    writeEach (recorder accept) packets written = (false, written ++ packets.take (k + 1)) := by
  induction packets generalizing written k with
  | nil => exact absurd hk (Nat.not_lt_zero _)
  | cons packet packets ih =>
    rw [writeEach_cons]
    cases k with
    | zero =>
      rw [List.take_zero, List.append_nil] at hrefused
      have hfirst : ¬ (recorder accept packet written).1 = true := ne_true_of_eq_false hrefused
      rw [if_neg hfirst]
      rfl
    | succ k =>
      have hfirst : accept written packet = true := by simpa using hbefore 0 (Nat.succ_pos k)
      have hrest : writeEach (recorder accept) packets (written ++ [packet]) =
          (false, written ++ [packet] ++ packets.take (k + 1)) := by
        apply ih (by simpa using hk)
        · intro j hj
          simpa using hbefore (j + 1) (Nat.succ_lt_succ hj)
        · simpa using hrefused
      refine (if_pos hfirst).trans (hrest.trans ?_)
      rw [List.append_assoc, List.singleton_append, List.take_succ_cons]

theorem masked_lt {group : UInt8} : group &&& lowNibbleMask < 16 := by
  have : ∀ d : Fin 256, UInt8.ofFin d &&& lowNibbleMask < 16 := by decide +kernel
  exact this group.toFin

section Loop

variable [Zephyr] {σ : Type} {group : UInt8} {payload : List UInt8} {packet : MidiUmp}
  {write : MidiUmp → StateM σ Bool} {s : σ} {fuel offset i : Nat} {first : Bool}

/-- The loop of `write_sysex7_payload_as_ump_packets`, from an offset into the payload; nothing if
the fuel runs out. -/
def payloadLoop (group : UInt8) (payload : List UInt8) (write : MidiUmp → StateM σ Bool) :
    (fuel offset : Nat) → σ → Option (Bool × σ)
  | 0, _, _ => none
  | fuel + 1, offset, s =>
    let chunkSize := min (payload.length - offset) sysex7Data64MaxPayloadSize
    let firstChunk : Bool := offset = 0
    let lastChunk : Bool := offset + chunkSize = payload.length
    let packet := sysex7Packet group (chunkStatus firstChunk lastChunk)
      ((payload.drop offset).take chunkSize)
    match write packet s with
    | (false, s) => some (false, s)
    | (true, s) =>
      if offset + chunkSize < payload.length ∨ payload.isEmpty then
        payloadLoop group payload write fuel (offset + chunkSize) s
      else some (true, s)

/-- The call returns, with a result and a state of the writer. -/
def Returns (group : UInt8) (payload : List UInt8) (write : MidiUmp → StateM σ Bool) (s : σ)
    (result : Bool × σ) : Prop :=
  ∃ fuel, payloadLoop group payload write fuel 0 s = some result

theorem payloadLoop_succ : payloadLoop group payload write (fuel + 1) offset s =
    let chunkSize := min (payload.length - offset) sysex7Data64MaxPayloadSize
    let r := write (sysex7Packet group
      (chunkStatus (offset = 0 : Bool) (offset + chunkSize = payload.length : Bool))
      ((payload.drop offset).take chunkSize)) s
    if r.1 then
      if offset + chunkSize < payload.length ∨ payload.isEmpty then
        payloadLoop group payload write fuel (offset + chunkSize) r.2
      else some (true, r.2)
    else some (false, r.2) := by
  simp only [payloadLoop]
  split <;> rename_i h <;> rw [h] <;> rfl

/-- From an offset on the loop writes the packets of the rest. -/
theorem payloadLoop_eq (hf : payload.length - offset ≤ fuel) (ho : offset < payload.length) :
    payloadLoop group payload write fuel offset s =
      some (writeEach write (packetsFrom group (offset = 0 : Bool)
        (chunks sysex7Data64MaxPayloadSize (payload.drop offset))) s) := by
  induction fuel generalizing offset s with
  | zero => omega
  | succ fuel ih =>
    have hne : payload.isEmpty = false := by
      cases payload with
      | nil => exact absurd ho (Nat.not_lt_zero _)
      | cons x rest => rfl
    have hlen : (payload.drop offset).length = payload.length - offset := List.length_drop ..
    rw [payloadLoop_succ]
    by_cases hlast : payload.length - offset ≤ sysex7Data64MaxPayloadSize
    · have hsize : min (payload.length - offset) sysex7Data64MaxPayloadSize =
          payload.length - offset := Nat.min_eq_left hlast
      have hend : offset + (payload.length - offset) = payload.length := by omega
      rw [chunks_of_le (hlen.le.trans hlast), packetsFrom, packetsFrom, writeEach_cons]
      simp only [hsize, hend, hne, Nat.lt_irrefl, decide_true, List.isEmpty_nil, writeEach_nil,
        List.take_of_length_le hlen.le]
      split_ifs <;> simp_all
    · have hsize : min (payload.length - offset) sysex7Data64MaxPayloadSize =
          sysex7Data64MaxPayloadSize := Nat.min_eq_right (by omega)
      have hmore : offset + sysex7Data64MaxPayloadSize < payload.length := by omega
      have hrest := @ih (write (sysex7Packet group (chunkStatus (offset = 0 : Bool) false)
        ((payload.drop offset).take sysex7Data64MaxPayloadSize)) s).2
        (offset + sysex7Data64MaxPayloadSize) (by unfold sysex7Data64MaxPayloadSize; omega) hmore
      have hfirst : ¬ offset + sysex7Data64MaxPayloadSize = 0 := nofun
      have hmany : (chunks sysex7Data64MaxPayloadSize
          (payload.drop (offset + sysex7Data64MaxPayloadSize))).isEmpty = false := by
        rw [List.isEmpty_eq_false_iff]
        exact chunks_ne_nil
      rw [decide_eq_false hfirst] at hrest
      rw [chunks_of_gt (by decide) (by omega), List.drop_drop, packetsFrom, writeEach_cons, hmany]
      simp only [hsize, hmore, hmore.ne, decide_false, true_or, if_true, hrest]
      split_ifs <;> rfl

/-- Of an empty payload the loop never ends while the packets are accepted. -/
theorem payloadLoop_empty (hw : ∀ packet s, (write packet s).1 = true) :
    payloadLoop group [] write fuel 0 s = none := by
  induction fuel generalizing s with
  | zero => rfl
  | succ fuel ih =>
    rw [payloadLoop_succ]
    simp only [hw, if_true]
    exact ih

theorem packetsFrom_length {cs : List (List UInt8)} :
    (packetsFrom group first cs).length = cs.length := by
  induction cs generalizing first with
  | nil => rfl
  | cons c cs ih => rw [packetsFrom, List.length_cons, ih, List.length_cons]

theorem packetsFrom_getElem? {cs : List (List UInt8)} :
    (packetsFrom group first cs)[i]? = cs[i]?.map fun c =>
      sysex7Packet group (chunkStatus (first && i = 0) (i + 1 = cs.length : Bool)) c := by
  induction cs generalizing first i with
  | nil => rfl
  | cons c cs ih =>
    rw [packetsFrom]
    cases i with
    | zero =>
      have hlast : cs.isEmpty = (0 + 1 = (c :: cs).length : Bool) := by cases cs <;> simp
      simp [hlast]
    | succ i => simp [ih]

theorem sysex7Packet_masked {status : SysEx7Status} :
    sysex7Packet (group &&& lowNibbleMask) status payload = sysex7Packet group status payload := by
  unfold sysex7Packet sysex7Header
  rw [UInt8.and_assoc, UInt8.and_self]

/-- The payload bytes of a packet. -/
def payloadBytes (packet : MidiUmp) : List UInt8 :=
  (List.range (sysex7PayloadSize packet)).map (readSysex7PayloadByte packet)

/-- The packets of a payload: as few as can be, all but the last full. -/
structure Packetised (group : UInt8) (payload : List UInt8) (packets : List MidiUmp) : Prop where
  count : packets.length = max 1 ((payload.length + 5) / 6)
  sysex7 : ∀ packet ∈ packets, isSysex7Packet packet = true ∧
    umpGroup packet = group &&& lowNibbleMask
  status : ∀ i packet, packets[i]? = some packet →
    sysex7Status packet = chunkStatus (i = 0 : Bool) (i + 1 = packets.length : Bool)
  full : ∀ i packet, packets[i]? = some packet → i + 1 < packets.length →
    sysex7PayloadSize packet = 6
  payload : (packets.map payloadBytes).flatten = payload

theorem sysex7Packets_getElem? {packet : MidiUmp}
    (h : (sysex7Packets group payload)[i]? = some packet) :
    ∃ c, (chunks sysex7Data64MaxPayloadSize payload)[i]? = some c ∧ c.length ≤ 6 ∧
      packet = sysex7Packet (group &&& lowNibbleMask) (chunkStatus (i = 0 : Bool)
        (i + 1 = (chunks sysex7Data64MaxPayloadSize payload).length : Bool)) c := by
  unfold sysex7Packets at h
  rw [packetsFrom_getElem?, Option.map_eq_some_iff] at h
  obtain ⟨c, hc, rfl⟩ := h
  refine ⟨c, hc, length_of_mem_chunks (by decide) (List.mem_of_getElem? hc), ?_⟩
  rw [sysex7Packet_masked, Bool.true_and]

theorem sysex7Packets_length : (sysex7Packets group payload).length =
    (chunks sysex7Data64MaxPayloadSize payload).length := packetsFrom_length

theorem payloadBytes_packet (hz : Zephyr.Documented) {status : SysEx7Status} {c : List UInt8}
    (hc : c.length ≤ 6) (hb : ∀ b ∈ c, b < midiStatusMin) :
    payloadBytes (sysex7Packet group status c) = c := by
  obtain ⟨_, _, _, hsize⟩ :=
    sysex7Packet_fields hz (t := status) hc (@masked_lt group)
  rw [sysex7Packet_masked] at hsize
  unfold payloadBytes
  rw [hsize, sysex7Packet_payload hz hc]
  rw [List.map_congr_left fun b hbc => and_data_of_lt (hb b hbc), List.map_id']

theorem payloadBytes_packetsFrom (hz : Zephyr.Documented) {cs : List (List UInt8)}
    (hcs : ∀ c ∈ cs, c.length ≤ 6 ∧ ∀ b ∈ c, b < midiStatusMin) :
    ((packetsFrom group first cs).map payloadBytes).flatten = cs.flatten := by
  induction cs generalizing first with
  | nil => rfl
  | cons c cs ih =>
    obtain ⟨hlen, hb⟩ := hcs c (List.mem_cons_self ..)
    rw [packetsFrom, List.map_cons, List.flatten_cons, List.flatten_cons,
      payloadBytes_packet hz hlen hb, ih fun c' hc' => hcs c' (List.mem_cons_of_mem _ hc')]

theorem sysex7Packets_packetised (hz : Zephyr.Documented) (hb : ∀ b ∈ payload, b < midiStatusMin) :
    Packetised group payload (sysex7Packets group payload) where
  count := sysex7Packets_length.trans (chunks_length (by decide))
  sysex7 packet hp := by
    obtain ⟨i, hi⟩ := List.mem_iff_getElem?.mp hp
    obtain ⟨c, _, hlen, rfl⟩ := sysex7Packets_getElem? hi
    exact ⟨sysex7Packet_isSysex7 hz hlen masked_lt, (sysex7Packet_fields hz hlen masked_lt).2.1⟩
  status i packet hi := by
    obtain ⟨c, _, hlen, rfl⟩ := sysex7Packets_getElem? hi
    rw [sysex7Packet_status hz hlen masked_lt, sysex7Packets_length]
  full i packet hi hmore := by
    obtain ⟨c, hc, hlen, rfl⟩ := sysex7Packets_getElem? hi
    rw [sysex7Packets_length] at hmore
    rw [(sysex7Packet_fields hz hlen masked_lt).2.2.2]
    exact chunks_full (by decide) hc hmore
  payload := by
    have hflat : (chunks sysex7Data64MaxPayloadSize payload).flatten = payload :=
      chunks_flatten (by decide)
    unfold sysex7Packets
    rw [payloadBytes_packetsFrom hz, hflat]
    intro c hc
    refine ⟨length_of_mem_chunks (by decide) hc, fun b hbc => hb b ?_⟩
    rw [← hflat]
    exact List.mem_flatten_of_mem hc hbc

/-- The payload is written as its packets by a writer that accepts them all, and up to the packet
that is refused by another. -/
def Packetises (group : UInt8) (payload : List UInt8) : Prop :=
  ∃ packets, Packetised group payload packets ∧
    (∀ accept, (∀ written packet, accept written packet = true) →
      Returns group payload (recorder accept) [] (true, packets)) ∧
    ∀ accept k (hk : k < packets.length),
      (∀ j (hj : j < k), accept (packets.take j) packets[j] = true) →
      accept (packets.take k) packets[k] = false →
      Returns group payload (recorder accept) [] (false, packets.take (k + 1))

/-- Every payload but the empty one is written as its packets. -/
theorem packetises_iff (hz : Zephyr.Documented) (hb : ∀ b ∈ payload, b < midiStatusMin) :
    Packetises group payload ↔ payload ≠ [] := by
  constructor
  · rintro ⟨packets, _, hall, _⟩ rfl
    obtain ⟨fuel, hf⟩ := hall (fun _ _ => true) fun _ _ => rfl
    rw [payloadLoop_empty fun _ _ => rfl] at hf
    exact nomatch hf
  · intro hne
    have hloop : ∀ accept, payloadLoop group payload (recorder accept) payload.length 0 [] =
        some (writeEach (recorder accept) (sysex7Packets group payload) []) := fun accept =>
      payloadLoop_eq (Nat.sub_le ..) (List.length_pos_of_ne_nil hne)
    refine ⟨_, sysex7Packets_packetised hz hb, fun accept h => ?_, fun accept k hk hbefore hr => ?_⟩
    · exact ⟨_, (hloop accept).trans (congrArg some (writeEach_recorder_all h))⟩
    · exact ⟨_, (hloop accept).trans (congrArg some (writeEach_recorder_refused hk hbefore hr))⟩

end Loop

theorem packetises_seven :
    Packetises 0 [1, 2, 3, 4, 5, 6, 7] ↔ ([1, 2, 3, 4, 5, 6, 7] : List UInt8) ≠ [] := by
  refine packetises_iff zephyrMidi_documented fun b hb => ?_
  fin_cases hb <;> decide

/-- The empty payload is written as a packet without bytes again and again. -/
theorem not_packetises_nil : ¬ Packetises 0 [] ∧
    ∀ fuel, payloadLoop 0 [] (recorder fun _ _ => true) fuel 0 [] = none := by
  have hnone : ∀ fuel, payloadLoop 0 [] (recorder fun _ _ => true) fuel 0 [] = none :=
    fun fuel => payloadLoop_empty fun _ _ => rfl
  refine ⟨?_, hnone⟩
  rintro ⟨packets, _, hall, _⟩
  obtain ⟨fuel, hf⟩ := hall (fun _ _ => true) fun _ _ => rfl
  rw [hnone] at hf
  exact nomatch hf

end Zlibs.Midi
