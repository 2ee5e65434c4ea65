import Zlibs.Midi.RealTime

/-! Real-time messages go through the parser unnoticed exactly where no message is under way. -/
namespace Zlibs.Midi
open Lib

/-- The bytes of messages with real-time messages before, between and after them. -/
inductive Spaced : Option UInt8 → List Message → List UInt8 → Prop
  | nil {before : Option UInt8} : Spaced before [] []
  | realTime {before : Option UInt8} {messages : List Message} {bytes : List UInt8}
      (status : UInt8) (hs : isRealTimeByte status = true) (h : Spaced before messages bytes) :
      Spaced before messages (status :: bytes)
  | whole {before : Option UInt8} (m : Message) {rest : List Message} {bytes : List UInt8}
      (h : Spaced m.channelStatus rest bytes) : Spaced before (m :: rest) (m.bytes ++ bytes)
  | running (m : ShortMessage) (hc : m.isChannelVoice) {rest : List Message}
      {bytes : List UInt8} (h : Spaced (some m.status) rest bytes) :
      Spaced (some m.status) (.short m :: rest) (m.dataBytes ++ bytes)

theorem Spaced.realTimes {before : Option UInt8} {messages : List Message}
    {front bytes : List UInt8} (hf : ∀ b ∈ front, isRealTimeByte b = true)
    (h : Spaced before messages bytes) : Spaced before messages (front ++ bytes) := by
  induction front with
  | nil => exact h
  | cons b rest ih => exact .realTime b (hf b (by simp)) (ih fun b hb => hf b (by simp [hb]))

theorem dataBytes_ne_nil {m : ShortMessage} (hc : m.isChannelVoice) : m.dataBytes ≠ [] := by
  obtain h | h := ShortMessage.channel_dataCount hc <;> simp [ShortMessage.dataBytes, h]

section Inserted

variable [Zephyr] {group running after first : UInt8} {tail bytes part : List UInt8}
  {us : List MidiUmp}

/-- Wherever the bytes of a message are cut, the parser is waiting for the rest, and some of the
packets are still to come. -/
def Cut (group running first : UInt8) (tail : List UInt8) (us : List MidiUmp) : Prop :=
  ∀ before y rest, tail = before ++ y :: rest →
    ∃ os, Emits (Parser.parse group) (Idle running) (first :: before) os Busy ∧
      os.length < us.length ∧ ∀ u ∈ os, isRealTimeUmp u = false

theorem cut_short (m : ShortMessage) :
    Cut group running m.status m.dataBytes [m.ump group] := by
  intro before y rest h
  obtain ⟨hs, hn, _⟩ := known_status m.known
  have hle := dataCount_le m.type
  have hlen : before.length + 1 + rest.length = dataCount m.type := by
    have := congrArg List.length h
    simp only [ShortMessage.dataBytes, List.length_take, List.length_append, List.length_cons,
      List.length_nil] at this
    omega
  obtain ⟨n, hd⟩ : ∃ n, dataCount m.type = n + 1 := ⟨before.length + rest.length, by omega⟩
  have hb : Emits (Parser.parse group) (Idle running) [m.status] []
      (Awaiting [m.status] (n + 2)) := emits_begin hs hn hd
  cases before with
  | nil => exact ⟨[], hb.mono (fun _ h => h) (fun _ h => .inl ⟨_, _, h⟩), by simp, by simp⟩
  | cons b before =>
    simp only [List.length_cons] at hlen
    have hb' : before = [] := List.length_eq_zero_iff.mp (by omega)
    subst hb'
    have hdata : b < midiStatusMin := m.dataBytes_data b (by rw [h]; simp)
    have hm : Emits (Parser.parse group) (Awaiting [m.status] (n + 2)) [b] []
        (Awaiting [m.status, b] (n + 2)) :=
      emits_more hdata (by simp only [List.length_singleton]; omega)
    exact ⟨[], (hb.append hm).mono (fun _ h => h) (fun _ h => .inl ⟨_, _, h⟩), by simp, by simp⟩

theorem cut_running {m : ShortMessage} (hc : m.isChannelVoice)
    (h : m.dataBytes = first :: tail) : Cut group m.status first tail [m.ump group] := by
  intro before y rest ht
  have hdata : first < midiStatusMin := m.dataBytes_data first (by rw [h]; simp)
  have hlen : before.length + 2 + rest.length = m.dataBytes.length := by
    rw [h, ht]
    simp only [List.length_cons, List.length_append]
    omega
  have hle := dataCount_le m.type
  simp only [ShortMessage.dataBytes, List.length_take, List.length_cons, List.length_nil] at hlen
  have hb' : before = [] := List.length_eq_zero_iff.mp (by omega)
  subst hb'
  exact ⟨[], (emits_running_begin hdata hc (by unfold ShortMessage.type at *; omega)).mono
    (fun _ h => h) (fun _ h => .inl ⟨_, _, h⟩), by simp, by simp⟩

theorem cut_sysEx (hz : Zephyr.Documented) (hg : group < 16) {payload : List UInt8}
    (data : ∀ b ∈ payload, b < midiStatusMin) :
    Cut group running sysExStart (payload ++ [sysExEnd]) (sysex7Packets group payload) := by
  intro before y rest h
  obtain ⟨last, rfl⟩ : ∃ last, payload = before ++ last := by
    have hlen := congrArg List.length h
    simp only [List.length_append, List.length_cons, List.length_nil] at hlen
    obtain ⟨last, hlast⟩ := List.prefix_of_prefix_length_le (List.prefix_append before (y :: rest))
      (h ▸ List.prefix_append payload [sysExEnd]) (by omega)
    exact ⟨last, hlast.symm⟩
  obtain ⟨os, left, n, he, hleft, hp⟩ :=
    emits_sysExBytes group [] (fun b hb => data b (by simp [hb]) : ∀ b ∈ before, _)
      (Nat.zero_le _) false
  have hpackets : sysex7Packets group (before ++ last) =
      os ++ packetsFrom group (!n) (chunks sysex7Data64MaxPayloadSize (left ++ last)) := hp last
  have hmore : packetsFrom group (!n) (chunks sysex7Data64MaxPayloadSize (left ++ last)) ≠ [] := by
    cases hc : chunks sysex7Data64MaxPayloadSize (left ++ last) with
    | nil => exact absurd hc chunks_ne_nil
    | cons c cs => simp [packetsFrom]
  refine ⟨os, (emits_sysExStart.cons he).mono (fun _ h => h) (fun _ h => .inr ⟨_, _, h⟩), ?_, ?_⟩
  · rw [hpackets, List.length_append]
    have := List.length_pos_iff.mpr hmore
    omega
  · intro u hu
    exact umps_plain hz hg (.sysEx (before ++ last) data) rfl u (by
      rw [Message.umps, hpackets]
      exact List.mem_append_left _ hu)

/-- One message with insertions: it is received whole when nothing is inserted inside it, and
never whole otherwise. -/
theorem emits_piece (hz : Zephyr.Documented) (hg : group < 16) {mixed : List UInt8}
    (hc : Cut group running first tail us)
    (he : Emits (Parser.parse group) (Idle running) (first :: tail) us (Idle after))
    (hu : ∀ u ∈ us, isRealTimeUmp u = false)
    (ht : ∀ b ∈ tail, b < midiStatusMin ∨ b = sysExEnd)
    (hm : mixed.filter isPlainByte = first :: tail ++ bytes) :
    ∃ part rear os kept, mixed = part ++ rear ∧ rear.filter isPlainByte = bytes ∧
      Mixture group part os kept ∧
      ((kept = us ∧ Emits (Parser.parse group) (Idle running) part os (Idle after) ∧
          ∃ front, part = front ++ first :: tail ∧ ∀ b ∈ front, isRealTimeByte b = true) ∨
        (kept.length < us.length ∧ Emits (Parser.parse group) (Idle running) part os (Idle 0))) := by
  have hfirst : isPlainByte first = true := by
    have : first ∈ mixed.filter isPlainByte := by rw [hm]; simp
    exact (List.mem_filter.mp this).2
  have htail : ∀ b ∈ tail, isPlainByte b = true := by
    intro b hb
    have : b ∈ mixed.filter isPlainByte := by rw [hm]; simp [hb]
    exact (List.mem_filter.mp this).2
  obtain ⟨front, back, rfl, hf, hback⟩ := filter_cons_split hm
  have hfront : ∀ b ∈ front, isRealTimeByte b = true := fun b hb => by
    simpa [isPlainByte] using hf b hb
  have hlead : Mixture group front (realTimeUmps group front) [] := realTimeUmps_mixture hz hg
  obtain ⟨part, rear, rfl, hpart, hrear, rfl | hbroken⟩ := filter_append_split hback
  · have hwhole : Mixture group (first :: part) us us :=
      Mixture.plain hu (by simpa [hfirst] using htail)
    exact ⟨front ++ first :: part, rear, _, us, by simp, hrear,
      by simpa using hlead.append hwhole,
      .inl ⟨rfl, (emits_realTime hfront).append he, front, rfl, hfront⟩⟩
  · obtain ⟨before, bad, rest, y, last, rfl, rfl, hbad, hrest⟩ := hbroken
    have hk : isRealTimeByte bad = true := by simpa [isPlainByte] using hbad
    obtain ⟨os, hemits, hlt, ho⟩ := hc before y last rfl
    have hnoise : ∀ b ∈ rest, isPlainByte b = true → b < midiStatusMin ∨ b = sysExEnd := by
      intro b hb hp
      have : b ∈ y :: last := hrest ▸ List.mem_filter.mpr ⟨hb, hp⟩
      exact ht b (List.mem_append_right _ this)
    have hhead : Mixture group (first :: before) os os :=
      Mixture.plain ho (by simpa [hfirst] using fun b hb => htail b (by simp [hb]))
    have hbadMix : Mixture group [bad] [systemUmp group bad 0 0] [] := by
      have h : Mixture group [bad] (realTimeUmps group [bad]) [] := realTimeUmps_mixture hz hg
      simpa [realTimeUmps, hk] using h
    refine ⟨front ++ (first :: before ++ ([bad] ++ rest)), rear, _, os, by simp, hrear,
      ?_, .inr ⟨hlt, (emits_realTime hfront).append
        (hemits.append ((emits_busy hk).append (emits_noises hnoise)))⟩⟩
    simpa using hlead.append (hhead.append (hbadMix.append (realTimeUmps_mixture hz hg)))

/-- Besides the real-time messages at most the packets of the messages come out, and all of them
only if the insertions stand between messages. -/
def Received (group running : UInt8) (before : Option UInt8) (messages : List Message)
    (mixed : List UInt8) : Prop :=
  ∃ os kept, Emits (Parser.parse group) (Idle running) mixed os (fun p => ∃ r, Idle r p) ∧
    Mixture group mixed os kept ∧
    kept.length ≤ (messages.flatMap (·.umps group)).length ∧
    (kept.length = (messages.flatMap (·.umps group)).length →
      Spaced before messages mixed ∧ kept = messages.flatMap (·.umps group))

/-- The running status is the one the sender counts on, or lost. -/
def Follows (running : UInt8) (before : Option UInt8) : Prop :=
  running = 0 ∨ ∀ s, before = some s → running = s

theorem received_step (hz : Zephyr.Documented) (hg : group < 16) {mixed : List UInt8}
    {before next : Option UInt8} {m : Message} {rest : List Message}
    (hc : Cut group running first tail (m.umps group))
    (he : Emits (Parser.parse group) (Idle running) (first :: tail) (m.umps group) (Idle after))
    (hu : m.isRealTime = false) (ht : ∀ b ∈ tail, b < midiStatusMin ∨ b = sysExEnd)
    (hm : mixed.filter isPlainByte = first :: tail ++ bytes)
    (hs : ∀ rear, Spaced next rest rear → Spaced before (m :: rest) (first :: tail ++ rear))
    (ha : Follows after next)
    (ih : ∀ {running mixed}, mixed.filter isPlainByte = bytes → Follows running next →
      Received group running next rest mixed) :
    Received group running before (m :: rest) mixed := by
  obtain ⟨part, rear, os, kept, rfl, hrear, hmix, ⟨rfl, hemits, front, rfl, hfront⟩ | hcut⟩ :=
    emits_piece hz hg hc he (umps_plain hz hg m hu) ht hm
  · obtain ⟨os', kept', hemits', hmix', hle, heq⟩ := ih hrear ha
    refine ⟨os ++ os', m.umps group ++ kept', hemits.append hemits', hmix.append hmix', ?_, ?_⟩
    · simp only [List.flatMap_cons, List.length_append]
      omega
    · simp only [List.flatMap_cons, List.length_append]
      intro hlen
      obtain ⟨hspaced, rfl⟩ := heq (by omega)
      refine ⟨?_, rfl⟩
      rw [List.append_assoc]
      exact (hs rear hspaced).realTimes hfront
  · obtain ⟨hlt, hemits⟩ := hcut
    obtain ⟨os', kept', hemits', hmix', hle, _⟩ := ih hrear (.inl rfl)
    refine ⟨os ++ os', kept ++ kept', hemits.append hemits', hmix.append hmix', ?_, ?_⟩
    · simp only [List.flatMap_cons, List.length_append]
      omega
    · simp only [List.flatMap_cons, List.length_append]
      intro hlen
      omega

theorem received_inserted (hz : Zephyr.Documented) (hg : group < 16) {before : Option UInt8}
    {messages : List Message} (h : Transmitted before messages bytes)
    (hp : ∀ m ∈ messages, m.isRealTime = false) {mixed : List UInt8}
    (hm : mixed.filter isPlainByte = bytes) (hr : Follows running before) :
    Received group running before messages mixed := by
  induction h generalizing running mixed with
  | nil =>
    have hall : ∀ b ∈ mixed, isRealTimeByte b = true := fun b hb => by
      simpa [isPlainByte] using List.filter_eq_nil_iff.mp hm b hb
    refine ⟨_, [], (emits_realTime hall).mono (fun _ h => h) (fun _ h => ⟨running, h⟩),
      realTimeUmps_mixture hz hg, Nat.zero_le _, fun _ => ⟨?_, rfl⟩⟩
    have hnil : ∀ before, Spaced before [] [] := fun _ => .nil
    simpa using (hnil _).realTimes hall
  | whole m h ih =>
    have hrest := fun m hm => hp m (List.mem_cons_of_mem _ hm)
    cases m with
    | short m =>
      refine received_step hz hg (m := .short m) (cut_short m) (emits_short m)
        (hp _ (by simp)) (fun b hb => .inl (m.dataBytes_data b hb)) hm
        (fun rear h => .whole (.short m) h) (.inr fun s hs => ?_) (ih hrest)
      exact leaves_channelStatus hs
    | sysEx payload data =>
      refine received_step hz hg (m := .sysEx payload data) (cut_sysEx hz hg data)
        (emits_sysEx data) rfl (fun b hb => ?_) (by simpa [Message.bytes] using hm)
        (fun rear h => .whole (.sysEx payload data) h) (.inl rfl) (ih hrest)
      simp only [List.mem_append, List.mem_singleton] at hb
      exact hb.imp_left (data b)
  | running m hc h ih =>
    have hrest := fun m hm => hp m (List.mem_cons_of_mem _ hm)
    cases hr with
    | inr hr =>
      cases hr m.status rfl
      cases hd : m.dataBytes with
      | nil => exact absurd hd (dataBytes_ne_nil hc)
      | cons first tail =>
        refine received_step hz hg (m := .short m) (cut_running hc hd) (hd ▸ emits_running m hc)
          (hp _ (by simp)) (fun b hb => .inl (m.dataBytes_data b (by rw [hd]; simp [hb])))
          (hd ▸ hm) (fun rear h => hd ▸ .running m hc h)
          (.inr fun s hs => Option.some.inj hs) (ih hrest)
    | inl hr =>
      -- The parser has lost the running status: it skips the data bytes.
      subst hr
      obtain ⟨part, rear, rfl, hpart, hrear, _⟩ := filter_append_split hm
      have hnoise : ∀ b ∈ part, isPlainByte b = true → b < midiStatusMin ∨ b = sysExEnd := by
        intro b hb hplain
        exact .inl (m.dataBytes_data b (hpart ▸ List.mem_filter.mpr ⟨hb, hplain⟩))
      obtain ⟨os, kept, hemits, hmix, hle, _⟩ := ih hrest hrear (.inl rfl)
      have hmixed : Mixture group (part ++ rear) (realTimeUmps group part ++ os) kept :=
        (realTimeUmps_mixture hz hg).append hmix
      have hone : (Message.umps group (.short m)).length = 1 := rfl
      refine ⟨_, kept, (emits_noises hnoise).append hemits, hmixed, ?_, ?_⟩ <;>
        simp only [List.flatMap_cons, List.length_append, hone] <;> omega

/-- With the insertions between messages nothing is lost. -/
theorem received_spaced (hz : Zephyr.Documented) (hg : group < 16) {before : Option UInt8}
    {messages : List Message} {mixed : List UInt8} (h : Spaced before messages mixed)
    (hp : ∀ m ∈ messages, m.isRealTime = false) (hb : ∀ s, before = some s → running = s) :
    ∃ os, Emits (Parser.parse group) (Idle running) mixed os (fun p => ∃ r, Idle r p) ∧
      os.filter (fun packet => !isRealTimeUmp packet) = messages.flatMap (·.umps group) := by
  have hkeep (m : Message) (hm : m.isRealTime = false) :
      (m.umps group).filter (fun packet => !isRealTimeUmp packet) = m.umps group :=
    List.filter_eq_self.mpr fun u hu => by simp [umps_plain hz hg m hm u hu]
  induction h generalizing running with
  | nil => exact ⟨[], Emits.nil.mono (fun _ h => h) fun _ h => ⟨running, h⟩, rfl⟩
  | realTime status hs h ih =>
    obtain ⟨os, he, ho⟩ := ih hp hb
    have hone : ∀ b ∈ [status], isRealTimeByte b = true := by simpa using hs
    have hdrop : (realTimeUmps group [status]).filter (fun packet => !isRealTimeUmp packet) = [] :=
      (realTimeUmps_mixture hz hg).2
    exact ⟨_, (emits_realTime hone).append he, by simp [hdrop, ho]⟩
  | whole m h ih =>
    have hm := hkeep m (hp m (by simp))
    have hrest := fun m hm => hp m (List.mem_cons_of_mem _ hm)
    obtain ⟨_, hone, hs⟩ := @emits_message _ group running m
    obtain ⟨os, he, ho⟩ := ih hrest hs
    exact ⟨_, hone.append he, by simp [hm, ho]⟩
  | running m hc h ih =>
    cases hb m.status rfl
    have hm := hkeep (.short m) (hp _ (by simp))
    obtain ⟨os, he, ho⟩ := ih (fun m hm => hp m (List.mem_cons_of_mem _ hm))
      fun s hs => Option.some.inj hs
    exact ⟨_, (emits_running m hc).append he, by
      simp only [List.filter_append, ho, List.flatMap_cons]
      exact congrArg (· ++ _) hm⟩

/-- Real-time messages come out wherever they are inserted. The other messages come out as they
would without them if and only if every insertion stands between messages. -/
theorem realTime_transparent_iff (hz : Zephyr.Documented) (hg : group < 16)
    {messages : List Message} (h : Transmitted none messages bytes)
    (hp : ∀ m ∈ messages, m.isRealTime = false) {mixed : List UInt8}
    (hm : mixed.filter isPlainByte = bytes) :
    let outputs := (feed (Parser.parse group) {} mixed).1
    outputs.filter isRealTimeUmp = realTimeUmps group mixed ∧
      (outputs.filter (fun packet => !isRealTimeUmp packet) =
        (feed (Parser.parse group) {} bytes).1 ↔ Spaced none messages mixed) := by
  have hplain : (feed (Parser.parse group) {} bytes).1 = messages.flatMap (·.umps group) :=
    (emits_transmitted h (fun s hs => by cases hs) {} idle_initial).1
  obtain ⟨os, kept, he, hmix, _, hkept⟩ :=
    received_inserted hz hg h hp hm (.inl rfl : Follows 0 none)
  have ho := (he {} idle_initial).1
  refine ⟨ho ▸ hmix.1, ⟨fun heq => ?_, fun hs => ?_⟩⟩
  · rw [ho, hmix.2, hplain] at heq
    exact (hkept (congrArg List.length heq)).1
  · obtain ⟨os', he', ho'⟩ :=
      received_spaced hz hg hs hp fun s hs => (nomatch hs : (0 : UInt8) = s)
    rw [hplain, (he' {} idle_initial).1, ho']

end Inserted

/-- A clock before a note leaves the note alone. -/
theorem clock_before_note :
    (feed (Parser.parse 0) {} [0xF8, 0x93, 60, 64]).1.filter (fun packet => !isRealTimeUmp packet) =
      (feed (Parser.parse 0) {} [0x93, 60, 64]).1 :=
  ((realTime_transparent_iff zephyrMidi_documented (by decide)
    (.whole (.short (noteMessage 60 (.inl rfl))) .nil) (by simp [Message.isRealTime]; decide)
    rfl).2).mpr (.realTime 0xF8 rfl (.whole _ .nil))

/-- A clock between the data bytes of a note is handed out, but the note is lost. -/
theorem clock_inside_note :
    (feed (Parser.parse 0) {} [0x93, 60, 64]).1 = [midi1ChannelVoiceUmp 0 0x93 60 64] ∧
      (feed (Parser.parse 0) {} [0x93, 60, 0xF8, 64]).1 = [systemUmp 0 0xF8 0 0] := by
  decide +kernel

end Zlibs.Midi
