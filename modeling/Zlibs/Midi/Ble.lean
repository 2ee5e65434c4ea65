import Zlibs.Midi.Parser

/-! `Ble::Transport`. -/
namespace Zlibs.Midi
open Lib

/-- The first `size` bytes of a `Packet`. -/
abbrev BlePacket := List UInt8

def bleTimestampMask : Nat := 0x1FFF

def bleTimestampHighShift : Nat := 7

def bleDataMask : Nat := 0x7F

/-- What the transport runs on: the capacity of a packet, the uptimes `k_uptime_get` returns one
after the other, and whether the hardware takes the packets it is given one after the other. -/
structure BleEnv where
  capacity : Nat
  uptime : Nat → Nat
  accepts : Nat → Bool

structure BleTransport where
  txBuffer : BlePacket := []
  rxPacket : BlePacket := []
  rxPacketIndex : Nat := 0
  rxPacketActive : Bool := false
  rxSearchTimestamp : Bool := true
  rxSysexActive : Bool := false
  parser : Parser := {}
  /-- Calls of `k_uptime_get` so far. -/
  uptimeCalls : Nat := 0
  /-- Calls of `Hwa::write` so far. -/
  hwaWrites : Nat := 0
  /-- The packets the hardware has taken. -/
  sent : List BlePacket := []
  /-- The packets `Hwa::read` has yet to hand over. -/
  received : List BlePacket := []

namespace BleTransport

/-- `init`, up to the result of `Hwa::init`. -/
def init (t : BleTransport) : BleTransport :=
  { t with
    parser := t.parser.reset
    rxPacketActive := false
    rxPacketIndex := 0
    rxSearchTimestamp := true
    rxSysexActive := false }

section Write

variable [Zephyr] (env : BleEnv)

def startPacket : StateM BleTransport Unit := modify fun t =>
  let time := env.uptime t.uptimeCalls &&& bleTimestampMask
  { t with
    uptimeCalls := t.uptimeCalls + 1
    txBuffer := [UInt8.ofNat (time >>> bleTimestampHighShift) ||| midiStatusMin,
      UInt8.ofNat (time &&& bleDataMask) ||| midiStatusMin] }

def hwaWrite (packet : BlePacket) : StateM BleTransport Bool := fun t =>
  let accepted := env.accepts t.hwaWrites
  (accepted, { t with
    hwaWrites := t.hwaWrites + 1
    sent := if accepted then t.sent ++ [packet] else t.sent })

def flushPacket : StateM BleTransport Bool := do
  let t ← get
  if t.txBuffer.length ≤ 2 then
    return true
  hwaWrite env t.txBuffer

def writeMidiByte (data : UInt8) : StateM BleTransport Bool := do
  if (← get).txBuffer.length ≥ env.capacity then
    if !(← flushPacket env) then
      return false
    startPacket env
  modify fun t => { t with txBuffer := t.txBuffer ++ [data] }
  return true

def write (packet : MidiUmp) : StateM BleTransport Bool := do
  startPacket env
  if !(← writeUmpAsMidi1Bytes packet (umpGroup packet) (writeMidiByte env)) then
    return false
  flushPacket env

end Write

section Read

variable (capacity : Nat)

/-- The inner loop of `read_midi_byte`, over the bytes of the packet from the index on. Nothing is
returned where the loop ends or breaks. -/
def scanPacket (t : BleTransport) : List UInt8 → Option UInt8 × BleTransport
  | [] => (none, t)
  | data :: rest =>
    let index := t.rxPacketIndex
    let t := { t with rxPacketIndex := index + 1 }
    if t.rxSearchTimestamp then
      if data &&& midiStatusMin = 0 then
        if index = 1 then (some data, { t with rxSearchTimestamp := false })
        else (none, t)
      else scanPacket { t with rxSearchTimestamp := false } rest
    else
      let sysexActive :=
        if data = sysExStart then true else if data = sysExEnd then false else t.rxSysexActive
      let timestampNext := !sysexActive && rest.head?.any (fun next => next &&& midiStatusMin ≠ 0)
      (some data, { t with
        rxSysexActive := sysexActive
        rxSearchTimestamp := timestampNext })

/-- One pass of the outer loop with a packet at hand. -/
def readPacket (t : BleTransport) : Option UInt8 × BleTransport :=
  if t.rxPacket.length > capacity then (none, { t with rxPacketActive := false })
  else
    match t.scanPacket (t.rxPacket.drop t.rxPacketIndex) with
    | (some data, t) => (some data, t)
    | (none, t) => (none, { t with rxPacketActive := false })

/-- A packet from the hardware, and those it still has. -/
def takePacket (t : BleTransport) (packet : BlePacket) (waiting : List BlePacket) :
    BleTransport :=
  { t with
    rxPacket := packet
    rxPacketIndex := 1
    rxPacketActive := true
    rxSearchTimestamp := true
    received := waiting }

/-- The outer loop from where it asks the hardware for a packet. -/
def readPackets (t : BleTransport) : List BlePacket → Option UInt8 × BleTransport
  | [] => (none, { t with received := [] })
  | packet :: waiting =>
    match (t.takePacket packet waiting).readPacket capacity with
    | (some data, t) => (some data, t)
    | (none, t) => t.readPackets waiting

def readMidiByte (t : BleTransport) : Option UInt8 × BleTransport :=
  if t.rxPacketActive then
    match t.readPacket capacity with
    | (some data, t) => (some data, t)
    | (none, t) => t.readPackets capacity t.received
  else t.readPackets capacity t.received

end Read

/-- The bytes not yet looked at. -/
def available (t : BleTransport) : Nat :=
  (if t.rxPacketActive then t.rxPacket.length - t.rxPacketIndex else 0) +
    (t.received.map List.length).sum

variable {capacity : Nat} {t u : BleTransport} {data : UInt8}

theorem scanPacket_kept {rest : List UInt8} {result : Option UInt8}
    (h : t.scanPacket rest = (result, u)) :
    u.rxPacket = t.rxPacket ∧ u.rxPacketActive = t.rxPacketActive ∧ u.received = t.received ∧
      u.parser = t.parser := by
  induction rest generalizing t with
  | nil =>
    cases h
    exact ⟨rfl, rfl, rfl, rfl⟩
  | cons b rest ih =>
    simp only [scanPacket] at h
    split at h
    · split at h
      · split at h <;> cases h <;> exact ⟨rfl, rfl, rfl, rfl⟩
      · have := ih h
        exact this
    · cases h
      exact ⟨rfl, rfl, rfl, rfl⟩

theorem scanPacket_index {rest : List UInt8} (h : t.scanPacket rest = (some data, u)) :
    t.rxPacketIndex < u.rxPacketIndex ∧ u.rxPacketIndex ≤ t.rxPacketIndex + rest.length := by
  induction rest generalizing t with
  | nil => cases h
  | cons b rest ih =>
    simp only [scanPacket] at h
    simp only [List.length_cons]
    split at h
    · split at h
      · split at h
        · cases h
          exact ⟨Nat.lt_succ_self _, by simp⟩
        · cases h
      · have := ih h
        simp only at this
        omega
    · cases h
      exact ⟨Nat.lt_succ_self _, by simp⟩

theorem readPacket_available (ha : t.rxPacketActive = true)
    (h : t.readPacket capacity = (some data, u)) : u.available < t.available := by
  unfold readPacket at h
  split at h
  · cases h
  · rcases hs : t.scanPacket (t.rxPacket.drop t.rxPacketIndex) with ⟨_ | b, v⟩ <;>
      simp only [hs] at h <;> cases h
    obtain ⟨hp, hact, hr, _⟩ := scanPacket_kept hs
    have hi := scanPacket_index hs
    simp only [List.length_drop] at hi
    simp only [available, hp, hact, hr, ha, if_true]
    omega

theorem readPackets_available {waiting : List BlePacket}
    (h : t.readPackets capacity waiting = (some data, u)) :
    u.available < (waiting.map List.length).sum := by
  induction waiting generalizing t with
  | nil => cases h
  | cons packet waiting ih =>
    simp only [readPackets] at h
    split at h
    · rename_i hr
      cases h
      have := readPacket_available (by rfl) hr
      simp only [available, takePacket, if_true] at this ⊢
      simp only [List.map_cons, List.sum_cons]
      omega
    · have := ih h
      simp only [List.map_cons, List.sum_cons]
      omega

theorem readPacket_none (h : t.readPacket capacity = (none, u)) : u.received = t.received := by
  unfold readPacket at h
  split at h
  · cases h
    rfl
  · rcases hs : t.scanPacket (t.rxPacket.drop t.rxPacketIndex) with ⟨_ | b, v⟩ <;>
      simp only [hs] at h <;> cases h
    exact (scanPacket_kept hs).2.2.1

/-- Every byte handed over is taken from those at hand. -/
theorem readMidiByte_available (h : t.readMidiByte capacity = (some data, u)) :
    u.available < t.available := by
  unfold readMidiByte at h
  split at h
  · rename_i ha
    split at h
    · rename_i hr
      cases h
      exact readPacket_available ha hr
    · rename_i v hr
      have := readPackets_available h
      rw [readPacket_none hr] at this
      unfold available at this ⊢
      omega
  · have := readPackets_available h
    unfold available at this ⊢
    omega

/-- `read`: bytes go to the parser until it has a packet. -/
def read [Zephyr] (capacity : Nat) (t : BleTransport) : Option MidiUmp × BleTransport :=
  match _h : t.readMidiByte capacity with
  | (none, u) => (none, u)
  | (some data, u) =>
    match Parser.parse defaultRxGroup u.parser data with
    | (some packet, parser) => (some packet, { u with parser := parser })
    | (none, parser) => read capacity { u with parser := parser }
termination_by t.available
decreasing_by exact (readMidiByte_available _h : u.available < t.available)

theorem read_none [Zephyr] (h : t.readMidiByte capacity = (none, u)) :
    t.read capacity = (none, u) := by
  rw [read]
  split <;> simp_all

theorem read_some [Zephyr] (h : t.readMidiByte capacity = (some data, u)) :
    t.read capacity = match Parser.parse defaultRxGroup u.parser data with
      | (some packet, parser) => (some packet, { u with parser := parser })
      | (none, parser) => { u with parser := parser }.read capacity := by
  rw [read]
  split <;> simp_all

theorem read_available [Zephyr] {packet : MidiUmp}
    (h : t.read capacity = (some packet, u)) : u.available < t.available := by
  induction hn : t.available using Nat.strong_induction_on generalizing t with
  | _ n ih =>
    rcases hb : t.readMidiByte capacity with ⟨_ | b, v⟩
    · rw [read_none hb] at h
      cases h
    · have hv := readMidiByte_available hb
      rw [read_some hb] at h
      rcases hp : Parser.parse defaultRxGroup v.parser b with ⟨_ | p, parser⟩ <;>
        simp only [hp] at h
      · exact Nat.lt_trans (ih _ (hn ▸ hv) h rfl) (hn ▸ hv)
      · cases h
        exact hn ▸ hv

/-- Calls of `read` until one returns nothing. -/
def readAll [Zephyr] (capacity : Nat) (t : BleTransport) : List MidiUmp :=
  match _h : t.read capacity with
  | (none, _) => []
  | (some packet, u) => packet :: readAll capacity u
termination_by t.available
decreasing_by exact read_available _h

theorem readAll_none [Zephyr] (h : t.read capacity = (none, u)) : t.readAll capacity = [] := by
  rw [readAll]
  split <;> simp_all

theorem readAll_some [Zephyr] {packet : MidiUmp} (h : t.read capacity = (some packet, u)) :
    t.readAll capacity = packet :: u.readAll capacity := by
  rw [readAll]
  split <;> simp_all

theorem readAll_congr [Zephyr] (h : t.read capacity = u.read capacity) :
    t.readAll capacity = u.readAll capacity := by
  rcases hu : u.read capacity with ⟨_ | packet, v⟩
  · rw [readAll_none hu, readAll_none (h.trans hu)]
  · rw [readAll_some hu, readAll_some (h.trans hu)]

end BleTransport

end Zlibs.Midi
