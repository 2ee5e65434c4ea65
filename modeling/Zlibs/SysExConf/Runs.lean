import Zlibs.SysExConf.Frames

/-! Whole runs: the handler is called properly in each, and the array is left in some. -/
namespace Zlibs.SysExConf
open Lib Midi

variable {η : Type} {device : Device η} {w t : World η} {values : List UInt16} {ack : Bool}
  {calls : List Call} {c : Call} {E : Fault → World η → Prop}

/-- The values that fit between the six bytes of the header and the end byte. -/
def maxCustomValues : Nat := maxMessageSize - 7

theorem wpf_pushAll_fault {Q : Unit → World η → Prop} {bytes : List UInt8}
    (h : maxMessageSize < w.ram.responseCounter + bytes.length)
    (hle : w.ram.responseCounter ≤ maxMessageSize)
    (he : ∀ m, E .outOfBounds { w with ram := m }) : wpf (pushAll bytes) Q E w := by
  induction bytes generalizing w with
  | nil => simp only [List.length_nil] at h; omega
  | cons byte rest ih =>
    rw [List.length_cons] at h
    rw [pushAll, wpf_bind]
    by_cases hc : w.ram.responseCounter < maxMessageSize
    · rw [wpf_push hc]
      exact ih (by simp only [Members.pushed_responseCounter]; omega)
        (by simp only [Members.pushed_responseCounter]; omega) he
    · rw [wpf_push_fault (not_lt.mp hc)]
      exact he w.ram

/-- The frame of a custom message, without its end byte. -/
def customMessage (id : ManufacturerId) (values : List UInt16) (ack : Bool) : List UInt8 :=
  [sysExStart, id.id1, id.id2, id.id3, (if ack then Status.ack else Status.request).toByte, 0] ++
    values.map UInt16.toUInt8

theorem pushedAll_built {m : Members} {bytes rest : List UInt8} :
    (m.built bytes).pushedAll rest = m.built (bytes ++ rest) := by
  unfold Members.built
  generalize { m with responseCounter := 0 } = m'
  induction bytes generalizing m' with
  | nil => rfl
  | cons byte bytes ih => exact ih (m'.pushed byte)

section Sending

variable [Zephyr]

/-- A custom message that fits is sent as it is, and leaves only the array changed. -/
theorem wpf_sendCustomMessage {Q : Unit → World η → Prop} (h : values.length ≤ maxCustomValues)
    (hq : ∀ m, w.ram.Same m →
      let sent := responseEvents device
        (customMessage device.manufacturerId values ack ++ [sysExEnd]) w.handler
      Q () { ram := m, handler := sent.2, trace := w.trace ++ sent.1 }) :
    wpf (sendCustomMessage device values ack) Q E w := by
  have hmax := maxMessageSize_eq
  unfold maxCustomValues at h
  have hlen : (customMessage device.manufacturerId values ack).length = values.length + 6 := by
    simp [customMessage]
  rw [sendCustomMessage, wpf_bind, wpf_startMessage (by simp; omega), wpf_bind,
    wpf_pushAll (by simp; omega), pushedAll_built]
  have hstart : (customMessage device.manufacturerId values ack).head? = some sysExStart := rfl
  have htwo : 2 ≤ (customMessage device.manufacturerId values ack).length := by omega
  have hfits : (customMessage device.manufacturerId values ack).length < maxMessageSize := by omega
  exact wpf_sendResponse_built htwo hfits hstart fun m hm _ _ => hq m hm

/-- A longer one is written past the end of the array. -/
theorem wpf_sendCustomMessage_long {Q : Unit → World η → Prop} (h : maxCustomValues < values.length)
    (he : ∀ m, E .outOfBounds { w with ram := m }) :
    wpf (sendCustomMessage device values ack) Q E w := by
  have hmax := maxMessageSize_eq
  unfold maxCustomValues at h
  rw [sendCustomMessage, wpf_bind, wpf_startMessage (by simp; omega), wpf_bind]
  by_cases hl : values.length + 6 ≤ maxMessageSize
  · rw [wpf_pushAll (by simp; omega), sendResponse, wpf_bind, wpf_push_fault (by simp; omega)]
    exact he _
  · exact wpf_pushAll_fault (by simp; omega) (by simp; omega) he

/-- A call that keeps to the array. -/
def Call.Fits : Call → Prop
  | .sendCustomMessage values _ => values.length ≤ maxCustomValues
  | _ => True

omit [Zephyr] in
/-- A call whose effect on the session is that of its mark in the trace. -/
theorem Tracks.called {m : Members} (h : Tracks device.manufacturerId w)
    (hm : m.session = w.ram.session.next device.manufacturerId (.call c)) :
    Tracks device.manufacturerId { w with ram := m, trace := w.trace ++ [.call c] } :=
  h.event trivial hm

theorem invoke_tracks (h : Tracks device.manufacturerId w) :
    wpf (invoke device c) (fun _ t => Tracks device.manufacturerId t ∧ c.Fits)
      (fun _ t => Contract device.manufacturerId t.trace ∧ ¬ c.Fits) w := by
  unfold invoke
  rw [wpf_bind, wpf_log]
  cases c with
  | setLayout layout =>
    simp only [setLayout]
    rw [wpf_bind, wpf_bind, wpf_modifyMembers]
    cases layout with
    | nil => exact ⟨h.called rfl, trivial⟩
    | cons block rest => exact ⟨h.called rfl, trivial⟩
  | setupCustomRequests requests =>
    have hw : ∀ custom, Tracks device.manufacturerId
        { w with
          ram := { w.ram with customRequests := custom },
          trace := w.trace ++ [.call (.setupCustomRequests requests)] } :=
      fun custom => h.called rfl
    simp only [setupCustomRequests]
    rw [wpf_bind]
    apply wpf_ite
    · intro _
      rw [wpf_bind, wpf_modifyMembers]
      apply wpf_ite
      · intro _
        exact ⟨hw [], trivial⟩
      · intro _
        exact ⟨hw requests, trivial⟩
    · intro _
      exact ⟨hw w.ram.customRequests, trivial⟩
  | reset => exact ⟨h.called rfl, trivial⟩
  | closeConnection => exact ⟨h.called rfl, trivial⟩
  | setUserErrorIgnoreMode state => exact ⟨h.called rfl, trivial⟩
  | handlePacket packet =>
    refine wpf_of_never (handlePacket_tracks (h.called (m := w.ram) rfl)) fun _ t ht => ?_
    exact ⟨ht, trivial⟩
  | sendCustomMessage values ack =>
    have hw : Tracks device.manufacturerId
        { w with trace := w.trace ++ [.call (.sendCustomMessage values ack)] } := h.called rfl
    by_cases hl : values.length ≤ maxCustomValues
    · apply wpf_sendCustomMessage hl
      intro m hm
      exact ⟨hw.events hm.session responseEvents_proper, hl⟩
    · apply wpf_sendCustomMessage_long (not_le.mp hl)
      intro m
      exact ⟨hw.contract, hl⟩

theorem invokeAll_tracks (h : Tracks device.manufacturerId w) :
    wpf (invokeAll device calls) (fun _ t => Tracks device.manufacturerId t ∧ ∀ c ∈ calls, c.Fits)
      (fun _ t => Contract device.manufacturerId t.trace ∧ ¬ ∀ c ∈ calls, c.Fits) w := by
  induction calls generalizing w with
  | nil => exact ⟨h, by simp⟩
  | cons c rest ih =>
    rw [invokeAll, wpf_bind]
    refine wpf_mono (invoke_tracks h) ?_ ?_
    · rintro _ t ⟨ht, hc⟩
      refine wpf_mono (ih ht) ?_ ?_
      · rintro _ u ⟨hu, hrest⟩
        exact ⟨hu, by simpa using ⟨hc, hrest⟩⟩
      · rintro _ u ⟨hu, hrest⟩
        exact ⟨hu, fun hall => hrest fun c' hc' => hall c' (by simp [hc'])⟩
    · rintro _ t ⟨ht, hc⟩
      exact ⟨ht, fun hall => hc (hall c (by simp))⟩

omit [Zephyr] in
theorem initial_tracks {id : ManufacturerId} {handler : η} :
    Tracks id (World.initial handler) := ⟨rfl, .nil⟩

/-- In every run the handler's values are only read and set while the connection is open, for
parameters of the layout and within their limits. -/
theorem handler_called_properly (device : Device η) (handler : η) (calls : List Call) :
    Contract device.manufacturerId
      ((invokeAll device calls).run (World.initial handler)).2.trace := by
  have h : wpf (invokeAll device calls) _ _ (World.initial handler) :=
    invokeAll_tracks initial_tracks
  unfold wpf at h
  split at h
  · rename_i hrun
    rw [hrun]
    exact h.1.contract
  · rename_i hrun
    rw [hrun]
    exact h.1

/-- A run stays within the array if and only if no custom message has too many values. -/
theorem array_kept_iff (device : Device η) (handler : η) (calls : List Call) :
    ((invokeAll device calls).run (World.initial handler)).1 = .ok () ↔
      ∀ values ack, Call.sendCustomMessage values ack ∈ calls →
        values.length ≤ maxCustomValues := by
  have hfits : (∀ c ∈ calls, c.Fits) ↔ ∀ values ack,
      Call.sendCustomMessage values ack ∈ calls → values.length ≤ maxCustomValues := by
    constructor
    · intro h values ack hm
      exact h _ hm
    · intro h c hc
      cases c with
      | sendCustomMessage values ack => exact h values ack hc
      | _ => trivial
  have h : wpf (invokeAll device calls) _ _ (World.initial handler) :=
    invokeAll_tracks initial_tracks
  rw [← hfits]
  unfold wpf at h
  split at h
  · rename_i hrun
    simpa [hrun] using h.2
  · rename_i hrun
    simpa [hrun] using h.2

end Sending

/-- A handler that acknowledges everything and stores nothing. -/
def ackDevice : Device Unit where
  dataHandler :=
    { get := fun _ _ _ _ => ((.ack, 0), ()), set := fun _ _ _ _ _ => (.ack, ()),
      customRequest := fun _ _ => .done .ack (), sendResponse := fun _ _ => (true, ()) }
  manufacturerId := { id1 := 0x00, id2 := 0x53, id3 := 0x43 }

/-- The 73rd value takes the place of the end byte. -/
theorem long_custom_message_leaves_array :
    ((invokeAll ackDevice [.sendCustomMessage (List.replicate 73 0) true]).run
      (World.initial ())).1 = .error .outOfBounds := by
  decide +kernel

end Zlibs.SysExConf
