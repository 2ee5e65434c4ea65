import Zlibs.SysExConf.SetExactness

/-! Requests in several packets, with custom messages sent between them. -/
namespace Zlibs.SysExConf
open Lib Midi

variable {η : Type} {device : Device η} {u v w : World η} {packet : MidiUmp} {c : Call}
  {calls : List Call} {values : List UInt16} {ack : Bool}

/-- What the handler sees of a call, and what it answers. -/
def Event.visible : Event → Bool
  | .call _ => false
  | .request _ => false
  | _ => true

section Whole

variable [Zephyr]

/-- The world after a call. -/
def World.after (w : World η) (device : Device η) (c : Call) : World η :=
  ((invoke device c).run w).2

/-- The calls of a run, each with what it adds to the trace. -/
def observed (device : Device η) : List Call → World η → List (Call × List Event)
  | [], _ => []
  | c :: rest, w => (c, newEvents (invoke device c) w) :: observed device rest (w.after device c)

omit [Zephyr] in
/-- What the handler sees of the packets of a run, and what they are answered. -/
def requestEvents (runs : List (Call × List Event)) : List Event :=
  runs.flatMap fun
    | (.handlePacket _, es) => es.filter Event.visible
    | _ => []

omit [Zephyr] in
/-- The later packets of a request, each after the custom messages that are sent before it. -/
def interleaved (rest : List (List (List UInt16 × Bool) × MidiUmp)) : List Call :=
  rest.flatMap fun step =>
    step.1.map (fun message => .sendCustomMessage message.1 message.2) ++ [.handlePacket step.2]

omit [Zephyr] in
def uninterrupted (rest : List (List (List UInt16 × Bool) × MidiUmp)) : List Call :=
  rest.map fun step => .handlePacket step.2

/-- The call has sent its whole message, as far as the handler takes its packets. -/
def SentWhole (device : Device η) (values : List UInt16) (ack : Bool) (es : List Event) : Prop :=
  ∃ handler, es = .call (.sendCustomMessage values ack) ::
    (responseEvents device (customMessage device.manufacturerId values ack ++ [sysExEnd]) handler).1

/-- Custom messages between the packets of a request leave it as it is, and it leaves them. -/
structure Undisturbed (device : Device η) (w : World η) (first : MidiUmp)
    (rest : List (List (List UInt16 × Bool) × MidiUmp)) : Prop where
  request : requestEvents (observed device (.handlePacket first :: interleaved rest) w) =
    requestEvents (observed device (.handlePacket first :: uninterrupted rest) w)
  messages : ∀ values ack es, (.sendCustomMessage values ack, es) ∈
    observed device (.handlePacket first :: interleaved rest) w → SentWhole device values ack es

omit [Zephyr] in
/-- No frame is being received, or none would be answered. -/
def World.Quiet (w : World η) : Prop := w.ram.umpMessageActive = false ∨ w.ram.layout = []

omit [Zephyr] in
/-- A custom message fits and finds no frame under way. -/
def Call.Harmless (w : World η) : Call → Prop
  | .sendCustomMessage values _ => values.length ≤ maxCustomValues ∧ w.Quiet
  | _ => True

def HarmlessRun (device : Device η) : List Call → World η → Prop
  | [], _ => True
  | c :: rest, w => c.Harmless w ∧ HarmlessRun device rest (w.after device c)

theorem invoke_of_wpf {P : List Event → World η → Prop}
    (h : wpf (invoke device c) (fun _ t => ∃ es, t.trace = w.trace ++ es ∧ P es t) Never w) :
    P (newEvents (invoke device c) w) (w.after device c) := by
  unfold wpf at h
  unfold newEvents World.after
  split at h
  · rename_i hx
    obtain ⟨es, he, hp⟩ := h
    rw [hx]
    simpa [he] using hp
  · exact h.elim

/-- A custom message is sent as a whole and leaves the world as quiet as it was. -/
theorem sendCustomMessage_sent (h : values.length ≤ maxCustomValues) :
    SentWhole device values ack (newEvents (invoke device (.sendCustomMessage values ack)) w) ∧
      (w.Quiet → (w.after device (.sendCustomMessage values ack)).Quiet) := by
  apply invoke_of_wpf (P := fun es t => SentWhole device values ack es ∧ (w.Quiet → t.Quiet))
  rw [invoke, wpf_bind, wpf_log]
  apply wpf_sendCustomMessage h
  intro m hm sent
  refine ⟨_, List.append_assoc .., ⟨w.handler, rfl⟩, ?_⟩
  rintro (ha | hl)
  · exact .inl (hm.active.trans ha)
  · exact .inr (hm.layout.trans hl)

theorem handleRequest_quiet {size : Nat} (hl : w.ram.layout = []) (hs : size ≤ maxMessageSize) :
    wpf (handleRequest device size) (fun _ t => t.ram.layout = [] ∧
      ∃ es, t.trace = w.trace ++ es ∧ es.filter Event.visible = []) Never w := by
  apply wpf_handleRequest hs
  · intro _ m hm
    exact ⟨hm.layout.trans hl, _, rfl, rfl⟩
  · intro ha
    exact absurd hl ha.layout

/-- Outside a frame a packet that starts none is dropped. -/
theorem wpf_handlePacket_stray {Q : Unit → World η → Prop} {E : Fault → World η → Prop}
    (hp : sysex7StartsMessage (sysex7Status packet) = false) (ha : w.ram.umpMessageActive = false)
    (hidle : Q () { w with ram := w.ram.idle }) (hsame : Q () w) :
    wpf (handlePacket device packet) Q E w := by
  rw [handlePacket]
  apply wpf_ite
  · intro _
    exact hidle
  intro _
  rw [wpf_bind, joinFrame, hp, if_neg Bool.false_ne_true, wpf_bind, wpf_get, wpf_pure, ha]
  exact hsame

/-- A packet that starts no frame does nothing visible in a quiet world. -/
theorem handlePacket_quiet (hp : sysex7StartsMessage (sysex7Status packet) = false)
    (hw : w.Quiet) : wpf (handlePacket device packet) (fun _ t => t.Quiet ∧
      ∃ es, t.trace = w.trace ++ es ∧ es.filter Event.visible = []) Never w := by
  have hsame : w.ram.receiving packet = w.ram := by rw [Members.receiving, if_neg (by simp [hp])]
  have hnone : ∃ es, w.trace = w.trace ++ es ∧ es.filter Event.visible = [] := ⟨[], by simp⟩
  rcases hw with ha | hl
  · exact wpf_handlePacket_stray hp ha ⟨.inl rfl, hnone⟩ ⟨.inl ha, hnone⟩
  · apply wpf_handlePacket
    · intro _
      exact ⟨.inr hl, hnone⟩
    · intro _ _ _
      exact ⟨.inr hl, hnone⟩
    · intro _
      rw [hsame]
      exact ⟨.inr hl, hnone⟩
    · intro _ _
      rw [hsame]
      exact ⟨.inr (Members.same_pushedAll.layout.trans hl), hnone⟩
    · intro hs _
      rw [hsame] at hs ⊢
      refine wpf_of_never (handleRequest_quiet (Members.same_pushedAll.layout.trans hl) hs) ?_
      rintro _ t ⟨ht, hes⟩
      exact ⟨.inr ht, hes⟩

theorem invoke_handlePacket_quiet (hp : sysex7StartsMessage (sysex7Status packet) = false)
    (hw : w.Quiet) : requestEvents [(.handlePacket packet,
        newEvents (invoke device (.handlePacket packet)) w)] = [] ∧
      (w.after device (.handlePacket packet)).Quiet := by
  apply invoke_of_wpf (P := fun es t => requestEvents [(.handlePacket packet, es)] = [] ∧ t.Quiet)
  rw [invoke, wpf_bind, wpf_log]
  refine wpf_of_never (handlePacket_quiet hp hw) ?_
  rintro _ t ⟨ht, es, he, hnone⟩
  refine ⟨.call (.handlePacket packet) :: es, ?_, ?_, ht⟩
  · simpa using he
  · simpa [requestEvents, Event.visible] using hnone

/-- The world after a run. -/
def World.afterAll (w : World η) (device : Device η) (calls : List Call) : World η :=
  calls.foldl (fun u c => u.after device c) w

theorem observed_append {calls' : List Call} : observed device (calls ++ calls') w =
    observed device calls w ++ observed device calls' (w.afterAll device calls) := by
  induction calls generalizing w with
  | nil => rfl
  | cons c rest ih => exact congrArg (_ :: ·) ih

theorem harmlessRun_append {calls' : List Call} : HarmlessRun device (calls ++ calls') w ↔
    HarmlessRun device calls w ∧ HarmlessRun device calls' (w.afterAll device calls) := by
  induction calls generalizing w with
  | nil => simp [HarmlessRun, World.afterAll]
  | cons c rest ih =>
    rw [List.cons_append, HarmlessRun, HarmlessRun, ih, and_assoc]
    rfl

omit [Zephyr] in
theorem requestEvents_append {runs runs' : List (Call × List Event)} :
    requestEvents (runs ++ runs') = requestEvents runs ++ requestEvents runs' :=
  List.flatMap_append

/-- The custom messages of a gap. -/
abbrev gapCalls (gap : List (List UInt16 × Bool)) : List Call :=
  gap.map fun message => .sendCustomMessage message.1 message.2

/-- Harmless custom messages are invisible to the request; if there is one, the world is quiet. -/
theorem gap_harmless {gap : List (List UInt16 × Bool)}
    (h : HarmlessRun device (gapCalls gap) w) :
    requestEvents (observed device (gapCalls gap) w) = [] ∧
      (∀ values ack es, (.sendCustomMessage values ack, es) ∈ observed device (gapCalls gap) w →
        SentWhole device values ack es) ∧
      (w.afterAll device (gapCalls gap) = w ∨
        w.Quiet ∧ (w.afterAll device (gapCalls gap)).Quiet) := by
  induction gap generalizing w with
  | nil => simp [observed, requestEvents, World.afterAll]
  | cons message rest ih =>
    obtain ⟨⟨hfits, hquiet⟩, hrest⟩ := h
    obtain ⟨hsent, hkeeps⟩ := @sendCustomMessage_sent _ device w _ message.2 _ hfits
    obtain ⟨hnone, hall, hafter⟩ := ih hrest
    refine ⟨hnone, ?_, .inr ⟨hquiet, ?_⟩⟩
    · intro values ack es hm
      rcases List.mem_cons.mp hm with he | hm
      · cases he
        exact hsent
      · exact hall values ack es hm
    · rcases hafter with he | ⟨_, hq⟩
      · change (World.afterAll _ device (gapCalls rest)).Quiet
        rw [he]
        exact hkeeps hquiet
      · exact hq

/-- Two runs that have been the same so far, or in which nothing visible can follow. -/
theorem rest_undisturbed {rest : List (List (List UInt16 × Bool) × MidiUmp)}
    (hrest : ∀ step ∈ rest, sysex7StartsMessage (sysex7Status step.2) = false)
    (huv : u = v ∨ u.Quiet ∧ v.Quiet) (h : HarmlessRun device (interleaved rest) u) :
    requestEvents (observed device (interleaved rest) u) =
        requestEvents (observed device (uninterrupted rest) v) ∧
      ∀ values ack es, (.sendCustomMessage values ack, es) ∈ observed device (interleaved rest) u →
        SentWhole device values ack es := by
  induction rest generalizing u v with
  | nil => simp [interleaved, uninterrupted, observed]
  | cons step rest ih =>
    obtain ⟨gap, packet⟩ := step
    have hp : sysex7StartsMessage (sysex7Status packet) = false :=
      hrest (gap, packet) List.mem_cons_self
    have hcalls : interleaved ((gap, packet) :: rest) =
        gapCalls gap ++ .handlePacket packet :: interleaved rest := by simp [interleaved]
    rw [hcalls, harmlessRun_append] at h
    obtain ⟨hgap, _, hlater⟩ := h
    obtain ⟨hnone, hsent, hafter⟩ := gap_harmless hgap
    rw [hcalls, observed_append]
    generalize u.afterAll device (gapCalls gap) = u' at hafter hlater ⊢
    have huv' : u' = v ∨ u'.Quiet ∧ v.Quiet := by
      rcases huv with rfl | ⟨hu, hv⟩
      · rcases hafter with he | ⟨hu, hq⟩
        · exact .inl he
        · exact .inr ⟨hq, hu⟩
      · rcases hafter with he | ⟨_, hq⟩
        · exact .inr ⟨he ▸ hu, hv⟩
        · exact .inr ⟨hq, hv⟩
    obtain ⟨hevents, hnext⟩ : requestEvents [(.handlePacket packet,
          newEvents (invoke device (.handlePacket packet)) u')] =
        requestEvents [(.handlePacket packet,
          newEvents (invoke device (.handlePacket packet)) v)] ∧
        (u'.after device (.handlePacket packet) = v.after device (.handlePacket packet) ∨
          (u'.after device (.handlePacket packet)).Quiet ∧
            (v.after device (.handlePacket packet)).Quiet) := by
      rcases huv' with rfl | ⟨hu, hv⟩
      · exact ⟨rfl, .inl rfl⟩
      · obtain ⟨hue, hut⟩ := @invoke_handlePacket_quiet _ device _ _ _ hp hu
        obtain ⟨hve, hvt⟩ := @invoke_handlePacket_quiet _ device _ _ _ hp hv
        exact ⟨hue.trans hve.symm, .inr ⟨hut, hvt⟩⟩
    obtain ⟨hrequest, hmessages⟩ := ih (fun step hm => hrest step (List.mem_cons_of_mem _ hm)) hnext
      hlater
    constructor
    · rw [requestEvents_append, hnone, List.nil_append]
      change requestEvents ([_] ++ _) = requestEvents ([_] ++ _)
      rw [requestEvents_append, requestEvents_append, hevents, hrequest]
      rfl
    · intro values ack es hm
      rcases List.mem_append.mp hm with hm | hm
      · exact hsent values ack es hm
      · rcases List.mem_cons.mp hm with he | hm
        · cases he
        · exact hmessages values ack es hm

/-- While no custom message falls into a frame under way, those between the packets of a request
leave it as it is, and each is sent as a whole. -/
theorem request_undisturbed {first : MidiUmp} {rest : List (List (List UInt16 × Bool) × MidiUmp)}
    (hrest : ∀ step ∈ rest, sysex7StartsMessage (sysex7Status step.2) = false)
    (h : HarmlessRun device (.handlePacket first :: interleaved rest) w) :
    Undisturbed device w first rest := by
  obtain ⟨hrequest, hmessages⟩ := rest_undisturbed hrest (.inl rfl) h.2
  constructor
  · change requestEvents ([_] ++ _) = requestEvents ([_] ++ _)
    rw [requestEvents_append, requestEvents_append, hrequest]
  · intro values ack es hm
    rcases List.mem_cons.mp hm with he | hm
    · cases he
    · exact hmessages values ack es hm

end Whole

/-- A request for a single value, in three packets. -/
def getPacket (i : Fin 3) : MidiUmp :=
  (sysex7Packets 0 [0x00, 0x53, 0x43, 0, 0, 0, 0, 0, 0, 0, 0, 0, 0]).get (i.cast (by decide +kernel))

/-- A configuration of two values, with the connection open. -/
def openWorld : World Unit :=
  { ram := { configurationEnabled := true, layout := [⟨[⟨2, 0, 0⟩]⟩] }, handler := (), trace := [] }

/-- The packets after the first one, with a custom message between the end of the request and a
packet that belongs to none. -/
def answeredPackets : List (List (List UInt16 × Bool) × MidiUmp) :=
  [([], getPacket 1), ([], getPacket 2), ([([5], true)], getPacket 2)]

theorem answered_undisturbed : Undisturbed ackDevice openWorld (getPacket 0) answeredPackets ∧
    (requestEvents (observed ackDevice (.handlePacket (getPacket 0) ::
      interleaved answeredPackets) openWorld)).length = 5 := by
  refine ⟨request_undisturbed ?_ ?_, by decide +kernel⟩
  · decide +kernel
  · exact ⟨trivial, trivial, trivial, ⟨by decide, .inl (by decide +kernel)⟩, trivial, trivial⟩

/-- The packets after the first one, with a custom message before the last. -/
def interruptedPackets : List (List (List UInt16 × Bool) × MidiUmp) :=
  [([], getPacket 1), ([([5], true)], getPacket 2)]

/-- The last packet is appended to the custom message, and the request is answered with an error in
its place. -/
theorem open_request_disturbed :
    ¬ Undisturbed ackDevice openWorld (getPacket 0) interruptedPackets := by
  intro h
  have hlength := congrArg List.length h.request
  exact absurd hlength (by decide +kernel)

end Zlibs.SysExConf
