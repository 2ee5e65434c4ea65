import Zlibs.SysExConf.Internal

/-! The configuration session as the calls and the received frames define it, and what the handler
may be asked in it. -/
namespace Zlibs.SysExConf
open Midi

variable {id : ManufacturerId} {s : Session} {before after es : List Event} {e : Event}

structure Session where
  connected : Bool := false
  layout : List Block := []
  deriving DecidableEq

/-- The wish of a well-formed special request for this device. -/
def specialRequest (id : ManufacturerId) : List UInt8 → Option UInt8
  | [start, id1, id2, id3, status, _, wish, terminator] =>
    if start = sysExStart ∧ id1 = id.id1 ∧ id2 = id.id2 ∧ id3 = id.id3 ∧
        status = Status.request.toByte ∧ terminator = sysExEnd then some wish
    else none
  | _ => none

/-- Whether the connection is open after a special request. -/
def connectionAfter (wish : UInt8) (connected : Bool) : Bool :=
  if wish = connClose then false else if wish = connOpen then true else connected

/-- A frame is processed once there is a layout. A layout that is not accepted leaves the former
one. -/
def Session.next (id : ManufacturerId) (s : Session) : Event → Session
  | .call (.setLayout layout) =>
    { connected := false, layout := if layout = [] then s.layout else layout }
  | .call .reset => {}
  | .call .closeConnection => { s with connected := false }
  | .request frame =>
    match specialRequest id frame with
    | some wish =>
      if s.layout = [] then s else { s with connected := connectionAfter wish s.connected }
    | none => s
  | _ => s

/-- The session after a trace of a new object. -/
def Session.of (id : ManufacturerId) (trace : List Event) : Session :=
  trace.foldl (Session.next id) {}

/-- The parameter exists and `sect` describes its section. -/
def InLayout (layout : List Block) (block sectIndex : UInt8) (index : UInt16) (sect : Section) :
    Prop :=
  ∃ blk, layout[block.toNat]? = some blk ∧ blk.sections[sectIndex.toNat]? = some sect ∧
    index < sect.numberOfParameters

/-- Within the limits, where there are limits. -/
def Section.Accepts (sect : Section) (value : UInt16) : Prop :=
  sect.newValueMin ≠ sect.newValueMax → sect.newValueMin ≤ value ∧ value ≤ sect.newValueMax

instance {sect : Section} {value : UInt16} : Decidable (sect.Accepts value) :=
  inferInstanceAs (Decidable (_ → _))

/-- The handler is asked about parameters in an open session only, within their section, and to
set accepted values only. -/
def Event.Proper (s : Session) : Event → Prop
  | .get block sectIndex index _ _ =>
    s.connected = true ∧ ∃ sect, InLayout s.layout block sectIndex index sect
  | .set block sectIndex index newValue _ =>
    s.connected = true ∧
      ∃ sect, InLayout s.layout block sectIndex index sect ∧ sect.Accepts newValue
  | _ => True

/-- The handler is called properly all along a trace. -/
def Contract (id : ManufacturerId) (trace : List Event) : Prop :=
  ∀ before e after, trace = before ++ e :: after → e.Proper (Session.of id before)

/-- An event that neither is a call nor brings a frame. -/
def Event.Inner : Event → Prop
  | .call _ | .request _ => False
  | _ => True

theorem Session.of_snoc : Session.of id (before ++ [e]) = (Session.of id before).next id e := by
  simp [Session.of]

theorem Session.next_inner (h : e.Inner) : s.next id e = s := by
  cases e with
  | call c => exact h.elim
  | request frame => exact h.elim
  | get | set | customRequest | response | sendResponse => rfl

theorem Session.of_append_inner (h : ∀ e ∈ es, e.Inner) :
    Session.of id (before ++ es) = Session.of id before := by
  induction es generalizing before with
  | nil => simp
  | cons e rest ih =>
    have hs : before ++ e :: rest = (before ++ [e]) ++ rest := by simp
    rw [hs, ih fun e he => h e (by simp [he]), Session.of_snoc, Session.next_inner (h e (by simp))]

theorem Contract.nil : Contract id [] := by
  intro before e after h
  simp at h

theorem Contract.snoc (h : Contract id before) (he : e.Proper (Session.of id before)) :
    Contract id (before ++ [e]) := by
  intro front x back hx
  rcases List.eq_nil_or_concat back with rfl | ⟨init, last, rfl⟩
  · obtain ⟨hfront, hlast⟩ := List.append_inj' hx rfl
    rw [← hfront, ← List.singleton_inj.mp hlast]
    exact he
  · have hx' : before ++ [e] = (front ++ x :: init) ++ [last] := by simpa using hx
    exact h front x init (List.append_inj' hx' rfl).1

theorem Contract.append (h : Contract id before)
    (hes : ∀ e ∈ es, e.Inner ∧ e.Proper (Session.of id before)) : Contract id (before ++ es) := by
  induction es generalizing before with
  | nil => simpa using h
  | cons e rest ih =>
    have hs : before ++ e :: rest = (before ++ [e]) ++ rest := by simp
    rw [hs]
    apply ih (h.snoc (hes e (by simp)).2)
    intro x hx
    rw [Session.of_snoc, Session.next_inner (hes e (by simp)).1]
    exact hes x (by simp [hx])

end Zlibs.SysExConf
