import Zlibs.SysExConf.SetAtomicity

/-! Values as they are read and appended to a frame, and the answers of a run with what was read for
them. -/
namespace Zlibs.SysExConf
open Lib Midi

variable {η : Type} {device : Device η} {m : Members} {w t : World η} {sect : Section}
  {block sectIndex part : UInt8} {handler : η} {i : Nat} {indices : List Nat}
  {values : List (UInt16 × UInt16)}

/-- The values as they are appended to a frame. -/
def valueBytes (values : List (UInt16 × UInt16)) : List UInt8 :=
  values.flatMap fun value => [(split14Bit value.2).1, (split14Bit value.2).2]

@[simp] theorem length_valueBytes {values : List (UInt16 × UInt16)} :
    (valueBytes values).length = 2 * values.length := by
  induction values with
  | nil => rfl
  | cons value rest ih => simp only [valueBytes, List.flatMap_cons, List.length_append,
      List.length_cons, List.length_nil] at ih ⊢; omega

/-- Parameters read one after the other, with their values. -/
def readAll (device : Device η) (block sectIndex : UInt8) :
    List Nat → η → List (UInt16 × UInt16) × η
  | [], handler => ([], handler)
  | i :: rest, handler =>
    let r := device.dataHandler.get block sectIndex (UInt16.ofNat i) handler
    let later := readAll device block sectIndex rest r.2
    ((UInt16.ofNat i, r.1.2) :: later.1, later.2)

theorem readAll_indices :
    (readAll device block sectIndex indices handler).1.map Prod.fst = indices.map UInt16.ofNat := by
  induction indices generalizing handler with
  | nil => rfl
  | cons i rest ih => exact congrArg (_ :: ·) ih

@[simp] theorem length_readAll :
    (readAll device block sectIndex indices handler).1.length = indices.length := by
  have h := congrArg List.length (@readAll_indices _ device block sectIndex handler indices)
  simpa using h

/-- Every parameter is read with a value of 14 bits within the limits of the section. -/
def Provides (device : Device η) (block sectIndex : UInt8) (sect : Section) : Prop :=
  ∀ i < sect.numberOfParameters.toNat, ∀ handler,
    let r := device.dataHandler.get block sectIndex (UInt16.ofNat i) handler
    r.1.1 = .ack ∧ r.1.2.toNat < 2 ^ 14 ∧ sect.Accepts r.1.2

/-- Every parameter can be read. -/
def Readable (device : Device η) (block sectIndex : UInt8) (sect : Section) : Prop :=
  ∀ i < sect.numberOfParameters.toNat, ∀ handler,
    (device.dataHandler.get block sectIndex (UInt16.ofNat i) handler).1.1 = .ack

theorem Provides.readable (h : Provides device block sectIndex sect) :
    Readable device block sectIndex sect := fun i hi handler => (h i hi handler).1

theorem readAll_provided (h : Provides device block sectIndex sect)
    (hi : ∀ i ∈ indices, i < sect.numberOfParameters.toNat) :
    ∀ value ∈ (readAll device block sectIndex indices handler).1,
      value.2.toNat < 2 ^ 14 ∧ sect.Accepts value.2 := by
  induction indices generalizing handler with
  | nil => simp [readAll]
  | cons i rest ih =>
    intro value hv
    rcases List.mem_cons.mp hv with rfl | hv
    · exact (h i (hi i List.mem_cons_self) handler).2
    · exact ih (fun j hj => hi j (List.mem_cons_of_mem _ hj)) value hv

theorem Members.pushedAll_append {bytes rest : List UInt8} :
    m.pushedAll (bytes ++ rest) = (m.pushedAll bytes).pushedAll rest := by
  induction bytes generalizing m with
  | nil => rfl
  | cons byte bytes ih => exact ih

/-- The calls that read values. -/
def getEvents (block sectIndex : UInt8) (values : List (UInt16 × UInt16)) : List Event :=
  values.map fun value => .get block sectIndex value.1 .ack value.2

/-- The world after values have been read and appended. -/
def World.afterReads (w : World η) (block sectIndex : UInt8)
    (r : List (UInt16 × UInt16) × η) : World η :=
  { ram := w.ram.pushedAll (valueBytes r.1), handler := r.2,
    trace := w.trace ++ getEvents block sectIndex r.1 }

theorem take_pushedAll {bytes : List UInt8} {n : Nat} (h : n ≤ m.responseCounter) :
    (m.pushedAll bytes).responseArray.toList.take n = m.responseArray.toList.take n := by
  induction bytes generalizing m with
  | nil => rfl
  | cons byte rest ih =>
    rw [Members.pushedAll, ih (by simp only [Members.pushed_responseCounter]; omega)]
    exact Members.take_write_of_le h

/-- The parameters of a part. -/
def partRange (sect : Section) (part : UInt8) : List Nat :=
  List.range' (paramsPerMessage * part.toNat) (partSize sect part)

theorem lt_of_mem_partRange (h : i ∈ partRange sect part) : i < sect.numberOfParameters.toNat := by
  simp only [partRange, List.mem_range'_1, partSize] at h
  omega

theorem length_partRange : (partRange sect part).length ≤ paramsPerMessage := by
  simp only [partRange, List.length_range', partSize]
  omega

/-- The answers of a run, each with the values that were read since the one before. -/
def readsByAnswer : List (UInt8 × UInt8 × UInt16 × UInt16) → List Event →
    List (List (UInt8 × UInt8 × UInt16 × UInt16) × List UInt8)
  | _, [] => []
  | reads, .get block sectIndex index _ value :: rest =>
    readsByAnswer (reads ++ [(block, sectIndex, index, value)]) rest
  | reads, .response frame :: rest => (reads, frame) :: readsByAnswer [] rest
  | reads, _ :: rest => readsByAnswer reads rest

def backups (es : List Event) : List (List (UInt8 × UInt8 × UInt16 × UInt16) × List UInt8) :=
  readsByAnswer [] es

theorem map_snd_readsByAnswer {reads : List (UInt8 × UInt8 × UInt16 × UInt16)} {es : List Event} :
    (readsByAnswer reads es).map Prod.snd = answers es := by
  induction es generalizing reads with
  | nil => rfl
  | cons e rest ih => cases e <;> simp [readsByAnswer, answers, ih]

theorem readsByAnswer_getEvents {reads : List (UInt8 × UInt8 × UInt16 × UInt16)}
    {es : List Event} : readsByAnswer reads (getEvents block sectIndex values ++ es) =
      readsByAnswer (reads ++ values.map fun value => (block, sectIndex, value)) es := by
  induction values generalizing reads with
  | nil => simp [getEvents]
  | cons value rest ih =>
    change readsByAnswer _ (getEvents block sectIndex rest ++ es) = _
    rw [ih]
    simp

theorem readsByAnswer_sendEach {reads : List (UInt8 × UInt8 × UInt16 × UInt16)}
    {es : List Event} {packets : List MidiUmp} :
    readsByAnswer reads ((sendEach device packets handler).1 ++ es) = readsByAnswer reads es := by
  have hsends := @sends_sendEach _ device packets handler
  generalize (sendEach device packets handler).1 = sent at hsends
  induction sent with
  | nil => rfl
  | cons e rest ih =>
    obtain ⟨_, _, rfl⟩ := hsends e List.mem_cons_self
    exact ih fun e he => hsends e (List.mem_cons_of_mem _ he)

end Zlibs.SysExConf
