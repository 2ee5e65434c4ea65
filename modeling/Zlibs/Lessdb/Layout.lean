import Mathlib

/-! The layout of the database: sections of parameters, in blocks. -/
namespace Zlibs.Lessdb

/-- `static_cast<uint32_t>` -/
def u32 (n : Nat) : Nat := n % 2 ^ 32

inductive SectionParameterType where
  | bit
  | byte
  | halfByte
  | word
  | dword
  deriving DecidableEq

inductive FactoryResetType where
  | partialReset
  | fullReset
  deriving DecidableEq

inductive PreserveSetting where
  | enable
  | disable
  deriving DecidableEq

inductive AutoIncrementSetting where
  | enable
  | disable
  deriving DecidableEq

/-- The bytes that `n` parameters take, before the cast to 32 bits. -/
def parametersSize (n : Nat) : SectionParameterType → Nat
  | .bit => n / 8 + if n % 8 ≠ 0 then 1 else 0
  | .halfByte => n / 2 + if n % 2 ≠ 0 then 1 else 0
  | .byte => n
  | .word => n * 2
  | .dword => n * 4

def sectionByteSize (n : Nat) (type : SectionParameterType) : Nat := u32 (parametersSize n type)

structure Section where
  numberOfParameters : Nat
  parameterType : SectionParameterType
  preserveOnPartialReset : PreserveSetting
  autoIncrement : AutoIncrementSetting
  defaultValue : UInt32 := 0
  address : Nat := 0

namespace Section

/-- The exact size of the section. -/
def size (s : Section) : Nat := parametersSize s.numberOfParameters s.parameterType

def byteSize (s : Section) : Nat := sectionByteSize s.numberOfParameters s.parameterType

end Section

structure Block where
  sections : List Section
  blockOffset : Nat := 0

namespace Block

def size (b : Block) : Nat := (b.sections.map Section.size).sum

def byteSize (b : Block) : Nat := b.sections.foldl (fun size s => u32 (size + s.byteSize)) 0

end Block

/-- The entries with their offsets stamped in, each behind the one before it. -/
def stampFrom {α : Type} (byteSize : α → Nat) (stamp : α → Nat → α) (offset : Nat) :
    List α → List α
  | [] => []
  | x :: rest => stamp x offset :: stampFrom byteSize stamp (u32 (offset + byteSize x)) rest

def makeBlock (sections : List Section) : List Section :=
  stampFrom Section.byteSize (fun s address => { s with address := address }) 0 sections

def makeLayout (blocks : List Block) : List Block :=
  stampFrom Block.byteSize (fun b offset => { b with blockOffset := offset }) 0 blocks

def layoutSize (layout : List Block) : Nat :=
  match layout.getLast? with
  | none => 0
  | some block => u32 (block.blockOffset + block.byteSize)

variable {α : Type} {byteSize f : α → Nat} {stamp : α → Nat → α} {offset i : Nat} {x : α}
  {xs : List α}

theorem u32_of_lt {n : Nat} (h : n < 2 ^ 32) : u32 n = n := Nat.mod_eq_of_lt h

/-- The stamped offsets are the exact ones while the total stays below 2^32. -/
theorem stampFrom_getElem? (hs : ∀ x ∈ xs, f x < 2 ^ 32 → byteSize x = f x)
    (ht : offset + (xs.map f).sum < 2 ^ 32) :
    (stampFrom byteSize stamp offset xs)[i]? =
      xs[i]?.map fun x => stamp x (offset + ((xs.take i).map f).sum) := by
  induction xs generalizing offset i with
  | nil => rfl
  | cons y rest ih =>
    simp only [List.map_cons, List.sum_cons] at ht
    have hy : byteSize y = f y := hs y (by simp) (by omega)
    cases i with
    | zero => simp [stampFrom]
    | succ i =>
      have hrest : (stampFrom byteSize stamp (offset + f y) rest)[i]? =
          rest[i]?.map fun x => stamp x (offset + f y + ((rest.take i).map f).sum) :=
        ih (fun x hx => hs x (by simp [hx])) (by omega)
      rw [stampFrom, hy, u32_of_lt (by omega), List.getElem?_cons_succ, hrest]
      simp [Nat.add_assoc]

theorem length_stampFrom : (stampFrom byteSize stamp offset xs).length = xs.length := by
  induction xs generalizing offset with
  | nil => rfl
  | cons y rest ih => simp [stampFrom, ih]

theorem Section.byteSize_eq {s : Section} (h : s.size < 2 ^ 32) : s.byteSize = s.size := u32_of_lt h

theorem foldl_u32 {ss : List Section} {n : Nat} (h : n + (ss.map Section.size).sum < 2 ^ 32) :
    ss.foldl (fun size s => u32 (size + s.byteSize)) n = n + (ss.map Section.size).sum := by
  induction ss generalizing n with
  | nil => rfl
  | cons s rest ih =>
    simp only [List.map_cons, List.sum_cons] at h
    have hs : s.byteSize = s.size := Section.byteSize_eq (by omega)
    rw [List.foldl_cons, hs, u32_of_lt (by omega), ih (by omega)]
    simp [Nat.add_assoc]

theorem Block.byteSize_eq {b : Block} (h : b.size < 2 ^ 32) : b.byteSize = b.size := by
  rw [Block.byteSize, foldl_u32 (by rw [Nat.zero_add]; exact h), Nat.zero_add, Block.size]

/-- What stands before an entry and the entry itself fit into the whole. -/
theorem sum_take_add_le (h : xs[i]? = some x) :
    ((xs.take i).map f).sum + f x ≤ (xs.map f).sum := by
  obtain ⟨hi, rfl⟩ := List.getElem?_eq_some_iff.mp h
  calc ((xs.take i).map f).sum + f xs[i]
      = ((xs.take (i + 1)).map f).sum := by
        rw [List.take_succ_eq_append_getElem hi, List.map_append, List.sum_append]
        simp only [List.map_cons, List.map_nil, List.sum_singleton]
    _ ≤ (xs.map f).sum := by
        conv_rhs => rw [← List.take_append_drop (i + 1) xs, List.map_append, List.sum_append]
        exact Nat.le_add_right ..

theorem sum_take_le {j : Nat} (hij : i < j) (h : xs[i]? = some x) :
    ((xs.take i).map f).sum + f x ≤ ((xs.take j).map f).sum := by
  have hi : (xs.take j)[i]? = some x := by rw [List.getElem?_take_of_lt hij, h]
  have hle := sum_take_add_le (f := f) hi
  rwa [List.take_take, min_eq_left hij.le] at hle

end Zlibs.Lessdb
