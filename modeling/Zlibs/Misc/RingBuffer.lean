import Zlibs.Lib.Machine

/-! The ring buffer, and the queue of at most `maxSize` items that it implements. -/
namespace Zlibs.Misc
open Lib

/-- `RingBuffer`, of `maxSize` usable cells. -/
structure RingBuffer (maxSize : Nat) (T : Type) where
  buffer : Vector T (maxSize + 1)
  head : Fin (maxSize + 1)
  tail : Fin (maxSize + 1)

variable {maxSize k : Nat} {T : Type} {i t : Fin (maxSize + 1)} {b : RingBuffer maxSize T}
  {data : T}

/-- The index after `i`, back to 0 at `STORAGE_SIZE`. -/
def next (i : Fin (maxSize + 1)) : Fin (maxSize + 1) :=
  if h : i.val + 1 ≥ maxSize + 1 then 0 else ⟨i.val + 1, by omega⟩

namespace RingBuffer

def init [Inhabited T] : RingBuffer maxSize T := ⟨Vector.replicate _ default, 0, 0⟩

def size (b : RingBuffer maxSize T) : Nat :=
  if b.head ≥ b.tail then b.head.val - b.tail.val else maxSize + 1 + b.head.val - b.tail.val

def isEmpty (b : RingBuffer maxSize T) : Bool := b.head = b.tail

def isFull (b : RingBuffer maxSize T) : Bool := b.size = maxSize

/-- `_tail.store`. -/
def storeTail (b : RingBuffer maxSize T) (i : Fin (maxSize + 1)) : RingBuffer maxSize T :=
  { b with tail := i }

/-- `_buffer[i] = data`. -/
def write (b : RingBuffer maxSize T) (i : Fin (maxSize + 1)) (data : T) : RingBuffer maxSize T :=
  { b with buffer := b.buffer.set i data }

/-- `_head.store`. -/
def storeHead (b : RingBuffer maxSize T) (i : Fin (maxSize + 1)) : RingBuffer maxSize T :=
  { b with head := i }

def insert (overwriteOldest : Bool) (data : T) (b : RingBuffer maxSize T) :
    Bool × RingBuffer maxSize T :=
  let next' := next b.head
  if b.tail = next' then
    if overwriteOldest then
      -- The oldest item is retired before the new head is published.
      (true, ((b.storeTail (next b.tail)).write next' data).storeHead next')
    else (false, b)
  else (true, (b.write next' data).storeHead next')

def peek (b : RingBuffer maxSize T) : Option T :=
  if b.head = b.tail then none else some b.buffer[next b.tail]

def remove (b : RingBuffer maxSize T) : Option T × RingBuffer maxSize T :=
  if b.head = b.tail then (none, b)
  else (some b.buffer[next b.tail], b.storeTail (next b.tail))

def reset (b : RingBuffer maxSize T) : RingBuffer maxSize T := b.storeTail b.head

/-- The stored items, the oldest first: each lies one past the tail that precedes it. -/
def contents (b : RingBuffer maxSize T) : List T :=
  (List.range b.size).map fun k => b.buffer[next^[k + 1] b.tail]

end RingBuffer

theorem next_val : (next i).val = if i.val + 1 < maxSize + 1 then i.val + 1 else 0 := by
  unfold next
  split_ifs <;> first | rfl | omega

theorem next_injective {i j : Fin (maxSize + 1)} (h : next i = next j) : i = j := by
  have hv := congrArg Fin.val h
  rw [next_val, next_val] at hv
  apply Fin.ext
  split_ifs at hv <;> omega

theorem iterate_val (h : k ≤ maxSize + 1) : (next^[k] t).val =
    if t.val + k < maxSize + 1 then t.val + k else t.val + k - (maxSize + 1) := by
  induction k with
  | zero => simp [t.isLt]
  | succ k ih =>
    rw [Function.iterate_succ_apply', next_val, ih (by omega)]
    have := t.isLt
    split_ifs <;> omega

theorem iterate_ne (hk : 0 < k) (h : k ≤ maxSize) : next^[k] t ≠ t := by
  intro he
  have hv := congrArg Fin.val he
  rw [iterate_val (by omega)] at hv
  split_ifs at hv <;> omega

/-- With more than one cell, an index differs from the next one. -/
theorem next_ne (h : 0 < maxSize) : next i ≠ i := iterate_ne (k := 1) Nat.one_pos h

namespace RingBuffer

@[simp] theorem storeTail_head : (b.storeTail i).head = b.head := rfl
@[simp] theorem storeTail_tail : (b.storeTail i).tail = i := rfl
@[simp] theorem storeTail_buffer : (b.storeTail i).buffer = b.buffer := rfl
@[simp] theorem storeHead_head : (b.storeHead i).head = i := rfl
@[simp] theorem storeHead_tail : (b.storeHead i).tail = b.tail := rfl
@[simp] theorem storeHead_buffer : (b.storeHead i).buffer = b.buffer := rfl
@[simp] theorem write_head : (b.write i data).head = b.head := rfl
@[simp] theorem write_tail : (b.write i data).tail = b.tail := rfl
@[simp] theorem write_same : (b.write i data).buffer[i] = data := by simp [write]

theorem write_ne {j : Fin (maxSize + 1)} (h : i ≠ j) :
    (b.write i data).buffer[j] = b.buffer[j] := by
  simp only [write, Fin.getElem_fin]
  exact Vector.getElem_set_ne _ _ (fun he => h (Fin.ext he))

@[simp] theorem length_contents : b.contents.length = b.size := by simp [contents]

theorem size_val : b.size = if b.tail.val ≤ b.head.val then b.head.val - b.tail.val
    else maxSize + 1 + b.head.val - b.tail.val := rfl

theorem size_le : b.size ≤ maxSize := by
  rw [size_val]
  have := b.head.isLt
  split_ifs <;> omega

theorem size_eq_zero : b.size = 0 ↔ b.head = b.tail := by
  rw [size_val, Fin.ext_iff]
  have := b.tail.isLt
  split_ifs <;> omega

/-- The buffer is full when the tail is one past the head. -/
theorem size_eq_maxSize : b.size = maxSize ↔ b.tail = next b.head := by
  rw [size_val, Fin.ext_iff, next_val]
  have := b.tail.isLt
  have := b.head.isLt
  split_ifs <;> omega

theorem iterate_size : next^[b.size] b.tail = b.head := by
  apply Fin.ext
  rw [iterate_val (Nat.le_succ_of_le size_le), size_val]
  have := b.tail.isLt
  have := b.head.isLt
  split_ifs <;> omega

theorem contents_eq_nil : b.contents = [] ↔ b.head = b.tail := by
  rw [← List.length_eq_zero_iff, length_contents, size_eq_zero]

/-- The oldest item lies one past the tail. -/
theorem contents_cons (h : b.head ≠ b.tail) :
    b.contents = b.buffer[next b.tail] :: (b.storeTail (next b.tail)).contents := by
  have hs : b.size = (b.storeTail (next b.tail)).size + 1 := by
    have := b.tail.isLt
    have := b.head.isLt
    rw [Ne, Fin.ext_iff] at h
    rw [size_val, size_val, storeTail_head, storeTail_tail, next_val]
    split_ifs <;> omega
  unfold contents
  rw [hs, List.range_succ_eq_map, List.map_cons, List.map_map]
  rfl

/-- A write to the cell after the head leaves the contents as they are. -/
theorem contents_write : (b.write (next b.head) data).contents = b.contents := by
  unfold contents
  apply List.map_congr_left
  intro k hk
  have hs : k < b.size := List.mem_range.mp hk
  have hne : next b.head ≠ next^[k + 1] b.tail := by
    rw [Function.iterate_succ_apply']
    intro he
    have he := next_injective he
    have hb : next^[b.size - k] (next^[k] b.tail) = next^[k] b.tail := by
      rw [← Function.iterate_add_apply, Nat.sub_add_cancel hs.le, iterate_size, he]
    exact iterate_ne (Nat.sub_pos_of_lt hs) ((Nat.sub_le ..).trans size_le) hb
  exact write_ne hne

/-- Once the cell after the head is published, it holds the newest item. -/
theorem contents_storeHead (h : b.tail ≠ next b.head) :
    (b.storeHead (next b.head)).contents = b.contents ++ [b.buffer[next b.head]] := by
  have hs : (b.storeHead (next b.head)).size = b.size + 1 := by
    have := b.tail.isLt
    have := b.head.isLt
    rw [Ne, Fin.ext_iff, next_val] at h
    rw [size_val, size_val, storeHead_head, storeHead_tail, next_val]
    split_ifs at h ⊢ <;> omega
  have hlast : next^[b.size + 1] b.tail = next b.head := by
    rw [Function.iterate_succ_apply', iterate_size]
  unfold contents
  rw [hs, List.range_succ, List.map_append, List.map_singleton]
  simp only [storeHead_tail, storeHead_buffer, hlast]

@[simp] theorem contents_init [Inhabited T] : (init : RingBuffer maxSize T).contents = [] :=
  contents_eq_nil.mpr rfl

theorem isEmpty_contents : b.isEmpty = b.contents.isEmpty := by
  rw [Bool.eq_iff_iff, List.isEmpty_iff, contents_eq_nil]
  exact decide_eq_true_iff

theorem peek_contents : b.peek = b.contents.head? := by
  unfold peek
  split_ifs with h
  · rw [contents_eq_nil.mpr h]
    rfl
  · rw [contents_cons h]
    rfl

theorem remove_contents :
    b.remove.1 = b.contents.head? ∧ b.remove.2.contents = b.contents.tail := by
  unfold remove
  split_ifs with h
  · simp [contents_eq_nil.mpr h]
  · simp [contents_cons h]

theorem reset_contents : b.reset.contents = [] := contents_eq_nil.mpr rfl

/-- What `insert` does to a buffer with a free cell. -/
theorem contents_append (h : b.tail ≠ next b.head) :
    ((b.write (next b.head) data).storeHead (next b.head)).contents = b.contents ++ [data] := by
  have hw : (b.write (next b.head) data).contents = b.contents := contents_write
  have hs : ((b.write (next b.head) data).storeHead (next b.head)).contents =
      (b.write (next b.head) data).contents ++ [(b.write (next b.head) data).buffer[next b.head]] :=
    contents_storeHead h
  rw [hs, hw, write_same]

end RingBuffer

inductive Op (T : Type) where
  | insert (data : T)
  | remove
  | peek
  | reset

/-- What an operation returns, and what the buffer then reports of itself. -/
structure Report (T : Type) where
  inserted : Option Bool := none
  item : Option T := none
  size : Nat
  isEmpty : Bool
  isFull : Bool
  peek : Option T

def RingBuffer.report (inserted : Option Bool) (item : Option T) (b : RingBuffer maxSize T) :
    Report T :=
  ⟨inserted, item, b.size, b.isEmpty, b.isFull, b.peek⟩

def RingBuffer.perform (overwriteOldest : Bool) (b : RingBuffer maxSize T) :
    Op T → Option (Report T) × RingBuffer maxSize T
  | .insert data =>
    let r := b.insert overwriteOldest data
    (some (r.2.report r.1 none), r.2)
  | .remove => (some (b.remove.2.report none b.remove.1), b.remove.2)
  | .peek => (some (b.report none b.peek), b)
  | .reset => (some (b.reset.report none none), b.reset)

/-- What a list of at most `maxSize` items reports. -/
def queueReport (maxSize : Nat) (inserted : Option Bool) (item : Option T) (q : List T) :
    Report T :=
  ⟨inserted, item, q.length, q.isEmpty, q.length = maxSize, q.head?⟩

/-- Appends to a list of at most `maxSize` items; on a full one the oldest item makes room. -/
def queueInsert (maxSize : Nat) (overwriteOldest : Bool) (data : T) (q : List T) :
    Bool × List T :=
  if q.length < maxSize then (true, q ++ [data])
  else if overwriteOldest then (true, q.tail ++ [data]) else (false, q)

/-- The operations on a list of at most `maxSize` items, the oldest first. -/
def performQueue (maxSize : Nat) (overwriteOldest : Bool) (q : List T) :
    Op T → Option (Report T) × List T
  | .insert data =>
    let r := queueInsert maxSize overwriteOldest data q
    (some (queueReport maxSize r.1 none r.2), r.2)
  | .remove => (some (queueReport maxSize none q.head? q.tail), q.tail)
  | .peek => (some (queueReport maxSize none q.head? q), q)
  | .reset => (some (queueReport maxSize none none []), [])

theorem report_contents {inserted : Option Bool} {item : Option T} :
    b.report inserted item = queueReport maxSize inserted item b.contents := by
  unfold RingBuffer.report queueReport RingBuffer.isFull
  rw [RingBuffer.isEmpty_contents, RingBuffer.peek_contents, RingBuffer.length_contents]

/-- On a full buffer an insert retires the oldest item, or is refused. -/
theorem insert_contents (h : 0 < maxSize) (overwriteOldest : Bool) (data : T)
    (b : RingBuffer maxSize T) :
    ((b.insert overwriteOldest data).1, (b.insert overwriteOldest data).2.contents) =
      queueInsert maxSize overwriteOldest data b.contents := by
  unfold RingBuffer.insert queueInsert
  by_cases hf : b.tail = next b.head
  · have hs : b.size = maxSize := RingBuffer.size_eq_maxSize.mpr hf
    rw [if_pos hf, RingBuffer.length_contents, hs, if_neg (lt_irrefl _)]
    cases overwriteOldest with
    | false => rfl
    | true =>
      have hne : b.head ≠ b.tail := by
        rw [hf]
        exact (next_ne h).symm
      have hfree : (b.storeTail (next b.tail)).tail ≠ next (b.storeTail (next b.tail)).head :=
        fun he => hne (next_injective he).symm
      have ha := @RingBuffer.contents_append _ _ _ data hfree
      rw [RingBuffer.contents_cons hne]
      exact congrArg (Prod.mk true) ha
  · have hs : b.size < maxSize :=
      lt_of_le_of_ne RingBuffer.size_le fun he => hf (RingBuffer.size_eq_maxSize.mp he)
    rw [if_neg hf, RingBuffer.length_contents, if_pos hs]
    exact congrArg (Prod.mk true) (RingBuffer.contents_append hf)

/-- One operation does to the contents what it does to the list. -/
theorem perform_contents (h : 0 < maxSize) (overwriteOldest : Bool) (b : RingBuffer maxSize T)
    (op : Op T) :
    (b.perform overwriteOldest op).1 =
        (performQueue maxSize overwriteOldest b.contents op).1 ∧
      (b.perform overwriteOldest op).2.contents =
        (performQueue maxSize overwriteOldest b.contents op).2 := by
  cases op with
  | insert data =>
    obtain ⟨hflag, hitems⟩ := Prod.ext_iff.mp (insert_contents h overwriteOldest data b)
    simp only at hflag hitems
    simp only [RingBuffer.perform, performQueue, report_contents, hitems, hflag, and_self]
  | remove =>
    obtain ⟨hitem, hrest⟩ := RingBuffer.remove_contents (b := b)
    simp only [RingBuffer.perform, performQueue, report_contents, hitem, hrest, and_self]
  | peek =>
    simp only [RingBuffer.perform, performQueue, report_contents, RingBuffer.peek_contents,
      and_self]
  | reset =>
    simp only [RingBuffer.perform, performQueue, report_contents, RingBuffer.reset_contents,
      and_self]

/-- The buffer is a FIFO list of at most `maxSize` items, over any run of operations. -/
theorem ringBuffer_refines_queue [Inhabited T] {maxSize : Nat} (h : 0 < maxSize)
    (overwriteOldest : Bool) (ops : List (Op T)) :
    let b := feed (RingBuffer.perform overwriteOldest) (RingBuffer.init : RingBuffer maxSize T) ops
    let q := feed (performQueue maxSize overwriteOldest) [] ops
    b.1 = q.1 ∧ b.2.contents = q.2 ∧ q.2.length ≤ maxSize := by
  intro b q
  have hsim : b.1 = q.1 ∧ b.2.contents = q.2 := by
    apply feed_simulates (fun (b : RingBuffer maxSize T) q => b.contents = q) _ RingBuffer.contents_init
    rintro b _ op rfl
    exact perform_contents h overwriteOldest b op
  refine ⟨hsim.1, hsim.2, ?_⟩
  rw [← hsim.2, RingBuffer.length_contents]
  exact RingBuffer.size_le

theorem ringBuffer_refines_queue_two :
    (feed (RingBuffer.perform true) (RingBuffer.init : RingBuffer 2 Nat)
        [.insert 1, .insert 2, .insert 3, .remove]).2.contents = [3] :=
  (ringBuffer_refines_queue (by decide) true [.insert 1, .insert 2, .insert 3, .remove]).2.1

end Zlibs.Misc
