import Mathlib

/-! A bounded queue as a transition system, and what its histories say about the items. -/
namespace Zlibs.Lib

/-- What happens to a queue that drops its oldest item when it is full. -/
inductive QueueEvent (α : Type) where
  | inserted (item : α)
  | retired
  | removed (item : α)
  deriving DecidableEq

variable {α : Type} {n : Nat} {q r : List α} {e : QueueEvent α} {es : List (QueueEvent α)}

/-- The steps of a queue of at most `n` items. -/
inductive QueueStep (n : Nat) : List α → QueueEvent α → List α → Prop
  | insert {q : List α} {item : α} (h : q.length < n) :
      QueueStep n q (.inserted item) (q ++ [item])
  | retire {q : List α} {item : α} (h : (item :: q).length = n) :
      QueueStep n (item :: q) .retired q
  | remove {q : List α} {item : α} : QueueStep n (item :: q) (.removed item) q

/-- The histories of a queue that starts empty, the newest event last. -/
inductive QueueHistory (n : Nat) : List (QueueEvent α) → List α → Prop
  | nil : QueueHistory n [] []
  | snoc {es : List (QueueEvent α)} {q r : List α} {e : QueueEvent α}
      (h : QueueHistory n es q) (hs : QueueStep n q e r) : QueueHistory n (es ++ [e]) r

/-- The items that have been inserted. -/
def insertedItems (es : List (QueueEvent α)) : List α :=
  es.filterMap fun
    | .inserted item => some item
    | _ => none

/-- The items that have been removed. -/
def removedItems (es : List (QueueEvent α)) : List α :=
  es.filterMap fun
    | .removed item => some item
    | _ => none

@[simp] theorem insertedItems_concat : insertedItems (es ++ [e]) =
    insertedItems es ++ match e with
      | .inserted item => [item]
      | _ => [] := by
  cases e <;> simp [insertedItems]

@[simp] theorem removedItems_concat : removedItems (es ++ [e]) =
    removedItems es ++ match e with
      | .removed item => [item]
      | _ => [] := by
  cases e <;> simp [removedItems]

/-- Every queue of at most `n` items has been filled by inserts alone. -/
theorem QueueHistory.of_length_le (h : q.length ≤ n) : ∃ es, QueueHistory n es q ∧
    insertedItems es = q ∧ removedItems es = [] ∧ .retired ∉ es := by
  induction q using List.reverseRecOn with
  | nil => exact ⟨[], .nil, rfl, rfl, List.not_mem_nil⟩
  | append_singleton q item ih =>
    rw [List.length_append, List.length_singleton] at h
    obtain ⟨es, hq, hi, hr, hn⟩ := ih (by omega)
    exact ⟨es ++ [.inserted item], hq.snoc (.insert (by omega)), by simp [hi], by simp [hr],
      by simp [hn]⟩

/-- The items inserted so far: those that have left the queue, removed or retired, and the queue. -/
theorem QueueHistory.items (h : QueueHistory n es q) :
    ∃ gone : List (α × Bool), insertedItems es = gone.map Prod.fst ++ q ∧
      removedItems es = (gone.filter Prod.snd).map Prod.fst ∧
      es.countP (fun e => e matches .retired) = gone.countP (fun item => !item.2) := by
  induction h with
  | nil => exact ⟨[], rfl, rfl, rfl⟩
  | snoc _ hs ih =>
    obtain ⟨gone, hi, hr, hc⟩ := ih
    cases hs with
    | insert => exact ⟨gone, by simp [hi], by simp [hr], by simp [hc]⟩
    | @retire q item => exact ⟨gone ++ [(item, false)], by simp [hi], by simp [hr], by simp [hc]⟩
    | @remove q item => exact ⟨gone ++ [(item, true)], by simp [hi], by simp [hr], by simp [hc]⟩

/-- The removed items are some of the inserted ones, in their order. -/
theorem QueueHistory.removed_sublist (h : QueueHistory n es q) :
    (removedItems es).Sublist (insertedItems es) := by
  obtain ⟨gone, hi, hr, _⟩ := h.items
  rw [hi, hr]
  exact (List.filter_sublist.map _).trans (List.sublist_append_left ..)

/-- Where nothing is retired, an item is removed or still queued. -/
theorem QueueHistory.inserted_eq (h : QueueHistory n es q) (hn : .retired ∉ es) :
    insertedItems es = removedItems es ++ q := by
  obtain ⟨gone, hi, hr, hc⟩ := h.items
  have hnone : es.countP (fun e => e matches .retired) = 0 := by
    rw [List.countP_eq_zero]
    intro e he
    cases e with
    | retired => exact absurd he hn
    | inserted item => simp
    | removed item => simp
  rw [hnone, eq_comm, List.countP_eq_zero] at hc
  have hall : gone.filter Prod.snd = gone := by
    rw [List.filter_eq_self]
    intro item hm
    simpa using hc item hm
  rw [hi, hr, hall]

end Zlibs.Lib
