import Mathlib

/-! The last element of a list on which a partial function is defined: what an append-only log
says about one key. -/
namespace Zlibs.Lib

variable {ε β : Type} {f : ε → Option β} {l m : List ε} {e : ε}

def lastMatch (f : ε → Option β) (l : List ε) : Option β := l.reverse.findSome? f

@[simp] theorem lastMatch_nil : lastMatch f [] = none := rfl

theorem lastMatch_append : lastMatch f (l ++ m) = (lastMatch f m).or (lastMatch f l) := by
  simp [lastMatch, List.findSome?_append]

@[simp] theorem lastMatch_singleton : lastMatch f [e] = f e := by
  simp [lastMatch]

theorem lastMatch_concat : lastMatch f (l ++ [e]) = (f e).or (lastMatch f l) := by
  rw [lastMatch_append, lastMatch_singleton]

theorem lastMatch_eq_none : lastMatch f l = none ↔ ∀ e ∈ l, f e = none := by
  simp [lastMatch, List.findSome?_eq_none_iff]

theorem lastMatch_replicate_none {n : Nat} (he : f e = none) :
    lastMatch f (List.replicate n e) = none :=
  lastMatch_eq_none.mpr fun _ h => List.eq_of_mem_replicate h ▸ he

/-- Elements on which `f` is undefined may be dropped. -/
theorem lastMatch_filter {keep : ε → Bool} (hk : ∀ e, keep e = false → f e = none) :
    lastMatch f (l.filter keep) = lastMatch f l := by
  induction l using List.reverseRecOn with
  | nil => rfl
  | append_singleton l e ih =>
    rw [List.filter_append, lastMatch_append, ih, lastMatch_concat]
    cases h : keep e <;> simp [h, hk]

theorem lastMatch_congr_filter {keep : ε → Bool} (hk : ∀ e, keep e = false → f e = none)
    (h : l.filter keep = m.filter keep) : lastMatch f l = lastMatch f m := by
  rw [← lastMatch_filter hk, h, lastMatch_filter hk]

theorem exists_of_lastMatch_eq_some {b : β} (h : lastMatch f l = some b) :
    ∃ e ∈ l, f e = some b := by
  obtain ⟨e, he, hb⟩ := List.exists_of_findSome?_eq_some h
  exact ⟨e, List.mem_reverse.mp he, hb⟩

end Zlibs.Lib
