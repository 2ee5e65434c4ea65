import Mathlib

/-! A list into which items of another kind have been inserted. -/
namespace Zlibs.Lib

variable {α : Type} {p : α → Bool} {x : α} {xs ys zs : List α}

/-- The first genuine item, and the insertions before it. -/
theorem filter_cons_split (h : ys.filter p = x :: xs) :
    ∃ front back, ys = front ++ x :: back ∧ (∀ a ∈ front, p a = false) ∧
      back.filter p = xs := by
  obtain ⟨front, back, hy, hf, _, hb⟩ := List.filter_eq_cons_iff.mp h
  exact ⟨front, back, hy, fun a ha => by simpa using hf a ha, hb⟩

/-- The genuine items `xs` stand together, or something is inserted before one of them. -/
theorem filter_append_split (h : ys.filter p = xs ++ zs) :
    ∃ part back, ys = part ++ back ∧ part.filter p = xs ∧ back.filter p = zs ∧
      (part = xs ∨ ∃ before bad after y rest, xs = before ++ y :: rest ∧
        part = before ++ bad :: after ∧ p bad = false ∧ after.filter p = y :: rest) := by
  induction xs generalizing ys with
  | nil => exact ⟨[], ys, rfl, rfl, h, .inl rfl⟩
  | cons x xs ih =>
    obtain ⟨front, back, rfl, hf, hb⟩ := filter_cons_split h
    obtain ⟨part, rear, rfl, hp, hr, hc⟩ := ih hb
    have hx : p x = true := by
      have : x ∈ (front ++ x :: (part ++ rear)).filter p := by rw [h]; simp
      exact (List.mem_filter.mp this).2
    have hn : front.filter p = [] := List.filter_eq_nil_iff.mpr fun a ha => by simp [hf a ha]
    refine ⟨front ++ x :: part, rear, by simp, by simp [hn, hx, hp], hr, ?_⟩
    cases front with
    | nil =>
      cases hc with
      | inl h => exact .inl (by simp [h])
      | inr h =>
        obtain ⟨before, bad, after, y, rest, rfl, rfl, hbad, ha⟩ := h
        exact .inr ⟨x :: before, bad, after, y, rest, rfl, rfl, hbad, ha⟩
    | cons bad front =>
      have hn' : front.filter p = [] := by simpa [hf bad (by simp)] using hn
      exact .inr ⟨[], bad, front ++ x :: part, x, xs, rfl, rfl, hf bad (by simp),
        by simp [hn', hx, hp]⟩

end Zlibs.Lib
