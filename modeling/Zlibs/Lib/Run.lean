import Mathlib

/-! Runs of a labelled transition system whose steps may depend on what has happened before. -/
namespace Zlibs.Lib

variable {ι : Type*} {σ : Type*} {start : σ → Prop} {next : List ι → σ → ι → σ → Prop}

/-- A state reached from a start state, with the labels of the steps taken, the newest last. -/
inductive Run (start : σ → Prop) (next : List ι → σ → ι → σ → Prop) : List ι → σ → Prop
  | nil {s : σ} (h : start s) : Run start next [] s
  | snoc {h : List ι} {s t : σ} {l : ι} (hr : Run start next h s) (hn : next h s l t) :
      Run start next (h ++ [l]) t

/-- What holds at the start and is kept by every step holds all along a run. -/
theorem Run.invariant {I : List ι → σ → Prop} (h0 : ∀ s, start s → I [] s)
    (hs : ∀ h s l t, I h s → next h s l t → I (h ++ [l]) t) {h : List ι} {s : σ}
    (hr : Run start next h s) : I h s := by
  induction hr with
  | nil h => exact h0 _ h
  | snoc _ hn ih => exact hs _ _ _ _ ih hn

/-- A run with fewer restrictions on its steps. -/
theorem Run.mono {start' : σ → Prop} {next' : List ι → σ → ι → σ → Prop}
    (h0 : ∀ s, start s → start' s) (hn : ∀ h s l t, next h s l t → next' h s l t) {h : List ι}
    {s : σ} (hr : Run start next h s) : Run start' next' h s := by
  induction hr with
  | nil h => exact .nil (h0 _ h)
  | snoc _ hs ih => exact .snoc ih (hn _ _ _ _ hs)

/-- Every step of a run follows a run of the steps before it. -/
theorem Run.split {before after : List ι} {l : ι} {t : σ}
    (hr : Run start next (before ++ l :: after) t) :
    ∃ s u, Run start next before s ∧ next before s l u := by
  generalize hh : before ++ l :: after = whole at hr
  induction hr generalizing after with
  | nil _ => exact absurd hh (by simp)
  | @snoc front s u last hr hn ih =>
    obtain rfl | ⟨init, last', rfl⟩ := List.eq_nil_or_concat after
    · obtain ⟨rfl, h⟩ := List.append_inj' hh rfl
      obtain rfl : l = last := List.singleton_inj.mp h
      exact ⟨s, u, hr, hn⟩
    · have h : (before ++ l :: init) ++ [last'] = front ++ [last] := by simpa using hh
      exact ih (List.append_inj' h rfl).1

/-- The run of a step function over a list of labels. -/
theorem Run.of_foldlM {step : σ → ι → Option σ} {labels : List ι} {s t : σ} (h : start s)
    (hf : labels.foldlM step s = some t) :
    Run start (fun _ s l t => step s l = some t) labels t := by
  induction labels using List.reverseRecOn generalizing t with
  | nil =>
    cases hf
    exact .nil h
  | append_singleton labels l ih =>
    rw [List.foldlM_append] at hf
    obtain ⟨u, hu, hl⟩ := Option.bind_eq_some_iff.mp hf
    exact .snoc (ih hu) (by simpa using hl)

end Zlibs.Lib
