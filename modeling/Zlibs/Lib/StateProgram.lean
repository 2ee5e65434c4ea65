import Mathlib

/-! Weakest preconditions for state-passing programs. -/
namespace Zlibs.Lib

variable {σ α β : Type}

/-- Running `x` from `s` ends with a result and a state that satisfy `Q`. -/
def wp (x : StateM σ α) (Q : α → σ → Prop) (s : σ) : Prop := Q (x s).1 (x s).2

theorem wp_bind (x : StateM σ α) (k : α → StateM σ β) (Q : β → σ → Prop) (s : σ) :
    wp (x >>= k) Q s ↔ wp x (fun a => wp (k a) Q) s := Iff.rfl

theorem wp_pure (a : α) (Q : α → σ → Prop) (s : σ) : wp (pure a) Q s ↔ Q a s := Iff.rfl

theorem wp_get (Q : σ → σ → Prop) (s : σ) : wp (get : StateM σ σ) Q s ↔ Q s s := Iff.rfl

theorem wp_mono {x : StateM σ α} {P Q : α → σ → Prop} {s : σ} (h : wp x P s)
    (hpq : ∀ a t, P a t → Q a t) : wp x Q s := hpq _ _ h

/-- A run that takes the same course as another from elsewhere. -/
theorem wp_of_eq {x y : StateM σ α} {Q : α → σ → Prop} {s t : σ} (h : x s = y t)
    (hy : wp y Q t) : wp x Q s := by
  rw [wp, h]
  exact hy

theorem wp_ite {c : Prop} [Decidable c] {x y : StateM σ α} {Q : α → σ → Prop} {s : σ}
    (hx : c → wp x Q s) (hy : ¬ c → wp y Q s) : wp (if c then x else y) Q s := by
  split
  · exact hx ‹_›
  · exact hy ‹_›

theorem wp_bind_of {x : StateM σ α} {k : α → StateM σ β} {P : α → σ → Prop}
    {Q : β → σ → Prop} {s : σ} (hx : wp x P s) (hk : ∀ a t, P a t → wp (k a) Q t) :
    wp (x >>= k) Q s := hk _ _ hx

end Zlibs.Lib
