import Mathlib

/-! State-passing programs that may stop at a fault, keeping the state reached by then. -/
namespace Zlibs.Lib

variable {ε σ α β : Type}

abbrev FaultM (ε σ : Type) := ExceptT ε (StateM σ)

/-- Running `x` from `s` ends with a result and a state of `Q`, or at a fault in a state of `E`. -/
def wpf (x : FaultM ε σ α) (Q : α → σ → Prop) (E : ε → σ → Prop) (s : σ) : Prop :=
  match x.run s with
  | (.ok a, t) => Q a t
  | (.error e, t) => E e t

variable {x y : FaultM ε σ α} {k : α → FaultM ε σ β} {Q Q' : α → σ → Prop} {R : β → σ → Prop}
  {E E' : ε → σ → Prop} {s t : σ}

theorem run_bind : (x >>= k).run s = match x.run s with
    | (.ok a, t) => (k a).run t
    | (.error e, t) => (.error e, t) := by
  change (ExceptT.bind x k).run s = _
  rcases h : x s with ⟨_ | a, u⟩
  · simp [ExceptT.bind, ExceptT.bindCont, ExceptT.run, ExceptT.mk, bind, StateT.bind, h]
    rfl
  · simp [ExceptT.bind, ExceptT.bindCont, ExceptT.run, ExceptT.mk, bind, StateT.bind, h]

theorem wpf_bind : wpf (x >>= k) R E s ↔ wpf x (fun a => wpf (k a) R E) E s := by
  simp only [wpf, run_bind]
  rcases x.run s with ⟨_ | a, t⟩ <;> rfl

theorem wpf_pure {a : α} : wpf (pure a : FaultM ε σ α) Q E s ↔ Q a s := Iff.rfl

theorem wpf_get {Q : σ → σ → Prop} : wpf (get : FaultM ε σ σ) Q E s ↔ Q s s := Iff.rfl

theorem wpf_throw {e : ε} : wpf (throw e : FaultM ε σ α) Q E s ↔ E e s := Iff.rfl

theorem wpf_mono (h : wpf x Q E s) (hq : ∀ a t, Q a t → Q' a t) (he : ∀ e t, E e t → E' e t) :
    wpf x Q' E' s := by
  unfold wpf at h ⊢
  split at h <;> simp_all

theorem wpf_ite {c : Prop} [Decidable c] (hx : c → wpf x Q E s) (hy : ¬ c → wpf y Q E s) :
    wpf (if c then x else y) Q E s := by
  split
  · exact hx ‹_›
  · exact hy ‹_›

/-- The postcondition of the faults of a program that has none. -/
def Never : ε → σ → Prop := fun _ _ => False

theorem wpf_of_never (h : wpf x Q Never s) (hq : ∀ a t, Q a t → Q' a t) : wpf x Q' E s :=
  wpf_mono h hq fun _ _ h => h.elim

theorem wpf_bind_of {P : α → σ → Prop} (hx : wpf x P Never s)
    (hk : ∀ a t, P a t → wpf (k a) R E t) : wpf (x >>= k) R E s :=
  wpf_bind.mpr (wpf_of_never hx hk)

end Zlibs.Lib
