import Zlibs.Lib.FaultProgram

/-! Programs that keep an invariant of the state wherever they do not fault. -/
namespace Zlibs.Lib

variable {ε σ α β : Type} {I : σ → Prop} {x y : FaultM ε σ α} {k : α → FaultM ε σ β} {s t : σ}

structure Keeps (I : σ → Prop) (x : FaultM ε σ α) : Prop where
  kept (s : σ) : I s → wpf x (fun _ t => I t) (fun _ _ => True) s

theorem keeps_pure {a : α} : Keeps I (pure a : FaultM ε σ α) := ⟨fun _ hs => hs⟩

theorem keeps_get : Keeps I (get : FaultM ε σ σ) := ⟨fun _ hs => hs⟩

theorem keeps_throw {e : ε} : Keeps I (throw e : FaultM ε σ α) := ⟨fun _ _ => trivial⟩

theorem keeps_bind (hx : Keeps I x) (hk : ∀ a, Keeps I (k a)) : Keeps I (x >>= k) := by
  constructor
  intro s hs
  rw [wpf_bind]
  exact wpf_mono (hx.kept s hs) (fun a t ht => (hk a).kept t ht) fun _ _ h => h

theorem keeps_ite {c : Prop} [Decidable c] (hx : Keeps I x) (hy : Keeps I y) :
    Keeps I (if c then x else y) := by
  split
  · exact hx
  · exact hy

theorem keeps_dite {c : Prop} [Decidable c] {x : c → FaultM ε σ α} {y : ¬ c → FaultM ε σ α}
    (hx : ∀ h, Keeps I (x h)) (hy : ∀ h, Keeps I (y h)) :
    Keeps I (if h : c then x h else y h) := by
  split
  · exact hx _
  · exact hy _

theorem Keeps.run {a : α} (h : Keeps I x) (hs : I s) (hx : x.run s = (.ok a, t)) : I t := by
  have hw := h.kept s hs
  rwa [wpf, hx] at hw

end Zlibs.Lib
