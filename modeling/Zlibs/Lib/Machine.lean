import Mathlib

/-! Machines that read one symbol at a time and may emit something for it. -/
namespace Zlibs.Lib

variable {σ ι ο : Type} {step : σ → ι → Option ο × σ} {P Q R : σ → Prop} {s : σ}
  {xs ys : List ι} {os ps : List ο}

/-- Feed symbols to a machine, collecting what it emits. -/
def feed (step : σ → ι → Option ο × σ) : σ → List ι → List ο × σ
  | s, [] => ([], s)
  | s, i :: rest =>
    let r := step s i
    let t := feed step r.2 rest
    (r.1.toList ++ t.1, t.2)

@[simp] theorem feed_nil : feed step s [] = ([], s) := rfl

theorem feed_append : feed step s (xs ++ ys) =
    ((feed step s xs).1 ++ (feed step (feed step s xs).2 ys).1,
      (feed step (feed step s xs).2 ys).2) := by
  induction xs generalizing s with
  | nil => simp [feed]
  | cons x rest ih => simp [feed, ih]

/-- Two machines that answer alike from related states stay related and answer alike. -/
theorem feed_simulates {τ : Type} {step' : τ → ι → Option ο × τ} (Rel : σ → τ → Prop)
    (hstep : ∀ s t i, Rel s t → (step s i).1 = (step' t i).1 ∧ Rel (step s i).2 (step' t i).2)
    {t : τ} (h : Rel s t) :
    (feed step s xs).1 = (feed step' t xs).1 ∧ Rel (feed step s xs).2 (feed step' t xs).2 := by
  induction xs generalizing s t with
  | nil => exact ⟨rfl, h⟩
  | cons x rest ih =>
    obtain ⟨hx, hr⟩ := hstep s t x h
    obtain ⟨ho, hr⟩ := ih hr
    simp only [feed]
    exact ⟨by rw [hx, ho], hr⟩

/-- What the first machine emits, fed to the second one. -/
def cascade {τ π : Type} (f : σ → ι → Option ο × σ) (g : τ → ο → Option π × τ) :
    σ × τ → ι → Option π × (σ × τ) := fun s i =>
  match f s.1 i with
  | (none, t) => (none, (t, s.2))
  | (some o, t) => ((g s.2 o).1, (t, (g s.2 o).2))

theorem feed_cascade {τ π : Type} {f : σ → ι → Option ο × σ} {g : τ → ο → Option π × τ} {t : τ} :
    (feed (cascade f g) (s, t) xs).1 = (feed g t (feed f s xs).1).1 := by
  induction xs generalizing s t with
  | nil => rfl
  | cons x rest ih =>
    rcases hf : f s x with ⟨_ | o, u⟩
    · simp [feed, cascade, hf, ih]
    · simp [feed, cascade, hf, ih]

/-- Fed `xs` in a state of `P`, the machine emits `os` and stops in a state of `Q`. -/
def Emits (step : σ → ι → Option ο × σ) (P : σ → Prop) (xs : List ι) (os : List ο)
    (Q : σ → Prop) : Prop :=
  ∀ s, P s → (feed step s xs).1 = os ∧ Q (feed step s xs).2

theorem Emits.nil : Emits step P [] [] P := fun _ h => ⟨rfl, h⟩

theorem Emits.one {x : ι} (h : ∀ s, P s → (step s x).1.toList = os ∧ Q (step s x).2) :
    Emits step P [x] os Q := by
  intro s hs
  simpa [feed] using h s hs

theorem Emits.append (hx : Emits step P xs os Q) (hy : Emits step Q ys ps R) :
    Emits step P (xs ++ ys) (os ++ ps) R := by
  intro s hs
  obtain ⟨ho, hq⟩ := hx s hs
  obtain ⟨hp, hr⟩ := hy _ hq
  simp [feed_append, ho, hp, hr]

theorem Emits.cons {x : ι} (hx : Emits step P [x] os Q) (hy : Emits step Q ys ps R) :
    Emits step P (x :: ys) (os ++ ps) R := hx.append hy

theorem Emits.mono {P' Q' : σ → Prop} (h : Emits step P xs os Q) (hp : ∀ s, P' s → P s)
    (hq : ∀ s, Q s → Q' s) : Emits step P' xs os Q' := fun s hs =>
  ⟨(h s (hp s hs)).1, hq _ (h s (hp s hs)).2⟩

end Zlibs.Lib
