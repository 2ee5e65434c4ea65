import Mathlib

/-! Handing items one by one to a sink that may refuse them. -/
namespace Zlibs.Lib

/-- Stops at the first item the sink refuses. -/
def writeEach {m : Type → Type} [Monad m] {α : Type} (write : α → m Bool) : List α → m Bool
  | [] => pure true
  | x :: rest => do
    if !(← write x) then
      return false
    writeEach write rest

variable {σ α : Type} {write : α → StateM σ Bool} {xs ys : List α} {s : σ}

@[simp] theorem writeEach_nil : writeEach write [] s = (true, s) := rfl

theorem writeEach_cons {x : α} : writeEach write (x :: xs) s =
    if (write x s).1 then writeEach write xs (write x s).2 else (false, (write x s).2) := by
  rcases h : write x s with ⟨accepted, t⟩
  cases accepted <;> simp [writeEach, bind, StateT.bind, h, pure, StateT.pure]

theorem writeEach_append : writeEach write (xs ++ ys) s =
    if (writeEach write xs s).1 then writeEach write ys (writeEach write xs s).2
    else (false, (writeEach write xs s).2) := by
  induction xs generalizing s with
  | nil => simp
  | cons x rest ih =>
    simp only [List.cons_append, writeEach_cons]
    split <;> simp [ih]

end Zlibs.Lib
