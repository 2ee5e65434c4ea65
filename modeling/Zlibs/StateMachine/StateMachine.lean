import Mathlib.Data.List.Infix

/-! `StateMachine`: states with hooks, events, and the actions that the states answer events with. -/
namespace Zlibs.StateMachine

/-- What an event handler of a state returns. -/
inductive Action (σ : Type) where
  | transition (target : σ)
  | nothing
  | oneOf (selected : Action σ)

/-- What happens to the states, a hook with its result. -/
inductive Happening (σ ε : Type) where
  | enter (state : σ) (result : Bool)
  | exit (state : σ) (result : Bool)
  | handle (state : σ) (event : ε)

/-- `States...`. The hooks answer after what has happened before; a state has no handler for the
events it does not support. -/
structure States (σ ε : Type) where
  first : σ
  initState : σ
  errorState : σ
  enter : List (Happening σ ε) → σ → Bool
  exit : List (Happening σ ε) → σ → Bool
  handle : List (Happening σ ε) → σ → ε → Option (Action σ)

/-- The machine, and what has happened to its states, the newest last. -/
structure Machine (σ ε : Type) where
  currentState : σ
  initialized : Bool := false
  trace : List (Happening σ ε) := []

variable {σ ε : Type} (states : States σ ε)

/-- The pointer of a new machine is null, but of the type of the first state. -/
def Machine.new : Machine σ ε := { currentState := states.first }

namespace Machine

def enter (m : Machine σ ε) : Bool × Machine σ ε :=
  let result := states.enter m.trace m.currentState
  (result, { m with trace := m.trace ++ [.enter m.currentState result] })

def exit (m : Machine σ ε) : Bool × Machine σ ε :=
  let result := states.exit m.trace m.currentState
  (result, { m with trace := m.trace ++ [.exit m.currentState result] })

/-- The error state is entered, with whatever result. -/
def fail (m : Machine σ ε) : Machine σ ε :=
  (enter states { m with currentState := states.errorState }).2

def init (m : Machine σ ε) : Bool × Machine σ ε :=
  let entered := enter states { m with currentState := states.initState }
  if !entered.1 then (false, fail states entered.2)
  else (true, { entered.2 with initialized := true })

def transitionTo (target : σ) (m : Machine σ ε) : Bool × Machine σ ε :=
  if !m.initialized then (false, m)
  else
    let left := exit states m
    if !left.1 then (false, fail states left.2)
    else
      let entered := enter states { left.2 with currentState := target }
      if !entered.1 then (false, fail states entered.2) else (true, entered.2)

def execute (m : Machine σ ε) : Action σ → Machine σ ε
  | .transition target => (transitionTo states target m).2
  | .nothing => m
  | .oneOf selected => execute m selected

def handle (event : ε) (m : Machine σ ε) : Machine σ ε :=
  if !m.initialized then m
  else
    match states.handle m.trace m.currentState event with
    | none => m
    | some action =>
      execute states { m with trace := m.trace ++ [.handle m.currentState event] } action

end Machine

/-- The calls of a user. -/
inductive Call (σ ε : Type) where
  | init
  | handle (event : ε)
  | transitionTo (target : σ)

namespace Machine

/-- One call and its result; `handle` returns nothing. -/
def perform (m : Machine σ ε) : Call σ ε → Option Bool × Machine σ ε
  | .init => ((init states m).1, (init states m).2)
  | .handle event => (none, handle states event m)
  | .transitionTo target =>
    ((transitionTo states target m).1, (transitionTo states target m).2)

end Machine

end Zlibs.StateMachine
