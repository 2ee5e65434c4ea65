import Zlibs.Lib.Run

/-! The signaling dispatcher: callers that enqueue nodes, the loop that invokes them, and the
request that stops the loop. Each lock, atomic access, FIFO and slab operation is one step. -/
namespace Zlibs.Signaling

inductive Lifecycle where
  | running
  | stopping
  | stopped
  deriving DecidableEq

/-- What a node is invoked for. -/
inductive Work where
  | publish
  | replay
  | sync
  | barrier
  | noop
  deriving DecidableEq

/-- `DispatchNode`, with the thread that has allocated it; the no-op node has none. -/
structure Node where
  id : Nat
  work : Work
  caller : Option Nat
  deriving DecidableEq

/-- The calls that enqueue; `replay` is the subscription that has a signal to be replayed. -/
inductive Call where
  | publish
  | replay
  | sync
  | drain
  deriving DecidableEq

def Call.work : Call → Work
  | .publish => .publish
  | .replay => .replay
  | .sync => .sync
  | .drain => .barrier

/-- Where a thread stands in a call, with its node and the generation that it has read. -/
inductive Caller where
  | idle
  | check (call : Call)
  | allocate (call : Call)
  | recheck (node : Node)
  | enter (call : Call) (node : Node)
  | acquire (call : Call) (node : Node)
  | lockedCheck (call : Call) (node : Node)
  | count (call : Call) (node : Node)
  | put (call : Call) (node : Node) (before : Nat)
  | unlock (call : Call) (node : Node) (before : Nat)
  | unlockRefused (node : Node)
  | release (node : Node)
  | releaseLocked (node : Node)
  | unlockDrain
  | wait (call : Call) (node : Node) (before : Nat)
  | acquireAfter (before : Nat)
  | readAfter (before : Nat)
  | unlockAfter (before after : Nat)
  deriving DecidableEq

/-- Where the dispatcher stands; it drains once shutdown has begun. -/
inductive Loop where
  | get
  | invoke (draining : Bool) (node : Node)
  | release (draining : Bool) (node : Node)
  | check
  | drain
  | finish
  | ended
  deriving DecidableEq

inductive Stopper where
  | idle
  | allocate
  | put (node : Node)
  | done
  deriving DecidableEq

/-- The dispatcher and its threads. `done` is the semaphore of a waiting thread; `accepted` and
`refused` are the nodes for which `try_enqueue` has returned true and false. `generation` counts the
jobs put so far, of which the 64-bit `_enqueue_generation` keeps the remainder. -/
structure Dispatch where
  lifecycle : Lifecycle := .running
  lock : Option Nat := none
  generation : Nat := 0
  fifo : List Node := []
  free : Nat
  allocated : Nat := 0
  loop : Loop := .get
  stopper : Stopper := .idle
  callers : Nat → Caller := fun _ => .idle
  done : Nat → Bool := fun _ => false
  accepted : List Node := []
  refused : List Node := []
  invoked : List Node := []
  released : List Node := []

inductive DispatchLabel where
  | call (thread : Nat) (call : Call)
  | caller (thread : Nat)
  | dispatcher
  | stop
  deriving DecidableEq

namespace Dispatch

def goto (s : Dispatch) (thread : Nat) (pc : Caller) : Dispatch :=
  { s with callers := Function.update s.callers thread pc }

/-- `k_mem_slab_alloc` of a node that is there to be taken. -/
def takeNode (s : Dispatch) : Dispatch :=
  { s with free := s.free - 1, allocated := s.allocated + 1 }

def releaseNode (s : Dispatch) (node : Node) : Dispatch :=
  { s with free := s.free + 1, released := s.released ++ [node] }

/-- The next step of the call that a thread is in. -/
def callerStep (s : Dispatch) (thread : Nat) : Option Dispatch :=
  match s.callers thread with
  | .idle => none
  | .check call =>
    if s.lifecycle ≠ .running then some (s.goto thread .idle)
    else some ({ s with done := Function.update s.done thread false }.goto thread (.allocate call))
  | .allocate call =>
    -- A thread that waits for a node takes no step; one that steps without a node has timed out.
    if s.free = 0 then some (s.goto thread .idle)
    else
      let node : Node := ⟨s.allocated, call.work, some thread⟩
      match call with
      | .publish => some (s.takeNode.goto thread (.recheck node))
      | .drain => some (s.takeNode.goto thread (.acquire call node))
      | _ => some (s.takeNode.goto thread (.enter call node))
  | .recheck node =>
    if s.lifecycle ≠ .running then some (s.goto thread (.release node))
    else some (s.goto thread (.enter .publish node))
  | .enter call node =>
    if s.lifecycle ≠ .running then
      some ({ s with refused := s.refused ++ [node] }.goto thread (.release node))
    else some (s.goto thread (.acquire call node))
  | .acquire call node =>
    if s.lock.isSome then none
    else some ({ s with lock := some thread }.goto thread (.lockedCheck call node))
  | .lockedCheck call node =>
    if s.lifecycle = .running then some (s.goto thread (.count call node))
    else if call = .drain then some (s.goto thread (.releaseLocked node))
    else some (s.goto thread (.unlockRefused node))
  | .count call node =>
    if call = .drain then some (s.goto thread (.put call node s.generation))
    else some ({ s with generation := s.generation + 1 }.goto thread (.put call node 0))
  | .put call node before =>
    some ({ s with fifo := s.fifo ++ [node] }.goto thread (.unlock call node before))
  | .unlock call node before =>
    match call with
    | .drain => some ({ s with lock := none }.goto thread (.wait call node before))
    | .sync =>
      some ({ s with lock := none, accepted := s.accepted ++ [node] }.goto thread
        (.wait call node before))
    | _ => some ({ s with lock := none, accepted := s.accepted ++ [node] }.goto thread .idle)
  | .unlockRefused node =>
    some ({ s with lock := none, refused := s.refused ++ [node] }.goto thread (.release node))
  | .release node => some ((s.releaseNode node).goto thread .idle)
  | .releaseLocked node => some ((s.releaseNode node).goto thread .unlockDrain)
  | .unlockDrain => some ({ s with lock := none }.goto thread .idle)
  | .wait call _ before =>
    if s.done thread then
      let taken := { s with done := Function.update s.done thread false }
      if call = .drain then some (taken.goto thread (.acquireAfter before))
      else some (taken.goto thread .idle)
    else none
  | .acquireAfter before =>
    if s.lock.isSome then none
    else some ({ s with lock := some thread }.goto thread (.readAfter before))
  | .readAfter before => some (s.goto thread (.unlockAfter before s.generation))
  | .unlockAfter before after =>
    if before % 2 ^ 64 = after % 2 ^ 64 then some ({ s with lock := none }.goto thread .idle)
    else some ({ s with lock := none }.goto thread (.allocate .drain))

/-- The thread that is woken when a node has been invoked. -/
def woken (node : Node) : Option Nat :=
  match node.work with
  | .sync => node.caller
  | .barrier => node.caller
  | _ => none

def invokeNode (s : Dispatch) (node : Node) : Dispatch :=
  { s with
    invoked := s.invoked ++ [node]
    done := fun thread => s.done thread || woken node = some thread }

/-- The next step of `run_loop`. -/
def loopStep (s : Dispatch) : Option Dispatch :=
  match s.loop with
  | .get =>
    match s.fifo with
    | [] => none
    | node :: rest => some { s with fifo := rest, loop := .invoke false node }
  | .invoke draining node => some { s.invokeNode node with loop := .release draining node }
  | .release draining node =>
    some { s.releaseNode node with loop := if draining then .drain else .check }
  | .check => some { s with loop := if s.lifecycle ≠ .running then .drain else .get }
  | .drain =>
    match s.fifo with
    | [] => some { s with loop := .finish }
    | node :: rest => some { s with fifo := rest, loop := .invoke true node }
  | .finish => some { s with lifecycle := .stopped, loop := .ended }
  | .ended => none

/-- The next step of `request_stop`. -/
def stopStep (s : Dispatch) : Option Dispatch :=
  match s.stopper with
  | .idle => some { s with lifecycle := .stopping, stopper := .allocate }
  | .allocate =>
    if s.free = 0 then none
    else some { s.takeNode with stopper := .put ⟨s.allocated, .noop, none⟩ }
  | .put node => some { s with fifo := s.fifo ++ [node], stopper := .done }
  | .done => none

def step (s : Dispatch) : DispatchLabel → Option Dispatch
  | .call thread call =>
    if s.callers thread = .idle then some (s.goto thread (.check call)) else none
  | .caller thread => s.callerStep thread
  | .dispatcher => s.loopStep
  | .stop => s.stopStep

end Dispatch

/-- The node that a caller has allocated and neither put into the FIFO nor released. -/
def Caller.held : Caller → Option Node
  | .recheck node => some node
  | .enter _ node => some node
  | .acquire _ node => some node
  | .lockedCheck _ node => some node
  | .count _ node => some node
  | .put _ node _ => some node
  | .unlockRefused node => some node
  | .release node => some node
  | .releaseLocked node => some node
  | _ => none

/-- The call for which a caller holds its node, while it may still put it. -/
def Caller.call : Caller → Option Call
  | .recheck _ => some .publish
  | .enter call _ => some call
  | .acquire call _ => some call
  | .lockedCheck call _ => some call
  | .count call _ => some call
  | .put call _ _ => some call
  | _ => none

/-- The node that a caller has put and still refers to, if it will wait for it or not. -/
def Caller.sent : Caller → Option (Call × Node)
  | .unlock call node _ => some (call, node)
  | .wait call node _ => some (call, node)
  | _ => none

/-- The caller has found the dispatcher running under the lock, and has not put its node yet. -/
def Caller.committed : Caller → Bool
  | .count _ _ => true
  | .put _ _ _ => true
  | _ => false

def Caller.locked : Caller → Bool
  | .lockedCheck _ _ => true
  | .count _ _ => true
  | .put _ _ _ => true
  | .unlock _ _ _ => true
  | .unlockRefused _ => true
  | .releaseLocked _ => true
  | .unlockDrain => true
  | .readAfter _ => true
  | .unlockAfter _ _ => true
  | _ => false

/-- The node that the dispatcher is to invoke. -/
def Loop.taken : Loop → List Node
  | .invoke _ node => [node]
  | _ => []

/-- The node that the dispatcher has invoked and is to release. -/
def Loop.used : Loop → List Node
  | .release _ node => [node]
  | _ => []

end Zlibs.Signaling
