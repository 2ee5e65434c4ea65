import Zlibs.Lib.Machine
import Zlibs.Lib.Run
import Mathlib.Data.List.Destutter

/-! Observables: chains of operators on a signal, and what their subscriptions emit. -/
namespace Zlibs.Signaling
open Lib

section Callbacks

variable {T U A : Type}

def transformCallback (f : T → U) (_ : Unit) (v : T) : Option U × Unit := (some (f v), ())

def onlyIfCallback (pred : T → Bool) (_ : Unit) (v : T) : Option T × Unit :=
  (if pred v then some v else none, ())

def accumulateCallback (r : A → T → A) (state : A) (v : T) : Option A × A :=
  (some (r state v), r state v)

def onlyOnChangeCallback (equal : T → T → Bool) (last : Option T) (v : T) : Option T × Option T :=
  if last.any (equal v) then (none, last) else (some v, some v)

variable {xs : List T}

theorem feed_transform {f : T → U} : (feed (transformCallback f) () xs).1 = xs.map f := by
  induction xs with
  | nil => rfl
  | cons x rest ih => simp [feed, transformCallback] at ih ⊢; exact ih

theorem feed_onlyIf {pred : T → Bool} : (feed (onlyIfCallback pred) () xs).1 = xs.filter pred := by
  induction xs with
  | nil => rfl
  | cons x rest ih =>
    by_cases hp : pred x <;> simp_all [feed, onlyIfCallback]

theorem feed_accumulate {r : A → T → A} {init : A} :
    init :: (feed (accumulateCallback r) init xs).1 = xs.scanl r init := by
  induction xs generalizing init with
  | nil => rfl
  | cons x rest ih => simp [feed, accumulateCallback, List.scanl_cons, ih]

theorem feed_onlyOnChange {equal : T → T → Bool} {last : T} :
    last :: (feed (onlyOnChangeCallback equal) (some last) xs).1 =
      xs.destutter' (fun last v => equal v last = false) last := by
  induction xs generalizing last with
  | nil => rfl
  | cons x rest ih =>
    by_cases he : equal x last = true
    · rw [List.destutter'_cons_neg _ (by simp [he])]
      simpa [feed, onlyOnChangeCallback, he] using ih
    · rw [List.destutter'_cons_pos _ (by simpa using he), ← ih]
      simp [feed, onlyOnChangeCallback, he]

theorem feed_onlyOnChange_none {equal : T → T → Bool} :
    (feed (onlyOnChangeCallback equal) none xs).1 =
      xs.destutter fun last v => equal v last = false := by
  cases xs with
  | nil => rfl
  | cons x rest =>
    rw [List.destutter_cons', ← feed_onlyOnChange]
    rfl

theorem feed_pass : (feed (fun (_ : Unit) v => (some v, ())) () xs).1 = xs := by
  induction xs with
  | nil => rfl
  | cons x rest ih => simpa [feed] using ih

end Callbacks

/-- An observable that emits values of the second type from signals of the first. -/
inductive Chain (Signal : Type) : Type → Type 1 where
  | source : Chain Signal Signal
  | transform {T U : Type} (src : Chain Signal T) (f : T → U) : Chain Signal U
  | onlyIf {T : Type} (src : Chain Signal T) (pred : T → Bool) : Chain Signal T
  /-- `moved` is what a move leaves of an accumulator. -/
  | accumulate {T A : Type} (src : Chain Signal T) (moved : A → A) (r : A → T → A) : Chain Signal A
  /-- `equal` is the comparison of the emitted type. -/
  | onlyOnChange {T : Type} (src : Chain Signal T) (equal : T → T → Bool) : Chain Signal T

variable {Signal T : Type}

namespace Chain

/-- The initial accumulator values that the closures of an observable hold. -/
def Inits {T : Type} : Chain Signal T → Type
  | .source => Unit
  | .transform src _ => src.Inits
  | .onlyIf src _ => src.Inits
  | .accumulate (A := A) src _ _ => src.Inits × A
  | .onlyOnChange src _ => src.Inits

/-- The state that one subscription holds. -/
def State {T : Type} : Chain Signal T → Type
  | .source => Unit
  | .transform src _ => src.State × Unit
  | .onlyIf src _ => src.State × Unit
  | .accumulate (A := A) src _ _ => src.State × A
  | .onlyOnChange (T := T) src _ => src.State × Option T

/-- The state of a new subscription; each accumulator is moved out of its closure. -/
def start {T : Type} : (c : Chain Signal T) → c.Inits → c.State
  | .source, _ => ()
  | .transform src _, inits => (src.start inits, ())
  | .onlyIf src _, inits => (src.start inits, ())
  | .accumulate src _ _, inits => (src.start inits.1, inits.2)
  | .onlyOnChange src _, inits => (src.start inits, none)

/-- What a subscription leaves in the closures. -/
def left {T : Type} : (c : Chain Signal T) → c.Inits → c.Inits
  | .source, _ => ()
  | .transform src _, inits => src.left inits
  | .onlyIf src _, inits => src.left inits
  | .accumulate src moved _, inits => (src.left inits.1, moved inits.2)
  | .onlyOnChange src _, inits => src.left inits

/-- A signal on its way through the callbacks of a subscription. -/
def emit {T : Type} : (c : Chain Signal T) → c.State → Signal → Option T × c.State
  | .source => fun _ signal => (some signal, ())
  | .transform src f => cascade src.emit (transformCallback f)
  | .onlyIf src pred => cascade src.emit (onlyIfCallback pred)
  | .accumulate src _ r => cascade src.emit (accumulateCallback r)
  | .onlyOnChange src equal => cascade src.emit (onlyOnChangeCallback equal)

/-- The list function of a chain. -/
def image {T : Type} : (c : Chain Signal T) → c.Inits → List Signal → List T
  | .source, _, signals => signals
  | .transform src f, inits, signals => (src.image inits signals).map f
  | .onlyIf src pred, inits, signals => (src.image inits signals).filter pred
  | .accumulate src _ r, inits, signals => ((src.image inits.1 signals).scanl r inits.2).tail
  | .onlyOnChange src equal, inits, signals =>
    (src.image inits signals).destutter fun last v => equal v last = false

/-- A subscription emits the image of its signals, from the values it starts with. -/
theorem feed_emit {T : Type} (c : Chain Signal T) (inits : c.Inits) (signals : List Signal) :
    (feed c.emit (c.start inits) signals).1 = c.image inits signals := by
  induction c with
  | source => exact feed_pass
  | transform src f ih =>
    exact feed_cascade.trans (feed_transform.trans (congrArg (List.map f) (ih inits)))
  | onlyIf src pred ih =>
    exact feed_cascade.trans (feed_onlyIf.trans (congrArg (List.filter pred) (ih inits)))
  | accumulate src moved r ih =>
    refine feed_cascade.trans ?_
    rw [ih, image, ← feed_accumulate, List.tail_cons]
  | onlyOnChange src equal ih =>
    exact feed_cascade.trans (feed_onlyOnChange_none.trans (congrArg (List.destutter _) (ih inits)))

end Chain

/-- An observable, with the initial accumulator values that it was declared with and those that its
closures hold. -/
structure Observable (Signal : Type) where
  {Value : Type}
  chain : Chain Signal Value
  declared : chain.Inits
  inits : chain.Inits

/-- The operators of an observable of values of a type. -/
inductive Operator (T : Type) : Type 1 where
  | transform {U : Type} (f : T → U)
  | onlyIf (pred : T → Bool)
  | accumulate {A : Type} (init : A) (moved : A → A) (r : A → T → A)
  | onlyOnChange (equal : T → T → Bool)

namespace Observable

/-- The operators copy the observable, with what its closures hold at that time. -/
def derive (o : Observable Signal) : Operator o.Value → Observable Signal
  | .transform f => ⟨.transform o.chain f, o.declared, o.inits⟩
  | .onlyIf pred => ⟨.onlyIf o.chain pred, o.declared, o.inits⟩
  | .accumulate init moved r =>
    ⟨.accumulate o.chain moved r, (o.declared, init), (o.inits, init)⟩
  | .onlyOnChange equal => ⟨.onlyOnChange o.chain equal, o.declared, o.inits⟩

/-- Every accumulator still has the value that it was declared with. -/
def Unmoved (o : Observable Signal) : Prop := o.inits = o.declared

end Observable

/-- One subscription of an observable, with the signals delivered to it and what it has emitted. -/
structure Observer (Signal : Type) where
  {Value : Type}
  chain : Chain Signal Value
  declared : chain.Inits
  state : chain.State
  delivered : List Signal := []
  emitted : List Value := []

def Observable.observer (o : Observable Signal) : Observer Signal :=
  { chain := o.chain, declared := o.declared, state := o.chain.start o.inits }

def Observer.deliver (signal : Signal) (v : Observer Signal) : Observer Signal :=
  let r := v.chain.emit v.state signal
  { v with
    state := r.2
    delivered := v.delivered ++ [signal]
    emitted := v.emitted ++ r.1.toList }

/-- The subscription has emitted the image of its signals, from the declared values. -/
def Observer.EmitsImage (v : Observer Signal) : Prop :=
  v.emitted = v.chain.image v.declared v.delivered

/-- The observables of a signal and their subscriptions, in the order in which they were made. -/
structure Observables (Signal : Type) where
  made : List (Observable Signal)
  observers : List (Observer Signal) := []

inductive ObservablesLabel (Signal : Type) where
  | derive (observable : Nat)
  | subscribe (observable : Nat)
  | deliver (observer : Nat) (signal : Signal)

namespace Observables

/-- There is the observable of the signal itself. -/
def source (Signal : Type) : Observables Signal := { made := [⟨.source, (), ()⟩] }

inductive Step (w : Observables Signal) :
    ObservablesLabel Signal → Observables Signal → Prop
  | derive {k : Nat} {o : Observable Signal} (ho : w.made[k]? = some o) (op : Operator o.Value) :
    w.Step (.derive k) { w with made := w.made ++ [o.derive op] }
  | subscribe {k : Nat} {o : Observable Signal} (ho : w.made[k]? = some o) :
    w.Step (.subscribe k)
      { made := w.made.set k { o with inits := o.chain.left o.inits }
        observers := w.observers ++ [o.observer] }
  | deliver {k : Nat} {v : Observer Signal} (hv : w.observers[k]? = some v) (signal : Signal) :
    w.Step (.deliver k signal) { w with observers := w.observers.set k (v.deliver signal) }

/-- A subscription is made while every accumulator has the value that it was declared with. -/
def Fresh (w : Observables Signal) : ObservablesLabel Signal → Prop
  | .subscribe k => ∀ o, w.made[k]? = some o → o.Unmoved
  | _ => True

end Observables

/-- A subscription is where its signals lead from the declared values. -/
def Observer.Follows (v : Observer Signal) : Prop :=
  feed v.chain.emit (v.chain.start v.declared) v.delivered = (v.emitted, v.state)

theorem Observer.Follows.emitsImage {v : Observer Signal} (h : v.Follows) : v.EmitsImage := by
  rw [Observer.EmitsImage, ← Chain.feed_emit, h]

theorem Observer.Follows.deliver {v : Observer Signal} {signal : Signal} (h : v.Follows) :
    (v.deliver signal).Follows := by
  unfold Observer.Follows at h ⊢
  simp [Observer.deliver, feed_append, h, feed]

variable {w u : Observables Signal} {labels : List (ObservablesLabel Signal)}
  {l : ObservablesLabel Signal}

theorem Observables.step_follows (h : ∀ v ∈ w.observers, v.Follows) (hs : w.Step l u)
    (hfresh : w.Fresh l) : ∀ v ∈ u.observers, v.Follows := by
  intro v hv
  cases hs with
  | derive ho op => exact h v hv
  | @subscribe k o ho =>
    rcases List.mem_append.mp hv with hv | hv
    · exact h v hv
    · rw [List.mem_singleton.mp hv]
      have hinits : o.inits = o.declared := hfresh o ho
      show ([], o.chain.start o.declared) = ([], o.chain.start o.inits)
      rw [hinits]
  | deliver hold signal =>
    rcases List.mem_or_eq_of_mem_set hv with hv | rfl
    · exact h v hv
    · exact (h _ (List.mem_of_getElem? hold)).deliver

/-- In every run in which observables are derived, subscribed to and served, and whose subscriptions
find the declared values, each one emits the image of the signals delivered to it. -/
theorem observers_emit_image
    (hr : Run (· = Observables.source Signal) (fun _ w l u => w.Step l u ∧ w.Fresh l) labels w) :
    ∀ v ∈ w.observers, v.EmitsImage := by
  have hall : ∀ v ∈ w.observers, v.Follows := by
    apply hr.invariant (I := fun _ w => ∀ v ∈ w.observers, v.Follows)
    · rintro _ rfl v hv
      exact absurd hv List.not_mem_nil
    · exact fun _ _ _ _ h hs => Observables.step_follows h hs.1 hs.2
  exact fun v hv => (hall v hv).emitsImage

/-- The sum from 10, a move leaving 0 of it. -/
def sumFromTen : Operator Nat := .accumulate 10 (fun _ => 0) (· + ·)

/-- What the changes of a sum emit that has itself been subscribed to after they were derived. -/
theorem observers_emit_image_changes : ∃ w : Observables Nat,
    w.observers.map Observer.delivered = [[3, 0], [3, 0, 4]] ∧
      ∀ v ∈ w.observers, v.EmitsImage := by
  have h0 : Run (· = Observables.source Nat) (fun _ w l u => w.Step l u ∧ w.Fresh l) [] _ := .nil rfl
  have h1 := h0.snoc ⟨.derive (k := 0) rfl sumFromTen, trivial⟩
  have h2 := h1.snoc ⟨.derive (k := 1) rfl (.onlyOnChange (fun a b : Nat => a == b)), trivial⟩
  have h3 := h2.snoc ⟨.subscribe (k := 1) rfl, fun o ho => by cases ho; rfl⟩
  have h4 := h3.snoc ⟨.subscribe (k := 2) rfl, fun o ho => by cases ho; rfl⟩
  have h5 := h4.snoc ⟨.deliver (k := 0) rfl 3, trivial⟩
  have h6 := h5.snoc ⟨.deliver (k := 1) rfl 3, trivial⟩
  have h7 := h6.snoc ⟨.deliver (k := 0) rfl 0, trivial⟩
  have h8 := h7.snoc ⟨.deliver (k := 1) rfl 0, trivial⟩
  have h9 := h8.snoc ⟨.deliver (k := 1) rfl 4, trivial⟩
  exact ⟨_, rfl, observers_emit_image h9⟩

/-- Of two subscriptions to a sum the second one starts from what the first one left of it; and so
does one to an observable derived from the sum after that. -/
theorem second_sum_starts_at_zero : ∃ labels, ∃ w : Observables Nat,
    Run (· = Observables.source Nat) (fun _ w l u => w.Step l u) labels w ∧
      w.observers.map Observer.delivered = [[3], [3], [3]] ∧
        ∃ v₁ v₂ v₃ : Observer Nat, w.observers = [v₁, v₂, v₃] ∧
          v₁.EmitsImage ∧ ¬ v₂.EmitsImage ∧ ¬ v₃.EmitsImage := by
  have h0 : Run (· = Observables.source Nat) (fun _ w l u => w.Step l u) [] _ := .nil rfl
  have h1 := h0.snoc (.derive (k := 0) rfl sumFromTen)
  have h2 := h1.snoc (.subscribe (k := 1) rfl)
  have h3 := h2.snoc (.derive (k := 1) rfl (.onlyIf (fun _ : Nat => true)))
  have h4 := h3.snoc (.subscribe (k := 1) rfl)
  have h5 := h4.snoc (.subscribe (k := 2) rfl)
  have h6 := h5.snoc (.deliver (k := 0) rfl 3)
  have h7 := h6.snoc (.deliver (k := 1) rfl 3)
  have h8 := h7.snoc (.deliver (k := 2) rfl 3)
  refine ⟨_, _, h8, rfl, _, _, _, rfl, rfl, fun h => ?_, fun h => ?_⟩
  · exact absurd (show ([3] : List Nat) = [13] from h) (by decide)
  · exact absurd (show ([3] : List Nat) = [13] from h) (by decide)

end Zlibs.Signaling
