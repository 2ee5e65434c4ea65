import Zlibs.Midi.Common

/-! `Base`: the transport it is bound to, and the routes it forwards packets on. One thread reads
while others register, unregister and send. -/
namespace Zlibs.Midi

/-- A call on the transport, on a route hook or on a destination, with its answer, or `thru` that
has copied the routes. -/
inductive Call (δ : Type) where
  | transportInit (ok : Bool)
  | transportDeinit (ok : Bool)
  | transportWrite (packet : MidiUmp) (ok : Bool)
  | transportRead (packet : Option MidiUmp)
  | enableThruRoute (destination : δ) (ok : Bool)
  | disableThruRoute (destination : δ)
  | thru (packet : MidiUmp)
  | hasThruBypass (destination : δ) (bypass : Bool)
  | write (destination : δ) (packet : MidiUmp)
  deriving DecidableEq

/-- The virtual functions behind `Transport*`. An answer may depend on every call before. -/
structure Transport (δ : Type) where
  init : List (Call δ) → Bool
  deinit : List (Call δ) → Bool
  write : List (Call δ) → MidiUmp → Bool
  read : List (Call δ) → Option MidiUmp

/-- The hooks a derived class may override. -/
structure Hooks (δ : Type) where
  enableThruRoute : List (Call δ) → δ → Bool := fun _ _ => true
  hasThruBypass : List (Call δ) → δ → Bool := fun _ _ => false

/-- Where the thread in `read` stands, with the part of its copy of the routes still ahead. -/
inductive Reader (δ : Type) where
  | idle
  | read (packet : MidiUmp)
  | forwarding (packet : MidiUmp) (slots : List (Option δ))
  | writing (packet : MidiUmp) (destination : δ) (slots : List (Option δ))
  deriving DecidableEq

structure Base (δ : Type) where
  thruInterfaces : List (Option δ)
  initialized : Bool := false
  reader : Reader δ := .idle
  calls : List (Call δ) := []

/-- What the threads ask of a `Base`; `reader` is the next step of the thread in `read`. -/
inductive Request (δ : Type) where
  | init
  | deinit
  | send (packet : MidiUmp)
  | registerThruInterface (destination : δ)
  | unregisterThruInterface (destination : δ)
  | reader

variable {δ : Type} {d e : δ} {slots filled : List (Option δ)} {packet p q : MidiUmp}
  {c : Call δ} {calls before during after : List (Call δ)}

/-- The first empty slot takes the destination. -/
def place (d : δ) : List (Option δ) → Option (List (Option δ))
  | [] => none
  | none :: rest => some (some d :: rest)
  | some e :: rest => (place d rest).map (some e :: ·)

namespace Base

def call (s : Base δ) (c : Call δ) : Base δ := { s with calls := s.calls ++ [c] }

def init (transport : Option (Transport δ)) (s : Base δ) : Bool × Base δ :=
  if s.initialized then (true, s)
  else
    match transport with
    | none => (false, s)
    | some t =>
      let ok := t.init s.calls
      (ok, { s.call (.transportInit ok) with initialized := ok })

/-- The loop of `deinit` over the slots, under `_thru_mutex`. -/
def releaseRoutes (s : Base δ) : Base δ :=
  { s with
    thruInterfaces := s.thruInterfaces.map fun _ => none
    calls := s.calls ++ s.thruInterfaces.reduceOption.map .disableThruRoute }

def deinit (transport : Option (Transport δ)) (s : Base δ) : Bool × Base δ :=
  if !s.initialized then (true, s)
  else
    let s := { s with initialized := false }.releaseRoutes
    match transport with
    | none => (false, s)
    | some t =>
      let ok := t.deinit s.calls
      (ok, s.call (.transportDeinit ok))

def send (transport : Option (Transport δ)) (packet : MidiUmp) (s : Base δ) : Bool × Base δ :=
  match transport with
  | none => (false, s)
  | some t =>
    let ok := t.write s.calls packet
    (ok, s.call (.transportWrite packet ok))

variable [DecidableEq δ]

def registerThruInterface (hooks : Hooks δ) (d : δ) (s : Base δ) : Bool × Base δ :=
  if some d ∈ s.thruInterfaces then (true, s)
  else if !hooks.enableThruRoute s.calls d then (false, s.call (.enableThruRoute d false))
  else
    let s := s.call (.enableThruRoute d true)
    match place d s.thruInterfaces with
    | some slots => (true, { s with thruInterfaces := slots })
    | none => (false, s.call (.disableThruRoute d))

def unregisterThruInterface (d : δ) (s : Base δ) : Base δ :=
  let s := s.call (.disableThruRoute d)
  { s with thruInterfaces := s.thruInterfaces.map fun slot => if slot = some d then none else slot }

/-- The next step of `read`: the packet, the copy of the routes under `_thru_mutex`, and then for
each slot of the copy the bypass question and the write. -/
def readerStep (transport : Option (Transport δ)) (hooks : Hooks δ) (s : Base δ) : Base δ :=
  match s.reader with
  | .idle =>
    match transport with
    | none => s
    | some t =>
      match t.read s.calls with
      | none => s.call (.transportRead none)
      | some packet => { s.call (.transportRead (some packet)) with reader := .read packet }
  | .read packet => { s.call (.thru packet) with reader := .forwarding packet s.thruInterfaces }
  | .forwarding _ [] => { s with reader := .idle }
  | .forwarding packet (none :: rest) => { s with reader := .forwarding packet rest }
  | .forwarding packet (some d :: rest) =>
    let bypass := hooks.hasThruBypass s.calls d
    { s.call (.hasThruBypass d bypass) with
      reader := if bypass then .forwarding packet rest else .writing packet d rest }
  | .writing packet d rest =>
    -- The answer of the destination is not looked at.
    { s.call (.write d packet) with reader := .forwarding packet rest }

def step (transport : Option (Transport δ)) (hooks : Hooks δ) (s : Base δ) :
    Request δ → Base δ
  | .init => (s.init transport).2
  | .deinit => (s.deinit transport).2
  | .send packet => (s.send transport packet).2
  | .registerThruInterface d => (s.registerThruInterface hooks d).2
  | .unregisterThruInterface d => s.unregisterThruInterface d
  | .reader => s.readerStep transport hooks

end Base

/-- The state after the requests, from the start. `n` is
`CONFIG_ZLIBS_UTILS_MIDI_MAX_THRU_INTERFACES`. -/
def Base.run [DecidableEq δ] (n : Nat) (transport : Option (Transport δ)) (hooks : Hooks δ)
    (requests : List (Request δ)) : Base δ :=
  requests.foldl (Base.step transport hooks) { thruInterfaces := List.replicate n none }

/-- Whether the hooks have left the route to `d` enabled, after one more call. -/
def routeAfter [DecidableEq δ] (d : δ) (enabled : Bool) : Call δ → Bool
  | .enableThruRoute e ok => if e = d then ok else enabled
  | .disableThruRoute e => if e = d then false else enabled
  | _ => enabled

/-- The last hook called for `d` has enabled its route. -/
def routeEnabled [DecidableEq δ] (d : δ) (calls : List (Call δ)) : Bool :=
  calls.foldl (routeAfter d) false

/-- The destinations offered a packet, each with its answer about a bypass. -/
def offered (calls : List (Call δ)) : List (δ × Bool) :=
  calls.filterMap fun
    | .hasThruBypass d bypass => some (d, bypass)
    | _ => none

def written (calls : List (Call δ)) : List (δ × MidiUmp) :=
  calls.filterMap fun
    | .write d packet => some (d, packet)
    | _ => none

/-- The packets that `thru` has been called with. -/
def forwarded (calls : List (Call δ)) : List MidiUmp :=
  calls.filterMap fun
    | .thru packet => some packet
    | _ => none

/-- The packets the transport has handed out. -/
def received (calls : List (Call δ)) : List MidiUmp :=
  calls.filterMap fun
    | .transportRead packet => packet
    | _ => none

/-- Between the calls `before` and `after` of a `thru`, every enabled route has been offered the
packet once, and the packet has gone to those without a bypass. -/
structure Delivered [DecidableEq δ] (before during : List (Call δ)) (packet : MidiUmp)
    (ahead : List δ) (unwritten : List (δ × MidiUmp)) : Prop where
  once : ((offered during).map Prod.fst ++ ahead).Nodup
  routes : ∀ d, d ∈ (offered during).map Prod.fst ++ ahead ↔ routeEnabled d before = true
  written : written during ++ unwritten =
    ((offered during).filter fun o => !o.2).map fun o => (o.1, packet)

theorem concat_eq_split {before after : List (Call δ)} {x : Call δ}
    (h : calls ++ [c] = before ++ x :: after) :
    (after = [] ∧ calls = before ∧ c = x) ∨
      ∃ init, after = init ++ [c] ∧ calls = before ++ x :: init := by
  obtain rfl | ⟨init, last, rfl⟩ := List.eq_nil_or_concat after
  · obtain ⟨rfl, hl⟩ := List.append_inj' h rfl
    exact .inl ⟨rfl, rfl, List.singleton_inj.mp hl⟩
  · have h' : calls ++ [c] = (before ++ x :: init) ++ [last] := by simpa using h
    obtain ⟨rfl, hl⟩ := List.append_inj' h' rfl
    obtain rfl : c = last := List.singleton_inj.mp hl
    exact .inr ⟨init, List.concat_eq_append, rfl⟩

section Calls

variable [DecidableEq δ]

/-- No route hook is called. -/
def Call.isPlain : Call δ → Bool
  | .enableThruRoute _ _ | .disableThruRoute _ => false
  | _ => true

/-- A route is only enabled while it is not. -/
def Balanced (calls : List (Call δ)) : Prop :=
  ∀ before after d, calls = before ++ .enableThruRoute d true :: after →
    routeEnabled d before = false

theorem routeEnabled_concat :
    routeEnabled d (calls ++ [c]) = routeAfter d (routeEnabled d calls) c := by
  simp [routeEnabled]

theorem routeEnabled_plain (hc : c.isPlain) :
    routeEnabled d (calls ++ [c]) = routeEnabled d calls := by
  rw [routeEnabled_concat]
  cases c <;> simp_all [routeAfter, Call.isPlain]

/-- Once the routes to `ds` are disabled, the others are as they were. -/
theorem routeEnabled_disabled {ds : List δ} :
    routeEnabled d (calls ++ ds.map .disableThruRoute) =
      if d ∈ ds then false else routeEnabled d calls := by
  induction ds generalizing calls with
  | nil => simp
  | cons e rest ih =>
    rw [List.map_cons, List.append_cons, ih, routeEnabled_concat]
    by_cases h : d ∈ rest
    · simp [h]
    · by_cases he : d = e
      · simp [he, routeAfter]
      · simp [h, he, routeAfter, Ne.symm he]

theorem Balanced.append {more : List (Call δ)} (h : Balanced calls)
    (hm : ∀ c ∈ more, ∀ d, c ≠ .enableThruRoute d true) : Balanced (calls ++ more) := by
  intro before after d heq
  obtain ⟨as, -, hs⟩ | ⟨bs, hb, hs⟩ := List.append_eq_append_iff.mp heq
  · exact absurd rfl (hm (.enableThruRoute d true) (by simp [hs]) d)
  · cases bs with
    | nil =>
      rw [List.nil_append] at hs
      exact absurd rfl (hm (.enableThruRoute d true) (hs ▸ List.mem_cons_self) d)
    | cons b bs =>
      rw [List.cons_append, List.cons.injEq] at hs
      obtain ⟨rfl, -⟩ := hs
      exact h before bs d hb

theorem Balanced.enable (h : Balanced calls) (hd : routeEnabled d calls = false) :
    Balanced (calls ++ [.enableThruRoute d true]) := by
  intro before after e heq
  obtain ⟨-, rfl, hc⟩ | ⟨init, -, hs⟩ := concat_eq_split heq
  · obtain ⟨rfl, -⟩ := Call.enableThruRoute.inj hc
    exact hd
  · exact h before init e hs

end Calls

theorem place_eq_some (h : place d slots = some filled) :
    ∃ front rest, slots = front ++ none :: rest ∧ filled = front ++ some d :: rest := by
  induction slots generalizing filled with
  | nil => cases h
  | cons slot rest ih =>
    cases slot with
    | none =>
      cases h
      exact ⟨[], rest, rfl, rfl⟩
    | some e =>
      obtain ⟨more, hm, rfl⟩ := Option.map_eq_some_iff.mp h
      obtain ⟨front, back, rfl, rfl⟩ := ih hm
      exact ⟨some e :: front, back, rfl, rfl⟩

theorem place_eq_none (h : place d slots = none) : slots.reduceOption.length = slots.length := by
  induction slots with
  | nil => rfl
  | cons slot rest ih =>
    cases slot with
    | none => cases h
    | some e =>
      rw [List.reduceOption_cons_of_some, List.length_cons, List.length_cons,
        ih (Option.map_eq_none_iff.mp h)]

/-- The slots without `d`. -/
theorem reduceOption_unregistered [DecidableEq δ] :
    (slots.map fun slot => if slot = some d then none else slot).reduceOption =
      slots.reduceOption.filter (· ≠ d) := by
  induction slots with
  | nil => rfl
  | cons slot rest ih =>
    cases slot with
    | none => simpa using ih
    | some e =>
      by_cases he : e = d
      · subst he
        simpa using ih
      · simpa [he] using ih

section Routes

variable [DecidableEq δ] {n : Nat} {s t : Base δ} {transport : Option (Transport δ)}
  {hooks : Hooks δ}

/-- The slots hold the enabled routes, each of them once. -/
structure Routes (n : Nat) (s : Base δ) : Prop where
  length : s.thruInterfaces.length = n
  nodup : s.thruInterfaces.reduceOption.Nodup
  enabled : ∀ d, d ∈ s.thruInterfaces.reduceOption ↔ routeEnabled d s.calls = true
  balanced : Balanced s.calls

theorem Routes.same (h : Routes n s) (hi : t.thruInterfaces = s.thruInterfaces)
    (hc : t.calls = s.calls) : Routes n t :=
  ⟨hi ▸ h.length, hi ▸ h.nodup, by rw [hi, hc]; exact h.enabled, hc ▸ h.balanced⟩

theorem Routes.call (h : Routes n s) (hp : c.isPlain) : Routes n (s.call c) := by
  refine ⟨h.length, h.nodup, fun d => ?_, h.balanced.append ?_⟩
  · exact (h.enabled d).trans (by rw [Base.call, routeEnabled_plain hp])
  · intro c' hc d he
    rw [List.mem_singleton.mp hc] at he
    subst he
    cases hp

theorem Routes.register (h : Routes n s) (d : δ) :
    Routes n (s.registerThruInterface hooks d).2 := by
  unfold Base.registerThruInterface
  by_cases hm : some d ∈ s.thruInterfaces
  · rw [if_pos hm]
    exact h
  rw [if_neg hm]
  have hoff : routeEnabled d s.calls = false :=
    Bool.eq_false_iff.mpr fun ht => hm (List.reduceOption_mem_iff.mp ((h.enabled d).mpr ht))
  by_cases he : hooks.enableThruRoute s.calls d = true
  · simp only [he, Bool.not_true, Bool.false_eq_true, if_false]
    have hb : Balanced (s.calls ++ [.enableThruRoute d true]) := h.balanced.enable hoff
    cases hp : place d s.thruInterfaces with
    | some slots =>
      simp only [Base.call, hp]
      obtain ⟨front, rest, hs, rfl⟩ := place_eq_some hp
      have hperm : (front ++ some d :: rest).reduceOption.Perm
          (d :: s.thruInterfaces.reduceOption) := by
        rw [hs]
        simp only [List.reduceOption_append, List.reduceOption_cons_of_some,
          List.reduceOption_cons_of_none]
        exact List.perm_middle
      refine ⟨by rw [← h.length, hs]; simp, ?_, fun e => ?_, hb⟩
      · refine hperm.nodup_iff.mpr (List.nodup_cons.mpr ⟨?_, h.nodup⟩)
        exact fun hd => hm (List.reduceOption_mem_iff.mp hd)
      · rw [hperm.mem_iff, List.mem_cons, h.enabled e, routeEnabled_concat]
        by_cases hed : e = d
        · simp [routeAfter, hed]
        · simp [routeAfter, hed, Ne.symm hed]
    | none =>
      simp only [Base.call, hp]
      refine ⟨h.length, h.nodup, fun e => ?_, hb.append ?_⟩
      · rw [h.enabled e, routeEnabled_concat, routeEnabled_concat]
        by_cases hed : e = d
        · simp [routeAfter, hed, hoff]
        · simp [routeAfter, Ne.symm hed]
      · simp
  · have he' : hooks.enableThruRoute s.calls d = false := Bool.eq_false_iff.mpr he
    simp only [he', Bool.not_false, if_true]
    refine ⟨h.length, h.nodup, fun e => ?_, h.balanced.append (by simp)⟩
    rw [Base.call, h.enabled e, routeEnabled_concat]
    by_cases hed : e = d
    · simp [routeAfter, hed, hoff]
    · simp [routeAfter, Ne.symm hed]

theorem Routes.unregister (h : Routes n s) (d : δ) : Routes n (s.unregisterThruInterface d) := by
  refine ⟨by simp [Base.unregisterThruInterface, Base.call, h.length], ?_, fun e => ?_,
    h.balanced.append (by simp)⟩
  · simp only [Base.unregisterThruInterface, Base.call, reduceOption_unregistered]
    exact h.nodup.filter _
  · simp only [Base.unregisterThruInterface, Base.call, reduceOption_unregistered,
      List.mem_filter, h.enabled e, routeEnabled_concat]
    by_cases hed : e = d
    · simp [routeAfter, hed]
    · simp [routeAfter, hed, Ne.symm hed]

theorem Routes.deinit (h : Routes n s) : Routes n (s.deinit transport).2 := by
  have hr : Routes n { s with initialized := false }.releaseRoutes := by
    refine ⟨by simp [Base.releaseRoutes, h.length], ?_, fun d => ?_, h.balanced.append ?_⟩
    · simp only [Base.releaseRoutes, List.map_const',
        List.reduceOption_replicate_none, List.nodup_nil]
    · simp only [Base.releaseRoutes, List.map_const', List.reduceOption_replicate_none,
        routeEnabled_disabled, List.not_mem_nil, false_iff]
      split_ifs with hd
      · exact id
      · exact fun ht => hd ((h.enabled d).mpr ht)
    · simp
  unfold Base.deinit
  by_cases hi : s.initialized = true
  · rw [hi]
    cases transport with
    | none => exact hr
    | some t => exact hr.call rfl
  · rw [Bool.eq_false_iff.mpr hi]
    exact h

theorem Routes.readerStep (h : Routes n s) : Routes n (s.readerStep transport hooks) := by
  unfold Base.readerStep
  cases s.reader with
  | idle =>
    cases transport with
    | none => exact h
    | some t =>
      dsimp only
      cases t.read s.calls with
      | none => exact h.call rfl
      | some packet => exact (h.call (c := .transportRead (some packet)) rfl).same rfl rfl
  | read packet => exact (h.call (c := .thru packet) rfl).same rfl rfl
  | forwarding packet slots =>
    cases slots with
    | nil => exact h.same rfl rfl
    | cons slot rest =>
      cases slot with
      | none => exact h.same rfl rfl
      | some d => exact (h.call (c := .hasThruBypass d _) rfl).same rfl rfl
  | writing packet d rest => exact (h.call (c := .write d packet) rfl).same rfl rfl

theorem Routes.step (h : Routes n s) (l : Request δ) : Routes n (s.step transport hooks l) := by
  cases l with
  | init =>
    simp only [Base.step, Base.init]
    by_cases hi : s.initialized = true
    · rw [if_pos hi]
      exact h
    · rw [if_neg hi]
      cases transport with
      | none => exact h
      | some t => exact (h.call (c := .transportInit _) rfl).same rfl rfl
  | deinit => exact h.deinit
  | send packet =>
    simp only [Base.step, Base.send]
    cases transport with
    | none => exact h
    | some t => exact h.call rfl
  | registerThruInterface d => exact h.register d
  | unregisterThruInterface d => exact h.unregister d
  | reader => exact h.readerStep

theorem routes_initial : Routes n ({ thruInterfaces := List.replicate n none } : Base δ) := by
  refine ⟨List.length_replicate, ?_, fun d => ?_, fun before after d h => ?_⟩
  · simp
  · simp [routeEnabled]
  · exact absurd h (by simp)

theorem run_routes (requests : List (Request δ)) : Routes n (Base.run n transport hooks requests) := by
  unfold Base.run
  induction requests using List.reverseRecOn with
  | nil => exact routes_initial
  | append_singleton requests l ih =>
    rw [List.foldl_concat]
    exact ih.step l

/-- What `register_thru_interface` answers. -/
theorem register_answer (d : δ) :
    ((s.registerThruInterface hooks d).1 = true ↔
      some d ∈ (s.registerThruInterface hooks d).2.thruInterfaces) ∧
    ((s.registerThruInterface hooks d).1 = false → hooks.enableThruRoute s.calls d = false ∨
      s.thruInterfaces.reduceOption.length = s.thruInterfaces.length) := by
  unfold Base.registerThruInterface
  by_cases hm : some d ∈ s.thruInterfaces
  · rw [if_pos hm]
    exact ⟨⟨fun _ => hm, fun _ => rfl⟩, fun h => by cases h⟩
  rw [if_neg hm]
  cases he : hooks.enableThruRoute s.calls d with
  | false => exact ⟨⟨(absurd · Bool.false_ne_true), fun h => absurd h hm⟩, fun _ => .inl rfl⟩
  | true =>
    simp only [Bool.not_true, Bool.false_eq_true, if_false, Base.call]
    cases hp : place d s.thruInterfaces with
    | some slots =>
      obtain ⟨front, rest, -, rfl⟩ := place_eq_some hp
      exact ⟨⟨fun _ => by simp, fun _ => rfl⟩, fun h => by cases h⟩
    | none =>
      exact ⟨⟨(absurd · Bool.false_ne_true), fun h => absurd h hm⟩, fun _ => .inr (place_eq_none hp)⟩

/-- In every run the slots hold exactly the routes that the hooks have left enabled, each once, a
route is only enabled while it is not, and a destination is refused by the hook or for want of a
slot, and then holds none. -/
theorem routes_enabled (n : Nat) (transport : Option (Transport δ)) (hooks : Hooks δ)
    (requests : List (Request δ)) :
    let s := Base.run n transport hooks requests
    Routes n s ∧ ∀ d, let r := s.registerThruInterface hooks d
      (r.1 = true ↔ some d ∈ r.2.thruInterfaces) ∧
        (r.1 = false → hooks.enableThruRoute s.calls d = false ∨
          s.thruInterfaces.reduceOption.length = n) := by
  intro s
  have hr : Routes n s := run_routes requests
  refine ⟨hr, fun d => ?_⟩
  have ha := @register_answer _ _ s hooks d
  rw [hr.length] at ha
  exact ha

end Routes

/-- The routes still to be offered the packet. -/
def Reader.ahead : Reader δ → List δ
  | .forwarding _ slots | .writing _ _ slots => slots.reduceOption
  | _ => []

/-- The packet that has been offered and not yet written. -/
def Reader.unwritten : Reader δ → List (δ × MidiUmp)
  | .writing packet d _ => [(d, packet)]
  | _ => []

/-- The packet that `thru` has not begun with. -/
def Reader.waiting : Reader δ → List MidiUmp
  | .read packet => [packet]
  | _ => []

/-- The packet of the pass under way. -/
def Reader.carried : Reader δ → Option MidiUmp
  | .forwarding packet _ | .writing packet _ _ => some packet
  | _ => none

section Passes

variable [DecidableEq δ] {n : Nat} {s t : Base δ} {transport : Option (Transport δ)}
  {hooks : Hooks δ}

/-- A pass that the reader is at, or has been through. -/
structure Pass (r : Reader δ) (before : List (Call δ)) (packet : MidiUmp)
    (during : List (Call δ)) : Prop where
  delivered : Delivered before during packet r.ahead r.unwritten
  same : ∀ p, r.carried = some p → p = packet

/-- Every pass over the routes so far, the last of which may be under way. -/
structure Passes (s : Base δ) : Prop where
  last : ∀ before packet during, s.calls = before ++ .thru packet :: during →
    forwarded during = [] → Pass s.reader before packet during
  earlier : ∀ before packet during q after,
    s.calls = before ++ .thru packet :: (during ++ .thru q :: after) → forwarded during = [] →
      Delivered before during packet [] []
  inOrder : forwarded s.calls ++ s.reader.waiting = received s.calls

/-- A call that starts no pass belongs to the last one. -/
theorem Passes.append (h : Passes s) (hc : ∀ packet, c ≠ .thru packet)
    (ht : t.calls = s.calls ++ [c])
    (hd : ∀ before packet during, Pass s.reader before packet during →
      Pass t.reader before packet (during ++ [c]))
    (hi : t.reader.waiting = s.reader.waiting ++ received [c]) : Passes t := by
  have hf : forwarded (s.calls ++ [c]) = forwarded s.calls := by
    cases c <;> simp_all [forwarded]
  have hr : received (s.calls ++ [c]) = received s.calls ++ received [c] := List.filterMap_append
  refine ⟨?_, ?_, ?_⟩
  · intro before packet during heq hn
    rw [ht] at heq
    obtain ⟨-, -, he⟩ | ⟨init, rfl, hs⟩ := concat_eq_split heq
    · exact absurd he (hc packet)
    · rw [forwarded, List.filterMap_append, List.append_eq_nil_iff] at hn
      exact hd _ _ _ (h.last before packet init hs hn.1)
  · intro before packet during q after heq hn
    rw [ht] at heq
    obtain ⟨-, -, he⟩ | ⟨init, hs, heq⟩ := concat_eq_split heq
    · exact absurd he (hc packet)
    · obtain ⟨-, -, he⟩ | ⟨rest, -, rfl⟩ := concat_eq_split hs.symm
      · exact absurd he (hc q)
      · exact h.earlier before packet during q rest heq hn
  · rw [ht, hf, hr, hi, ← List.append_assoc, h.inOrder]

theorem Passes.same (h : Passes s) (hc : t.calls = s.calls)
    (hw : t.reader.waiting = s.reader.waiting)
    (hp : ∀ before packet during, Pass s.reader before packet during →
      Pass t.reader before packet during) : Passes t := by
  refine ⟨fun before packet during heq hn => ?_, ?_, ?_⟩
  · rw [hc] at heq
    exact hp _ _ _ (h.last before packet during heq hn)
  · rw [hc]
    exact h.earlier
  · rw [hc, hw]
    exact h.inOrder

/-- A call that neither offers nor writes a packet. -/
def Call.isQuiet : Call δ → Bool
  | .thru _ | .hasThruBypass _ _ | .write _ _ => false
  | _ => true

theorem Pass.quiet {r : Reader δ} (h : Pass r before packet during) (hc : c.isQuiet) :
    Pass r before packet (during ++ [c]) := by
  have ho : offered (during ++ [c]) = offered during := by
    cases c <;> simp_all [offered, Call.isQuiet]
  have hw : written (during ++ [c]) = written during := by
    cases c <;> simp_all [written, Call.isQuiet]
  refine ⟨⟨?_, ?_, ?_⟩, h.same⟩
  · rw [ho]
    exact h.delivered.once
  · rw [ho]
    exact h.delivered.routes
  · rw [ho, hw]
    exact h.delivered.written

/-- The reader goes on without offering the packet to anyone. -/
theorem Pass.reader {r r' : Reader δ} (h : Pass r before packet during) (ha : r'.ahead = r.ahead)
    (hu : r'.unwritten = r.unwritten) (hp : r'.carried = none ∨ r'.carried = r.carried) :
    Pass r' before packet during := by
  refine ⟨by rw [ha, hu]; exact h.delivered, fun p hr => ?_⟩
  obtain hp | hp := hp
  · rw [hp] at hr
    cases hr
  · exact h.same p (hp ▸ hr)

/-- A destination is offered the packet, and is yet to get it unless it is bypassed. -/
theorem Pass.offer {rest : List (Option δ)} {bypass : Bool}
    (h : Pass (.forwarding p (some d :: rest)) before packet during) :
    Pass (if bypass then .forwarding p rest else .writing p d rest) before packet
      (during ++ [.hasThruBypass d bypass]) := by
  obtain rfl : p = packet := h.same p rfl
  have ho : offered (during ++ [.hasThruBypass d bypass]) = offered during ++ [(d, bypass)] := by
    simp [offered]
  have hw : written (during ++ [.hasThruBypass d bypass]) = written during := by
    simp [written]
  have hsame : ((offered during ++ [(d, bypass)]).map Prod.fst) ++ rest.reduceOption =
      (offered during).map Prod.fst ++ (some d :: rest).reduceOption := by simp
  have hd : Delivered before during p (some d :: rest).reduceOption [] := h.delivered
  have hwritten := hd.written
  rw [List.append_nil] at hwritten
  cases bypass with
  | true =>
    refine ⟨⟨?_, ?_, ?_⟩, fun q hq => (Option.some.inj hq).symm⟩
    · rw [ho]
      exact hsame ▸ hd.once
    · rw [ho]
      exact hsame ▸ hd.routes
    · rw [ho, hw, hwritten]
      simp [Reader.unwritten]
  | false =>
    refine ⟨⟨?_, ?_, ?_⟩, fun q hq => (Option.some.inj hq).symm⟩
    · rw [ho]
      exact hsame ▸ hd.once
    · rw [ho]
      exact hsame ▸ hd.routes
    · rw [ho, hw, hwritten]
      simp [Reader.unwritten]

/-- The packet goes to the destination it has been offered to. -/
theorem Pass.write {rest : List (Option δ)} (h : Pass (.writing p d rest) before packet during) :
    Pass (.forwarding p rest) before packet (during ++ [.write d p]) := by
  obtain rfl : p = packet := h.same p rfl
  have ho : offered (during ++ [.write d p]) = offered during := by simp [offered]
  refine ⟨⟨?_, ?_, ?_⟩, fun q hq => (Option.some.inj hq).symm⟩
  · rw [ho]
    exact h.delivered.once
  · rw [ho]
    exact h.delivered.routes
  · have hw : written (during ++ [.write d p]) = written during ++ [(d, p)] := by simp [written]
    rw [ho, hw]
    simpa [Reader.unwritten] using h.delivered.written

theorem Passes.quiet (h : Passes s) (hc : c.isQuiet) (ht : t.calls = s.calls ++ [c])
    (hr : t.reader = s.reader) (hn : received [c] = []) : Passes t := by
  refine h.append ?_ ht (fun before packet during hp => ?_) ?_
  · rintro packet rfl
    cases hc
  · rw [hr]
    exact hp.quiet hc
  · rw [hr, hn, List.append_nil]

/-- `thru` copies the enabled routes. -/
theorem Passes.copy (h : Passes s) (hr : Routes n s) (hs : s.reader = .read p)
    (ht : t.calls = s.calls ++ [.thru p]) (hl : t.reader = .forwarding p s.thruInterfaces) :
    Passes t := by
  have hidle : s.reader.ahead = [] ∧ s.reader.unwritten = [] := by
    rw [hs]
    exact ⟨rfl, rfl⟩
  refine ⟨?_, ?_, ?_⟩
  · intro before packet during heq hn
    rw [ht] at heq
    obtain ⟨rfl, rfl, he⟩ | ⟨init, rfl, -⟩ := concat_eq_split heq
    · obtain rfl := Call.thru.inj he
      rw [hl]
      refine ⟨⟨?_, ?_, rfl⟩, fun q hq => (Option.some.inj hq).symm⟩
      · simpa [Reader.ahead, offered] using hr.nodup
      · simpa [Reader.ahead, offered] using hr.enabled
    · exact absurd hn (by simp [forwarded])
  · intro before packet during q after heq hn
    rw [ht] at heq
    obtain ⟨he, -, -⟩ | ⟨init, hi, hs⟩ := concat_eq_split heq
    · exact absurd he (by simp)
    · obtain ⟨rfl, rfl, -⟩ | ⟨rest, -, rfl⟩ := concat_eq_split hi.symm
      · have hd := (h.last before packet init hs hn).delivered
        rw [hidle.1, hidle.2] at hd
        exact hd
      · exact h.earlier before packet during q rest hs hn
  · have hi : forwarded s.calls ++ [p] = received s.calls := by
      have hi := h.inOrder
      rwa [hs] at hi
    have hf : forwarded (s.calls ++ [.thru p]) = forwarded s.calls ++ [p] := by simp [forwarded]
    have hg : received (s.calls ++ [.thru p]) = received s.calls := by simp [received]
    rw [ht, hl, hf, hg, ← hi]
    exact List.append_nil _

theorem Passes.readerStep (h : Passes s) (hr : Routes n s) :
    Passes (s.readerStep transport hooks) := by
  unfold Base.readerStep
  cases hs : s.reader with
  | idle =>
    cases transport with
    | none => exact h
    | some t =>
      dsimp only
      cases t.read s.calls with
      | none => exact h.quiet (c := .transportRead none) rfl rfl rfl rfl
      | some packet =>
        refine h.append (c := .transportRead (some packet)) (fun _ he => by cases he) rfl
          (fun _ _ _ hp => ?_) ?_
        · rw [hs] at hp
          exact (hp.quiet rfl).reader rfl rfl (.inl rfl)
        · rw [hs]
          rfl
  | read packet => exact h.copy hr hs rfl rfl
  | forwarding packet slots =>
    cases slots with
    | nil =>
      refine h.same rfl (by rw [hs]; rfl) fun _ _ _ hp => ?_
      rw [hs] at hp
      exact hp.reader rfl rfl (.inl rfl)
    | cons slot rest =>
      cases slot with
      | none =>
        refine h.same rfl (by rw [hs]; rfl) fun _ _ _ hp => ?_
        rw [hs] at hp
        exact hp.reader rfl rfl (.inr rfl)
      | some d =>
        refine h.append (c := .hasThruBypass d _) (fun _ he => by cases he) rfl
          (fun _ _ _ hp => ?_) ?_
        · rw [hs] at hp
          exact hp.offer
        · rw [hs]
          dsimp only
          split_ifs <;> rfl
  | writing packet d rest =>
    refine h.append (c := .write d packet) (fun _ he => by cases he) rfl
      (fun _ _ _ hp => ?_) ?_
    · rw [hs] at hp
      exact hp.write
    · rw [hs]
      rfl

theorem Passes.release {ds : List δ} (h : Passes s) (hr : t.reader = s.reader)
    (ht : t.calls = s.calls ++ ds.map .disableThruRoute) : Passes t := by
  induction ds generalizing s with
  | nil => exact h.same (by simpa using ht) (by rw [hr]) (by rw [hr]; exact fun _ _ _ hp => hp)
  | cons d rest ih =>
    refine ih (h.quiet (t := s.call (.disableThruRoute d)) rfl rfl rfl rfl) hr ?_
    rw [ht, List.map_cons, List.append_cons]
    rfl

theorem Passes.step (h : Passes s) (hr : Routes n s) (l : Request δ) :
    Passes (s.step transport hooks l) := by
  cases l with
  | init =>
    simp only [Base.step, Base.init]
    by_cases hi : s.initialized = true
    · rw [if_pos hi]
      exact h
    · rw [if_neg hi]
      cases transport with
      | none => exact h
      | some t => exact h.quiet (c := .transportInit _) rfl rfl rfl rfl
  | deinit =>
    have hd : Passes { s with initialized := false }.releaseRoutes := h.release rfl rfl
    simp only [Base.step, Base.deinit]
    by_cases hi : s.initialized = true
    · rw [hi]
      cases transport with
      | none => exact hd
      | some t => exact hd.quiet (c := .transportDeinit _) rfl rfl rfl rfl
    · rw [Bool.eq_false_iff.mpr hi]
      exact h
  | send packet =>
    simp only [Base.step, Base.send]
    cases transport with
    | none => exact h
    | some t => exact h.quiet (c := .transportWrite packet _) rfl rfl rfl rfl
  | registerThruInterface d =>
    simp only [Base.step, Base.registerThruInterface]
    split_ifs with hm he
    · exact h
    · exact h.quiet (c := .enableThruRoute d false) rfl rfl rfl rfl
    · have hc : Passes (s.call (.enableThruRoute d true)) :=
        h.quiet (c := .enableThruRoute d true) rfl rfl rfl rfl
      cases place d (s.call (.enableThruRoute d true)).thruInterfaces with
      | some slots => exact hc.same rfl rfl fun _ _ _ hp => hp
      | none => exact hc.quiet (c := .disableThruRoute d) rfl rfl rfl rfl
  | unregisterThruInterface d =>
    exact (h.quiet (t := s.call (.disableThruRoute d)) rfl rfl rfl rfl).same rfl rfl fun _ _ _ hp => hp
  | reader => exact h.readerStep hr

theorem run_passes (requests : List (Request δ)) : Passes (Base.run n transport hooks requests) := by
  unfold Base.run
  induction requests using List.reverseRecOn with
  | nil =>
    exact ⟨fun _ _ _ h => absurd h (by simp), fun _ _ _ _ _ h => absurd h (by simp), rfl⟩
  | append_singleton requests l ih =>
    rw [List.foldl_concat]
    exact ih.step (run_routes requests) l

/-- Whatever other threads register, unregister and send meanwhile, `thru` is called with each
packet received, in their order, and each of its passes that is over has offered the packet once
to every route enabled when it began and to no other, and has written it to those without a
bypass. -/
theorem packets_delivered (n : Nat) (transport : Option (Transport δ)) (hooks : Hooks δ)
    (requests : List (Request δ)) :
    let s := Base.run n transport hooks requests
    forwarded s.calls ++ s.reader.waiting = received s.calls ∧
      ∀ before packet during after, s.calls = before ++ .thru packet :: (during ++ after) →
        forwarded during = [] → (after = [] ∧ s.reader = .idle ∨ ∃ q rest, after = .thru q :: rest) →
          Delivered before during packet [] [] := by
  intro s
  have hp : Passes s := run_passes requests
  refine ⟨hp.inOrder, fun before packet during after hs hn ha => ?_⟩
  obtain ⟨rfl, hidle⟩ | ⟨q, rest, rfl⟩ := ha
  · rw [List.append_nil] at hs
    have hd := (hp.last before packet during hs hn).delivered
    rw [hidle] at hd
    exact hd
  · exact hp.earlier before packet during q rest hs hn

end Passes

end Zlibs.Midi
