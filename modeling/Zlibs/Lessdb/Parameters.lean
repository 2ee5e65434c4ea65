import Zlibs.Lessdb.Isolation
import Zlibs.Lib.Machine

/-! The database as a map from parameters to values, under its layout. -/
namespace Zlibs.Lessdb
open Lib

/-- A parameter: its block, its section, and its index there. -/
abbrev Parameter := Nat × Nat × Nat

inductive Access where
  | read (parameter : Parameter)
  | update (parameter : Parameter) (newValue : UInt32)

inductive Answer where
  | value (value : Option Nat)
  | updated (ok : Bool)
  deriving DecidableEq

/-- `read` and `update` -/
def LessDb.access (hwa : Hwa) (db : LessDb) : Access → Option Answer × LessDb
  | .read (b, s, p) =>
    let r := LessDb.read hwa b s p db
    (some (.value r.1), r.2)
  | .update (b, s, p) newValue =>
    let r := LessDb.update hwa b s p newValue.toNat db
    (some (.updated r.1), r.2)

/-- How many bits a parameter of the layout has. -/
def parameterBits (layout : List Block) (x : Parameter) : Nat :=
  ((layout[x.1]? >>= fun block => block.sections[x.2.1]?).map fun sect =>
    LessDb.bits sect.parameterType).getD 0

/-- The accesses of a map that holds what fits into the bits of each parameter. -/
def accessMap (layout : List Block) (values : Parameter → Option Nat) :
    Access → Option Answer × (Parameter → Option Nat)
  | .read x => (some (.value (values x)), values)
  | .update x newValue =>
    if (values x).isSome then (some (.updated true),
      Function.update values x (some (newValue.toNat % 2 ^ parameterBits layout x)))
    else (some (.updated false), values)

namespace LessDb

variable {hwa : Hwa} {db db' : LessDb} {blocks : List (List Section)} {startAddress b s p value : Nat}
  {block : Block} {sect : Section} {m : Parameter → Option Nat}

/-- The value each parameter reads as. -/
def values (hwa : Hwa) (db : LessDb) : Parameter → Option Nat := fun x =>
  (read hwa x.1 x.2.1 x.2.2 db).1

theorem update_refused (h : ∀ block sect, db.sectionAt b s = some (block, sect) →
    ¬ p < sect.numberOfParameters) :
    (update hwa b s p value db).1 = false ∧ (update hwa b s p value db).2 = db := by
  rcases hsect : db.sectionAt b s with _ | ⟨block, sect⟩
  · refine ⟨?_, update_absent hsect⟩
    simp [update, hsect, bind, StateT.bind, get, getThe, MonadStateOf.get, StateT.get, pure,
      StateT.pure]
  · have hp := h block sect hsect
    refine ⟨?_, update_out_of_range hsect hp⟩
    have hge : p ≥ sect.numberOfParameters := Nat.not_lt.mp hp
    simp [update, hsect, hge, bind, StateT.bind, get, getThe, MonadStateOf.get, StateT.get, pure,
      StateT.pure]

/-- A read leaves what the others return. -/
theorem looked_values (h : Current hwa blocks startAddress db)
    (hl : Looked hwa startAddress db db') : db'.values hwa = db.values hwa := by
  funext ⟨b, s, p⟩
  have h' := h.looked hl
  have hat := sectionAt_eq (b := b) (s := s) hl.config
  unfold values
  dsimp only
  by_cases hvalid : ∃ block sect, db.sectionAt b s = some (block, sect) ∧ p < sect.numberOfParameters
  · obtain ⟨block, sect, hsect, hp⟩ := hvalid
    obtain ⟨raw, hraw, hr, -⟩ := read_spec h.toAccepted h.coherent hsect hp
    obtain ⟨raw', hraw', hr', -⟩ := read_spec h'.toAccepted h'.coherent (hat.trans hsect) hp
    rw [hl.contents, hraw] at hraw'
    cases hraw'
    rw [hr, hr']
  · rw [read_none fun block sect hsect hp => hvalid ⟨block, sect, hsect, hp⟩,
      read_none fun block sect hsect hp => hvalid ⟨block, sect, hat.symm.trans hsect, hp⟩]

/-- The map a database stands for. -/
structure Holds (hwa : Hwa) (blocks : List (List Section)) (startAddress : Nat) (db : LessDb)
    (m : Parameter → Option Nat) : Prop where
  current : Current hwa blocks startAddress db
  values : db.values hwa = m

theorem Holds.read (h : Holds hwa blocks startAddress db m) (b s p : Nat) :
    (LessDb.read hwa b s p db).1 = m (b, s, p) ∧
      Holds hwa blocks startAddress (LessDb.read hwa b s p db).2 m := by
  have hl : Looked hwa startAddress db (LessDb.read hwa b s p db).2 :=
    reads_looked h.current.toAccepted h.current.coherent [(b, s, p)]
  refine ⟨by rw [← h.values]; rfl, h.current.looked hl, ?_⟩
  rw [looked_values h.current hl, h.values]

theorem Holds.update (h : Holds hwa blocks startAddress db m)
    (hshort : ShortBits (built blocks)) (b s p : Nat) (newValue : UInt32) :
    let r := db.access hwa (.update (b, s, p) newValue)
    let r' := accessMap (built blocks) m (.update (b, s, p) newValue)
    r.1 = r'.1 ∧ Holds hwa blocks startAddress r.2 r'.2 := by
  intro r r'
  have hlt : newValue.toNat < 2 ^ 32 := newValue.toNat_lt
  by_cases hvalid : ∃ block sect, db.sectionAt b s = some (block, sect) ∧ p < sect.numberOfParameters
  · obtain ⟨block, sect, hsect, hp⟩ := hvalid
    obtain ⟨hb, hs⟩ := sectionAt_some hsect
    rw [h.current.placed.layout] at hb
    obtain ⟨raw, -, hread, -⟩ := read_spec h.current.toAccepted h.current.coherent hsect hp
    have hsome : (m (b, s, p)).isSome = true := by
      rw [← h.values, LessDb.values, hread]
      rfl
    have hbits : parameterBits (built blocks) (b, s, p) = bits sect.parameterType := by
      simp [parameterBits, hb, hs]
    obtain ⟨hok, hown⟩ := update_succeeds h.current hsect hp hlt
    have hm : r' = (some (.updated true), Function.update m (b, s, p)
        (some (newValue.toNat % 2 ^ bits sect.parameterType))) := by
      simp only [r', accessMap, hsome, if_true, hbits]
    rw [hm]
    refine ⟨congrArg (fun ok => some (Answer.updated ok)) hok,
      h.current.update newValue.toNat hsect hp, ?_⟩
    funext ⟨b', s', p'⟩
    show (LessDb.read hwa b' s' p' (LessDb.update hwa b s p newValue.toNat db).2).1 =
      Function.update m (b, s, p) (some (newValue.toNat % 2 ^ bits sect.parameterType)) (b', s', p')
    by_cases hsame : ((b', s', p') : Parameter) = (b, s, p)
    · cases hsame
      rw [Function.update_self]
      exact hown
    · rw [Function.update_of_ne hsame, ← h.values]
      exact update_others h.current (by rw [h.current.placed.layout]; exact hshort) hsect hp hlt hsame
  · have hnot : ∀ block sect, db.sectionAt b s = some (block, sect) → ¬ p < sect.numberOfParameters :=
      fun block sect hsect hp => hvalid ⟨block, sect, hsect, hp⟩
    obtain ⟨hrefused, hsame⟩ := @update_refused hwa db b s p newValue.toNat hnot
    have hnone : m (b, s, p) = none := by
      rw [← h.values]
      exact read_none hnot
    have hm : r' = (some (.updated false), m) := by
      simp only [r', accessMap, hnone, Option.isSome_none, Bool.false_eq_true, if_false]
    rw [hm]
    refine ⟨congrArg (fun ok => some (Answer.updated ok)) hrefused, ?_⟩
    show Holds hwa blocks startAddress (LessDb.update hwa b s p newValue.toNat db).2 m
    rw [hsame]
    exact h

/-- Once a layout without long sections of bits is accepted with no byte remembered that is out of
date, and whatever is initialised,
registered and accessed then, any run of reads and updates answers like a map from parameters to
values, each cut to the bits of its parameter, that holds what could be read at first. -/
theorem accesses_refine_map (hwa : Hwa) (hreads : ReadsBack hwa) (blocks : List (List Section))
    (startAddress uid : Nat) (db : LessDb) (hfresh : Fresh hwa (built blocks) startAddress db)
    (htotal : totalSize blocks < 2 ^ 32) (hshort : ShortBits (built blocks))
    (haccepted : (setLayout hwa (built blocks) startAddress uid db).1 = true) (ops : List DbOp)
    (hops : ∀ op ∈ ops, op ≠ .clear) (accesses : List Access) :
    let now := ops.foldl (fun db op => perform hwa op db)
      (setLayout hwa (built blocks) startAddress uid db).2
    let r := feed (LessDb.access hwa) now accesses
    let m := feed (accessMap (built blocks)) (now.values hwa) accesses
    r.1 = m.1 ∧ r.2.values hwa = m.2 := by
  intro now r m
  have hnow : Holds hwa blocks startAddress now (now.values hwa) :=
    ⟨run_current (setLayout_current hreads hfresh htotal haccepted) hops, rfl⟩
  obtain ⟨ho, hm⟩ : r.1 = m.1 ∧ Holds hwa blocks startAddress r.2 m.2 := by
    refine feed_simulates (Holds hwa blocks startAddress) (fun db values x h => ?_) hnow
    cases x with
    | read x =>
      obtain ⟨b, s, p⟩ := x
      obtain ⟨hr, hh⟩ := h.read b s p
      exact ⟨congrArg (fun v => some (Answer.value v)) hr, hh⟩
    | update x newValue =>
      obtain ⟨b, s, p⟩ := x
      exact h.update hshort b s p newValue
  exact ⟨ho, hm.values⟩

theorem accesses_refine_map_packed :
    (feed (LessDb.access (memory 20 fun _ => 0xFF))
      (setLayout (memory 20 fun _ => 0xFF) (built packedBlocks) 4 0 {}).2
        [.update (0, 0, 3) 0, .read (0, 0, 3), .read (0, 0, 4), .update (7, 0, 0) 1]).1 =
      [.updated true, .value (some 0), .value (some 1), .updated false] :=
  (accesses_refine_map (memory 20 fun _ => 0xFF) (memory_readsBack 20 _) packedBlocks 4 0 {}
    (by decide) (by decide) (by unfold ShortBits; decide) (by decide) [] (by simp)
    [.update (0, 0, 3) 0, .read (0, 0, 3), .read (0, 0, 4), .update (7, 0, 0) 1]).1.trans (by decide)

end LessDb

end Zlibs.Lessdb
