import Zlibs.Lib.BoundedQueue
import Zlibs.Lib.Run
import Zlibs.Misc.RingBuffer

/-! One thread inserts into the ring buffer while another one removes from it. -/
namespace Zlibs.Misc
open Lib

/-- Where an `insert` of `data` stands, with what it holds in local variables. -/
inductive Producer (maxSize : Nat) (T : Type) where
  | idle
  | loadTail (data : T) (head : Fin (maxSize + 1))
  | loadTailAgain (data : T) (next : Fin (maxSize + 1))
  | storeTail (data : T) (next newTail : Fin (maxSize + 1))
  | write (data : T) (next : Fin (maxSize + 1))
  | storeHead (data : T) (next : Fin (maxSize + 1))
  deriving DecidableEq

/-- Where a `remove` stands. -/
inductive Consumer (maxSize : Nat) (T : Type) where
  | idle
  | loadTail (head : Fin (maxSize + 1))
  | read (tail : Fin (maxSize + 1))
  | storeTail (tail : Fin (maxSize + 1)) (value : T)
  deriving DecidableEq

/-- The buffer and its two threads, with the items whose `insert` has returned true and the items
that `remove` has returned. -/
structure Threads (maxSize : Nat) (T : Type) where
  ring : RingBuffer maxSize T
  producer : Producer maxSize T := .idle
  consumer : Consumer maxSize T := .idle
  accepted : List T := []
  obtained : List T := []

inductive Label (T : Type) where
  | insert (data : T)
  | producer
  | consumer

variable {maxSize : Nat} {T : Type} {overwriteOldest : Bool} {s t : Threads maxSize T}
  {l : Label T} {labels : List (Label T)}

namespace Threads

/-- The next load, cell access or store of the `insert` under way. -/
def producerStep (overwriteOldest : Bool) (s : Threads maxSize T) : Option (Threads maxSize T) :=
  match s.producer with
  | .idle => none
  | .loadTail data head =>
    if s.ring.tail = next head then
      if overwriteOldest then some { s with producer := .loadTailAgain data (next head) }
      else some { s with producer := .idle }
    else some { s with producer := .write data (next head) }
  | .loadTailAgain data nx => some { s with producer := .storeTail data nx (next s.ring.tail) }
  | .storeTail data nx newTail =>
    some { s with ring := s.ring.storeTail newTail, producer := .write data nx }
  | .write data nx =>
    some { s with ring := s.ring.write nx data, producer := .storeHead data nx }
  | .storeHead data nx =>
    some { s with
      ring := s.ring.storeHead nx, producer := .idle, accepted := s.accepted ++ [data] }

/-- The next load, cell access or store of the `remove` under way, or the first of a new one. -/
def consumerStep (s : Threads maxSize T) : Threads maxSize T :=
  match s.consumer with
  | .idle => { s with consumer := .loadTail s.ring.head }
  | .loadTail head =>
    if head = s.ring.tail then { s with consumer := .idle }
    else { s with consumer := .read s.ring.tail }
  | .read tail => { s with consumer := .storeTail tail s.ring.buffer[next tail] }
  | .storeTail tail value =>
    { s with
      ring := s.ring.storeTail (next tail), consumer := .idle, obtained := s.obtained ++ [value] }

def step (overwriteOldest : Bool) (s : Threads maxSize T) : Label T → Option (Threads maxSize T)
  | .insert data =>
    match s.producer with
    | .idle => some { s with producer := .loadTail data s.ring.head }
    | _ => none
  | .producer => s.producerStep overwriteOldest
  | .consumer => some s.consumerStep

def init [Inhabited T] : Threads maxSize T := { ring := .init }

/-- An item that an insert has retired from under a `remove` that will still return it. -/
def taken (s : Threads maxSize T) : List T :=
  match s.consumer with
  | .read tail => if s.ring.tail = tail then [] else [s.ring.buffer[next tail]]
  | .storeTail tail value => if s.ring.tail = tail then [] else [value]
  | _ => []

/-- The threads have used the buffer as a queue of at most `maxSize` items. -/
structure Fifo (overwriteOldest : Bool) (s : Threads maxSize T) : Prop where
  size : ∀ head tail, { s.ring with head := head, tail := tail }.size ≤ maxSize
  obtained : s.obtained.Sublist s.accepted
  rejecting : overwriteOldest = false → s.accepted = s.obtained ++ s.ring.contents
  lost : ∃ es, QueueHistory maxSize es s.ring.contents ∧ insertedItems es = s.accepted ∧
    removedItems es = s.obtained ++ s.taken

/-- The two threads do not move the tail against each other in this step. -/
def Undisturbed (s : Threads maxSize T) : Label T → Prop
  | .insert _ => True
  | .producer =>
    match s.producer, s.consumer with
    -- Nothing is retired a second time under one `remove`.
    | .storeTail _ _ newTail, .read tail => newTail ≠ s.ring.tail → s.ring.tail = tail
    | .storeTail _ _ newTail, .storeTail tail _ => newTail ≠ s.ring.tail → s.ring.tail = tail
    | _, _ => True
  | .consumer =>
    match s.consumer, s.producer with
    -- With one usable cell, the oldest item may be retired and the new one not yet published.
    | .read tail, _ => maxSize = 1 → s.ring.tail = tail → s.ring.head ≠ tail
    -- An insert into a full buffer retires the item that it found to be the oldest.
    | .storeTail tail _, .loadTailAgain _ _ => s.ring.tail ≠ tail
    | .storeTail tail _, .storeTail _ _ newTail => s.ring.tail = tail → newTail ≠ tail
    | _, _ => True

instance (s : Threads maxSize T) (l : Label T) : Decidable (s.Undisturbed l) := by
  unfold Undisturbed
  cases l <;> dsimp only <;> (try split) <;> infer_instance

/-- What the producer's local variables say of the buffer. -/
def ProducerSound (overwriteOldest : Bool) (s : Threads maxSize T) : Prop :=
  match s.producer with
  | .idle => True
  | .loadTail _ head => head = s.ring.head
  | .loadTailAgain _ nx => overwriteOldest ∧ nx = next s.ring.head ∧ s.ring.tail = nx
  | .storeTail _ nx newTail => overwriteOldest ∧ nx = next s.ring.head ∧
      (s.ring.tail = nx ∧ newTail = next s.ring.tail ∨ s.ring.tail ≠ nx ∧ newTail = s.ring.tail)
  | .write _ nx => nx = next s.ring.head ∧ s.ring.tail ≠ nx
  | .storeHead data nx =>
    nx = next s.ring.head ∧ s.ring.tail ≠ nx ∧ s.ring.buffer.get nx = data

/-- What the consumer's local variables say of the buffer. -/
def ConsumerSound (overwriteOldest : Bool) (s : Threads maxSize T) : Prop :=
  match s.consumer with
  | .idle => True
  | .loadTail head => head = s.ring.head ∨ s.ring.head ≠ s.ring.tail ∨
      overwriteOldest ∧ maxSize = 1
  | .read tail =>
    s.ring.tail = tail ∧ (s.ring.head ≠ s.ring.tail ∨ overwriteOldest ∧ maxSize = 1) ∨
      overwriteOldest ∧ s.ring.tail = next tail
  | .storeTail tail value =>
    s.ring.tail = tail ∧ s.ring.head ≠ s.ring.tail ∧ value = s.ring.buffer[next tail] ∨
      overwriteOldest ∧ s.ring.tail = next tail

/-- The history of the queue that the buffer implements. -/
def Accounted (overwriteOldest : Bool) (s : Threads maxSize T) : Prop :=
  ∃ es, QueueHistory maxSize es s.ring.contents ∧ insertedItems es = s.accepted ∧
    removedItems es = s.obtained ++ s.taken ∧ (overwriteOldest = false → .retired ∉ es)

structure Sound (overwriteOldest : Bool) (s : Threads maxSize T) : Prop where
  producer : s.ProducerSound overwriteOldest
  consumer : s.ConsumerSound overwriteOldest
  accounted : s.Accounted overwriteOldest

/-- A step that neither inserts nor removes an item. -/
theorem Accounted.same (h : s.Accounted overwriteOldest) (hc : t.ring.contents = s.ring.contents)
    (ha : t.accepted = s.accepted) (ho : t.obtained ++ t.taken = s.obtained ++ s.taken) :
    t.Accounted overwriteOldest := by
  obtain ⟨es, hq, hi, hr, hn⟩ := h
  exact ⟨es, hc ▸ hq, hi.trans ha.symm, hr.trans ho.symm, hn⟩

/-- A step that is one event of the queue. -/
theorem Accounted.event (h : s.Accounted overwriteOldest) (e : QueueEvent T)
    (hs : QueueStep maxSize s.ring.contents e t.ring.contents)
    (ha : t.accepted = s.accepted ++ insertedItems [e])
    (ho : t.obtained ++ t.taken = s.obtained ++ s.taken ++ removedItems [e])
    (he : overwriteOldest = false → e ≠ .retired) : t.Accounted overwriteOldest := by
  obtain ⟨es, hq, hi, hr, hn⟩ := h
  refine ⟨es ++ [e], hq.snoc hs, ?_, ?_, ?_⟩
  · rw [ha, ← hi]
    exact List.filterMap_append ..
  · rw [ho, ← hr]
    exact List.filterMap_append ..
  · intro hw hmem
    rcases List.mem_append.mp hmem with hmem | hmem
    · exact hn hw hmem
    · exact he hw (List.mem_singleton.mp hmem).symm

/-- The oldest item leaves a full buffer, to the `remove` that has loaded the same tail if one is
under way. -/
theorem retire_sound (hm : 0 < maxSize) (h : s.Sound true) (hf : s.ring.tail = next s.ring.head)
    (hr : t.ring = s.ring.storeTail (next s.ring.tail)) (hc : t.consumer = s.consumer)
    (ha : t.accepted = s.accepted) (ho : t.obtained = s.obtained)
    (hread : ∀ tail, s.consumer = .read tail → s.ring.tail = tail)
    (hstore : ∀ tail value, s.consumer = .storeTail tail value → s.ring.tail = tail) :
    t.ConsumerSound true ∧ t.Accounted true := by
  have hne : s.ring.head ≠ s.ring.tail := by
    rw [hf]
    exact (next_ne hm).symm
  have hcons : s.ring.contents = s.ring.buffer[next s.ring.tail] :: t.ring.contents := by
    rw [hr]
    exact RingBuffer.contents_cons hne
  have hlen : (s.ring.buffer[next s.ring.tail] :: t.ring.contents).length = maxSize := by
    rw [← hcons, RingBuffer.length_contents]
    exact RingBuffer.size_eq_maxSize.mpr hf
  have hretired : QueueStep maxSize s.ring.contents .retired t.ring.contents := by
    rw [hcons]
    exact .retire hlen
  have hremoved : QueueStep maxSize s.ring.contents (.removed s.ring.buffer[next s.ring.tail])
      t.ring.contents := by
    rw [hcons]
    exact .remove
  have hcsound := h.consumer
  unfold ConsumerSound at hcsound ⊢
  cases hs : s.consumer with
  | idle =>
    rw [hc, hs]
    refine ⟨trivial, h.accounted.event .retired hretired ?_ ?_ fun h => by cases h⟩
    · simp [ha, insertedItems]
    · simp [ho, taken, hc, hs, removedItems]
  | loadTail head =>
    rw [hc, hs]
    refine ⟨.inr ?_, h.accounted.event .retired hretired ?_ ?_ fun h => by cases h⟩
    · by_cases hone : maxSize = 1
      · exact .inr ⟨rfl, hone⟩
      · left
        rw [hr, RingBuffer.storeTail_head, RingBuffer.storeTail_tail, hf]
        exact (iterate_ne (k := 2) (by omega) (by omega)).symm
    · simp [ha, insertedItems]
    · simp [ho, taken, hc, hs, removedItems]
  | read tail =>
    obtain rfl := hread tail hs
    rw [hc, hs]
    refine ⟨.inr ⟨rfl, by rw [hr]; rfl⟩, h.accounted.event _ hremoved ?_ ?_ fun h => by cases h⟩
    · simp [ha, insertedItems]
    · simp [ho, taken, hc, hs, hr, removedItems, next_ne hm]
  | storeTail tail value =>
    obtain rfl := hstore tail value hs
    rw [hs] at hcsound
    have hv : value = s.ring.buffer[next s.ring.tail] := by
      rcases hcsound with ⟨_, _, hv⟩ | ⟨_, hn⟩
      · exact hv
      · exact absurd hn.symm (next_ne hm)
    rw [hc, hs]
    refine ⟨.inr ⟨rfl, by rw [hr]; rfl⟩, h.accounted.event _ hremoved ?_ ?_ fun h => by cases h⟩
    · simp [ha, insertedItems]
    · simp [ho, taken, hc, hs, hr, hv, removedItems, next_ne hm]

/-- Before its head is published, the item written to the cell after it is not seen. -/
theorem write_sound (h : s.Sound overwriteOldest) {data : T}
    (hf : s.ring.tail ≠ next s.ring.head)
    (hr : t.ring = s.ring.write (next s.ring.head) data) (hc : t.consumer = s.consumer)
    (ha : t.accepted = s.accepted) (ho : t.obtained = s.obtained) :
    t.ConsumerSound overwriteOldest ∧ t.Accounted overwriteOldest := by
  have hcontents : t.ring.contents = s.ring.contents := by
    rw [hr]
    exact RingBuffer.contents_write
  have hcsound := h.consumer
  unfold ConsumerSound at hcsound ⊢
  constructor
  · cases hs : s.consumer with
    | storeTail tail value =>
      rw [hs] at hcsound
      rw [hc, hs, hr]
      rcases hcsound with ⟨rfl, hne, hv⟩ | hn
      · refine .inl ⟨rfl, hne, ?_⟩
        rw [hv, RingBuffer.write_ne fun he => hne (next_injective he)]
      · exact .inr hn
    | _ =>
      rw [hs] at hcsound
      rw [hc, hs, hr]
      exact hcsound
  · apply h.accounted.same hcontents ha
    rw [ho]
    congr 1
    cases hs : s.consumer with
    | read tail =>
      rw [hs] at hcsound
      simp only [taken, hc, hs, hr, RingBuffer.write_tail]
      rcases hcsound with ⟨hn, _⟩ | ⟨_, hn⟩
      · rw [if_pos hn, if_pos hn]
      · rw [RingBuffer.write_ne fun he => hf (hn.trans he.symm)]
    | _ => simp only [taken, hc, hs, hr, RingBuffer.write_tail]

/-- A published item is the newest one. -/
theorem publish_sound (h : s.Sound overwriteOldest) {data : T}
    (hf : s.ring.tail ≠ next s.ring.head) (hd : s.ring.buffer[next s.ring.head] = data)
    (hr : t.ring = s.ring.storeHead (next s.ring.head)) (hc : t.consumer = s.consumer)
    (ha : t.accepted = s.accepted ++ [data]) (ho : t.obtained = s.obtained) :
    t.ConsumerSound overwriteOldest ∧ t.Accounted overwriteOldest := by
  have hlen : s.ring.contents.length < maxSize := by
    rw [RingBuffer.length_contents]
    exact lt_of_le_of_ne RingBuffer.size_le fun he => hf (RingBuffer.size_eq_maxSize.mp he)
  have hcontents : t.ring.contents = s.ring.contents ++ [data] := by
    rw [hr, RingBuffer.contents_storeHead hf, hd]
  have hcsound := h.consumer
  unfold ConsumerSound at hcsound ⊢
  constructor
  · cases hs : s.consumer with
    | idle => rw [hc, hs]; trivial
    | loadTail head =>
      rw [hc, hs, hr]
      exact .inr (.inl hf.symm)
    | read tail =>
      rw [hs] at hcsound
      rw [hc, hs, hr]
      rcases hcsound with ⟨ht, _⟩ | hn
      · exact .inl ⟨ht, .inl hf.symm⟩
      · exact .inr hn
    | storeTail tail value =>
      rw [hs] at hcsound
      rw [hc, hs, hr]
      rcases hcsound with ⟨ht, _, hv⟩ | hn
      · exact .inl ⟨ht, hf.symm, hv⟩
      · exact .inr hn
  · refine h.accounted.event (.inserted data) ?_ ha ?_ fun _ => nofun
    · rw [hcontents]
      exact .insert hlen
    · simp [ho, taken, hc, hr, removedItems]

theorem producer_sound (hm : 0 < maxSize) (h : s.Sound overwriteOldest)
    (hu : overwriteOldest = true → s.Undisturbed .producer)
    (hs : s.producerStep overwriteOldest = some t) : t.Sound overwriteOldest := by
  have hp := h.producer
  unfold ProducerSound at hp
  unfold producerStep at hs
  cases hpc : s.producer with
  | idle =>
    rw [hpc] at hs
    cases hs
  | loadTail data head =>
    rw [hpc] at hs hp
    subst hp
    dsimp only at hs
    split_ifs at hs with hf hw <;> cases hs
    · exact ⟨⟨hw, rfl, hf⟩, h.consumer, h.accounted⟩
    · exact ⟨trivial, h.consumer, h.accounted⟩
    · exact ⟨⟨rfl, hf⟩, h.consumer, h.accounted⟩
  | loadTailAgain data nx =>
    rw [hpc] at hs hp
    cases hs
    obtain ⟨hw, rfl, hf⟩ := hp
    exact ⟨⟨hw, rfl, .inl ⟨hf, rfl⟩⟩, h.consumer, h.accounted⟩
  | storeTail data nx newTail =>
    rw [hpc] at hs hp
    cases hs
    obtain ⟨rfl, rfl, ⟨hf, rfl⟩ | ⟨hf, rfl⟩⟩ := hp
    · have hu := hu rfl
      unfold Undisturbed at hu
      rw [hpc] at hu
      have hne : next s.ring.tail ≠ s.ring.tail := next_ne hm
      obtain ⟨hc, ha⟩ := retire_sound
        (t := { s with
          ring := s.ring.storeTail (next s.ring.tail), producer := .write data (next s.ring.head) })
        hm h hf rfl rfl rfl rfl
        (by
          intro tail hs
          rw [hs] at hu
          exact hu hne)
        (by
          intro tail value hs
          rw [hs] at hu
          exact hu hne)
      refine ⟨⟨rfl, ?_⟩, hc, ha⟩
      intro he
      exact next_ne hm ((next_injective he).symm.trans hf).symm
    · exact ⟨⟨rfl, hf⟩, h.consumer, h.accounted⟩
  | write data nx =>
    rw [hpc] at hs hp
    cases hs
    obtain ⟨rfl, hf⟩ := hp
    obtain ⟨hc, ha⟩ := write_sound (t := { s with
      ring := s.ring.write (next s.ring.head) data
      producer := .storeHead data (next s.ring.head) }) h hf rfl rfl rfl rfl
    exact ⟨⟨rfl, hf, RingBuffer.write_same⟩, hc, ha⟩
  | storeHead data nx =>
    rw [hpc] at hs hp
    cases hs
    obtain ⟨rfl, hf, hd⟩ := hp
    obtain ⟨hc, ha⟩ := publish_sound (t := { s with
      ring := s.ring.storeHead (next s.ring.head), producer := .idle
      accepted := s.accepted ++ [data] }) h hf hd rfl rfl rfl rfl
    exact ⟨trivial, hc, ha⟩

/-- The tail moves past the oldest item, which the producer takes for a free cell at most. -/
theorem remove_producer_sound (h : s.ProducerSound overwriteOldest)
    (hne : s.ring.head ≠ s.ring.tail) {value : T}
    (hc : s.consumer = .storeTail s.ring.tail value)
    (hu : overwriteOldest = true → s.Undisturbed .consumer)
    (hr : t.ring = s.ring.storeTail (next s.ring.tail)) (hp : t.producer = s.producer) :
    t.ProducerSound overwriteOldest := by
  have hfree : next s.ring.tail ≠ next s.ring.head := fun he => hne (next_injective he).symm
  unfold Undisturbed at hu
  unfold ProducerSound at h ⊢
  cases hpc : s.producer with
  | loadTailAgain data nx =>
    rw [hpc] at h
    have hu := hu h.1
    rw [hc, hpc] at hu
    exact absurd rfl hu
  | storeTail data nx newTail =>
    rw [hpc] at h
    obtain ⟨hw, rfl, ⟨hf, rfl⟩ | ⟨hf, rfl⟩⟩ := h
    · rw [hp, hpc, hr]
      exact ⟨hw, rfl, .inr ⟨hfree, rfl⟩⟩
    · have hu := hu hw
      rw [hc, hpc] at hu
      exact absurd rfl (hu rfl)
  | write data nx =>
    rw [hpc] at h
    obtain ⟨rfl, hf⟩ := h
    rw [hp, hpc, hr]
    exact ⟨rfl, hfree⟩
  | storeHead data nx =>
    rw [hpc] at h
    obtain ⟨rfl, hf, hd⟩ := h
    rw [hp, hpc, hr]
    exact ⟨rfl, hfree, hd⟩
  | _ =>
    rw [hpc] at h
    rw [hp, hpc, hr]
    exact h

theorem consumer_sound (hm : 0 < maxSize) (h : s.Sound overwriteOldest)
    (hu : overwriteOldest = true → s.Undisturbed .consumer) :
    s.consumerStep.Sound overwriteOldest := by
  have hp := h.producer
  have hc := h.consumer
  have ha := h.accounted
  unfold ConsumerSound at hc
  unfold consumerStep
  cases hs : s.consumer with
  | idle => exact ⟨hp, .inl rfl, ha.same rfl rfl (by simp [taken, hs])⟩
  | loadTail head =>
    rw [hs] at hc
    dsimp only
    split_ifs with he
    · exact ⟨hp, trivial, ha.same rfl rfl (by simp [taken, hs])⟩
    · refine ⟨hp, .inl ⟨rfl, ?_⟩, ha.same rfl rfl (by simp [taken, hs])⟩
      rcases hc with rfl | hc | hc
      · exact .inl he
      · exact .inl hc
      · exact .inr hc
  | read tail =>
    rw [hs] at hc
    refine ⟨hp, ?_, ha.same rfl rfl (by simp [taken, hs])⟩
    rcases hc with ⟨rfl, hc⟩ | hn
    · refine .inl ⟨rfl, ?_, rfl⟩
      rcases hc with hne | ⟨hw, hone⟩
      · exact hne
      · have hu := hu hw
        unfold Undisturbed at hu
        rw [hs] at hu
        exact hu hone rfl
    · exact .inr hn
  | storeTail tail value =>
    rw [hs] at hc
    rcases hc with ⟨rfl, hne, rfl⟩ | ⟨hw, hn⟩
    · refine ⟨remove_producer_sound hp hne hs hu rfl rfl, trivial, ?_⟩
      have hcons := RingBuffer.contents_cons hne
      refine ha.event (.removed s.ring.buffer[next s.ring.tail]) ?_ ?_ ?_ fun _ => nofun
      · rw [hcons]
        exact .remove
      · simp [insertedItems]
      · simp [taken, hs, removedItems]
    · have hring : s.ring.storeTail (next tail) = s.ring := by rw [← hn]; rfl
      have htail : s.ring.tail ≠ tail := by
        rw [hn]
        exact next_ne hm
      dsimp only
      rw [hring]
      exact ⟨hp, trivial, ha.same rfl rfl (by simp [taken, hs, htail])⟩

/-- A step of either thread. -/
theorem step_sound (hm : 0 < maxSize) (h : s.Sound overwriteOldest)
    (hu : overwriteOldest = true → s.Undisturbed l) (hs : s.step overwriteOldest l = some t) :
    t.Sound overwriteOldest := by
  cases l with
  | insert data =>
    unfold step at hs
    dsimp only at hs
    split at hs <;> cases hs
    exact ⟨rfl, h.consumer, h.accounted⟩
  | producer => exact producer_sound hm h hu hs
  | consumer =>
    cases hs
    exact consumer_sound hm h hu

theorem Sound.fifo (h : s.Sound overwriteOldest) : s.Fifo overwriteOldest := by
  obtain ⟨es, hq, hi, hr, hn⟩ := h.accounted
  refine ⟨fun _ _ => RingBuffer.size_le, ?_, ?_, es, hq, hi, hr⟩
  · have hsub := hq.removed_sublist
    rw [hi, hr] at hsub
    exact (List.sublist_append_left ..).trans hsub
  · intro hw
    have heq := hq.inserted_eq (hn hw)
    rw [hi, hr] at heq
    have hnone : s.taken = [] := by
      have hc := h.consumer
      unfold ConsumerSound at hc
      unfold taken
      cases hs : s.consumer with
      | read tail =>
        rw [hs] at hc
        rcases hc with ⟨ht, _⟩ | ⟨hw', _⟩
        · exact if_pos ht
        · exact absurd (hw.symm.trans hw') Bool.false_ne_true
      | storeTail tail value =>
        rw [hs] at hc
        rcases hc with ⟨ht, _⟩ | ⟨hw', _⟩
        · exact if_pos ht
        · exact absurd (hw.symm.trans hw') Bool.false_ne_true
      | _ => rfl
    rw [heq, hnone, List.append_nil]

/-- A buffer that no thread uses yet holds what has been inserted into it. -/
theorem handed_sound (b : RingBuffer maxSize T) :
    ({ ring := b, accepted := b.contents } : Threads maxSize T).Sound overwriteOldest := by
  obtain ⟨es, hq, hi, hr, hn⟩ := QueueHistory.of_length_le (q := b.contents) (n := maxSize) <| by
    rw [RingBuffer.length_contents]
    exact RingBuffer.size_le
  exact ⟨trivial, trivial, es, hq, hi, hr, fun _ => hn⟩

theorem init_sound [Inhabited T] : (init : Threads maxSize T).Sound overwriteOldest := by
  refine ⟨trivial, trivial, [], ?_, rfl, rfl, fun _ => nofun⟩
  have hc : (init : Threads maxSize T).ring.contents = [] := RingBuffer.contents_init
  rw [hc]
  exact .nil

/-- An insert that no remove interrupts is `RingBuffer.insert`. -/
theorem insert_alone (s : Threads maxSize T) (data : T) (h : s.producer = .idle) :
    ∃ n, (.insert data :: List.replicate n .producer).foldlM (step overwriteOldest) s = some
      { s with
        ring := (s.ring.insert overwriteOldest data).2
        accepted := if (s.ring.insert overwriteOldest data).1 then s.accepted ++ [data]
          else s.accepted } := by
  unfold RingBuffer.insert
  by_cases hf : s.ring.tail = next s.ring.head
  · cases overwriteOldest with
    | false => exact ⟨1, by simp [step, producerStep, h, hf, List.replicate]⟩
    | true => exact ⟨5, by simp [step, producerStep, h, hf, List.replicate]⟩
  · exact ⟨3, by simp [step, producerStep, h, hf, List.replicate]⟩

/-- A remove that no insert interrupts is `RingBuffer.remove`. -/
theorem remove_alone (s : Threads maxSize T) (h : s.consumer = .idle) :
    ∃ n, (List.replicate n .consumer).foldlM (step overwriteOldest) s = some
      { s with
        ring := s.ring.remove.2
        obtained := s.obtained ++ s.ring.remove.1.toList } := by
  unfold RingBuffer.remove
  by_cases he : s.ring.head = s.ring.tail
  · exact ⟨2, by simp [step, consumerStep, h, he, List.replicate]⟩
  · exact ⟨4, by simp [step, consumerStep, h, he, List.replicate]⟩

end Threads

/-- Threads that do not move the tail against each other use the buffer as a queue. -/
theorem threads_fifo [Inhabited T] {maxSize : Nat} (hm : 0 < maxSize) (overwriteOldest : Bool)
    {labels : List (Label T)} {s : Threads maxSize T}
    (hr : Run (· = Threads.init) (fun _ s l t => s.step overwriteOldest l = some t ∧
      (overwriteOldest = true → s.Undisturbed l)) labels s) :
    s.Fifo overwriteOldest := by
  apply Threads.Sound.fifo
  apply hr.invariant (I := fun _ s => s.Sound overwriteOldest)
  · rintro _ rfl
    exact Threads.init_sound
  · rintro _ s l t h ⟨hs, hu⟩
    exact Threads.step_sound hm h hu hs

/-- Two items fill the buffer. While a `remove` holds the older one, an insert retires it. -/
def overwritingInsert : List (Label Nat) :=
  .insert 1 :: List.replicate 3 .producer ++ .insert 2 :: List.replicate 3 .producer ++
    List.replicate 2 .consumer ++ .insert 3 :: List.replicate 5 .producer ++
      List.replicate 6 .consumer ++ .insert 4 :: List.replicate 3 .producer

theorem threads_fifo_overwriting : ∃ s : Threads 2 Nat,
    s.accepted = [1, 2, 3, 4] ∧ s.obtained = [1, 2] ∧ s.Fifo true := by
  have hrun : Run (· = Threads.init) (fun _ (s : Threads 2 Nat) l t =>
      (if s.Undisturbed l then s.step true l else none) = some t) overwritingInsert _ :=
    Run.of_foldlM rfl rfl
  refine ⟨_, rfl, rfl, threads_fifo (by decide) true (hrun.mono (fun _ h => h) ?_)⟩
  intro _ s l t hs
  split_ifs at hs with hu
  exact ⟨hs, fun _ => hu⟩

/-- Two items are removed while an insert into the full buffer moves the tail past the first. -/
def overtakenInsert : List (Label Nat) :=
  .insert 1 :: List.replicate 3 .producer ++ .insert 2 :: List.replicate 3 .producer ++
    .insert 3 :: List.replicate 2 .producer ++ List.replicate 8 .consumer ++
      List.replicate 3 .producer ++ List.replicate 4 .consumer

/-- The second item is then obtained twice. -/
theorem overtaken_insert_repeats : ∃ s : Threads 2 Nat,
    Run (· = Threads.init) (fun _ s l t => s.step true l = some t) overtakenInsert s ∧
      s.accepted = [1, 2, 3] ∧ s.obtained = [1, 2, 2] ∧ ¬ s.Fifo true := by
  refine ⟨_, Run.of_foldlM rfl rfl, rfl, rfl, fun h => ?_⟩
  have hsub : [1, 2, 2].Sublist [1, 2, 3] := h.obtained
  exact absurd hsub (by decide)

end Zlibs.Misc
