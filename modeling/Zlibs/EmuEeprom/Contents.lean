import Zlibs.EmuEeprom.Working

/-! The logical map of a working store, and how each step carries it along. -/
namespace Zlibs.EmuEeprom

open Zlibs.Lib

variable {g : Geometry} {K : Logs → Prop} {L : Logs} {s t : State} {S T b c : List Entry}
  {A p q : Page} {e : Entry} {a : Nat} {r : Ram}

/-- Logical contents: the value of each address that has one. -/
abbrev Contents := Nat → Option UInt16

def Contents.set (m : Contents) (address : Nat) (value : UInt16) : Contents :=
  fun a => if a = address then some value else m a

variable {m : Contents}

/-- The members and the log `S` hold the contents `m`; the log lags behind while the mirror is
dirty. -/
structure Represents (g : Geometry) (m : Contents) (r : Ram) (S : List Entry) : Prop where
  cached : ∀ a < g.maxAddress, ∀ v, m a = some v → v ≠ erasedValue ∧ r.cache a = v
  absent : ∀ a < g.maxAddress, m a = none → r.cache a = erasedValue ∧ lookup S a = none
  logged : r.cacheDirty = false → ∀ a < g.maxAddress, lookup S a = m a

theorem Represents.exposed {L : Logs} (h : Represents g m s.ram (L A ++ b))
    (ha : a < g.maxAddress) : exposed s L A a = m a := by
  rw [EmuEeprom.exposed]
  cases hm : m a with
  | some v =>
    obtain ⟨hv, hc⟩ := h.cached a ha v hm
    rw [if_pos (hc ▸ hv), hc]
  | none =>
    obtain ⟨hc, hl⟩ := h.absent a ha hm
    rw [if_neg (fun hn => hn hc)]
    rw [lookup_append] at hl
    exact (Option.or_eq_none_iff.mp hl).2

theorem Represents.congr {r' : Ram} (h : Represents g m r S) (hc : r'.cache = r.cache)
    (hd : r'.cacheDirty = r.cacheDirty) (hl : live T = live S) : Represents g m r' T where
  cached := fun a ha v hv => hc ▸ h.cached a ha v hv
  absent := fun a ha hn => by
    rw [hc, lookup_congr hl]
    exact h.absent a ha hn
  logged := fun hf a ha => by
    rw [lookup_congr hl]
    exact h.logged (hd ▸ hf) a ha

/-- A read remembers only what is in the mirror already. -/
theorem Represents.remember (h : Represents g m s.ram (L A ++ b)) (ha : a < g.maxAddress) :
    s.ram.remember a (EmuEeprom.exposed s L A a) = s.ram := by
  rw [h.exposed ha]
  cases hm : m a with
  | none => rfl
  | some v =>
    obtain ⟨_, hc⟩ := h.cached a ha v hm
    have hself : (fun x => if x = a then v else s.ram.cache x) = s.ram.cache := by
      funext x
      by_cases hx : x = a
      · rw [if_pos hx, hx, hc]
      · rw [if_neg hx]
    rw [Ram.remember, Ram.setCache, hself]

theorem valueOf_user (he : e.address ≠ reservedStatusAddress) :
    valueOf a e = if a = e.address.toNat then some e.value else none := by
  rw [valueOf]
  by_cases h : a = e.address.toNat
  · rw [if_pos ⟨he, h.symm⟩, if_pos h]
  · rw [if_neg (fun hc => h hc.2.symm), if_neg h]

theorem lookup_append_user (he : e.address ≠ reservedStatusAddress) :
    lookup (S ++ [e]) a = if a = e.address.toNat then some e.value else lookup S a := by
  rw [lookup_concat, valueOf_user he]
  split <;> simp

/-- An entry accepted at the end of the log. -/
theorem Represents.append {r' : Ram} (h : Represents g m r S)
    (he : e.address ≠ reservedStatusAddress) (hv : e.value ≠ erasedValue)
    (hc : r'.cache = (r.setCache e.address.toNat e.value).cache)
    (hd : r'.cacheDirty = r.cacheDirty) (hl : live T = live S ++ [e]) :
    Represents g (m.set e.address.toNat e.value) r' T := by
  have hlook : ∀ a, lookup T a = if a = e.address.toNat then some e.value else lookup S a := by
    intro a
    rw [← lookup_append_user he]
    apply lookup_congr
    rw [hl, live_append, live_singleton (user_ne_erased he)]
  have hcache : ∀ a, r'.cache a = if a = e.address.toNat then e.value else r.cache a := by
    intro a
    rw [hc]
    rfl
  refine ⟨fun a ha v hm => ?_, fun a ha hm => ?_, fun hf a ha => ?_⟩
  · rw [hcache]
    by_cases hx : a = e.address.toNat
    · rw [Contents.set, if_pos hx, Option.some_inj] at hm
      rw [if_pos hx, ← hm]
      exact ⟨hv, rfl⟩
    · rw [Contents.set, if_neg hx] at hm
      rw [if_neg hx]
      exact h.cached a ha v hm
  · by_cases hx : a = e.address.toNat
    · rw [Contents.set, if_pos hx] at hm
      cases hm
    · rw [Contents.set, if_neg hx] at hm
      rw [hcache, hlook, if_neg hx, if_neg hx]
      exact h.absent a ha hm
  · rw [hlook, Contents.set]
    split
    · rfl
    · exact h.logged (hd ▸ hf) a ha

/-- An entry that only goes into the mirror. -/
theorem Represents.cacheOnly (h : Represents g m r S) (hv : e.value ≠ erasedValue) :
    Represents g (m.set e.address.toNat e.value)
      { r.setCache e.address.toNat e.value with cacheDirty := true } S := by
  refine ⟨fun a ha v hm => ?_, fun a ha hm => ?_, fun hf => by cases hf⟩
  · show v ≠ erasedValue ∧ (if a = e.address.toNat then e.value else r.cache a) = v
    by_cases hx : a = e.address.toNat
    · rw [Contents.set, if_pos hx, Option.some_inj] at hm
      rw [if_pos hx, ← hm]
      exact ⟨hv, rfl⟩
    · rw [Contents.set, if_neg hx] at hm
      rw [if_neg hx]
      exact h.cached a ha v hm
  · show (if a = e.address.toNat then e.value else r.cache a) = _ ∧ _
    by_cases hx : a = e.address.toNat
    · rw [Contents.set, if_pos hx] at hm
      cases hm
    · rw [Contents.set, if_neg hx] at hm
      rw [if_neg hx]
      exact h.absent a ha hm

theorem copied_range_succ (mirror : Nat → UInt16) (n : Nat) :
    copied mirror (List.range (n + 1)) = copied mirror (List.range n) ++
      if mirror n ≠ erasedValue then [makeEntry (UInt16.ofNat n) (mirror n)] else [] := by
  rw [copied, List.range_succ, List.filter_append, List.map_append, copied]
  by_cases h : mirror n = erasedValue <;> simp [h]

theorem user_address {n : Nat} (hn : n < 0xFFFF) : (UInt16.ofNat n).toNat = n ∧
    UInt16.ofNat n ≠ reservedStatusAddress := by
  have hto : (UInt16.ofNat n).toNat = n := UInt16.toNat_ofNat_of_lt' (by
    show n < 65536
    omega)
  refine ⟨hto, fun hr => ?_⟩
  rw [hr] at hto
  have : reservedStatusAddress.toNat = 0xFFFF := rfl
  omega

/-- The copied entries hold what the mirror holds. -/
theorem lookup_copied (mirror : Nat → UInt16) {n : Nat} (hn : n ≤ 0xFFFF) :
    lookup (copied mirror (List.range n)) a =
      if a < n ∧ mirror a ≠ erasedValue then some (mirror a) else none := by
  induction n with
  | zero => rw [if_neg (fun h => Nat.not_lt_zero _ h.1)]; rfl
  | succ n ih =>
    have ih := ih (by omega)
    obtain ⟨hto, hne⟩ := user_address (n := n) (by omega)
    rw [copied_range_succ]
    by_cases hm : mirror n = erasedValue
    · rw [if_neg (fun h => h hm), List.append_nil, ih]
      by_cases ha : a = n
      · subst ha
        rw [if_neg (fun h => h.2 hm), if_neg (fun h => h.2 hm)]
      · congr 1
        simp only [eq_iff_iff]
        refine and_congr_left fun _ => ?_
        omega
    · rw [if_pos hm, lookup_append_user (e := makeEntry (UInt16.ofNat n) (mirror n)) hne, ih]
      show (if a = (UInt16.ofNat n).toNat then some (mirror n) else _) = _
      rw [hto]
      by_cases ha : a = n
      · subst ha
        rw [if_pos rfl, if_pos ⟨by omega, hm⟩]
      · rw [if_neg ha]
        congr 1
        simp only [eq_iff_iff]
        refine and_congr_left fun _ => ?_
        omega

theorem lookup_statusBlock {x : PageStatus} : lookup (pad g [statusEntry x]) a = none := by
  rw [lookup_pad]
  simp [lookup]

theorem live_live : live (live S) = live S := by
  rw [live, live, List.filter_filter]
  simp

/-- The values a copy behind `S` holds. -/
theorem Transferred.lookup {mirror : Nat → UInt16}
    (h : Transferred g S (copied mirror (List.range g.maxAddress)) T) (ha : a < g.maxAddress) :
    lookup (T ++ pad g [statusEntry .valid]) a =
      if mirror a ≠ erasedValue then some (mirror a) else EmuEeprom.lookup S a := by
  have hmax := g.maxAddress_le
  have hcopied : live (copied mirror (List.range g.maxAddress)) =
      copied mirror (List.range g.maxAddress) := by
    apply List.filter_eq_self.mpr
    intro e he
    obtain ⟨n, hn, rfl⟩ := List.mem_map.mp he
    have hn := List.mem_range.mp (List.mem_filter.mp hn).1
    exact decide_eq_true (user_ne_erased (user_address (by omega)).2)
  have hT : live T = live (S ++ copied mirror (List.range g.maxAddress)) := by
    rw [h.content, live_append, hcopied]
  rw [lookup_append_statusEntry, lookup_congr hT, lookup_append, lookup_copied mirror hmax]
  by_cases hm : mirror a = erasedValue
  · rw [if_neg (fun h => h.2 hm), if_neg (fun h => h hm), Option.none_or]
  · rw [if_pos ⟨ha, hm⟩, if_pos hm, Option.some_or]

/-- A completed transfer keeps the contents and leaves the mirror clean. -/
theorem Represents.transferred {u : Ram} (h : Represents g m r S) {R : List Entry}
    (hR : ∀ a, lookup R a = none)
    (hT : Transferred g R (copied r.cache (List.range g.maxAddress)) T)
    (hc : u.cache = mirror (T ++ pad g [statusEntry .valid])) :
    Represents g m u (T ++ pad g [statusEntry .valid]) := by
  have hlook : ∀ a < g.maxAddress, lookup (T ++ pad g [statusEntry .valid]) a = m a := by
    intro a ha
    rw [hT.lookup ha, hR]
    cases hm : m a with
    | some v =>
      obtain ⟨hv, hcache⟩ := h.cached a ha v hm
      rw [hcache, if_pos hv]
    | none => rw [if_neg (fun hn => hn (h.absent a ha hm).1)]
  have hmirror : ∀ a < g.maxAddress, u.cache a = (m a).getD erasedValue := by
    intro a ha
    rw [hc, mirror, hlook a ha]
  refine ⟨fun a ha v hm => ?_, fun a ha hm => ?_, fun _ => hlook⟩
  · rw [hmirror a ha, hm]
    exact ⟨(h.cached a ha v hm).1, rfl⟩
  · rw [hmirror a ha, hlook a ha, hm]
    exact ⟨rfl, rfl⟩

theorem represents_cleared (hr : r.cache = fun _ => erasedValue) :
    Represents g (fun _ => none) r (pad g [statusEntry .valid]) where
  cached := fun _ _ _ h => by cases h
  absent := fun a _ _ => ⟨by rw [hr], lookup_statusBlock⟩
  logged := fun _ a _ => lookup_statusBlock

/-- The mirror `cache` builds from a log represents the log, if no value in it is erased. -/
theorem represents_mirror (hr : r.cache = mirror S)
    (hv : ∀ a < g.maxAddress, lookup S a ≠ some erasedValue) :
    Represents g (lookup S) r S where
  cached := fun a ha v h => by
    refine ⟨fun he => hv a ha (he ▸ h), ?_⟩
    rw [hr, mirror, h]
    rfl
  absent := fun a _ h => by
    rw [hr, mirror, h]
    exact ⟨rfl, rfl⟩
  logged := fun _ _ _ => rfl

end Zlibs.EmuEeprom
