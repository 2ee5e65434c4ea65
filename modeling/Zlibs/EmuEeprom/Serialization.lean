import Zlibs.EmuEeprom.Internal

/-! The byte image of a list of entries, and what the byte-level operations do to it. -/
namespace Zlibs.EmuEeprom

def erasedEntry : Entry := ⟨erasedValue, erasedValue⟩

/-- Entries in consecutive slots, erased beyond the last. -/
def image (entries : List Entry) (i : Nat) : UInt8 :=
  serializeEntry (entries.getD (i / 4) erasedEntry) (i % 4)

/-- `entries` with `entry` put into slot `slot`, which becomes the last one. -/
def place (entries : List Entry) (slot : Nat) (entry : Entry) : List Entry :=
  (List.range slot).map (entries.getD · erasedEntry) ++ [entry]

variable {S b : List Entry} {e : Entry} {k n : Nat}

theorem byte_and_erased (x : UInt8) : x &&& erasedByte = x := by
  apply UInt8.toNat_inj.mp
  exact (Nat.and_two_pow_sub_one_eq_mod x.toNat 8).trans (Nat.mod_eq_of_lt x.toNat_lt)

theorem erased_and_byte (x : UInt8) : erasedByte &&& x = x := by
  rw [UInt8.and_comm, byte_and_erased]

theorem serializeValue_zero (v : UInt16) : serializeValue v 0 = v.toUInt8 := by
  simp [serializeValue, byte_and_erased]

theorem serializeValue_one (v : UInt16) : serializeValue v 1 = (v >>> 8).toUInt8 := by
  simp [serializeValue, byte_and_erased]

theorem deserializeValue_toNat (data : Nat → UInt8) :
    (deserializeValue data).toNat = (data 1).toNat * 256 + (data 0).toNat := by
  have hd : deserializeValue data = (data 0).toUInt16 ||| (data 1).toUInt16 <<< 8 := by
    simp [deserializeValue, List.range, List.range.loop]
  have h0 := (data 0).toNat_lt
  have h1 := (data 1).toNat_lt
  rw [hd]
  simp only [UInt16.toNat_or, UInt8.toNat_toUInt16, UInt16.toNat_shiftLeft]
  show (data 0).toNat ||| (data 1).toNat <<< 8 % 2 ^ 16 = _
  have hlt : (data 1).toNat <<< 8 < 2 ^ 16 := by
    rw [Nat.shiftLeft_eq]
    omega
  rw [Nat.mod_eq_of_lt hlt, Nat.or_comm, ← Nat.shiftLeft_add_eq_or_of_lt (by omega),
    Nat.shiftLeft_eq]

theorem deserializeValue_eq {v : UInt16} {data : Nat → UInt8} (h0 : data 0 = serializeValue v 0)
    (h1 : data 1 = serializeValue v 1) : deserializeValue data = v := by
  apply UInt16.toNat_inj.mp
  have hv := v.toNat_lt
  have hs : v.toNat >>> 8 = v.toNat / 256 := Nat.shiftRight_eq_div_pow _ 8
  rw [deserializeValue_toNat, h0, h1, serializeValue_zero, serializeValue_one,
    UInt16.toNat_toUInt8, UInt16.toNat_toUInt8, UInt16.toNat_shiftRight]
  show (v.toNat >>> 8) % 2 ^ 8 * 256 + v.toNat % 2 ^ 8 = v.toNat
  rw [hs]
  omega

theorem deserializeEntry_eq {d : Span} (h : ∀ i < 4, d.data i = serializeEntry e i) :
    deserializeEntry d = e := by
  have hv : deserializeValue (d.subspan serializedValueOffset 2).data = e.value := by
    apply deserializeValue_eq
    · simpa [Span.subspan, serializeEntry] using h 0 (by omega)
    · simpa [Span.subspan, serializeEntry] using h 1 (by omega)
  have ha : deserializeValue (d.subspan serializedAddressOffset 2).data = e.address := by
    apply deserializeValue_eq
    · simpa [Span.subspan, serializeEntry] using h 2 (by omega)
    · simpa [Span.subspan, serializeEntry] using h 3 (by omega)
  simp only [deserializeEntry, makeEntry, ha, hv]

theorem serializeValue_deserializeValue (data : Nat → UInt8) :
    serializeValue (deserializeValue data) 0 = data 0 ∧
      serializeValue (deserializeValue data) 1 = data 1 := by
  have hv := deserializeValue_toNat data
  have h0 := (data 0).toNat_lt
  have h1 := (data 1).toNat_lt
  rw [serializeValue_zero, serializeValue_one]
  constructor
  · apply UInt8.toNat_inj.mp
    rw [UInt16.toNat_toUInt8, hv]
    omega
  · apply UInt8.toNat_inj.mp
    rw [UInt16.toNat_toUInt8, UInt16.toNat_shiftRight, hv]
    show ((data 1).toNat * 256 + (data 0).toNat) >>> 8 % 2 ^ 8 = _
    rw [Nat.shiftRight_eq_div_pow]
    omega

/-- Any four bytes are those of an entry. -/
theorem serializeEntry_deserializeEntry {d : Span} {i : Nat} (hi : i < 4) :
    serializeEntry (deserializeEntry d) i = d.data i := by
  obtain ⟨hv0, hv1⟩ := serializeValue_deserializeValue (d.subspan serializedValueOffset 2).data
  obtain ⟨ha0, ha1⟩ := serializeValue_deserializeValue (d.subspan serializedAddressOffset 2).data
  match i, hi with
  | 0, _ => exact hv0
  | 1, _ => exact hv1
  | 2, _ => exact ha0
  | 3, _ => exact ha1

theorem serializeEntry_erased {i : Nat} (h : i < 4) :
    serializeEntry erasedEntry i = erasedByte := by
  have : ∀ i < 4, serializeEntry erasedEntry i = erasedByte := by decide
  exact this i h

theorem serializeEntry_eq_erased (h : ∀ i < 4, serializeEntry e i = erasedByte) :
    e = erasedEntry := by
  have he := deserializeEntry_eq (e := e) (d := ⟨4, serializeEntry e⟩) fun _ _ => rfl
  rw [← he]
  exact deserializeEntry_eq fun i hi => (h i hi).trans (serializeEntry_erased hi).symm

theorem image_nil : image [] = fun _ => erasedByte := by
  funext i
  simpa [image] using serializeEntry_erased (Nat.mod_lt i (by omega))

theorem image_slot (S : List Entry) (k : Nat) {i : Nat} (hi : i < 4) :
    image S (4 * k + i) = serializeEntry (S.getD k erasedEntry) i := by
  have hd : (4 * k + i) / 4 = k := by omega
  have hm : (4 * k + i) % 4 = i := by omega
  rw [image, hd, hm]

theorem image_beyond {i : Nat} (h : 4 * S.length ≤ i) : image S i = erasedByte := by
  have hk : S.length ≤ i / 4 := by omega
  rw [image, List.getD_eq_default _ _ hk, serializeEntry_erased (Nat.mod_lt i (by omega))]

/-- The first `n` entries of a page of bytes. -/
def entriesOf (data : Nat → UInt8) (n : Nat) : List Entry :=
  (List.range n).map fun k => deserializeEntry ⟨serializedEntrySize, fun i => data (4 * k + i)⟩

theorem length_entriesOf {data : Nat → UInt8} {n : Nat} : (entriesOf data n).length = n := by
  rw [entriesOf, List.length_map, List.length_range]

theorem image_entriesOf {data : Nat → UInt8} {n : Nat} (h : ∀ i, 4 * n ≤ i → data i = erasedByte) :
    image (entriesOf data n) = data := by
  funext i
  rcases Nat.lt_or_ge i (4 * n) with hlt | hge
  · have hk : i / 4 < n := by omega
    have hget : (entriesOf data n).getD (i / 4) erasedEntry =
        deserializeEntry ⟨serializedEntrySize, fun j => data (4 * (i / 4) + j)⟩ := by
      rw [entriesOf, List.getD_eq_getElem?_getD, List.getElem?_map, List.getElem?_range hk]
      rfl
    rw [image, hget, serializeEntry_deserializeEntry (Nat.mod_lt i (by omega))]
    show data (4 * (i / 4) + i % 4) = data i
    rw [Nat.div_add_mod]
  · rw [image_beyond (by rw [length_entriesOf]; exact hge), h i hge]

theorem deserializeEntry_image {d : Span} (h : ∀ i < 4, d.data i = image S (4 * k + i)) :
    deserializeEntry d = S.getD k erasedEntry :=
  deserializeEntry_eq fun i hi => (h i hi).trans (image_slot S k hi)

theorem allErased_iff {d : Span} :
    allErased d = true ↔ ∀ i < d.size, d.data i = erasedByte := by
  simp [allErased]

theorem allErased_image {d : Span} (hn : d.size = 4 * n)
    (h : ∀ i < 4 * n, d.data i = image S (4 * k + i)) :
    allErased d = true ↔ ∀ j < n, S.getD (k + j) erasedEntry = erasedEntry := by
  rw [allErased_iff, hn]
  constructor
  · intro he j hj
    apply serializeEntry_eq_erased
    intro i hi
    have hb := he (4 * j + i) (by omega)
    rw [h _ (by omega), ← Nat.add_assoc, ← Nat.mul_add, image_slot _ _ hi] at hb
    exact hb
  · intro he i hi
    have hs : 4 * k + i = 4 * (k + i / 4) + i % 4 := by omega
    rw [h i hi, hs, image_slot _ _ (Nat.mod_lt i (by omega)), he _ (by omega),
      serializeEntry_erased (Nat.mod_lt i (by omega))]

/-- Programming the first free slots of a page appends to its entries. -/
theorem program_image {flash : Flash} {page : Page} (hf : flash page = image S)
    (hb : b.length ≤ n) :
    flash.program page (4 * S.length) ⟨4 * n, image b⟩ = flash.setPage page (image (S ++ b)) := by
  unfold Flash.program
  congr 1
  funext i
  simp only [hf]
  by_cases hlo : 4 * S.length ≤ i
  · have he : image (S ++ b) i = image b (i - 4 * S.length) := by
      have hd : i / 4 = S.length + (i - 4 * S.length) / 4 := by omega
      have hm : i % 4 = (i - 4 * S.length) % 4 := by omega
      rw [image, image, hm, hd, List.getD_append_right _ _ _ _ (by omega)]
      congr 2
      omega
    rw [he, image_beyond hlo]
    by_cases hhi : i < 4 * S.length + 4 * n
    · rw [if_pos ⟨hlo, hhi⟩, erased_and_byte]
    · rw [if_neg (fun h => hhi h.2), image_beyond (by omega)]
  · rw [if_neg (fun h => hlo h.1), image, image, List.getD_append _ _ _ _ (by omega)]

theorem place_length : (place S k e).length = k + 1 := by simp [place]

theorem place_at_end : place S S.length e = S ++ [e] := by
  rw [place]
  congr 1
  apply List.ext_getElem (by simp)
  intro i h _
  simp only [List.length_map, List.length_range] at h
  simp [h]

theorem place_over {r : Entry} : place (S ++ [r]) S.length e = S ++ [e] := by
  rw [place]
  congr 1
  apply List.ext_getElem (by simp)
  intro i h _
  simp only [List.length_map, List.length_range] at h
  simp [List.getElem?_append_left h, h]

/-- Serialising an entry into a slot of a staged block. -/
theorem image_place (hk : b.length ≤ k + 1) :
    (fun i => if 4 * k ≤ i ∧ i < 4 * k + 4 then serializeEntry e (i - 4 * k) else image b i)
      = image (place b k e) := by
  funext i
  rcases lt_trichotomy (i / 4) k with hi | hi | hi
  · rw [if_neg (by omega), image, image, place, List.getD_append _ _ _ _ (by simpa using hi)]
    simp [List.getD_eq_getElem?_getD, hi]
  · subst hi
    have hm : i - 4 * (i / 4) = i % 4 := by omega
    rw [if_pos (by omega), image, place, hm, List.getD_append_right _ _ _ _ (by simp)]
    simp
  · rw [if_neg (by omega), image_beyond (by omega),
      image_beyond (by rw [place_length]; omega)]

end Zlibs.EmuEeprom
