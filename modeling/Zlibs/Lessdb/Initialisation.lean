import Zlibs.Lessdb.Contents

/-! What the parameters are after `init_data`. -/
namespace Zlibs.Lessdb
open Lib

namespace LessDb

variable {hwa : Hwa} {db db' : LessDb} {lo width n : Nat} {type : SectionParameterType}
  {v : Nat → Nat} {block : Block} {sect : Section} {b s p : Nat}
  {blocks : List (List Section)} {startAddress : Nat}

/-- What a row of writes leaves: each in its place, and nothing else changed. -/
structure Filled (hwa : Hwa) (lo width n : Nat) (v : Nat → Nat) (db db' : LessDb) : Prop where
  config : SameConfig db db'
  written : ∀ k < n, ∀ type' : SectionParameterType, type'.width = width →
    hwa.read db'.calls (lo + k * width) type' = some (v k)
  forgotten : ∀ k < n, db'.lastReadAddress ≠ lo + k * width

/-- What a row of writes changes, also when it is cut short. -/
structure Changed (hwa : Hwa) (lo hi : Nat) (db db' : LessDb) : Prop where
  config : SameConfig db db'
  apart : ∀ address (type' : SectionParameterType),
    address + type'.width ≤ hwa.addressCount.toNat →
    Disjoint lo hi address (address + type'.width) →
    hwa.read db'.calls address type' = hwa.read db.calls address type'
  remembered : db'.lastReadAddress = db.lastReadAddress ∨ db'.lastReadAddress = invalidAddress

theorem Changed.refl : Changed hwa lo n db db := ⟨.refl, fun _ _ _ _ => rfl, .inl rfl⟩

theorem Changed.trans {db'' : LessDb} {hi lo' hi' lo'' hi'' : Nat} (h : Changed hwa lo hi db db')
    (h' : Changed hwa lo' hi' db' db'') (h1 : lo'' ≤ lo) (h2 : hi ≤ hi'') (h3 : lo'' ≤ lo')
    (h4 : hi' ≤ hi'') : Changed hwa lo'' hi'' db db'' := by
  refine ⟨h.config.trans h'.config, fun address type' hin hdisjoint => ?_, ?_⟩
  · unfold Disjoint at hdisjoint
    rw [h'.apart address type' hin (by unfold Disjoint; omega),
      h.apart address type' hin (by unfold Disjoint; omega)]
  · rcases h'.remembered with hr | hr
    · rw [hr]
      exact h.remembered
    · exact .inr hr

theorem Wrote.changed {address value : Nat} (hw : Wrote hwa address value type db db') :
    Changed hwa address (address + type.width) db db' := by
  refine ⟨hw.config, hw.apart, ?_⟩
  rw [hw.lastReadAddress]
  split_ifs
  · exact .inr rfl
  · exact .inl rfl

/-- A row of writes succeeds exactly when every value fits its place. -/
theorem writes_spec {f : Nat → StateM LessDb Bool} (v : Nat → Nat) (db : LessDb)
    (h : ReadsBack hwa)
    (hin : lo + n * type.width ≤ hwa.addressCount.toNat)
    (hf : ∀ k < n, ∀ db', SameConfig db db' →
      f k db' = write hwa (lo + k * type.width) (v k) type db') :
    ((writeEach f (List.range n) db).1 = true ↔ ∀ k < n, v k < 2 ^ (8 * type.width)) ∧
      Changed hwa lo (lo + n * type.width) db (writeEach f (List.range n) db).2 ∧
      ((writeEach f (List.range n) db).1 = true →
        Filled hwa lo type.width n v db (writeEach f (List.range n) db).2) := by
  induction n with
  | zero =>
    rw [List.range_zero, writeEach_nil]
    exact ⟨⟨fun _ => nofun, fun _ => rfl⟩, .refl, fun _ => ⟨.refl, nofun, nofun⟩⟩
  | succ n ih =>
    rw [Nat.succ_mul n type.width] at hin ⊢
    obtain ⟨hok, hchanged, hfilled⟩ := ih (by omega) fun k hk => hf k (Nat.lt_succ_of_lt hk)
    rw [List.range_succ, writeEach_append]
    by_cases hprev : (writeEach f (List.range n) db).1 = true
    · have hfill := hfilled hprev
      have hplace : lo + n * type.width + type.width ≤ hwa.addressCount.toNat := by omega
      obtain ⟨hfits, hwrote⟩ := write_spec (v n) (writeEach f (List.range n) db).2 h hplace
      have hlast := hf n (Nat.lt_succ_self n) _ hfill.config
      have hsingle : writeEach f [n] (writeEach f (List.range n) db).2 =
          write hwa (lo + n * type.width) (v n) type (writeEach f (List.range n) db).2 := by
        rw [writeEach_cons, hlast]
        rcases write hwa (lo + n * type.width) (v n) type _ with ⟨_ | _, t⟩ <;> rfl
      rw [if_pos hprev, hsingle]
      refine ⟨?_, ?_, ?_⟩
      · rw [hfits]
        constructor
        · intro hn k hk
          rcases Nat.lt_succ_iff_lt_or_eq.mp hk with hk | rfl
          · exact hok.mp hprev k hk
          · exact hn
        · intro hall
          exact hall n (Nat.lt_succ_self n)
      · exact hchanged.trans hwrote.changed le_rfl (by omega) (by omega) (by omega)
      · intro hn
        have hvalue : v n < 2 ^ (8 * type.width) := hfits.mp hn
        refine ⟨hfill.config.trans hwrote.config, ?_, ?_⟩
        · intro k hk type' hwidth
          rcases Nat.lt_succ_iff_lt_or_eq.mp hk with hk | rfl
          · have hle : k * type.width + type.width ≤ n * type.width := by
              rw [← Nat.succ_mul]
              exact Nat.mul_le_mul_right _ hk
            rw [hwrote.apart _ _ (by omega) (by unfold Disjoint; omega)]
            exact hfill.written k hk type' hwidth
          · rw [hwrote.written type' hwidth, Nat.mod_eq_of_lt hvalue]
        · intro k hk
          have hcount := hwa.addressCount.toNat_lt
          rw [hwrote.lastReadAddress]
          split_ifs with hsame
          · have hle : k * type.width ≤ n * type.width :=
              Nat.mul_le_mul_right _ (Nat.lt_succ_iff.mp hk)
            rw [invalidAddress]
            have hpos : 0 < type.width := width_pos
            omega
          · rcases Nat.lt_succ_iff_lt_or_eq.mp hk with hk | rfl
            · exact hfill.forgotten k hk
            · exact fun he => hsame he.symm
    · rw [if_neg hprev]
      refine ⟨⟨fun hfalse => absurd hfalse (by simp), fun hall => ?_⟩, ?_, fun hfalse => ?_⟩
      · exact absurd (hok.mpr fun k hk => hall k (Nat.lt_succ_of_lt hk)) hprev
      · exact hchanged.trans (Changed.refl : Changed hwa lo lo _ _) le_rfl (by omega) le_rfl
          (by omega)
      · cases hfalse

/-- The number of bits of a parameter. -/
def bits : SectionParameterType → Nat
  | .bit => 1
  | .byte => 8
  | .halfByte => 4
  | .word => 16
  | .dword => 32

/-- The value that a section gives a parameter without a provider. -/
def ownValue (sect : Section) (p : Nat) : UInt32 :=
  if sect.autoIncrement = .enable then sect.defaultValue + UInt32.ofNat p else sect.defaultValue

/-- What `init_data` makes a parameter: packed sections do not increment, and the byte index of a
bit is cut to eight bits. -/
def initialised (db : LessDb) (b s : Nat) (sect : Section) (p : Nat) : UInt32 :=
  match sect.parameterType with
  | .bit => db.initValue b s (p % 2048) sect.defaultValue
  | .halfByte => db.initValue b s p sect.defaultValue
  | _ => db.initValue b s p (ownValue sect p)

/-- The values fit the places of the parameters. -/
def Fits (db : LessDb) (b s : Nat) (sect : Section) : Prop :=
  ¬ sect.Packed → ∀ p < sect.numberOfParameters,
    (db.initialised b s sect p).toNat < 2 ^ bits sect.parameterType

/-- The section is as it has been initialised. -/
structure Initialised (hwa : Hwa) (startAddress : Nat) (db₀ : LessDb) (b s : Nat) (block : Block)
    (sect : Section) (db : LessDb) : Prop where
  stored : ∀ p < sect.numberOfParameters, ∃ raw,
    hwa.read db.calls (firstAddress startAddress block sect + sect.cell p) sect.parameterType =
        some raw ∧
      sect.extract p raw = (db₀.initialised b s sect p).toNat % 2 ^ bits sect.parameterType
  forgotten : sect.Packed → ∀ k < sect.size,
    db.lastReadAddress ≠ firstAddress startAddress block sect + k

/-- The bits of an initial byte, written out. -/
theorem initByte_bit (db : LessDb) (b s : Nat) (sect : Section) (first : Nat) :
    ∃ d : Nat → Nat, (∀ k, d k < 2) ∧
    (∀ k, first + k < sect.numberOfParameters →
      d k = (db.initValue b s (first + k) sect.defaultValue).toNat % 2) ∧
    db.initByte b s sect 8 1 first =
      d 0 + d 1 * 2 + d 2 * 4 + d 3 * 8 + d 4 * 16 + d 5 * 32 + d 6 * 64 + d 7 * 128 := by
  refine ⟨fun k => if first + k < sect.numberOfParameters then
    (db.initValue b s (first + k) sect.defaultValue).toNat % 2 else 0, ?_, ?_, ?_⟩
  · intro k
    dsimp only
    split_ifs
    · exact Nat.mod_lt _ (by decide)
    · decide
  · intro k hk
    exact if_pos hk
  · simp only [initByte, List.range, List.range.loop, List.map_cons, List.map_nil, List.sum_cons,
      List.sum_nil, ite_mul, zero_mul]
    norm_num
    omega

theorem initByte_halfByte (db : LessDb) (b s : Nat) (sect : Section) (first : Nat) :
    ∃ d : Nat → Nat, (∀ k, d k < 16) ∧
    (∀ k, first + k < sect.numberOfParameters →
      d k = (db.initValue b s (first + k) sect.defaultValue).toNat % 16) ∧
    db.initByte b s sect 2 4 first = d 0 + d 1 * 16 := by
  refine ⟨fun k => if first + k < sect.numberOfParameters then
    (db.initValue b s (first + k) sect.defaultValue).toNat % 16 else 0, ?_, ?_, ?_⟩
  · intro k
    dsimp only
    split_ifs
    · exact Nat.mod_lt _ (by decide)
    · decide
  · intro k hk
    exact if_pos hk
  · simp only [initByte, List.range, List.range.loop, List.map_cons, List.map_nil, List.sum_cons,
      List.sum_nil, ite_mul, zero_mul]
    norm_num

theorem SameConfig.initByte {perByte width first : Nat} (h : SameConfig db db') :
    db'.initByte b s sect perByte width first = db.initByte b s sect perByte width first := by
  rw [LessDb.initByte, LessDb.initByte]
  simp only [h.initValue]

/-- What the writes of one section come to. -/
structure InitSpec (hwa : Hwa) (startAddress : Nat) (b s : Nat) (block : Block) (sect : Section)
    (db : LessDb) (result : Bool × LessDb) : Prop where
  ok : result.1 = true ↔ Fits db b s sect
  changed : Changed hwa (firstAddress startAddress block sect)
    (firstAddress startAddress block sect + sect.size) db result.2
  initialised : result.1 = true → Initialised hwa startAddress db b s block sect result.2

/-- A section whose parameters have an address each. -/
theorem initEach_spec (h : Accepted hwa blocks startAddress db) (hb : db.layout[b]? = some block)
    (hs : block.sections[s]? = some sect) (hunpacked : ¬ sect.Packed)
    (hw : sect.parameterType.width = width) (hsize : sect.size = sect.numberOfParameters * width)
    (hbits : 8 * width = bits sect.parameterType)
    (hcell : ∀ p, sect.cell p = p * width)
    (hvalue : ∀ p, db.initialised b s sect p = db.initValue b s p (ownValue sect p))
    (hextract : ∀ p raw, sect.extract p raw = raw % 2 ^ bits sect.parameterType ∨
      bits sect.parameterType = 32 ∧ sect.extract p raw = raw) :
    InitSpec hwa startAddress b s block sect db
      (initEach hwa b s (firstAddress startAddress block sect) width sect db) := by
  have hend := h.end_le hb hs
  have hfits := h.placed.fits
  have hplaced := h.placed.end_le hb hs
  have hrow : firstAddress startAddress block sect +
      sect.numberOfParameters * sect.parameterType.width ≤ hwa.addressCount.toNat := by
    rw [hw, ← hsize]
    exact hend
  obtain ⟨hok, hchanged, hfilled⟩ := writes_spec
    (fun k => (db.initialised b s sect k).toNat) db
    (f := fun parameter => do
      let db ← get
      let defaultValue :=
        if sect.autoIncrement = .enable then sect.defaultValue + UInt32.ofNat parameter
        else sect.defaultValue
      write hwa (u32 (firstAddress startAddress block sect + parameter * width))
        (db.initValue b s parameter defaultValue).toNat sect.parameterType) h.readsBack hrow
    (by
      intro k hk db' hc
      have hle : k * width + width ≤ sect.size := by
        rw [hsize, ← Nat.succ_mul]
        exact Nat.mul_le_mul_right _ hk
      have hplace : u32 (firstAddress startAddress block sect + k * width) =
          firstAddress startAddress block sect + k * width := by
        apply u32_of_lt
        have hpos : 0 < sect.parameterType.width := width_pos
        omega
      have hv : db'.initValue b s k (ownValue sect k) = db.initialised b s sect k := by
        rw [hc.initValue, hvalue]
      show write hwa (u32 (firstAddress startAddress block sect + k * width))
        (db'.initValue b s k (ownValue sect k)).toNat sect.parameterType db' = _
      rw [hplace, hv, hw])
  rw [hw, hbits] at hok
  rw [hw, ← hsize] at hchanged
  refine ⟨?_, hchanged, ?_⟩
  · rw [initEach, hok]
    exact ⟨fun hall _ => hall, fun hall => hall hunpacked⟩
  · intro hdone
    have hfill := hfilled hdone
    have hlt := hok.mp hdone
    refine ⟨?_, fun hpacked => absurd hpacked hunpacked⟩
    intro p hp
    refine ⟨(db.initialised b s sect p).toNat, ?_, ?_⟩
    · have hwritten := hfill.written p hp sect.parameterType rfl
      rw [hw] at hwritten
      rw [hcell]
      exact hwritten
    · rcases hextract p (db.initialised b s sect p).toNat with he | ⟨-, he⟩
      · exact he
      · rw [he, Nat.mod_eq_of_lt (hlt p hp)]

/-- A section with several parameters in each byte. -/
theorem initBytes_spec {perByte width : Nat} (h : Accepted hwa blocks startAddress db)
    (hb : db.layout[b]? = some block) (hs : block.sections[s]? = some sect) (hpacked : sect.Packed)
    (hlt : ∀ k, db.initByte b s sect perByte width (k * perByte) < 256)
    (hstored : ∀ p < sect.numberOfParameters,
      sect.extract p (db.initByte b s sect perByte width (sect.cell p * perByte)) =
        (db.initialised b s sect p).toNat % 2 ^ bits sect.parameterType) :
    InitSpec hwa startAddress b s block sect db
      (initBytes hwa b s (firstAddress startAddress block sect) perByte width sect db) := by
  have hend := h.end_le hb hs
  have hfits := h.placed.fits
  have hplaced := h.placed.end_le hb hs
  have hrow : firstAddress startAddress block sect + sect.size * SectionParameterType.byte.width ≤
      hwa.addressCount.toNat := by
    rw [SectionParameterType.width, Nat.mul_one]
    exact hend
  obtain ⟨hok, hchanged, hfilled⟩ := writes_spec
    (fun k => db.initByte b s sect perByte width (k * perByte)) db
    (f := fun loop => do
      let db ← get
      write hwa (u32 (firstAddress startAddress block sect + loop))
        (db.initByte b s sect perByte width (loop * perByte)) .byte) h.readsBack hrow
    (by
      intro k hk db' hc
      have hplace : u32 (firstAddress startAddress block sect + k) =
          firstAddress startAddress block sect + k := u32_of_lt (by omega)
      show write hwa (u32 (firstAddress startAddress block sect + k)) (db'.initByte b s sect perByte
        width (k * perByte)) .byte db' = _
      rw [hplace, hc.initByte, SectionParameterType.width, Nat.mul_one])
  have hall : (writeEach (fun loop => do
      let db ← get
      write hwa (u32 (firstAddress startAddress block sect + loop))
        (db.initByte b s sect perByte width (loop * perByte)) .byte)
      (List.range sect.size) db).1 = true := hok.mpr fun k _ => hlt k
  have hfill := hfilled hall
  rw [SectionParameterType.width, Nat.mul_one] at hchanged
  refine ⟨⟨fun _ hno => absurd hpacked hno, fun _ => hall⟩, hchanged, fun _ => ⟨?_, ?_⟩⟩
  · intro p hp
    have hcell := Section.cell_le hp
    rw [hpacked.width] at hcell
    refine ⟨_, ?_, hstored p hp⟩
    have hwritten := hfill.written (sect.cell p) (by omega) sect.parameterType hpacked.width
    rw [SectionParameterType.width, Nat.mul_one] at hwritten
    exact hwritten
  · intro _ k hk
    have hforgotten := hfill.forgotten k hk
    rw [SectionParameterType.width, Nat.mul_one] at hforgotten
    exact hforgotten

theorem hasBit_toNat {value bit : Nat} : (hasBit value bit).toNat = value / 2 ^ bit % 2 := by
  unfold hasBit
  rcases Nat.mod_two_eq_zero_or_one (value / 2 ^ bit) with h | h <;> simp [h]

/-- A bit of an initial byte is read back as the parameter that the cut index leads to. -/
theorem extract_bit (htype : sect.parameterType = .bit) (hp : p < sect.numberOfParameters) :
    sect.extract p (db.initByte b s sect 8 1 (sect.cell p * 8)) =
      (db.initialised b s sect p).toNat % 2 ^ bits sect.parameterType := by
  obtain ⟨d, hd, hvalue, hbyte⟩ := initByte_bit db b s sect (sect.cell p * 8)
  have hcell : sect.cell p = p / 8 % 256 := by rw [Section.cell, htype]
  have hdigit := hvalue (p % 8) (by rw [hcell]; omega)
  have hindex : sect.cell p * 8 + p % 8 = p % 2048 := by
    rw [hcell]
    omega
  have hbit : (p - p / 8 % 256 * 8) % 256 = p % 8 := by omega
  have h0 := hd 0
  have h1 := hd 1
  have h2 := hd 2
  have h3 := hd 3
  have h4 := hd 4
  have h5 := hd 5
  have h6 := hd 6
  have h7 := hd 7
  have hlast : p % 8 < 8 := Nat.mod_lt _ (by decide)
  rw [Section.extract, initialised, htype, hbyte, hasBit_toNat, hbit, ← hindex]
  simp only [bits, pow_one]
  rw [← hdigit]
  generalize p % 8 = i at hlast ⊢
  interval_cases i <;> omega

theorem extract_halfByte (htype : sect.parameterType = .halfByte)
    (hp : p < sect.numberOfParameters) :
    sect.extract p (db.initByte b s sect 2 4 (sect.cell p * 2)) =
      (db.initialised b s sect p).toNat % 2 ^ bits sect.parameterType := by
  obtain ⟨d, hd, hvalue, hbyte⟩ := initByte_halfByte db b s sect (sect.cell p * 2)
  have hcell : sect.cell p = p / 2 := by rw [Section.cell, htype]
  have hdigit := hvalue (p % 2) (by rw [hcell]; omega)
  have hindex : sect.cell p * 2 + p % 2 = p := by
    rw [hcell]
    omega
  have h0 := hd 0
  have h1 := hd 1
  rw [hindex] at hdigit
  rw [Section.extract, initialised, htype, hbyte]
  simp only [bits]
  rw [show (0x0F : Nat) = 2 ^ 4 - 1 from rfl, Nat.and_two_pow_sub_one_eq_mod]
  rw [show (2 ^ 4 : Nat) = 16 from rfl, ← hdigit]
  rcases Nat.mod_two_eq_zero_or_one p with h | h <;> simp only [h] <;> simp <;> omega

theorem initSection_spec {reset : FactoryResetType} (h : Accepted hwa blocks startAddress db)
    (hb : db.layout[b]? = some block) (hs : block.sections[s]? = some sect)
    (hreset : ¬ (sect.preserveOnPartialReset = .enable ∧ reset = .partialReset)) :
    InitSpec hwa startAddress b s block sect db (initSection hwa reset b s block sect db) := by
  have hplace := h.placed.sectionAddress hb hs
  have hunpacked : sect.parameterType ≠ .bit → sect.parameterType ≠ .halfByte → ¬ sect.Packed :=
    fun hbit hhalf hpacked => hpacked.elim hbit hhalf
  rw [initSection_eq hreset, hplace]
  have hsize : sect.size = parametersSize sect.numberOfParameters sect.parameterType := rfl
  cases htype : sect.parameterType with
  | bit =>
    refine initBytes_spec h hb hs (.inl htype) ?_ fun p hp => extract_bit htype hp
    intro k
    obtain ⟨d, hd, -, hbyte⟩ := initByte_bit db b s sect (k * 8)
    have h0 := hd 0
    have h1 := hd 1
    have h2 := hd 2
    have h3 := hd 3
    have h4 := hd 4
    have h5 := hd 5
    have h6 := hd 6
    have h7 := hd 7
    omega
  | halfByte =>
    refine initBytes_spec h hb hs (.inr htype) ?_ fun p hp => extract_halfByte htype hp
    intro k
    obtain ⟨d, hd, -, hbyte⟩ := initByte_halfByte db b s sect (k * 2)
    have h0 := hd 0
    have h1 := hd 1
    omega
  | byte =>
    refine initEach_spec h hb hs (hunpacked (by simp [htype]) (by simp [htype])) (by rw [htype]; rfl)
      (by rw [hsize, htype, Nat.mul_one]; rfl) (by rw [htype]; rfl)
      (fun p => by rw [Section.cell, htype, Nat.mul_one])
      (fun p => by rw [initialised, htype]) fun p raw => .inl ?_
    rw [Section.extract, htype]
    exact Nat.and_two_pow_sub_one_eq_mod raw 8
  | word =>
    refine initEach_spec h hb hs (hunpacked (by simp [htype]) (by simp [htype])) (by rw [htype]; rfl)
      (by rw [hsize, htype]; rfl) (by rw [htype]; rfl)
      (fun p => by rw [Section.cell, htype])
      (fun p => by rw [initialised, htype]) fun p raw => .inl ?_
    rw [Section.extract, htype]
    exact Nat.and_two_pow_sub_one_eq_mod raw 16
  | dword =>
    refine initEach_spec h hb hs (hunpacked (by simp [htype]) (by simp [htype])) (by rw [htype]; rfl)
      (by rw [hsize, htype]; rfl) (by rw [htype]; rfl)
      (fun p => by rw [Section.cell, htype])
      (fun p => by rw [initialised, htype]) fun p raw => .inr ?_
    rw [Section.extract, htype]
    exact ⟨rfl, rfl⟩

abbrev SectionEntry := Nat × Nat × Block × Section

/-- The range of a section. -/
def entryFirst (startAddress : Nat) (entry : SectionEntry) : Nat :=
  firstAddress startAddress entry.2.2.1 entry.2.2.2

def entryEnd (startAddress : Nat) (entry : SectionEntry) : Nat :=
  firstAddress startAddress entry.2.2.1 entry.2.2.2 + entry.2.2.2.size

/-- Different sections of the layout that is set. -/
structure Entries (db : LessDb) (entries : List SectionEntry) : Prop where
  mem : ∀ entry ∈ entries, db.layout[entry.1]? = some entry.2.2.1 ∧
    entry.2.2.1.sections[entry.2.1]? = some entry.2.2.2
  distinct : entries.Pairwise fun e e' => (e.1, e.2.1) ≠ (e'.1, e'.2.1)

theorem pairwise_zipIdx {α : Type} (xs : List α) : xs.zipIdx.Pairwise fun x y => x.2 ≠ y.2 := by
  have hlt : (xs.zipIdx.map Prod.snd).Pairwise (· < ·) := by
    rw [List.zipIdx_map_snd]
    exact List.pairwise_lt_range'
  exact (List.pairwise_map.mp hlt).imp fun h => Nat.ne_of_lt h

theorem entries_indexedSections : Entries db (indexedSections db.layout) := by
  constructor
  · rintro ⟨b, s, block, sect⟩ hentry
    exact mem_indexedSections hentry
  · rw [indexedSections, List.pairwise_flatMap]
    constructor
    · rintro ⟨block, b⟩ -
      rw [List.pairwise_map]
      refine (pairwise_zipIdx block.sections).imp fun hne he => hne ?_
      exact (Prod.mk.inj he).2
    · refine (pairwise_zipIdx db.layout).imp fun hne x hx y hy he => hne ?_
      obtain ⟨_, -, rfl⟩ := List.mem_map.mp hx
      obtain ⟨_, -, rfl⟩ := List.mem_map.mp hy
      exact (Prod.mk.inj he).1

/-- The run over the sections changes nothing else. -/
structure ChangedAll (hwa : Hwa) (startAddress : Nat) (entries : List SectionEntry)
    (db db' : LessDb) : Prop where
  config : SameConfig db db'
  apart : ∀ address (type : SectionParameterType), address + type.width ≤ hwa.addressCount.toNat →
    (∀ entry ∈ entries, Disjoint (entryFirst startAddress entry) (entryEnd startAddress entry)
      address (address + type.width)) →
    hwa.read db'.calls address type = hwa.read db.calls address type
  remembered : db'.lastReadAddress = db.lastReadAddress ∨ db'.lastReadAddress = invalidAddress

theorem SameConfig.initialised (h : SameConfig db db') :
    db'.initialised b s sect p = db.initialised b s sect p := by
  unfold LessDb.initialised
  simp only [h.initValue]

theorem SameConfig.fits (h : SameConfig db db') : Fits db' b s sect ↔ Fits db b s sect := by
  simp only [Fits, h.initialised]

/-- A section stays as it has been initialised while others are. -/
theorem Initialised.kept {db₀ : LessDb} {rest : List SectionEntry}
    (h : Accepted hwa blocks startAddress db) (hb : db.layout[b]? = some block)
    (hs : block.sections[s]? = some sect) (hrest : Entries db rest)
    (hne : ∀ entry ∈ rest, (b, s) ≠ (entry.1, entry.2.1))
    (hi : Initialised hwa startAddress db₀ b s block sect db)
    (hc : ChangedAll hwa startAddress rest db db') :
    Initialised hwa startAddress db₀ b s block sect db' := by
  have hend := h.end_le hb hs
  have hfits := h.placed.fits
  constructor
  · intro p hp
    have hcell := Section.cell_le hp
    obtain ⟨raw, hread, hextract⟩ := hi.stored p hp
    refine ⟨raw, ?_, hextract⟩
    rw [hc.apart _ _ (by omega), hread]
    intro entry hentry
    obtain ⟨hb', hs'⟩ := hrest.mem entry hentry
    rw [h.placed.layout] at hb hb'
    have hd := sections_disjoint (by omega) hb hs hb' hs' (hne entry hentry) startAddress
    unfold Disjoint at hd ⊢
    unfold entryFirst entryEnd
    omega
  · intro hpacked k hk
    have hcount := hwa.addressCount.toNat_lt
    rcases hc.remembered with hr | hr
    · rw [hr]
      exact hi.forgotten hpacked k hk
    · rw [hr, invalidAddress]
      omega

/-- `init_data` for all parameters: it succeeds exactly when the values fit. -/
theorem initAll_spec {entries : List SectionEntry} (h : Accepted hwa blocks startAddress db)
    (hentries : Entries db entries) :
    ((writeEach (fun (entry : SectionEntry) =>
        initSection hwa .fullReset entry.1 entry.2.1 entry.2.2.1 entry.2.2.2) entries db).1 = true ↔
      ∀ entry ∈ entries, Fits db entry.1 entry.2.1 entry.2.2.2) ∧
    ChangedAll hwa startAddress entries db (writeEach (fun (entry : SectionEntry) =>
        initSection hwa .fullReset entry.1 entry.2.1 entry.2.2.1 entry.2.2.2) entries db).2 ∧
    ((writeEach (fun (entry : SectionEntry) =>
        initSection hwa .fullReset entry.1 entry.2.1 entry.2.2.1 entry.2.2.2) entries db).1 = true →
      ∀ entry ∈ entries, Initialised hwa startAddress db entry.1 entry.2.1 entry.2.2.1 entry.2.2.2
        (writeEach (fun (entry : SectionEntry) =>
          initSection hwa .fullReset entry.1 entry.2.1 entry.2.2.1 entry.2.2.2) entries db).2) := by
  induction entries generalizing db with
  | nil =>
    rw [writeEach_nil]
    exact ⟨⟨fun _ => nofun, fun _ => rfl⟩, ⟨.refl, fun _ _ _ _ => rfl, .inl rfl⟩, fun _ => nofun⟩
  | cons entry rest ih =>
    obtain ⟨b, s, block, sect⟩ := entry
    obtain ⟨hb, hs⟩ := hentries.mem _ List.mem_cons_self
    obtain ⟨hdistinct, hpairwise⟩ := List.pairwise_cons.mp hentries.distinct
    have hspec : InitSpec hwa startAddress b s block sect db
        (initSection hwa .fullReset b s block sect db) :=
      initSection_spec h hb hs fun hno => nomatch hno.2
    rw [writeEach_cons]
    generalize hstep : initSection hwa .fullReset b s block sect db = result at hspec ⊢
    obtain ⟨ok, t⟩ := result
    have hconfig : SameConfig db t := hspec.changed.config
    have hrest : Entries t rest := by
      refine ⟨fun entry he => ?_, hpairwise⟩
      rw [hconfig.layout]
      exact hentries.mem entry (List.mem_cons_of_mem _ he)
    have hfitsrest : (∀ entry ∈ rest, Fits t entry.1 entry.2.1 entry.2.2.2) ↔
        ∀ entry ∈ rest, Fits db entry.1 entry.2.1 entry.2.2.2 := by
      simp only [hconfig.fits]
    have hmid : ∀ address (type : SectionParameterType),
        address + type.width ≤ hwa.addressCount.toNat →
        (∀ entry ∈ (b, s, block, sect) :: rest, Disjoint (entryFirst startAddress entry)
          (entryEnd startAddress entry) address (address + type.width)) →
        hwa.read t.calls address type = hwa.read db.calls address type :=
      fun address type hin hd => hspec.changed.apart address type hin (hd _ List.mem_cons_self)
    cases ok with
    | false =>
      simp only [Bool.false_eq_true, if_false, false_iff, not_forall]
      refine ⟨?_, ⟨hconfig, hmid, hspec.changed.remembered⟩, fun hfalse => hfalse.elim⟩
      refine ⟨_, List.mem_cons_self, fun hfit => ?_⟩
      exact absurd (hspec.ok.mpr hfit) (by simp)
    | true =>
      obtain ⟨hok, hchanged, hdone⟩ := ih (h.config hconfig) hrest
      have hheadfits := hspec.ok.mp rfl
      simp only [if_true]
      refine ⟨?_, ⟨hconfig.trans hchanged.config, ?_, ?_⟩, ?_⟩
      · rw [hok, hfitsrest, List.forall_mem_cons]
        exact ⟨fun hall => ⟨hheadfits, hall⟩, fun hall => hall.2⟩
      · intro address type hin hd
        rw [hchanged.apart address type hin fun e he => hd e (List.mem_cons_of_mem _ he),
          hmid address type hin hd]
      · rcases hchanged.remembered with hr | hr
        · rw [hr]
          exact hspec.changed.remembered
        · exact .inr hr
      · intro hall entry hentry
        rcases List.mem_cons.mp hentry with rfl | hentry
        · exact (hspec.initialised rfl).kept (h.config hconfig) (by rw [hconfig.layout]; exact hb) hs
            hrest hdistinct hchanged
        · have hi := hdone hall entry hentry
          refine ⟨fun p hp => ?_, hi.forgotten⟩
          obtain ⟨raw, hread, hextract⟩ := hi.stored p hp
          exact ⟨raw, hread, by rw [hextract, hconfig.initialised]⟩

/-- What a parameter should be after an initialisation: the value of the first provider that gives
one, or the value of the section. -/
def initialValue (db : LessDb) (b s : Nat) (sect : Section) (p : Nat) : UInt32 :=
  db.initValue b s p (ownValue sect p)

/-- The values fit their places, and what packed sections leave out makes no difference. -/
def Representable (db : LessDb) : Prop :=
  ∀ (b s : Nat) (block : Block) (sect : Section), db.layout[b]? = some block →
    block.sections[s]? = some sect → ∀ p < sect.numberOfParameters,
      (¬ sect.Packed → (db.initialValue b s sect p).toNat < 2 ^ bits sect.parameterType) ∧
        (sect.Packed → (db.initialised b s sect p).toNat % 2 ^ bits sect.parameterType =
          (db.initialValue b s sect p).toNat % 2 ^ bits sect.parameterType)

/-- Every parameter of the layout reads as its initial value, after any other reads. -/
def ReadsInitial (hwa : Hwa) (db₀ db : LessDb) : Prop :=
  ∀ (reads : List (Nat × Nat × Nat)) (b s p : Nat) (block : Block) (sect : Section),
    db.sectionAt b s = some (block, sect) → p < sect.numberOfParameters →
    (read hwa b s p (reads.foldl (fun db r => (read hwa r.1 r.2.1 r.2.2 db).2) db)).1 =
      some ((db₀.initialValue b s sect p).toNat % 2 ^ bits sect.parameterType)

theorem initialised_unpacked (h : ¬ sect.Packed) :
    db.initialised b s sect p = db.initialValue b s sect p := by
  unfold initialised
  split
  · next htype => exact absurd (.inl htype) h
  · next htype => exact absurd (.inr htype) h
  · rfl

theorem read_out_of_range (hsect : db.sectionAt b s = some (block, sect))
    (hp : ¬ p < sect.numberOfParameters) : (read hwa b s p db).2 = db := by
  have hge : p ≥ sect.numberOfParameters := Nat.not_lt.mp hp
  simp [read, hsect, hge, bind, StateT.bind, get, getThe, MonadStateOf.get, StateT.get, pure,
    StateT.pure]

/-- Reads change nothing but what is remembered. -/
theorem reads_looked (h : Accepted hwa blocks startAddress db)
    (hcoherent : Coherent hwa startAddress db) (reads : List (Nat × Nat × Nat)) :
    Looked hwa startAddress db (reads.foldl (fun db r => (read hwa r.1 r.2.1 r.2.2 db).2) db) := by
  induction reads generalizing db with
  | nil => exact ⟨.refl, fun _ _ => rfl, hcoherent⟩
  | cons r rest ih =>
    obtain ⟨b, s, p⟩ := r
    have hone : Looked hwa startAddress db (read hwa b s p db).2 := by
      rcases hsect : db.sectionAt b s with _ | ⟨block, sect⟩
      · rw [read_absent hsect]
        exact ⟨.refl, fun _ _ => rfl, hcoherent⟩
      · by_cases hp : p < sect.numberOfParameters
        · obtain ⟨raw, -, -, hlooked⟩ := read_spec h hcoherent hsect hp
          exact hlooked
        · rw [read_out_of_range hsect hp]
          exact ⟨.refl, fun _ _ => rfl, hcoherent⟩
    have hrest := ih (h.config hone.config) hone.coherent
    exact ⟨hone.config.trans hrest.config,
      fun address type => (hrest.contents address type).trans (hone.contents address type),
      hrest.coherent⟩

theorem sectionAt_eq (h : SameConfig db db') : db'.sectionAt b s = db.sectionAt b s := by
  rw [sectionAt, sectionAt, h.layout]

theorem sectionAt_of (hb : db.layout[b]? = some block) (hs : block.sections[s]? = some sect) :
    db.sectionAt b s = some (block, sect) := by
  rw [sectionAt, hb]
  simp [hs]

/-- What the reads return once the sections are initialised. -/
theorem read_initialised {db₀ : LessDb} (h : Accepted hwa blocks startAddress db)
    (hcoherent : Coherent hwa startAddress db) (hsect : db.sectionAt b s = some (block, sect))
    (hi : Initialised hwa startAddress db₀ b s block sect db) (hp : p < sect.numberOfParameters)
    (reads : List (Nat × Nat × Nat)) :
    (read hwa b s p (reads.foldl (fun db r => (read hwa r.1 r.2.1 r.2.2 db).2) db)).1 =
      some ((db₀.initialised b s sect p).toNat % 2 ^ bits sect.parameterType) := by
  have hlooked := reads_looked h hcoherent reads
  obtain ⟨raw, hread, hresult, -⟩ := read_spec (h.config hlooked.config) hlooked.coherent
    (by rw [sectionAt_eq hlooked.config]; exact hsect) hp
  obtain ⟨raw', hread', hextract⟩ := hi.stored p hp
  rw [hlooked.contents, hread'] at hread
  cases hread
  rw [hresult, hextract]

theorem initData_eq {reset : FactoryResetType} : initData hwa reset db =
    writeEach (fun (entry : SectionEntry) =>
      initSection hwa reset entry.1 entry.2.1 entry.2.2.1 entry.2.2.2)
      (indexedSections db.layout) db := rfl

theorem mem_indexedSections_of (hb : db.layout[b]? = some block)
    (hs : block.sections[s]? = some sect) : (b, s, block, sect) ∈ indexedSections db.layout := by
  refine List.mem_flatMap.mpr ⟨(block, b), List.mem_zipIdx_iff_getElem?.mpr hb, ?_⟩
  exact List.mem_map.mpr ⟨(sect, s), List.mem_zipIdx_iff_getElem?.mpr hs, rfl⟩

/-- A full initialisation does what it should exactly when the values are representable. -/
theorem initData_iff (h : Accepted hwa blocks startAddress db) :
    ((initData hwa .fullReset db).1 = true ∧
      ReadsInitial hwa db (initData hwa .fullReset db).2) ↔ Representable db := by
  obtain ⟨hok, hchanged, hdone⟩ := initAll_spec h entries_indexedSections
  rw [← initData_eq] at hok hchanged hdone
  have hconfig := hchanged.config
  have haccepted := h.config hconfig
  -- What a successful run leaves.
  have hafter : (initData hwa .fullReset db).1 = true →
      Coherent hwa startAddress (initData hwa .fullReset db).2 ∧
      ∀ (b s : Nat) (block : Block) (sect : Section), db.layout[b]? = some block →
        block.sections[s]? = some sect →
        Initialised hwa startAddress db b s block sect (initData hwa .fullReset db).2 := by
    intro hall
    have hi : ∀ (b s : Nat) (block : Block) (sect : Section), db.layout[b]? = some block →
        block.sections[s]? = some sect →
        Initialised hwa startAddress db b s block sect (initData hwa .fullReset db).2 :=
      fun b s block sect hb hs => hdone hall _ (mem_indexedSections_of hb hs)
    refine ⟨?_, hi⟩
    intro b s block sect hb hs hpacked h1 h2
    rw [hconfig.layout] at hb
    have hforgotten := (hi b s block sect hb hs).forgotten hpacked
      ((initData hwa .fullReset db).2.lastReadAddress - firstAddress startAddress block sect)
      (by omega)
    exact absurd (by omega) hforgotten
  constructor
  · rintro ⟨hall, hreads⟩ b s block sect hb hs p hp
    obtain ⟨hcoherent, hi⟩ := hafter hall
    constructor
    · intro hunpacked
      have hfit := hok.mp hall _ (mem_indexedSections_of hb hs) hunpacked p hp
      rw [initialised_unpacked hunpacked] at hfit
      exact hfit
    · intro _
      have hsect : (initData hwa .fullReset db).2.sectionAt b s = some (block, sect) := by
        rw [sectionAt_eq hconfig]
        exact sectionAt_of hb hs
      have hread := hreads [] b s p block sect hsect hp
      rw [read_initialised haccepted hcoherent hsect (hi b s block sect hb hs) hp] at hread
      exact Option.some.inj hread
  · intro hrep
    have hall : (initData hwa .fullReset db).1 = true := by
      rw [hok]
      rintro ⟨b, s, block, sect⟩ hentry hunpacked p hp
      obtain ⟨hb, hs⟩ := mem_indexedSections hentry
      rw [initialised_unpacked hunpacked]
      exact (hrep b s block sect hb hs p hp).1 hunpacked
    obtain ⟨hcoherent, hi⟩ := hafter hall
    refine ⟨hall, fun reads b s p block sect hsect hp => ?_⟩
    have hsect' := hsect
    rw [sectionAt_eq hconfig] at hsect'
    obtain ⟨hb, hs⟩ := sectionAt_some hsect'
    rw [read_initialised haccepted hcoherent hsect (hi b s block sect hb hs) hp]
    by_cases hpacked : sect.Packed
    · rw [(hrep b s block sect hb hs p hp).2 hpacked]
    · rw [initialised_unpacked hpacked]

/-- After `set_layout` has accepted a layout, and whatever is done then, a full initialisation
succeeds and every parameter reads as its initial value exactly when the initial values are
representable. -/
theorem full_initialisation_iff (hwa : Hwa) (hreads : ReadsBack hwa) (blocks : List (List Section))
    (startAddress uid : Nat) (db : LessDb) (htotal : totalSize blocks < 2 ^ 32)
    (haccepted : (setLayout hwa (built blocks) startAddress uid db).1 = true) (ops : List DbOp) :
    let now := ops.foldl (fun db op => perform hwa op db)
      (setLayout hwa (built blocks) startAddress uid db).2
    ((initData hwa .fullReset now).1 = true ∧
      ReadsInitial hwa now (initData hwa .fullReset now).2) ↔ Representable now := by
  obtain ⟨hle, hplaced⟩ := setLayout_accepted htotal haccepted
  exact initData_iff ⟨hreads, run_placed hwa ops hplaced, hle⟩

theorem packed_representable : Representable
    (setLayout (memory 20 fun _ => 0xFF) (built packedBlocks) 4 0 {}).2 := by
  have hlayout : (setLayout (memory 20 fun _ => 0xFF) (built packedBlocks) 4 0 {}).2.layout =
      built packedBlocks := rfl
  intro b s block sect hb hs p hp
  rw [hlayout] at hb
  rcases b with _ | _ | b
  · cases hb
    rcases s with _ | _ | s
    · cases hs
      exact ⟨fun hunpacked => absurd (.inl rfl) hunpacked, fun _ => rfl⟩
    · cases hs
      refine ⟨fun _ => ?_, fun hpacked => absurd hpacked (by rintro (h | h) <;> cases h)⟩
      have hp' : p < 3 := hp
      interval_cases p <;> decide
    · cases hs
  · cases hb
    rcases s with _ | s
    · cases hs
      exact ⟨fun hunpacked => absurd (.inr rfl) hunpacked, fun _ => rfl⟩
    · cases hs
  · cases hb

theorem full_initialisation_packed :
    (initData (memory 20 fun _ => 0xFF) .fullReset
      (setLayout (memory 20 fun _ => 0xFF) (built packedBlocks) 4 0 {}).2).1 = true :=
  ((full_initialisation_iff (memory 20 fun _ => 0xFF) (memory_readsBack 20 _) packedBlocks 4 0 {}
    (by decide) (by decide) []).mpr packed_representable).1

/-- A default value that does not fit its byte stops the initialisation. -/
theorem wide_default_fails :
    (setLayout (memory 20 fun _ => 0xFF)
      (built [[⟨2, .byte, .disable, .disable, 300, 0⟩]]) 0 0 {}).1 = true ∧
    (initData (memory 20 fun _ => 0xFF) .fullReset (setLayout (memory 20 fun _ => 0xFF)
      (built [[⟨2, .byte, .disable, .disable, 300, 0⟩]]) 0 0 {}).2).1 = false := by
  decide

end LessDb

end Zlibs.Lessdb
