import Zlibs.Lib.StateProgram
import Zlibs.EmuEeprom.Journal

/-! What a state shows of itself: a log for each page and the block that waits to be written. -/
namespace Zlibs.EmuEeprom

open Zlibs.Lib

/-- The flash rule: one aligned write block inside the page, erased when it is programmed. -/
def Disciplined (g : Geometry) (e : Event) : Prop :=
  match e.call with
  | .write page offset data =>
    offset % g.writeBlockSize = 0 ∧ offset + g.writeBlockSize ≤ g.pageSize ∧
      data.size = g.writeBlockSize ∧
      ∀ i < g.writeBlockSize, e.before page (offset + i) = erasedByte
  | _ => True

/-- The flash holds a well-formed log on each page. -/
def Holds (g : Geometry) (L : Logs) (flash : Flash) : Prop :=
  ∀ p, flash p = image (L p) ∧ WellFormed g (L p)

/-- What an erase or a write that succeeds does to the logs. -/
def Moves (g : Geometry) (L L' : Logs) : HwaCall → Prop
  | .erasePage p => L' = L.set p []
  | .write p offset data =>
    offset = 4 * (L p).length ∧ ∃ c, BlockOk g c ∧
      (∀ i < g.writeBlockSize, data.data i = image c i) ∧ L' = L.set p (L p ++ pad g c)
  | _ => False

/-- An event under fault pattern `f` that keeps the flash rule and leads from logs with the property
`K` to such logs. -/
def Safe (g : Geometry) (f : Faults) (K : Logs → Prop) (e : Event) : Prop :=
  Disciplined g e ∧ ∃ L L', Holds g L e.before ∧ K L ∧ Holds g L' e.after ∧ K L' ∧
    (Moves g L L' e.call ∨ ∃ n, f n e.call = true)

/-- The block in `_write_block_buffer` goes to the first free block of its page. -/
def Staged (g : Geometry) (ram : Ram) (L : Logs) : Option (Page × List Entry) → Prop
  | none => ram.writeBlockDirty = false
  | some (p, c) =>
    ram.writeBlockDirty = true ∧ ram.writeBlockPage = p ∧
      ram.writeBlockOffset = 4 * (L p).length ∧ ram.writeBlockBuffer = image c ∧
      (L p).length < g.pageEntries ∧ BlockOk g c

/-- A state under fault pattern `f` whose flash holds the logs `L`, whose staged block is `st`,
and whose events so far were safe for `K`. -/
structure Sees (g : Geometry) (f : Faults) (K : Logs → Prop) (L : Logs)
    (st : Option (Page × List Entry)) (s : State) : Prop where
  faults : s.hwa.fails = f
  holds : Holds g L s.hwa.flash
  staged : Staged g s.ram L st
  traced : ∀ e ∈ s.hwa.trace, Safe g f K e
  good : K L

def ReadFault (f : Faults) : Prop := ∃ n p o l, f n (.read p o l) = true

def EraseFault (f : Faults) : Prop := ∃ n p, f n (.erasePage p) = true

/-- The program of a block with these entries fails at some time. -/
def BlockFault (g : Geometry) (f : Faults) (c : List Entry) : Prop :=
  ∃ n p o d, (∀ i < g.writeBlockSize, d i = image c i) ∧
    f n (.write p o ⟨g.writeBlockSize, d⟩) = true

def State.atCalls (s : State) (n : Nat) : State := { s with hwa := { s.hwa with calls := n } }

/-- A read block beyond the first of its page cannot be read at some time. -/
def LateReadFault (g : Geometry) (f : Faults) : Prop :=
  ∃ n p o, 0 < o ∧ f n (.read p o g.readBlockSize) = true

variable {g : Geometry} {f : Faults} {K : Logs → Prop} {L : Logs}
  {st : Option (Page × List Entry)} {s : State} {S c : List Entry} {p : Page}

theorem wp_modifyRam (u : Ram → Ram) (Q : Unit → State → Prop) (s : State) :
    wp (modifyRam u) Q s ↔ Q () { s with ram := u s.ram } := Iff.rfl

@[simp] theorem State.atCalls_ram (n : Nat) : (s.atCalls n).ram = s.ram := rfl

@[simp] theorem State.atCalls_flash (n : Nat) : (s.atCalls n).hwa.flash = s.hwa.flash := rfl

@[simp] theorem State.atCalls_atCalls (m n : Nat) : (s.atCalls m).atCalls n = s.atCalls n := rfl

theorem State.atCalls_self : s.atCalls s.hwa.calls = s := rfl

theorem Sees.flash (h : Sees g f K L st s) (p : Page) : s.hwa.flash p = image (L p) :=
  (h.holds p).1

theorem Sees.wf (h : Sees g f K L st s) (p : Page) : WellFormed g (L p) := (h.holds p).2

theorem Sees.atCalls (h : Sees g f K L st s) (n : Nat) : Sees g f K L st (s.atCalls n) :=
  ⟨h.faults, h.holds, h.staged, h.traced, h.good⟩

theorem Sees.mono {K' : Logs → Prop} (h : Sees g f K L st s) (hK : ∀ L, K L → K' L) :
    Sees g f K' L st s where
  faults := h.faults
  holds := h.holds
  staged := h.staged
  traced := fun e he => by
    obtain ⟨hd, L, L', hL, hgood, hL', hgood', hmoves⟩ := h.traced e he
    exact ⟨hd, L, L', hL, hK L hgood, hL', hK L' hgood', hmoves⟩
  good := hK L h.good

/-- Members other than the write block do not matter to the view. -/
theorem Sees.withRam {ram : Ram} {w : Option (Page × List Entry)} (h : Sees g f K L st s)
    (hs : Staged g ram L w) : Sees g f K L w { s with ram := ram } := ⟨h.faults, h.holds, hs, h.traced, h.good⟩

theorem Sees.clear {ram : Ram} (h : Sees g f K L st s) (hd : ram.writeBlockDirty = false) :
    Sees g f K L none { s with ram := ram } := ⟨h.faults, h.holds, hd, h.traced, h.good⟩

theorem Holds.set {flash : Flash} (h : Holds g L flash) (hw : WellFormed g S) :
    Holds g (L.set p S) (flash.setPage p (image S)) := by
  intro q
  by_cases hq : q = p
  · subst hq
    simp [Flash.setPage, hw]
  · rw [Logs.set_ne hq]
    simpa [Flash.setPage, hq] using h q

/-- Only the bytes of the span are programmed. -/
theorem program_congr (flash : Flash) (p : Page) (o : Nat) {n : Nat} {d d' : Nat → UInt8}
    (h : ∀ i < n, d i = d' i) : flash.program p o ⟨n, d⟩ = flash.program p o ⟨n, d'⟩ := by
  unfold Flash.program
  congr 1
  funext i
  by_cases hi : o ≤ i ∧ i < o + n
  · rw [if_pos hi, if_pos hi]
    show _ &&& d (i - o) = _ &&& d' (i - o)
    rw [h _ (by omega)]
  · rw [if_neg hi, if_neg hi]

theorem Holds.program {flash : Flash} {d : Nat → UInt8} (h : Holds g L flash) (hc : BlockOk g c)
    (hlt : (L p).length < g.pageEntries) (hd : ∀ i < g.writeBlockSize, d i = image c i) :
    Holds g (L.set p (L p ++ pad g c))
      (flash.program p (4 * (L p).length) ⟨g.writeBlockSize, d⟩) := by
  rw [program_congr _ _ _ hd, g.writeBlockSize_eq, program_image (h p).1 hc.fits,
    ← image_append_pad (g := g)]
  exact h.set ((h p).2.append hc hlt)

theorem Holds.erase {flash : Flash} (h : Holds g L flash) :
    Holds g (L.set p []) (flash.erase p) := by
  have := h.set (p := p) (WellFormed.nil (g := g))
  rwa [image_nil] at this

/-- Programming the first free block of a page keeps the flash rule. -/
theorem disciplined_program {flash after : Flash} (h : Holds g L flash)
    (hlt : (L p).length < g.pageEntries) {data : Nat → UInt8} :
    Disciplined g ⟨.write p (4 * (L p).length) ⟨g.writeBlockSize, data⟩, flash, after⟩ := by
  have hb := g.writeBlockSize_eq
  refine ⟨?_, ?_, rfl, ?_⟩
  · obtain ⟨k, hk⟩ := (h p).2.aligned
    rw [hk, hb, ← Nat.mul_assoc]
    exact Nat.mul_mod_right _ _
  · have := (h p).2.room hlt
    have := g.pageSize_eq
    omega
  · intro i _
    simp only [(h p).1]
    exact image_beyond (by omega)

theorem hwaErasePage_spec (h : Sees g f K L st s) (hst : Staged g s.ram (L.set p []) st)
    (hK : K (L.set p [])) :
    wp (hwaErasePage p) (fun r t => t.ram = s.ram ∧
      ((r = true ∧ Sees g f K (L.set p []) st t) ∨
        (r = false ∧ EraseFault f ∧ Sees g f K L st t))) s := by
  refine ⟨rfl, ?_⟩
  have hf := h.faults
  simp only [hwaErasePage, liftHwa, Hwa.erasePage, Hwa.issue, Hwa.tick]
  cases hb : s.hwa.fails s.hwa.calls (.erasePage p) with
  | false =>
    left
    refine ⟨rfl, h.faults, h.holds.erase, hst, ?_, hK⟩
    intro e he
    rcases List.mem_cons.mp he with rfl | he
    · exact ⟨trivial, _, _, h.holds, h.good, h.holds.erase, hK, .inl rfl⟩
    · exact h.traced e he
  | true =>
    right
    refine ⟨rfl, ⟨_, _, hf ▸ hb⟩, h.faults, h.holds, h.staged, ?_, h.good⟩
    intro e he
    rcases List.mem_cons.mp he with rfl | he
    · exact ⟨trivial, _, _, h.holds, h.good, h.holds, h.good, .inr ⟨_, hf ▸ hb⟩⟩
    · exact h.traced e he

theorem hwaWrite_spec {d : Nat → UInt8} (h : Sees g f K L st s) (hc : BlockOk g c)
    (hlt : (L p).length < g.pageEntries) (hd : ∀ i < g.writeBlockSize, d i = image c i)
    (hK : K (L.set p (L p ++ pad g c))) :
    wp (hwaWrite p (4 * (L p).length) ⟨g.writeBlockSize, d⟩) (fun r t => t.ram = s.ram ∧
      ((r = true ∧ Holds g (L.set p (L p ++ pad g c)) t.hwa.flash ∧ t.hwa.fails = f ∧
          ∀ e ∈ t.hwa.trace, Safe g f K e) ∨
        (r = false ∧ BlockFault g f c ∧ Sees g f K L st t))) s := by
  refine ⟨rfl, ?_⟩
  have hf := h.faults
  simp only [hwaWrite, liftHwa, Hwa.write, Hwa.issue, Hwa.tick]
  cases hb : s.hwa.fails s.hwa.calls (.write p (4 * (L p).length) ⟨g.writeBlockSize, d⟩) with
  | false =>
    left
    refine ⟨rfl, h.holds.program hc hlt hd, h.faults, ?_⟩
    intro e he
    rcases List.mem_cons.mp he with rfl | he
    · exact ⟨disciplined_program h.holds hlt, _, _, h.holds, h.good, h.holds.program hc hlt hd, hK,
        .inl ⟨rfl, c, hc, hd, rfl⟩⟩
    · exact h.traced e he
  | true =>
    right
    refine ⟨rfl, ⟨_, _, _, d, hd, hf ▸ hb⟩, h.faults, h.holds, h.staged, ?_, h.good⟩
    intro e he
    rcases List.mem_cons.mp he with rfl | he
    · exact ⟨disciplined_program h.holds hlt, _, _, h.holds, h.good, h.holds, h.good,
        .inr ⟨_, hf ▸ hb⟩⟩
    · exact h.traced e he

theorem hwaRead_spec (hf : s.hwa.fails = f) (o l : Nat) :
    wp (hwaRead p o l) (fun r t => t = s.atCalls (s.hwa.calls + 1) ∧
      (r = some ⟨l, fun i => s.hwa.flash p (o + i)⟩ ∨
        (r = none ∧ ∃ n, f n (.read p o l) = true))) s := by
  refine ⟨rfl, ?_⟩
  simp only [hwaRead, liftHwa, Hwa.read]
  cases hb : s.hwa.fails s.hwa.calls (.read p o l) with
  | false => exact Or.inl rfl
  | true => exact Or.inr ⟨rfl, _, hf ▸ hb⟩

end Zlibs.EmuEeprom
