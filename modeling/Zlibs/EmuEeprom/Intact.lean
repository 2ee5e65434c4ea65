import Zlibs.EmuEeprom.Factory

/-! What the flash may hold at any moment of an operation so that `init` finds the contents
again. -/
namespace Zlibs.EmuEeprom

open Zlibs.Lib

variable {g : Geometry} {K : Logs → Prop} {L : Logs} {s t : State} {S T b c R : List Entry}
  {A p q : Page} {e : Entry} {a : Nat} {r : Ram} {m : Contents}

/-- The values each address may show after a power loss. -/
def Permitted : Type := Nat → Option UInt16 → Prop

variable {V : Permitted}

/-- Every address of the instance has a value that is allowed. -/
def Permitted.Holds (V : Permitted) (g : Geometry) (m : Contents) : Prop :=
  ∀ a < g.maxAddress, V a (m a)

/-- No user entry of the log has the erased value. -/
def Named (S : List Entry) : Prop :=
  ∀ e ∈ live S, e.address ≠ reservedStatusAddress → e.value ≠ erasedValue

/-- A log of status records only. -/
def Bare (S : List Entry) : Prop := ∀ e ∈ live S, e.address = reservedStatusAddress

/-- `init` takes the contents from page `A`. -/
structure Recoverable (g : Geometry) (V : Permitted) (L : Logs) (A : Page) : Prop where
  runtime : A ≠ .factory
  marked : lastStatus (L A) = .valid
  other : lastStatus (L A.other) ≠ .valid
  spare : lastStatus (L A.other) = .formatted → L A.other = pad g [statusEntry .formatted]
  named : Named (L A)
  held : V.Holds g (lookup (L A))

/-- Neither runtime page is marked valid. -/
def Unmarked (L : Logs) : Prop := ∀ p, p ≠ .factory → lastStatus (L p) ≠ .valid

def Intact (g : Geometry) (V : Permitted) (L : Logs) : Prop :=
  Unmarked L ∨ ∃ A, Recoverable g V L A

theorem runtime_cases (hA : A ≠ .factory) (hp : p ≠ .factory) : p = A ∨ p = A.other := by
  cases A <;> cases p <;> simp_all [Page.other]

theorem Permitted.Holds.congr {n : Contents} (h : V.Holds g m)
    (hn : ∀ a < g.maxAddress, n a = m a) : V.Holds g n := fun a ha => hn a ha ▸ h a ha

theorem Named.congr (h : Named S) (hl : live T = live S) : Named T := fun e he => h e (hl ▸ he)

theorem Named.append (hS : Named S) (hT : Named T) : Named (S ++ T) := by
  intro e he
  rw [live_append] at he
  exact (List.mem_append.mp he).elim (hS e) (hT e)

theorem Bare.named (h : Bare S) : Named S := fun e he hne => absurd (h e he) hne

theorem bare_nil : Bare [] := fun _ he => absurd he List.not_mem_nil

theorem Bare.append (hS : Bare S) (hT : Bare T) : Bare (S ++ T) := by
  intro e he
  rw [live_append] at he
  exact (List.mem_append.mp he).elim (hS e) (hT e)

theorem bare_statusBlock {x : PageStatus} : Bare (pad g [statusEntry x]) := by
  intro e he
  rw [live_pad] at he
  rw [List.mem_singleton.mp (List.mem_filter.mp he).1]
  rfl

theorem bare_receivingLog : Bare (receivingLog g) := bare_statusBlock.append bare_statusBlock

theorem Bare.lookup (h : Bare S) (a : Nat) : lookup S a = none := by
  rw [← lookup_congr live_live]
  refine lastMatch_eq_none.mpr fun e he => ?_
  rw [valueOf, if_neg (fun hv => hv.1 (h e he))]

theorem Named.lookup_ne (h : Named S) (a : Nat) : EmuEeprom.lookup S a ≠ some erasedValue := by
  intro hl
  rw [← lookup_congr live_live] at hl
  obtain ⟨e, he, hv⟩ := exists_of_lastMatch_eq_some hl
  rw [valueOf] at hv
  split at hv
  case isTrue ha => exact h e he ha.1 (Option.some.inj hv)
  case isFalse => cases hv

theorem Named.user (h : Named S) (hv : e.value ≠ erasedValue) (hT : live T = live S ++ [e]) :
    Named T := by
  intro x hx
  rw [hT] at hx
  rcases List.mem_append.mp hx with hx | hx
  · exact h x hx
  · rw [List.mem_singleton.mp hx]
    exact fun _ => hv

/-- A copy of the mirror is named. -/
theorem Transferred.named {cache : Nat → UInt16} (hR : Named R)
    (h : Transferred g R (copied cache (List.range g.maxAddress)) T) :
    Named (T ++ pad g [statusEntry .valid]) := by
  refine Named.append ?_ bare_statusBlock.named
  intro e he
  rw [h.content] at he
  rcases List.mem_append.mp he with he | he
  · exact hR e he
  · obtain ⟨a, ha, rfl⟩ := List.mem_map.mp he
    have hne := of_decide_eq_true (List.mem_filter.mp ha).2
    exact fun _ => hne

theorem unmarked_of (hA : A ≠ .factory) (h : lastStatus (L A) ≠ .valid)
    (h' : lastStatus (L A.other) ≠ .valid) : Unmarked L := by
  intro p hp
  rcases runtime_cases hA hp with rfl | rfl
  · exact h
  · exact h'

theorem lastStatus_formattedBlock : lastStatus (pad g [statusEntry .formatted]) = .formatted :=
  lastStatus_append_statusEntry (S := []) nofun

theorem lastStatus_validBlock : lastStatus (pad g [statusEntry .valid]) = .valid :=
  lastStatus_append_statusEntry (S := []) nofun

theorem Recoverable.replace (hA : A ≠ .factory) (hm : lastStatus T = .valid)
    (ho : lastStatus (L A.other) ≠ .valid)
    (hs : lastStatus (L A.other) = .formatted → L A.other = pad g [statusEntry .formatted])
    (hn : Named T) (hT : V.Holds g (lookup T)) : Recoverable g V (L.set A T) A := by
  have hlog : L.set A T A.other = L A.other := Logs.set_ne (Page.other_ne hA)
  exact ⟨hA, by rw [Logs.set_self, hm], by rw [hlog]; exact ho, by rw [hlog]; exact hs,
    by rw [Logs.set_self]; exact hn, by rw [Logs.set_self]; exact hT⟩

/-- The page that is not valid may hold anything that is not marked valid itself. -/
theorem Recoverable.other_set (h : Recoverable g V L A) (hT : lastStatus T ≠ .valid)
    (hs : lastStatus T = .formatted → T = pad g [statusEntry .formatted]) :
    Recoverable g V (L.set A.other T) A := by
  have hlog : L.set A.other T A = L A := Logs.set_ne (Page.other_ne h.runtime).symm
  exact ⟨h.runtime, by rw [hlog, h.marked], by rw [Logs.set_self]; exact hT,
    by rw [Logs.set_self]; exact hs, by rw [hlog]; exact h.named, by rw [hlog]; exact h.held⟩

/-- The factory page does not matter. -/
theorem Recoverable.factory (h : Recoverable g V L A) :
    Recoverable g V (L.set .factory T) A := by
  have hlog : L.set .factory T A = L A := Logs.set_ne h.runtime
  have hother : L.set .factory T A.other = L A.other := Logs.set_ne Page.other_runtime
  exact ⟨h.runtime, by rw [hlog, h.marked], by rw [hother]; exact h.other,
    by rw [hother]; exact h.spare, by rw [hlog]; exact h.named, by rw [hlog]; exact h.held⟩

theorem live_prefix_silent {l n : List Entry} (h : Silent l) (hn : n <+: l) : Silent n :=
  fun e he => h e (hn.subset he)

/-- A receiving page stays one while entries are copied to it. -/
theorem lastStatus_copying {l n : List Entry} (hl : Silent l) (hn : n <+: l)
    (hT : live T = live (S ++ pad g [statusEntry .receiving]) ++ n) :
    lastStatus T = .receiving := by
  have hlive : live T = live (S ++ pad g [statusEntry .receiving] ++ n) := by
    rw [live_append (T := n), hT]
    congr 1
    have hmem : ∀ e ∈ n, e ∈ live T := fun e he => by
      rw [hT]
      exact List.mem_append_right _ he
    exact (List.filter_eq_self.mpr fun e he => (List.mem_filter.mp (hmem e he)).2).symm
  rw [lastStatus_congr hlive, (live_prefix_silent hl hn).lastStatus]
  exact lastStatus_append_statusEntry nofun

/-- Every moment of a transfer out of a page that holds the contents is recoverable. -/
theorem Recoverable.transferSafe (h : Recoverable g V L A) {cache : Nat → UInt16}
    (hbare : Bare (L A.other))
    (hcache : V.Holds g fun a => if cache a ≠ erasedValue then some (cache a) else none) :
    TransferSafe (Intact g V) g L A (copied cache (List.range g.maxAddress)) := by
  have hne := Page.other_ne h.runtime
  have hsilent : Silent (copied cache (List.range g.maxAddress)) :=
    silent_copied fun a ha => List.mem_range.mp ha
  have hR : L.marked g A.other .receiving A.other =
      L A.other ++ pad g [statusEntry .receiving] := Logs.set_self
  have hRbare : Bare (L A.other ++ pad g [statusEntry .receiving]) := hbare.append bare_statusBlock
  have hstatus : ∀ T, Transferred g (L.marked g A.other .receiving A.other)
      (copied cache (List.range g.maxAddress)) T → lastStatus T = .receiving := by
    intro T hT
    exact lastStatus_copying hsilent (List.prefix_refl _) (hR ▸ hT.content)
  refine ⟨Or.inr ⟨A, h⟩, ?_, ?_, ?_, ?_⟩
  · rintro T ⟨n, hn, hT⟩
    rw [List.append_nil, hR] at hT
    have hrecv := lastStatus_copying hsilent hn hT
    exact Or.inr ⟨A, h.other_set (by rw [hrecv]; nofun) (by rw [hrecv]; nofun)⟩
  · intro T hT
    refine Or.inl (unmarked_of h.runtime ?_ ?_)
    · rw [Logs.set_self, lastStatus_nil]
      nofun
    · rw [Logs.set_ne hne, Logs.set_self, hstatus T hT]
      nofun
  · intro T hT
    refine Or.inl (unmarked_of h.runtime ?_ ?_)
    · rw [Logs.set_self, lastStatus_formattedBlock]
      nofun
    · rw [Logs.set_ne hne, Logs.set_self, hstatus T hT]
      nofun
  · intro T hT
    rw [← Logs.set_comm hne.symm]
    have hspare : L.set A (pad g [statusEntry .formatted]) A.other.other =
        pad g [statusEntry .formatted] := by rw [Page.other_other h.runtime, Logs.set_self]
    rw [hR] at hT
    refine Or.inr ⟨A.other, .replace Page.other_runtime
      (lastStatus_append_statusEntry nofun) ?_ ?_ (hT.named hRbare.named) ?_⟩
    · rw [hspare, lastStatus_formattedBlock]
      nofun
    · exact fun _ => hspare
    · intro a ha
      rw [hT.lookup ha, hRbare.lookup]
      exact hcache a ha

end Zlibs.EmuEeprom
