import Zlibs.Lib.Run
import Zlibs.EmuEeprom.Internal

/-! The public calls of an instance, and the flash an instance may be started on. -/
namespace Zlibs.EmuEeprom

open Zlibs.Lib

inductive Operation where
  | init
  | read (address : Nat)
  | write (entry : Entry) (cacheOnly : Bool)
  | flush
  | pageTransfer
  | pageStatus (page : Page)
  | format (formatFactoryPage : Bool)
  | storeToFactory
  | restoreFromFactory
  deriving DecidableEq, Repr

/-- What a call returns. -/
inductive Outcome where
  | done (result : Bool)
  | delivered (status : ReadStatus) (value : Option UInt16)
  | written (status : WriteStatus)
  | page (status : PageStatus)
  deriving DecidableEq, Repr

variable (g : Geometry)

def perform : Operation → M Outcome
  | .init => return .done (← init g)
  | .read address => do
    let (status, value) ← read g address
    return .delivered status value
  | .write entry cacheOnly => return .written (← write g entry cacheOnly)
  | .flush => return .done (← flush g)
  | .pageTransfer => return .written (← pageTransfer g)
  | .pageStatus page => return .page (← pageStatus g page)
  | .format formatFactoryPage => return .done (← format g formatFactoryPage)
  | .storeToFactory => return .done (← storeToFactory g)
  | .restoreFromFactory => return .done (← restoreFromFactory g)

/-- A new instance over a flash. -/
def State.powerUp (flash : Flash) (fails : Faults) : State := ⟨{}, ⟨flash, fails, 0, []⟩⟩

/-- What a read of each address delivers. -/
def contents (s : State) (address : Nat) : Option UInt16 := (read g address s).1.2

/-- The reads of several addresses, one after another. -/
def readAll : List Nat → M (List (ReadStatus × Option UInt16))
  | [] => return []
  | address :: rest => do
    let value ← read g address
    let values ← readAll rest
    return value :: values

/-- A call and what it returned. -/
abbrev Call := Operation × Outcome

/-- Several calls, one after another. -/
def performAll : List Operation → M (List Call)
  | [] => return []
  | op :: rest => do
    let out ← perform g op
    let calls ← performAll rest
    return (op, out) :: calls

variable {g} {start : State → Prop} {next : List Call → State → Call → State → Prop}

/-- Calls that are always admitted extend a run. -/
theorem run_performAll {ops : List Operation} {calls : List Call} {s : State}
    (hn : ∀ h s, ∀ op ∈ ops, next h s (op, (perform g op s).1) (perform g op s).2)
    (hr : Run start next calls s) :
    Run start next (calls ++ (performAll g ops s).1) (performAll g ops s).2 := by
  induction ops generalizing calls s with
  | nil =>
    show Run start next (calls ++ []) s
    rwa [List.append_nil]
  | cons op ops ih =>
    have hstep := hr.snoc (hn calls s op List.mem_cons_self)
    have hrest := ih (fun h s o ho => hn h s o (List.mem_cons_of_mem _ ho)) hstep
    rwa [List.append_assoc] at hrest

/-- The backend never fails. -/
def never : Faults := fun _ _ => false

/-- A page of one read block with four write blocks, and as many addresses as that allows. -/
def smallGeometry : Geometry where
  pageSize := 256
  writeBlockSize := 64
  logicalAddressCount := 16
  count_pos := by decide
  count_uint16 := by decide
  page_pos := by decide
  page_entry := by decide
  page_internal := by decide
  page_uint32 := by decide
  block_min := by decide
  block_entry := by decide
  block_max := by decide
  block_internal := by decide
  capacity_pos := by decide
  count_le := by decide

def blankFlash : Flash := fun _ _ => erasedByte

end Zlibs.EmuEeprom
