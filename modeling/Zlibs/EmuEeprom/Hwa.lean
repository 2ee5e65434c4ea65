import Zlibs.EmuEeprom.Common

/-! The flash backend: erase fills a page with `0xFF`, programming clears bits, and any call may
be made to fail, in which case it has no effect on the flash. -/
namespace Zlibs.EmuEeprom

abbrev Flash := Page → Nat → UInt8

def Flash.setPage (flash : Flash) (page : Page) (data : Nat → UInt8) : Flash :=
  fun p => if p = page then data else flash p

def Flash.erase (flash : Flash) (page : Page) : Flash :=
  flash.setPage page fun _ => erasedByte

/-- Programming can only turn ones into zeros, so a block that is not erased keeps its zeros. -/
def Flash.program (flash : Flash) (page : Page) (offset : Nat) (data : Span) : Flash :=
  flash.setPage page fun i =>
    if offset ≤ i ∧ i < offset + data.size then flash page i &&& data.data (i - offset)
    else flash page i

/-- One virtual call of `Hwa`, with its arguments. -/
inductive HwaCall where
  | init
  | erasePage (page : Page)
  | write (page : Page) (offset : Nat) (data : Span)
  | read (page : Page) (offset size : Nat)

/-- A page erase or a block write as it was issued, whether or not it succeeded. -/
structure Event where
  call : HwaCall
  before : Flash
  after : Flash

/-- Which backend calls fail, by the number of calls made so far. -/
abbrev Faults := Nat → HwaCall → Bool

structure Hwa where
  flash : Flash
  fails : Faults
  calls : Nat
  /-- Erases and writes issued so far, the newest first. -/
  trace : List Event

def Hwa.tick (hwa : Hwa) : Hwa := { hwa with calls := hwa.calls + 1 }

/-- Issue a mutating call: it takes effect unless the fault pattern makes it fail. -/
def Hwa.issue (hwa : Hwa) (call : HwaCall) (effect : Flash) : Bool × Hwa :=
  let failed := hwa.fails hwa.calls call
  let flash := if failed then hwa.flash else effect
  (!failed, { hwa.tick with flash := flash, trace := ⟨call, hwa.flash, flash⟩ :: hwa.trace })

def Hwa.init (hwa : Hwa) : Bool × Hwa := (!hwa.fails hwa.calls .init, hwa.tick)

def Hwa.erasePage (hwa : Hwa) (page : Page) : Bool × Hwa :=
  hwa.issue (.erasePage page) (hwa.flash.erase page)

def Hwa.write (hwa : Hwa) (page : Page) (offset : Nat) (data : Span) : Bool × Hwa :=
  hwa.issue (.write page offset data) (hwa.flash.program page offset data)

def Hwa.read (hwa : Hwa) (page : Page) (offset size : Nat) : Option Span × Hwa :=
  (if hwa.fails hwa.calls (.read page offset size) then none
   else some ⟨size, fun i => hwa.flash page (offset + i)⟩, hwa.tick)

end Zlibs.EmuEeprom
