import Zlibs.EmuEeprom.Hwa

/-! `EmuEepromInternal`: its members, and its functions in the order of the source's call graph.
Loops run over the list of values their counter takes. -/
namespace Zlibs.EmuEeprom

inductive PageOperation where
  | read | write
  deriving DecidableEq, Repr

structure NextWriteOffsetCache where
  page : Page := .page1
  offset : Nat := 0
  deriving DecidableEq, Repr

/-- The data members. `cache` is the owner's storage, zero until `init` fills it. -/
structure Ram where
  cache : Nat → UInt16 := fun _ => 0
  writeBlockBuffer : Nat → UInt8 := fun _ => 0
  pageStatusCache : Page → PageStatus := fun _ => .erased
  nextWriteOffsetCache : NextWriteOffsetCache := {}
  writeBlockPage : Page := .page1
  writeBlockOffset : Nat := 0
  writeBlockEntries : Nat := 0
  writeBlockDirty : Bool := false
  cacheDirty : Bool := false

structure State where
  ram : Ram
  hwa : Hwa

abbrev M := StateM State

def modifyRam (f : Ram → Ram) : M Unit := modify fun s => { s with ram := f s.ram }

def liftHwa {α : Type} (f : Hwa → α × Hwa) : M α := fun s => ((f s.hwa).1, { s with hwa := (f s.hwa).2 })

def hwaInit : M Bool := liftHwa Hwa.init

def hwaErasePage (page : Page) : M Bool := liftHwa fun h => h.erasePage page

def hwaWrite (page : Page) (offset : Nat) (data : Span) : M Bool :=
  liftHwa fun h => h.write page offset data

def hwaRead (page : Page) (offset size : Nat) : M (Option Span) :=
  liftHwa fun h => h.read page offset size

namespace Geometry

variable (g : Geometry)

def readBlockSize (_ : Geometry) : Nat := internalBlockSize

def maxAddress : Nat := g.logicalAddressCount

def entriesPerBlock : Nat := g.writeBlockSize / serializedEntrySize

/-- `for (read_offset = 0; read_offset < _page_size; read_offset += _read_block_size)` -/
def readOffsets : List Nat := (List.range (g.pageSize / g.readBlockSize)).map (· * g.readBlockSize)

/-- `for (offset = 0; offset < _page_size; offset += _write_block_size)` -/
def writeOffsets : List Nat :=
  (List.range (g.pageSize / g.writeBlockSize)).map (· * g.writeBlockSize)

/-- The write blocks within one read block. -/
def withinReadBlock : List Nat :=
  (List.range (g.readBlockSize / g.writeBlockSize)).map (· * g.writeBlockSize)

end Geometry

def Ram.setCache (ram : Ram) (address : Nat) (value : UInt16) : Ram :=
  { ram with cache := fun a => if a = address then value else ram.cache a }

def Ram.setPageStatus (ram : Ram) (page : Page) (status : PageStatus) : Ram :=
  { ram with pageStatusCache := fun p => if p = page then status else ram.pageStatusCache p }

def Ram.setNextWriteOffset (ram : Ram) (page : Page) (offset : Nat) : Ram :=
  { ram with nextWriteOffsetCache := ⟨page, offset⟩ }

def Ram.clearWriteBlock (ram : Ram) : Ram :=
  { ram with
    writeBlockBuffer := fun _ => erasedByte
    writeBlockPage := .page1
    writeBlockOffset := 0
    writeBlockEntries := 0
    writeBlockDirty := false }

/-- `std::fill` of the RAM mirror together with the reset of `_cache_dirty` next to it. -/
def Ram.clearCache (ram : Ram) : Ram :=
  { ram with cache := fun _ => erasedValue, cacheDirty := false }

def findValidPage (statuses : Page → PageStatus) : PageOperation → Option Page
  | .write =>
    if statuses .page2 = .valid then
      some (if statuses .page1 = .receiving then .page1 else .page2)
    else if statuses .page1 = .valid then
      some (if statuses .page2 = .receiving then .page2 else .page1)
    else none
  | .read =>
    if statuses .page1 = .valid then some .page1
    else if statuses .page2 = .valid then some .page2
    else none

variable (g : Geometry)

def flushWriteBlock : M Bool := do
  let s ← get
  if !s.ram.writeBlockDirty then
    return true
  if !(← hwaWrite s.ram.writeBlockPage s.ram.writeBlockOffset
      ⟨g.writeBlockSize, s.ram.writeBlockBuffer⟩) then
    return false
  let cached := s.ram.nextWriteOffsetCache
  if cached.page = s.ram.writeBlockPage ∧ cached.offset > s.ram.writeBlockOffset ∧
      cached.offset < s.ram.writeBlockOffset + g.writeBlockSize then
    modifyRam (·.setNextWriteOffset s.ram.writeBlockPage
      (s.ram.writeBlockOffset + g.writeBlockSize))
  modifyRam Ram.clearWriteBlock
  return true

/-- A fresh staged block starts erased. -/
def Ram.stageBlock (ram : Ram) (page : Page) (blockOffset : Nat) : Ram :=
  { ram with
    writeBlockBuffer := fun _ => erasedByte
    writeBlockPage := page
    writeBlockOffset := blockOffset
    writeBlockEntries := 0
    writeBlockDirty := true }

def Ram.stageEntry (ram : Ram) (withinBlock : Nat) (entry : Entry) : Ram :=
  { ram with
    writeBlockBuffer := fun i =>
      if withinBlock ≤ i ∧ i < withinBlock + serializedEntrySize then
        serializeEntry entry (i - withinBlock)
      else ram.writeBlockBuffer i
    writeBlockEntries := ram.writeBlockEntries + 1 }

def writeEntry (page : Page) (offset : Nat) (entry : Entry) : M WriteStatus := do
  if offset + serializedEntrySize > g.pageSize then
    return .pageFull
  let blockOffset := offset / g.writeBlockSize * g.writeBlockSize
  let withinBlock := offset - blockOffset
  if withinBlock + serializedEntrySize > g.writeBlockSize then
    return .writeError
  let s ← get
  if s.ram.writeBlockDirty ∧
      (s.ram.writeBlockPage ≠ page ∨ s.ram.writeBlockOffset ≠ blockOffset) then
    if !(← flushWriteBlock g) then
      return .writeError
  if !(← get).ram.writeBlockDirty then
    modifyRam (·.stageBlock page blockOffset)
  modifyRam (·.stageEntry withinBlock entry)
  if (← get).ram.writeBlockEntries ≥ g.entriesPerBlock then
    if !(← flushWriteBlock g) then
      return .writeError
  return .ok

/-- The first erased write block of a read block that was read at `readOffset`. -/
def erasedBlockIn (buffer : Span) (readOffset : Nat) : Option Nat :=
  (g.withinReadBlock.find? fun within => allErased (buffer.subspan within g.writeBlockSize)).map
    (readOffset + ·)

/-- The scan shared by `find_next_free_offset` and `refresh_next_write_offset`: `none` when a read
fails, otherwise the first erased write block, if there is one. -/
def scanErasedBlock (page : Page) : List Nat → M (Option (Option Nat))
  | [] => return some none
  | readOffset :: rest => do
    match ← hwaRead page readOffset g.readBlockSize with
    | none => return none
    | some buffer =>
      match erasedBlockIn g buffer readOffset with
      | some offset => return some (some offset)
      | none => scanErasedBlock page rest

def findNextFreeOffset (page : Page) : M (Option Nat) := do
  return (← scanErasedBlock g page g.readOffsets).join

def refreshNextWriteOffset (page : Page) : M Bool := do
  match ← scanErasedBlock g page g.readOffsets with
  | none => return false
  | some (some offset) =>
    modifyRam (·.setNextWriteOffset page offset)
    return true
  | some none =>
    modifyRam (·.setNextWriteOffset page g.pageSize)
    return true

def statusOf (entry : Entry) : Option PageStatus :=
  if entry.address = reservedStatusAddress then deserializePageStatus entry.value else none

/-- The entries of a read block from `within` downwards, searched for a status record. -/
def statusIn (buffer : Span) (within : Nat) : Option PageStatus :=
  (List.range (within / serializedEntrySize + 1)).reverse.findSome? fun k =>
    statusOf (deserializeEntry (buffer.subspan
      (within % serializedEntrySize + k * serializedEntrySize) serializedEntrySize))

/-- The downward scan of `refresh_page_status`; the first argument counts the read blocks left
below the one that holds `offset`. -/
def scanPageStatus (page : Page) : Nat → Nat → M (Option PageStatus)
  | blocks, offset => do
    let readBlockOffset := offset / g.readBlockSize * g.readBlockSize
    match ← hwaRead page readBlockOffset g.readBlockSize with
    | none => return none
    | some buffer =>
      match statusIn buffer (offset - readBlockOffset) with
      | some status => return some status
      | none =>
        match blocks with
        | 0 => return some .erased
        | blocks + 1 => scanPageStatus page blocks (readBlockOffset - serializedEntrySize)

/-- Scan from `offset` and remember the status found. -/
def refreshPageStatusFrom (page : Page) (offset : Nat) : M Bool := do
  match ← scanPageStatus g page (offset / g.readBlockSize) offset with
  | none => return false
  | some status =>
    modifyRam (·.setPageStatus page status)
    return true

def refreshPageStatus (page : Page) : M Bool := do
  let s ← get
  if findValidPage s.ram.pageStatusCache .write = some page then
    let cached := s.ram.nextWriteOffsetCache
    if cached.page ≠ page ∨ cached.offset = 0 then
      if !(← refreshNextWriteOffset g page) then
        return false
    let cached := (← get).ram.nextWriteOffsetCache
    if cached.offset > 0 then
      refreshPageStatusFrom g page (min cached.offset g.pageSize - serializedEntrySize)
    else refreshPageStatusFrom g page (g.pageSize - serializedEntrySize)
  else refreshPageStatusFrom g page (g.pageSize - serializedEntrySize)

def pageStatus (page : Page) : M PageStatus := do
  if !(← refreshPageStatus g page) then
    return .erased
  return (← get).ram.pageStatusCache page

def writePageStatus (page : Page) (status : PageStatus) : M Bool := do
  if !(← flushWriteBlock g) then
    return false
  match ← findNextFreeOffset g page with
  | none => return false
  | some offset =>
    if (← writeEntry g page offset
        (makeEntry reservedStatusAddress (serializePageStatus status))) ≠ .ok then
      return false
    if !(← flushWriteBlock g) then
      return false
    if (← get).ram.nextWriteOffsetCache.page = page then
      modifyRam (·.setNextWriteOffset page
        (min (offset / g.writeBlockSize * g.writeBlockSize + g.writeBlockSize) g.pageSize))
    modifyRam (·.setPageStatus page status)
    return true

/-- `write_internal` past its range check and its cache-only branch. -/
def appendEntry (page : Page) (writeOffset : Nat) (entry : Entry) : M WriteStatus := do
  let status ← writeEntry g page writeOffset entry
  if status ≠ .ok then
    return status
  modifyRam (·.setNextWriteOffset page (writeOffset + serializedEntrySize))
  modifyRam (·.setCache entry.address.toNat entry.value)
  return .ok

def writeInternal (entry : Entry) (cacheOnly : Bool := false) : M WriteStatus := do
  if entry.address = reservedStatusAddress ∨ entry.address.toNat ≥ g.maxAddress then
    return .writeError
  if cacheOnly then
    modifyRam (·.setCache entry.address.toNat entry.value)
    modifyRam fun ram => { ram with cacheDirty := true }
    return .ok
  let s ← get
  match findValidPage s.ram.pageStatusCache .write with
  | none => return .noPage
  | some validPage =>
    let cached := s.ram.nextWriteOffsetCache
    if cached.page = validPage ∧ cached.offset ≠ 0 then
      if cached.offset ≥ g.pageSize then
        return .pageFull
      appendEntry g validPage cached.offset entry
    else
      if !(← refreshNextWriteOffset g validPage) then
        return .writeError
      let cached := (← get).ram.nextWriteOffsetCache
      if cached.offset ≥ g.pageSize then
        return .pageFull
      appendEntry g validPage cached.offset entry

/-- The entries of one write block that starts at `base` in the read block; `false` when one of
them names an address the instance does not have. -/
def cacheEntries (buffer : Span) (base : Nat) : List Nat → M Bool
  | [] => return true
  | entry :: rest => do
    let entryData := buffer.subspan (base + entry * serializedEntrySize) serializedEntrySize
    if allErased entryData then
      cacheEntries buffer base rest
    else
      let decoded := deserializeEntry entryData
      if decoded.address = reservedStatusAddress then
        cacheEntries buffer base rest
      else if decoded.address.toNat ≥ g.maxAddress then
        return false
      else
        modifyRam (·.setCache decoded.address.toNat decoded.value)
        cacheEntries buffer base rest

/-- The write blocks of one read block; `some` is an early return of `cache`. -/
def cacheWriteBlocks (page : Page) (buffer : Span) (readOffset : Nat) :
    List Nat → M (Option Bool)
  | [] => return none
  | within :: rest => do
    if allErased (buffer.subspan within g.writeBlockSize) then
      modifyRam (·.setNextWriteOffset page (readOffset + within))
      modifyRam Ram.clearWriteBlock
      return some true
    modifyRam (·.setNextWriteOffset page (readOffset + within + g.writeBlockSize))
    if !(← cacheEntries g buffer within (List.range g.entriesPerBlock)) then
      return some false
    cacheWriteBlocks page buffer readOffset rest

def cacheReadBlocks (page : Page) : List Nat → M Bool
  | [] => do
    modifyRam Ram.clearWriteBlock
    return true
  | readOffset :: rest => do
    match ← hwaRead page readOffset g.readBlockSize with
    | none => return false
    | some buffer =>
      match ← cacheWriteBlocks g page buffer readOffset g.withinReadBlock with
      | some result => return result
      | none => cacheReadBlocks page rest

def cache : M Bool := do
  modifyRam Ram.clearWriteBlock
  modifyRam Ram.clearCache
  modifyRam (·.setNextWriteOffset .page1 0)
  match findValidPage (← get).ram.pageStatusCache .read with
  | none => return false
  | some validPage => cacheReadBlocks g validPage g.readOffsets

/-- The cache dump of `page_transfer`. -/
def transferEntries : List Nat → M WriteStatus
  | [] => return .ok
  | address :: rest => do
    let value := (← get).ram.cache address
    if value = erasedValue then
      transferEntries rest
    else
      let status ← writeInternal g (makeEntry (UInt16.ofNat address) value)
      if status ≠ .ok then
        return status
      transferEntries rest

def Page.other : Page → Page
  | .page1 => .page2
  | .page2 => .page1
  | .factory => .page1

def pageTransfer : M WriteStatus := do
  if !(← flushWriteBlock g) then
    return .writeError
  match findValidPage (← get).ram.pageStatusCache .read with
  | none => return .noPage
  | some oldPage =>
    if oldPage = .factory then
      return .noPage
    let newPage := oldPage.other
    if !(← writePageStatus g newPage .receiving) then
      return .writeError
    modifyRam (·.setNextWriteOffset newPage 0)
    let status ← transferEntries g (List.range g.maxAddress)
    if status ≠ .ok then
      return status
    if !(← flushWriteBlock g) then
      return .writeError
    if !(← hwaErasePage oldPage) then
      return .writeError
    if !(← writePageStatus g oldPage .formatted) then
      return .writeError
    if !(← writePageStatus g newPage .valid) then
      return .writeError
    if !(← cache g) then
      return .writeError
    modifyRam fun ram => { ram with cacheDirty := false }
    return .ok

def write (entry : Entry) (cacheOnly : Bool := false) : M WriteStatus := do
  if entry.address = reservedStatusAddress ∨ entry.address.toNat ≥ g.maxAddress then
    return .writeError
  let status ← writeInternal g entry cacheOnly
  if status = .pageFull then
    let status ← pageTransfer g
    if status = .ok then
      writeInternal g entry
    else return status
  else return status

def flush : M Bool := do
  if (← get).ram.cacheDirty then
    if (← pageTransfer g) ≠ .ok then
      return false
  flushWriteBlock g

def readEntry (page : Page) (offset : Nat) : M (Option Entry) := do
  let blockOffset := offset / g.writeBlockSize * g.writeBlockSize
  let withinBlock := offset - blockOffset
  if withinBlock + serializedEntrySize > g.writeBlockSize then
    return none
  match ← hwaRead page blockOffset g.writeBlockSize with
  | none => return none
  | some buffer => return some (deserializeEntry (buffer.subspan withinBlock serializedEntrySize))

/-- The `while` loop of `read`; the counter is the number of entries below `offset`. -/
def readScan (page : Page) (address : Nat) : Nat → Nat → M (Option UInt16)
  | below, offset => do
    let next : M (Option UInt16) :=
      match below with
      | 0 => return none
      | below + 1 => readScan page address below (offset - serializedEntrySize)
    match ← readEntry g page offset with
    | none => next
    | some entry =>
      if entry.address.toNat = address then
        modifyRam (·.setCache address entry.value)
        return some entry.value
      else next

/-- The value is delivered only with status `Ok`. -/
def read (address : Nat) : M (ReadStatus × Option UInt16) := do
  if address ≥ g.maxAddress then
    return (.readError, none)
  let s ← get
  if s.ram.cache address ≠ erasedValue then
    return (.ok, some (s.ram.cache address))
  match findValidPage s.ram.pageStatusCache .read with
  | none => return (.noPage, none)
  | some validPage =>
    let cached := s.ram.nextWriteOffsetCache
    let readOffset :=
      if cached.page = validPage ∧ cached.offset > 0 then cached.offset - serializedEntrySize
      else g.pageSize - serializedEntrySize
    match ← readScan g validPage address (readOffset / serializedEntrySize) readOffset with
    | some value => return (.ok, some value)
    | none => return (.noVariable, none)

def format (formatFactoryPage : Bool := false) : M Bool := do
  modifyRam Ram.clearWriteBlock
  if !(← hwaErasePage .page1) then
    return false
  modifyRam (·.setPageStatus .page1 .erased)
  if !(← hwaErasePage .page2) then
    return false
  modifyRam (·.setPageStatus .page2 .erased)
  if formatFactoryPage then
    if !(← hwaErasePage .factory) then
      return false
    modifyRam (·.setPageStatus .factory .erased)
  modifyRam Ram.clearCache
  if !(← writePageStatus g .page1 .valid) then
    return false
  if !(← writePageStatus g .page2 .formatted) then
    return false
  modifyRam (·.setNextWriteOffset .page1 0)
  return true

/-- The block copy of `store_to_factory` and `restore_from_factory`, up to the first erased
block. -/
def copyBlocks (source target : Page) : List Nat → M Bool
  | [] => return true
  | offset :: rest => do
    match ← hwaRead source offset g.writeBlockSize with
    | none => return false
    | some block =>
      if allErased block then
        return true
      if !(← hwaWrite target offset block) then
        return false
      copyBlocks source target rest

def storeToFactory : M Bool := do
  if !(← flush g) then
    return false
  match findValidPage (← get).ram.pageStatusCache .read with
  | none => return false
  | some activePage =>
    if !(← hwaErasePage .factory) then
      return false
    modifyRam (·.setPageStatus .factory .erased)
    if !(← copyBlocks g activePage .factory g.writeOffsets) then
      return false
    modifyRam fun ram => ram.setPageStatus .factory (ram.pageStatusCache activePage)
    return true

def restoreFromFactory : M Bool := do
  if !(← refreshPageStatus g .factory) then
    return false
  if (← get).ram.pageStatusCache .factory ≠ .valid then
    return false
  modifyRam Ram.clearWriteBlock
  if !(← hwaErasePage .page1) then
    return false
  modifyRam (·.setPageStatus .page1 .erased)
  if !(← hwaErasePage .page2) then
    return false
  modifyRam (·.setPageStatus .page2 .erased)
  modifyRam Ram.clearCache
  if !(← copyBlocks g .factory .page1 g.writeOffsets) then
    return false
  if !(← writePageStatus g .page1 .valid) then
    return false
  if !(← writePageStatus g .page2 .formatted) then
    return false
  modifyRam (·.setNextWriteOffset .page1 0)
  cache g

/-- What the repair switch of `init` does next: give up, or go on with this `do_cache`. -/
inductive Repair where
  | fail
  | proceed (doCache : Bool)
  deriving DecidableEq, Repr

def reformat (doCache : Bool) : M Repair := do
  if !(← format g) then
    return .fail
  return .proceed doCache

/-- An erased page next to a valid one is formatted. -/
def formatErasedPage (page : Page) : M Repair := do
  if !(← hwaErasePage page) then
    return .fail
  if !(← writePageStatus g page .formatted) then
    return .fail
  return .proceed true

/-- An interrupted transfer into `page` is done again from the valid page. -/
def repeatTransfer (page : Page) : M Repair := do
  if !(← hwaErasePage page) then
    return .fail
  if !(← cache g) then
    reformat g false
  else if (← pageTransfer g) ≠ .ok then
    reformat g false
  else return .proceed false

def repairPages : PageStatus → PageStatus → M Repair
  | .erased, .valid => formatErasedPage g .page1
  | .erased, _ => reformat g false
  | .receiving, .valid => repeatTransfer g .page1
  | .receiving, _ => reformat g false
  | .valid, .valid => reformat g true
  | .valid, .erased => formatErasedPage g .page2
  | .valid, .formatted => return .proceed true
  | .valid, .receiving => repeatTransfer g .page2
  | .formatted, .valid => return .proceed true
  | .formatted, _ => reformat g false

def init : M Bool := do
  if !(← hwaInit) then
    return false
  modifyRam Ram.clearWriteBlock
  modifyRam (·.setNextWriteOffset .page1 0)
  modifyRam Ram.clearCache
  if !(← refreshPageStatus g .page1) then
    return false
  if !(← refreshPageStatus g .page2) then
    return false
  if !(← refreshPageStatus g .factory) then
    return false
  let statuses := (← get).ram.pageStatusCache
  match ← repairPages g (statuses .page1) (statuses .page2) with
  | .fail => return false
  | .proceed doCache =>
    if doCache then
      if !(← cache g) then
        return ← format g
    return true

end Zlibs.EmuEeprom
