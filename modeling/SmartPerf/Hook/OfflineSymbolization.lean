import SmartPerf.Data.Machine
import SmartPerf.Data.SortedMap

namespace SmartPerf.Hook

open Data

/-! `OfflineSymbolizationFilter` and the events of `NativeHookFilter` that change what it knows. -/

def sttFunc : Nat := 2
def elf32Sym : Nat := 16

/-- An entry of a symbol table, of either width. -/
structure ElfSym where
  stName : Nat
  stInfo : Nat
  stValue : Nat
  stSize : Nat
deriving Repr, DecidableEq

structure SymbolTable where
  filePathId : Nat
  textExecVaddr : Nat
  textExecVaddrFileOffset : Nat
  symEntrySize : Nat
  symTable : List ElfSym
  strTable : List UInt8
deriving Repr, DecidableEq

structure MapsInfo where
  start : Nat
  endAddr : Nat
  offset : Nat
  filePathId : Nat
deriving Repr, DecidableEq

/-- The index of a symbol in the dictionary is kept as the name itself. -/
structure FrameInfo where
  filePathId : Nat := invalidUint32
  ip : Nat := invalidUint64
  symbolIndex : Option (List UInt8) := none
  offset : Nat := invalidUint64
  symbolOffset : Nat := invalidUint64
  symVaddr : Nat := invalidUint64
deriving Repr, DecidableEq

namespace SymbolTable

variable (table : SymbolTable)

/-- The entries that `UpdateSymbolTablePtrAndStValueToSymAddrMap` keeps. -/
def functions : List ElfSym :=
  if table.symEntrySize = 0 then []
  else table.symTable.filter fun sym => sym.stInfo &&& sttFunc ≠ 0 ∧ sym.stValue ≠ 0

/-- The entry before `upper_bound(symVaddr)`; of two entries with one value the later one counts. -/
def lastFunction (symVaddr : Nat) : Option ElfSym :=
  table.functions.foldl (fun best sym =>
    if sym.stValue ≤ symVaddr ∧ (best.elim 0 ElfSym.stValue) ≤ sym.stValue then some sym else best) none

/-- `st_value + st_size` in the width of the table. -/
def functionEnd (sym : ElfSym) : Nat :=
  (sym.stValue + sym.stSize) % (if table.symEntrySize = elf32Sym then 2 ^ 32 else 2 ^ 64)

end SymbolTable

/-- `CalcSymInfo` and the name that follows it. `GetSymbolStartMaybeUpdateFrameInfo` leaves the frame
alone where the function ends before the address. -/
def calcSymInfo (demangle : List UInt8 → List UInt8) (ip : Nat) (maps : MapsInfo) (table : SymbolTable)
    (frameInfo : FrameInfo) : FrameInfo :=
  let symVaddr := (((ip : Int) - maps.start + maps.offset + table.textExecVaddr - table.textExecVaddrFileOffset) %
    2 ^ 64).toNat
  let frameInfo := { frameInfo with symVaddr }
  if table.functions = [] then frameInfo
  else
    match (table.lastFunction symVaddr).filter fun sym => table.functionEnd sym ≥ symVaddr with
    | none => { frameInfo with offset := ip, symbolOffset := 0 }
    | some sym =>
      if sym.stName = invalidUint32 ∨ sym.stName ≥ table.strTable.length then
        { frameInfo with offset := ip, symbolOffset := 0 }
      else
        { frameInfo with
          offset := if sym.stValue ≠ 0 then sym.stValue else ip
          symbolOffset := symVaddr - sym.stValue
          symbolIndex := some (demangle ((table.strTable.drop sym.stName).takeWhile (· ≠ 0))) }

/-- The `DoubleMap`s are functions of both keys, the maps of a process a list sorted by start. -/
structure OfflineSymbolizationFilter where
  isSingleProcData : Bool := true
  startAddrToMapsInfo : Nat → List MapsInfo := fun _ => []
  ipToFrameInfo : Nat → Nat → Option FrameInfo := fun _ _ => none
  filePathIdToSymbolTable : Nat → Nat → Option SymbolTable := fun _ _ => none

namespace OfflineSymbolizationFilter

variable (demangle : List UInt8 → List UInt8) (filter : OfflineSymbolizationFilter) (maps : List MapsInfo) (ipid : Nat)

/-- `SINGLE_PROC_IPID` -/
def processKey (ipid : Nat) : Nat := if filter.isSingleProcData then 0 else ipid

/-- `FillFrameInfo`: the maps that hold the ip. -/
def fillFrameInfo (ip : Nat) : Option MapsInfo :=
  (lastUpTo MapsInfo.start maps ip).filter fun info => ip < info.endAddr ∧ info.filePathId ≠ invalidUint32

def insertFrameInfo (ipid ip : Nat) (frameInfo : FrameInfo) : OfflineSymbolizationFilter :=
  { filter with
    ipToFrameInfo := fun otherIpid otherIp =>
      if otherIpid = ipid ∧ otherIp = ip then some frameInfo else filter.ipToFrameInfo otherIpid otherIp }

def offlineSymbolizationByIp (ipid ip : Nat) : Option FrameInfo × OfflineSymbolizationFilter :=
  let ipid := filter.processKey ipid
  match filter.ipToFrameInfo ipid ip with
  | some frameInfo => (some frameInfo, filter)
  | none =>
    let frameInfo : FrameInfo := { ip }
    match fillFrameInfo (filter.startAddrToMapsInfo ipid) ip with
    | none => (if ip ≠ 0 then some frameInfo else none, filter)
    | some maps =>
      let frameInfo := { frameInfo with filePathId := maps.filePathId }
      match filter.filePathIdToSymbolTable ipid maps.filePathId with
      | none => (some frameInfo, filter.insertFrameInfo ipid ip frameInfo)
      | some table =>
        let frameInfo := calcSymInfo demangle ip maps table frameInfo
        (some frameInfo, filter.insertFrameInfo ipid ip frameInfo)

/-- Where `startItor` stands: what is before it, and what it and its successors point at. -/
def startItor (startAddr : Nat) : List MapsInfo × List MapsInfo :=
  let before := maps.takeWhile (·.start ≤ startAddr)
  let after := maps.dropWhile (·.start ≤ startAddr)
  match before.getLast? with
  | none => (before, after)
  | some last => if startAddr ≥ last.endAddr then (before, after) else (before.dropLast, last :: after)

/-- The start of the first maps of the same file that lead up to `startItor`. -/
def rangeStart (startAddr : Nat) : Option Nat :=
  match startItor maps startAddr with
  | (_, []) => none
  | (before, first :: _) =>
    some (((before.reverse.takeWhile (·.filePathId = first.filePathId)).getLast?.getD first).start)

/-- `GetNeedUpdateProcessMapsAddrRange`, with `none` for `INVALID_UINT64`. -/
def getNeedUpdateProcessMapsAddrRange (startAddr endAddr : Nat) : Option Nat × Option Nat :=
  if startAddr ≥ endAddr then (none, none)
  else
    let start := rangeStart maps startAddr
    match (maps.takeWhile (·.start ≤ endAddr)).getLast?, maps.dropWhile (·.start ≤ endAddr) with
    | _, [] => (start, none)
    | none, _ => (none, none)
    | some last, after => (start, (after.find? (·.filePathId ≠ last.filePathId)).map MapsInfo.start)

def inRange (start : Nat) (stop : Option Nat) (address : Nat) : Bool :=
  start ≤ address ∧ stop.all (address < ·)

def eraseRange (ipid start : Nat) (stop : Option Nat) : OfflineSymbolizationFilter :=
  { filter with
    ipToFrameInfo := fun otherIpid ip =>
      if otherIpid = ipid ∧ inRange start stop ip then none else filter.ipToFrameInfo otherIpid ip
    startAddrToMapsInfo := fun otherIpid =>
      if otherIpid = ipid then (filter.startAddrToMapsInfo ipid).filter (!inRange start stop ·.start)
      else filter.startAddrToMapsInfo otherIpid }

def insertMapsInfo (info : MapsInfo) : OfflineSymbolizationFilter :=
  { filter with
    startAddrToMapsInfo := fun otherIpid =>
      if otherIpid = ipid then insertByKey MapsInfo.start info (filter.startAddrToMapsInfo ipid)
      else filter.startAddrToMapsInfo otherIpid }

/-- `ParseMapsEvent`. The stacks that are symbolized before the update are queries before it. -/
def parseMapsEvent (info : MapsInfo) : OfflineSymbolizationFilter :=
  let ipid := filter.processKey ipid
  match getNeedUpdateProcessMapsAddrRange (filter.startAddrToMapsInfo ipid) info.start info.endAddr with
  | (some start, stop) =>
    if some start ≠ stop then (filter.eraseRange ipid start stop).insertMapsInfo ipid info
    else filter.insertMapsInfo ipid info
  | (none, _) => filter.insertMapsInfo ipid info

def deleteFrameInfoWhichNeedsReparse (ipid filePathId : Nat) : OfflineSymbolizationFilter :=
  { filter with
    ipToFrameInfo := fun otherIpid ip =>
      if otherIpid = ipid then (filter.ipToFrameInfo ipid ip).filter (·.filePathId ≠ filePathId)
      else filter.ipToFrameInfo otherIpid ip }

/-- `ProcSymbolTable`: the new table is assigned to a local pointer where the file has one already. -/
def procSymbolTable (reader : SymbolTable) : OfflineSymbolizationFilter :=
  match filter.filePathIdToSymbolTable ipid reader.filePathId with
  | some _ => filter.deleteFrameInfoWhichNeedsReparse ipid reader.filePathId
  | none =>
    { filter with
      filePathIdToSymbolTable := fun otherIpid filePathId =>
        if otherIpid = ipid ∧ filePathId = reader.filePathId then some reader
        else filter.filePathIdToSymbolTable otherIpid filePathId }

def parseSymbolTableEvent (reader : SymbolTable) : OfflineSymbolizationFilter :=
  filter.procSymbolTable (filter.processKey ipid) reader

end OfflineSymbolizationFilter

inductive SymbolEvent where
  | maps (ipid : Nat) (info : MapsInfo)
  | symbolTable (ipid : Nat) (reader : SymbolTable)
  | query (ipid ip : Nat)
deriving Repr, DecidableEq

def OfflineSymbolizationFilter.step (demangle : List UInt8 → List UInt8) (filter : OfflineSymbolizationFilter) :
    SymbolEvent → OfflineSymbolizationFilter
  | .maps ipid info => filter.parseMapsEvent ipid info
  | .symbolTable ipid reader => filter.parseSymbolTableEvent ipid reader
  | .query ipid ip => (filter.offlineSymbolizationByIp demangle ipid ip).2

end SmartPerf.Hook
