import SmartPerf.Data.Machine

namespace SmartPerf.Slice

open Data

/-! `CallStack`, the table of slices: one deque for each column. -/

def invalidUint8 : Nat := 2 ^ 8 - 1
def invalidUint32 : Nat := 2 ^ 32 - 1
def invalidUint64 : Nat := 2 ^ 64 - 1
def invalidInt64 : Int := 2 ^ 63 - 1

structure CallStackInternalRow where
  startT : Nat := invalidUint64
  durationNs : Nat := invalidUint64
  internalTid : Nat := invalidUint32
  cat : Nat := invalidUint64
  name : Nat := invalidUint64
  depth : Nat := invalidUint8
deriving Repr, DecidableEq

structure CallStack where
  ids : List Nat := []
  timeStamps : List Nat := []
  durs : List Nat := []
  callIds : List Nat := []
  colorIndexs : List Nat := []
  parentIds : List (Option Nat) := []
  cats : List Nat := []
  names : List Nat := []
  depths : List Nat := []
  cookies : List Int := []
  chainIds : List String := []
  spanIds : List String := []
  parentSpanIds : List String := []
  flags : List String := []
  argSet : List Nat := []
  -- the id of the next row
  id : Nat := 0
  readySize : Nat := 0
  diskTableSize : Nat := 0
deriving Repr, DecidableEq

namespace CallStack

variable (table : CallStack)

def size : Nat := max table.timeStamps.length table.ids.length

def appendCommonInfo (startT durationNs internalTid : Nat) : CallStack :=
  { table with
    timeStamps := table.timeStamps ++ [startT]
    durs := table.durs ++ [durationNs]
    callIds := table.callIds ++ [internalTid]
    colorIndexs := table.colorIndexs ++ [0] }

def appendCallStack (cat name depth : Nat) (parentId : Option Nat) : CallStack :=
  { table with
    parentIds := table.parentIds ++ [parentId]
    cats := table.cats ++ [cat]
    names := table.names ++ [name]
    depths := table.depths ++ [depth] }

def appendDistributeInfo : CallStack :=
  { table with
    chainIds := table.chainIds ++ [""]
    spanIds := table.spanIds ++ [""]
    parentSpanIds := table.parentSpanIds ++ [""]
    flags := table.flags ++ [""]
    argSet := table.argSet ++ [invalidUint32] }

def appendInternalSlice (row : CallStackInternalRow) (parentId : Option Nat) : CallStack :=
  let table := table.appendCommonInfo row.startT row.durationNs row.internalTid
  let table := table.appendCallStack row.cat row.name row.depth parentId
  let table := { table with
    ids := table.ids ++ [table.id]
    id := table.id + 1
    cookies := table.cookies ++ [invalidInt64] }
  table.appendDistributeInfo

def setDur (index dur : Nat) : CallStack := { table with durs := table.durs.set index dur }

def setDuration (index timeStamp : Nat) : CallStack :=
  table.setDur index (subUint64 timeStamp (table.timeStamps.getD index 0))

def setDurationEx (index dur : Nat) : CallStack := table.setDur index (dur % 2 ^ 32)

def setFlag (index flag : Nat) : CallStack :=
  { table with flags := table.flags.set index (toString flag) }

def setDurationWithFlag (index timeStamp : Nat) : CallStack :=
  let table := table.setDuration index timeStamp
  { table with flags := table.flags.set index "1" }

def setArgSetId (index argSetId : Nat) : CallStack :=
  { table with argSet := table.argSet.set index argSetId }

def setIrqDurAndArg (index timeStamp argSetId : Nat) : CallStack :=
  (table.setDuration index timeStamp).setArgSetId index argSetId

def setDepth (index depth : Nat) : CallStack :=
  { table with depths := table.depths.set index depth }

def updateReadySize (size : Nat) : CallStack := { table with readySize := size }

/-- `EraseElements` of every column but `parentIds`, which the source leaves out. -/
def clearExportedData : CallStack :=
  let ready := table.readySize
  { table with
    timeStamps := table.timeStamps.drop ready
    ids := table.ids.drop ready
    durs := table.durs.drop ready
    cats := table.cats.drop ready
    cookies := table.cookies.drop ready
    colorIndexs := table.colorIndexs.drop ready
    callIds := table.callIds.drop ready
    names := table.names.drop ready
    depths := table.depths.drop ready
    chainIds := table.chainIds.drop ready
    spanIds := table.spanIds.drop ready
    parentSpanIds := table.parentSpanIds.drop ready
    flags := table.flags.drop ready
    argSet := table.argSet.drop ready
    diskTableSize := table.diskTableSize + ready
    readySize := 0 }

end CallStack

/-- A row across the columns. -/
structure CallStackRow where
  id : Nat
  timeStamp : Nat
  dur : Nat
  callId : Nat
  colorIndex : Nat := 0
  parentId : Option Nat
  cat : Nat
  name : Nat
  depth : Nat
  cookie : Int := invalidInt64
  chainId : String := ""
  spanId : String := ""
  parentSpanId : String := ""
  flag : String := ""
  argSetId : Nat := invalidUint32
deriving Repr, DecidableEq

def CallStackInternalRow.append (row : CallStackInternalRow) (id : Nat) (parentId : Option Nat) : CallStackRow :=
  { id, parentId, timeStamp := row.startT, dur := row.durationNs, callId := row.internalTid, cat := row.cat,
    name := row.name, depth := row.depth }

namespace CallStack

/-- The table whose columns are those of `rows`. -/
def ofRows (rows : List CallStackRow) : CallStack where
  ids := rows.map (·.id)
  timeStamps := rows.map (·.timeStamp)
  durs := rows.map (·.dur)
  callIds := rows.map (·.callId)
  colorIndexs := rows.map (·.colorIndex)
  parentIds := rows.map (·.parentId)
  cats := rows.map (·.cat)
  names := rows.map (·.name)
  depths := rows.map (·.depth)
  cookies := rows.map (·.cookie)
  chainIds := rows.map (·.chainId)
  spanIds := rows.map (·.spanId)
  parentSpanIds := rows.map (·.parentSpanId)
  flags := rows.map (·.flag)
  argSet := rows.map (·.argSetId)
  id := rows.length

variable {rows : List CallStackRow} {index : Nat} {row : CallStackRow}

@[simp]
theorem size_ofRows (rows : List CallStackRow) : (ofRows rows).size = rows.length := by
  simp [size, ofRows]

theorem appendInternalSlice_ofRows (rows : List CallStackRow) (row : CallStackInternalRow) (parentId : Option Nat) :
    (ofRows rows).appendInternalSlice row parentId = ofRows (rows ++ [row.append rows.length parentId]) := by
  simp [appendInternalSlice, appendCommonInfo, appendCallStack, appendDistributeInfo, ofRows,
    CallStackInternalRow.append]

section
variable (found : rows[index]? = some row)
include found

theorem map_set_same {Column : Type} {column : CallStackRow → Column} {changed : CallStackRow}
    (same : column changed = column row) : (rows.set index changed).map column = rows.map column := by
  obtain ⟨inside, rfl⟩ := List.getElem?_eq_some_iff.mp found
  rw [List.map_set, same]
  apply List.ext_getElem?
  intro place
  rw [List.getElem?_set]
  split
  next here =>
    subst here
    simp [inside]
  · rfl

theorem setDur_ofRows (dur : Nat) : (ofRows rows).setDur index dur = ofRows (rows.set index { row with dur }) := by
  simp [ofRows, setDur, map_set_same found]

theorem setDepth_ofRows (depth : Nat) : (ofRows rows).setDepth index depth = ofRows (rows.set index { row with depth }) := by
  simp [ofRows, setDepth, map_set_same found]

theorem setDuration_ofRows (timeStamp : Nat) : (ofRows rows).setDuration index timeStamp =
      ofRows (rows.set index { row with dur := subUint64 timeStamp row.timeStamp }) := by
  have start : (ofRows rows).timeStamps.getD index 0 = row.timeStamp := by
    simp [ofRows, found]
  rw [setDuration, start, setDur_ofRows found]

end

end CallStack

end SmartPerf.Slice
