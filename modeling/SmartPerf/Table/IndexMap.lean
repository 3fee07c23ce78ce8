import SmartPerf.Data.PartitionPoint

namespace SmartPerf.Table

open SmartPerf.Data

/-! The row selection of a table cursor, `base/index_map`.

A `TableRowId` is an `int32_t`.  The bounds of a map are integers here and every
computation that can leave 32 bits is reduced; rows that stand in a list or in a
column are numbered from zero.  `filters_` and `intersectEable_` are never read,
and `rowIndexBak_` is emptied before each use. -/

/-- `static_cast<TableRowId>`. -/
def toTableRowId (value : Int) : Int := value.bmod (2 ^ 32)

def invalidInt32 : Int := 2 ^ 31 - 1
def maxUint32 : Nat := 2 ^ 32 - 1
def maxUint64 : Nat := 2 ^ 64 - 1

/-- The `SQLITE_INDEX_CONSTRAINT_` operators the filters know; `other` stands
for the rest. -/
inductive ConstraintOp where
  | eq
  | ne
  | gt
  | ge
  | le
  | lt
  | isNull
  | isNotNull
  | other
deriving Repr, DecidableEq

/-- The right-hand side of a constraint. -/
inductive Operand where
  | null
  | integer (value : Int64)
deriving Repr, DecidableEq

/-- `sqlite3_value_int64`. -/
def Operand.int64 : Operand → Int
  | .null => 0
  | .integer value => value.toInt

def Operand.toUint64 (operand : Operand) : Nat := (operand.int64 % 2 ^ 64).toNat

/-- `static_cast<uint32_t>(sqlite3_value_int(..))`: the low half of the value. -/
def Operand.toUint32 (operand : Operand) : Nat := (operand.int64 % 2 ^ 32).toNat

inductive FindIndexType where
  | id
  | outerIndex
deriving Repr, DecidableEq

structure IndexMap where
  rowIndex : List Nat := []
  endRow : Int
  current : Int
  start : Int
  indexType : FindIndexType := .id
  empty : Bool := true
  desc : Bool := false
  converted : Bool := false
deriving Repr, DecidableEq

namespace IndexMap

def new (start endRow : Int) : IndexMap where
  endRow := endRow
  current := start
  start := start

variable (map : IndexMap)

def hasData : Bool := !map.empty

def convertToIndexMap : IndexMap :=
  if map.converted then { map with indexType := .outerIndex }
  else if map.indexType = .id ∧ map.hasData then
    let rowIndex := map.rowIndex ++ rangeFrom map.start map.endRow
    { map with
      rowIndex := rowIndex
      current := 0
      start := 0
      endRow := rowIndex.length
      indexType := .outerIndex
      empty := false
      converted := true }
  else { map with indexType := .outerIndex, empty := false, converted := true }

/-- The `changed` flag of `Intersect` and of `ProcessData`: rows are replaced
only when some are left. -/
def replaceIfChanged (rowIndex kept : List Nat) : List Nat :=
  if kept.isEmpty then rowIndex else kept

def intersect (start endRow : Int) : IndexMap :=
  match map.indexType with
  | .outerIndex =>
    let rowIndex := replaceIfChanged map.rowIndex
      (map.rowIndex.filter (fun row => decide (start ≤ row ∧ (row : Int) < endRow)))
    { map with rowIndex := rowIndex, start := 0, current := 0, endRow := rowIndex.length, empty := false }
  | .id =>
    { map with
      start := max map.start start
      endRow := min map.endRow endRow
      current := max map.start start
      empty := false }

def fixSize : IndexMap :=
  match map.indexType with
  | .outerIndex => { map with endRow := map.rowIndex.length, current := 0 }
  | .id => map

/-- `ProcessData`.  The two checks the source passes are complements: `keeps` is
the second. -/
def processData (size : Nat) (remove : Bool) (keeps : Nat → Bool) : IndexMap :=
  let rowIndex :=
    if remove then replaceIfChanged map.rowIndex (map.rowIndex.filter keeps)
    else map.rowIndex ++ (List.range size).filter keeps
  fixSize { map with rowIndex := rowIndex, indexType := .outerIndex }

variable (op : ConstraintOp)

/-- The test of `MixRange` on one element, unsigned. -/
def mixRangeKeeps (value invalidValue element : Nat) : Bool :=
  match op with
  | .eq => element == value
  | .ne => element != value
  | .isNull => element == invalidValue
  | .isNotNull => element != invalidValue
  | .gt => decide (element > value)
  | .ge => decide (element ≥ value)
  | .le => decide (element ≤ value)
  | .lt => decide (element < value)
  | .other => true

def mixRange (value invalidValue : Nat) (dataQueue : List Nat) : IndexMap :=
  let remove := map.hasData
  let prepared := if remove then map.convertToIndexMap else map
  let processed :=
    if op = .other then prepared
    else prepared.processData dataQueue.length remove
      (fun row => mixRangeKeeps op value invalidValue (dataQueue.getD row 0))
  { processed with empty := false }

def filterId (operand : Operand) : IndexMap :=
  match operand with
  | .null => map.intersect 0 0
  | .integer value =>
    let map := if map.hasData then map.convertToIndexMap else map
    let v := toTableRowId value.toInt
    match op with
    | .eq => map.intersect v (toTableRowId (v + 1))
    | .ge => map.intersect v map.endRow
    | .gt => map.intersect (toTableRowId (v + 1)) map.endRow
    | .le => map.intersect 0 (toTableRowId (v + 1))
    | .lt => map.intersect 0 v
    | _ => map

variable (rows : List Nat)

def lowerBound (v : Nat) : Nat :=
  partitionPoint (fun row => decide (row < v)) rows map.start.toNat map.endRow.toNat

def intersectabcEqual (v : Nat) : IndexMap :=
  let start := map.lowerBound rows v
  let endRow := partitionPoint (fun row => decide (row ≤ v)) rows start map.endRow.toNat
  map.intersect start endRow

def intersectGreaterEqual (v : Nat) : IndexMap :=
  map.intersect (map.lowerBound rows v) invalidInt32

/-- `std::upper_bound` calls its comparison with the value first, so that
`v > getValue(row)` compares the element with the value: the search ends at the
first element above `v`. -/
def intersectLessEqual (v : Nat) : IndexMap :=
  map.intersect 0 (partitionPoint (fun row => decide (row ≤ v)) rows map.start.toNat map.endRow.toNat)

def removeNullElements : IndexMap :=
  let present := fun row => rows.getD row 0 != maxUint64
  let map :=
    if map.hasData then
      let converted := map.convertToIndexMap
      { converted with rowIndex := converted.rowIndex.filter present }
    else { map with rowIndex := map.rowIndex ++ (List.range rows.length).filter present, empty := false }
  fixSize { map with indexType := .outerIndex }

def filterTS (operand : Operand) (times : List Nat) : IndexMap :=
  let v := operand.toUint64
  match op with
  | .eq => map.intersectabcEqual times v
  | .gt => map.intersectGreaterEqual times ((v + 1) % 2 ^ 64)
  | .ge => map.intersectGreaterEqual times v
  | .le => map.intersectLessEqual times ((v + 1) % 2 ^ 64)
  | .lt => map.intersectLessEqual times v
  | .isNotNull => map.removeNullElements times
  | _ => map

/-- The merge loop over two row lists.  Its branch for an exhausted second list
advances the wrong index and never ends: that is `none`. -/
def mergeRows : List Nat → List Nat → Option (List Nat)
  | [], other => some other
  | _ :: _, [] => none
  | a :: rows, b :: other =>
    if a < b then (mergeRows rows (b :: other)).map (a :: ·)
    else if a = b then (mergeRows rows other).map (a :: ·)
    else (mergeRows (a :: rows) other).map (b :: ·)
termination_by rows other => rows.length + other.length

/-- The part of `Merge` for two maps that are not both row lists.  The outer
option is `none` when a loop does not end, the inner one when the function
returns false. -/
def mergeIndexTypeId (map other : IndexMap) : Option (Option IndexMap) :=
  if map.indexType ≠ .id ∧ other.indexType ≠ .id then some none
  else if (other.start ≥ map.start ∧ other.start ≤ map.endRow) ∨
      (map.start ≥ other.start ∧ map.start ≤ other.endRow) then
    some (some { map with start := min map.start other.start, endRow := max map.endRow other.endRow })
  else
    let map' := map.convertToIndexMap
    let other' := other.convertToIndexMap
    -- neither copying loop advances its index
    let pending := if map.start > other.start then other'.rowIndex else map'.rowIndex
    if pending.isEmpty then
      some (some { map' with start := 0, current := 0, endRow := map'.rowIndex.length })
    else none

def merge (map other : IndexMap) : Option IndexMap :=
  match map.mergeIndexTypeId other with
  | none => none
  | some (some merged) => some merged
  | some none =>
    let map := map.convertToIndexMap
    match mergeRows map.rowIndex other.convertToIndexMap.rowIndex with
    | none => none
    | some rowIndex =>
      some { map with rowIndex := rowIndex, start := 0, current := 0, endRow := rowIndex.length }

def next : IndexMap :=
  if map.desc then
    if map.current > map.start - 1 then { map with current := map.current - 1 } else map
  else if map.current < map.endRow then { map with current := map.current + 1 } else map

def eof : Bool :=
  if map.desc then decide (map.current ≤ map.start - 1) else decide (map.current ≥ map.endRow)

def currentRow : Option Nat :=
  match map.indexType with
  | .id => some map.current.toNat
  | .outerIndex => map.rowIndex[map.current.toNat]?

def sortBy (desc : Bool) : IndexMap :=
  { map with current := if desc then map.endRow - 1 else map.start, desc := desc }

def visitLoop : Nat → IndexMap → Option (List Nat)
  | 0, _ => none
  | fuel + 1, map =>
    if map.eof then some []
    else
      match map.currentRow, visitLoop fuel map.next with
      | some row, some rest => some (row :: rest)
      | _, _ => none

/-- The rows sqlite reads: `CurrentRow` and `Next` until `Eof`. -/
def visit : Option (List Nat) :=
  map.visitLoop ((map.endRow - map.start).toNat + 1)

end IndexMap

end SmartPerf.Table
