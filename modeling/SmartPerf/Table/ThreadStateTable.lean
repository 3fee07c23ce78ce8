import SmartPerf.Table.IndexMap

namespace SmartPerf.Table

/-! The `thread_state` virtual table: its columns, the constraints it accepts
and the cursor that visits its rows.  The estimated costs that `BestIndex`
returns do not change which rows are visited and are left out. -/

/-- `EndState`. -/
inductive EndState where
  | runnable
  | interruptible
  | uninterruptible
  | running
  | stopped
  | traced
  | exitDead
  | uninterruptibleIo
  | uninterruptibleNio
  | zombie
  | parked
  | dead
  | dk
  | dkIo
  | dkNio
  | tracedKill
  | wakekill
  | new
  | runnableBinder
  | max
  | invalid
deriving Repr, DecidableEq

def EndState.code : EndState → Nat
  | .runnable => 0
  | .interruptible => 1
  | .uninterruptible => 2
  | .running => 3
  | .stopped => 4
  | .traced => 8
  | .exitDead => 16
  | .uninterruptibleIo => 21
  | .uninterruptibleNio => 22
  | .zombie => 32
  | .parked => 64
  | .dead => 128
  | .dk => 130
  | .dkIo => 131
  | .dkNio => 132
  | .tracedKill => 136
  | .wakekill => 256
  | .new => 2048
  | .runnableBinder => 2049
  | .max => 4096
  | .invalid => 0x8000

/-- `statusString_`. -/
def EndState.statusString : EndState → String
  | .runnable => "R"
  | .interruptible => "S"
  | .uninterruptible => "D"
  | .uninterruptibleIo => "D-IO"
  | .uninterruptibleNio => "D-NIO"
  | .running => "Running"
  | .stopped => "T"
  | .traced => "t"
  | .exitDead => "X"
  | .zombie => "Z"
  | .parked => "P"
  | .dead => "I"
  | .dk => "DK"
  | .dkIo => "DK-IO"
  | .dkNio => "DK-NIO"
  | .tracedKill => "TK"
  | .wakekill => "R+"
  | .new => "R+"
  | .runnableBinder => "R-B"
  | .max => "S"
  | .invalid => "U"

/-- The keys of `statusString_`, in the order of the map. -/
def EndState.all : List EndState :=
  [.runnable, .interruptible, .uninterruptible, .running, .stopped, .traced, .exitDead,
    .uninterruptibleIo, .uninterruptibleNio, .zombie, .parked, .dead, .dk, .dkIo, .dkNio,
    .tracedKill, .wakekill, .new, .runnableBinder, .max, .invalid]

/-- `GetThreadStateValue`: `threadStatus2Value_` is filled in key order, so the
last state of a text is the one found. -/
def getThreadStateValue (status : String) : Nat :=
  match (EndState.all.filter (fun state => state.statusString == status)).getLast? with
  | some state => state.code
  | none => maxUint64

structure ThreadStateRow where
  id : UInt64
  ts : UInt64
  dur : UInt64
  cpu : UInt32
  itid : UInt32
  tid : UInt32
  pid : UInt32
  state : EndState
  argSetId : UInt32
deriving Repr, DecidableEq

/-- The content of the table: rows a `TableRowId` can number, in the order of
their timestamps. -/
structure ThreadStateTable where
  rows : List ThreadStateRow
  numbered : rows.length < 2 ^ 31
  ordered : rows.Pairwise (fun earlier later => earlier.ts ≤ later.ts)

/-- `enum class Index`. -/
inductive Column where
  | id
  | ts
  | dur
  | cpu
  | internalTid
  | tid
  | pid
  | state
  | argSetId
deriving Repr, DecidableEq

variable (table : ThreadStateTable)

def ThreadStateTable.dataQueue : Column → List Nat
  | .id => table.rows.map (fun row => row.id.toNat)
  | .ts => table.rows.map (fun row => row.ts.toNat)
  | .dur => table.rows.map (fun row => row.dur.toNat)
  | .cpu => table.rows.map (fun row => row.cpu.toNat)
  | .internalTid => table.rows.map (fun row => row.itid.toNat)
  | .tid => table.rows.map (fun row => row.tid.toNat)
  | .pid => table.rows.map (fun row => row.pid.toNat)
  | .state => table.rows.map (fun row => row.state.code)
  | .argSetId => table.rows.map (fun row => row.argSetId.toNat)

inductive SqlValue where
  | null
  | integer (value : Int)
  | text (value : String)
deriving Repr, DecidableEq

/-- `static_cast<sqlite3_int64>` of a `uint64_t`. -/
def sqliteInt64 (value : Nat) : Int := (value : Int).bmod (2 ^ 64)

/-- `Cursor::Column`. -/
def ThreadStateRow.column (row : ThreadStateRow) : Column → SqlValue
  | .id => .integer (toTableRowId row.id.toNat)
  | .ts => .integer (sqliteInt64 row.ts.toNat)
  | .dur => if row.dur.toNat = maxUint64 then .null else .integer (sqliteInt64 row.dur.toNat)
  | .cpu => if row.cpu.toNat = maxUint32 then .null else .integer row.cpu.toNat
  | .internalTid => .integer row.itid.toNat
  | .tid => .integer row.tid.toNat
  | .pid => .integer row.pid.toNat
  | .state => .text row.state.statusString
  | .argSetId => if row.argSetId.toNat = maxUint32 then .null else .integer row.argSetId.toNat

/-- A constraint together with the operand `argv` holds for it. -/
structure Constraint where
  col : Column
  op : ConstraintOp
  operand : Operand
deriving Repr, DecidableEq

structure OrderBy where
  iColumn : Column
  desc : Bool
deriving Repr, DecidableEq

/-- `CanFilterId` and `CanFilterSorted` accept the same operators. -/
def canFilter (op : ConstraintOp) : Bool :=
  match op with
  | .eq | .gt | .ge | .le | .lt => true
  | _ => false

/-- `FilterByConstraint`: whether the constraint becomes `isSupport`. -/
def filterByConstraint (constraint : Constraint) : Bool :=
  match constraint.col with
  | .id | .ts => canFilter constraint.op
  | _ => false

/-- The `omit` flag that `BestIndex` sets.  `CalculateFilterCost` passes the row
count by value, so it does not shrink from one constraint to the next. -/
def ThreadStateTable.omits (constraint : Constraint) : Bool :=
  decide (1 < table.rows.length) && filterByConstraint constraint

/-- `SwapIndexFront`: the first constraint on a column of the set changes places
with the first constraint. -/
def swapIndexFront {α : Type} (inSet : α → Bool) : List α → List α
  | [] => []
  | front :: rest =>
    if inSet front then front :: rest
    else
      match rest.findIdx? inSet with
      | none => front :: rest
      | some index =>
        match rest[index]? with
        | none => front :: rest
        | some found => found :: rest.set index front

/-- The value the `MixRange` call of a column compares with, and the largest
value of the column's type.  A text read from a null operand is a null pointer,
which `std::string` does not accept. -/
def mixRangeValue (col : Column) (operand : Operand) : Option (Nat × Nat) :=
  match col with
  | .dur => some (operand.toUint64, maxUint64)
  | .state =>
    match operand with
    | .null => none
    | .integer value => some (getThreadStateValue (toString value.toInt), maxUint64)
  | _ => some (operand.toUint32, maxUint32)

/-- One turn of `HandleIndex`. -/
def ThreadStateTable.handleConstraint (map : IndexMap) (constraint : Constraint) : Option IndexMap :=
  match constraint.col with
  | .id => some (map.filterId constraint.op constraint.operand)
  | .ts => some (map.filterTS constraint.op constraint.operand (table.dataQueue .ts))
  | col =>
    match mixRangeValue col constraint.operand with
    | none => none
    | some (value, invalidValue) =>
      some (map.mixRange constraint.op value invalidValue (table.dataQueue col))

def ThreadStateTable.handleConstraints (table : ThreadStateTable) :
    IndexMap → List Constraint → Option IndexMap
  | map, [] => some map
  | map, constraint :: rest =>
    match table.handleConstraint map constraint with
    | none => none
    | some next => table.handleConstraints next rest

def ThreadStateTable.handleIndex (map : IndexMap) (constraints : List Constraint) : Option IndexMap :=
  table.handleConstraints map (swapIndexFront (fun constraint => decide (constraint.col = .ts)) constraints)

/-- The order-by loop of `Filter`, which runs from the last term to the first. -/
def sortByOrders (map : IndexMap) (orderBys : List OrderBy) : IndexMap :=
  orderBys.foldr
    (fun order map =>
      match order.iColumn with
      | .id | .ts => map.sortBy order.desc
      | _ => map)
    map

/-- `Cursor::Filter` after the `Reset` that precedes each call.  The map is
fresh, so the constraints act on it directly and it is merged with itself. -/
def ThreadStateTable.filter (constraints : List Constraint) (orderBys : List OrderBy) : Option IndexMap :=
  let indexMap := IndexMap.new 0 table.rows.length
  if table.rows.length = 0 then some indexMap
  else
    match table.handleIndex indexMap constraints with
    | none => none
    | some indexMap =>
      let merged := if indexMap.hasData then indexMap.merge indexMap else some indexMap
      merged.map (fun indexMap => sortByOrders indexMap orderBys)

def ThreadStateTable.visited (constraints : List Constraint) (orderBys : List OrderBy) : Option (List Nat) :=
  (table.filter constraints orderBys).bind IndexMap.visit

end SmartPerf.Table
