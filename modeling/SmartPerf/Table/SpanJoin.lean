import SmartPerf.Data.TwoPointers

namespace SmartPerf.Table

open Data

/-! The join of two tables of spans: each table is read by a `CaclSpan` that steps through real spans, gaps and missing
partitions, and the cursor moves the one whose span ends first. -/

def int64Max : Int := 9223372036854775807

def int32Max : Int := 2147483647

/-- A row of the ordered query over a table. Partitions have 32 bits; the greatest time and the greatest partition mark the
end and are no values. Sums of times do not leave the range of 64 bits and are plain integers here. -/
structure SpanRow where
  ts : Int
  dur : Int
  partition : Option Int
  ts_lt : ts < int64Max
  partition_range : ∀ value ∈ partition, -2147483648 ≤ value ∧ value < int32Max
deriving DecidableEq

inductive PartitionState where
  | tsReal
  | tsPartition
  | tsMissing
  | tsEof
deriving Repr, DecidableEq

/-- The statement stands on `current`, or is at its end. -/
structure CaclSpan where
  current : Option SpanRow := none
  rest : List SpanRow
  ts : Int := 0
  endTs : Int := 0
  partitionState : PartitionState := .tsMissing
  partition : Int := 0
  missPartitionEnd : Int := 0
deriving DecidableEq

namespace CaclSpan

variable (span : CaclSpan)

def isEof : Bool := span.current.isNone

def columnTs : Int := (span.current.map SpanRow.ts).getD 0

def columnDur : Int := (span.current.map SpanRow.dur).getD 0

def columnPartition : Int := (span.current.bind SpanRow.partition).getD 0

def getCursorNext : CaclSpan :=
  match span.rest.dropWhile fun row => row.partition.isNone with
  | [] => { span with current := none, rest := [] }
  | row :: rest => { span with current := some row, rest := rest }

def getNextState : Option CaclSpan :=
  match span.partitionState with
  | .tsReal =>
    let span := span.getCursorNext
    some { span with
      partitionState := .tsPartition
      ts := span.endTs
      endTs := if span.isEof ∨ span.partition ≠ span.columnPartition then int64Max else span.columnTs }
  | .tsPartition =>
    if span.endTs = int64Max then
      some { span with
        partitionState := .tsMissing
        missPartitionEnd := if span.isEof then int32Max else span.columnPartition
        ts := 0 }
    else
      some { span with
        partitionState := .tsReal
        ts := span.columnTs
        endTs := span.columnTs + span.columnDur }
  | .tsMissing =>
    if span.missPartitionEnd = int32Max then some { span with partitionState := .tsEof }
    else
      some { span with
        partitionState := .tsPartition
        ts := 0
        endTs := span.columnTs
        partition := span.missPartitionEnd }
  | .tsEof => none

/-- The loop that runs until the state is real or there is no next state. -/
def searchNextslice : Nat → CaclSpan → CaclSpan
  | 0, span => span
  | fuel + 1, span =>
    if span.partitionState = .tsReal then span
    else
      match span.getNextState with
      | none => span
      | some next => searchNextslice fuel next

/-- A state is real or the last one after at most three steps, so that a fourth one ends the loop. -/
def next : CaclSpan := searchNextslice 4 ((span.getNextState).getD span)

def isQueryNext (rows : List SpanRow) : CaclSpan :=
  let span := getCursorNext { rest := rows }
  searchNextslice 4 { span with missPartitionEnd := span.columnPartition }

def getPatitonForMiss : Int :=
  if span.partitionState = .tsMissing then span.missPartitionEnd - 1 else span.partition

end CaclSpan

inductive QueryNext where
  | tableFirst
  | tableSecond
deriving Repr, DecidableEq

structure SpanJoinCursor where
  tableFirst : CaclSpan
  tableSecond : CaclSpan
  queryNext : QueryNext := .tableFirst
deriving DecidableEq

/-- The first three columns of a row of the join. -/
structure JoinRow where
  ts : Int
  dur : Int
  partition : Int
deriving Repr, DecidableEq

namespace SpanJoinCursor

variable (cursor : SpanJoinCursor)

def eof : Bool := cursor.tableFirst.isEof || cursor.tableSecond.isEof

def caclOverLap : Bool :=
  if cursor.tableSecond.ts ≤ cursor.tableFirst.ts then
    (cursor.tableFirst.partitionState = .tsReal ∧ cursor.tableSecond.partitionState = .tsReal) ∨
      cursor.tableFirst.ts < cursor.tableSecond.endTs
  else cursor.tableFirst.ts ≤ cursor.tableSecond.ts ∧ cursor.tableSecond.ts < cursor.tableFirst.endTs

/-- The order of the tuples of partition, end and whether the state is real. -/
def findQueryResult : QueryNext :=
  let first := toLex (cursor.tableFirst.getPatitonForMiss,
    toLex (cursor.tableFirst.endTs, decide (cursor.tableFirst.partitionState = .tsReal)))
  let second := toLex (cursor.tableSecond.getPatitonForMiss,
    toLex (cursor.tableSecond.endTs, decide (cursor.tableSecond.partitionState = .tsReal)))
  if first < second then .tableFirst else .tableSecond

def moveNext : SpanJoinCursor :=
  match cursor.queryNext with
  | .tableFirst => { cursor with tableFirst := cursor.tableFirst.next }
  | .tableSecond => { cursor with tableSecond := cursor.tableSecond.next }

/-- The number of rows that are left, which goes down with each turn of the loops. -/
def left : Nat := cursor.tableFirst.rest.length + cursor.tableSecond.rest.length + 2

def isFindSpan : Nat → SpanJoinCursor → SpanJoinCursor
  | 0, cursor => cursor
  | fuel + 1, cursor =>
    if cursor.eof then cursor
    else
      let cursor := { cursor with queryNext := cursor.findQueryResult }
      if cursor.caclOverLap then cursor else isFindSpan fuel cursor.moveNext

def filter (firstRows secondRows : List SpanRow) : SpanJoinCursor :=
  let cursor := { tableFirst := .isQueryNext firstRows, tableSecond := .isQueryNext secondRows : SpanJoinCursor }
  isFindSpan cursor.left cursor

def next : SpanJoinCursor := isFindSpan cursor.moveNext.left cursor.moveNext

def column : JoinRow where
  ts := max cursor.tableFirst.ts cursor.tableSecond.ts
  dur := min cursor.tableFirst.endTs cursor.tableSecond.endTs - max cursor.tableFirst.ts cursor.tableSecond.ts
  partition := if cursor.tableFirst.partitionState = .tsReal then cursor.tableFirst.partition else cursor.tableSecond.partition

def rows : Nat → SpanJoinCursor → List JoinRow
  | 0, _ => []
  | fuel + 1, cursor => if cursor.eof then [] else cursor.column :: rows fuel cursor.next

end SpanJoinCursor

def spanJoin (firstRows secondRows : List SpanRow) : List JoinRow :=
  let cursor := SpanJoinCursor.filter firstRows secondRows
  SpanJoinCursor.rows cursor.left cursor

end SmartPerf.Table
