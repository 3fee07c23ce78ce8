import SmartPerf.Data.Words

namespace SmartPerf.RawTrace

open Data

/-! How `FtraceFieldProcessor` takes the fields of an event out of its bytes. With each value stand the
positions in the event that are read for it. -/

/-- The kinds of fields that are taken as texts, and all the others. -/
inductive EventFieldType where
  | cString
  | fixedCString
  | stringPtr
  | dataLoc
  | other
deriving Repr, DecidableEq

structure FieldFormat where
  offset : Nat
  size : Nat
  filedType : EventFieldType
deriving Repr, DecidableEq

/-- The loop looks at a byte before it tests for the end of the section, so the byte behind a section without
a null byte is read as well. -/
def handleString (data : List UInt8) (startPos size : Nat) : List UInt8 × List Nat :=
  if startPos + size ≤ data.length then
    let curStr := (sliceAt data startPos size).takeWhile (· ≠ 0)
    (curStr, List.range' startPos (curStr.length + 1))
  else ([], [])

def handleTypeData (data : List UInt8) (startPos size : Nat) : Nat × List Nat :=
  if startPos + size ≤ data.length then (wordAt data startPos size, List.range' startPos size) else (0, [])

def handleIntField (format : FieldFormat) (data : List UInt8) : Nat × List Nat :=
  handleTypeData data format.offset format.size

/-- A text by reference: the length stands in the upper half of the word, the offset in the lower half. -/
def handleDataLoc (data : List UInt8) (startPos : Nat) : List UInt8 × List Nat :=
  let (curLocData, reads) := handleTypeData data startPos 4
  let curDataOffset := curLocData % 2 ^ 16
  let curDataLength := curLocData / 2 ^ 16 % 2 ^ 16
  if 0 < curDataOffset ∧ curDataOffset + curDataLength ≤ data.length then
    let (curStr, more) := handleString data curDataOffset curDataLength
    (curStr, reads ++ more)
  else ([], reads)

variable (getSymbol : Nat → List UInt8)

/-- The parameter `getSymbol` is the table of the printk formats. -/
def handleStrField (format : FieldFormat) (data : List UInt8) : List UInt8 × List Nat :=
  if format.offset + format.size ≤ data.length then
    match format.filedType with
    | .fixedCString => handleString data format.offset format.size
    | .cString =>
      if format.size = 0 then handleString data format.offset (data.length - format.offset)
      else handleString data format.offset format.size
    | .stringPtr =>
      let curStrSize := min format.size 8
      (getSymbol (wordAt data format.offset curStrSize), List.range' format.offset curStrSize)
    | .dataLoc => handleDataLoc data format.offset
    | .other => ([], [])
  else ([], [])

/-- What the handler of an event takes from it: a field, by its index, as a number or as a text. -/
inductive FieldAccess where
  | number (index : Nat)
  | text (index : Nat)
deriving Repr, DecidableEq

inductive FieldValue where
  | number (value : Nat)
  | text (value : List UInt8)
deriving Repr, DecidableEq

variable (fields : List FieldFormat)

def intFieldAt (index : Nat) (data : List UInt8) : Nat × List Nat :=
  match fields[index]? with
  | some format => handleIntField format data
  | none => (0, [])

def strFieldAt (index : Nat) (data : List UInt8) : List UInt8 × List Nat :=
  match fields[index]? with
  | some format => handleStrField getSymbol format data
  | none => ([], [])

def FieldAccess.take (data : List UInt8) :
    FieldAccess → FieldValue × List Nat
  | number index => ((intFieldAt fields index data).map .number id)
  | text index => ((strFieldAt getSymbol fields index data).map .text id)

end SmartPerf.RawTrace
