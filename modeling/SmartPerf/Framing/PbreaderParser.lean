import SmartPerf.Data.Base128
import SmartPerf.Data.Machine

namespace SmartPerf.Framing

open Data

/-! How `PbreaderParser` cuts a profiler file, which arrives in chunks, into segments
and standalone bodies (without splitting the file by time). -/

def packetSegLength : Nat := 4
def packetHeaderLength : Nat := 1024
def headerMagic : Nat := 0x464F5250534F484F

def hiperfData : Nat := 1
def standaloneData : Nat := 1000
def unknowType : Nat := 1024

/-- The bytes of `hiebpf-plugin`. -/
def ebpfPluginName : List UInt8 := [104, 105, 101, 98, 112, 102, 45, 112, 108, 117, 103, 105, 110]

/-- What the framing hands on. -/
inductive Handed where
  | segment (bytes : List UInt8)
  | hiperf (bytes : List UInt8)
  | ebpf (bytes : List UInt8)
deriving Repr, DecidableEq

structure PbreaderParser where
  packagesBuffer : List UInt8 := []
  hasGotHeader : Bool := false
  hasGotSegLength : Bool := false
  nextLength : Nat := 0
  profilerDataLength : Nat := 0
  profilerDataType : Nat := unknowType
  standalonePluginName : List UInt8 := []
  pbreaderCurentLength : Nat := 0
  handed : List Handed := []
deriving Repr, DecidableEq

variable (header : List UInt8) (scan : Scan)

/-- An integer field of the packed `ProfilerTraceFileHeader`. -/
def headerField (offset size : Nat) : Nat := ofLittleEndian ((header.drop offset).take size)

def headerMagicOf : Nat := headerField header 0 8
def headerLength : Nat := headerField header 8 8
def headerDataType : Nat := headerField header 56 4

def headerPluginName : List UInt8 := ((header.drop 108).take 128).takeWhile (· != 0)

def initProfilerTraceFileHeader (parser : PbreaderParser) : Option PbreaderParser :=
  if parser.packagesBuffer.length < packetHeaderLength then none
  else
    let buffer := parser.packagesBuffer.take packetHeaderLength
    if headerLength buffer ≤ packetHeaderLength ∨ headerMagicOf buffer ≠ headerMagic then none
    else some { parser with
      profilerDataLength := headerLength buffer
      profilerDataType := headerDataType buffer
      standalonePluginName := headerPluginName buffer }

/-- The parser with the two local variables of a call: the iterator `packagesBegin` as
an offset into the buffer, and `currentLength`. -/
structure Scan where
  parser : PbreaderParser
  packagesBegin : Nat
  currentLength : Nat

def getHeaderAndUpdateLengthMark : Bool × Scan :=
  if scan.parser.hasGotHeader then (true, scan)
  else
    match initProfilerTraceFileHeader scan.parser with
    | none => (false, scan)
    | some parser =>
      -- the erased bytes and the step of the iterator cancel out in the offset
      let scan := { scan with
        parser := { parser with
          packagesBuffer := parser.packagesBuffer.drop packetHeaderLength
          pbreaderCurentLength := parser.profilerDataLength - packetHeaderLength
          hasGotHeader := true }
        currentLength := scan.currentLength - packetHeaderLength }
      (scan.currentLength != 0, scan)

def parseStandalone (handOn : List UInt8 → Handed) (scan : Scan) : Bool × Scan :=
  let size := scan.parser.profilerDataLength - packetHeaderLength
  if size ≤ scan.parser.packagesBuffer.length then
    (true, {
      parser := { scan.parser with
        handed := scan.parser.handed ++ [handOn (scan.parser.packagesBuffer.take size)]
        profilerDataType := unknowType
        hasGotHeader := false }
      packagesBegin := scan.packagesBegin + size
      currentLength := scan.currentLength - size })
  else (false, scan)

def parseHiperfData : Scan → Bool × Scan := parseStandalone .hiperf

def calcEbpfCutOffset : Scan → Bool × Scan := parseStandalone .ebpf

def parseSegLengthAndEnsureSegDataEnough : Bool × Scan :=
  if scan.parser.hasGotSegLength then (decide (scan.parser.nextLength ≤ scan.currentLength), scan)
  else if scan.currentLength < packetSegLength then (false, scan)
  else
    let nextLength := ofLittleEndian ((scan.parser.packagesBuffer.drop scan.packagesBegin).take packetSegLength)
    let scan : Scan := {
      parser := { scan.parser with
        nextLength
        hasGotSegLength := true
        pbreaderCurentLength := subUint64 scan.parser.pbreaderCurentLength packetSegLength }
      packagesBegin := scan.packagesBegin + packetSegLength
      currentLength := scan.currentLength - packetSegLength }
    (decide (nextLength ≤ scan.currentLength), scan)

/-- The body of the loop over segments, after the whole segment is there. -/
def handSegment : Scan where
  parser := { scan.parser with
    handed := scan.parser.handed ++
      [.segment ((scan.parser.packagesBuffer.drop scan.packagesBegin).take scan.parser.nextLength)]
    hasGotSegLength := false
    pbreaderCurentLength := subUint64 scan.parser.pbreaderCurentLength scan.parser.nextLength }
  packagesBegin := scan.packagesBegin + scan.parser.nextLength
  currentLength := scan.currentLength - scan.parser.nextLength

/-- The end of a section: the bytes up to the iterator are erased. -/
def finishSection : Scan where
  parser := { scan.parser with
    hasGotHeader := false
    packagesBuffer := scan.parser.packagesBuffer.drop scan.packagesBegin
    profilerDataType := unknowType }
  packagesBegin := 0
  currentLength := scan.currentLength

mutual

/-- `none` is a call that runs longer than the fuel. -/
def parseDataRecursively : Nat → Scan → Option (Bool × Scan)
  | 0, _ => none
  | fuel + 1, scan =>
    match getHeaderAndUpdateLengthMark scan with
    | (false, scan) => some (false, scan)
    | (true, scan) =>
      if scan.parser.profilerDataType = hiperfData then some (parseHiperfData scan)
      else if scan.parser.profilerDataType = standaloneData ∧ scan.parser.standalonePluginName = ebpfPluginName then
        some (calcEbpfCutOffset scan)
      else parseSegments fuel scan

def parseSegments : Nat → Scan → Option (Bool × Scan)
  | 0, _ => none
  | fuel + 1, scan =>
    match parseSegLengthAndEnsureSegDataEnough scan with
    | (false, scan) => some (true, scan)
    | (true, scan) =>
      let scan := handSegment scan
      if scan.parser.pbreaderCurentLength = 0 then parseDataRecursively fuel (finishSection scan)
      else parseSegments fuel scan

end

def parseTraceDataSegment (parser : PbreaderParser) (chunk : List UInt8) : Option PbreaderParser :=
  let buffer := parser.packagesBuffer ++ chunk
  let scan : Scan := { parser := { parser with packagesBuffer := buffer }, packagesBegin := 0,
                       currentLength := buffer.length }
  match parseDataRecursively (2 * buffer.length + 4) scan with
  | none => none
  | some (true, scan) =>
    some { scan.parser with packagesBuffer := scan.parser.packagesBuffer.drop scan.packagesBegin }
  | some (false, scan) => some scan.parser

def parseChunks (parser : PbreaderParser) : List (List UInt8) → Option PbreaderParser
  | [] => some parser
  | chunk :: rest => (parseTraceDataSegment parser chunk).bind fun parser => parseChunks parser rest

end SmartPerf.Framing
