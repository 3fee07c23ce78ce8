import SmartPerf.Data.Words
import SmartPerf.Data.Machine

namespace SmartPerf.Split

open Data

/-! How `PerfDataParser` cuts a perf file to a time range.

The bytes come in pieces. A machine of eight states walks over them and notes what belongs to the result: parts of
the input by their offset, and buffers of its own by their address, which are read when the splitting is over. -/

inductive SplitPerfState where
  | starting
  | parsingHead
  | waitForAttr
  | parsingAttr
  | waitForData
  | parsingData
  | parsingFeatureSection
  | waitForFinish
deriving Repr, DecidableEq

/-- The buffers whose addresses are noted. -/
inductive PerfBuffer where
  | profilerHeader
  | perfHeader
  | featureSection
deriving Repr, DecidableEq

inductive PerfSplitResult where
  | buffer (address : PerfBuffer) (size : Nat)
  | originSeg (offset size : Nat)
deriving Repr, DecidableEq

def profilerHeaderSize : Nat := 1024
def perfFileHeaderSize : Nat := 104
def perfEventHeaderSize : Nat := 8
def perfFileSectionSize : Nat := 16

/-- The bytes of `PERFILE2`. -/
def perfMagic : List UInt8 := [80, 69, 82, 70, 73, 76, 69, 50]

def perfRecordSample : Nat := 9

def perfSampleIp : Nat := 0
def perfSampleTid : Nat := 1
def perfSampleTime : Nat := 2
def perfSampleIdentifier : Nat := 16

variable (header : List UInt8)

/-- Fields of `perf_file_header`. -/
def headAttrSize : Nat := wordAt header 16 8
def headAttrsOffset : Nat := wordAt header 24 8
def headAttrsSize : Nat := wordAt header 32 8
def headDataOffset : Nat := wordAt header 40 8
def headDataSize : Nat := wordAt header 48 8
def headFeatures : List UInt8 := sliceAt header 72 32

variable (attrs : List UInt8)

/-- Fields of the first `perf_event_attr`. -/
def attrSampleType : Nat := wordAt attrs 24 8
def attrUseClockId : Nat := if (wordAt attrs 40 8).testBit 25 then 1 else 0
def attrClockId : Nat := wordAt attrs 92 4

/-- Fields of `perf_event_header`. -/
def eventType (event : List UInt8) : Nat := wordAt event 0 4
def eventSize (event : List UInt8) : Nat := wordAt event 6 2

def perfToTSClockType : Nat → Option Nat
  | 0 => some 2
  | 1 => some 4
  | 4 => some 6
  | 7 => some 1
  | _ => none

/-- The time range that is asked for, and the clock filter. -/
structure SplitRequest where
  splitFileMinTime : Nat
  splitFileMaxTime : Nat
  toPrimaryTraceTime : Nat → Nat → Nat
  ordered : splitFileMinTime ≤ splitFileMaxTime

structure PerfDataParser where
  profilerHeader : List UInt8 := []
  hasProfilerHead : Bool := false
  perfHeader : List UInt8 := []
  featureCount : Nat := 0
  useClockId : Nat := 0
  clockId : Nat := 0
  sampleType : Nat := 0
  sampleTimeOffset : Nat := 0
  processedLength : Nat := 0
  splitDataEnd : Bool := false
  perfSplitError : Bool := false
  perfDataOffset : Int := 0
  featureSection : List UInt8 := []
  featureSectioSize : Nat := 0
  splitState : SplitPerfState := .starting
  splitDataSize : Nat := 0
  splitResult : List PerfSplitResult := []

/-- How a step of the machine ends: the next one can follow, more data is awaited, the data is invalid, or a lookup of
the clock has thrown. -/
inductive Step where
  | again
  | wait
  | invalid
  | thrown
deriving Repr, DecidableEq

/-- The parser with the local variable of a call. -/
structure PerfScan where
  parser : PerfDataParser
  processedLen : Nat

namespace PerfDataParser

def splitDataWithdraw (parser : PerfDataParser) : PerfDataParser :=
  { parser with
    processedLength := 0
    splitDataEnd := false
    perfDataOffset := 0
    featureSection := []
    featureSectioSize := 0
    splitState := .starting
    splitResult := []
    splitDataSize := 0 }

/-- The position in the input; `perfDataOffset_` is an `int32_t` that is added to unsigned words. -/
def fileOffset (parser : PerfDataParser) (position : Nat) : Nat := ((parser.perfDataOffset + position) % 2 ^ 64).toNat

end PerfDataParser

def splitPerfStarting (scan : PerfScan) : Step × PerfScan :=
  let heads := if scan.parser.hasProfilerHead then [.buffer .profilerHeader profilerHeaderSize] else []
  (.again, { scan with
    parser := { scan.parser with
      splitResult := scan.parser.splitResult ++ heads
      splitState := .parsingHead } })

/-- The number of bits that are set in the features of the header. -/
def countFeatures (features : List UInt8) : Nat :=
  (features.map fun byte => (List.range 8).countP fun bit => byte.toNat.testBit bit).sum

variable (buffer : List UInt8) (scan : PerfScan)

def splitPerfParsingHead : Step × PerfScan :=
  let scan := { scan with processedLen := 0 }
  if buffer.length < perfFileHeaderSize then (.wait, scan)
  else
    let perfHeader := buffer.take perfFileHeaderSize
    if perfHeader.take 8 ≠ perfMagic then (.invalid, { scan with parser := { scan.parser with perfHeader } })
    else (.again, {
      parser := { scan.parser with
        perfHeader
        featureCount := countFeatures (headFeatures perfHeader)
        splitResult := scan.parser.splitResult ++ [.buffer .perfHeader perfFileHeaderSize]
        splitState := .waitForAttr }
      processedLen := perfFileHeaderSize })

def splitPerfWaitFor (offset : Nat) (arrive : PerfDataParser → PerfDataParser) (buffer : List UInt8) (scan : PerfScan) :
    Step × PerfScan :=
  if offset < scan.parser.processedLength + scan.processedLen then (.invalid, scan)
  else if scan.parser.processedLength + buffer.length < offset then (.wait, { scan with processedLen := buffer.length })
  else (.again, {
    parser := arrive scan.parser
    processedLen := scan.processedLen + (offset - (scan.parser.processedLength + scan.processedLen)) })

def splitPerfWaitForAttr : Step × PerfScan :=
  splitPerfWaitFor (headAttrsOffset scan.parser.perfHeader) (fun parser => { parser with splitState := .parsingAttr })
    buffer scan

def sampleTimeOffsetOf (sampleType : Nat) : Nat :=
  ((sampleType.testBit perfSampleIdentifier).toNat + (sampleType.testBit perfSampleIp).toNat +
    (sampleType.testBit perfSampleTid).toNat) * 8

def splitPerfParsingAttr : Step × PerfScan :=
  let attrsSize := headAttrsSize scan.parser.perfHeader
  if attrsSize / headAttrSize scan.parser.perfHeader % 2 ^ 32 = 0 then (.invalid, scan)
  else if buffer.length - scan.processedLen < attrsSize then (.wait, scan)
  else
    let attrs := sliceAt buffer scan.processedLen attrsSize
    let sampleType := attrSampleType attrs
    let parser := { scan.parser with
      useClockId := attrUseClockId attrs
      clockId := attrClockId attrs
      sampleType }
    if !sampleType.testBit perfSampleTime then (.invalid, { scan with parser })
    else (.again, {
      parser := { parser with
        sampleTimeOffset := sampleTimeOffsetOf sampleType
        splitState := .waitForData }
      processedLen := scan.processedLen + attrsSize })

def splitPerfWaitForData : Step × PerfScan :=
  splitPerfWaitFor (headDataOffset scan.parser.perfHeader)
    (fun parser => { parser with
      splitResult := parser.splitResult ++
        [.originSeg (parser.fileOffset perfFileHeaderSize) (headDataOffset parser.perfHeader - perfFileHeaderSize)]
      splitState := .parsingData })
    buffer scan

/-- How far the next record of the data is there: the data is over, bytes are missing, its size is impossible, or the
whole record has come. -/
inductive DataLength where
  | over (rest : Nat)
  | missing
  | invalid
  | record (event : List UInt8)

def dataLengthProcessing : DataLength :=
  let totalDataRemain := subUint64 (headDataOffset scan.parser.perfHeader + headDataSize scan.parser.perfHeader)
    (scan.parser.processedLength + scan.processedLen)
  let rest := buffer.drop scan.processedLen
  if totalDataRemain < perfEventHeaderSize then .over totalDataRemain
  else if rest.length < perfEventHeaderSize then .missing
  else if eventSize rest < perfEventHeaderSize then .invalid
  else if rest.length < eventSize rest then .missing
  else .record (rest.take (eventSize rest))

variable (request : SplitRequest)

/-- Whether a record is kept, and whether the cutting has come behind the range with it. -/
def needRecord (parser : PerfDataParser) (event : List UInt8) : Option (Bool × Bool) :=
  if parser.splitDataEnd then some (false, true)
  else if eventType event = perfRecordSample then
    let time := wordAt event (perfEventHeaderSize + parser.sampleTimeOffset) 8
    match perfToTSClockType parser.clockId with
    | none => none
    | some clock =>
      let newTimeStamp := if parser.useClockId ≠ 0 then request.toPrimaryTraceTime clock time else 0
      if newTimeStamp < request.splitFileMinTime then some (false, false)
      else if request.splitFileMaxTime < newTimeStamp then some (false, true)
      else some (true, false)
  else some (true, false)

/-- The last part is made longer when it ends where the new one begins. -/
def addOriginSeg (offset size : Nat) (splitResult : List PerfSplitResult) : List PerfSplitResult :=
  match splitResult.getLast? with
  | some (.originSeg lastOffset lastSize) =>
    if lastOffset + lastSize = offset then splitResult.dropLast ++ [.originSeg lastOffset (lastSize + size)]
    else splitResult ++ [.originSeg offset size]
  | _ => splitResult ++ [.originSeg offset size]

def parsingData (scan : PerfScan) : DataLength → Step × PerfScan
  | .over rest =>
    (.again, {
      parser := { scan.parser with
        splitDataSize := scan.parser.splitDataSize + rest
        splitState := .parsingFeatureSection }
      processedLen := scan.processedLen + rest })
  | .missing => (.wait, scan)
  | .invalid => (.invalid, scan)
  | .record event =>
    match needRecord request scan.parser event with
    | none => (.thrown, scan)
    | some (needed, splitDataEnd) =>
      let parser := { scan.parser with splitDataEnd }
      let parser := if needed then
          { parser with
            splitResult := addOriginSeg (parser.fileOffset (parser.processedLength + scan.processedLen)) event.length
              parser.splitResult
            splitDataSize := parser.splitDataSize + event.length }
        else parser
      (.again, { parser, processedLen := scan.processedLen + event.length })

def splitPerfParsingData (buffer : List UInt8) (scan : PerfScan) : Step × PerfScan :=
  parsingData request scan (dataLengthProcessing buffer scan)

def lowerOffsets (splitDropSize : Nat) : Nat → List UInt8 → List UInt8
  | 0, table => table
  | count + 1, table =>
    littleEndian 8 (subUint64 (wordAt table 0 8) splitDropSize) ++ sliceAt table 8 8 ++
      lowerOffsets splitDropSize count (table.drop perfFileSectionSize)

def splitPerfParsingFeatureSection (scan : PerfScan) : Step × PerfScan :=
  let featureSectioSize := scan.parser.featureCount * perfFileSectionSize
  let parser := { scan.parser with featureSectioSize }
  if featureSectioSize = 0 then (.wait, { scan with parser := { parser with splitState := .waitForFinish } })
  else if buffer.length - scan.processedLen < featureSectioSize then (.wait, { scan with parser })
  else
    let splitDropSize := subUint64 (headDataSize parser.perfHeader) parser.splitDataSize
    let featureSection := lowerOffsets splitDropSize parser.featureCount (sliceAt buffer scan.processedLen featureSectioSize)
    (.again, {
      parser := { parser with
        featureSection
        splitResult := parser.splitResult ++ [.buffer .featureSection featureSectioSize]
        perfHeader := setWord parser.perfHeader 48 8 parser.splitDataSize
        profilerHeader := setWord parser.profilerHeader 8 8 (subUint64 (wordAt parser.profilerHeader 8 8) splitDropSize)
        splitState := .waitForFinish }
      processedLen := scan.processedLen + featureSectioSize })

def splitFunc (buffer : List UInt8) (scan : PerfScan) : Step × PerfScan :=
  match scan.parser.splitState with
  | .starting => splitPerfStarting scan
  | .parsingHead => splitPerfParsingHead buffer scan
  | .waitForAttr => splitPerfWaitForAttr buffer scan
  | .parsingAttr => splitPerfParsingAttr buffer scan
  | .waitForData => splitPerfWaitForData buffer scan
  | .parsingData => splitPerfParsingData request buffer scan
  | .parsingFeatureSection => splitPerfParsingFeatureSection buffer scan
  | .waitForFinish => (.wait, scan)

/-- The loop over the states, with the length that the call reports; `none` is a throw or a loop that outlasts the
fuel. -/
def dataProcessing (request : SplitRequest) (buffer : List UInt8) (isFinish : Bool) :
    Nat → PerfScan → Option (PerfDataParser × Nat)
  | 0, _ => none
  | fuel + 1, scan =>
    if isFinish ∧ scan.parser.splitState = .waitForFinish then
      let currentDataOffset := scan.parser.fileOffset (scan.parser.processedLength + scan.processedLen)
      some ({ scan.parser with
        splitResult := scan.parser.splitResult ++ [.originSeg currentDataOffset (buffer.length - scan.processedLen)]
        processedLength := scan.parser.processedLength + buffer.length }, buffer.length)
    else
      match splitFunc request buffer scan with
      | (.again, scan) => dataProcessing request buffer isFinish fuel scan
      | (.invalid, scan) => some ({ scan.parser with perfSplitError := true }.splitDataWithdraw, buffer.length)
      | (.thrown, _) => none
      | (.wait, scan) =>
        if isFinish then some ({ scan.parser with perfSplitError := true }.splitDataWithdraw, buffer.length)
        else some ({ scan.parser with processedLength := scan.parser.processedLength + scan.processedLen },
          scan.processedLen)

/-- A state leads to a later one or takes a record of at least eight bytes. -/
def dataProcessingLength (parser : PerfDataParser) (buffer : List UInt8) (isFinish : Bool) :
    Option (PerfDataParser × Nat) :=
  dataProcessing request buffer isFinish (buffer.length + 9) { parser, processedLen := 0 }

/-- The `int32_t` that an unsigned word is stored in. -/
def toInt32 (value : Nat) : Int := (BitVec.ofNat 32 value).toInt

def splitPerfData (parser : PerfDataParser) (buffer : List UInt8) (offset : Nat) (isFinish : Bool) :
    Option (PerfDataParser × Nat) :=
  let parser := if parser.processedLength = 0 then
      { parser with perfDataOffset := toInt32 offset, perfSplitError := false }
    else parser
  if parser.perfSplitError then some (parser, buffer.length)
  else dataProcessingLength request parser buffer isFinish

/-- The parser with the bytes that its caller keeps for it. -/
structure PerfFeed where
  parser : PerfDataParser
  packagesBuffer : List UInt8 := []
  consumed : Nat := 0

/-- One piece, as `StoreTraceDataSegment` and `ParseHiperfData` hand it on: it is put behind the bytes that are left,
and what the call has processed is erased. The two tell different offsets once bytes have been processed. -/
def PerfFeed.deliver (offsetOf : Nat → Nat) (feed : PerfFeed) (piece : List UInt8)
    (isFinish : Bool) : Option PerfFeed :=
  let buffer := feed.packagesBuffer ++ piece
  (splitPerfData request feed.parser buffer (offsetOf feed.consumed) isFinish).map fun (parser, ret) =>
    { parser, packagesBuffer := buffer.drop ret, consumed := feed.consumed + ret }

def PerfFeed.storeTraceDataSegment (feed : PerfFeed) (piece : List UInt8) (isFinish : Bool) : Option PerfFeed :=
  feed.deliver request (fun _ => 0) piece isFinish

/-- A piece of a perf section of the profiler file that has `length` bytes and begins at `base`. Bytes behind the section
are not handed on. -/
def PerfFeed.parseHiperfData (base length : Nat) (feed : PerfFeed) (piece : List UInt8) : Option PerfFeed :=
  let buffer := feed.packagesBuffer ++ piece
  let isFinish : Bool := length ≤ feed.consumed + buffer.length
  let size := if isFinish then length - feed.consumed else buffer.length
  (splitPerfData request feed.parser (buffer.take size) (base + feed.consumed) isFinish).map fun (parser, ret) =>
    { parser, packagesBuffer := buffer.drop ret, consumed := feed.consumed + ret }

/-- Within the section it is a delivery, and the piece that completes the section has the finish flag. -/
theorem PerfFeed.parseHiperfData_eq_deliver (base length : Nat) (feed : PerfFeed)
    (piece : List UInt8) (inside : feed.consumed + (feed.packagesBuffer ++ piece).length ≤ length) :
    feed.parseHiperfData request base length piece =
      feed.deliver request (base + ·) piece (feed.consumed + (feed.packagesBuffer ++ piece).length = length) := by
  have finish : (length ≤ feed.consumed + (feed.packagesBuffer ++ piece).length) ↔
      feed.consumed + (feed.packagesBuffer ++ piece).length = length := by omega
  have size : (if decide (feed.consumed + (feed.packagesBuffer ++ piece).length = length) then length - feed.consumed
      else (feed.packagesBuffer ++ piece).length) = (feed.packagesBuffer ++ piece).length := by
    split
    next complete =>
      have complete := of_decide_eq_true complete
      omega
    · rfl
  simp only [parseHiperfData, deliver, finish, size, List.take_length]

def PerfFeed.deliverAll (request : SplitRequest) (offsetOf : Nat → Nat) (feed : PerfFeed) :
    List (List UInt8) → Option PerfFeed
  | [] => some feed
  | [last] => feed.deliver request offsetOf last true
  | piece :: next :: rest =>
    (feed.deliver request offsetOf piece false).bind fun feed => feed.deliverAll request offsetOf (next :: rest)

namespace PerfDataParser

def bufferBytes (parser : PerfDataParser) : PerfBuffer → List UInt8
  | .profilerHeader => parser.profilerHeader
  | .perfHeader => parser.perfHeader
  | .featureSection => parser.featureSection

/-- What a part of the result stands for when the splitting is over. -/
def readResult (input : List UInt8) (parser : PerfDataParser) : PerfSplitResult → List UInt8
  | .buffer address size => (parser.bufferBytes address).take size
  | .originSeg offset size => sliceAt input offset size

def splitBytes (input : List UInt8) (parser : PerfDataParser) : List UInt8 :=
  parser.splitResult.flatMap (parser.readResult input)

end PerfDataParser

end SmartPerf.Split
