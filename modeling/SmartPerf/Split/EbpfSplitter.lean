import SmartPerf.Data.Words
import SmartPerf.Data.Pieces
import SmartPerf.Framing.PbreaderParser

namespace SmartPerf.Split

open Data Framing

/-! How `EbpfSplitter` cuts an ebpf section of a profiler file to a time range.

The section comes in pieces. The splitter takes its header and then its records from the shared buffer, as far as they
have come, and notes what belongs to the result: the two headers by their address, and records by their offset in the
file. -/

/-- The buffers whose addresses are noted. -/
inductive EbpfBuffer where
  | profilerHeader
  | ebpfHeader
deriving Repr, DecidableEq

inductive EbpfSplitResult where
  | buffer (address : EbpfBuffer) (size : Nat)
  | originSeg (offset size : Nat)
deriving Repr, DecidableEq

def ebpfDataHeaderSize : Nat := 1024
def ebpfHeaderMagic : Nat := 0x454C494646504245
def ebpfTitleSize : Nat := 8

def itemEventMaps : Nat := 0
def itemSymbolInfo : Nat := 1
def itemEventFs : Nat := 2
def itemEventVm : Nat := 3
def itemEventBio : Nat := 4
def itemEventStr : Nat := 5
def itemEventKenelSymbolInfo : Nat := 0x10001

/-- Where the two times stand in the fixed header of an event, and how long it is. -/
structure FixedHeader where
  startTime : Nat
  endTime : Nat
  size : Nat
deriving Repr, DecidableEq

def fsFixedHeader : FixedHeader := ⟨16, 24, 104⟩
def pagedMemoryFixedHeader : FixedHeader := ⟨16, 24, 80⟩
def bioFixedHeader : FixedHeader := ⟨24, 32, 80⟩

structure EbpfSplitter where
  splittedLen : Nat := 0
  usefulDataLen : Nat := 0
  offsetOfEbpfDataInFile : Nat := 0
  splitFileMinTs : Nat := invalidUint64
  splitFileMaxTs : Nat := invalidUint64
  ebpfSplitResult : List EbpfSplitResult := []
  splitEbpfHeader : Option (List UInt8) := none
  profilerHeader : List UInt8 := []
deriving Repr, DecidableEq

namespace EbpfSplitter

variable (splitter : EbpfSplitter)

def clearEbpfSplitResult : EbpfSplitter :=
  { splitter with
    splittedLen := 0
    usefulDataLen := 0
    ebpfSplitResult := []
    splitEbpfHeader := none
    offsetOfEbpfDataInFile := 0 }

def unUsedLength : Nat :=
  subUint64 (subUint64 (headerLength splitter.profilerHeader) packetHeaderLength) splitter.splittedLen

def appendSplitOriginSegResult (segLen : Nat) (splitter : EbpfSplitter) : EbpfSplitter :=
  { splitter with
    usefulDataLen := splitter.usefulDataLen + segLen
    ebpfSplitResult := splitter.ebpfSplitResult ++
      [.originSeg (splitter.offsetOfEbpfDataInFile + splitter.splittedLen) segLen] }

def appendSplitResultWithFixedHeader (segLen : Nat) (buffer : List UInt8) (fixedHeader : FixedHeader)
    (splitter : EbpfSplitter) : EbpfSplitter :=
  if wordAt buffer (ebpfTitleSize + fixedHeader.endTime) 8 ≤ splitter.splitFileMaxTs ∧
      splitter.splitFileMinTs ≤ wordAt buffer (ebpfTitleSize + fixedHeader.startTime) 8 then
    splitter.appendSplitOriginSegResult segLen
  else splitter

def splitItem (type segLen : Nat) (buffer : List UInt8) (splitter : EbpfSplitter) : EbpfSplitter :=
  if type = itemEventMaps ∨ type = itemSymbolInfo ∨ type = itemEventStr ∨ type = itemEventKenelSymbolInfo then
    splitter.appendSplitOriginSegResult segLen
  else if type = itemEventFs then splitter.appendSplitResultWithFixedHeader segLen buffer fsFixedHeader
  else if type = itemEventVm then splitter.appendSplitResultWithFixedHeader segLen buffer pagedMemoryFixedHeader
  else if type = itemEventBio then splitter.appendSplitResultWithFixedHeader segLen buffer bioFixedHeader
  else splitter

/-- The loop over the records; `none` is a loop that outlasts the fuel. -/
def splitEbpfBodyData : Nat → EbpfSplitter → List UInt8 → Option (EbpfSplitter × List UInt8)
  | 0, _, _ => none
  | fuel + 1, splitter, buffer =>
    if ebpfTitleSize < splitter.unUsedLength ∧ ebpfTitleSize < buffer.length then
      -- both are `uint32_t`
      let segLen := (ebpfTitleSize + wordAt buffer 4 4) % 2 ^ 32
      if buffer.length < segLen then some (splitter, buffer)
      else
        let splitter := splitter.splitItem (wordAt buffer 0 4) segLen buffer
        splitEbpfBodyData fuel { splitter with splittedLen := splitter.splittedLen + segLen } (buffer.drop segLen)
    else some (splitter, buffer)

variable (buffer : List UInt8)

/-- The header of the ebpf data; `none` is the failed assertion of the caller. -/
def splitHeader : Option (EbpfSplitter × List UInt8) :=
  let header := buffer.take ebpfDataHeaderSize
  if wordAt header 0 8 ≠ ebpfHeaderMagic ∨ wordAt header 8 4 ≠ ebpfDataHeaderSize then none
  else some (
    { splitter with
      splitEbpfHeader := some header
      splittedLen := splitter.splittedLen + ebpfDataHeaderSize
      ebpfSplitResult := splitter.ebpfSplitResult ++ [.buffer .ebpfHeader ebpfDataHeaderSize] },
    buffer.drop ebpfDataHeaderSize)

def splitRest : Option (Bool × EbpfSplitter × List UInt8) :=
  (splitEbpfBodyData (buffer.length + 1) splitter buffer).map fun (splitter, buffer) =>
    if splitter.unUsedLength < ebpfTitleSize then
      (true,
        { splitter with
          profilerHeader := setWord splitter.profilerHeader 8 8
            (splitter.usefulDataLen + packetHeaderLength + ebpfDataHeaderSize) }, buffer.drop splitter.unUsedLength)
    else (false, splitter, buffer)

def appendProfilerHeader : EbpfSplitter :=
  { splitter with ebpfSplitResult := splitter.ebpfSplitResult ++ [.buffer .profilerHeader packetHeaderLength] }

def addAndSplitEbpfData : Option (Bool × EbpfSplitter × List UInt8) :=
  match splitter.splitEbpfHeader with
  | some _ => splitter.splitRest buffer
  | none =>
    let splitter := splitter.appendProfilerHeader
    if ebpfDataHeaderSize ≤ buffer.length then
      (splitter.splitHeader buffer).bind fun result => result.1.splitRest result.2
    else some (false, splitter, buffer)

end EbpfSplitter

/-- The part of `PbreaderParser` that brings an ebpf section to the splitter. -/
structure EbpfFeed where
  packagesBuffer : List UInt8 := []
  hasGotHeader : Bool := false
  profilerDataLength : Nat := 0
  profilerDataType : Nat := unknowType
  standalonePluginName : List UInt8 := []
  processedDataLen : Nat := 0
  hasInitEbpfPublicData : Bool := false
  parsedEbpfOver : Bool := false
  splitter : EbpfSplitter := {}
deriving Repr, DecidableEq

namespace EbpfFeed

def initProfilerTraceFileHeader (feed : EbpfFeed) : Option EbpfFeed :=
  if feed.packagesBuffer.length < packetHeaderLength then none
  else
    let buffer := feed.packagesBuffer.take packetHeaderLength
    if headerLength buffer ≤ packetHeaderLength ∨ headerMagicOf buffer ≠ headerMagic then none
    else
      let profilerHeader :=
        if headerDataType buffer = standaloneData ∧ headerPluginName buffer = ebpfPluginName then buffer
        else feed.splitter.profilerHeader
      some { feed with
        splitter := { feed.splitter with profilerHeader }
        profilerDataLength := headerLength buffer
        profilerDataType := headerDataType buffer
        standalonePluginName := headerPluginName buffer }

def getHeaderAndUpdateLengthMark (feed : EbpfFeed) : Bool × EbpfFeed :=
  if feed.hasGotHeader then (true, feed)
  else
    match feed.initProfilerTraceFileHeader with
    | none => (false, feed)
    | some feed =>
      let feed := { feed with
        packagesBuffer := feed.packagesBuffer.drop packetHeaderLength
        processedDataLen := feed.processedDataLen + packetHeaderLength
        hasGotHeader := true }
      (feed.packagesBuffer ≠ [], feed)

variable (minTime maxTime : Nat) (feed : EbpfFeed)

def initEbpfPublicData : EbpfFeed :=
  if feed.hasInitEbpfPublicData then feed
  else { feed with
    splitter := { feed.splitter with
      offsetOfEbpfDataInFile := feed.processedDataLen
      splitFileMinTs := minTime
      splitFileMaxTs := maxTime }
    hasInitEbpfPublicData := true }

def afterSplit (result : Bool × EbpfSplitter × List UInt8) : EbpfFeed :=
  let feed := { feed with parsedEbpfOver := result.1, splitter := result.2.1, packagesBuffer := result.2.2 }
  if feed.parsedEbpfOver then
    { feed with
      profilerDataType := unknowType
      hasGotHeader := false
      processedDataLen := feed.processedDataLen + (feed.profilerDataLength - packetHeaderLength) }
  else feed

def calcEbpfCutOffset : Option EbpfFeed :=
  if feed.parsedEbpfOver then some feed
  else
    let feed := feed.initEbpfPublicData minTime maxTime
    (feed.splitter.addAndSplitEbpfData feed.packagesBuffer).map feed.afterSplit

/-- What is done with the bytes that have come; `none` is also a section of another kind. -/
def parseDataRecursively : Option EbpfFeed :=
  match feed.getHeaderAndUpdateLengthMark with
  | (false, feed) => some feed
  | (true, feed) =>
    if feed.profilerDataType = standaloneData ∧ feed.standalonePluginName = ebpfPluginName then
      feed.calcEbpfCutOffset minTime maxTime
    else none

/-- A piece of the file; the selector does not hand on an empty one. -/
def parseTraceDataSegment (piece : List UInt8) : Option EbpfFeed :=
  if piece = [] then some feed
  else { feed with packagesBuffer := feed.packagesBuffer ++ piece }.parseDataRecursively minTime maxTime

end EbpfFeed

end SmartPerf.Split
