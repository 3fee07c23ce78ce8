import SmartPerf.Data.Memory
import SmartPerf.RawTrace.FtraceField

namespace SmartPerf.RawTrace

open Data

/-! How `FtraceProcessor` walks over a page of the ring buffer. Positions count from the start of the page;
the memory goes on behind it. -/

def ftracePageSize : Nat := 4096

/-- The indexes of the fields that every event has, where the format has them. -/
structure CommonFiledIndex where
  type : Option Nat
  flags : Option Nat
  preemt : Option Nat
  pid : Option Nat
deriving Repr, DecidableEq

structure EventFormat where
  eventId : Nat
  eventSize : Nat
  commonIndex : CommonFiledIndex
  commonFields : List FieldFormat
  fields : List FieldFormat
deriving Repr, DecidableEq

structure CommonFields where
  pid : Nat
  type : Nat
  flags : Nat
  preemptCount : Nat
deriving Repr, DecidableEq

structure FtraceEvent where
  timestamp : Nat
  /-- The bytes that `HandleFtraceEvent` is given. -/
  data : List UInt8
  commonFields : Option CommonFields
  fields : List FieldValue
deriving Repr, DecidableEq

structure RawTraceEventInfo where
  cpuId : Nat
  eventId : Nat
  msg : FtraceEvent
deriving Repr, DecidableEq

/-- The range of time that is cut out of a file. -/
structure SplitRange where
  splitFileMinTime : Nat
  splitFileMaxTime : Nat
deriving Repr, DecidableEq

structure FtraceProcessor where
  eventFormatDict : Nat → Option EventFormat
  /-- The handlers of the supported events, each with the fields that it takes from an event of a format. -/
  eventIdToFunctions : Nat → Option (EventFormat → List FieldAccess)
  getSymbol : Nat → List UInt8
  /-- The size of the field `commit` in the format of the page header; 0 where there is none. -/
  pageHeaderCommitSize : Nat
  commitSize_le : pageHeaderCommitSize ≤ 8
  /-- Set while a file is cut. -/
  splitFile : Option SplitRange
  cpu : Nat

structure PageHeader where
  timestamp : Nat
  size : Nat
  overwrite : Nat
  startpos : Nat
  endpos : Nat
deriving Repr, DecidableEq

structure FtraceEventHeader where
  typeLen : Nat
  timeDelta : Nat
deriving Repr, DecidableEq

/-- The walk over a page. -/
structure PageState where
  curPos : Nat
  curTimestamp : Nat := 0
  haveSplitSeg : Bool := false
  /-- What was given to `EventAppend`. -/
  eventList : List RawTraceEventInfo := []
  /-- The positions that were read. -/
  reads : List Nat := []
  /-- The positions at which the header of a record was read. -/
  heads : List Nat := []
deriving Repr, DecidableEq

def bufferTypePadding : Nat := 29
def bufferTypeTimeExtend : Nat := 30
def bufferTypeTimeStamp : Nat := 31

def tsExtShift : Nat := 27

def timestampIncrements (ext : Nat) : Nat := ext * 2 ^ tsExtShift

namespace PageState

def readInfo (memory : Nat → UInt8) (endPos outSize : Nat) (state : PageState) : Option (Nat × PageState) :=
  if state.curPos + outSize ≤ endPos then
    some (numberAt memory state.curPos outSize,
      { state with
        curPos := state.curPos + outSize
        reads := state.reads ++ List.range' state.curPos outSize })
  else none

end PageState

namespace FtraceProcessor

variable (processor : FtraceProcessor)

def headerPageCommitSize : Nat :=
  if processor.pageHeaderCommitSize = 0 then 8 else processor.pageHeaderCommitSize

def isSplitCpuTimeStampData (curTimeStamp : Nat) : Bool :=
  match processor.splitFile with
  | some range => range.splitFileMinTime ≤ curTimeStamp ∧ curTimeStamp ≤ range.splitFileMaxTime
  | none => false

def noPageHeader : PageHeader := { timestamp := 0, size := 0, overwrite := 0, startpos := 0, endpos := 0 }

/-- The two highest bits of a word of 32 bits are flags, and the bits behind the word are cleared with them. Where
the page is too short the end of the data stays the null pointer, below every position. -/
def handlePageHeader (memory : Nat → UInt8) (endPosOfPage : Nat) : PageHeader × PageState :=
  let state : PageState := { curPos := 0 }
  match state.readInfo memory endPosOfPage 8 with
  | none => (noPageHeader, state)
  | some (timestamp, state) =>
    match state.readInfo memory endPosOfPage processor.headerPageCommitSize with
    | none => ({ noPageHeader with timestamp }, state)
    | some (curCommit, state) =>
      let size := curCommit % 2 ^ 30
      ({ timestamp, size
         overwrite := curCommit / 2 ^ 31 % 2 * 2 ^ 31
         startpos := state.curPos
         endpos := state.curPos + size }, state)

def handleFtraceCommonFields (format : EventFormat) (data : List UInt8) : Option (CommonFields × List Nat) := do
  let pid ← format.commonIndex.pid
  let type ← format.commonIndex.type
  let flags ← format.commonIndex.flags
  let preemt ← format.commonIndex.preemt
  let (pid, pidReads) := intFieldAt format.commonFields pid data
  let (type, typeReads) := intFieldAt format.commonFields type data
  let (flags, flagsReads) := intFieldAt format.commonFields flags data
  let (preemptCount, preemtReads) := intFieldAt format.commonFields preemt data
  return ({ pid, type, flags, preemptCount }, pidReads ++ typeReads ++ flagsReads ++ preemtReads)

/-- What is set in the message of an event, and the positions in the event that are read. -/
def handleFtraceEvent (handler : EventFormat → List FieldAccess) (format : EventFormat)
    (timestamp : Nat) (data : List UInt8) : FtraceEvent × List Nat :=
  let event : FtraceEvent := { timestamp, data, commonFields := none, fields := [] }
  if data.length < format.eventSize then (event, [])
  else
    match handleFtraceCommonFields format data with
    | none => (event, [])
    | some (commonFields, reads) =>
      let taken := (handler format).map (FieldAccess.take processor.getSymbol format.fields data)
      ({ event with commonFields := some commonFields, fields := taken.map Prod.fst }, reads ++ taken.flatMap Prod.snd)

variable (processor : FtraceProcessor) (memory : Nat → UInt8) (endPosOfData : Nat) (eventHeader : FtraceEventHeader)

variable (state : PageState)

def handlePaddingData : Bool × PageState :=
  if eventHeader.timeDelta = 0 then (false, state)
  else
    match state.readInfo memory endPosOfData 4 with
    | none => (false, state)
    | some (paddingLength, state) => (true, { state with curPos := state.curPos + paddingLength })

def handleTimeExtend : Bool × PageState :=
  match state.readInfo memory endPosOfData 4 with
  | none => (false, state)
  | some (deltaExt, state) =>
    (true, { state with curTimestamp := (state.curTimestamp + timestampIncrements deltaExt) % 2 ^ 64 })

def handleTimeStamp : Bool × PageState :=
  match state.readInfo memory endPosOfData 4 with
  | none => (false, state)
  | some (deltaExt, state) =>
    (true, { state with curTimestamp := eventHeader.timeDelta + timestampIncrements deltaExt })

/-- The part of `HandleDataRecord` behind the size of the event. -/
def handleEventData (eventSize : Nat) (state : PageState) : Bool × PageState :=
  let eventStart := state.curPos
  let eventEnd := state.curPos + eventSize
  match state.readInfo memory eventEnd 2 with
  | none => (false, state)
  | some (eventId, state) =>
    match processor.eventFormatDict eventId with
    | none => (true, { state with curPos := eventEnd })
    | some format =>
      if processor.splitFile.isSome then (true, { state with curPos := eventEnd })
      else
        match processor.eventIdToFunctions format.eventId with
        | none => (true, { state with curPos := eventEnd })
        | some handler =>
          let (msg, reads) :=
            processor.handleFtraceEvent handler format state.curTimestamp (bytesAt memory eventStart eventSize)
          (true, { state with
            curPos := eventEnd
            eventList := state.eventList ++ [{ cpuId := processor.cpu, eventId, msg }]
            reads := state.reads ++ reads.map (eventStart + ·) })

def handleDataRecord : Bool × PageState :=
  if eventHeader.typeLen ≠ 0 then processor.handleEventData memory (4 * eventHeader.typeLen) state
  else
    match state.readInfo memory endPosOfData 4 with
    | none => (false, state)
    | some (eventSize, state) =>
      if eventSize < 4 then (false, state) else processor.handleEventData memory (eventSize - 4) state

/-- The lower five bits of the word are the type or the length, the others the time since the record before. -/
def eventHeaderOf (word : Nat) : FtraceEventHeader where
  typeLen := word % 32
  timeDelta := word / 32

def handleRecordBody : Bool × PageState :=
  if eventHeader.typeLen = bufferTypePadding then handlePaddingData memory endPosOfData eventHeader state
  else if eventHeader.typeLen = bufferTypeTimeExtend then handleTimeExtend memory endPosOfData state
  else if eventHeader.typeLen = bufferTypeTimeStamp then handleTimeStamp memory endPosOfData eventHeader state
  else processor.handleDataRecord memory endPosOfData eventHeader state

/-- One round of the loop over the records: the walk goes on, or it ends with a result. -/
inductive Turn where
  | goOn (state : PageState)
  | stop (result : Bool) (state : PageState)
deriving Repr, DecidableEq

def finishRecord (handled : Bool × PageState) : Turn :=
  if handled.1 then
    if processor.isSplitCpuTimeStampData handled.2.curTimestamp then .stop true { handled.2 with haveSplitSeg := true }
    else .goOn handled.2
  else .stop false handled.2

def handleRecord : Turn :=
  match state.readInfo memory endPosOfData 4 with
  | none => .stop false state
  | some (word, next) =>
    let eventHeader := eventHeaderOf word
    processor.finishRecord (processor.handleRecordBody memory endPosOfData eventHeader
      { next with
        curTimestamp := (next.curTimestamp + eventHeader.timeDelta) % 2 ^ 64
        heads := next.heads ++ [state.curPos] })

/-- The loop over the records, `none` where it does not end within a number of rounds. -/
def handleRecords : Nat → PageState → Option (Bool × PageState)
  | 0, _ => none
  | rounds + 1, state =>
    if state.curPos < endPosOfData then
      match processor.handleRecord memory endPosOfData state with
      | .goOn next => handleRecords rounds next
      | .stop result final => some (result, final)
    else some (true, state)

/-- What the caller sees of a page. -/
structure PageResult where
  result : Bool
  overwrite : Nat
  final : PageState
deriving Repr, DecidableEq

def handlePage (size : Nat) : Option PageResult :=
  let (curPageHeader, state) := processor.handlePageHeader memory size
  let state := { state with curTimestamp := curPageHeader.timestamp }
  (processor.handleRecords memory curPageHeader.endpos (curPageHeader.endpos + 1) state).map fun (result, final) =>
    { result, overwrite := curPageHeader.overwrite, final }

end FtraceProcessor

end SmartPerf.RawTrace
