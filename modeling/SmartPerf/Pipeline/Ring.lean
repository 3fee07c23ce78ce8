import Mathlib.Tactic

namespace SmartPerf.Pipeline

/-! The pipeline of `PtreaderParser` and `PbreaderParser`: a reader separates the input into
segments, parser threads parse them, and a filter thread takes them over in order, all on one
ring of slots.  Every load of shared data that a decision depends on and every store is a step
of its own; only the successful claim of a slot, which is made under a lock, is one step. -/

inductive ParseStatus where
  | init
  | seprated
  | parsing
  | parsed
  | invalid
deriving Repr, DecidableEq

/-- What `ParserData` does to the status of a segment. -/
inductive Verdict (Line : Type*) where
  | parsed (line : Line)
  | invalid
  | untouched
deriving Repr, DecidableEq

def Verdict.line {Line : Type*} : Verdict Line → Option Line
  | parsed line => some line
  | invalid => none
  | untouched => none

/-- A slot of the ring.  `parsedBy` records the threads that ran `ParserData` on the segment
since it was stored. -/
structure DataSegment (Segment Line : Type*) where
  seg : Option Segment := none
  bufLine : Option Line := none
  status : ParseStatus := .init
  parsedBy : List Nat := []

/-- Where the pipelines of the two parsers differ. -/
structure Config (Segment Line : Type*) where
  maxSegArraySize : Nat
  maxSegArraySize_pos : 0 < maxSegArraySize
  parserThreadNum : Nat
  parserData : Segment → Verdict Line
  /-- The filter thread frees the slot of an invalid segment before it moves its head. -/
  releasesInvalidFirst : Bool
  /-- A parser thread that leaves looks once more whether the filter thread runs. -/
  rechecksFilter : Bool

inductive ReaderPoint where
  /-- Waits for the next slot to be free. -/
  | load
  | store
  | separate
  | advance
  | launch
  | spawn (missing : Nat)
  | startFilter
  /-- `WaitForParserEnd` -/
  | finish
  | wait
  | done
deriving Repr, DecidableEq

inductive ParserPoint where
  | idle
  /-- Found nothing to parse and is about to look at `toExit_`, with the lock held. -/
  | waiting
  | parsing (head : Nat)
  | leaving
  | stopped
deriving Repr, DecidableEq

inductive FilterPoint where
  | unstarted
  | load
  | reload
  | exitTest
  | skip
  | process
  | advance
  | release (head : Nat)
  | advanceReleased
  | cleanup
  | stopped
deriving Repr, DecidableEq

/-- A segment as the filter thread passed it: the line given to the event parser, none for an
invalid segment, and the threads that had parsed it. -/
structure Passed (Line : Type*) where
  line : Option Line
  parsedBy : List Nat
deriving Repr, DecidableEq

structure State (Segment Line : Type*) where
  dataSegArray : Nat → DataSegment Segment Line := fun _ => {}
  rawDataHead : Nat := 0
  parseHead : Nat := 0
  filterHead : Nat := 0
  toExit : Bool := false
  exited : Bool := false
  parseThreadStarted : Bool := false
  filterThreadStarted : Bool := false
  parserThreadCount : Nat := 0
  /-- `dataSegMux_` is held. -/
  dataSegMux : Bool := false
  reader : ReaderPoint := .load
  pending : List Segment := []
  parsers : List ParserPoint := []
  filter : FilterPoint := .unstarted
  filtered : List (Passed Line) := []

inductive Party where
  | reader
  | parser (thread : Nat)
  | filter
deriving Repr, DecidableEq

namespace State

variable {Segment Line : Type*} (config : Config Segment Line) (state : State Segment Line) (thread : Nat)

def setSlot (head : Nat) (slot : DataSegment Segment Line) : State Segment Line :=
  { state with dataSegArray := Function.update state.dataSegArray head slot }

def setStatus (head : Nat) (status : ParseStatus) : State Segment Line :=
  state.setSlot head { state.dataSegArray head with status }

def next (head : Nat) : Nat := (head + 1) % config.maxSegArraySize

/-- `ParseTraceDataItem` for every segment, then `WaitForParserEnd`. -/
def readerStep : State Segment Line :=
  match state.reader, state.pending with
  | .load, [] => { state with reader := .finish }
  | .load, _ :: _ =>
    if (state.dataSegArray state.rawDataHead).status = .init then { state with reader := .store } else state
  | .store, segment :: _ =>
    { state.setSlot state.rawDataHead
        { state.dataSegArray state.rawDataHead with seg := some segment, parsedBy := [] } with
      reader := .separate }
  | .separate, _ => { state.setStatus state.rawDataHead .seprated with reader := .advance }
  | .advance, _ =>
    { state with
      rawDataHead := next config state.rawDataHead
      pending := state.pending.tail
      reader := .launch }
  | .launch, _ =>
    if state.parseThreadStarted then { state with reader := .startFilter }
    else { state with parseThreadStarted := true, reader := .spawn config.parserThreadNum }
  | .spawn (missing + 1), _ =>
    { state with
      parserThreadCount := state.parserThreadCount + 1
      parsers := state.parsers ++ [.idle]
      reader := .spawn missing }
  | .spawn 0, _ => { state with reader := .startFilter }
  | .startFilter, _ =>
    if state.filterThreadStarted then { state with reader := .load }
    else { state with filterThreadStarted := true, filter := .load, reader := .load }
  | .finish, _ =>
    if state.parseThreadStarted ∨ state.filterThreadStarted then { state with toExit := true, reader := .wait }
    else { state with reader := .done }
  | .wait, _ => if state.exited then { state with reader := .done } else state
  | .store, [] => state
  | .done, _ => state

def setParser (point : ParserPoint) : State Segment Line :=
  { state with parsers := state.parsers.set thread point }

/-- `GetNextSegment` up to the test of `toExit_`; a thread waits while another holds the lock. -/
def getNextSegment : State Segment Line :=
  if state.dataSegMux then state
  else if (state.dataSegArray state.parseHead).status = .seprated then
    { (state.setStatus state.parseHead .parsing).setParser thread (.parsing state.parseHead) with
      parseHead := next config state.parseHead }
  else { state.setParser thread .waiting with dataSegMux := true }

/-- The rest of `GetNextSegment`. -/
def testToExit : State Segment Line :=
  if state.toExit then
    { state.setParser thread .leaving with
      dataSegMux := false
      parserThreadCount := state.parserThreadCount - 1
      exited := state.exited || (state.parserThreadCount - 1 == 0 && !state.filterThreadStarted) }
  else { state.setParser thread .idle with dataSegMux := false }

def parserData (thread head : Nat) : State Segment Line :=
  let slot := state.dataSegArray head
  let slot := { slot with parsedBy := slot.parsedBy ++ [thread] }
  match slot.seg.map config.parserData with
  | some (.parsed line) =>
    (state.setSlot head { slot with bufLine := some line, status := .parsed }).setParser thread .idle
  | some .invalid => (state.setSlot head { slot with status := .invalid }).setParser thread .idle
  | some .untouched => (state.setSlot head slot).setParser thread .idle
  | none => state

/-- `ParseThread` -/
def parserStep : State Segment Line :=
  match state.parsers[thread]? with
  | some .idle => state.getNextSegment config thread
  | some .waiting => state.testToExit thread
  | some (.parsing head) => state.parserData config thread head
  | some .leaving =>
    { state.setParser thread .stopped with
      exited := state.exited || (config.rechecksFilter && !state.filterThreadStarted) }
  | some .stopped => state
  | none => state

def pass (line : Option Line) : State Segment Line :=
  { state with
    filtered := state.filtered ++ [{ line, parsedBy := (state.dataSegArray state.filterHead).parsedBy }] }

/-- `FilterThread` -/
def filterStep : State Segment Line :=
  match state.filter with
  | .unstarted => state
  | .load =>
    if (state.dataSegArray state.filterHead).status = .invalid then { state with filter := .skip }
    else { state with filter := .reload }
  | .reload =>
    if (state.dataSegArray state.filterHead).status = .parsed then { state with filter := .process }
    else { state with filter := .exitTest }
  | .exitTest =>
    if state.toExit ∧ state.parserThreadCount = 0 then { state with exited := true, filter := .cleanup }
    else { state with filter := .load }
  | .skip =>
    if config.releasesInvalidFirst then
      { (state.pass none).setStatus state.filterHead .init with filter := .advanceReleased }
    else
      { state.pass none with
        filterHead := next config state.filterHead
        filter := .release state.filterHead }
  | .process =>
    { state.pass (state.dataSegArray state.filterHead).bufLine with filter := .advance }
  | .advance =>
    { state with filterHead := next config state.filterHead, filter := .release state.filterHead }
  | .release head => { state.setStatus head .init with filter := .load }
  | .advanceReleased => { state with filterHead := next config state.filterHead, filter := .load }
  | .cleanup => { state with filterThreadStarted := false, filter := .stopped }
  | .stopped => state

def step : Party → State Segment Line
  | .reader => state.readerStep config
  | .parser thread => state.parserStep config thread
  | .filter => state.filterStep config

def start (segments : List Segment) : State Segment Line := { pending := segments }

end State

end SmartPerf.Pipeline
