import Mathlib.Data.List.AList
import SmartPerf.Data.Machine

namespace SmartPerf.Frame

open Data

/-! `FrameFilter`: the frames that are being drawn, the table of their rows, and the export of
finished rows. -/

def expectSlice : Nat := 1
def invalidRow : Nat := 2
def abnormalStartEndTimeState : Nat := 3

structure FrameSliceRow where
  ts : Nat
  ipid : Nat
  itid : Nat
  vsyncId : Nat
  callStackId : Nat
  endTs : Nat := invalidUint64
  dst : Nat := invalidUint64
  dur : Nat := invalidUint64
  type : Nat := 0
  flag : Nat := 2 ^ 8 - 1
  srcs : String := ""
deriving Repr, DecidableEq

/-- `TraceStdtype::FrameSlice` -/
structure FrameSliceTable where
  rows : List FrameSliceRow := []
  readySize : Nat := 0
  diskTableSize : Nat := 0
deriving Repr, DecidableEq

namespace FrameSliceTable

variable (table : FrameSliceTable)

def appendFrame (row : FrameSliceRow) : Nat × FrameSliceTable :=
  (table.rows.length, { table with rows := table.rows ++ [row] })

def setRow (row : Nat) (change : FrameSliceRow → FrameSliceRow) : FrameSliceTable :=
  { table with rows := table.rows.modify row change }

def setDst (row dst : Nat) : FrameSliceTable :=
  table.setRow row fun entry => { entry with dst := table.diskTableSize + dst }

def setSrcs (row : Nat) (fromSlices : List Nat) : FrameSliceTable :=
  table.setRow row fun entry =>
    { entry with srcs := ",".intercalate (fromSlices.map fun source => toString (table.diskTableSize + source)) }

def setFlags (row flags : Nat) : FrameSliceTable := table.setRow row fun entry => { entry with flag := flags }

def setEndTimeAndFlag (row ts expectEnd : Nat) : FrameSliceTable :=
  table.setRow row fun entry =>
    { entry with
      dur := subUint64 ts entry.ts
      flag := if entry.flag ≠ abnormalStartEndTimeState then (if expectEnd ≥ ts then 0 else 1) else entry.flag }

def erase (row : Nat) : FrameSliceTable := table.setFlags row invalidRow

/-- `EraseElements` on every column. -/
def clearExportedData : FrameSliceTable where
  rows := table.rows.drop table.readySize
  readySize := 0
  diskTableSize := table.diskTableSize + table.readySize

end FrameSliceTable

/-- The `FrameSlice` object of a frame. -/
structure FrameSlice where
  expectedEndTs : Nat
  endTs : Nat := invalidUint64
  gpuEnd : Bool := true
  frameQueueStartTs : Nat := invalidUint64
  vsyncEnd : Bool := false
  isRsMainThread : Bool := false
  frameNum : Nat := invalidUint32
  frameSliceRow : Nat
  frameExpectedSliceRow : Nat
deriving Repr, DecidableEq

/-- Frames are shared: the maps hold the numbers of the frames, counted from the start. -/
structure FrameFilter where
  frames : List FrameSlice := []
  vsyncRenderSlice : AList (fun _ : Nat => List Nat) := ∅
  dstRenderSlice : AList (fun _ : Nat => AList fun _ : Nat => Nat) := ∅
  table : FrameSliceTable := {}
  frameMaps : List (Nat × Nat) := []
  gpuSlices : List (Nat × Nat) := []

structure FrameMap where
  sourceItid : Nat
  frameNum : Nat
deriving Repr, DecidableEq

namespace FrameFilter

variable (filter : FrameFilter)

def setFrame (frame : Nat) (change : FrameSlice → FrameSlice) : FrameFilter :=
  { filter with frames := filter.frames.modify frame change }

def setVsync (itid : Nat) (frames : List Nat) : FrameFilter :=
  { filter with vsyncRenderSlice := filter.vsyncRenderSlice.insert itid frames }

def beginVsyncEvent (ts ipid itid expectStart expectEnd vsyncId callStackSliceId : Nat) : FrameFilter :=
  let (row, table) := filter.table.appendFrame { ts, ipid, itid, vsyncId, callStackId := callStackSliceId }
  let (expectedRow, table) := table.appendFrame {
    ts := expectStart, ipid, itid, vsyncId, callStackId := callStackSliceId
    endTs := expectEnd, type := expectSlice, dur := subUint64 expectEnd expectStart }
  let frame : FrameSlice :=
    { expectedEndTs := expectEnd, frameSliceRow := row, frameExpectedSliceRow := expectedRow }
  let filter := { filter with frames := filter.frames ++ [frame], table }
  filter.setVsync itid ((filter.vsyncRenderSlice.lookup itid).getD [] ++ [filter.frames.length - 1])

def markRSOnDoCompositionEvent (itid : Nat) : FrameFilter :=
  match (filter.vsyncRenderSlice.lookup itid).bind List.getLast? with
  | none => filter
  | some last => filter.setFrame last fun frame => { frame with isRsMainThread := true }

def beginRSTransactionData (itid frameNum : Nat) : FrameFilter :=
  match (filter.vsyncRenderSlice.lookup itid).bind List.head? with
  | none => filter
  | some first =>
    let filter := filter.setFrame first fun frame => { frame with frameNum }
    let frameMap := (filter.dstRenderSlice.lookup itid).getD ∅
    { filter with dstRenderSlice := filter.dstRenderSlice.insert itid (frameMap.insert frameNum first) }

/-- `expRsStartTime - expUiEndTime` as the absolute value of a signed difference. -/
def startGap (target source : FrameSliceRow) : Nat :=
  let gap := subUint64 target.ts ((source.ts + source.dur) % 2 ^ 64)
  if gap < 2 ^ 63 then gap else 2 ^ 64 - gap

/-- `FrameMaps::AppendNew` -/
def appendFrameMap (src dst : Nat) : FrameFilter :=
  let rows := filter.table.rows
  let filter :=
    { filter with
      frameMaps := filter.frameMaps ++ [(filter.table.diskTableSize + src, filter.table.diskTableSize + dst)] }
  match rows[dst]?, rows[src]? with
  | some target, some source =>
    if target.type = expectSlice ∧ startGap target source ≥ 1000000 then
      { filter with table := filter.table.setFlags (dst - 1) abnormalStartEndTimeState }
    else filter
  | _, _ => filter

def setDst (row dst : Nat) : FrameFilter := { filter with table := filter.table.setDst row dst }

/-- What `BeginProcessCommandUni` does for one source frame of the frame `last`. -/
def linkSource (last : FrameSlice) (source : FrameMap) (frame : FrameSlice) : FrameFilter :=
  let filter := filter.appendFrameMap frame.frameSliceRow last.frameSliceRow
  let filter := filter.appendFrameMap frame.frameExpectedSliceRow last.frameExpectedSliceRow
  let filter := filter.setDst frame.frameSliceRow last.frameSliceRow
  let filter := filter.setDst frame.frameExpectedSliceRow last.frameExpectedSliceRow
  if frame.endTs ≠ invalidUint64 then
    match filter.dstRenderSlice.lookup source.sourceItid with
    | none => filter
    | some frameMap =>
      { filter with
        dstRenderSlice := filter.dstRenderSlice.insert source.sourceItid (frameMap.erase source.frameNum) }
  else filter

/-- The loop of `BeginProcessCommandUni`, with `fromSlices` and `fromExpectedSlices`. -/
def linkSources (last : FrameSlice) :
    FrameFilter → List FrameMap → List Nat → List Nat → FrameFilter × List Nat × List Nat
  | filter, [], fromSlices, fromExpectedSlices => (filter, fromSlices, fromExpectedSlices)
  | filter, source :: rest, fromSlices, fromExpectedSlices =>
    match (filter.dstRenderSlice.lookup source.sourceItid).bind (·.lookup source.frameNum) with
    | none => linkSources last filter rest fromSlices fromExpectedSlices
    | some found =>
      match filter.frames[found]? with
      | none => linkSources last filter rest fromSlices fromExpectedSlices
      | some frame =>
        linkSources last (filter.linkSource last source frame) rest
          (fromSlices ++ [frame.frameSliceRow]) (fromExpectedSlices ++ [frame.frameExpectedSliceRow])

def beginProcessCommandUni (itid : Nat) (frames : List FrameMap) : FrameFilter :=
  match ((filter.vsyncRenderSlice.lookup itid).bind List.getLast?).bind (filter.frames[·]?) with
  | none => filter
  | some last =>
    if last.vsyncEnd then filter
    else
      let (filter, fromSlices, fromExpectedSlices) := linkSources last filter frames [] []
      if fromSlices = [] then filter
      else
        { filter with
          table := (filter.table.setSrcs last.frameSliceRow fromSlices).setSrcs last.frameExpectedSliceRow
            fromExpectedSlices }

def setEndTime (frame : FrameSlice) (ts : Nat) : FrameFilter :=
  { filter with table := filter.table.setEndTimeAndFlag frame.frameSliceRow ts frame.expectedEndTs }

def endVsyncEvent (ts itid : Nat) : FrameFilter :=
  match filter.vsyncRenderSlice.lookup itid with
  | none => filter
  | some slices =>
    match slices.getLast?, slices.getLast?.bind (filter.frames[·]?) with
    | some last, some frame =>
      let filter := filter.setFrame last fun frame => { frame with vsyncEnd := true }
      if frame.isRsMainThread then
        if frame.gpuEnd then
          ((filter.setEndTime frame ts).setFrame last fun frame => { frame with endTs := ts }).setVsync itid
            slices.dropLast
        else filter
      else
        let filter := filter.setEndTime frame ts
        if frame.frameNum = invalidUint32 then
          let table := (filter.table.erase frame.frameSliceRow).erase frame.frameExpectedSliceRow
          { filter with table }.setVsync itid slices.dropLast
        else
          (filter.setFrame last fun frame => { frame with endTs := ts }).setVsync itid slices.dropLast
    | _, _ => filter

def startFrameQueue (ts itid : Nat) : FrameFilter :=
  match (filter.vsyncRenderSlice.lookup itid).bind List.head? with
  | none => filter
  | some first => filter.setFrame first fun frame => { frame with gpuEnd := false, frameQueueStartTs := ts }

def endFrameQueue (ts itid : Nat) : FrameFilter :=
  match filter.vsyncRenderSlice.lookup itid with
  | none => filter
  | some slices =>
    match slices.head?, slices.head?.bind (filter.frames[·]?) with
    | some first, some frame =>
      -- the row of a gpu slice is a `uint32_t`
      let filter :=
        { filter with
          gpuSlices := filter.gpuSlices ++
            [((filter.table.diskTableSize + frame.frameSliceRow) % 2 ^ 32, subUint64 ts frame.frameQueueStartTs)] }
      let filter := filter.setFrame first fun frame => { frame with gpuEnd := true }
      if frame.vsyncEnd then
        ((filter.setFrame first fun frame => { frame with endTs := ts }).setEndTime frame ts).setVsync itid
          slices.tail
      else filter
    | _, _ => filter

def references : List Nat :=
  filter.vsyncRenderSlice.entries.flatMap (fun entry => entry.2) ++
    filter.dstRenderSlice.entries.flatMap fun entry => entry.2.entries.map fun entry => entry.2

def minRow (frame : FrameSlice) : Nat := min frame.frameSliceRow frame.frameExpectedSliceRow

/-- `none` is the `INVALID_UINT64` with which the scan starts. -/
def setMinFrameSliceRow : Option Nat :=
  ((filter.references.filterMap (filter.frames[·]?)).map minRow).min?

/-- The difference of two rows, which are `uint64_t`. -/
def subRow (row less : Nat) : Nat := if less ≤ row then row - less else row + 2 ^ 64 - less

def rebase (gone : Nat) (frame : FrameSlice) : FrameSlice :=
  { frame with
    frameSliceRow := subRow frame.frameSliceRow gone
    frameExpectedSliceRow := subRow frame.frameExpectedSliceRow gone }

/-- The two loops of `UpdateFrameSliceReadySize`, which visit every reference. -/
def rebaseAll (gone : Nat) (frames : List FrameSlice) (references : List Nat) : List FrameSlice :=
  references.foldl (fun frames reference => frames.modify reference (rebase gone)) frames

def updateFrameSliceReadySize : FrameFilter :=
  let filter := { filter with table := { filter.table with readySize := filter.table.rows.length } }
  match filter.setMinFrameSliceRow with
  | none => filter
  | some least =>
    { filter with
      table := { filter.table with readySize := least }
      frames := rebaseAll least filter.frames filter.references }

def flush : FrameFilter :=
  let filter := filter.updateFrameSliceReadySize
  { filter with table := filter.table.clearExportedData }

end FrameFilter

inductive FrameEvent where
  | beginVsync (ts ipid itid expectStart expectEnd vsyncId callStackSliceId : Nat)
  | markRSOnDoComposition (itid : Nat)
  | beginRSTransactionData (itid frameNum : Nat)
  | beginProcessCommandUni (itid : Nat) (frames : List FrameMap)
  | endVsync (ts itid : Nat)
  | startFrameQueue (ts itid : Nat)
  | endFrameQueue (ts itid : Nat)
  | flush
deriving Repr, DecidableEq

def FrameFilter.step (filter : FrameFilter) : FrameEvent → FrameFilter
  | .beginVsync ts ipid itid expectStart expectEnd vsyncId callStackSliceId =>
    filter.beginVsyncEvent ts ipid itid expectStart expectEnd vsyncId callStackSliceId
  | .markRSOnDoComposition itid => filter.markRSOnDoCompositionEvent itid
  | .beginRSTransactionData itid frameNum => filter.beginRSTransactionData itid frameNum
  | .beginProcessCommandUni itid frames => filter.beginProcessCommandUni itid frames
  | .endVsync ts itid => filter.endVsyncEvent ts itid
  | .startFrameQueue ts itid => filter.startFrameQueue ts itid
  | .endFrameQueue ts itid => filter.endFrameQueue ts itid
  | .flush => filter.flush

end SmartPerf.Frame
