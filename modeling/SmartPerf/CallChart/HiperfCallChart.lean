import SmartPerf.Data.FusedTree
import SmartPerf.Data.ObjectMap

namespace SmartPerf.CallChart

open Data Data.PathTree

/-! The call chart of the perf samples: the samples of a thread or a core are drawn one after the other, each as the
stack of the functions of its call chain, and neighbours in time are merged where the functions are the same. -/

/-- A row of the call chain table. -/
structure HiPerfCallStack where
  callchainId : Int
  fileId : Int
  depth : Nat
  symbolId : Int
  name : Int
deriving Repr, DecidableEq

/-- An item of the stack cache. Its only child, if it has one, is the item that is stored one level deeper. -/
structure CachedSymbol where
  item : HiPerfCallStack
  hasChild : Bool := false
deriving Repr, DecidableEq

abbrev CallStackCache : Type := List ((Int × Nat) × CachedSymbol)

variable (callstack : CallStackCache)

def addStack (item : HiPerfCallStack) : CallStackCache :=
  let callstack := upsert (item.callchainId, item.depth) (fun _ => { item }) callstack
  match item.depth with
  | 0 => callstack
  | above + 1 =>
    match find (item.callchainId, above) callstack with
    | none => callstack
    | some parentSymbol =>
      if parentSymbol.item.callchainId = item.callchainId ∧ parentSymbol.item.depth = above then
        upsert (item.callchainId, above) (fun _ => { parentSymbol with hasChild := true }) callstack
      else callstack

def arrayBufferCallStackHandler (res : List HiPerfCallStack) : CallStackCache := res.foldl addStack []

/-- The items that are nested in the one at a depth, itself first. -/
def framesFrom (callstack : CallStackCache) (callchainId : Int) : Nat → Nat → List HiPerfCallStack
  | 0, _ => []
  | rounds + 1, depth =>
    match find (callchainId, depth) callstack with
    | none => []
    | some symbol => symbol.item :: if symbol.hasChild then framesFrom callstack callchainId rounds (depth + 1) else []

/-- The frames of a call chain; an item has its child one level deeper, so there are at most as many as items. -/
def callChain (callchainId : Int) : List HiPerfCallStack :=
  framesFrom callstack callchainId callstack.length 0

/-- A node of the chart. A sample as a whole is drawn at depth -1 and has no name. -/
structure PerfCall where
  depth : Int
  name : Option Int := none
  symbolId : Option Int := none
  fileId : Option Int := none
  callchainId : Int
  startTime : Nat := 0
  endTime : Nat := 0
  totalTime : Nat := 0
  eventCount : Nat := 0
  threadId : Int := 0
  cpuId : Int := 0
deriving Repr, DecidableEq

structure HiPerfSample where
  callchainId : Int
  startTs : Nat
  dur : Nat
  eventCount : Nat
  threadId : Int
  cpuId : Int
deriving Repr, DecidableEq

def perfSample (sample : HiPerfSample) : PerfCall where
  depth := -1
  callchainId := sample.callchainId
  threadId := sample.threadId
  cpuId := sample.cpuId
  startTime := sample.startTs
  endTime := sample.startTs + sample.dur
  totalTime := sample.dur
  eventCount := sample.eventCount

def copyStack : List HiPerfCallStack → List (PathTree PerfCall)
  | [] => []
  | item :: rest =>
    [.node
      { depth := item.depth
        name := some item.name
        symbolId := some item.symbolId
        fileId := some item.fileId
        callchainId := item.callchainId }
      (copyStack rest)]

/-- The times and the count that an item takes from the one above it. -/
def PerfCall.durFrom (above item : PerfCall) : PerfCall :=
  { item with
    totalTime := above.totalTime
    startTime := above.startTime
    endTime := above.endTime
    threadId := above.threadId
    cpuId := above.cpuId
    eventCount := above.eventCount }

/-- An item takes the times of the one above it, and passes them on to its first child. -/
def setDur (above : PerfCall) : PathTree PerfCall → PathTree PerfCall
  | .node item [] => .node (above.durFrom item) []
  | .node item (first :: rest) => .node (above.durFrom item) (setDur (above.durFrom item) first :: rest)
termination_by structural tree => tree

def fixMergeRuler (data1 data2 : PerfCall) : Bool := data1.depth = data2.depth ∧ data1.name = data2.name

def PerfCall.extend (data1 data2 : PerfCall) : PerfCall :=
  { data1 with
    endTime := data2.endTime
    totalTime := data2.endTime - data1.startTime
    eventCount := data1.eventCount + data2.eventCount }

def combinePerfCallData (data1 : PathTree PerfCall) : PathTree PerfCall → PathTree PerfCall
  | .node item2 [] => if fixMergeRuler data1.data item2 then .node (data1.data.extend item2) data1.children else data1
  | .node item2 (child2 :: _) =>
    if fixMergeRuler data1.data item2 then
      .node (data1.data.extend item2) <|
        match data1.children.getLast? with
        | none => [child2]
        | some child1 =>
          if fixMergeRuler child1.data child2.data then
            data1.children.dropLast ++ [combinePerfCallData child1 child2]
          else if child1.data.depth = child2.data.depth then data1.children ++ [child2]
          else data1.children
    else data1
termination_by structural data2 => data2

/-- One round of the loop over the samples; type 0 is the chart of a core, any other one that of a thread. -/
def combineStep (type : Int) (combineSample : List (PathTree PerfCall)) (sample : PerfCall) :
    List (PathTree PerfCall) :=
  match copyStack (callChain callstack sample.callchainId) with
  | [] => combineSample
  | stackTop :: _ =>
    let child := [setDur sample stackTop]
    match combineSample.getLast? with
    | none => combineSample ++ [.node sample child]
    | some pre =>
      if type = 0 then
        if pre.data.threadId = sample.threadId ∧ pre.data.endTime = sample.startTime then
          combineSample.dropLast ++ [combinePerfCallData pre (.node sample child)]
        else combineSample ++ [.node sample child]
      else combineSample.dropLast ++ [combinePerfCallData pre (.node sample child)]

def combineChartData (type : Int) (samples : List PerfCall) : List (PathTree PerfCall) :=
  samples.foldl (combineStep callstack type) []

def combinePerfSampleByCallChainId (type : Int) (sampleList : List HiPerfSample) :
    List (PathTree PerfCall) :=
  combineChartData callstack type (sampleList.map perfSample)

/-- The nodes that are drawn, in the order in which they are collected. -/
def getArrayData (combineData : List (PathTree PerfCall)) : List PerfCall :=
  (flatten combineData).filter fun item => -1 < item.depth

/-- The nodes fused with a sample as `combinePerfCallData` does it. -/
def chartFusing : Fusing PerfCall HiPerfCallStack PerfCall where
  fits data frame := data.depth = frame.depth ∧ data.name = some frame.name
  absorb data sample := data.extend sample
  grow frame sample := sample.durFrom
    { depth := frame.depth
      name := some frame.name
      symbolId := some frame.symbolId
      fileId := some frame.fileId
      callchainId := frame.callchainId }

def PerfCall.label (item : PerfCall) : Option Int × Int := (item.name, item.depth)

def HiPerfCallStack.label (frame : HiPerfCallStack) : Option Int × Int := (some frame.name, frame.depth)

theorem chartFusing_spans :
    Spans chartFusing PerfCall.label HiPerfCallStack.label PerfCall.startTime PerfCall.endTime PerfCall.startTime
      PerfCall.endTime where
  fits_iff := fun data frame => by
    simp [chartFusing, PerfCall.label, HiPerfCallStack.label, and_comm]
  name_absorb := fun _ _ => rfl
  name_grow := fun _ _ => rfl
  start_absorb := fun _ _ => rfl
  stop_absorb := fun _ _ => rfl
  start_grow := fun _ _ => rfl
  stop_grow := fun _ _ => rfl

end SmartPerf.CallChart
