import SmartPerf.Data.PathRoots

namespace SmartPerf.CallTree

open Data

/-! The call tree of the perf view. -/

/-- `name: number | string`: an index into the dictionary or a text. -/
inductive PerfName where
  | index (id : Int)
  | text (name : String)
deriving Repr, DecidableEq

structure PerfCallChain where
  name : PerfName := .index 0
  fileName : String := ""
  path : String := ""
  vaddrInFile : Nat := 0
  tid : Int := 0
  canCharge : Bool := true
  isThread : Bool := false
  isThreadState : Bool := false
deriving Repr, DecidableEq

/-- A group of equal samples; `ts` is kept as the numbers that its text lists. -/
structure PerfCountSample where
  sampleId : Int
  tid : Int
  count : Int
  threadState : String := ""
  pid : Int
  eventCount : Int
  ts : List Int := []
deriving Repr, DecidableEq

structure PerfThread where
  threadName : String := ""
  processName : String := ""
deriving Repr, DecidableEq

structure PerfCallChainMerageData where
  symbolName : String := ""
  symbol : String := ""
  libName : String := ""
  lib : String := ""
  path : String := ""
  vaddrInFile : Nat := 0
  addr : String := ""
  selfDur : Int := 0
  dur : Int := 0
  count : Int := 0
  eventCount : Int := 0
  tid : Int := 0
  pid : Int := 0
  canCharge : Bool := true
  isThread : Bool := false
  isProcess : Bool := false
  isState : Bool := false
  tsArray : List Int := []
  total : Int := 0
  totalEvent : Int := 0
deriving Repr, DecidableEq

/-- `text || other`. -/
def orText (text other : String) : String := if text = "" then other else text

structure ProcedureLogicWorkerPerf where
  /-- `dataCache.dataDict` -/
  dataDict : Int → Option String
  threadData : Int → Option PerfThread
  callChainData : Int → Option (List PerfCallChain)
  isHideThread : Bool
  isHideThreadState : Bool
  isOnlyKernel : Bool

namespace ProcedureLogicWorkerPerf

variable (worker : ProcedureLogicWorkerPerf) (totalEventCount totalSamplesCount : Int)

/-- A name as a child is looked for; an index that is not in the dictionary has none. -/
def resolve : PerfName → Option String
  | .index id => worker.dataDict id
  | .text name => some name

def symbolNameOf (name : PerfName) : String := (worker.resolve name).getD ""

/-- `PerfCallChainMerageData.merageCallChainSample` -/
def merageCallChainSample (currentNode : PerfCallChainMerageData) (callChain : PerfCallChain) (sample : PerfCountSample)
    (isEnd : Bool) : PerfCallChainMerageData :=
  let named :=
    if currentNode.symbolName = "" then
      let symbolName := worker.symbolNameOf callChain.name
      { currentNode with
        symbol := symbolName ++ " " ++ if callChain.fileName = "" then "" else "(" ++ callChain.fileName ++ ")"
        symbolName
        pid := sample.pid
        tid := sample.tid
        libName := callChain.fileName
        vaddrInFile := callChain.vaddrInFile
        lib := callChain.fileName
        addr := "0x" ++ String.ofList (Nat.toDigits 16 callChain.vaddrInFile)
        canCharge := callChain.canCharge
        path := if callChain.path = "" then currentNode.path else callChain.path }
    else currentNode
  { named with
    selfDur := if isEnd then named.selfDur + sample.count else named.selfDur
    isThread := named.isThread || callChain.isThread
    isState := named.isState || callChain.isThreadState
    dur := named.dur + sample.count
    count := named.count + sample.count
    eventCount := named.eventCount + sample.eventCount
    tsArray := named.tsArray ++ sample.ts }

/-- How `mergeChildrenByIndex` treats the children of a node. -/
def merging : PathTree.Merging PerfCallChainMerageData PerfCallChain PerfCountSample where
  fits child frame := worker.resolve frame.name = some child.symbolName
  new := {}
  absorb := worker.merageCallChainSample

/-- The remaining frames of a sample, in the order in which the index reaches them, go below a node. -/
def mergeChildrenByIndex (sample : PerfCountSample) (remaining : List PerfCallChain)
    (initChildren : List (PathTree PerfCallChainMerageData)) : List (PathTree PerfCallChainMerageData) :=
  PathTree.merge worker.merging sample remaining initChildren

def threadCallChain (thread : PerfThread) (countSample : PerfCountSample) : PerfCallChain :=
  { tid := countSample.tid
    canCharge := false
    isThread := true
    name := .text (orText thread.threadName "Thread" ++ "(" ++ countSample.tid.repr ++ ")") }

def threadStateCallChain (countSample : PerfCountSample) : PerfCallChain :=
  let name := orText countSample.threadState "Unknown State"
  { tid := countSample.tid
    isThreadState := true
    name := .text name
    fileName := if name = "-" then "Unknown Thread State" else ""
    canCharge := false }

def kernelFlag : String := "[kernel.kallsyms]"

/-- The call chain with the frames of the thread and of its state in front; an unknown thread is an error. -/
def addOtherCallchainsData (countSample : PerfCountSample) (list : List PerfCallChain) : Option (List PerfCallChain) := do
  let thread ← worker.threadData countSample.tid
  let list := if worker.isHideThreadState then list else threadStateCallChain countSample :: list
  let list := if worker.isHideThread then list else threadCallChain thread countSample :: list
  if worker.isOnlyKernel then
    some (list.filter fun frame => frame.fileName = kernelFlag ∨ frame.path = kernelFlag)
  else some list

def framesFrom (isTopDown : Bool) (perfCallChains : List PerfCallChain) : List PerfCallChain :=
  if isTopDown then perfCallChains else perfCallChains.reverse

def rootKey (perfSample : PerfCountSample) (top : PerfCallChain) : String :=
  worker.symbolNameOf top.name ++ perfSample.pid.repr

def mergeRoot (perfSample : PerfCountSample) (top : PerfCallChain) (remaining : List PerfCallChain)
    (found : Option (PathTree PerfCallChainMerageData)) : PathTree PerfCallChainMerageData :=
  let perfRootNode := found.getD (.node {} [])
  .node (worker.merageCallChainSample perfRootNode.data top perfSample false)
    (worker.mergeChildrenByIndex perfSample remaining perfRootNode.children)

def addSample (isTopDown : Bool) (currentTreeMapData : List (String × PathTree PerfCallChainMerageData))
    (perfSample : PerfCountSample) : Option (List (String × PathTree PerfCallChainMerageData)) :=
  match worker.callChainData perfSample.sampleId with
  | none => some currentTreeMapData
  | some [] => some currentTreeMapData
  | some chain => do
      let perfCallChains ← worker.addOtherCallchainsData perfSample chain
      match framesFrom isTopDown perfCallChains with
      | [] => some currentTreeMapData
      | top :: remaining =>
        some (upsert (worker.rootKey perfSample top) (worker.mergeRoot perfSample top remaining) currentTreeMapData)

def newProcess (root : PathTree PerfCallChainMerageData) : PerfCallChainMerageData :=
  let processName := ((worker.threadData root.data.tid).map (·.processName)).getD ""
  let symbolName := orText processName "Process" ++ "(" ++ root.data.pid.repr ++ ")"
  { canCharge := false
    symbolName
    isProcess := true
    symbol := symbolName
    tid := root.data.tid
    dur := root.data.dur
    count := root.data.dur
    eventCount := root.data.eventCount
    total := totalSamplesCount
    totalEvent := totalEventCount
    tsArray := root.data.tsArray }

def growProcess (process : PerfCallChainMerageData)
    (root : PathTree PerfCallChainMerageData) : PerfCallChainMerageData :=
  { process with
    dur := process.dur + root.data.dur
    count := process.count + root.data.dur
    eventCount := process.eventCount + root.data.eventCount
    total := totalSamplesCount
    totalEvent := totalEventCount
    tsArray := process.tsArray ++ root.data.tsArray }

/-- A root becomes a child of the node of its process. Making the node looks up the thread, and an unknown one is an
error. -/
def mergeProcess (rootMerageMap : List (Int × PathTree PerfCallChainMerageData))
    (root : PathTree PerfCallChainMerageData) : Option (List (Int × PathTree PerfCallChainMerageData)) :=
  if (find root.data.pid rootMerageMap).isNone ∧ (worker.threadData root.data.tid).isNone then none
  else
    some (upsert root.data.pid
      (PathTree.joinGroup (worker.newProcess totalEventCount totalSamplesCount) (growProcess totalEventCount totalSamplesCount)
        root) rootMerageMap)

def mergeNodeData (currentTreeMapData : List (String × PathTree PerfCallChainMerageData)) :
    Option (List (Int × PathTree PerfCallChainMerageData)) :=
  (currentTreeMapData.map Prod.snd).foldlM (worker.mergeProcess totalEventCount totalSamplesCount) []

/-- The process nodes, each with its process id. Ids and shares for display are set afterwards. -/
def freshPerfCallchains (perfCountSamples : List PerfCountSample) (isTopDown : Bool) :
    Option (List (Int × PathTree PerfCallChainMerageData)) := do
  let totalSamplesCount := (perfCountSamples.map (·.count)).sum
  let totalEventCount := (perfCountSamples.map (·.eventCount)).sum
  let currentTreeMapData ← perfCountSamples.foldlM (worker.addSample isTopDown) []
  let rootMerageMap ← worker.mergeNodeData totalEventCount totalSamplesCount currentTreeMapData
  some (objectValues rootMerageMap)

end ProcedureLogicWorkerPerf

end SmartPerf.CallTree
