import SmartPerf.Data.PathRoots

namespace SmartPerf.CallTree

open Data

/-! The call tree of the native memory view. -/

/-- A frame of a call chain. -/
structure HeapTreeDataBean where
  allocationFunction : Option String := none
  symbolId : Int
  fileId : Int
  addr : String := ""
deriving Repr, DecidableEq

/-- A sample; a count of 0 is one that is not set. -/
structure NativeHookStatistics where
  eventId : Int
  eventType : String := ""
  heapSize : Int
  freeSize : Int := 0
  startTs : Int := 0
  count : Nat := 0
  freeCount : Nat := 0
  tid : Int
  threadName : String := ""
  tsArray : List Int := []
  countArray : List Nat := []
deriving Repr, DecidableEq

structure NativeHookCallInfo where
  symbol : String := ""
  addr : String := ""
  symbolId : Int := 0
  fileId : Int := 0
  count : Nat := 0
  type : Int := 0
  heapSize : Int := 0
  eventId : Int := 0
  tid : Int := 0
  threadName : Option String := some ""
  eventType : String := ""
  tsArray : List Int := []
  countArray : List Nat := []
  isThread : Bool := false
  canCharge : Bool := true
  totalCount : Nat := 0
  totalSize : Int := 0
deriving Repr, DecidableEq

/-- `value || 1`. -/
def orOne (value : Nat) : Nat := if value = 0 then 1 else value

structure ProcedureLogicWorkerNativeMemory where
  /-- `dataCache.nmHeapFrameMap` -/
  nmHeapFrameMap : Int → Option (List HeapTreeDataBean)
  isHideThread : Bool
  useFreedSize : Bool

namespace ProcedureLogicWorkerNativeMemory

variable (worker : ProcedureLogicWorkerNativeMemory) (sample : NativeHookStatistics)

def createThreadSample : List HeapTreeDataBean :=
  (worker.nmHeapFrameMap sample.eventId).getD []

def mergeCallChainSample (currentNode : NativeHookCallInfo) (callChain : HeapTreeDataBean) (sample : NativeHookStatistics) :
    NativeHookCallInfo :=
  let named :=
    if currentNode.symbol = "" then
      { currentNode with
        symbol := callChain.allocationFunction.getD ""
        addr := callChain.addr
        eventId := sample.eventId
        eventType := sample.eventType
        symbolId := callChain.symbolId
        fileId := callChain.fileId
        tid := sample.tid }
    else currentNode
  { named with
    count := named.count + if worker.useFreedSize then orOne sample.freeCount else orOne sample.count
    countArray := if sample.countArray ≠ [] then named.countArray ++ sample.countArray else named.countArray ++ [sample.count]
    tsArray := if sample.tsArray ≠ [] then named.tsArray ++ sample.tsArray else named.tsArray ++ [sample.startTs]
    heapSize := named.heapSize + if worker.useFreedSize then sample.freeSize else sample.heapSize }

/-- How `merageChildrenByIndex` treats the children of a node. -/
def merging : PathTree.Merging NativeHookCallInfo HeapTreeDataBean NativeHookStatistics where
  fits child frame := child.symbolId = frame.symbolId ∧ child.fileId = frame.fileId
  new := {}
  absorb node frame sample _ := worker.mergeCallChainSample node frame sample

/-- The remaining frames of a sample, in the order in which the index reaches them, go below a node. -/
def merageChildrenByIndex (remaining : List HeapTreeDataBean)
    (initChildren : List (PathTree NativeHookCallInfo)) : List (PathTree NativeHookCallInfo) :=
  PathTree.merge worker.merging sample remaining initChildren

/-- `id || ''` in a text. -/
def idText (id : Int) : String := if id = 0 then "" else id.repr

def rootKey (top : HeapTreeDataBean) : String :=
  if worker.isHideThread then idText top.symbolId ++ "-" ++ idText top.fileId
  else sample.tid.repr ++ "-" ++ idText top.symbolId ++ "-" ++ idText top.fileId

/-- The root of a sample with its new children; without a root a new one is made. -/
def mergeRoot (top : HeapTreeDataBean) (remaining : List HeapTreeDataBean)
    (found : Option (PathTree NativeHookCallInfo)) : PathTree NativeHookCallInfo :=
  let root := found.getD (.node { threadName := some sample.threadName } [])
  .node (worker.mergeCallChainSample root.data top sample) (worker.merageChildrenByIndex sample remaining root.children)

def framesFrom (isTopDown : Bool) (callChains : List HeapTreeDataBean) : List HeapTreeDataBean :=
  if isTopDown then callChains else callChains.reverse

def addSample (isTopDown : Bool) (currentTreeMapData : List (String × PathTree NativeHookCallInfo))
    (sample : NativeHookStatistics) : List (String × PathTree NativeHookCallInfo) :=
  if sample.eventId = -1 then currentTreeMapData
  else
    match framesFrom isTopDown (worker.createThreadSample sample) with
    | [] => currentTreeMapData
    | top :: remaining => upsert (worker.rootKey sample top) (worker.mergeRoot sample top remaining) currentTreeMapData

def clearThread (root : PathTree NativeHookCallInfo) : PathTree NativeHookCallInfo :=
  if worker.isHideThread then .node { root.data with tid := 0, threadName := none } root.children else root

def newThread (totalCount : Nat) (totalSize : Int) (root : PathTree NativeHookCallInfo) : NativeHookCallInfo :=
  let name := match root.data.threadName with
    | some name => if name = "" then "Thread" else name
    | none => "Thread"
  { canCharge := false
    type := -1
    isThread := true
    symbol := name ++ " [" ++ root.data.tid.repr ++ "]"
    count := orOne root.data.count
    heapSize := root.data.heapSize
    totalCount
    totalSize
    tsArray := root.data.tsArray
    countArray := root.data.countArray }

def growThread (totalCount : Nat) (totalSize : Int) (thread : NativeHookCallInfo) (root : PathTree NativeHookCallInfo) :
    NativeHookCallInfo :=
  { thread with
    count := thread.count + orOne root.data.count
    heapSize := thread.heapSize + root.data.heapSize
    totalCount
    totalSize
    countArray := thread.countArray ++ root.data.countArray
    tsArray := thread.tsArray ++ root.data.tsArray }

def mergeNodeData (totalCount : Nat) (totalSize : Int) (currentTreeMapData : List (String × PathTree NativeHookCallInfo)) :
    List (Int × PathTree NativeHookCallInfo) :=
  PathTree.groupNodes (fun root => root.data.tid) (newThread totalCount totalSize) (growThread totalCount totalSize)
    (currentTreeMapData.map fun entry => worker.clearThread entry.2)

/-- The thread nodes, each with its thread id. Names and ids for display are set afterwards. -/
def freshCurrentCallchains (samples : List NativeHookStatistics) (isTopDown : Bool) :
    List (Int × PathTree NativeHookCallInfo) :=
  let taken := samples.filter fun sample => sample.eventId ≠ -1
  let totalSize := (taken.map (·.heapSize)).sum
  let totalCount := (taken.map fun sample => orOne sample.count).sum
  objectValues (worker.mergeNodeData totalCount totalSize (samples.foldl (worker.addSample isTopDown) []))

end ProcedureLogicWorkerNativeMemory

end SmartPerf.CallTree
