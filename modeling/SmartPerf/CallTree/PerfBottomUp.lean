import SmartPerf.CallTree.Perf

namespace SmartPerf.CallTree

open Data

/-! The bottom-up view of the perf samples: a top-down tree is built, its nodes with a time of their own are turned
into chains of callers, and the chains are merged. -/

/-- What a node holds besides its children. -/
structure PerfBottomUpStruct where
  symbolName : String
  selfTime : Int := 0
  totalTime : Int := 0
  eventCount : Int := 0
  tsArray : List Int := []
deriving Repr, DecidableEq

def calculateSelfTime (node : PathTree PerfBottomUpStruct) : PathTree PerfBottomUpStruct :=
  let sum := (node.children.map fun child => child.data.totalTime).sum
  .node { node.data with selfTime := node.data.totalTime - sum } node.children

namespace ProcedureLogicWorkerPerf

variable (worker : ProcedureLogicWorkerPerf)

/-- The text that an existing child is looked for with: a name that is an index is written as a number. -/
def lookedFor (item : PerfCallChain) : String :=
  let name := match item.name with
    | .index id => id.repr
    | .text name => name
  name ++ "(" ++ item.fileName ++ ")"

def bottomUpName (item : PerfCallChain) : String :=
  let symbolName := match item.name with
    | .index id => (worker.dataDict id).getD ""
    | .text _ => ""
  symbolName ++ "(" ++ item.fileName ++ ")"

def existingNode (sample : PerfCountSample) (node : PathTree PerfBottomUpStruct) : PathTree PerfBottomUpStruct :=
  let perfTime := 1
  calculateSelfTime (.node
    { node.data with
      tsArray := node.data.tsArray ++ sample.ts
      totalTime := node.data.totalTime + perfTime * sample.count
      eventCount := node.data.eventCount + sample.eventCount }
    node.children)

def newNode (sample : PerfCountSample) (item : PerfCallChain) : PathTree PerfBottomUpStruct :=
  let perfTime := 1
  calculateSelfTime (.node
    { symbolName := worker.bottomUpName item
      totalTime := perfTime * sample.count
      eventCount := sample.eventCount
      tsArray := sample.ts }
    [])

/-- The frames of a sample go below the current node, whose own time is computed again when a child has changed. -/
def addFrames (sample : PerfCountSample) : List PerfCallChain → PathTree PerfBottomUpStruct → PathTree PerfBottomUpStruct
  | [], currentNode => currentNode
  | item :: rest, currentNode =>
    let children :=
      match currentNode.children.findIdx? fun child => child.data.symbolName = lookedFor item with
      | some index => currentNode.children.modify index fun child => addFrames sample rest (existingNode sample child)
      | none => currentNode.children ++ [addFrames sample rest (worker.newNode sample item)]
    calculateSelfTime (.node currentNode.data children)

def topUp (samplesData : List PerfCountSample) : Option (PathTree PerfBottomUpStruct) :=
  samplesData.foldlM (fun tree sample => do
    let callChains ← worker.callChainData sample.sampleId
    some (worker.addFrames sample callChains tree)) (.node { symbolName := "topUp" } [])

/-- The callers of a copied node, from the inside out; they all have its numbers. -/
def copyParentNode (copied : PerfBottomUpStruct) : List String → List (PathTree PerfBottomUpStruct)
  | [] => []
  | parent :: rest => [.node { copied with symbolName := parent } (copyParentNode copied rest)]

mutual

/-- The nodes with a time of their own, each with its chain of callers. -/
def recursionTree (parents : List String) : PathTree PerfBottomUpStruct → List (PathTree PerfBottomUpStruct)
  | .node data children =>
    (if data.selfTime > 0 then [.node data (copyParentNode data parents)] else []) ++
      recursionForest (data.symbolName :: parents) children

def recursionForest (parents : List String) : List (PathTree PerfBottomUpStruct) → List (PathTree PerfBottomUpStruct)
  | [] => []
  | tree :: rest => recursionTree parents tree ++ recursionForest parents rest

end

/-- A node of the current level with its `frameChildren`, which are not set when the node is made. -/
structure LevelNode where
  node : PathTree PerfBottomUpStruct
  frameChildren : Option (List (PathTree PerfBottomUpStruct)) := none

/-- Pushing to `frameChildren` does nothing while it is not set. -/
def LevelNode.pushFrames (level : LevelNode) (children : List (PathTree PerfBottomUpStruct)) : LevelNode :=
  { level with frameChildren := level.frameChildren.map (· ++ children) }

def mergeSame (currentLevelData : List (String × LevelNode)) (tree : PathTree PerfBottomUpStruct) : List (String × LevelNode) :=
  upsert tree.data.symbolName
    (fun found =>
      match found with
      | none => LevelNode.pushFrames { node := tree } tree.children
      | some level =>
        LevelNode.pushFrames
          { level with
            node := .node
              { level.node.data with
                totalTime := level.node.data.totalTime + tree.data.totalTime
                selfTime := level.node.data.selfTime + tree.data.selfTime
                tsArray := level.node.data.tsArray ++ tree.data.tsArray }
              level.node.children }
          tree.children)
    currentLevelData

/-- The merged level. Below a node its `frameChildren`, if they are set, are merged and added to its children; the
first argument bounds the levels. -/
def mergeTreeBifurcation : Nat → List (PathTree PerfBottomUpStruct) → List (PathTree PerfBottomUpStruct)
  | 0, _ => []
  | levels + 1, dataArray =>
    (dataArray.foldl mergeSame []).map fun entry =>
      match entry.2.frameChildren with
      | none => entry.2.node
      | some frames => .node entry.2.node.data (entry.2.node.children ++ mergeTreeBifurcation levels frames)

def topUpDataToBottomUpData (perfPositiveArray : List (PathTree PerfBottomUpStruct)) : List (PathTree PerfBottomUpStruct) :=
  let reverseTreeArray := recursionForest [] perfPositiveArray
  mergeTreeBifurcation (reverseTreeArray.length + 1) reverseTreeArray

def getBottomUp (samplesData : List PerfCountSample) : Option (List (PathTree PerfBottomUpStruct)) := do
  let topUp ← worker.topUp samplesData
  some (topUpDataToBottomUpData topUp.children)

end ProcedureLogicWorkerPerf

end SmartPerf.CallTree
