import SmartPerf.Data.CommonDominator
import SmartPerf.Heap.Order

namespace SmartPerf.Heap

open Data

/-! `buildDominatorTree`: the dominators of the nodes, which it looks for by their places in the
order of the search, from the root down and again while some of them change. -/

/-- The number of nodes stands for a dominator that is not known. -/
structure DominatorState where
  dominators : Nat → Nat
  affected : Nat → Bool
  changed : Bool := true

/-- The loop over the retainers in `buildDominatorTreeLogic`, by their places in the order. -/
def meetRetainers (fuel nodeCount rootOrderedIdx : Nat) (dominators : Nat → Nat) : List Nat → Nat → Option Nat
  | [], newDominatorIdx => some newDominatorIdx
  | retainerOrderIdx :: rest, newDominatorIdx =>
    if dominators retainerOrderIdx ≠ nodeCount then do
      let newDominatorIdx ←
        if newDominatorIdx = nodeCount then some retainerOrderIdx
        else intersect dominators fuel retainerOrderIdx newDominatorIdx
      if newDominatorIdx = rootOrderedIdx then some newDominatorIdx
      else meetRetainers fuel nodeCount rootOrderedIdx dominators rest newDominatorIdx
    else meetRetainers fuel nodeCount rootOrderedIdx dominators rest newDominatorIdx

namespace HeapSnapshot

variable (snapshot : HeapSnapshot) (flag : Nat → Nat) (fuel : Nat) (orderIdx2NodeIdx : List Nat)

def isEssentialRetainer (retainer : Nat × Nat) : Bool :=
  match snapshot.nodes[retainer.1]?, snapshot.edges[retainer.2]? with
  | some node, some edge => snapshot.isEssentialEdge edge node.id
  | _, _ => false

/-- The node belongs to a page and its retainer, which is not the root, does not. -/
def entersPage (retainer nodeIdx : Nat) : Bool :=
  retainer ≠ 0 ∧ hasFlag flag nodeIdx pageProject ∧ ¬ hasFlag flag retainer pageProject

/-- The new dominator of a node, the root when it has no essential retainer. -/
def buildDominatorTreeLogic (dominators : Nat → Nat) (nodeIdx : Nat) : Option Nat :=
  let retainers := (snapshot.retainersOf nodeIdx).filter snapshot.isEssentialRetainer
  if retainers = [] then some (snapshot.nodes.length - 1)
  else
    let counted := retainers.filter fun retainer => !entersPage flag retainer.1 nodeIdx
    meetRetainers fuel snapshot.nodes.length (snapshot.nodes.length - 1) dominators
      (counted.map fun retainer => orderIdx2NodeIdx.idxOf retainer.1) snapshot.nodes.length

def markAffected (affected : Nat → Bool) (children : List Nat) : Nat → Bool :=
  children.foldl (fun affected child => Function.update affected (orderIdx2NodeIdx.idxOf child) true) affected

def affectedNode : Nat → Bool :=
  match snapshot.nodes.head? with
  | none => fun _ => false
  | some root =>
    markAffected orderIdx2NodeIdx (fun _ => false)
      (((snapshot.edgesOf root).filter (snapshot.isEssentialEdge ·.1 root.id)).filterMap (snapshot.nodeIndexOf ·.1.toNodeId))

def dominatorStep (state : DominatorState) (orderIdx : Nat) : Option DominatorState :=
  if state.affected orderIdx then
    let state := { state with affected := Function.update state.affected orderIdx false }
    if state.dominators orderIdx = snapshot.nodes.length - 1 then some state
    else do
      let nodeIdx ← orderIdx2NodeIdx[orderIdx]?
      let newDominatorIdx ← snapshot.buildDominatorTreeLogic flag fuel orderIdx2NodeIdx state.dominators nodeIdx
      if newDominatorIdx ≠ snapshot.nodes.length ∧ state.dominators orderIdx ≠ newDominatorIdx then
        some {
          dominators := Function.update state.dominators orderIdx newDominatorIdx
          changed := true
          affected := markAffected orderIdx2NodeIdx state.affected (snapshot.childrenOf (fun _ => true) nodeIdx) }
      else some state
  else some state

/-- The inner loop, from the node before the root down to the first one. -/
def dominatorPass (state : DominatorState) : Option DominatorState :=
  (List.range (snapshot.nodes.length - 1)).reverse.foldlM (snapshot.dominatorStep flag fuel orderIdx2NodeIdx)
    { state with changed := false }

/-- The outer loop; `none` when it does not end within the given number of passes. -/
def dominatorLoop : Nat → DominatorState → Option DominatorState
  | 0, _ => none
  | passes + 1, state => do
      let state ← snapshot.dominatorPass flag fuel orderIdx2NodeIdx state
      if state.changed then dominatorLoop passes state else some state

def initialDominators : DominatorState where
  dominators := Function.update (fun _ => snapshot.nodes.length) (snapshot.nodes.length - 1) (snapshot.nodes.length - 1)
  affected := snapshot.affectedNode orderIdx2NodeIdx

/-- The array `dominatorTree`. A dominator that is still not known is stored as 0. -/
def buildDominatorTree : Option (Nat → Nat) := do
  let state ← snapshot.dominatorLoop flag fuel orderIdx2NodeIdx fuel (snapshot.initialDominators orderIdx2NodeIdx)
  some fun nodeIdx => (orderIdx2NodeIdx[state.dominators (orderIdx2NodeIdx.idxOf nodeIdx)]?).getD 0

def dominatorTree : Option (Nat → Nat) :=
  snapshot.buildDominatorTree snapshot.calFlags fuel (snapshot.buildOrderIdx snapshot.calFlags)

end HeapSnapshot

end SmartPerf.Heap
