import Mathlib.Logic.Function.Basic
import Mathlib.Logic.Function.Iterate
import SmartPerf.Heap.Snapshot

namespace SmartPerf.Heap

/-! What the loader marks on the nodes before it looks for dominators: detached DOM nodes, nodes that
can be queried, and nodes that a page owns. -/

def canBeQueried : Nat := 1
def detachedDomNode : Nat := 2
def pageProject : Nat := 4

/-- The marks of the nodes, by their indices. -/
structure Marks where
  detachedness : Nat → DetachedNessState
  displayName : Nat → String := fun _ => ""
  flag : Nat → Nat := fun _ => 0

/-- The nodes to visit, the next one first. -/
structure DOMState where
  visited : Nat → Bool := fun _ => false
  attached : List Nat := []
  detached : List Nat := []
  marks : Marks

namespace HeapSnapshot

variable (snapshot : HeapSnapshot) (state : DOMState)

def processNode (nodeIndex : Nat) (newState : DetachedNessState) : DOMState :=
  match snapshot.nodes[nodeIndex]? with
  | none => state
  | some node =>
    if state.visited nodeIndex then state
    else
      let state := { state with visited := Function.update state.visited nodeIndex true }
      if node.type ≠ .native then state
      else
        let marks := { state.marks with detachedness := Function.update state.marks.detachedness nodeIndex newState }
        match newState with
        | .attached => { state with marks, attached := nodeIndex :: state.attached }
        | .detached =>
          { state with
            marks := {
              detachedness := marks.detachedness
              displayName := Function.update marks.displayName nodeIndex ("Detached " ++ node.name)
              flag := Function.update marks.flag nodeIndex (marks.flag nodeIndex ||| detachedDomNode) }
            detached := nodeIndex :: state.detached }
        | .unknown => { state with marks }

def iterateFilteredChildren (nodeIndex : Nat) (newState : DetachedNessState) : DOMState :=
  (snapshot.childrenOf (fun type => type ≠ .hidden ∧ type ≠ .weak ∧ type ≠ .invisible) nodeIndex).foldl
    (fun state child => snapshot.processNode state child newState) state

def attachedStep : DOMState :=
  match state.attached with
  | [] => state
  | nodeIndex :: rest => snapshot.iterateFilteredChildren { state with attached := rest } nodeIndex .attached

def detachedStep : DOMState :=
  match state.detached with
  | [] => state
  | nodeIndex :: rest =>
    if state.marks.detachedness nodeIndex ≠ .attached then
      snapshot.iterateFilteredChildren { state with detached := rest } nodeIndex .detached
    else { state with detached := rest }

def knownDOMState : DOMState :=
  (List.range snapshot.nodes.length).foldl (fun state nodeIndex =>
    if state.marks.detachedness nodeIndex = .unknown then state
    else snapshot.processNode state nodeIndex (state.marks.detachedness nodeIndex))
    { marks := { detachedness := fun nodeIndex => (snapshot.nodes[nodeIndex]?.map HeapNode.detachedness).getD .unknown } }

/-- The two loops. A node gets on a list when it is visited, so each loop takes at most one step for
each node. -/
def spreadDOMState : DOMState :=
  snapshot.detachedStep^[snapshot.nodes.length] (snapshot.attachedStep^[snapshot.nodes.length] snapshot.knownDOMState)

def distributeDOMState : Marks := snapshot.spreadDOMState.marks

/-- The flags and the nodes to visit, the next one first. -/
structure Marking where
  flag : Nat → Nat
  list : List Nat

variable (flag : Nat → Nat)

def hasFlag (nodeIndex mark : Nat) : Bool := flag nodeIndex &&& mark ≠ 0

def addFlag (nodeIndex mark : Nat) : Nat → Nat :=
  Function.update flag nodeIndex (flag nodeIndex ||| mark)

variable (marking : Marking)

def queryableStep : Marking :=
  match marking.list with
  | [] => marking
  | nodeIndex :: rest =>
    if hasFlag marking.flag nodeIndex canBeQueried then { marking with list := rest }
    else
      let flag := addFlag marking.flag nodeIndex canBeQueried
      let children := snapshot.childrenOf
        (fun type => type ≠ .hidden ∧ type ≠ .invisible ∧ type ≠ .internal ∧ type ≠ .weak) nodeIndex
      { flag, list := (children.filter (!hasFlag flag · canBeQueried)).reverse ++ rest }

def queryableRoots : Marking where
  flag := flag
  list := ((snapshot.childrenOf (fun _ => true) 0).filter fun child =>
    (snapshot.nodes[child]?.map HeapNode.isUserRoot).getD false).reverse

/-- A node puts its children on the list once, when it gets its flag. -/
def queryableLoop : Marking :=
  snapshot.queryableStep^[2 * snapshot.edges.length] (snapshot.queryableRoots flag)

def markQueryableNodes : Nat → Nat := (snapshot.queryableLoop flag).flag

def ownChild (child : Nat) : Marking :=
  if hasFlag marking.flag child pageProject then marking
  else { flag := addFlag marking.flag child pageProject, list := child :: marking.list }

def pageOwnedStep : Marking :=
  match marking.list with
  | [] => marking
  | nodeIndex :: rest =>
    (snapshot.childrenOf (· ≠ .weak) nodeIndex).foldl ownChild { marking with list := rest }

def isPageEdge (edge : HeapEdge) : Bool :=
  match edge.type with
  | .element => ((snapshot.nodeIndexOf edge.toNodeId).bind (snapshot.nodes[·]?)).any HeapNode.isDocumentDOMTreesRoot
  | .shortcut => true
  | _ => false

def pagesOf (root : HeapNode) : List Nat :=
  ((snapshot.edgesOf root).filter (snapshot.isPageEdge ·.1)).filterMap (snapshot.nodeIndexOf ·.1.toNodeId)

def pageRoots : Marking :=
  ((snapshot.nodes.head?.map snapshot.pagesOf).getD []).foldl (fun marking child =>
    { flag := addFlag marking.flag child pageProject, list := child :: marking.list }) { flag, list := [] }

/-- Beside one step for each edge of the root, a node is visited once, when it gets its flag. -/
def pageOwnedLoop : Marking :=
  snapshot.pageOwnedStep^[snapshot.edges.length + snapshot.nodes.length] (snapshot.pageRoots flag)

def markPageOwnedNodes : Nat → Nat := (snapshot.pageOwnedLoop flag).flag

/-- `calFlags`, after `distributeDOMState`. -/
def calFlags : Nat → Nat :=
  snapshot.markPageOwnedNodes (snapshot.markQueryableNodes snapshot.distributeDOMState.flag)

end HeapSnapshot

end SmartPerf.Heap
