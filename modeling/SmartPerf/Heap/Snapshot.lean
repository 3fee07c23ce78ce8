import Mathlib.Tactic

namespace SmartPerf.Heap

open List

/-! A heap snapshot as the loader reads it from the database. -/

inductive EdgeType where
  | context
  | element
  | property
  | internal
  | hidden
  | shortcut
  | weak
  | node
  | invisible
deriving Repr, DecidableEq

inductive NodeType where
  | hidden
  | array
  | string
  | object
  | code
  | closure
  | regexp
  | number
  | native
  | synthetic
  | concatenatedString
  | slicedString
  | symbol
  | bigint
  | objectShape
deriving Repr, DecidableEq

inductive DetachedNessState where
  | unknown
  | attached
  | detached
deriving Repr, DecidableEq

structure HeapNode where
  type : NodeType
  name : String
  id : Nat
  selfSize : Nat
  edgeCount : Nat
  detachedness : DetachedNessState := .unknown
  firstEdgeIndex : Nat
deriving Repr, DecidableEq

/-- The index of an edge is its place in the list. -/
structure HeapEdge where
  type : EdgeType
  toNodeId : Nat
deriving Repr, DecidableEq

/-- The index of a node is its place in the list; the root is the first one. -/
structure HeapSnapshot where
  nodes : List HeapNode
  edges : List HeapEdge
deriving Repr, DecidableEq

def HeapNode.isUserRoot (node : HeapNode) : Bool := node.type ≠ .synthetic

def HeapNode.isDocumentDOMTreesRoot (node : HeapNode) : Bool :=
  node.type ≠ .synthetic ∧ node.name = "(Document DOM trees)"

namespace HeapSnapshot

variable (snapshot : HeapSnapshot)

/-- `nodeMap.get(id)`, by the index of the node. -/
def nodeIndexOf (id : Nat) : Option Nat := snapshot.nodes.findIdx? (·.id = id)

def rootId : Option Nat := snapshot.nodes.head?.map HeapNode.id

def firstEdgeIndex (nodeIndex : Nat) : Nat := (snapshot.nodes[nodeIndex]?.map HeapNode.firstEdgeIndex).getD 0
def edgeCount (nodeIndex : Nat) : Nat := (snapshot.nodes[nodeIndex]?.map HeapNode.edgeCount).getD 0

/-- The edges that `buildNodeEdge` gives to a node, with their indices. -/
def edgesOf (node : HeapNode) : List (HeapEdge × Nat) :=
  ((snapshot.edges.drop node.firstEdgeIndex).take node.edgeCount).zipIdx node.firstEdgeIndex

def childrenOf (taken : EdgeType → Bool) (nodeIndex : Nat) : List Nat :=
  match snapshot.nodes[nodeIndex]? with
  | none => []
  | some node => ((snapshot.edgesOf node).filter (taken ·.1.type)).filterMap (snapshot.nodeIndexOf ·.1.toNodeId)

def isEssentialEdge (edge : HeapEdge) (nodeId : Nat) : Bool :=
  edge.type ≠ .weak ∧ (edge.type ≠ .shortcut ∨ some nodeId = snapshot.rootId)

/-- The snapshot has a root, each node owns the next run of the edges, and every edge has a target. -/
structure WellFormed : Prop where
  rooted : snapshot.nodes ≠ []
  ids : (snapshot.nodes.map HeapNode.id).Nodup
  runs : ∀ index node, snapshot.nodes[index]? = some node →
    node.firstEdgeIndex = ((snapshot.nodes.take index).map HeapNode.edgeCount).sum
  total : (snapshot.nodes.map HeapNode.edgeCount).sum = snapshot.edges.length
  targets : ∀ edge ∈ snapshot.edges, ∃ node ∈ snapshot.nodes, node.id = edge.toNodeId

/-- A snapshot by the edges of each node, all nodes of the same size. -/
def ofEdges (edges : List (List (EdgeType × Nat))) : HeapSnapshot where
  nodes := edges.zipIdx.map fun entry => {
    type := if entry.2 = 0 then .synthetic else .object
    name := ""
    id := entry.2
    selfSize := 1
    edgeCount := entry.1.length
    firstEdgeIndex := ((edges.take entry.2).map List.length).sum }
  edges := edges.flatten.map fun edge => { type := edge.1, toNodeId := edge.2 }

variable {snapshot}

theorem wellFormed_iff : snapshot.WellFormed ↔
    snapshot.nodes ≠ [] ∧ (snapshot.nodes.map HeapNode.id).Nodup ∧
      (∀ index < snapshot.nodes.length, snapshot.nodes[index]?.map HeapNode.firstEdgeIndex =
        some ((snapshot.nodes.take index).map HeapNode.edgeCount).sum) ∧
      (snapshot.nodes.map HeapNode.edgeCount).sum = snapshot.edges.length ∧
      ∀ edge ∈ snapshot.edges, ∃ node ∈ snapshot.nodes, node.id = edge.toNodeId := by
  constructor
  · intro wellFormed
    refine ⟨wellFormed.rooted, wellFormed.ids, fun index below => ?_, wellFormed.total, wellFormed.targets⟩
    have found := getElem?_eq_getElem below
    rw [found, Option.map_some, wellFormed.runs index _ found]
  · intro ⟨rooted, ids, runs, total, targets⟩
    refine ⟨rooted, ids, fun index node found => ?_, total, targets⟩
    have run := runs index (List.getElem?_eq_some_iff.mp found).1
    rwa [found, Option.map_some, Option.some.injEq] at run

instance : Decidable snapshot.WellFormed := decidable_of_iff' _ wellFormed_iff

theorem mem_edgesOf {node : HeapNode} {edge : HeapEdge} {edgeIndex : Nat} :
    (edge, edgeIndex) ∈ snapshot.edgesOf node ↔
      node.firstEdgeIndex ≤ edgeIndex ∧ edgeIndex < node.firstEdgeIndex + node.edgeCount ∧
        snapshot.edges[edgeIndex]? = some edge := by
  rw [edgesOf, mk_mem_zipIdx_iff_le_and_getElem?_sub]
  constructor
  · intro ⟨first, found⟩
    rw [getElem?_take] at found
    split at found
    · rw [getElem?_drop, Nat.add_sub_cancel' first] at found
      exact ⟨first, by omega, found⟩
    · cases found
  · intro ⟨first, last, found⟩
    rw [getElem?_take, if_pos (by omega), getElem?_drop, Nat.add_sub_cancel' first]
    exact ⟨first, found⟩

theorem nodeIndexOf_lt {id index : Nat} (found : snapshot.nodeIndexOf id = some index) : index < snapshot.nodes.length :=
  (findIdx?_eq_some_iff_findIdx_eq.mp found).1

theorem sum_edgeCount (wellFormed : snapshot.WellFormed) :
    ∑ nodeIndex ∈ Finset.range snapshot.nodes.length, snapshot.edgeCount nodeIndex = snapshot.edges.length := by
  rw [← wellFormed.total, ← Fin.sum_univ_eq_sum_range]
  simp [edgeCount]

theorem WellFormed.rootId_iff (wellFormed : snapshot.WellFormed) {index : Nat} {node : HeapNode}
    (found : snapshot.nodes[index]? = some node) : some node.id = snapshot.rootId ↔ index = 0 := by
  cases shape : snapshot.nodes with
  | nil => exact absurd shape wellFormed.rooted
  | cons root rest =>
    have unique := wellFormed.ids
    rw [shape] at found unique
    rw [map_cons, nodup_cons] at unique
    simp only [rootId, shape, head?_cons, Option.map_some, Option.some.injEq]
    cases index with
    | zero =>
      simp only [getElem?_cons_zero, Option.some.injEq] at found
      simp [found]
    | succ index =>
      rw [getElem?_cons_succ] at found
      have member := mem_map_of_mem (f := HeapNode.id) (mem_of_getElem? found)
      constructor
      · intro same
        exact absurd (same ▸ member) unique.1
      · intro zero
        cases zero

end HeapSnapshot

end SmartPerf.Heap
