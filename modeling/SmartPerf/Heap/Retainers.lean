import SmartPerf.Data.Buckets
import SmartPerf.Heap.Snapshot

namespace SmartPerf.Heap

open Data List

/-! `buildRetainers`: for each node a run of the nodes and edges that lead to it. -/

/-- An edge with the index of the node it leaves and of the node it leads to. -/
structure Outgoing where
  node : Nat
  edgeIndex : Nat
  target : Nat
deriving Repr, DecidableEq

namespace HeapSnapshot

variable (snapshot : HeapSnapshot)

def outgoingOf (entry : HeapNode × Nat) : List Outgoing :=
  (snapshot.edgesOf entry.1).filterMap fun edge =>
    (snapshot.nodeIndexOf edge.1.toNodeId).map fun target => { node := entry.2, edgeIndex := edge.2, target }

/-- All edges in the order in which `buildRetainers` fills the slots. -/
def outgoing : List Outgoing := snapshot.nodes.zipIdx.flatMap snapshot.outgoingOf

def retainCounts : Nat → Nat := countKeys id (snapshot.edges.filterMap fun edge => snapshot.nodeIndexOf edge.toNodeId)

def firstRetainerIndex : Nat → Nat :=
  Function.update (assignRuns snapshot.retainCounts snapshot.nodes.length).first snapshot.nodes.length
    snapshot.edges.length

def retainerSlots : Slots :=
  sortIntoBuckets Outgoing.target Outgoing.node Outgoing.edgeIndex snapshot.retainCounts snapshot.nodes.length
    snapshot.outgoing

def retainingNodes : Nat → Nat := snapshot.retainerSlots.cells
def retainingEdges : Nat → Nat := snapshot.retainerSlots.others

/-- The retainers of a node and the edges by which they retain it, from the arrays. -/
def retainersOf (nodeIndex : Nat) : List (Nat × Nat) :=
  (List.range (snapshot.firstRetainerIndex (nodeIndex + 1) - snapshot.firstRetainerIndex nodeIndex)).map fun offset =>
    (snapshot.retainingNodes (snapshot.firstRetainerIndex nodeIndex + offset),
      snapshot.retainingEdges (snapshot.firstRetainerIndex nodeIndex + offset))

variable {snapshot} in
theorem mem_outgoing {item : Outgoing} : item ∈ snapshot.outgoing ↔
    ∃ node edge, snapshot.nodes[item.node]? = some node ∧ (edge, item.edgeIndex) ∈ snapshot.edgesOf node ∧
      snapshot.nodeIndexOf edge.toNodeId = some item.target := by
  simp only [outgoing, mem_flatMap, outgoingOf, mem_filterMap, Option.map_eq_some_iff, Prod.exists,
    mem_zipIdx_iff_getElem?]
  constructor
  · rintro ⟨node, index, found, edge, edgeIndex, owned, target, leads, rfl⟩
    exact ⟨node, edge, found, owned, leads⟩
  · rintro ⟨node, edge, found, owned, leads⟩
    exact ⟨node, item.node, found, edge, item.edgeIndex, owned, item.target, leads, rfl⟩

variable {snapshot} in
theorem target_lt {item : Outgoing} (inside : item ∈ snapshot.outgoing) : item.target < snapshot.nodes.length := by
  obtain ⟨node, edge, found, owned, leads⟩ := mem_outgoing.mp inside
  exact nodeIndexOf_lt leads

end HeapSnapshot

namespace HeapSnapshot.WellFormed

variable {snapshot : HeapSnapshot} (wellFormed : snapshot.WellFormed)
include wellFormed

theorem nodeIndexOf_isSome {edge : HeapEdge} (inside : edge ∈ snapshot.edges) :
    ∃ target, snapshot.nodeIndexOf edge.toNodeId = some target ∧ target < snapshot.nodes.length := by
  obtain ⟨node, member, same⟩ := wellFormed.targets edge inside
  cases found : snapshot.nodeIndexOf edge.toNodeId with
  | none =>
    have none := findIdx?_eq_none_iff.mp found node member
    simp [same] at none
  | some target =>
    exact ⟨target, rfl, nodeIndexOf_lt found⟩

theorem runs_bound (count : Nat) :
    ((snapshot.nodes.take count).map HeapNode.edgeCount).sum ≤ snapshot.edges.length := by
  have total := wellFormed.total
  rw [← take_append_drop count snapshot.nodes, map_append, sum_append] at total
  omega

theorem runs_concat (count : Nat) :
    ((snapshot.nodes.take count).zipIdx.flatMap fun entry => snapshot.edgesOf entry.1) =
      (snapshot.edges.take ((snapshot.nodes.take count).map HeapNode.edgeCount).sum).zipIdx := by
  induction count with
  | zero => simp
  | succ count ih =>
    by_cases inside : count < snapshot.nodes.length
    · have run := wellFormed.runs count snapshot.nodes[count] (getElem?_eq_getElem inside)
      have bound := wellFormed.runs_bound count
      rw [take_succ_eq_append_getElem inside, zipIdx_append, flatMap_append, ih]
      simp only [zipIdx_singleton, flatMap_cons, flatMap_nil, append_nil, map_append,
        map_cons, map_nil, sum_append, sum_cons, sum_nil, Nat.add_zero]
      rw [edgesOf, run, take_add, zipIdx_append, length_take, Nat.zero_add, Nat.min_eq_left bound]
    · rw [take_of_length_le (by omega)]
      rw [take_of_length_le (by omega)] at ih
      exact ih

theorem outgoing_targets :
    snapshot.outgoing.map Outgoing.target = snapshot.edges.filterMap fun edge => snapshot.nodeIndexOf edge.toNodeId := by
  have whole := wellFormed.runs_concat snapshot.nodes.length
  rw [take_length, wellFormed.total] at whole
  have targets : ∀ entry, (snapshot.outgoingOf entry).map Outgoing.target =
      (snapshot.edgesOf entry.1).filterMap fun edge => snapshot.nodeIndexOf edge.1.toNodeId := by
    intro entry
    rw [outgoingOf, map_filterMap]
    simp [Function.comp_def]
  rw [outgoing, map_flatMap]
  simp only [targets]
  rw [← filterMap_flatMap, whole, ← zipIdx_map_fst 0 snapshot.edges, filterMap_map]
  simp

theorem retainCounts_apply (bucket : Nat) :
    snapshot.retainCounts bucket = snapshot.outgoing.countP (·.target = bucket) := by
  rw [retainCounts, countKeys_apply, ← wellFormed.outgoing_targets, countP_map]
  rfl

theorem outgoing_length : snapshot.outgoing.length = snapshot.edges.length := by
  rw [← length_map Outgoing.target, wellFormed.outgoing_targets, filterMap_length_eq_length]
  intro edge inside
  obtain ⟨target, found, -⟩ := wellFormed.nodeIndexOf_isSome inside
  rw [found]
  rfl

theorem runStart_length : runStart snapshot.retainCounts snapshot.nodes.length = snapshot.edges.length := by
  rw [runStart_eq_length wellFormed.retainCounts_apply fun item inside => target_lt inside, wellFormed.outgoing_length]

theorem firstRetainerIndex_eq {index : Nat} (below : index ≤ snapshot.nodes.length) :
    snapshot.firstRetainerIndex index = runStart snapshot.retainCounts index := by
  obtain ⟨-, starts, -⟩ := assignRuns_spec snapshot.retainCounts snapshot.nodes.length
  by_cases last : index = snapshot.nodes.length
  · rw [last, firstRetainerIndex, Function.update_self, wellFormed.runStart_length]
  · rw [firstRetainerIndex, Function.update_of_ne last, starts, if_pos (by omega)]

theorem retainersOf_eq {nodeIndex : Nat} (below : nodeIndex < snapshot.nodes.length) :
    snapshot.retainersOf nodeIndex =
      ((snapshot.outgoing.filter (·.target = nodeIndex)).map fun item => (item.node, item.edgeIndex)).reverse := by
  rw [← sortIntoBuckets_spec wellFormed.retainCounts_apply (fun item inside => target_lt inside) below,
    retainersOf, wellFormed.firstRetainerIndex_eq (by omega), wellFormed.firstRetainerIndex_eq (by omega), runStart_succ,
    Nat.add_sub_cancel_left]
  rfl

theorem mem_retainersOf {nodeIndex retainer edgeIndex : Nat} (below : nodeIndex < snapshot.nodes.length) :
    (retainer, edgeIndex) ∈ snapshot.retainersOf nodeIndex ↔
      ∃ node edge, snapshot.nodes[retainer]? = some node ∧ (edge, edgeIndex) ∈ snapshot.edgesOf node ∧
        snapshot.nodeIndexOf edge.toNodeId = some nodeIndex := by
  rw [wellFormed.retainersOf_eq below, mem_reverse, mem_map]
  constructor
  · rintro ⟨item, inside, same⟩
    obtain ⟨member, target⟩ := mem_filter.mp inside
    obtain ⟨rfl, rfl⟩ := Prod.mk.inj same
    obtain ⟨node, edge, found, owned, leads⟩ := mem_outgoing.mp member
    exact ⟨node, edge, found, owned, by rw [leads, of_decide_eq_true target]⟩
  · rintro ⟨node, edge, found, owned, leads⟩
    refine ⟨⟨retainer, edgeIndex, nodeIndex⟩, mem_filter.mpr ⟨?_, by simp⟩, rfl⟩
    exact mem_outgoing.mpr ⟨node, edge, found, owned, leads⟩

end HeapSnapshot.WellFormed

end SmartPerf.Heap
