import SmartPerf.Data.TreeSums
import SmartPerf.Heap.Dominators

namespace SmartPerf.Heap

open Data List

/-! The retained sizes of the nodes, as the loader leaves them. -/

namespace HeapSnapshot

variable (snapshot : HeapSnapshot)

def selfSize (nodeIndex : Nat) : Nat := (snapshot.nodes[nodeIndex]?.map HeapNode.selfSize).getD 0

/-- Each node but the last one in the order adds what it retains to its dominator. At first it retains
itself. -/
def calRetainedSize (fuel : Nat) : Option (Nat → Nat) := do
  let orderIdx2NodeIdx := snapshot.buildOrderIdx snapshot.calFlags
  let dominatorTree ← snapshot.buildDominatorTree snapshot.calFlags fuel orderIdx2NodeIdx
  some ((orderIdx2NodeIdx.take (snapshot.nodes.length - 1)).foldl (pushUp dominatorTree) snapshot.selfSize)

open Classical in
/-- The size of all nodes that a node dominates along the counted edges. -/
noncomputable def dominatedSize (nodeIndex : Nat) : Nat :=
  ∑ other ∈ Finset.range snapshot.nodes.length with
    Dominates (snapshot.CountedEdge snapshot.calFlags) 0 nodeIndex other, snapshot.selfSize other

variable {snapshot} {flag : Nat → Nat} {order : List Nat} {tree : Nat → Nat}

theorem dominatedSize_root : snapshot.dominatedSize 0 = (snapshot.nodes.map HeapNode.selfSize).sum := by
  classical
  have all : ∀ other ∈ Finset.range snapshot.nodes.length, Dominates (snapshot.CountedEdge snapshot.calFlags) 0 0 other :=
    fun other _ => root_dominates other
  rw [dominatedSize, Finset.filter_true_of_mem all, ← Fin.sum_univ_eq_sum_range]
  simp [selfSize]

section Tree

variable (searched : snapshot.Searched flag order)
  (immediate : ∀ nodeIndex, nodeIndex < snapshot.nodes.length → nodeIndex ≠ 0 →
    ImmediateDominator (snapshot.CountedEdge flag) 0 (tree nodeIndex) nodeIndex)
include searched

theorem Searched.front : order = order.take (snapshot.nodes.length - 1) ++ [0] := by
  obtain ⟨front, shape⟩ := getLast?_eq_some_iff.mp searched.completed.last
  have split : order = front ++ [0] := by simpa [Search.seen] using shape
  have length := searched.length_eq
  rw [split, length_append, length_singleton] at length
  rw [split, ← length, Nat.add_sub_cancel, take_left]

theorem Searched.mem_front {nodeIndex : Nat} :
    nodeIndex ∈ order.take (snapshot.nodes.length - 1) ↔ nodeIndex < snapshot.nodes.length ∧ nodeIndex ≠ 0 := by
  have unique : order.Nodup := searched.perm.nodup_iff.mpr nodup_range
  have member : nodeIndex ∈ order ↔ nodeIndex < snapshot.nodes.length := by
    rw [searched.perm.mem_iff, mem_range]
  rw [searched.front, nodup_append] at unique
  rw [searched.front, mem_append, mem_singleton] at member
  rw [← member]
  constructor
  · intro inside
    exact ⟨.inl inside, fun same => unique.2.2 nodeIndex inside 0 (mem_singleton_self 0) same⟩
  · intro ⟨either, inner⟩
    exact either.resolve_right inner

include immediate

theorem tree_spec {nodeIndex : Nat} (below : nodeIndex < snapshot.nodes.length) (inner : nodeIndex ≠ 0) :
    tree nodeIndex < snapshot.nodes.length ∧ order.idxOf nodeIndex < order.idxOf (tree nodeIndex) := by
  have dominator := immediate nodeIndex below inner
  have inside : nodeIndex ∈ order := searched.perm.mem_iff.mpr (mem_range.mpr below)
  have reached := Search.reaches_of_mem_order searched.completed inside
  have treeReached := dominator.dominates.reached reached
  have treeInside := Search.mem_order_of_reaches searched.completed treeReached
  exact ⟨mem_range.mp (searched.perm.mem_iff.mp treeInside),
    searched.numbering.descending.number_lt reached dominator.dominates dominator.proper⟩

theorem dominates_iff_climbs {low high : Nat} (below : low < snapshot.nodes.length) :
    Dominates (snapshot.CountedEdge flag) 0 high low ↔
      Climbs tree (order.take (snapshot.nodes.length - 1)) low high := by
  induction gap : snapshot.nodes.length - order.idxOf low using Nat.strong_induction_on generalizing low with
  | _ gap ih =>
    by_cases atRoot : low = 0
    · subst atRoot
      constructor
      · intro dominates
        rw [eq_root_of_dominates_root dominates]
        exact .refl
      · intro climbs
        rw [climbs.eq_of_notMem fun inside => (searched.mem_front.mp inside).2 rfl]
        exact dominates_self 0
    · obtain ⟨treeBelow, later⟩ := tree_spec searched immediate below atRoot
      have placed := (searched.nodeAt_idxOf below).1
      have above := ih _ (by omega) treeBelow rfl
      by_cases same : high = low
      · subst same
        exact ⟨fun _ => .refl, fun _ => dominates_self high⟩
      · rw [(immediate low below atRoot).dominates_iff same, above]
        constructor
        · intro climbs
          exact climbs.head ⟨searched.mem_front.mpr ⟨below, atRoot⟩, rfl⟩
        · intro climbs
          rcases climbs.cases_head with equal | ⟨next, ⟨-, rfl⟩, rest⟩
          · exact absurd equal.symm same
          · exact rest

theorem parentsLater : ParentsLater tree (order.take (snapshot.nodes.length - 1)) := by
  intro before node after shape inside
  have member : node ∈ order.take (snapshot.nodes.length - 1) := by simp [shape]
  obtain ⟨below, inner⟩ := searched.mem_front.mp member
  have later := (tree_spec searched immediate below inner).2
  have unique : order.Nodup := searched.perm.nodup_iff.mpr nodup_range
  have split : order = before ++ node :: (after ++ [0]) := by
    rw [searched.front, shape]
    simp
  rw [split, nodup_middle, nodup_cons, mem_append, not_or] at unique
  have place : order.idxOf node = before.length := by
    rw [split, idxOf_append_of_notMem unique.1.1, idxOf_cons_self, Nat.add_zero]
  have treePlace : order.idxOf (tree node) ≤ before.length := by
    have start : before ++ node :: (after ++ [0]) = (before ++ [node]) ++ (after ++ [0]) := by simp
    rw [split, start, idxOf_append_of_mem inside]
    have bound := idxOf_lt_length_of_mem inside
    rw [length_append, length_singleton] at bound
    omega
  omega

theorem foldl_pushUp {nodeIndex : Nat} (below : nodeIndex < snapshot.nodes.length) :
    (order.take (snapshot.nodes.length - 1)).foldl (pushUp tree) snapshot.selfSize nodeIndex =
      subtreeSum (Finset.range snapshot.nodes.length) tree snapshot.selfSize
        (order.take (snapshot.nodes.length - 1)) nodeIndex := by
  apply pushUp_foldl
  · exact fun _ _ => rfl
  · have unique : order.Nodup := searched.perm.nodup_iff.mpr nodup_range
    exact unique.sublist (take_sublist _ _)
  · exact parentsLater searched immediate
  · intro node inside
    obtain ⟨nodeBelow, inner⟩ := searched.mem_front.mp inside
    exact ⟨Finset.mem_range.mpr nodeBelow, Finset.mem_range.mpr (tree_spec searched immediate nodeBelow inner).1⟩
  · exact Finset.mem_range.mpr below

end Tree

end HeapSnapshot

theorem loopSnapshot_outside {nodeIndex next : Nat} (essential : loopSnapshot.EssentialEdge nodeIndex next) :
    ¬ HeapSnapshot.entersPage loopSnapshot.calFlags nodeIndex next := by
  have unowned : ∀ nodeIndex < 3, HeapSnapshot.hasFlag loopSnapshot.calFlags nodeIndex pageProject = false := by
    decide +kernel
  simp [HeapSnapshot.entersPage, unowned next essential.next_lt]

/-- Node 1 can be queried and leads into a page from outside, so the search comes to nodes 2 and 3 by
an edge that does not count and leaves node 3 before node 2, which it dominates. -/
def queriedSnapshot : HeapSnapshot := .ofEdges
  [[(.property, 1), (.shortcut, 3)], [(.property, 2)], [(.property, 3)], [(.property, 2)]]

end SmartPerf.Heap
