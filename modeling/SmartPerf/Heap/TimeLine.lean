import SmartPerf.Data.Machine

namespace SmartPerf.Heap

open Data List

/-! Cutting an allocation timeline to a time range: `PbreaderJSMemoryParser::ParseTimeLine` in a split. -/

structure TimeLineNode where
  (type name id selfSize edgeCount traceNodeId detachedness : Nat)
deriving DecidableEq

/-- The edges of a node stand behind those of the nodes before it, each as the place in the flat array, with seven numbers
for each node, that it leads to. A sample is a time in microseconds and the last id assigned by then. -/
structure TimeLine where
  nodeCount : Nat
  nodes : List TimeLineNode
  edges : List Nat
  samples : List (Nat × Nat)

/-- The start of the plugin and the range to cut to, in nanoseconds. -/
structure SplitRange where
  (pluginStartTime startTime endTime : Nat)

def SplitRange.contains (range : SplitRange) (sample : Nat × Nat) : Bool :=
  let time := (range.pluginStartTime + sample.1 * 1000) % 2 ^ 64
  range.startTime ≤ time ∧ time ≤ range.endTime

/-- `ParseSample`: the samples that are written, and `nodeFileId_`, the id of the last of them. -/
def parseSample (range : SplitRange) (samples : List (Nat × Nat)) (nodeFileId : Nat) : List (Nat × Nat) × Nat :=
  let filteredSamples := samples.filter range.contains
  let firstTimeStamp := (filteredSamples.head?.map Prod.fst).getD invalidUint32
  (filteredSamples.map fun sample => (sample.1 - firstTimeStamp, sample.2),
    (filteredSamples.getLast?.map Prod.snd).getD nodeFileId)

/-- The test of `ParseNodes`. -/
def TimeLineNode.isKept (nodeFileId : Nat) (node : TimeLineNode) : Bool :=
  nodeFileId ≠ invalidUint32 ∧ node.id ≤ nodeFileId

def parseTimeLine (range : SplitRange) (nodeFileId : Nat) (timeLine : TimeLine) : TimeLine :=
  let (filteredSamples, nodeFileId) := parseSample range timeLine.samples nodeFileId
  let filteredNodes := timeLine.nodes.filter (TimeLineNode.isKept nodeFileId)
  { timeLine with samples := filteredSamples, nodes := filteredNodes, nodeCount := filteredNodes.length }

/-- The node that edge `index` leads from. -/
def fromNode : List TimeLineNode → Nat → Option TimeLineNode
  | [], _ => none
  | node :: nodes, index => if index < node.edgeCount then some node else fromNode nodes (index - node.edgeCount)

structure TimeLine.WellFormed (timeLine : TimeLine) : Prop where
  counts : (timeLine.nodes.map TimeLineNode.edgeCount).sum = timeLine.edges.length
  distinct : (timeLine.nodes.map TimeLineNode.id).Nodup
  targets : ∀ edge ∈ timeLine.edges, edge / 7 < timeLine.nodes.length

/-- The counts fit, and the edges lead from and to the nodes of the timeline before. -/
structure TimeLine.Consistent (before after : TimeLine) : Prop where
  nodeCount : after.nodes.length = after.nodeCount
  edgeCounts : (after.nodes.map TimeLineNode.edgeCount).sum = after.edges.length
  sources : ∀ index < after.edges.length, fromNode after.nodes index = fromNode before.nodes index
  targets : ∀ edge ∈ after.edges, after.nodes[edge / 7]? = before.nodes[edge / 7]?

section
variable {keeps : TimeLineNode → Bool} {nodes : List TimeLineNode}

/-- Edges are lost with every removed node that has some. -/
theorem sum_filter_eq_iff : ((nodes.filter keeps).map TimeLineNode.edgeCount).sum = (nodes.map TimeLineNode.edgeCount).sum ↔
    ∀ node ∈ nodes, keeps node = false → node.edgeCount = 0 := by
  induction nodes with
  | nil => simp
  | cons node nodes ih =>
    rw [forall_mem_cons, ← ih]
    cases kept : keeps node with
    | true => simp [kept]
    | false =>
      have less : ((nodes.filter keeps).map TimeLineNode.edgeCount).sum ≤ (nodes.map TimeLineNode.edgeCount).sum :=
        (filter_sublist.map _).sum_le_sum fun _ _ => Nat.zero_le _
      simp only [kept, filter_cons_of_neg, Bool.false_eq_true, not_false_eq_true, map_cons, sum_cons, forall_const]
      omega

theorem fromNode_filter (empty : ∀ node ∈ nodes, keeps node = false → node.edgeCount = 0) (index : Nat) :
    fromNode (nodes.filter keeps) index = fromNode nodes index := by
  induction nodes generalizing index with
  | nil => rfl
  | cons node nodes ih =>
    have rest := ih (forall_mem_of_forall_mem_cons empty)
    cases kept : keeps node with
    | true => rw [filter_cons_of_pos kept, fromNode, fromNode, rest]
    | false =>
      rw [filter_cons_of_neg (by simp [kept]), rest, fromNode, empty node mem_cons_self kept, if_neg (Nat.not_lt_zero _),
        Nat.sub_zero]

/-- A place still holds its node exactly when no node up to it is removed. -/
theorem getElem_filter_iff (distinct : nodes.Nodup) {place : Nat} (inside : place < nodes.length) :
    (nodes.filter keeps)[place]? = nodes[place]? ↔
      ∀ index node, nodes[index]? = some node → keeps node = false → place < index := by
  constructor
  · intro same index node at_index removed
    obtain ⟨origin, found⟩ := sublist_iff_exists_orderEmbedding_getElem?_eq.mp (@filter_sublist _ keeps nodes)
    have at_place : place = origin place := (getElem?_inj inside distinct).mp (same.symm.trans (found place))
    by_contra late
    -- the nodes kept up to this place were at most as far apart before, so each stands where it stood
    have far := origin.strictMono.add_le_nat (place - index) index
    have near := origin.strictMono.le_apply (x := index)
    rw [Nat.sub_add_cancel (by omega), ← at_place] at far
    have there := (found index).trans ((congrArg _ (show origin index = index by omega)).trans at_index)
    rw [(mem_filter.mp (mem_of_getElem? there)).2] at removed
    cases removed
  · intro behind
    have all : ∀ node ∈ nodes.take (place + 1), keeps node = true := by
      intro node taken
      obtain ⟨index, before, rfl⟩ := mem_take_iff_getElem.mp taken
      by_contra removed
      have later := behind index _ (getElem?_eq_getElem (by omega)) (Bool.eq_false_iff.mpr removed)
      omega
    have length : place < (nodes.take (place + 1)).length := by
      rw [length_take]
      omega
    rw [← take_append_drop (place + 1) nodes, filter_append, filter_eq_self.mpr all, getElem?_append_left length,
      getElem?_append_left length]

end

/-- The cut timeline is consistent exactly when each removed node has no edges and all edges lead to nodes before it. -/
theorem parseTimeLine_consistent_iff (range : SplitRange) (nodeFileId : Nat) (timeLine : TimeLine)
    (wellFormed : timeLine.WellFormed) {last : Nat × Nat}
    (sampled : (timeLine.samples.filter range.contains).getLast? = some last) :
    timeLine.Consistent (parseTimeLine range nodeFileId timeLine) ↔
      ∀ index node, timeLine.nodes[index]? = some node → node.isKept last.2 = false →
        node.edgeCount = 0 ∧ ∀ edge ∈ timeLine.edges, edge / 7 < index := by
  have nodes_eq : (parseTimeLine range nodeFileId timeLine).nodes =
      timeLine.nodes.filter (TimeLineNode.isKept last.2) := by
    simp [parseTimeLine, parseSample, sampled]
  have place_iff (edge : Nat) (listed : edge ∈ timeLine.edges) :=
    @getElem_filter_iff (TimeLineNode.isKept last.2) _ wellFormed.distinct.of_map _ (wellFormed.targets edge listed)
  constructor
  · intro consistent index node found removed
    have edgeCounts := consistent.edgeCounts
    rw [nodes_eq] at edgeCounts
    refine ⟨sum_filter_eq_iff.mp (edgeCounts.trans wellFormed.counts.symm) node (mem_of_getElem? found) removed, ?_⟩
    intro edge listed
    have target := consistent.targets edge listed
    rw [nodes_eq, place_iff edge listed] at target
    exact target index node found removed
  · intro unused
    have empty : ∀ node ∈ timeLine.nodes, node.isKept last.2 = false → node.edgeCount = 0 := by
      intro node listed removed
      obtain ⟨index, found⟩ := mem_iff_getElem?.mp listed
      exact (unused index node found removed).1
    refine ⟨rfl, ?_, fun index _ => ?_, fun edge listed => ?_⟩
    · rw [nodes_eq]
      exact (sum_filter_eq_iff.mpr empty).trans wellFormed.counts
    · rw [nodes_eq, fromNode_filter empty]
    · rw [nodes_eq, place_iff edge listed]
      exact fun index node found removed => (unused index node found removed).2 edge listed

/-- Node 3 was assigned behind a range up to 200 ns and has the edge to node 1. -/
def laterNode : TimeLine :=
  ⟨2, [⟨0, 0, 1, 8, 0, 0, 0⟩, ⟨0, 0, 3, 8, 1, 0, 0⟩], [0], [(0, 1), (5, 3)]⟩

theorem parseTimeLine_laterNode : laterNode.WellFormed ∧
    ¬ laterNode.Consistent (parseTimeLine ⟨100, 0, 200⟩ invalidUint32 laterNode) :=
  ⟨⟨rfl, by decide, by decide⟩, fun consistent => absurd consistent.edgeCounts (by decide)⟩

theorem parseTimeLine_wholeRange : laterNode.Consistent (parseTimeLine ⟨100, 0, 6000⟩ invalidUint32 laterNode) := by
  have sampled : (laterNode.samples.filter (SplitRange.contains ⟨100, 0, 6000⟩)).getLast? = some (5, 3) := rfl
  have kept : ∀ node ∈ laterNode.nodes, node.isKept 3 = true := by decide
  refine (parseTimeLine_consistent_iff _ invalidUint32 laterNode ⟨rfl, by decide, by decide⟩ sampled).mpr ?_
  intro index node found removed
  exact absurd (kept node (mem_of_getElem? found)) (Bool.eq_false_iff.mp removed)

end SmartPerf.Heap
