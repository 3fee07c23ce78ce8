import SmartPerf.Heap.DominatorTree

namespace SmartPerf.Heap

open Data List

/-! When the retainers that the search leaves after a node determine its dominators, the first pass finds
the immediate dominators of all nodes and the second one changes none of them. -/

section Table

variable {edge : Nat → Nat → Prop} {root : Nat} {name number : Nat → Nat} {count low fuel : Nat} {dominators : Nat → Nat}

/-- From `low` on the immediate dominators are known, and below it nothing is. -/
structure Known (edge : Nat → Nat → Prop) (root : Nat) (name number : Nat → Nat) (count low : Nat)
    (dominators : Nat → Nat) : Prop where
  unset : ∀ index, index < low → dominators index = count
  top : dominators (number root) = number root
  exact : ∀ index, low ≤ index → index < number root → Exact edge root name count dominators index

theorem Known.extend {index dominator : Nat} (known : Known edge root name number count (index + 1) dominators)
    (inner : index < number root) (below : dominator < count)
    (immediate : ImmediateDominator edge root (name dominator) (name index)) :
    Known edge root name number count index (Function.update dominators index dominator) where
  unset := by
    intro other early
    rw [Function.update_of_ne early.ne]
    exact known.unset other (by omega)
  top := by
    rw [Function.update_of_ne inner.ne']
    exact known.top
  exact := by
    intro other late early
    by_cases same : other = index
    · subst same
      simp only [Exact, Function.update_self]
      exact ⟨below, immediate⟩
    · simp only [Exact, Function.update_of_ne same]
      exact known.exact other (by omega) early

variable (numbering : Numbering edge root name number count)
include numbering

theorem Known.lt_count (known : Known edge root name number count low dominators) {index : Nat} (set : low ≤ index)
    (below : index < count) : dominators index < count := by
  have last := numbering.last
  rcases Nat.lt_or_ge index (number root) with inner | atRoot
  · exact (known.exact index set inner).1
  · have same : index = number root := by omega
    rw [same, known.top]
    omega

theorem Known.ne_count_iff (known : Known edge root name number count low dominators) {index : Nat}
    (below : index < count) : dominators index ≠ count ↔ low ≤ index := by
  constructor
  · intro set
    by_contra outside
    exact set (known.unset index (by omega))
  · intro set
    exact (known.lt_count numbering set below).ne

variable (known : Known edge root name number count low dominators) (enough : 2 * count < fuel)
include known enough

variable (retainers : List Nat)

theorem meetRetainers_from (inside : ∀ retainer ∈ retainers, retainer < count) {current : Nat}
    (set : low ≤ current) (below : current < count) :
    ∃ meet, (if current = number root then some current
        else meetRetainers fuel count (number root) dominators retainers current) = some meet ∧ meet < count ∧
      ∀ dominator, Dominates edge root dominator (name meet) ↔ Dominates edge root dominator (name current) ∧
        ∀ retainer ∈ retainers, low ≤ retainer → Dominates edge root dominator (name retainer) := by
  induction retainers generalizing current with
  | nil => exact ⟨current, by simp [meetRetainers], below, fun dominator => by simp⟩
  | cons retainer rest ih =>
    by_cases atRoot : current = number root
    · refine ⟨current, if_pos atRoot, below, fun dominator => ⟨fun dominates => ⟨dominates, ?_⟩, And.left⟩⟩
      intro other _ _
      rw [atRoot, numbering.name_root] at dominates
      rw [eq_root_of_dominates_root dominates]
      exact root_dominates (name other)
    · rw [if_neg atRoot]
      have first := inside retainer mem_cons_self
      have others := forall_mem_of_forall_mem_cons inside
      by_cases skip : low ≤ retainer
      · obtain ⟨next, found, nextSet, nextBelow, shared⟩ :=
          numbering.intersect_spec known.exact fuel skip first set below (by omega)
        obtain ⟨meet, result, meetBelow, common⟩ := ih others nextSet nextBelow
        refine ⟨meet, ?_, meetBelow, fun dominator => ?_⟩
        · rw [meetRetainers, if_pos ((known.ne_count_iff numbering first).mpr skip), if_neg below.ne, found]
          exact result
        · rw [common, shared, forall_mem_cons]
          tauto
      · obtain ⟨meet, result, meetBelow, common⟩ := ih others set below
        refine ⟨meet, ?_, meetBelow, fun dominator => ?_⟩
        · rw [meetRetainers, if_neg (fun set => skip ((known.ne_count_iff numbering first).mp set))]
          rwa [if_neg atRoot] at result
        · rw [common, forall_mem_cons]
          tauto

theorem meetRetainers_spec (inside : ∀ retainer ∈ retainers, retainer < count)
    (anySet : ∃ retainer ∈ retainers, low ≤ retainer) :
    ∃ meet, meetRetainers fuel count (number root) dominators retainers count = some meet ∧ meet < count ∧
      ∀ dominator, Dominates edge root dominator (name meet) ↔
        ∀ retainer ∈ retainers, low ≤ retainer → Dominates edge root dominator (name retainer) := by
  induction retainers with
  | nil =>
    obtain ⟨retainer, member, -⟩ := anySet
    cases member
  | cons retainer rest ih =>
    have first := inside retainer mem_cons_self
    have others := forall_mem_of_forall_mem_cons inside
    by_cases skip : low ≤ retainer
    · obtain ⟨meet, result, meetBelow, common⟩ := meetRetainers_from numbering known enough rest others skip first
      refine ⟨meet, ?_, meetBelow, fun dominator => ?_⟩
      · rw [meetRetainers, if_pos ((known.ne_count_iff numbering first).mpr skip), if_pos rfl]
        exact result
      · rw [common, forall_mem_cons]
        tauto
    · have later : ∃ other ∈ rest, low ≤ other := by
        obtain ⟨other, member, set⟩ := anySet
        rcases mem_cons.mp member with rfl | member
        · exact absurd set skip
        · exact ⟨other, member, set⟩
      obtain ⟨meet, result, meetBelow, common⟩ := ih others later
      refine ⟨meet, ?_, meetBelow, fun dominator => ?_⟩
      · rw [meetRetainers, if_neg (fun set => skip ((known.ne_count_iff numbering first).mp set))]
        exact result
      · rw [common, forall_mem_cons]
        tauto

end Table

namespace HeapSnapshot

/-- The edges that count: essential ones which do not lead into a page. -/
def CountedEdge (snapshot : HeapSnapshot) (flag : Nat → Nat) (nodeIndex next : Nat) : Prop :=
  snapshot.EssentialEdge nodeIndex next ∧ ¬ entersPage flag nodeIndex next

def nodeAt (orderIdx2NodeIdx : List Nat) (orderIdx : Nat) : Nat := (orderIdx2NodeIdx[orderIdx]?).getD 0

/-- The nodes stand in the order in which a complete search along the counted edges leaves them. -/
structure Searched (snapshot : HeapSnapshot) (flag : Nat → Nat) (order : List Nat) : Prop where
  wellFormed : snapshot.WellFormed
  perm : order.Perm (List.range snapshot.nodes.length)
  completed : Search.Invariant (snapshot.CountedEdge flag) 0 ⟨order, []⟩

variable {snapshot : HeapSnapshot} {flag : Nat → Nat} {order : List Nat} {fuel : Nat}

namespace Searched

variable (searched : snapshot.Searched flag order)
include searched

theorem length_eq : order.length = snapshot.nodes.length := by
  rw [searched.perm.length_eq, length_range]

theorem nodeAt_idxOf {nodeIndex : Nat} (below : nodeIndex < snapshot.nodes.length) :
    order.idxOf nodeIndex < snapshot.nodes.length ∧ nodeAt order (order.idxOf nodeIndex) = nodeIndex := by
  have inside : nodeIndex ∈ order := searched.perm.mem_iff.mpr (mem_range.mpr below)
  have early := idxOf_lt_length_of_mem inside
  rw [← searched.length_eq]
  refine ⟨early, ?_⟩
  rw [nodeAt, getElem?_eq_getElem early, Option.getD_some, getElem_idxOf]

variable {orderIdx : Nat}

theorem nodeAt_spec (below : orderIdx < snapshot.nodes.length) :
    order[orderIdx]? = some (nodeAt order orderIdx) ∧ nodeAt order orderIdx ∈ order ∧
      order.idxOf (nodeAt order orderIdx) = orderIdx := by
  have early : orderIdx < order.length := by rwa [searched.length_eq]
  have unique : order.Nodup := searched.perm.nodup_iff.mpr nodup_range
  rw [nodeAt, getElem?_eq_getElem early]
  exact ⟨rfl, getElem_mem early, List.Nodup.idxOf_getElem unique orderIdx early⟩

theorem nodeAt_lt (below : orderIdx < snapshot.nodes.length) : nodeAt order orderIdx < snapshot.nodes.length :=
  mem_range.mp (searched.perm.mem_iff.mp (searched.nodeAt_spec below).2.1)

theorem idxOf_root : order.idxOf 0 + 1 = snapshot.nodes.length := by
  obtain ⟨front, shape⟩ := getLast?_eq_some_iff.mp searched.completed.last
  have split : order = front ++ [0] := by simpa [Search.seen] using shape
  have unique : order.Nodup := searched.perm.nodup_iff.mpr nodup_range
  have fresh : 0 ∉ front := by
    rw [split] at unique
    intro inside
    exact disjoint_of_nodup_append unique inside (mem_singleton_self 0)
  rw [← searched.length_eq, split, idxOf_append_of_notMem fresh]
  simp

theorem top : snapshot.nodes.length - 1 = order.idxOf 0 := by
  have last := searched.idxOf_root
  omega

theorem lt_length (inner : orderIdx < order.idxOf 0) : orderIdx < snapshot.nodes.length := by
  have last := searched.idxOf_root
  omega

theorem numbering : Numbering (snapshot.CountedEdge flag) 0 (nodeAt order) order.idxOf snapshot.nodes.length where
  descending := Search.descending_of_completed searched.completed
  reached := fun _ below => Search.reaches_of_mem_order searched.completed (searched.nodeAt_spec below).2.1
  number_name := fun _ below => (searched.nodeAt_spec below).2.2
  named := by
    intro node reached
    have inside := Search.mem_order_of_reaches searched.completed reached
    exact searched.nodeAt_idxOf (mem_range.mp (searched.perm.mem_iff.mp inside))
  last := searched.idxOf_root

theorem nodeAt_ne_root (inner : orderIdx < order.idxOf 0) : nodeAt order orderIdx ≠ 0 := by
  intro same
  have place := (searched.nodeAt_spec (searched.lt_length inner)).2.2
  rw [same] at place
  omega

theorem parent (inner : orderIdx < order.idxOf 0) :
    ∃ parent, snapshot.CountedEdge flag parent (nodeAt order orderIdx) ∧ orderIdx < order.idxOf parent := by
  have below := searched.lt_length inner
  obtain ⟨parent, -, leads, above⟩ := searched.numbering.descending.parent _
    (searched.numbering.reached orderIdx below) (searched.nodeAt_ne_root inner)
  rw [(searched.nodeAt_spec below).2.2] at above
  exact ⟨parent, leads, above⟩

end Searched

theorem isEssentialRetainer_iff {nodeIdx retainer edgeIndex : Nat} (wellFormed : snapshot.WellFormed)
    (below : nodeIdx < snapshot.nodes.length) :
    (retainer, edgeIndex) ∈ (snapshot.retainersOf nodeIdx).filter snapshot.isEssentialRetainer ↔
      ∃ node edge, snapshot.nodes[retainer]? = some node ∧ (edge, edgeIndex) ∈ snapshot.edgesOf node ∧
        snapshot.LeadsTo node edge nodeIdx := by
  rw [mem_filter, wellFormed.mem_retainersOf below]
  constructor
  · intro ⟨⟨node, edge, found, owned, target⟩, essential⟩
    have held := (mem_edgesOf.mp owned).2.2
    simp only [isEssentialRetainer, found, held] at essential
    exact ⟨node, edge, found, owned, essential, target⟩
  · intro ⟨node, edge, found, owned, essential, target⟩
    have held := (mem_edgesOf.mp owned).2.2
    refine ⟨⟨node, edge, found, owned, target⟩, ?_⟩
    simp only [isEssentialRetainer, found, held]
    exact essential

variable {nodeIdx retainer : Nat}

theorem essentialEdge_iff (wellFormed : snapshot.WellFormed)
    (below : nodeIdx < snapshot.nodes.length) :
    snapshot.EssentialEdge retainer nodeIdx ↔
      ∃ edgeIndex, (retainer, edgeIndex) ∈ (snapshot.retainersOf nodeIdx).filter snapshot.isEssentialRetainer := by
  constructor
  · intro ⟨node, found, edge, owned, leads⟩
    exact ⟨edge.2, (isEssentialRetainer_iff wellFormed below).mpr ⟨node, edge.1, found, owned, leads⟩⟩
  · intro ⟨edgeIndex, inside⟩
    obtain ⟨node, edge, found, owned, leads⟩ := (isEssentialRetainer_iff wellFormed below).mp inside
    exact ⟨node, found, (edge, edgeIndex), owned, leads⟩

/-- The retainers whose dominators `buildDominatorTreeLogic` looks at, by their places in the order. -/
def countedRetainers (snapshot : HeapSnapshot) (flag : Nat → Nat) (order : List Nat) (nodeIdx : Nat) : List Nat :=
  (((snapshot.retainersOf nodeIdx).filter snapshot.isEssentialRetainer).filter fun retainer =>
    !entersPage flag retainer.1 nodeIdx).map fun retainer => order.idxOf retainer.1

theorem mem_countedRetainers {nodeIdx orderIdx : Nat} (wellFormed : snapshot.WellFormed)
    (below : nodeIdx < snapshot.nodes.length) :
    orderIdx ∈ snapshot.countedRetainers flag order nodeIdx ↔
      ∃ retainer, snapshot.CountedEdge flag retainer nodeIdx ∧ order.idxOf retainer = orderIdx := by
  rw [countedRetainers, mem_map]
  constructor
  · intro ⟨⟨retainer, edgeIndex⟩, inside, place⟩
    obtain ⟨essential, outside⟩ := mem_filter.mp inside
    exact ⟨retainer, ⟨(essentialEdge_iff wellFormed below).mpr ⟨edgeIndex, essential⟩, by simpa using outside⟩, place⟩
  · intro ⟨retainer, ⟨essential, outside⟩, place⟩
    obtain ⟨edgeIndex, inside⟩ := (essentialEdge_iff wellFormed below).mp essential
    exact ⟨(retainer, edgeIndex), mem_filter.mpr ⟨inside, by simpa using outside⟩, place⟩

theorem CountedEdge.source_lt (counted : snapshot.CountedEdge flag retainer nodeIdx) :
    retainer < snapshot.nodes.length := by
  obtain ⟨⟨_, found, _⟩, _⟩ := counted
  exact lookup_lt found

/-- The immediate dominators along the counted edges are known from a place of the order on. -/
abbrev KnownFrom (snapshot : HeapSnapshot) (flag : Nat → Nat) (order : List Nat) (low : Nat) (dominators : Nat → Nat) : Prop :=
  Known (snapshot.CountedEdge flag) 0 (nodeAt order) order.idxOf snapshot.nodes.length low dominators

/-- Before the place `low` of the first pass: what is below is affected by what is above. -/
structure FirstPass (snapshot : HeapSnapshot) (flag : Nat → Nat) (order : List Nat) (low : Nat)
    (state : DominatorState) : Prop where
  known : Known (snapshot.CountedEdge flag) 0 (nodeAt order) order.idxOf snapshot.nodes.length low state.dominators
  affected : ∀ orderIdx parent, orderIdx < low → low ≤ parent → parent < snapshot.nodes.length →
    snapshot.EssentialEdge (nodeAt order parent) (nodeAt order orderIdx) → state.affected orderIdx = true

theorem markAffected_apply (affected : Nat → Bool) (children : List Nat) (orderIdx : Nat) :
    markAffected order affected children orderIdx = true ↔
      affected orderIdx = true ∨ ∃ child ∈ children, order.idxOf child = orderIdx := by
  induction children generalizing affected with
  | nil => simp [markAffected]
  | cons child rest ih =>
    have step : markAffected order affected (child :: rest) =
        markAffected order (Function.update affected (order.idxOf child) true) rest := rfl
    rw [step, ih]
    by_cases same : orderIdx = order.idxOf child
    · simp [same]
    · simp [Function.update_of_ne same, Ne.symm same]

theorem EssentialEdge.mem_childrenOf {nodeIdx child : Nat} (essential : snapshot.EssentialEdge nodeIdx child) :
    child ∈ snapshot.childrenOf (fun _ => true) nodeIdx := by
  obtain ⟨node, found, edge, owned, leads⟩ := essential
  simp only [childrenOf, found, filter_true, mem_filterMap]
  exact ⟨edge, owned, leads.2⟩

/-- The dominators of the node at `meet` are those that the retainers from `low` on share. -/
def MeetsFrom (snapshot : HeapSnapshot) (flag : Nat → Nat) (order : List Nat) (low orderIdx meet : Nat) : Prop :=
  ∀ dominator, Dominates (snapshot.CountedEdge flag) 0 dominator (nodeAt order meet) ↔
    ∀ before, snapshot.CountedEdge flag before (nodeAt order orderIdx) ∧ low ≤ order.idxOf before →
      Dominates (snapshot.CountedEdge flag) 0 dominator before

section Passes

variable (searched : snapshot.Searched flag order) (timely : Timely (snapshot.CountedEdge flag) 0 order.idxOf)
  (enough : 2 * snapshot.nodes.length < fuel)
include searched timely enough

omit timely in
/-- When the dominators of all places above are known, a node gets the last common dominator of the
retainers with known dominators. -/
theorem buildDominatorTreeLogic_meet {low orderIdx : Nat} {dominators : Nat → Nat}
    (known : KnownFrom snapshot flag order low dominators)
    (inner : orderIdx < order.idxOf 0) (above : low ≤ orderIdx + 1) :
    ∃ meet, snapshot.buildDominatorTreeLogic flag fuel order dominators (nodeAt order orderIdx) = some meet ∧
      meet < snapshot.nodes.length ∧ MeetsFrom snapshot flag order low orderIdx meet := by
  have below := searched.lt_length inner
  have nodeBelow := searched.nodeAt_lt below
  obtain ⟨parent, parentLeads, parentAbove⟩ := searched.parent inner
  obtain ⟨meet, found, meetBelow, common⟩ := meetRetainers_spec searched.numbering known enough
    (snapshot.countedRetainers flag order (nodeAt order orderIdx))
    (by
      intro retainer inside
      obtain ⟨source, counted, rfl⟩ := (mem_countedRetainers searched.wellFormed nodeBelow).mp inside
      exact (searched.nodeAt_idxOf counted.source_lt).1)
    ⟨_, (mem_countedRetainers searched.wellFormed nodeBelow).mpr ⟨parent, parentLeads, rfl⟩, above.trans parentAbove⟩
  have retained : (snapshot.retainersOf (nodeAt order orderIdx)).filter snapshot.isEssentialRetainer ≠ [] := by
    obtain ⟨edgeIndex, inside⟩ := (essentialEdge_iff searched.wellFormed nodeBelow).mp parentLeads.1
    exact ne_nil_of_mem inside
  refine ⟨meet, ?_, meetBelow, fun dominator => ?_⟩
  · simp only [buildDominatorTreeLogic, if_neg retained, searched.top]
    exact found
  · rw [common]
    constructor
    · intro all before leads
      have dominated := all _ ((mem_countedRetainers searched.wellFormed nodeBelow).mpr ⟨before, leads.1, rfl⟩) leads.2
      rwa [(searched.nodeAt_idxOf leads.1.source_lt).2] at dominated
    · intro all retainer inside set
      obtain ⟨source, counted, rfl⟩ := (mem_countedRetainers searched.wellFormed nodeBelow).mp inside
      rw [(searched.nodeAt_idxOf counted.source_lt).2]
      exact all source ⟨counted, set⟩

omit enough in
theorem immediate_of_meet {low orderIdx meet : Nat} (inner : orderIdx < order.idxOf 0) (above : low ≤ orderIdx + 1)
    (common : MeetsFrom snapshot flag order low orderIdx meet) :
    ImmediateDominator (snapshot.CountedEdge flag) 0 (nodeAt order meet) (nodeAt order orderIdx) := by
  have below := searched.lt_length inner
  refine timely.immediateDominator searched.numbering.descending _ (searched.numbering.reached orderIdx below)
    (searched.nodeAt_ne_root inner) (fun before leads => leads.1) ?_ common
  intro before leads higher
  rw [(searched.nodeAt_spec below).2.2] at higher
  exact ⟨leads, above.trans higher⟩

theorem buildDominatorTreeLogic_spec {low orderIdx : Nat} {dominators : Nat → Nat}
    (known : KnownFrom snapshot flag order low dominators)
    (inner : orderIdx < order.idxOf 0) (above : low ≤ orderIdx + 1) :
    ∃ dominator, snapshot.buildDominatorTreeLogic flag fuel order dominators (nodeAt order orderIdx) = some dominator ∧
      dominator < snapshot.nodes.length ∧
      ImmediateDominator (snapshot.CountedEdge flag) 0 (nodeAt order dominator) (nodeAt order orderIdx) := by
  obtain ⟨meet, found, meetBelow, common⟩ := buildDominatorTreeLogic_meet searched enough known inner above
  exact ⟨meet, found, meetBelow, immediate_of_meet searched timely inner above common⟩

omit timely in
/-- In the first pass each node is affected and gets the last common dominator of what is above it. -/
theorem FirstPass.meets {orderIdx : Nat} {state : DominatorState}
    (pass : FirstPass snapshot flag order (orderIdx + 1) state) (inner : orderIdx < order.idxOf 0) :
    ∃ meet, snapshot.dominatorStep flag fuel order state orderIdx = some {
          dominators := Function.update state.dominators orderIdx meet
          affected := markAffected order (Function.update state.affected orderIdx false)
            (snapshot.childrenOf (fun _ => true) (nodeAt order orderIdx)) } ∧
      meet < snapshot.nodes.length ∧ MeetsFrom snapshot flag order (orderIdx + 1) orderIdx meet := by
  have below := searched.lt_length inner
  obtain ⟨held, inOrder, place⟩ := searched.nodeAt_spec below
  have unset := pass.known.unset orderIdx (Nat.lt_succ_self _)
  obtain ⟨meet, found, meetBelow, common⟩ :=
    buildDominatorTreeLogic_meet searched enough pass.known inner le_rfl
  have affected : state.affected orderIdx = true := by
    obtain ⟨parent, leads, above⟩ := searched.parent inner
    obtain ⟨parentBelow, named⟩ := searched.nodeAt_idxOf leads.source_lt
    exact pass.affected orderIdx (order.idxOf parent) (Nat.lt_succ_self _) above parentBelow (by rw [named]; exact leads.1)
  refine ⟨meet, ?_, meetBelow, common⟩
  simp only [HeapSnapshot.dominatorStep, affected, if_true, unset]
  rw [if_neg (show ¬ snapshot.nodes.length = snapshot.nodes.length - 1 by omega), held]
  simp only [Option.bind_eq_bind, Option.bind_some, found]
  rw [if_pos ⟨meetBelow.ne, (meetBelow.ne).symm⟩]

omit timely enough in
theorem FirstPass.next {orderIdx meet : Nat} {state : DominatorState}
    (pass : FirstPass snapshot flag order (orderIdx + 1) state) (inner : orderIdx < order.idxOf 0)
    (below : meet < snapshot.nodes.length)
    (immediate : ImmediateDominator (snapshot.CountedEdge flag) 0 (nodeAt order meet) (nodeAt order orderIdx)) :
    FirstPass snapshot flag order orderIdx {
      dominators := Function.update state.dominators orderIdx meet
      affected := markAffected order (Function.update state.affected orderIdx false)
        (snapshot.childrenOf (fun _ => true) (nodeAt order orderIdx)) } where
  known := pass.known.extend inner below immediate
  affected := by
    intro index parent early late inside essential
    simp only [markAffected_apply, Function.update_of_ne early.ne]
    by_cases same : parent = orderIdx
    · right
      subst same
      exact ⟨_, essential.mem_childrenOf, (searched.nodeAt_spec (by omega)).2.2⟩
    · left
      exact pass.affected index parent (by omega) (by omega) inside essential

theorem FirstPass.dominatorStep {orderIdx : Nat} {state : DominatorState}
    (pass : FirstPass snapshot flag order (orderIdx + 1) state) (inner : orderIdx < order.idxOf 0) :
    ∃ after, snapshot.dominatorStep flag fuel order state orderIdx = some after ∧
      FirstPass snapshot flag order orderIdx after := by
  obtain ⟨meet, stepped, meetBelow, common⟩ := pass.meets searched enough inner
  exact ⟨_, stepped, pass.next searched inner meetBelow (immediate_of_meet searched timely inner le_rfl common)⟩

theorem FirstPass.run {low : Nat} {state : DominatorState} (pass : FirstPass snapshot flag order low state)
    (inner : low ≤ order.idxOf 0) :
    ∃ after, (List.range low).reverse.foldlM (snapshot.dominatorStep flag fuel order) state = some after ∧
      FirstPass snapshot flag order 0 after := by
  induction low generalizing state with
  | zero => exact ⟨state, rfl, pass⟩
  | succ low ih =>
    obtain ⟨next, stepped, nextPass⟩ := pass.dominatorStep searched timely enough (Nat.lt_of_succ_le inner)
    obtain ⟨after, ran, done⟩ := ih nextPass (by omega)
    refine ⟨after, ?_, done⟩
    rw [range_succ, reverse_concat, foldlM_cons, stepped]
    exact ran

section
variable {state : DominatorState} (known : KnownFrom snapshot flag order 0 state.dominators)
include known

theorem dominatorStep_known {orderIdx : Nat} (inner : orderIdx < order.idxOf 0) :
    ∃ after, snapshot.dominatorStep flag fuel order state orderIdx = some after ∧
      after.dominators = state.dominators ∧ after.changed = state.changed := by
  have below := searched.lt_length inner
  obtain ⟨held, -, -⟩ := searched.nodeAt_spec below
  obtain ⟨dominator, found, dominatorBelow, immediate⟩ :=
    buildDominatorTreeLogic_spec searched timely enough known inner (Nat.zero_le _)
  obtain ⟨oldBelow, old⟩ := known.exact orderIdx (Nat.zero_le _) inner
  have same : state.dominators orderIdx = dominator := by
    have named := old.unique searched.numbering.descending (searched.numbering.reached orderIdx below) immediate
    rw [← (searched.nodeAt_spec oldBelow).2.2, named, (searched.nodeAt_spec dominatorBelow).2.2]
  cases affected : state.affected orderIdx with
  | false => exact ⟨state, by simp only [HeapSnapshot.dominatorStep, affected, Bool.false_eq_true, if_false], rfl, rfl⟩
  | true =>
    simp [HeapSnapshot.dominatorStep, affected, held, found, same]

theorem dominatorPass_known : ∃ after, snapshot.dominatorPass flag fuel order state = some after ∧
      after.dominators = state.dominators ∧ after.changed = false := by
  have last := searched.idxOf_root
  have general : ∀ (places : List Nat) (state : DominatorState), (∀ place ∈ places, place < order.idxOf 0) →
      KnownFrom snapshot flag order 0 state.dominators →
      ∃ after, places.foldlM (snapshot.dominatorStep flag fuel order) state = some after ∧
        after.dominators = state.dominators ∧ after.changed = state.changed := by
    intro places
    induction places with
    | nil => exact fun state _ _ => ⟨state, rfl, rfl, rfl⟩
    | cons place rest ih =>
      intro state inner known
      obtain ⟨next, stepped, kept, steady⟩ :=
        dominatorStep_known searched timely enough known (inner place mem_cons_self)
      obtain ⟨after, ran, finalKept, finalSteady⟩ :=
        ih next (forall_mem_of_forall_mem_cons inner) (kept ▸ known)
      refine ⟨after, ?_, finalKept.trans kept, finalSteady.trans steady⟩
      rw [foldlM_cons, stepped]
      exact ran
  apply general
  · intro place inside
    have early := mem_range.mp (mem_reverse.mp inside)
    omega
  · exact known

end

omit timely enough in
theorem FirstPass.initial :
    FirstPass snapshot flag order (order.idxOf 0) { snapshot.initialDominators order with changed := false } := by
  have last := searched.idxOf_root
  constructor
  · constructor
    · intro index early
      simp only [initialDominators, searched.top, Function.update_of_ne early.ne]
    · simp [initialDominators, searched.top]
    · omega
  · intro orderIdx parent early late inside essential
    have atRoot : nodeAt order parent = 0 := by
      rw [show parent = order.idxOf 0 by omega, (searched.nodeAt_idxOf (by omega)).2]
    rw [atRoot] at essential
    obtain ⟨root, found, edge, owned, leads⟩ := essential
    rw [← head?_eq_getElem?] at found
    simp only [initialDominators, affectedNode, found, markAffected_apply]
    right
    refine ⟨nodeAt order orderIdx, ?_, (searched.nodeAt_spec (by omega)).2.2⟩
    exact mem_filterMap.mpr ⟨edge, mem_filter.mpr ⟨owned, leads.1⟩, leads.2⟩

theorem dominatorLoop_spec {passes : Nat} (several : 2 ≤ passes) :
    ∃ after, snapshot.dominatorLoop flag fuel order passes (snapshot.initialDominators order) = some after ∧
      KnownFrom snapshot flag order 0 after.dominators := by
  obtain ⟨first, firstRan, firstDone⟩ :=
    (FirstPass.initial searched).run searched timely enough le_rfl
  obtain ⟨second, secondRan, kept, steady⟩ := dominatorPass_known searched timely enough firstDone.known
  have pass : snapshot.dominatorPass flag fuel order (snapshot.initialDominators order) = some first := by
    rw [dominatorPass, searched.top]
    exact firstRan
  obtain ⟨more, rfl⟩ := Nat.exists_eq_add_of_le' several
  simp only [dominatorLoop, pass, Option.bind_eq_bind, Option.bind_some, secondRan, steady]
  cases first.changed with
  | true => exact ⟨second, rfl, kept ▸ firstDone.known⟩
  | false => exact ⟨first, rfl, firstDone.known⟩

theorem buildDominatorTree_spec :
    ∃ tree, snapshot.buildDominatorTree flag fuel order = some tree ∧
      ∀ nodeIdx, nodeIdx < snapshot.nodes.length → nodeIdx ≠ 0 →
        ImmediateDominator (snapshot.CountedEdge flag) 0 (tree nodeIdx) nodeIdx := by
  have last := searched.idxOf_root
  obtain ⟨final, ran, known⟩ := dominatorLoop_spec searched timely enough (show 2 ≤ fuel by omega)
  refine ⟨fun nodeIdx => nodeAt order (final.dominators (order.idxOf nodeIdx)), ?_, fun nodeIdx below inner => ?_⟩
  · simp only [buildDominatorTree, ran]
    rfl
  · obtain ⟨placeBelow, named⟩ := searched.nodeAt_idxOf below
    have distinct : order.idxOf nodeIdx ≠ order.idxOf 0 := by
      intro same
      apply inner
      rw [← named, same, (searched.nodeAt_idxOf (by omega)).2]
    have immediate := (known.exact (order.idxOf nodeIdx) (Nat.zero_le _) (by omega)).2
    rwa [named] at immediate

end Passes

theorem searched_of_reached (wellFormed : snapshot.WellFormed)
    (agrees : ∀ nodeIndex next, snapshot.EssentialEdge nodeIndex next → entersPage flag nodeIndex next →
      flag nodeIndex = 0)
    (reached : ∀ nodeIndex < snapshot.nodes.length, Relation.ReflTransGen (snapshot.CountedEdge flag) 0 nodeIndex) :
    snapshot.Searched flag (snapshot.buildOrderIdx flag) := by
  have same : snapshot.SearchEdge flag = snapshot.CountedEdge flag := by
    funext nodeIndex next
    apply propext
    refine and_congr_right fun essential => not_congr ?_
    simp only [skipped, entersPage, decide_eq_true_eq]
    constructor
    · intro ⟨inner, owned, unmarked⟩
      exact ⟨inner, owned, by simp [hasFlag, unmarked]⟩
    · intro enters
      exact ⟨enters.1, enters.2.1, agrees nodeIndex next essential (decide_eq_true enters)⟩
  rw [← same] at reached
  refine ⟨wellFormed, buildOrderIdx_perm wellFormed reached, ?_⟩
  rw [← same, buildOrderIdx_eq wellFormed reached]
  exact orderLoop_completed wellFormed flag

theorem EssentialEdge.next_lt {nodeIndex next : Nat} (essential : snapshot.EssentialEdge nodeIndex next) :
    next < snapshot.nodes.length := by
  obtain ⟨_, _, _, _, target⟩ := essential
  exact nodeIndexOf_lt target.2

theorem timely_of_star {count : Nat} {edge : Nat → Nat → Prop} (inside : ∀ nodeIndex next, edge nodeIndex next → next < count)
    (star : ∀ nodeIndex < count, nodeIndex ≠ 0 → edge 0 nodeIndex ∧ order.idxOf nodeIndex < order.idxOf 0) :
    Timely edge 0 order.idxOf := by
  intro node reached notRoot dominator common
  have below : node < count := by
    cases reached with
    | refl => exact absurd rfl notRoot
    | tail _ leads => exact inside _ node leads
  obtain ⟨leads, above⟩ := star node below notRoot
  rw [eq_root_of_dominates_root (common 0 leads above)]
  exact root_dominates node

end HeapSnapshot

def loopSnapshot : HeapSnapshot := .ofEdges
  [[(.property, 1), (.property, 2)], [(.property, 2)], [(.property, 1)]]

theorem loopSnapshot_star : ∀ nodeIndex < 3, nodeIndex ≠ 0 → loopSnapshot.EssentialEdge 0 nodeIndex ∧
    (loopSnapshot.buildOrderIdx loopSnapshot.calFlags).idxOf nodeIndex <
      (loopSnapshot.buildOrderIdx loopSnapshot.calFlags).idxOf 0 := by
  decide +kernel

/-- Two loops that share nodes and are entered at both: node 2 is found below node 1 first. When it is
moved to the root, node 3 below it is looked at again but does not change, and so node 4 below that one
keeps node 1 as its dominator. -/
def crossedSnapshot : HeapSnapshot := .ofEdges
  [[(.property, 1), (.property, 5)], [(.property, 2), (.property, 6)], [(.property, 3), (.property, 5)],
    [(.property, 4)], [], [(.property, 2)], [(.property, 4)]]

end SmartPerf.Heap
