import SmartPerf.Data.Loop
import SmartPerf.Data.Search
import SmartPerf.Heap.Flags
import SmartPerf.Heap.Retainers

namespace SmartPerf.Heap

open Data List

/-! The order in which `buildOrderIdxAndDominateTree` leaves the nodes, a depth-first search along the
essential edges. -/

/-- The stack holds the nodes and the next edge to look at, its top first. The array
`orderIdx2NodeIdx` ends where `postOrderIdx` points to. -/
structure OrderState where
  stack : List (Nat × Nat)
  visited : Nat → Bool
  orderIdx2NodeIdx : List Nat := []

def OrderState.search (state : OrderState) : Search Nat := ⟨state.orderIdx2NodeIdx, state.stack.map Prod.fst⟩

namespace HeapSnapshot

variable (snapshot : HeapSnapshot) (flag : Nat → Nat) (state : OrderState)

def pushNode (nodeIndex : Nat) : OrderState :=
  { state with
    stack := (nodeIndex, snapshot.firstEdgeIndex nodeIndex) :: state.stack
    visited := Function.update state.visited nodeIndex true }

/-- The node looks at one of its edges. An edge to a node of a page is skipped when it leaves a node
without any flag. -/
def followEdge (nodeIndex : Nat) (node : HeapNode) (edge : HeapEdge) : OrderState :=
  if snapshot.isEssentialEdge edge node.id then
    match snapshot.nodeIndexOf edge.toNodeId with
    | none => state
    | some child =>
      if state.visited child then state
      else if some node.id ≠ snapshot.rootId ∧ hasFlag flag child pageProject ∧ flag nodeIndex = 0 then state
      else snapshot.pushNode state child
  else state

def orderStep : OrderState :=
  match state.stack with
  | [] => state
  | (nodeIndex, edgeIndex) :: rest =>
    match snapshot.nodes[nodeIndex]? with
    | none => state
    | some node =>
      if edgeIndex < node.firstEdgeIndex + node.edgeCount then
        let state := { state with stack := (nodeIndex, edgeIndex + 1) :: rest }
        match snapshot.edges[edgeIndex]? with
        | none => state
        | some edge => snapshot.followEdge flag state nodeIndex node edge
      else { state with stack := rest, orderIdx2NodeIdx := state.orderIdx2NodeIdx ++ [nodeIndex] }

/-- The inner loop. A round takes an edge or leaves a node, and each of them is met at most once. -/
def orderLoop : OrderState :=
  (snapshot.orderStep flag)^[snapshot.nodes.length + snapshot.edges.length] state

def buildOrderIdxInit : OrderState where
  stack := [(0, 0)]
  visited := Function.update (fun _ => false) 0 true

def hasOnlyWeakRetainers (nodeIndex : Nat) : Bool :=
  (snapshot.retainersOf nodeIndex).all fun retainer =>
    snapshot.edges[retainer.2]?.all fun edge => edge.type = .weak ∨ edge.type = .shortcut

/-- The root is taken back and waits below the orphans with weak retainers only. -/
def buildOrderIdxRootNode : OrderState :=
  (List.range snapshot.nodes.length).foldl (fun state nodeIndex =>
    if state.visited nodeIndex || !snapshot.hasOnlyWeakRetainers nodeIndex then state
    else snapshot.pushNode state nodeIndex)
    { state with
      stack := [(0, snapshot.firstEdgeIndex 1)]
      orderIdx2NodeIdx := state.orderIdx2NodeIdx.dropLast }

def buildOrderIdxOrphans : List Nat :=
  if state.orderIdx2NodeIdx.length = snapshot.nodes.length then state.orderIdx2NodeIdx
  else
    state.orderIdx2NodeIdx.dropLast ++ (List.range snapshot.nodes.length).filter (!state.visited ·) ++ [0]

/-- The final `orderIdx2NodeIdx`; `nodeIdx2OrderIdx` is written along with it and is its inverse. -/
def buildOrderIdx : List Nat :=
  let first := snapshot.orderLoop flag buildOrderIdxInit
  if first.orderIdx2NodeIdx.length = snapshot.nodes.length then first.orderIdx2NodeIdx
  else snapshot.buildOrderIdxOrphans (snapshot.orderLoop flag (snapshot.buildOrderIdxRootNode first))

/-- The edge is essential and leads from the node to the other one. -/
def LeadsTo (node : HeapNode) (edge : HeapEdge) (next : Nat) : Prop :=
  snapshot.isEssentialEdge edge node.id ∧ snapshot.nodeIndexOf edge.toNodeId = some next

variable (nodeIndex next : Nat)

def EssentialEdge : Prop :=
  ∃ node, snapshot.nodes[nodeIndex]? = some node ∧ ∃ edge ∈ snapshot.edgesOf node, snapshot.LeadsTo node edge.1 next

instance (nodeIndex next : Nat) : Decidable (snapshot.EssentialEdge nodeIndex next) :=
  inferInstanceAs (Decidable (∃ node ∈ snapshot.nodes[nodeIndex]?, ∃ edge ∈ snapshot.edgesOf node,
    snapshot.isEssentialEdge edge.1 node.id ∧ snapshot.nodeIndexOf edge.1.toNodeId = some next))

def skipped : Bool := nodeIndex ≠ 0 ∧ hasFlag flag next pageProject ∧ flag nodeIndex = 0

def SearchEdge : Prop := snapshot.EssentialEdge nodeIndex next ∧ ¬ skipped flag nodeIndex next

/-- The node exists, and the edges before its next one lead to nodes that are seen. -/
structure Pointer (seen : List Nat) (entry : Nat × Nat) (node : HeapNode) : Prop where
  found : snapshot.nodes[entry.1]? = some node
  first : node.firstEdgeIndex ≤ entry.2
  last : entry.2 ≤ node.firstEdgeIndex + node.edgeCount
  before : ∀ edge ∈ snapshot.edgesOf node, edge.2 < entry.2 → ∀ next, snapshot.LeadsTo node edge.1 next →
    ¬ skipped flag entry.1 next → next ∈ seen

structure OrderInvariant : Prop where
  search : Search.Invariant (snapshot.SearchEdge flag) 0 state.search
  visited : ∀ nodeIndex, state.visited nodeIndex = true ↔ nodeIndex ∈ state.search.seen
  pointers : ∀ entry ∈ state.stack, ∃ node, snapshot.Pointer flag state.search.seen entry node

variable {snapshot flag} {state : OrderState} {nodeIndex edgeIndex : Nat} {node : HeapNode} {rest : List (Nat × Nat)}

theorem Pointer.mono {few many : List Nat} {entry : Nat × Nat} (pointer : snapshot.Pointer flag few entry node)
    (grows : ∀ seen ∈ few, seen ∈ many) : snapshot.Pointer flag many entry node where
  found := pointer.found
  first := pointer.first
  last := pointer.last
  before := fun edge owned early next leads taken => grows next (pointer.before edge owned early next leads taken)

theorem Pointer.advance {seen : List Nat} (pointer : snapshot.Pointer flag seen (nodeIndex, edgeIndex) node)
    (inside : edgeIndex < node.firstEdgeIndex + node.edgeCount)
    (done : ∀ edge next, snapshot.edges[edgeIndex]? = some edge → snapshot.LeadsTo node edge next →
      ¬ skipped flag nodeIndex next → next ∈ seen) : snapshot.Pointer flag seen (nodeIndex, edgeIndex + 1) node where
  found := pointer.found
  first := Nat.le_succ_of_le pointer.first
  last := inside
  before := by
    intro edge owned early next leads taken
    rcases Nat.lt_succ_iff_lt_or_eq.mp early with before | here
    · exact pointer.before edge owned before next leads taken
    · have held := (mem_edgesOf.mp owned).2.2
      exact done edge.1 next (here ▸ held) leads taken

theorem Pointer.start {seen : List Nat} (found : snapshot.nodes[nodeIndex]? = some node) :
    snapshot.Pointer flag seen (nodeIndex, snapshot.firstEdgeIndex nodeIndex) node where
  found := found
  first := by simp [firstEdgeIndex, found]
  last := by simp [firstEdgeIndex, found]
  before := by
    intro edge owned early
    have first := (mem_edgesOf.mp owned).1
    simp only [firstEdgeIndex, found, Option.map_some, Option.getD_some] at early
    omega

theorem followEdge_cases (flag : Nat → Nat) (state : OrderState) (wellFormed : snapshot.WellFormed) (found : snapshot.nodes[nodeIndex]? = some node)
    (edge : HeapEdge) :
    (snapshot.followEdge flag state nodeIndex node edge = state ∧
      ∀ next, snapshot.LeadsTo node edge next → ¬ skipped flag nodeIndex next → state.visited next = true) ∨
    ∃ child, snapshot.LeadsTo node edge child ∧ ¬ skipped flag nodeIndex child ∧ state.visited child = false ∧
      snapshot.followEdge flag state nodeIndex node edge = snapshot.pushNode state child := by
  have inner : some node.id ≠ snapshot.rootId ↔ nodeIndex ≠ 0 := not_congr (wellFormed.rootId_iff found)
  by_cases essential : snapshot.isEssentialEdge edge node.id
  · cases target : snapshot.nodeIndexOf edge.toNodeId with
    | none =>
      left
      refine ⟨by simp [followEdge, target], fun next leads => ?_⟩
      cases target.symm.trans leads.2
    | some child =>
      have only : ∀ next, snapshot.LeadsTo node edge next → next = child :=
        fun next leads => Option.some.inj (leads.2.symm.trans target)
      cases seen : state.visited child with
      | true =>
        left
        refine ⟨by simp [followEdge, target, seen], fun next leads _ => ?_⟩
        rw [only next leads, seen]
      | false =>
        by_cases skip : skipped flag nodeIndex child
        · left
          have guarded : some node.id ≠ snapshot.rootId ∧ hasFlag flag child pageProject ∧ flag nodeIndex = 0 := by
            rw [inner]
            exact of_decide_eq_true skip
          refine ⟨?_, fun next leads taken => absurd (only next leads ▸ skip) taken⟩
          simp [followEdge, target, if_pos guarded]
        · right
          have guarded : ¬ (some node.id ≠ snapshot.rootId ∧ hasFlag flag child pageProject ∧ flag nodeIndex = 0) := by
            rw [inner]
            exact fun guards => skip (decide_eq_true guards)
          refine ⟨child, ⟨essential, target⟩, skip, seen, ?_⟩
          simp [followEdge, essential, target, seen, if_neg guarded]
  · left
    exact ⟨by simp [followEdge, essential], fun next leads => absurd leads.1 essential⟩

/-- What a round does: the top moves on to its next edge, pushes a child, or is left. -/
inductive Round (snapshot : HeapSnapshot) (flag : Nat → Nat) (state : OrderState) (nodeIndex edgeIndex : Nat)
    (rest : List (Nat × Nat)) (node : HeapNode) : OrderState → Prop
  | advance : edgeIndex < node.firstEdgeIndex + node.edgeCount →
      snapshot.Pointer flag state.search.seen (nodeIndex, edgeIndex + 1) node →
      Round snapshot flag state nodeIndex edgeIndex rest node { state with stack := (nodeIndex, edgeIndex + 1) :: rest }
  | push {child : Nat} {edge : HeapEdge} : edgeIndex < node.firstEdgeIndex + node.edgeCount →
      snapshot.edges[edgeIndex]? = some edge → snapshot.LeadsTo node edge child → ¬ skipped flag nodeIndex child →
      state.visited child = false →
      Round snapshot flag state nodeIndex edgeIndex rest node
        (snapshot.pushNode { state with stack := (nodeIndex, edgeIndex + 1) :: rest } child)
  | finish : ¬ edgeIndex < node.firstEdgeIndex + node.edgeCount →
      Round snapshot flag state nodeIndex edgeIndex rest node
        { state with stack := rest, orderIdx2NodeIdx := state.orderIdx2NodeIdx ++ [nodeIndex] }

/-- How many rounds are left: one for each edge that is not looked at, and one for each node that is
not left. -/
def remaining (snapshot : HeapSnapshot) (state : OrderState) : Nat :=
  (∑ nodeIndex ∈ Finset.range snapshot.nodes.length,
    bif state.visited nodeIndex then 0 else snapshot.edgeCount nodeIndex + 1) +
  (state.stack.map fun entry => snapshot.firstEdgeIndex entry.1 + snapshot.edgeCount entry.1 - entry.2 + 1).sum

theorem WellFormed.firstEdgeIndex_zero (wellFormed : snapshot.WellFormed) : snapshot.firstEdgeIndex 0 = 0 := by
  have found := getElem?_eq_getElem (length_pos_iff.mpr wellFormed.rooted)
  rw [firstEdgeIndex, found, Option.map_some, Option.getD_some, wellFormed.runs 0 _ found]
  rfl

section Rounds

variable (wellFormed : snapshot.WellFormed) (invariant : snapshot.OrderInvariant flag state)

section Top

variable (onTop : state.stack = (nodeIndex, edgeIndex) :: rest)
  (pointer : snapshot.Pointer flag state.search.seen (nodeIndex, edgeIndex) node)

include onTop in
theorem OrderState.search_eq : state.search = ⟨state.orderIdx2NodeIdx, nodeIndex :: rest.map Prod.fst⟩ := by
  simp [OrderState.search, onTop]

include invariant onTop

theorem OrderInvariant.below {entry : Nat × Nat} (below : entry ∈ rest) :
    ∃ node, snapshot.Pointer flag state.search.seen entry node :=
  invariant.pointers entry (onTop ▸ mem_cons_of_mem _ below)

theorem OrderInvariant.advance (pointer : snapshot.Pointer flag state.search.seen (nodeIndex, edgeIndex + 1) node) :
    snapshot.OrderInvariant flag { state with stack := (nodeIndex, edgeIndex + 1) :: rest } := by
  have same : OrderState.search { state with stack := (nodeIndex, edgeIndex + 1) :: rest } = state.search := by
    simp [OrderState.search, onTop]
  constructor
  · rw [same]
    exact invariant.search
  · rw [same]
    exact invariant.visited
  · intro entry onStack
    rw [same]
    rcases mem_cons.mp onStack with rfl | below
    · exact ⟨node, pointer⟩
    · exact invariant.below onTop below

include pointer

theorem OrderInvariant.pushNode {child : Nat} {edge : HeapEdge}
    (inside : edgeIndex < node.firstEdgeIndex + node.edgeCount) (held : snapshot.edges[edgeIndex]? = some edge)
    (leads : snapshot.LeadsTo node edge child) (taken : ¬ skipped flag nodeIndex child)
    (fresh : state.visited child = false) :
    snapshot.OrderInvariant flag
      (snapshot.pushNode { state with stack := (nodeIndex, edgeIndex + 1) :: rest } child) := by
  have owned : (edge, edgeIndex) ∈ snapshot.edgesOf node := mem_edgesOf.mpr ⟨pointer.first, inside, held⟩
  have follows : snapshot.SearchEdge flag nodeIndex child := ⟨⟨node, pointer.found, _, owned, leads⟩, taken⟩
  have before := OrderState.search_eq onTop
  have unseen : child ∉ state.search.seen := by
    rw [← invariant.visited, fresh]
    exact Bool.false_ne_true
  have after : (snapshot.pushNode { state with stack := (nodeIndex, edgeIndex + 1) :: rest } child).search =
      ⟨state.orderIdx2NodeIdx, child :: nodeIndex :: rest.map Prod.fst⟩ := rfl
  have members : ∀ seen, seen ∈ (snapshot.pushNode { state with stack := (nodeIndex, edgeIndex + 1) :: rest }
      child).search.seen ↔ seen = child ∨ seen ∈ state.search.seen := by
    rw [after, before]
    simp only [Search.seen, mem_append, mem_cons]
    tauto
  have grows := fun seen known => (members seen).mpr (.inr known)
  constructor
  · have search := invariant.search
    rw [before] at search unseen
    exact search.find follows unseen
  · intro other
    rw [members, ← invariant.visited]
    by_cases same : other = child
    · simp [HeapSnapshot.pushNode, same]
    · simp [HeapSnapshot.pushNode, same]
  · intro entry onStack
    rcases mem_cons.mp onStack with rfl | onStack
    · exact ⟨_, Pointer.start (getElem?_eq_getElem (nodeIndexOf_lt leads.2))⟩
    · rcases mem_cons.mp onStack with rfl | below
      · refine ⟨node, (pointer.mono grows).advance inside ?_⟩
        intro other next here leadsOn _
        obtain rfl := Option.mem_unique held here
        obtain rfl := Option.some.inj (leads.2.symm.trans leadsOn.2)
        exact (members child).mpr (.inl rfl)
      · obtain ⟨node, pointer⟩ := invariant.below onTop below
        exact ⟨node, pointer.mono grows⟩

theorem OrderInvariant.finish (outside : ¬ edgeIndex < node.firstEdgeIndex + node.edgeCount) :
    snapshot.OrderInvariant flag
      { state with stack := rest, orderIdx2NodeIdx := state.orderIdx2NodeIdx ++ [nodeIndex] } := by
  have before := OrderState.search_eq onTop
  have same : Search.seen (OrderState.search { state with
      stack := rest, orderIdx2NodeIdx := state.orderIdx2NodeIdx ++ [nodeIndex] }) = state.search.seen := by
    rw [before]
    simp [OrderState.search, Search.seen]
  have explored : ∀ next, snapshot.SearchEdge flag nodeIndex next → next ∈ state.search.seen := by
    rintro next ⟨⟨owner, found, edge, owned, leads⟩, taken⟩
    obtain rfl := Option.mem_unique pointer.found found
    have last := (mem_edgesOf.mp owned).2.1
    exact pointer.before edge owned (show edge.2 < edgeIndex by omega) next leads taken
  constructor
  · have search := invariant.search
    rw [before] at search explored
    exact search.finish explored
  · rw [same]
    exact invariant.visited
  · rw [same]
    intro entry below
    exact invariant.below onTop below

include wellFormed in
theorem OrderInvariant.round : Round snapshot flag state nodeIndex edgeIndex rest node (snapshot.orderStep flag state) := by
  have found : snapshot.nodes[nodeIndex]? = some node := pointer.found
  simp only [orderStep, onTop, found]
  by_cases inside : edgeIndex < node.firstEdgeIndex + node.edgeCount
  · rw [if_pos inside]
    cases held : snapshot.edges[edgeIndex]? with
    | none =>
      refine .advance inside (pointer.advance inside fun edge next here => ?_)
      cases held.symm.trans here
    | some edge =>
      rcases followEdge_cases flag { state with stack := (nodeIndex, edgeIndex + 1) :: rest } wellFormed found edge with
        ⟨same, known⟩ | ⟨child, leads, taken, fresh, pushed⟩
      · simp only [same]
        refine .advance inside (pointer.advance inside fun other next here leads taken => ?_)
        obtain rfl := Option.mem_unique held here
        exact (invariant.visited next).mp (known next leads taken)
      · simp only [pushed]
        exact .push inside held leads taken fresh
  · rw [if_neg inside]
    exact .finish inside

end Top

include wellFormed invariant

theorem OrderInvariant.orderStep : snapshot.OrderInvariant flag (snapshot.orderStep flag state) := by
  cases onTop : state.stack with
  | nil => simpa only [HeapSnapshot.orderStep, onTop] using invariant
  | cons top rest =>
    obtain ⟨node, pointer⟩ := invariant.pointers top (onTop ▸ mem_cons_self)
    have round := invariant.round wellFormed onTop pointer
    generalize snapshot.orderStep flag state = after at round
    cases round with
    | advance inside moved => exact invariant.advance onTop moved
    | push inside held leads taken fresh => exact invariant.pushNode onTop pointer inside held leads taken fresh
    | finish outside => exact invariant.finish onTop pointer outside

theorem remaining_orderStep (busy : state.stack ≠ []) :
    snapshot.remaining (snapshot.orderStep flag state) + 1 = snapshot.remaining state := by
  cases onTop : state.stack with
  | nil => exact absurd onTop busy
  | cons top rest =>
    obtain ⟨nodeIndex, edgeIndex⟩ := top
    obtain ⟨node, pointer⟩ := invariant.pointers (nodeIndex, edgeIndex) (onTop ▸ mem_cons_self)
    have found : snapshot.nodes[nodeIndex]? = some node := pointer.found
    have round := invariant.round wellFormed onTop pointer
    generalize snapshot.orderStep flag state = after at round
    cases round with
    | advance inside moved =>
      simp only [remaining, onTop, map_cons, sum_cons, firstEdgeIndex, edgeCount, found, Option.map_some,
        Option.getD_some]
      omega
    | @push child edge inside held leads taken fresh =>
      have counted := sum_unmarked_update state.visited (nodeIndexOf_lt leads.2) fresh fun other => snapshot.edgeCount other + 1
      have width : snapshot.firstEdgeIndex nodeIndex + snapshot.edgeCount nodeIndex =
          node.firstEdgeIndex + node.edgeCount := by
        simp [firstEdgeIndex, edgeCount, found]
      simp only [remaining, HeapSnapshot.pushNode, onTop, map_cons, sum_cons]
      omega
    | finish outside =>
      simp only [remaining, onTop, map_cons, sum_cons, firstEdgeIndex, edgeCount, found, Option.map_some,
        Option.getD_some]
      omega

end Rounds

theorem OrderInvariant.initial (wellFormed : snapshot.WellFormed) : snapshot.OrderInvariant flag buildOrderIdxInit where
  search := Search.Invariant.initial _ 0
  visited := by
    intro nodeIndex
    by_cases same : nodeIndex = 0
    · simp [buildOrderIdxInit, OrderState.search, Search.seen, same]
    · simp [buildOrderIdxInit, OrderState.search, Search.seen, same]
  pointers := by
    intro entry onStack
    obtain rfl := mem_singleton.mp onStack
    have found := getElem?_eq_getElem (length_pos_iff.mpr wellFormed.rooted)
    have start : snapshot.Pointer flag buildOrderIdxInit.search.seen (0, snapshot.firstEdgeIndex 0) _ := .start found
    rw [wellFormed.firstEdgeIndex_zero] at start
    exact ⟨_, start⟩

theorem remaining_initial (wellFormed : snapshot.WellFormed) :
    snapshot.remaining buildOrderIdxInit = snapshot.nodes.length + snapshot.edges.length := by
  have inhabited := length_pos_iff.mpr wellFormed.rooted
  have counted := sum_unmarked_update (fun _ => false) inhabited rfl fun other => snapshot.edgeCount other + 1
  simp only [cond_false, Finset.sum_add_distrib, sum_edgeCount wellFormed, Finset.sum_const, Finset.card_range, smul_eq_mul] at counted
  simp only [remaining, buildOrderIdxInit, map_cons, map_nil, sum_cons, sum_nil, wellFormed.firstEdgeIndex_zero]
  omega

theorem orderLoop_spec (wellFormed : snapshot.WellFormed) (flag : Nat → Nat) :
    snapshot.OrderInvariant flag (snapshot.orderLoop flag buildOrderIdxInit) ∧
      (snapshot.orderLoop flag buildOrderIdxInit).stack = [] := by
  have done := iterate_done (snapshot.OrderInvariant flag) (snapshot.orderStep flag) (fun state => state.stack ≠ []) snapshot.remaining
    (fun _ invariant => OrderInvariant.orderStep wellFormed invariant)
    (fun state invariant busy => by have less := remaining_orderStep wellFormed invariant busy; omega)
    (fun state idle => by simp only [HeapSnapshot.orderStep, not_not.mp idle])
    (OrderInvariant.initial wellFormed) ((remaining_initial wellFormed).le)
  exact ⟨done.1, not_not.mp done.2⟩

theorem SearchEdge.next_lt {next : Nat} (leads : snapshot.SearchEdge flag nodeIndex next) : next < snapshot.nodes.length := by
  obtain ⟨⟨_, _, _, _, target⟩, _⟩ := leads
  exact nodeIndexOf_lt target.2

theorem orderLoop_completed (wellFormed : snapshot.WellFormed) (flag : Nat → Nat) :
    Search.Invariant (snapshot.SearchEdge flag) 0 ⟨(snapshot.orderLoop flag buildOrderIdxInit).orderIdx2NodeIdx, []⟩ := by
  obtain ⟨invariant, finished⟩ := orderLoop_spec wellFormed flag
  have search := invariant.search
  simpa only [OrderState.search, finished, map_nil] using search

section Reached

variable (wellFormed : snapshot.WellFormed)
  (reached : ∀ nodeIndex < snapshot.nodes.length, Relation.ReflTransGen (snapshot.SearchEdge flag) 0 nodeIndex)
include wellFormed reached

theorem orderLoop_perm :
    (snapshot.orderLoop flag buildOrderIdxInit).orderIdx2NodeIdx.Perm (List.range snapshot.nodes.length) := by
  have completed := orderLoop_completed wellFormed flag
  have unique : (snapshot.orderLoop flag buildOrderIdxInit).orderIdx2NodeIdx.Nodup := by
    simpa [Search.seen] using completed.nodup
  rw [perm_ext_iff_of_nodup unique nodup_range]
  intro nodeIndex
  rw [mem_range]
  constructor
  · intro inside
    cases Search.reaches_of_mem_order completed inside with
    | refl => exact length_pos_iff.mpr wellFormed.rooted
    | tail _ leads => exact leads.next_lt
  · intro below
    exact Search.mem_order_of_reaches completed (reached nodeIndex below)

theorem buildOrderIdx_eq :
    snapshot.buildOrderIdx flag = (snapshot.orderLoop flag buildOrderIdxInit).orderIdx2NodeIdx := by
  have length := (orderLoop_perm wellFormed reached).length_eq
  rw [length_range] at length
  simp only [buildOrderIdx, length, if_true]

theorem buildOrderIdx_perm : (snapshot.buildOrderIdx flag).Perm (List.range snapshot.nodes.length) := by
  rw [buildOrderIdx_eq wellFormed reached]
  exact orderLoop_perm wellFormed reached

end Reached

end HeapSnapshot

end SmartPerf.Heap
