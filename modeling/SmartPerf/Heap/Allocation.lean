import Mathlib.Tactic

namespace SmartPerf.Heap

open List

/-! The stacks of the functions that allocate. -/

structure AllocationFunction where
  id : Int
  name : String
  functionIndex : Int
  parentsId : List Int
  size : Nat
deriving Repr, DecidableEq

namespace AllocationLogic

def key (node : AllocationFunction) : String := node.name ++ toString node.functionIndex

def merge (node uniqueNode : AllocationFunction) : AllocationFunction :=
  { uniqueNode with size := uniqueNode.size + node.size, parentsId := uniqueNode.parentsId ++ node.parentsId }

variable (bottomUpList : List AllocationFunction)

/-- The nodes of `keyMap` are those of `bottomUpList`. -/
def combine (node : AllocationFunction) : List AllocationFunction :=
  if bottomUpList.any (key · == key node) then
    bottomUpList.map fun uniqueNode => if key uniqueNode = key node then merge node uniqueNode else uniqueNode
  else bottomUpList ++ [node]

def setBottomUpTree (traceNodes : List AllocationFunction) : List AllocationFunction :=
  (traceNodes.foldl combine []).insertionSort fun first second => second.size ≤ first.size

def getNodeById (id : Int) : Option AllocationFunction :=
  bottomUpList.find? (·.id == id)

variable {Info : Type}

def functionInfo (functionInfos : List Info) (node : AllocationFunction) : Option Info :=
  if 0 ≤ node.functionIndex then functionInfos[node.functionIndex.toNat]? else none

/-- `none` when the recursion is deeper than `depth`. -/
def getFunctionStack (functionInfos : List Info) (bottomUpList : List AllocationFunction) :
    Nat → AllocationFunction → Option (List (Option Info))
  | 0, _ => none
  | depth + 1, node => do
    let callers ← node.parentsId.mapM fun parentId =>
      match getNodeById bottomUpList parentId with
      | some parentNode => getFunctionStack functionInfos bottomUpList depth parentNode
      | none => some []
    some (functionInfo functionInfos node :: callers.flatten)

def getNodeStack (functionInfos : List Info) (bottomUpList : List AllocationFunction) (depth : Nat) (id : Int) :
    Option (List (Option Info)) :=
  match getNodeById bottomUpList id with
  | some currentNode => getFunctionStack functionInfos bottomUpList depth currentNode
  | none => some []

/-- The functions from a trace node to the root. -/
inductive Path (functionInfos : List Info) (traceNodes : List AllocationFunction) : Int → List (Option Info) → Prop
  | outside {id : Int} : getNodeById traceNodes id = none → Path functionInfos traceNodes id []
  | step {id parentId : Int} {node : AllocationFunction} {rest : List (Option Info)} :
      getNodeById traceNodes id = some node → node.parentsId = [parentId] →
      Path functionInfos traceNodes parentId rest →
      Path functionInfos traceNodes id (functionInfo functionInfos node :: rest)

/-- The trace nodes as `loadTraceTree` leaves them, with positive ids and one parent each. -/
structure TraceTree where
  nodes : List AllocationFunction
  different : (nodes.map (·.id)).Nodup
  positive : ∀ node ∈ nodes, 0 < node.id
  parents : ∀ node ∈ nodes, ∃ parentId, node.parentsId = [parentId] ∧ parentId < node.id

section Merge

theorem map_key_combine (list : List AllocationFunction) (node : AllocationFunction) :
    (combine list node).map key = if key node ∈ list.map key then list.map key else list.map key ++ [key node] := by
  have listed : list.any (key · == key node) = true ↔ key node ∈ list.map key := by simp
  simp only [combine, listed]
  split
  · rw [map_map]
    refine map_congr_left fun uniqueNode _ => ?_
    rw [Function.comp_apply]
    split <;> rfl
  · rw [map_append, map_singleton]

theorem combined_keys (nodes : List AllocationFunction) :
    ((nodes.foldl combine []).map key).Nodup ∧ (nodes.foldl combine []).map key ⊆ nodes.map key := by
  induction nodes using reverseRecOn with
  | nil => exact ⟨nodup_nil, nil_subset _⟩
  | append_singleton nodes node ih =>
    obtain ⟨different, known⟩ := ih
    have kept := Subset.trans known (subset_append_left (nodes.map key) [key node])
    rw [foldl_append, foldl_cons, foldl_nil, map_key_combine, map_append]
    split
    · exact ⟨different, kept⟩
    next new =>
      exact ⟨nodup_append_comm.mp (nodup_cons.mpr ⟨new, different⟩), append_subset.mpr ⟨kept, subset_append_right _ _⟩⟩

theorem combined_eq {nodes done : List AllocationFunction} (different : ((done ++ nodes).map key).Nodup) :
    nodes.foldl combine done = done ++ nodes := by
  induction nodes generalizing done with
  | nil => rw [foldl_nil, append_nil]
  | cons node nodes ih =>
    have new : ¬ done.any (key · == key node) := by
      rw [map_append] at different
      intro listed
      obtain ⟨other, inside, same⟩ := any_eq_true.mp listed
      exact disjoint_of_nodup_append different (mem_map_of_mem inside) (beq_iff_eq.mp same ▸ mem_cons_self)
    rw [foldl_cons, combine, if_neg new, ih (by simpa using different), append_assoc, singleton_append]

end Merge

section Lookup

variable {functionInfos : List Info} {tree : TraceTree} {bottomUpList : List AllocationFunction}

theorem getNodeById_some {node : AllocationFunction} {id : Int} (found : getNodeById bottomUpList id = some node) :
    node ∈ bottomUpList ∧ node.id = id :=
  ⟨mem_of_find?_eq_some found, by simpa using find?_some found⟩

theorem getNodeById_perm (same : bottomUpList.Perm tree.nodes) (id : Int) :
    getNodeById bottomUpList id = getNodeById tree.nodes id := by
  cases found : getNodeById bottomUpList id with
  | some node =>
    obtain ⟨listed, rfl⟩ := getNodeById_some found
    have inside := same.mem_iff.mp listed
    cases place : getNodeById tree.nodes node.id with
    | none => exact absurd (beq_self_eq_true node.id) (find?_eq_none.mp place node inside)
    | some other =>
      obtain ⟨otherInside, sameId⟩ := getNodeById_some place
      exact congrArg some (inj_on_of_nodup_map tree.different inside otherInside sameId.symm)
  | none =>
    refine (find?_eq_none.mpr fun node inside => ?_).symm
    exact find?_eq_none.mp found node (same.mem_iff.mpr inside)

theorem getNodeStack_path (same : bottomUpList.Perm tree.nodes) {depth : Nat} {id : Int} (deep : id ≤ depth) :
    ∃ stack, Path functionInfos tree.nodes id stack ∧ getNodeStack functionInfos bottomUpList depth id = some stack := by
  induction depth generalizing id with
  | zero =>
    have place : getNodeById tree.nodes id = none := by
      refine find?_eq_none.mpr fun node inside same => ?_
      have positive := tree.positive node inside
      have := beq_iff_eq.mp same
      omega
    exact ⟨[], .outside place, by rw [getNodeStack, getNodeById_perm same, place]⟩
  | succ depth ih =>
    cases place : getNodeById tree.nodes id with
    | none => exact ⟨[], .outside place, by rw [getNodeStack, getNodeById_perm same, place]⟩
    | some node =>
      obtain ⟨inside, rfl⟩ := getNodeById_some place
      obtain ⟨parentId, parent, smaller⟩ := tree.parents node inside
      obtain ⟨rest, path, found⟩ := @ih parentId (by omega)
      refine ⟨_, .step place parent path, ?_⟩
      rw [getNodeStack] at found
      rw [getNodeStack, getNodeById_perm same, place]
      simp [getFunctionStack, parent, found]

end Lookup

/-- Every node has its stack exactly when no two nodes have the same text of name and function index. -/
theorem getNodeStack_exact_iff (functionInfos : List Info) (tree : TraceTree) :
    (∀ node ∈ tree.nodes, ∃ stack depth, Path functionInfos tree.nodes node.id stack ∧
      getNodeStack functionInfos (setBottomUpTree tree.nodes) depth node.id = some stack) ↔
    (tree.nodes.map key).Nodup := by
  have perm : (setBottomUpTree tree.nodes).Perm (tree.nodes.foldl combine []) := perm_insertionSort _ _
  constructor
  · intro every
    obtain ⟨different, known⟩ := combined_keys tree.nodes
    have listed : tree.nodes.map (·.id) ⊆ (tree.nodes.foldl combine []).map (·.id) := by
      intro id inside
      obtain ⟨node, member, rfl⟩ := mem_map.mp inside
      obtain ⟨stack, depth, path, found⟩ := every node member
      rw [getNodeStack] at found
      cases place : getNodeById (setBottomUpTree tree.nodes) node.id with
      | some unique =>
        obtain ⟨kept, same⟩ := getNodeById_some place
        exact same ▸ mem_map_of_mem (perm.mem_iff.mp kept)
      | none =>
        -- the path of a trace node begins with its own function
        rw [place] at found
        cases found
        cases path with
        | outside missing => exact absurd (beq_self_eq_true node.id) (find?_eq_none.mp missing node member)
    have count := (tree.different.subperm listed).length_le
    refine ((different.subperm known).perm_of_length_le ?_).nodup_iff.mp different
    simpa using count
  · intro different node inside
    have whole : tree.nodes.foldl combine [] = [] ++ tree.nodes := combined_eq different
    rw [whole] at perm
    obtain ⟨stack, path, found⟩ := getNodeStack_path perm (Int.self_le_toNat node.id)
    exact ⟨stack, _, path, found⟩

/-- A function that calls itself. -/
def recursion : TraceTree where
  nodes := [⟨1, "f", 0, [-1], 8⟩, ⟨2, "f", 0, [1], 8⟩]
  different := by decide
  positive := by decide
  parents := by simp

/-- The second node has no stack, and the merged first node is among its own parents. -/
theorem getNodeStack_recursion : Path ["info"] recursion.nodes 2 [some "info", some "info"] ∧ ∀ depth,
    getNodeStack ["info"] (setBottomUpTree recursion.nodes) depth 2 = some [] ∧
      getNodeStack ["info"] (setBottomUpTree recursion.nodes) depth 1 = none := by
  have merged : setBottomUpTree recursion.nodes = [⟨1, "f", 0, [-1, 1], 16⟩] := by decide +kernel
  have path : Path ["info"] recursion.nodes 2
      [functionInfo ["info"] ⟨2, "f", 0, [1], 8⟩, functionInfo ["info"] ⟨1, "f", 0, [-1], 8⟩] :=
    .step rfl rfl (.step rfl rfl (.outside rfl))
  refine ⟨path, fun depth => ?_⟩
  rw [merged]
  refine ⟨rfl, ?_⟩
  induction depth with
  | zero => rfl
  | succ depth ih =>
    simp [getNodeStack, getNodeById] at ih
    simp [getNodeStack, getNodeById, getFunctionStack, ih]

end AllocationLogic

end SmartPerf.Heap
