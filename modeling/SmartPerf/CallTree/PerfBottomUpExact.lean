import SmartPerf.CallTree.PerfBottomUp

namespace SmartPerf.CallTree.ProcedureLogicWorkerPerf

open Data List PathTree LevelNode

/-! Which samples the nodes of the bottom-up view stand for. -/

variable (worker : ProcedureLogicWorkerPerf) (samples : List PerfCountSample)

def callers (sample : PerfCountSample) : List String :=
  (((worker.callChainData sample.sampleId).getD []).map worker.bottomUpName).reverse

/-- The `selfTime`, `totalTime` and `eventCount` of a node. -/
def timesOf (node : PerfBottomUpStruct) : Int × Int × Int := (node.selfTime, node.totalTime, node.eventCount)

def timesFor : Int × Int × Int :=
  ((samples.map (·.count)).sum, (samples.map (·.count)).sum, (samples.map (·.eventCount)).sum)

def samplesUnder (path : List String) : List PerfCountSample :=
  samples.filter fun sample => path <+: worker.callers sample

/-- Each path that the functions of a sample start with has one node, with the sums of these samples. -/
def IsExactBottomUp (forest : List (PathTree PerfBottomUpStruct)) : Prop :=
  ∀ path ≠ [], (dataAt PerfBottomUpStruct.symbolName path forest).map timesOf =
    if worker.samplesUnder samples path = [] then [] else [timesFor (worker.samplesUnder samples path)]

/-- The samples have call chains with frames, and no function is named like the index of a function. -/
structure Chained : Prop where
  chains : ∀ sample ∈ samples, ∃ chain, worker.callChainData sample.sampleId = some chain ∧ chain ≠ []
  apart : ∀ sample ∈ samples, ∀ other ∈ samples, ∀ chain otherChain, worker.callChainData sample.sampleId = some chain →
    worker.callChainData other.sampleId = some otherChain →
    ∀ item ∈ chain, ∀ otherItem ∈ otherChain, lookedFor item ≠ worker.bottomUpName otherItem

variable {worker}

section TopDown

variable {sample : PerfCountSample} (item : PerfCallChain)

def downChain (sample : PerfCountSample) : List String → List (PathTree PerfBottomUpStruct)
  | [] => []
  | name :: rest =>
    [.node
      { symbolName := name
        selfTime := if rest = [] then sample.count else 0
        totalTime := sample.count
        eventCount := sample.eventCount
        tsArray := sample.ts }
      (downChain sample rest)]

theorem newNode_eq :
    worker.newNode sample item =
      .node
        { symbolName := worker.bottomUpName item
          selfTime := sample.count
          totalTime := sample.count
          eventCount := sample.eventCount
          tsArray := sample.ts }
        [] := by
  simp [newNode, calculateSelfTime]

theorem addFrames_newNode (rest : List PerfCallChain) :
    [worker.addFrames sample rest (worker.newNode sample item)] =
      downChain sample (worker.bottomUpName item :: rest.map worker.bottomUpName) := by
  induction rest generalizing item with
  | nil =>
    rw [addFrames, newNode_eq, map_nil, downChain, downChain]
    simp
  | cons next more ih =>
    have below := ih next
    rw [map_cons, downChain, ← below, newNode_eq, addFrames]
    have grown : (worker.addFrames sample more (worker.newNode sample next)).data.totalTime = sample.count := by
      have head := congrArg (fun trees => (trees.map fun tree => tree.data.totalTime)) below
      rw [downChain] at head
      simpa using head
    simp [calculateSelfTime, grown]

theorem addFrames_of_absent {item : PerfCallChain} {rest : List PerfCallChain} {tree : PathTree PerfBottomUpStruct}
    (absent : ∀ child ∈ tree.children, child.data.symbolName ≠ lookedFor item) :
    (worker.addFrames sample (item :: rest) tree).children =
      tree.children ++ downChain sample ((item :: rest).map worker.bottomUpName) := by
  have none : (tree.children.findIdx? fun child => child.data.symbolName = lookedFor item) = none := by
    rw [findIdx?_eq_none_iff]
    intro child inside
    exact decide_eq_false (absent child inside)
  rw [addFrames, none, map_cons, ← addFrames_newNode]
  rfl

theorem Chained.callers_eq {samples : List PerfCountSample} (chained : worker.Chained samples) (inside : sample ∈ samples) :
    ∃ item more, worker.callChainData sample.sampleId = some (item :: more) ∧
      (worker.callers sample).reverse = (item :: more).map worker.bottomUpName := by
  obtain ⟨chain, found, nonempty⟩ := chained.chains sample inside
  obtain ⟨item, more, rfl⟩ := exists_cons_of_ne_nil nonempty
  refine ⟨item, more, found, ?_⟩
  rw [callers, found, reverse_reverse]
  rfl

theorem topUp_children {samples : List PerfCountSample} (chained : worker.Chained samples) :
    ∃ tree, worker.topUp samples = some tree ∧
      tree.children = samples.flatMap fun sample => downChain sample (worker.callers sample).reverse := by
  have steps (done remaining : List PerfCountSample) (tree : PathTree PerfBottomUpStruct) (all : samples = done ++ remaining)
      (children : tree.children = done.flatMap fun sample => downChain sample (worker.callers sample).reverse) :
      ∃ last, remaining.foldlM (fun tree sample => do
          let callChains ← worker.callChainData sample.sampleId
          some (worker.addFrames sample callChains tree)) tree = some last ∧
        last.children = samples.flatMap fun sample => downChain sample (worker.callers sample).reverse := by
    induction remaining generalizing done tree with
    | nil =>
      rw [append_nil] at all
      exact ⟨tree, rfl, all ▸ children⟩
    | cons sample rest ih =>
      have inside : sample ∈ samples := by
        rw [all]
        exact mem_append_right done mem_cons_self
      obtain ⟨item, more, found, names⟩ := chained.callers_eq inside
      have absent : ∀ child ∈ tree.children, child.data.symbolName ≠ lookedFor item := by
        intro child listed same
        rw [children] at listed
        obtain ⟨other, earlier, fromOther⟩ := mem_flatMap.mp listed
        have otherInside : other ∈ samples := by
          rw [all]
          exact mem_append_left _ earlier
        obtain ⟨otherItem, otherMore, otherFound, otherNames⟩ := chained.callers_eq otherInside
        rw [otherNames, map_cons, downChain, mem_singleton] at fromOther
        rw [fromOther] at same
        exact chained.apart sample inside other otherInside _ _ found otherFound item mem_cons_self otherItem
          mem_cons_self same.symm
      have next := @addFrames_of_absent worker sample item more tree absent
      rw [foldlM_cons, found]
      refine ih (done ++ [sample]) _ (by rw [all, append_assoc]; rfl) ?_
      rw [next, children, flatMap_append, flatMap_singleton, names]
  exact steps [] samples _ rfl rfl

end TopDown

section Reverse

def numbersOf (sample : PerfCountSample) : PerfBottomUpStruct where
  symbolName := ""
  selfTime := sample.count
  totalTime := sample.count
  eventCount := sample.eventCount
  tsArray := sample.ts

variable (copied : PerfBottomUpStruct)

theorem copyParentNode_named (name : String) (parents : List String) :
    copyParentNode { copied with symbolName := name } parents = copyParentNode copied parents := by
  induction parents with
  | nil => rfl
  | cons parent rest ih => rw [copyParentNode, copyParentNode, ih]

theorem recursionForest_downChain (sample : PerfCountSample) (names parents : List String) (nonempty : names ≠ []) :
    recursionForest parents (downChain sample names) =
      if 0 < sample.count then copyParentNode (numbersOf sample) (names.reverse ++ parents) else [] := by
  induction names generalizing parents with
  | nil => exact absurd rfl nonempty
  | cons name rest ih =>
    rw [downChain, recursionForest, recursionTree, recursionForest, append_nil]
    cases rest with
    | nil =>
      rw [downChain, recursionForest, append_nil, if_pos rfl, reverse_singleton, singleton_append, copyParentNode]
      have same := copyParentNode_named (numbersOf sample) name parents
      simp only [numbersOf] at same ⊢
      rw [same]
    | cons next more =>
      have idle : ¬ (if next :: more = [] then sample.count else 0) > 0 := by simp
      rw [if_neg idle, nil_append, ih _ (cons_ne_nil next more), reverse_cons (a := name), append_assoc]
      rfl

theorem recursionForest_append (parents : List String) (first second : List (PathTree PerfBottomUpStruct)) :
    recursionForest parents (first ++ second) = recursionForest parents first ++ recursionForest parents second := by
  induction first with
  | nil => rfl
  | cons tree rest ih => rw [cons_append, recursionForest, recursionForest, ih, append_assoc]

theorem recursionForest_samples (samples : List PerfCountSample) (nonempty : ∀ sample ∈ samples, worker.callers sample ≠ []) :
    recursionForest [] (samples.flatMap fun sample => downChain sample (worker.callers sample).reverse) =
      (samples.filter fun sample => 0 < sample.count).flatMap fun sample =>
        copyParentNode (numbersOf sample) (worker.callers sample) := by
  induction samples with
  | nil => rfl
  | cons sample rest ih =>
    have here := nonempty sample mem_cons_self
    rw [flatMap_cons, recursionForest_append, ih (forall_mem_of_forall_mem_cons nonempty),
      recursionForest_downChain _ _ _ (by simpa using here), reverse_reverse, append_nil]
    by_cases counts : 0 < sample.count
    · rw [if_pos counts, filter_cons_of_pos (by simpa using counts), flatMap_cons]
    · rw [if_neg counts, filter_cons_of_neg (by simpa using counts), nil_append]

theorem dataAt_copyParentNode (names : List String) {path : List String} (nonempty : path ≠ []) :
    (dataAt PerfBottomUpStruct.symbolName path (copyParentNode copied names)).map timesOf =
      if path <+: names then [timesOf copied] else [] := by
  induction names generalizing path with
  | nil =>
    rw [copyParentNode, dataAt_nil, if_neg]
    · rfl
    · intro empty
      exact nonempty (prefix_nil.mp empty)
  | cons name rest ih =>
    rw [copyParentNode]
    match path, nonempty with
    | [last], _ =>
      rw [dataAt]
      by_cases same : last = name
      · rw [select_cons_of_eq same.symm, if_pos (cons_prefix_cons.mpr ⟨same, List.nil_prefix⟩)]
        rfl
      · rw [select_cons_of_ne (Ne.symm same), if_neg fun runs => same (cons_prefix_cons.mp runs).1]
        rfl
    | first :: next :: more, _ =>
      rw [dataAt, under]
      by_cases same : first = name
      · have lone : select PerfBottomUpStruct.symbolName first
            [.node { copied with symbolName := name } (copyParentNode copied rest)] =
            [.node { copied with symbolName := name } (copyParentNode copied rest)] :=
          select_cons_of_eq same.symm
        rw [lone, flatMap_singleton, children_node, ih (cons_ne_nil next more)]
        simp [same]
      · have away : select PerfBottomUpStruct.symbolName first
            [.node { copied with symbolName := name } (copyParentNode copied rest)] = [] :=
          select_cons_of_ne (Ne.symm same)
        rw [away, flatMap_nil, dataAt_nil, if_neg fun runs => same (cons_prefix_cons.mp runs).1]
        rfl

end Reverse

section Merge

/-- One node per name, with the times of all trees and the callers of the first. -/
def mergeUpdate (tree : PathTree PerfBottomUpStruct) (found : Option LevelNode) : LevelNode :=
  match found with
  | none => pushFrames { node := tree } tree.children
  | some level =>
    pushFrames
      { level with
        node := .node
          { level.node.data with
            totalTime := level.node.data.totalTime + tree.data.totalTime
            selfTime := level.node.data.selfTime + tree.data.selfTime
            tsArray := level.node.data.tsArray ++ tree.data.tsArray }
          level.node.children }
      tree.children

variable (trees : List (PathTree PerfBottomUpStruct)) {samples : List PerfCountSample}

def levelOf : List (String × LevelNode) :=
  upsertAll (fun tree => tree.data.symbolName) mergeUpdate trees []

theorem level_fine :
    ∀ entry ∈ levelOf trees, entry.2.node.data.symbolName = entry.1 ∧ entry.2.frameChildren = none := by
  apply @fine_upsertAll _ _ _ _ _ _ _
    (fun name (level : LevelNode) => level.node.data.symbolName = name ∧ level.frameChildren = none)
  · exact nofun
  · exact fun _ _ => ⟨rfl, rfl⟩
  · rintro tree _ level ⟨sameName, unset⟩
    exact ⟨sameName, by rw [mergeUpdate, pushFrames, unset]; rfl⟩

theorem mergeTreeBifurcation_eq (levels : Nat) (trees : List (PathTree PerfBottomUpStruct)) :
    mergeTreeBifurcation (levels + 1) trees = (levelOf trees).map fun entry => entry.2.node := by
  apply map_congr_left
  intro entry inside
  rw [(level_fine trees entry inside).2]

theorem select_level (name : String) :
    select PerfBottomUpStruct.symbolName name ((levelOf trees).map fun entry => entry.2.node) =
      ((find name (levelOf trees)).map LevelNode.node).toList := by
  have nodes : ((levelOf trees).map fun entry => entry.2.node) = ((levelOf trees).map Prod.snd).map LevelNode.node := by
    rw [map_map]
    rfl
  have distinct : ((levelOf trees).map Prod.fst).Nodup := nodup_upsertAll trees nodup_nil
  rw [nodes, select, filter_map, Option.toList_map]
  congr 1
  apply filter_values distinct
  intro entry inside
  rw [Function.comp_apply, decide_eq_true_eq, (level_fine trees entry inside).1]

theorem foldl_mergeUpdate (level : LevelNode) :
    ∃ last, trees.foldl (fun found tree => some (mergeUpdate tree found)) (some level) = some last ∧
      last.node.children = level.node.children ∧
      timesOf last.node.data =
        (level.node.data.selfTime + (trees.map fun tree => tree.data.selfTime).sum,
          level.node.data.totalTime + (trees.map fun tree => tree.data.totalTime).sum, level.node.data.eventCount) := by
  induction trees generalizing level with
  | nil => exact ⟨level, rfl, rfl, by simp [timesOf]⟩
  | cons tree rest ih =>
    obtain ⟨last, made, children, times⟩ := ih (mergeUpdate tree (some level))
    refine ⟨last, made, children, ?_⟩
    rw [times]
    simp [mergeUpdate, pushFrames, add_assoc]

def chainNode (worker : ProcedureLogicWorkerPerf) (name : String) (sample : PerfCountSample) : PathTree PerfBottomUpStruct :=
  .node { numbersOf sample with symbolName := name } (copyParentNode (numbersOf sample) (worker.callers sample).tail)

def countedWith (worker : ProcedureLogicWorkerPerf) (samples : List PerfCountSample) (name : String) : List PerfCountSample :=
  (samples.filter fun sample => [name] <+: worker.callers sample).filter fun sample => 0 < sample.count

/-- The trees of one name are those of the samples that count and have it as their innermost function. -/
theorem filter_chains (nonempty : ∀ sample ∈ samples, worker.callers sample ≠ []) (name : String) :
    ((samples.filter fun sample => 0 < sample.count).flatMap fun sample =>
        copyParentNode (numbersOf sample) (worker.callers sample)).filter (fun tree => tree.data.symbolName = name) =
      (worker.countedWith samples name).map (worker.chainNode name) := by
  rw [countedWith, filter_filter]
  induction samples with
  | nil => rfl
  | cons sample rest ih =>
    have later := ih (forall_mem_of_forall_mem_cons nonempty)
    obtain ⟨first, more, names⟩ := exists_cons_of_ne_nil (nonempty sample mem_cons_self)
    by_cases counts : 0 < sample.count
    · rw [filter_cons_of_pos (by simpa using counts), flatMap_cons, filter_append, later, names, copyParentNode]
      by_cases same : first = name
      · rw [filter_cons_of_pos (by exact decide_eq_true same), filter_cons_of_pos (by simp [counts, names, same]),
          map_cons, chainNode, names, same]
        rfl
      · have away : ¬ ([name] <+: worker.callers sample) := by
          rw [names]
          intro runs
          exact same (cons_prefix_cons.mp runs).1.symm
        rw [filter_cons_of_neg (by exact fun taken => same (of_decide_eq_true taken)),
          filter_cons_of_neg (by simp [away])]
        rfl
    · rw [filter_cons_of_neg (by simpa using counts), filter_cons_of_neg (by simp [counts]), later]

/-- What the samples that count and have one innermost function make at a path: the root has the times of all of them,
its callers are those of the first one. -/
def timesAt (worker : ProcedureLogicWorkerPerf) (name : String) (rest : List String) :
    List PerfCountSample → List (Int × Int × Int)
  | [] => []
  | first :: more =>
    if rest = [] then [(((first :: more).map (·.count)).sum, ((first :: more).map (·.count)).sum, first.eventCount)]
    else if name :: rest <+: worker.callers first then [(first.count, first.count, first.eventCount)]
    else []

theorem getBottomUp_at (chained : worker.Chained samples) :
    ∃ forest, worker.getBottomUp samples = some forest ∧ ∀ name rest,
      (dataAt PerfBottomUpStruct.symbolName (name :: rest) forest).map timesOf =
        worker.timesAt name rest (worker.countedWith samples name) := by
  have nonempty : ∀ sample ∈ samples, worker.callers sample ≠ [] := by
    intro sample inside empty
    obtain ⟨item, more, -, names⟩ := chained.callers_eq inside
    rw [empty] at names
    cases names
  obtain ⟨tree, built, children⟩ := topUp_children chained
  refine ⟨topUpDataToBottomUpData tree.children, ?_, ?_⟩
  · rw [getBottomUp, built]
    rfl
  · intro name rest
    rw [topUpDataToBottomUpData, mergeTreeBifurcation_eq, children, recursionForest_samples samples nonempty]
    generalize chains : ((samples.filter fun sample => 0 < sample.count).flatMap fun sample =>
      copyParentNode (numbersOf sample) (worker.callers sample)) = trees
    have chosen := select_level trees name
    have level : find name (levelOf trees) = ((worker.countedWith samples name).map (worker.chainNode name)).foldl
        (fun found tree => some (mergeUpdate tree found)) none := by
      rw [← filter_chains nonempty, chains, levelOf, find_upsertAll]
      rfl
    cases own : worker.countedWith samples name with
    | nil =>
      rw [level, own] at chosen
      cases rest with
      | nil =>
        rw [dataAt, chosen]
        rfl
      | cons next more =>
        rw [dataAt, under, chosen]
        exact congrArg (List.map timesOf) (dataAt_nil _)
    | cons first more =>
      rw [own, map_cons, foldl_cons] at level
      obtain ⟨last, made, sameChildren, times⟩ := foldl_mergeUpdate (more.map (worker.chainNode name))
        (mergeUpdate (worker.chainNode name first) none)
      rw [made] at level
      rw [level] at chosen
      have starts : [name] <+: worker.callers first := by
        have inside : first ∈ worker.countedWith samples name := by
          rw [own]
          exact mem_cons_self
        simpa using (mem_filter.mp (mem_of_mem_filter inside)).2
      cases rest with
      | nil =>
        rw [dataAt, chosen, timesAt]
        simp only [Option.map_some, Option.toList_some, map_cons, times]
        simp [mergeUpdate, pushFrames, chainNode, numbersOf, Function.comp_def]
      | cons next more =>
        rw [dataAt, under, chosen, timesAt, if_neg (cons_ne_nil next more), Option.map_some, Option.toList_some,
          flatMap_singleton, sameChildren]
        obtain ⟨tail, names⟩ := starts
        rw [mergeUpdate, pushFrames, chainNode, children_node,
          dataAt_copyParentNode _ _ (cons_ne_nil next more), ← names]
        by_cases runs : next :: more <+: tail
        · simp [runs, numbersOf, timesOf]
        · simp [runs]

end Merge

section Condition

variable {samples before after : List PerfCountSample} {first : PerfCountSample} {name : String} {group : List PerfCountSample}

/-- All samples with one innermost function but the first that counts add nothing that is lost: they lie on the chain of
callers of the first, a sample that counts has no callers, and the events of the others cancel out on every path. -/
def OthersVanish (worker : ProcedureLogicWorkerPerf) (group : List PerfCountSample) : Prop :=
  group = [] ∨ ∃ before first after, group = before ++ first :: after ∧ 0 < first.count ∧
    (∀ sample ∈ before, sample.count = 0) ∧
    (∀ sample ∈ before ++ after, 0 ≤ sample.count ∧ worker.callers sample <+: worker.callers first ∧
      (sample.count = 0 ∨ (worker.callers sample).length = 1)) ∧
    ∀ path ≠ [], ((worker.samplesUnder (before ++ after) path).map (·.eventCount)).sum = 0

theorem samplesUnder_split (path : List String) (measure : PerfCountSample → Int) :
    ((worker.samplesUnder (before ++ first :: after) path).map measure).sum =
      (if path <+: worker.callers first then measure first else 0) +
        ((worker.samplesUnder (before ++ after) path).map measure).sum := by
  by_cases runs : path <+: worker.callers first
  · simp [samplesUnder, runs]
    ring
  · simp [samplesUnder, runs]

theorem sum_positive (samples : List PerfCountSample) :
    (samples.map (·.count)).sum ≤ ((samples.filter fun sample => 0 < sample.count).map (·.count)).sum ∧
      (((samples.filter fun sample => 0 < sample.count).map (·.count)).sum = (samples.map (·.count)).sum ↔
        ∀ sample ∈ samples, 0 ≤ sample.count) := by
  induction samples with
  | nil => simp
  | cons sample rest ih =>
    obtain ⟨atMost, equal⟩ := ih
    rw [forall_mem_cons, ← equal]
    by_cases counts : 0 < sample.count
    · simp [counts]
      omega
    · simp [counts]
      omega

/-- The value that is expected at a path of the samples with one innermost function. -/
def expectedAt (worker : ProcedureLogicWorkerPerf) (group : List PerfCountSample) (path : List String) :
    List (Int × Int × Int) :=
  if worker.samplesUnder group path = [] then [] else [timesFor (worker.samplesUnder group path)]

section
variable (innermost : ∀ sample ∈ group, [name] <+: worker.callers sample)
include innermost

theorem samplesUnder_self : worker.samplesUnder group [name] = group :=
  filter_eq_self.mpr fun sample inside => decide_eq_true (innermost sample inside)

theorem vanish_of_exact (exact : ∀ rest, worker.timesAt name rest (group.filter fun sample => 0 < sample.count) =
    worker.expectedAt group (name :: rest)) : worker.OthersVanish group := by
  by_cases empty : group = []
  · exact .inl empty
  right
  have root := exact []
  rw [expectedAt, samplesUnder_self innermost, if_neg empty] at root
  cases own : group.filter fun sample => 0 < sample.count with
  | nil =>
    rw [own] at root
    cases root
  | cons first more =>
    obtain ⟨before, after, parts, early, counts, rest⟩ := filter_eq_cons_iff.mp own
    have positive : 0 < first.count := of_decide_eq_true counts
    rw [own, timesAt, if_pos rfl, List.cons.injEq, timesFor, Prod.mk.injEq, Prod.mk.injEq, ← own] at root
    have nonnegative := (sum_positive group).2.mp root.1.1
    have listed (sample : PerfCountSample) (inside : sample ∈ before ++ after) : sample ∈ group := by
      rw [parts]
      exact perm_middle.mem_iff.mpr (mem_cons_of_mem _ inside)
    have deeper (next : String) (others : List String) := exact (next :: others)
    simp only [own, timesAt, cons_ne_nil, if_false] at deeper
    -- A path with two functions has the numbers of the first sample only.
    have path (next : String) (others : List String) (some : worker.samplesUnder group (name :: next :: others) ≠ []) :
        name :: next :: others <+: worker.callers first ∧
          ((worker.samplesUnder (before ++ after) (name :: next :: others)).map (·.count)).sum = 0 ∧
          ((worker.samplesUnder (before ++ after) (name :: next :: others)).map (·.eventCount)).sum = 0 := by
      have at_ := deeper next others
      rw [expectedAt, if_neg some] at at_
      by_cases runs : name :: next :: others <+: worker.callers first
      · rw [if_pos runs, List.cons.injEq, timesFor, Prod.mk.injEq, Prod.mk.injEq, parts, samplesUnder_split, if_pos runs,
          samplesUnder_split, if_pos runs] at at_
        exact ⟨runs, by omega, by omega⟩
      · rw [if_neg runs] at at_
        cases at_
    have lies (sample : PerfCountSample) (inside : sample ∈ before ++ after) :
        worker.callers sample <+: worker.callers first ∧ (sample.count = 0 ∨ (worker.callers sample).length = 1) := by
      obtain ⟨tail, names⟩ := innermost sample (listed sample inside)
      cases tail with
      | nil =>
        rw [← names]
        exact ⟨innermost first (parts ▸ by simp), .inr rfl⟩
      | cons next others =>
        have passes : sample ∈ worker.samplesUnder (before ++ after) (name :: next :: others) :=
          mem_filter.mpr ⟨inside, decide_eq_true (names ▸ prefix_rfl)⟩
        have some : worker.samplesUnder group (name :: next :: others) ≠ [] :=
          ne_nil_of_mem (mem_filter.mpr ⟨listed sample inside, (mem_filter.mp passes).2⟩)
        obtain ⟨runs, noCount, _⟩ := path next others some
        refine ⟨names ▸ runs, .inl ?_⟩
        refine all_zero_of_le_zero_le_of_sum_eq_zero ?_ noCount (mem_map_of_mem passes)
        intro number numberInside
        obtain ⟨other, otherInside, rfl⟩ := mem_map.mp numberInside
        exact nonnegative other (listed other (mem_of_mem_filter otherInside))
    refine ⟨before, first, after, parts, positive, ?_, ?_, ?_⟩
    · intro sample inside
      have small : ¬ 0 < sample.count := by simpa using early sample inside
      have large := nonnegative sample (listed sample (mem_append_left _ inside))
      omega
    · intro sample inside
      exact ⟨nonnegative sample (listed sample inside), lies sample inside⟩
    · intro wanted nonempty
      by_cases none : worker.samplesUnder (before ++ after) wanted = []
      · rw [none]
        rfl
      · obtain ⟨sample, passes⟩ := exists_mem_of_ne_nil _ none
        obtain ⟨inside, runs⟩ := mem_filter.mp passes
        obtain ⟨tail, names⟩ := innermost sample (listed sample inside)
        obtain ⟨start, others, rfl⟩ := exists_cons_of_ne_nil nonempty
        have start_eq : start = name := by
          have prefixed := of_decide_eq_true runs
          rw [← names] at prefixed
          exact (cons_prefix_cons.mp prefixed).1
        subst start_eq
        cases others with
        | nil =>
          have firstRuns := innermost first (parts ▸ by simp)
          have split := @samplesUnder_split worker before after first [start] (·.eventCount)
          rw [← parts, samplesUnder_self innermost, if_pos firstRuns] at split
          omega
        | cons next more =>
          have some : worker.samplesUnder group (start :: next :: more) ≠ [] :=
            ne_nil_of_mem (mem_filter.mpr ⟨listed sample inside, runs⟩)
          exact (path next more some).2.2

theorem exact_of_vanish (vanish : worker.OthersVanish group) (rest : List String) :
    worker.timesAt name rest (group.filter fun sample => 0 < sample.count) = worker.expectedAt group (name :: rest) := by
  rcases vanish with rfl | ⟨before, first, after, parts, positive, early, lies, events⟩
  · rfl
  · have own : ∃ more, (group.filter fun sample => 0 < sample.count) = first :: more := by
      have idle : (before.filter fun sample => 0 < sample.count) = [] := by
        rw [filter_eq_nil_iff]
        intro sample inside counts
        have zero := early sample inside
        have large := of_decide_eq_true counts
        omega
      refine ⟨after.filter fun sample => 0 < sample.count, ?_⟩
      rw [parts, filter_append, idle, filter_cons_of_pos (by simpa using positive), nil_append]
    obtain ⟨more, own⟩ := own
    have inGroup : first ∈ group := by
      rw [parts]
      exact mem_append_right _ mem_cons_self
    have members (sample : PerfCountSample) (listed : sample ∈ group) : sample = first ∨ sample ∈ before ++ after := by
      rw [parts] at listed
      exact mem_cons.mp (perm_middle.mem_iff.mp listed)
    have noEvents := events (name :: rest) (cons_ne_nil name rest)
    have eventSum := @samplesUnder_split worker before after first (name :: rest) (·.eventCount)
    have countSum := @samplesUnder_split worker before after first (name :: rest) (·.count)
    rw [noEvents, ← parts] at eventSum
    rw [← parts] at countSum
    rw [own, timesAt, expectedAt]
    cases rest with
    | nil =>
      have total : ((first :: more).map (·.count)).sum = (group.map (·.count)).sum := by
        rw [← own]
        refine (sum_positive group).2.mpr fun sample listed => ?_
        rcases members sample listed with rfl | other
        · exact positive.le
        · exact (lies sample other).1
      have some : worker.samplesUnder group [name] ≠ [] := by
        rw [samplesUnder_self innermost]
        exact ne_nil_of_mem inGroup
      rw [if_pos rfl, if_neg some, timesFor, eventSum, if_pos (innermost first inGroup), samplesUnder_self innermost, total,
        add_zero]
    | cons next others =>
      rw [if_neg (cons_ne_nil next others)]
      by_cases runs : name :: next :: others <+: worker.callers first
      · have some : worker.samplesUnder group (name :: next :: others) ≠ [] :=
          ne_nil_of_mem (mem_filter.mpr ⟨inGroup, decide_eq_true runs⟩)
        -- A sample that counts has no callers, so the others on this path have no count.
        have noCounts : ((worker.samplesUnder (before ++ after) (name :: next :: others)).map (·.count)).sum = 0 := by
          apply sum_eq_zero
          intro number inside
          obtain ⟨sample, passes, rfl⟩ := mem_map.mp inside
          obtain ⟨listed, through⟩ := mem_filter.mp passes
          rcases (lies sample listed).2.2 with zero | single
          · exact zero
          · have short := (of_decide_eq_true through).length_le
            simp only [length_cons] at short
            omega
        rw [if_pos runs, if_neg some, timesFor, eventSum, countSum, noCounts, if_pos runs, if_pos runs, add_zero, add_zero]
      · have none : worker.samplesUnder group (name :: next :: others) = [] := by
          rw [samplesUnder, filter_eq_nil_iff]
          intro sample listed through
          have passes := of_decide_eq_true through
          rcases members sample listed with rfl | other
          · exact runs passes
          · exact runs (passes.trans (lies sample other).2.1)
        rw [if_neg runs, if_pos none]

end

theorem samplesUnder_cons (name : String) (rest : List String) :
    worker.samplesUnder samples (name :: rest) = worker.samplesUnder (worker.samplesUnder samples [name]) (name :: rest) := by
  rw [samplesUnder, samplesUnder, samplesUnder, filter_filter]
  apply filter_congr
  intro sample _
  rw [← Bool.decide_and, decide_eq_decide]
  constructor
  · intro runs
    exact ⟨runs, (cons_prefix_cons.mpr ⟨rfl, List.nil_prefix⟩ : [name] <+: name :: rest).trans runs⟩
  · exact And.left

/-- The bottom-up view is exact when and only when, for each innermost function, the other samples than the first one
vanish. -/
theorem getBottomUp_exact_iff (worker : ProcedureLogicWorkerPerf) (samples : List PerfCountSample)
    (chained : worker.Chained samples) :
    (∃ forest, worker.getBottomUp samples = some forest ∧ worker.IsExactBottomUp samples forest) ↔
      ∀ name, worker.OthersVanish (worker.samplesUnder samples [name]) := by
  obtain ⟨forest, built, stands⟩ := getBottomUp_at chained
  have innermost (name : String) : ∀ sample ∈ worker.samplesUnder samples [name], [name] <+: worker.callers sample :=
    fun sample inside => of_decide_eq_true (mem_filter.mp inside).2
  constructor
  · rintro ⟨other, otherBuilt, exact⟩ name
    rw [built, Option.some.injEq] at otherBuilt
    apply vanish_of_exact (innermost name)
    intro rest
    have here := exact (name :: rest) (cons_ne_nil name rest)
    rw [← otherBuilt, stands, samplesUnder_cons] at here
    exact here
  · intro vanish
    refine ⟨forest, built, ?_⟩
    intro path nonempty
    obtain ⟨name, rest, rfl⟩ := exists_cons_of_ne_nil nonempty
    rw [stands, samplesUnder_cons]
    exact exact_of_vanish (innermost name) (vanish name) rest

/-- `read` is called by `main` in the first sample and by `loop` in the second. -/
def twoCallers : ProcedureLogicWorkerPerf where
  dataDict id := if id = 10 then some "main" else if id = 11 then some "loop" else some "read"
  threadData _ := some {}
  callChainData id :=
    if id = 1 then some [{ name := .index 10, fileName := "app" }, { name := .index 12, fileName := "libc" }]
    else some [{ name := .index 11, fileName := "app" }, { name := .index 12, fileName := "libc" }]
  isHideThread := false
  isHideThreadState := false
  isOnlyKernel := false

theorem getBottomUp_exact_oneSample :
    ∃ forest, twoCallers.getBottomUp [⟨1, 7, 2, "", 5, 30, []⟩] = some forest ∧
      twoCallers.IsExactBottomUp [⟨1, 7, 2, "", 5, 30, []⟩] forest := by
  have chained : twoCallers.Chained [⟨1, 7, 2, "", 5, 30, []⟩] := by
    constructor
    · intro sample inside
      rw [mem_singleton.mp inside]
      exact ⟨_, rfl, cons_ne_nil _ _⟩
    · intro sample inside other otherInside chain otherChain found otherFound
      rw [mem_singleton.mp inside] at found
      rw [mem_singleton.mp otherInside] at otherFound
      cases found
      cases otherFound
      decide
  refine (getBottomUp_exact_iff twoCallers _ chained).mpr ?_
  intro name
  by_cases innermost : [name] <+: twoCallers.callers ⟨1, 7, 2, "", 5, 30, []⟩
  · refine .inr ⟨[], ⟨1, 7, 2, "", 5, 30, []⟩, [], ?_, by decide, ?_, ?_, ?_⟩
    · exact filter_cons_of_pos (decide_eq_true innermost)
    · exact nofun
    · exact nofun
    · exact fun _ _ => rfl
  · exact .inl (filter_cons_of_neg (by simpa using innermost))

/-- The events of the second sample are not added, and its caller is missing. -/
theorem getBottomUp_not_exact_twoCallers :
    ∃ forest, twoCallers.getBottomUp [⟨1, 7, 1, "", 5, 10, []⟩, ⟨2, 7, 1, "", 5, 20, []⟩] = some forest ∧
      (dataAt PerfBottomUpStruct.symbolName ["read(libc)"] forest).map timesOf = [(2, 2, 10)] ∧
      dataAt PerfBottomUpStruct.symbolName ["read(libc)", "loop(app)"] forest = [] ∧
      ¬ twoCallers.IsExactBottomUp [⟨1, 7, 1, "", 5, 10, []⟩, ⟨2, 7, 1, "", 5, 20, []⟩] forest := by
  refine ⟨_, rfl, by decide, by decide, ?_⟩
  intro exact
  exact absurd (exact ["read(libc)"] (by decide)) (by decide)

end Condition

end SmartPerf.CallTree.ProcedureLogicWorkerPerf
