import SmartPerf.Data.StableSort
import SmartPerf.Heap.Comparison

namespace SmartPerf.Heap

open Data List ConstructorItem ConstructorComparison

/-! What the comparison of two classes finds, by the nodes that only one of the files has. -/

def totalSize (entries : List (HeapNode × Nat)) : Nat := (entries.map (·.1.selfSize)).sum

def describe (fileId targetFileId : Nat) (name : String) (added removed : List (HeapNode × Nat)) :
    Option ConstructorComparison :=
  close {
    fileId, targetFileId
    nodeName := name
    addedCount := added.length
    removedCount := removed.length
    addedSize := totalSize added
    removedSize := totalSize removed
    deletedIdx := removed.map Prod.snd
    addedIndx := added.map Prod.snd }

def nodeId (entry : HeapNode × Nat) : Nat := entry.1.id

def FileStruct.sortedMembers (file : FileStruct) (counted : List (HeapNode × Nat)) (name : String) : List (HeapNode × Nat) :=
  (file.members counted name).insertionSort fun first second => nodeId first ≤ nodeId second

theorem FileStruct.sortedMembers_perm (file : FileStruct) (counted : List (HeapNode × Nat)) (name : String) :
    (file.sortedMembers counted name).Perm (file.members counted name) :=
  perm_insertionSort _ _

section Walk

theorem foldl_add (items : List ConstructorItem) (state : List Nat × Nat × Nat) :
    items.foldl (fun state item => (state.1 ++ [item.index], state.2.1 + 1, state.2.2 + item.shallowSize)) state =
      (state.1 ++ items.map index, state.2.1 + items.length, state.2.2 + (items.map shallowSize).sum) := by
  induction items generalizing state with
  | nil => simp
  | cons item rest ih =>
    rw [foldl_cons, ih]
    simp only [map_cons, length_cons, sum_cons, append_assoc]
    refine Prod.ext rfl (Prod.ext ?_ ?_)
    · simp only
      omega
    · simp only
      omega

theorem map_of_measured {items : List ConstructorItem} {entries : List (HeapNode × Nat)}
    (same : items.map measured = entries.map measuredNode) :
    items.map index = entries.map Prod.snd ∧ items.length = entries.length ∧
      (items.map shallowSize) = entries.map (·.1.selfSize) := by
  have indices := congrArg (List.map fun triple => triple.2.1) same
  have sizes := congrArg (List.map fun triple => triple.2.2) same
  have lengths := congrArg List.length same
  simp only [map_map] at indices sizes
  rw [length_map, length_map] at lengths
  exact ⟨indices, lengths, sizes⟩

variable {targets bases : List ConstructorItem} {targetNodes baseNodes : List (HeapNode × Nat)}
  (targetsSame : targets.map measured = targetNodes.map measuredNode)
  (basesSame : bases.map measured = baseNodes.map measuredNode)
include targetsSame basesSame

theorem onlyIn_measured :
    (onlyIn ConstructorItem.id bases targets).map measured =
      (onlyIn nodeId baseNodes targetNodes).map measuredNode := by
  rw [← onlyIn_map ConstructorItem.id Prod.fst measured fun _ => rfl,
    ← onlyIn_map nodeId Prod.fst measuredNode fun _ => rfl, targetsSame, basesSame]

omit targetsSame in
theorem ascending_of_measured (ascending : Ascending nodeId baseNodes) : Ascending ConstructorItem.id bases := by
  have ids := congrArg (List.map fun triple => triple.1) basesSame
  simp only [map_map] at ids
  have sorted : (baseNodes.map nodeId).Pairwise (· < ·) := pairwise_map.mpr ascending
  have same : bases.map ConstructorItem.id = baseNodes.map nodeId := ids
  rw [← same] at sorted
  exact pairwise_map.mp sorted

theorem walkBoth_nodes (fileId targetFileId : Nat) (name : String) (targetAscending : Ascending nodeId targetNodes) (baseAscending : Ascending nodeId baseNodes) :
    (walkBoth ConstructorItem.id remove add (targets.length + bases.length + 1)
      targets bases { fileId, targetFileId, nodeName := name }).close =
      describe fileId targetFileId name (onlyIn nodeId baseNodes targetNodes) (onlyIn nodeId targetNodes baseNodes) := by
  have targetSorted := ascending_of_measured targetsSame targetAscending
  have baseSorted := ascending_of_measured basesSame baseAscending
  have added := onlyIn_measured targetsSame basesSame
  have removed := onlyIn_measured basesSame targetsSame
  obtain ⟨addedIdx, addedLength, addedSizes⟩ := map_of_measured added
  obtain ⟨removedIdx, removedLength, removedSizes⟩ := map_of_measured removed
  have removes := walkBoth_left remove add
    (fun diff => (diff.deletedIdx, diff.removedCount, diff.removedSize))
    (fun state item => (state.1 ++ [item.index], state.2.1 + 1, state.2.2 + item.shallowSize)) (fun _ _ => rfl)
    (fun _ _ => rfl) { fileId, targetFileId, nodeName := name } targetSorted baseSorted (Nat.lt_succ_self _)
  have adds := walkBoth_left add remove
    (fun diff => (diff.addedIndx, diff.addedCount, diff.addedSize))
    (fun state item => (state.1 ++ [item.index], state.2.1 + 1, state.2.2 + item.shallowSize)) (fun _ _ => rfl)
    (fun _ _ => rfl) { fileId, targetFileId, nodeName := name } baseSorted targetSorted (Nat.lt_succ_self _)
  have keeps := walkBoth_left remove add
    (fun diff => (diff.type, diff.fileId, diff.targetFileId, diff.nodeName, diff.childCount, diff.hasNext,
      diff.deltaCount, diff.deltaSize)) (fun state _ => state) (fun _ _ => rfl) (fun _ _ => rfl)
    { fileId, targetFileId, nodeName := name } targetSorted baseSorted (Nat.lt_succ_self _)
  rw [foldl_add, removedIdx, removedLength, removedSizes] at removes
  rw [Nat.add_comm bases.length, ← walkBoth_comm _ _ _ (Nat.lt_succ_self _), foldl_add, addedIdx, addedLength, addedSizes] at adds
  rw [foldl_fixed] at keeps
  simp only [Prod.mk.injEq, nil_append, Nat.zero_add] at removes adds keeps
  congr 1
  ext1
  all_goals simp only [removes, adds, keeps, totalSize]

end Walk

section Sorted

variable {file : FileStruct} {counted : List (HeapNode × Nat)}

theorem FileStruct.sortedMembers_ascending (distinct : (counted.map nodeId).Nodup) (name : String) :
    Ascending nodeId (file.sortedMembers counted name) := by
  have sorted : InOrder nodeId (file.sortedMembers counted name) := stableSort_inOrder
  have unique : ((file.sortedMembers counted name).map nodeId).Nodup := by
    rw [((file.sortedMembers_perm counted name).map nodeId).nodup_iff]
    exact distinct.sublist ((filter_sublist).map nodeId)
  refine List.Pairwise.imp₂ (fun first second less differs => ?_) sorted (pairwise_map.mp unique)
  exact Nat.lt_of_le_of_ne less differs

theorem ClassItem.Represents.sortedChildren {classItem : ClassItem} (represents : classItem.Represents file counted) :
    classItem.sortedChildren.map measured = (file.sortedMembers counted classItem.nodeName).map measuredNode := by
  rw [ClassItem.sortedChildren, take_of_length_le (by rw [length_insertionSort, represents.childCount]),
    map_insertionSort (fun first second : ConstructorItem => first.id ≤ second.id)
      (fun first second : Nat × Nat × Nat => first.1 ≤ second.1) _ _ (fun _ _ _ _ => Iff.rfl),
    represents.children, FileStruct.sortedMembers,
    map_insertionSort (fun first second : HeapNode × Nat => nodeId first ≤ nodeId second)
      (fun first second : Nat × Nat × Nat => first.1 ≤ second.1) _ _ (fun _ _ _ _ => Iff.rfl)]

end Sorted

section Classes

variable {base target : FileStruct} {baseCounted targetCounted : List (HeapNode × Nat)} {baseClasses : List ClassItem}
  {classItem : ClassItem}

/-- The comparison of a class of the target with the class of the same name in the base, if there is one. -/
theorem calClassDiff_target (grouped : base.Grouped baseCounted baseClasses)
    (represents : classItem.Represents target targetCounted) (baseDistinct : (baseCounted.map nodeId).Nodup)
    (targetDistinct : (targetCounted.map nodeId).Nodup) :
    calClassDiff base.id classItem (baseClasses.find? (·.nodeName = classItem.nodeName)) =
      describe base.id target.id classItem.nodeName
        (onlyIn nodeId (base.sortedMembers baseCounted classItem.nodeName) (target.sortedMembers targetCounted classItem.nodeName))
        (onlyIn nodeId (target.sortedMembers targetCounted classItem.nodeName)
          (base.sortedMembers baseCounted classItem.nodeName)) := by
  have bases : ((baseClasses.find? (·.nodeName = classItem.nodeName)).map ClassItem.sortedChildren |>.getD []).map
      measured = (base.sortedMembers baseCounted classItem.nodeName).map measuredNode := by
    cases found : baseClasses.find? (·.nodeName = classItem.nodeName) with
    | none =>
      have absent : ∀ other ∈ baseClasses, other.nodeName ≠ classItem.nodeName := by
        intro other inside
        simpa using find?_eq_none.mp found other inside
      simp [FileStruct.sortedMembers, grouped.members_of_absent absent]
    | some baseClass =>
      have named : baseClass.nodeName = classItem.nodeName := by simpa using find?_some found
      rw [Option.map_some, Option.getD_some,
        (grouped.represents baseClass (mem_of_find?_eq_some found)).sortedChildren, named]
  have walked := walkBoth_nodes represents.sortedChildren bases base.id classItem.fileId classItem.nodeName
    (FileStruct.sortedMembers_ascending targetDistinct classItem.nodeName)
    (FileStruct.sortedMembers_ascending baseDistinct classItem.nodeName)
  rw [represents.fileId] at walked
  simp only [calClassDiff, represents.fileId]
  exact walked

/-- A class that only the base has is compared with nothing: all of its nodes count as removed from the
base file. -/
theorem calClassDiff_alone (represents : classItem.Represents base baseCounted)
    (distinct : (baseCounted.map nodeId).Nodup) :
    calClassDiff base.id classItem none =
      describe base.id base.id classItem.nodeName [] (base.sortedMembers baseCounted classItem.nodeName) := by
  have walked := walkBoth_nodes represents.sortedChildren (show ([] : List ConstructorItem).map measured =
    ([] : List (HeapNode × Nat)).map measuredNode from rfl)
    base.id classItem.fileId classItem.nodeName (FileStruct.sortedMembers_ascending distinct classItem.nodeName) List.Pairwise.nil
  rw [onlyIn_nil, represents.fileId] at walked
  simp only [calClassDiff, represents.fileId]
  exact walked

end Classes

section Describe

variable {fileId targetFileId : Nat} {name : String} {added removed : List (HeapNode × Nat)}

theorem describe_none (nothing : describe fileId targetFileId name added removed = none) : added = [] ∧ removed = [] := by
  rw [describe, close] at nothing
  split at nothing
  next empty => simpa using empty
  · cases nothing

theorem describe_some {diff : ConstructorComparison} (something : describe fileId targetFileId name added removed = some diff) :
    diff.fileId = fileId ∧ diff.targetFileId = targetFileId ∧ diff.nodeName = name ∧
      diff.addedIndx = added.map Prod.snd ∧ diff.deletedIdx = removed.map Prod.snd ∧
      diff.deltaCount = (added.length : Int) - removed.length ∧
      diff.deltaSize = (totalSize added : Int) - totalSize removed := by
  rw [describe, close] at something
  split at something
  · cases something
  · cases something
    exact ⟨rfl, rfl, rfl, rfl, rfl, rfl, rfl⟩

theorem sum_describe (value : ConstructorComparison → Int) (expected : List (HeapNode × Nat) → List (HeapNode × Nat) → Int)
    (agrees : ∀ fileId targetFileId name added removed diff,
      describe fileId targetFileId name added removed = some diff → value diff = expected added removed)
    (empty : expected [] [] = 0) (names : List String) (added removed : String → List (HeapNode × Nat)) :
    ((names.filterMap fun name => describe fileId targetFileId name (added name) (removed name)).map value).sum =
      (names.map fun name => expected (added name) (removed name)).sum := by
  induction names with
  | nil => rfl
  | cons name rest ih =>
    cases described : describe fileId targetFileId name (added name) (removed name) with
    | none =>
      obtain ⟨noneAdded, noneRemoved⟩ := describe_none described
      simp only [filterMap_cons, described]
      rw [ih, map_cons, sum_cons, noneAdded, noneRemoved, empty, Int.zero_add]
    | some diff =>
      simp only [filterMap_cons, described]
      rw [map_cons, sum_cons, ih, map_cons, sum_cons, agrees _ _ _ _ _ _ described]

end Describe

end SmartPerf.Heap
