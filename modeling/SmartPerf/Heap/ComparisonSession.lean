import SmartPerf.Heap.ComparisonAccounting

namespace SmartPerf.Heap

open Data List HeapDataInterface

/-! Sessions: the loaders keep what they have computed, and every comparison in a session is as if it
were made anew. -/

variable (files : List FileStruct)

/-- What a loader keeps is what it would compute from the files. -/
structure HeapLoader.Coherent (loader : HeapLoader) : Prop where
  known : loader.file ∈ files
  classes : ∀ classes, loader.allClasses = some classes → classes = loader.file.allClasses
  differences : ∀ id diffMap, loader.diffToOtherFile.lookup id = some diffMap → ∀ target ∈ files, target.id = id →
    diffMap = compareClasses loader.file.id loader.file.allClasses target.allClasses

structure HeapDataInterface.Coherent (interface : HeapDataInterface) : Prop where
  loaded : interface.fileStructs.map HeapLoader.file = files
  loaders : ∀ loader ∈ interface.fileStructs, loader.Coherent files

def HeapDataInterface.load : HeapDataInterface where
  fileStructs := files.map fun file => { file }

variable {files : List FileStruct} {loader : HeapLoader}

namespace HeapLoader.Coherent

theorem getClassesForSummary (coherent : loader.Coherent files) :
    (loader.getClassesForSummary none).1 = loader.file.allClasses ∧ (loader.getClassesForSummary none).2.Coherent files ∧
      (loader.getClassesForSummary none).2.file = loader.file := by
  cases kept : loader.allClasses with
  | none =>
    simp only [HeapLoader.getClassesForSummary, kept]
    refine ⟨rfl, ⟨coherent.known, ?_, coherent.differences⟩, trivial⟩
    intro classes same
    exact (Option.some.inj same).symm
  | some classes =>
    simp only [HeapLoader.getClassesForSummary, kept]
    exact ⟨coherent.classes classes kept, coherent, trivial⟩

theorem getClassesForSummary_range (coherent : loader.Coherent files) (range : Option (Nat × Nat)) :
    (loader.getClassesForSummary range).2.Coherent files ∧ (loader.getClassesForSummary range).2.file = loader.file := by
  cases range with
  | none => exact coherent.getClassesForSummary.2
  | some bounds => exact ⟨coherent, rfl⟩

theorem getClassesForComparison (coherent : loader.Coherent files) (unique : (files.map FileStruct.id).Nodup)
    {target : FileStruct} (inside : target ∈ files) :
    (loader.getClassesForComparison target.id target.allClasses).1 =
        compareClasses loader.file.id loader.file.allClasses target.allClasses ∧
      (loader.getClassesForComparison target.id target.allClasses).2.Coherent files ∧
      (loader.getClassesForComparison target.id target.allClasses).2.file = loader.file := by
  cases kept : loader.diffToOtherFile.lookup target.id with
  | some diffMap =>
    simp only [HeapLoader.getClassesForComparison, kept]
    exact ⟨coherent.differences target.id diffMap kept target inside rfl, coherent, trivial⟩
  | none =>
    obtain ⟨classes, after, sameFile⟩ := coherent.getClassesForSummary
    simp only [HeapLoader.getClassesForComparison, kept, classes, sameFile]
    refine ⟨trivial, ⟨coherent.known, ?_, ?_⟩, trivial⟩
    · intro classes same
      exact sameFile ▸ after.classes classes same
    · intro id diffMap found other otherInside named
      rw [lookup_cons] at found
      split at found
      next same =>
        have sameId : id = target.id := by simpa using same
        have sameTarget : other = target := inj_on_of_nodup_map unique otherInside inside (named.trans sameId)
        rw [← Option.some.inj found, sameTarget]
      · have old := after.differences id diffMap found other otherInside named
        rwa [sameFile] at old

end HeapLoader.Coherent

namespace HeapDataInterface.Coherent

variable {interface : HeapDataInterface} (coherent : interface.Coherent files) (unique : (files.map FileStruct.id).Nodup)
include coherent

theorem getFileStructById {id : Nat} (found : interface.getFileStructById id = some loader) :
    loader.Coherent files ∧ loader.file.id = id :=
  ⟨coherent.loaders loader (mem_of_find?_eq_some found), by simpa using find?_some found⟩

include unique

theorem getFileStructById_of_mem {file : FileStruct} (inside : file ∈ files) :
    ∃ loader, interface.getFileStructById file.id = some loader ∧ loader.Coherent files ∧ loader.file = file := by
  have member := inside
  rw [← coherent.loaded] at member
  obtain ⟨own, loaded, rfl⟩ := mem_map.mp member
  cases found : interface.getFileStructById own.file.id with
  | none =>
    have absent := find?_eq_none.mp found own loaded
    simp at absent
  | some loader =>
    obtain ⟨kept, sameId⟩ := coherent.getFileStructById found
    exact ⟨loader, rfl, kept, inj_on_of_nodup_map unique kept.known inside sameId⟩

theorem setLoader (kept : loader.Coherent files) : (interface.setLoader loader).Coherent files := by
  constructor
  · rw [HeapDataInterface.setLoader, map_map, ← coherent.loaded]
    refine map_congr_left fun other inside => ?_
    by_cases same : other.file.id = loader.file.id
    · have known := (coherent.loaders other inside).known
      rw [Function.comp_apply, if_pos same]
      exact (inj_on_of_nodup_map unique known kept.known same).symm
    · rw [Function.comp_apply, if_neg same]
  · intro other inside
    obtain ⟨before, member, rfl⟩ := mem_map.mp inside
    split
    · exact kept
    · exact coherent.loaders before member

theorem getClassesListForSummary (fileId : Nat) (range : Option (Nat × Nat)) :
    (interface.getClassesListForSummary fileId range).2.Coherent files := by
  cases found : interface.getFileStructById fileId with
  | none => simpa only [HeapDataInterface.getClassesListForSummary, found] using coherent
  | some loader =>
    obtain ⟨kept, -⟩ := coherent.getFileStructById found
    simp only [HeapDataInterface.getClassesListForSummary, found]
    exact coherent.setLoader unique (kept.getClassesForSummary_range range).1

theorem comparison {base target : FileStruct} (baseIn : base ∈ files) (targetIn : target ∈ files) :
    (interface.getClassListForComparison base.id target.id).1.Perm
        (compareClasses base.id base.allClasses target.allClasses) ∧
      (interface.getClassListForComparison base.id target.id).2.Coherent files := by
  obtain ⟨baseLoader, baseFound, -, -⟩ := coherent.getFileStructById_of_mem unique baseIn
  obtain ⟨targetLoader, targetFound, targetKept, targetFile⟩ := coherent.getFileStructById_of_mem unique targetIn
  obtain ⟨classes, summarised, sameFile⟩ := targetKept.getClassesForSummary
  have between := coherent.setLoader unique summarised
  obtain ⟨again, foundAgain, againKept, againFile⟩ := between.getFileStructById_of_mem unique baseIn
  obtain ⟨differences, after, -⟩ := againKept.getClassesForComparison unique targetIn
  rw [targetFile] at classes
  rw [againFile] at differences
  simp only [HeapDataInterface.getClassListForComparison, HeapDataInterface.getClassesListForSummary, baseFound, targetFound,
    foundAgain, classes]
  refine ⟨?_, between.setLoader unique after⟩
  rw [differences]
  exact perm_insertionSort _ _

theorem getClassListForComparison (baseFileId targetFileId : Nat) :
    (interface.getClassListForComparison baseFileId targetFileId).2.Coherent files := by
  cases baseFound : interface.getFileStructById baseFileId with
  | none => simpa only [HeapDataInterface.getClassListForComparison, baseFound] using coherent
  | some base =>
    cases targetFound : interface.getFileStructById targetFileId with
    | none => simpa only [HeapDataInterface.getClassListForComparison, baseFound, targetFound] using coherent
    | some target =>
      obtain ⟨baseKept, rfl⟩ := coherent.getFileStructById baseFound
      obtain ⟨targetKept, rfl⟩ := coherent.getFileStructById targetFound
      exact (coherent.comparison unique baseKept.known targetKept.known).2

theorem answer (request : Request) : (interface.answer request).Coherent files := by
  cases request with
  | summary fileId range => exact coherent.getClassesListForSummary unique fileId range
  | comparison baseFileId targetFileId => exact coherent.getClassListForComparison unique baseFileId targetFileId

theorem foldl_answer (requests : List Request) :
    (requests.foldl HeapDataInterface.answer interface).Coherent files := by
  induction requests generalizing interface with
  | nil => exact coherent
  | cons request rest ih => exact ih (coherent.answer unique request)

end HeapDataInterface.Coherent

theorem HeapDataInterface.coherent_load (files : List FileStruct) : (load files).Coherent files where
  loaded := by simp [load, Function.comp_def]
  loaders := by
    intro loader inside
    obtain ⟨file, member, rfl⟩ := mem_map.mp inside
    refine ⟨member, ?_, ?_⟩
    · intro classes kept
      cases kept
    · intro id diffMap kept
      cases kept

/-- In every session the comparison of two files accounts for all their nodes exactly when every class
of the base is a class of the target and the nodes that both have take the same room in both. -/
theorem comparison_accounts_iff (files : List FileStruct) (unique : (files.map FileStruct.id).Nodup)
    (requests : List Request) (base target : FileStruct) (baseIn : base ∈ files) (targetIn : target ∈ files)
    (baseDistinct : (base.snapshot.nodes.map HeapNode.id).Nodup)
    (targetDistinct : (target.snapshot.nodes.map HeapNode.id).Nodup) :
    Accounts
      ((requests.foldl HeapDataInterface.answer (.load files)).getClassListForComparison base.id target.id).2 base target
      ((requests.foldl HeapDataInterface.answer (.load files)).getClassListForComparison base.id target.id).1 ↔
      base.ClassesOccurIn target ∧ totalSize (base.shared target) = totalSize (target.shared base) := by
  have session := (coherent_load files).foldl_answer unique requests
  obtain ⟨order, after⟩ := session.comparison unique baseIn targetIn
  have baseIds := FileStruct.counted_nodup baseDistinct
  have targetIds := FileStruct.counted_nodup targetDistinct
  constructor
  · intro accounts
    have occur := occur_of_accounts baseIds targetIds order accounts
    refine ⟨occur, ?_⟩
    have size := accounts.size
    have sizes := sum_deltaSize baseIds targetIds order occur
    omega
  · intro ⟨occur, sameSize⟩
    obtain ⟨baseLoader, baseFound, -, baseFile⟩ := after.getFileStructById_of_mem unique baseIn
    obtain ⟨targetLoader, targetFound, -, targetFile⟩ := after.getFileStructById_of_mem unique targetIn
    exact accounts_of_occur baseIds targetIds order occur sameSize (by rw [baseFound, ← baseFile]; rfl)
      (by rw [targetFound, ← targetFile]; rfl)

def FileStruct.ofObjects (id : Nat) (objects : List (String × Nat × Nat)) : FileStruct where
  id := id
  snapshot := {
    nodes := objects.map fun object => {
      type := .object, name := object.1, id := object.2.1, selfSize := object.2.2, edgeCount := 0, firstEdgeIndex := 0 }
    edges := [] }

theorem comparison_accounts_sharedClass :
    Accounts ((load [.ofObjects 0 [("A", 1, 8), ("A", 3, 8)],
        .ofObjects 1 [("A", 3, 8), ("B", 5, 16)]]).getClassListForComparison 0 1).2
      (.ofObjects 0 [("A", 1, 8), ("A", 3, 8)]) (.ofObjects 1 [("A", 3, 8), ("B", 5, 16)])
      ((load [.ofObjects 0 [("A", 1, 8), ("A", 3, 8)],
        .ofObjects 1 [("A", 3, 8), ("B", 5, 16)]]).getClassListForComparison 0 1).1 :=
  (comparison_accounts_iff [.ofObjects 0 [("A", 1, 8), ("A", 3, 8)], .ofObjects 1 [("A", 3, 8), ("B", 5, 16)]]
    (by decide +kernel) [] (.ofObjects 0 [("A", 1, 8), ("A", 3, 8)]) (.ofObjects 1 [("A", 3, 8), ("B", 5, 16)])
    (by simp) (by simp) (by decide +kernel) (by decide +kernel)).mpr
    ⟨by unfold FileStruct.ClassesOccurIn; decide +kernel, by decide +kernel⟩

/-- The class "B" is only in the base: its node is counted as removed, and it is looked for among the
removed nodes of the base itself. -/
theorem comparison_not_accounts_ownClass :
    (((load [.ofObjects 0 [("A", 1, 8), ("B", 3, 16)],
        .ofObjects 1 [("A", 1, 8)]]).getClassListForComparison 0 1).1.map fun diff =>
          (diff.nodeName, diff.deltaCount, diff.deltaSize, diff.targetFileId, diff.deletedIdx)) =
        [("B", -1, -16, 0, [1])] ∧
      ¬ Accounts ((load [.ofObjects 0 [("A", 1, 8), ("B", 3, 16)],
          .ofObjects 1 [("A", 1, 8)]]).getClassListForComparison 0 1).2
        (.ofObjects 0 [("A", 1, 8), ("B", 3, 16)]) (.ofObjects 1 [("A", 1, 8)])
        ((load [.ofObjects 0 [("A", 1, 8), ("B", 3, 16)],
          .ofObjects 1 [("A", 1, 8)]]).getClassListForComparison 0 1).1 := by
  refine ⟨by decide +kernel, fun accounts => ?_⟩
  have counts : (((load [.ofObjects 0 [("A", 1, 8), ("B", 3, 16)],
      .ofObjects 1 [("A", 1, 8)]]).getClassListForComparison 0 1).1.map ConstructorComparison.deltaCount).sum ≠
      ((FileStruct.ofObjects 0 [("A", 1, 8), ("B", 3, 16)]).counted.length : Int) -
        (FileStruct.ofObjects 1 [("A", 1, 8)]).counted.length := by
    decide +kernel
  exact counts accounts.count

end SmartPerf.Heap
