import SmartPerf.Data.SortedDiff
import SmartPerf.Heap.Classes

namespace SmartPerf.Heap

open Data

/-! Two snapshots compared class by class: `getClassesForComparison` of the loader, which keeps what it
has compared, and the interface that holds the loaders of all files. -/

/-- What is different in a class. -/
@[ext]
structure ConstructorComparison where
  type : ConstructorType := .comparisonType
  fileId : Nat
  targetFileId : Nat
  nodeName : String
  childCount : Nat := 1
  hasNext : Bool := true
  addedCount : Nat := 0
  removedCount : Nat := 0
  deltaCount : Int := 0
  addedSize : Nat := 0
  removedSize : Nat := 0
  deltaSize : Int := 0
  deletedIdx : List Nat := []
  addedIndx : List Nat := []
deriving Repr, DecidableEq

namespace ConstructorComparison

variable (diff : ConstructorComparison)

def remove (targetNode : ConstructorItem) : ConstructorComparison :=
  { diff with
    deletedIdx := diff.deletedIdx ++ [targetNode.index]
    removedCount := diff.removedCount + 1
    removedSize := diff.removedSize + targetNode.shallowSize }

def add (baseNode : ConstructorItem) : ConstructorComparison :=
  { diff with
    addedIndx := diff.addedIndx ++ [baseNode.index]
    addedCount := diff.addedCount + 1
    addedSize := diff.addedSize + baseNode.shallowSize }

/-- The end of `calClassDiff`. -/
def close : Option ConstructorComparison :=
  if diff.addedCount = 0 ∧ diff.removedCount = 0 then none
  else
    some { diff with
      deltaCount := (diff.addedCount : Int) - diff.removedCount
      deltaSize := (diff.addedSize : Int) - diff.removedSize
      childCount := diff.addedCount + diff.removedCount
      hasNext := true }

end ConstructorComparison

/-- The first `childCount` children in the order of their ids. -/
def ClassItem.sortedChildren (classItem : ClassItem) : List ConstructorItem :=
  (classItem.classChildren.insertionSort fun first second => first.id ≤ second.id).take classItem.childCount

/-- The children of both classes are walked together. Each round moves one of the two indices on. -/
def calClassDiff (fileId : Nat) (targetClass : ClassItem) (baseClass : Option ClassItem) : Option ConstructorComparison :=
  let targets := targetClass.sortedChildren
  let bases := (baseClass.map ClassItem.sortedChildren).getD []
  let diff := walkBoth ConstructorItem.id ConstructorComparison.remove ConstructorComparison.add
    (targets.length + bases.length + 1) targets bases
    { fileId, targetFileId := targetClass.fileId, nodeName := targetClass.nodeName }
  diff.close

/-- The classes of the target first, then those of the base which the target does not have. The names
are distinct, so each difference is a new entry of the map. -/
def compareClasses (fileId : Nat) (allClasses targetFileClasses : List ClassItem) : List ConstructorComparison :=
  (targetFileClasses.filterMap fun targetClass =>
    calClassDiff fileId targetClass (allClasses.find? (·.nodeName = targetClass.nodeName))) ++
  (allClasses.filter fun classItem => !targetFileClasses.any (·.nodeName = classItem.nodeName)).filterMap fun classItem =>
    calClassDiff fileId classItem none

/-- The loader of a file with what it keeps. -/
structure HeapLoader where
  file : FileStruct
  allClasses : Option (List ClassItem) := none
  diffToOtherFile : List (Nat × List ConstructorComparison) := []

namespace HeapLoader

def getClassesForSummary (loader : HeapLoader) (range : Option (Nat × Nat)) : List ClassItem × HeapLoader :=
  match range, loader.allClasses with
  | none, some classes => (classes, loader)
  | none, none =>
    let classes := loader.file.combineNodeWithClassName (FileStruct.inRange none)
    (classes, { loader with allClasses := some classes })
  | some bounds, _ => (loader.file.combineNodeWithClassName (FileStruct.inRange (some bounds)), loader)

def getClassesForComparison (loader : HeapLoader) (targetFileId : Nat) (targetFileClasses : List ClassItem) :
    List ConstructorComparison × HeapLoader :=
  match loader.diffToOtherFile.lookup targetFileId with
  | some diffMap => (diffMap, loader)
  | none =>
    let (allClasses, loader) := loader.getClassesForSummary none
    let diffMap := compareClasses loader.file.id allClasses targetFileClasses
    (diffMap, { loader with diffToOtherFile := (targetFileId, diffMap) :: loader.diffToOtherFile })

end HeapLoader

/-- A node of a difference as it is shown. -/
structure CompareNode extends ConstructorItem where
  addedSize : Nat := 0
  removedSize : Nat := 0
  isAdd : Bool
deriving Repr, DecidableEq

variable (file : FileStruct)

def FileStruct.addedNode (entry : HeapNode × Nat) : CompareNode :=
  { file.heapNodeToConstructorItem entry with
    type := some .instanceType
    addedSize := entry.1.selfSize
    isAdd := true
    hasNext := decide (entry.1.edgeCount > 0) }

def FileStruct.removedNode (entry : HeapNode × Nat) : CompareNode :=
  { file.heapNodeToConstructorItem entry with
    type := some .instanceType
    removedSize := entry.1.selfSize
    isAdd := false
    hasNext := decide (entry.1.edgeCount > 0) }

/-- The node with an index; an index outside of the file ends in an error. -/
def FileStruct.nodeAt (index : Nat) : Option (HeapNode × Nat) :=
  (file.snapshot.nodes[index]?).map (·, index)

structure HeapDataInterface where
  fileStructs : List HeapLoader

namespace HeapDataInterface

variable (interface : HeapDataInterface)

def getFileStructById (id : Nat) : Option HeapLoader := interface.fileStructs.find? (·.file.id = id)

def setLoader (loader : HeapLoader) : HeapDataInterface where
  fileStructs := interface.fileStructs.map fun other => if other.file.id = loader.file.id then loader else other

def getClassesListForSummary (fileId : Nat) (range : Option (Nat × Nat)) : List ClassItem × HeapDataInterface :=
  match interface.getFileStructById fileId with
  | none => ([], interface)
  | some loader =>
    let (classes, loader) := loader.getClassesForSummary range
    (classes, interface.setLoader loader)

def getClassListForComparison (baseFileId targetFileId : Nat) : List ConstructorComparison × HeapDataInterface :=
  match interface.getFileStructById baseFileId, interface.getFileStructById targetFileId with
  | some _, some _ =>
    let (targetClasses, interface) := interface.getClassesListForSummary targetFileId none
    match interface.getFileStructById baseFileId with
    | none => ([], interface)
    | some base =>
      let (diffMap, base) := base.getClassesForComparison targetFileId targetClasses
      (diffMap.insertionSort fun first second => second.addedSize ≤ first.addedSize, interface.setLoader base)
  | _, _ => ([], interface)

/-- The nodes of a difference: the added ones from the base file, the removed ones from the target file. -/
def getNextForComparison (comparisonNode : ConstructorComparison) : Option (List CompareNode) :=
  match interface.getFileStructById comparisonNode.fileId, interface.getFileStructById comparisonNode.targetFileId with
  | some base, some target => do
      let added ← comparisonNode.addedIndx.mapM base.file.nodeAt
      let removed ← comparisonNode.deletedIdx.mapM target.file.nodeAt
      some (added.map base.file.addedNode ++ removed.map target.file.removedNode)
  | _, _ => some []

/-- What the views ask for. -/
inductive Request where
  | summary (fileId : Nat) (range : Option (Nat × Nat))
  | comparison (baseFileId targetFileId : Nat)

def answer : Request → HeapDataInterface
  | .summary fileId range => (interface.getClassesListForSummary fileId range).2
  | .comparison baseFileId targetFileId => (interface.getClassListForComparison baseFileId targetFileId).2

end HeapDataInterface

end SmartPerf.Heap
