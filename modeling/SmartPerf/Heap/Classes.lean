import SmartPerf.Heap.Flags

namespace SmartPerf.Heap

open List

/-! The nodes of a snapshot grouped by their classes, as `getClassesForSummary` does. -/

inductive ConstructorType where
  | classType
  | instanceType
  | filedType
  | retainersType
  | comparisonType
deriving Repr, DecidableEq

/-- An item of a list that is shown. The type is set after it is made from a node. -/
structure ConstructorItem where
  fileId : Nat
  nodeName : String
  childCount : Nat := 1
  shallowSize : Nat
  hasNext : Bool := true
  edgeCount : Nat
  type : Option ConstructorType := none
  id : Nat
  index : Nat
deriving Repr, DecidableEq

structure ClassItem extends ConstructorItem where
  classChildren : List ConstructorItem := []
deriving Repr, DecidableEq

/-- A snapshot and the id of the file it was read from. -/
structure FileStruct where
  id : Nat
  snapshot : HeapSnapshot
deriving Repr, DecidableEq

def getNodeTypeName : NodeType → String
  | .hidden => "hidden"
  | .array => "array"
  | .string => "string"
  | .object => "object"
  | .code => "code"
  | .closure => "closure"
  | .regexp => "regexp"
  | .number => "number"
  | .native => "native"
  | .synthetic => "synthetic"
  | .concatenatedString => "concatenated_string"
  | .slicedString => "sliced_string"
  | .symbol => "symbol"
  | .bigint => "bigint"
  | .objectShape => "object_shape"

namespace FileStruct

variable (file : FileStruct) (entry : HeapNode × Nat)

/-- `nodeName()` of the node with the given index. -/
def nodeName : String :=
  if file.snapshot.distributeDOMState.displayName entry.2 ≠ "" then
    file.snapshot.distributeDOMState.displayName entry.2
  else entry.1.name

def className : String :=
  match entry.1.type with
  | .hidden => "(system)"
  | .object | .native => file.nodeName entry
  | .code => "(compiled code)"
  | other => "(" ++ getNodeTypeName other ++ ")"

def heapNodeToConstructorItem : ConstructorItem where
  fileId := file.id
  id := entry.1.id
  index := entry.2
  nodeName := file.nodeName entry
  edgeCount := entry.1.edgeCount
  shallowSize := entry.1.selfSize

/-- The first node of a class makes the class, whose copy it is itself. -/
def firstOfClass : ClassItem :=
  let classItem := { file.heapNodeToConstructorItem entry with
    childCount := 1
    type := some .classType
    nodeName := file.className entry
    hasNext := true }
  { classItem with
    classChildren := [{ classItem with
      type := some .instanceType
      id := entry.1.id
      index := entry.2
      childCount := entry.1.edgeCount
      hasNext := decide (entry.1.edgeCount > 0) }] }

def addToClass (classItem : ClassItem) (entry : HeapNode × Nat) : ClassItem :=
  { classItem with
    childCount := classItem.childCount + 1
    shallowSize := classItem.shallowSize + entry.1.selfSize
    classChildren := classItem.classChildren ++ [{ file.heapNodeToConstructorItem entry with
      type := some .instanceType
      childCount := entry.1.edgeCount
      hasNext := decide (entry.1.edgeCount > 0) }] }

/-- The map of the classes, whose keys are the names of its items, in the order they were set. -/
def combineNode (classes : List ClassItem) (entry : HeapNode × Nat) : List ClassItem :=
  if classes.any (·.nodeName = file.className entry) then
    classes.map fun classItem =>
      if classItem.nodeName = file.className entry then file.addToClass classItem entry else classItem
  else classes ++ [file.firstOfClass entry]

def isCounted : Bool := entry.1.selfSize ≠ 0 ∨ entry.1.type = .native

def countedNodes (filter : Nat → Bool) : List (HeapNode × Nat) :=
  file.snapshot.nodes.zipIdx.filter fun entry => filter entry.1.id && isCounted entry

def combineNodeWithClassName (filter : Nat → Bool) : List ClassItem :=
  (file.countedNodes filter).foldl file.combineNode []

def inRange (range : Option (Nat × Nat)) (nodeId : Nat) : Bool :=
  range.all fun bounds => bounds.1 ≤ nodeId ∧ nodeId ≤ bounds.2

def members (counted : List (HeapNode × Nat)) (name : String) : List (HeapNode × Nat) :=
  counted.filter (file.className · = name)

end FileStruct

def ConstructorItem.measured (item : ConstructorItem) : Nat × Nat × Nat := (item.id, item.index, item.shallowSize)

def measuredNode (entry : HeapNode × Nat) : Nat × Nat × Nat := (entry.1.id, entry.2, entry.1.selfSize)

/-- The item stands for all nodes of its class among the given ones. -/
structure ClassItem.Represents (classItem : ClassItem) (file : FileStruct) (counted : List (HeapNode × Nat)) : Prop where
  fileId : classItem.fileId = file.id
  childCount : classItem.childCount = classItem.classChildren.length
  children : classItem.classChildren.map ConstructorItem.measured =
    (file.members counted classItem.nodeName).map measuredNode
  inhabited : file.members counted classItem.nodeName ≠ []

namespace FileStruct

variable {file : FileStruct} {counted : List (HeapNode × Nat)} {classes : List ClassItem}

/-- The classes are those of the given nodes, each of them once. -/
structure Grouped (file : FileStruct) (counted : List (HeapNode × Nat)) (classes : List ClassItem) : Prop where
  names : (classes.map fun classItem => classItem.nodeName).Nodup
  represents : ∀ classItem ∈ classes, classItem.Represents file counted
  complete : ∀ entry ∈ counted, ∃ classItem ∈ classes, classItem.nodeName = file.className entry

variable {entry : HeapNode × Nat}

variable {name : String}

theorem members_append_of_eq (same : file.className entry = name) :
    file.members (counted ++ [entry]) name = file.members counted name ++ [entry] := by
  simp [members, same]

theorem members_append_of_ne (distinct : file.className entry ≠ name) :
    file.members (counted ++ [entry]) name = file.members counted name := by
  simp [members, distinct]

theorem Grouped.members_of_absent (grouped : file.Grouped counted classes)
    (absent : ∀ classItem ∈ classes, classItem.nodeName ≠ name) : file.members counted name = [] := by
  rw [members, filter_eq_nil_iff]
  intro entry inside same
  obtain ⟨classItem, member, named⟩ := grouped.complete entry inside
  exact absent classItem member (named.trans (of_decide_eq_true same))

variable {classItem : ClassItem}

theorem represents_other (represents : classItem.Represents file counted)
    (distinct : classItem.nodeName ≠ file.className entry) : classItem.Represents file (counted ++ [entry]) where
  fileId := represents.fileId
  childCount := represents.childCount
  children := by
    rw [members_append_of_ne (Ne.symm distinct)]
    exact represents.children
  inhabited := by
    rw [members_append_of_ne (Ne.symm distinct)]
    exact represents.inhabited

theorem represents_addToClass (represents : classItem.Represents file counted)
    (same : classItem.nodeName = file.className entry) :
    (file.addToClass classItem entry).Represents file (counted ++ [entry]) where
  fileId := represents.fileId
  childCount := by simp [addToClass, represents.childCount]
  children := by
    have named : (file.addToClass classItem entry).nodeName = classItem.nodeName := rfl
    rw [named, members_append_of_eq same.symm, map_append, ← represents.children]
    simp [addToClass, ConstructorItem.measured, measuredNode, heapNodeToConstructorItem]
  inhabited := by
    have named : (file.addToClass classItem entry).nodeName = classItem.nodeName := rfl
    simp [named, members_append_of_eq same.symm]

theorem represents_firstOfClass (fresh : file.members counted (file.className entry) = []) :
    (file.firstOfClass entry).Represents file (counted ++ [entry]) where
  fileId := rfl
  childCount := rfl
  children := by
    have named : (file.firstOfClass entry).nodeName = file.className entry := rfl
    rw [named, members_append_of_eq rfl, fresh]
    rfl
  inhabited := by
    have named : (file.firstOfClass entry).nodeName = file.className entry := rfl
    simp [named, members_append_of_eq rfl]

theorem Grouped.combineNode (grouped : file.Grouped counted classes) (entry : HeapNode × Nat) :
    file.Grouped (counted ++ [entry]) (file.combineNode classes entry) := by
  cases known : classes.any (·.nodeName = file.className entry) with
  | true =>
    have renamed : ∀ classItem, (if classItem.nodeName = file.className entry then file.addToClass classItem entry
        else classItem).nodeName = classItem.nodeName := by
      intro classItem
      split
      · rfl
      · rfl
    simp only [FileStruct.combineNode, known, if_true]
    refine ⟨?_, ?_, ?_⟩
    · rw [map_map]
      simp only [Function.comp_def, renamed]
      exact grouped.names
    · intro classItem inside
      obtain ⟨before, member, rfl⟩ := mem_map.mp inside
      by_cases same : before.nodeName = file.className entry
      · rw [if_pos same]
        exact represents_addToClass (grouped.represents before member) same
      · rw [if_neg same]
        exact represents_other (grouped.represents before member) same
    · intro other inside
      have found : ∃ classItem ∈ classes, classItem.nodeName = file.className other := by
        rcases mem_append.mp inside with old | new
        · exact grouped.complete other old
        · rw [mem_singleton.mp new]
          simpa using known
      obtain ⟨classItem, member, named⟩ := found
      exact ⟨_, mem_map_of_mem member, (renamed classItem).trans named⟩
  | false =>
    have absent : ∀ classItem ∈ classes, classItem.nodeName ≠ file.className entry := by simpa using known
    simp only [FileStruct.combineNode, known, Bool.false_eq_true, if_false]
    refine ⟨?_, ?_, ?_⟩
    · rw [map_append, nodup_append]
      refine ⟨grouped.names, nodup_singleton _, ?_⟩
      intro name inside other alone
      obtain ⟨classItem, member, rfl⟩ := mem_map.mp inside
      rw [map_singleton, mem_singleton] at alone
      rw [alone]
      exact absent classItem member
    · intro classItem inside
      rcases mem_append.mp inside with old | new
      · exact represents_other (grouped.represents classItem old) (absent classItem old)
      · rw [mem_singleton.mp new]
        exact represents_firstOfClass (grouped.members_of_absent absent)
    · intro other inside
      rcases mem_append.mp inside with old | new
      · obtain ⟨classItem, member, named⟩ := grouped.complete other old
        exact ⟨classItem, mem_append_left _ member, named⟩
      · exact ⟨file.firstOfClass entry, by simp, by rw [mem_singleton.mp new]; rfl⟩

theorem grouped_combineNodeWithClassName (file : FileStruct) (filter : Nat → Bool) :
    file.Grouped (file.countedNodes filter) (file.combineNodeWithClassName filter) := by
  have general : ∀ (todo done : List (HeapNode × Nat)) (classes : List ClassItem), file.Grouped done classes →
      file.Grouped (done ++ todo) (todo.foldl file.combineNode classes) := by
    intro todo
    induction todo with
    | nil =>
      intro done classes grouped
      rwa [append_nil]
    | cons entry rest ih =>
      intro done classes grouped
      have stepped := ih (done ++ [entry]) _ (grouped.combineNode entry)
      rwa [append_assoc] at stepped
  have initial : file.Grouped [] [] :=
    ⟨nodup_nil, nofun, nofun⟩
  exact general (file.countedNodes filter) [] [] initial

end FileStruct

end SmartPerf.Heap
