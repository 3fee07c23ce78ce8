import SmartPerf.Data.Run
import SmartPerf.Heap.ClassDifference

namespace SmartPerf.Heap

open Data List FileStruct ConstructorComparison

/-! What a comparison of two files accounts for. -/

namespace FileStruct

variable (file other : FileStruct)

def counted : List (HeapNode × Nat) := file.countedNodes (inRange none)

def allClasses : List ClassItem := file.combineNodeWithClassName (inRange none)

/-- The other file has a counted node of the same class with the same id. -/
def matchedIn (entry : HeapNode × Nat) : Bool :=
  other.counted.any fun match_ => other.className match_ = file.className entry ∧ nodeId match_ = nodeId entry

def unmatched : List (HeapNode × Nat) := file.counted.filter fun entry => !file.matchedIn other entry
def shared : List (HeapNode × Nat) := file.counted.filter (file.matchedIn other)

def ClassesOccurIn : Prop := ∀ entry ∈ file.counted, ∃ match_ ∈ other.counted, other.className match_ = file.className entry

end FileStruct

/-- The differences sum up to those of the files, list all nodes that only one of them has, and lead
to these nodes. -/
structure Accounts (interface : HeapDataInterface) (base target : FileStruct) (reply : List ConstructorComparison) : Prop where
  count : (reply.map deltaCount).sum = (base.counted.length : Int) - target.counted.length
  size : (reply.map deltaSize).sum = (totalSize base.counted : Int) - totalSize target.counted
  added : ∀ entry ∈ base.unmatched target, ∃ diff ∈ reply, entry.2 ∈ diff.addedIndx
  removed : ∀ entry ∈ target.unmatched base, ∃ diff ∈ reply, entry.2 ∈ diff.deletedIdx
  resolved : ∀ diff ∈ reply, ∃ added removed : List (HeapNode × Nat),
    (∀ entry ∈ added, entry ∈ base.unmatched target ∧ base.className entry = diff.nodeName) ∧
    (∀ entry ∈ removed, entry ∈ target.unmatched base ∧ target.className entry = diff.nodeName) ∧
    diff.addedIndx = added.map Prod.snd ∧ diff.deletedIdx = removed.map Prod.snd ∧
    interface.getNextForComparison diff = some (added.map base.addedNode ++ removed.map target.removedNode)

section Nodes

variable {base target : FileStruct} {entry : HeapNode × Nat}

theorem FileStruct.mem_counted (inside : entry ∈ base.counted) : base.snapshot.nodes[entry.2]? = some entry.1 := by
  exact mem_zipIdx_iff_getElem?.mp (mem_filter.mp inside).1

theorem FileStruct.eq_of_index {first second : HeapNode × Nat} (firstInside : first ∈ base.counted)
    (secondInside : second ∈ base.counted) (same : first.2 = second.2) : first = second := by
  have firstFound := mem_counted firstInside
  have secondFound := mem_counted secondInside
  rw [same, secondFound] at firstFound
  exact Prod.ext (Option.some.inj firstFound).symm same

theorem FileStruct.counted_nodup (distinct : (base.snapshot.nodes.map HeapNode.id).Nodup) : (base.counted.map nodeId).Nodup := by
  have all : (base.snapshot.nodes.zipIdx.map nodeId) = base.snapshot.nodes.map HeapNode.id := by
    have split : nodeId = HeapNode.id ∘ Prod.fst := rfl
    rw [split, ← map_map, zipIdx_map_fst]
  rw [← all] at distinct
  exact distinct.sublist (filter_sublist.map nodeId)

def classOnlyIn (base target : FileStruct) (name : String) : List (HeapNode × Nat) :=
  onlyIn nodeId (base.sortedMembers base.counted name) (target.sortedMembers target.counted name)

theorem matchedIn_iff {name : String} (named : base.className entry = name) :
    nodeId entry ∈ (target.sortedMembers target.counted name).map nodeId ↔ base.matchedIn target entry = true := by
  rw [FileStruct.matchedIn, any_eq_true, mem_map]
  constructor
  · intro ⟨match_, inside, same⟩
    rw [(target.sortedMembers_perm target.counted name).mem_iff] at inside
    obtain ⟨member, alike⟩ := mem_filter.mp inside
    refine ⟨match_, member, decide_eq_true ⟨?_, same⟩⟩
    rw [of_decide_eq_true alike, named]
  · intro ⟨match_, member, alike⟩
    obtain ⟨sameClass, sameId⟩ := of_decide_eq_true alike
    refine ⟨match_, (target.sortedMembers_perm target.counted name).mem_iff.mpr (mem_filter.mpr ⟨member, ?_⟩), sameId⟩
    exact decide_eq_true (sameClass.trans named)

theorem classOnlyIn_perm (base target : FileStruct) (name : String) :
    (classOnlyIn base target name).Perm ((base.unmatched target).filter (base.className · = name)) := by
  have sorted := (base.sortedMembers_perm base.counted name).filter
    fun entry => decide (nodeId entry ∉ (target.sortedMembers target.counted name).map nodeId)
  refine sorted.trans (List.Perm.of_eq ?_)
  rw [members, FileStruct.unmatched, filter_filter, filter_filter]
  refine filter_congr fun entry _ => ?_
  by_cases named : base.className entry = name
  · simp [named, matchedIn_iff named]
  · simp [named]

theorem mem_classOnlyIn {name : String} :
    entry ∈ classOnlyIn base target name ↔ entry ∈ base.unmatched target ∧ base.className entry = name := by
  rw [(classOnlyIn_perm base target name).mem_iff, mem_filter, decide_eq_true_eq]

theorem shared_length (baseDistinct : (base.counted.map nodeId).Nodup) (targetDistinct : (target.counted.map nodeId).Nodup) :
    (base.shared target).length = (target.shared base).length := by
  have unique : ∀ {file other : FileStruct}, (file.counted.map nodeId).Nodup →
      ((file.shared other).map fun entry => (file.className entry, nodeId entry)).Nodup := by
    intro file other distinct
    have ids : ((file.shared other).map nodeId).Nodup := distinct.sublist (filter_sublist.map nodeId)
    apply List.Nodup.of_map Prod.snd
    rwa [map_map]
  have included : ∀ {file other : FileStruct} {key : String × Nat},
      key ∈ (file.shared other).map (fun entry => (file.className entry, nodeId entry)) →
      key ∈ (other.shared file).map fun entry => (other.className entry, nodeId entry) := by
    intro file other key inside
    obtain ⟨entry, member, rfl⟩ := mem_map.mp inside
    obtain ⟨counted, matched⟩ := mem_filter.mp member
    obtain ⟨match_, found, alike⟩ := any_eq_true.mp matched
    obtain ⟨sameClass, sameId⟩ := of_decide_eq_true alike
    refine mem_map.mpr ⟨match_, mem_filter.mpr ⟨found, ?_⟩, Prod.ext sameClass sameId⟩
    exact any_eq_true.mpr ⟨entry, counted, decide_eq_true ⟨sameClass.symm, sameId.symm⟩⟩
  have same := (perm_ext_iff_of_nodup (unique baseDistinct) (unique targetDistinct)).mpr
    fun _ => ⟨included, included⟩
  simpa using same.length_eq

theorem counted_perm (base target : FileStruct) : (base.shared target ++ base.unmatched target).Perm base.counted :=
  filter_append_perm _ _

theorem sum_classes {names : List String} (unique : names.Nodup) (entries : List (HeapNode × Nat))
    (className : HeapNode × Nat → String) (value : HeapNode × Nat → Nat) (covered : ∀ entry ∈ entries, className entry ∈ names) :
    (names.map fun name => ((entries.filter (className · = name)).map value).sum).sum = (entries.map value).sum := by
  induction entries with
  | nil => simp
  | cons entry rest ih =>
    have split : ∀ name, (((entry :: rest).filter (className · = name)).map value).sum =
        (if name = className entry then value entry else 0) + ((rest.filter (className · = name)).map value).sum := by
      intro name
      by_cases same : className entry = name
      · simp [same]
      · simp [same, Ne.symm same]
    simp only [split]
    rw [sum_map_add, ← sum_toFinset _ unique, Finset.sum_ite_eq', if_pos (mem_toFinset.mpr (covered entry mem_cons_self)),
      ih (forall_mem_of_forall_mem_cons covered), map_cons, sum_cons]

end Nodes

section Compare

variable {base target : FileStruct}

def FileStruct.classNames (file : FileStruct) : List String := file.allClasses.map fun classItem => classItem.nodeName

theorem FileStruct.grouped (file : FileStruct) : file.Grouped file.counted file.allClasses :=
  file.grouped_combineNodeWithClassName (inRange none)

theorem FileStruct.mem_classNames {file : FileStruct} {name : String} :
    name ∈ file.classNames ↔ ∃ entry ∈ file.counted, file.className entry = name := by
  rw [classNames, mem_map]
  constructor
  · intro ⟨classItem, inside, named⟩
    obtain ⟨entry, member⟩ := exists_mem_of_ne_nil _ (file.grouped.represents classItem inside).inhabited
    obtain ⟨counted, alike⟩ := mem_filter.mp member
    exact ⟨entry, counted, (of_decide_eq_true alike).trans named⟩
  · intro ⟨entry, counted, named⟩
    obtain ⟨classItem, inside, same⟩ := file.grouped.complete entry counted
    exact ⟨classItem, inside, same.trans named⟩

def ownNames (base target : FileStruct) : List String := base.classNames.filter fun name => decide (name ∉ target.classNames)

theorem compareClasses_eq (baseDistinct : (base.counted.map nodeId).Nodup)
    (targetDistinct : (target.counted.map nodeId).Nodup) :
    compareClasses base.id base.allClasses target.allClasses =
      (target.classNames.filterMap fun name =>
        describe base.id target.id name (classOnlyIn base target name) (classOnlyIn target base name)) ++
      (ownNames base target).filterMap fun name => describe base.id base.id name [] (base.sortedMembers base.counted name) := by
  rw [compareClasses]
  congr 1
  · rw [FileStruct.classNames, filterMap_map]
    refine filterMap_congr fun classItem inside => ?_
    exact calClassDiff_target base.grouped (target.grouped.represents classItem inside) baseDistinct targetDistinct
  · have names : base.classNames = base.allClasses.map fun classItem => classItem.nodeName := rfl
    rw [ownNames, names, filter_map, filterMap_map]
    have alone : (base.allClasses.filter fun classItem => !target.allClasses.any (·.nodeName = classItem.nodeName)) =
        base.allClasses.filter ((fun name => decide (name ∉ target.classNames)) ∘ fun classItem => classItem.nodeName) := by
      refine filter_congr fun classItem _ => ?_
      rw [Bool.eq_iff_iff]
      simp [FileStruct.classNames]
    rw [alone]
    refine filterMap_congr fun classItem inside => ?_
    exact calClassDiff_alone (base.grouped.represents classItem (mem_filter.mp inside).1) baseDistinct

theorem ownNames_eq_nil_iff : ownNames base target = [] ↔ base.ClassesOccurIn target := by
  rw [ownNames, filter_eq_nil_iff]
  constructor
  · intro none entry counted
    have known := none _ (mem_classNames.mpr ⟨entry, counted, rfl⟩)
    rw [decide_eq_true_eq, not_not] at known
    exact mem_classNames.mp known
  · intro occur name own
    obtain ⟨entry, counted, rfl⟩ := mem_classNames.mp own
    rw [decide_eq_true_eq, not_not]
    exact mem_classNames.mpr (occur entry counted)

variable {names : List String}

theorem sum_intSub (first second : String → Nat) :
    (names.map fun name => (first name : Int) - second name).sum = ((names.map first).sum : Int) - (names.map second).sum := by
  induction names with
  | nil => rfl
  | cons name rest ih =>
    rw [map_cons, sum_cons, ih, map_cons, sum_cons, map_cons, sum_cons]
    push_cast
    ring

theorem sum_classOnlyIn {first second : FileStruct} (value : HeapNode × Nat → Nat) (unique : names.Nodup)
    (covered : ∀ entry ∈ first.counted, first.className entry ∈ names) :
    (names.map fun name => ((classOnlyIn first second name).map value).sum).sum =
      ((first.unmatched second).map value).sum := by
  rw [← sum_classes unique (first.unmatched second) first.className value
    fun entry inside => covered entry (mem_filter.mp inside).1]
  congr 1
  refine map_congr_left fun name _ => ?_
  exact ((classOnlyIn_perm first second name).map value).sum_eq

theorem mapM_nodeAt {file : FileStruct} {entries : List (HeapNode × Nat)} (inside : ∀ entry ∈ entries, entry ∈ file.counted) :
    (entries.map Prod.snd).mapM file.nodeAt = some entries := by
  induction entries with
  | nil => rfl
  | cons entry rest ih =>
    have found : file.nodeAt entry.2 = some entry := by
      rw [nodeAt, mem_counted (inside entry mem_cons_self)]
      rfl
    rw [map_cons, mapM_cons, found, ih (forall_mem_of_forall_mem_cons inside)]
    rfl

variable {interface : HeapDataInterface} {reply : List ConstructorComparison}

variable {diff : ConstructorComparison}

theorem getNextForComparison_eq {baseLoader targetLoader : HeapLoader}
    (baseFound : interface.getFileStructById diff.fileId = some baseLoader)
    (targetFound : interface.getFileStructById diff.targetFileId = some targetLoader) {added removed : List (HeapNode × Nat)}
    (addedIndx : diff.addedIndx = added.map Prod.snd) (deletedIdx : diff.deletedIdx = removed.map Prod.snd)
    (addedInside : ∀ entry ∈ added, entry ∈ baseLoader.file.counted)
    (removedInside : ∀ entry ∈ removed, entry ∈ targetLoader.file.counted) :
    interface.getNextForComparison diff =
      some (added.map baseLoader.file.addedNode ++ removed.map targetLoader.file.removedNode) := by
  simp [HeapDataInterface.getNextForComparison, baseFound, targetFound, addedIndx, deletedIdx, mapM_nodeAt addedInside, mapM_nodeAt removedInside]

theorem sum_shared (occur : base.ClassesOccurIn target) (value : HeapNode × Nat → Nat) :
    (target.classNames.map fun name =>
        (((classOnlyIn base target name).map value).sum : Int) - ((classOnlyIn target base name).map value).sum).sum +
      ((base.shared target).map value).sum - ((target.shared base).map value).sum =
      ((base.counted.map value).sum : Int) - (target.counted.map value).sum := by
  have baseCovered : ∀ entry ∈ base.counted, base.className entry ∈ target.classNames :=
    fun entry counted => mem_classNames.mpr (occur entry counted)
  have targetCovered : ∀ entry ∈ target.counted, target.className entry ∈ target.classNames :=
    fun entry counted => mem_classNames.mpr ⟨entry, counted, rfl⟩
  have unique : target.classNames.Nodup := target.grouped.names
  have baseSplit := ((counted_perm base target).map value).sum_eq
  have targetSplit := ((counted_perm target base).map value).sum_eq
  rw [map_append, sum_append] at baseSplit targetSplit
  rw [sum_intSub, sum_classOnlyIn value unique baseCovered, sum_classOnlyIn value unique targetCovered]
  omega

variable (baseDistinct : (base.counted.map nodeId).Nodup) (targetDistinct : (target.counted.map nodeId).Nodup)
  (order : reply.Perm (compareClasses base.id base.allClasses target.allClasses))
include baseDistinct targetDistinct order

theorem mem_reply : diff ∈ reply ↔
    (∃ name ∈ target.classNames, describe base.id target.id name (classOnlyIn base target name)
      (classOnlyIn target base name) = some diff) ∨
    ∃ name ∈ ownNames base target, describe base.id base.id name [] (base.sortedMembers base.counted name) = some diff := by
  rw [order.mem_iff, compareClasses_eq baseDistinct targetDistinct, mem_append, mem_filterMap, mem_filterMap]

theorem occurs_of_listed {entry : HeapNode × Nat} (counted : entry ∈ base.counted)
    (inside : diff ∈ reply) (listed : entry.2 ∈ diff.addedIndx) : base.className entry ∈ target.classNames := by
  rcases (mem_reply baseDistinct targetDistinct order).mp inside with ⟨name, known, described⟩ | ⟨name, own, described⟩
  · obtain ⟨-, -, -, addedIndx, -, -, -⟩ := describe_some described
    rw [addedIndx] at listed
    obtain ⟨found, only, same⟩ := mem_map.mp listed
    obtain ⟨unmatched, named⟩ := mem_classOnlyIn.mp only
    rwa [← eq_of_index (mem_filter.mp unmatched).1 counted same, named]
  · obtain ⟨-, -, -, addedIndx, -, -, -⟩ := describe_some described
    rw [addedIndx] at listed
    cases listed

theorem occur_of_accounts (accounts : Accounts interface base target reply) : base.ClassesOccurIn target := by
  intro entry counted
  cases matched : base.matchedIn target entry with
  | true =>
    obtain ⟨match_, found, alike⟩ := any_eq_true.mp matched
    exact ⟨match_, found, (of_decide_eq_true alike).1⟩
  | false =>
    obtain ⟨diff, inside, listed⟩ := accounts.added entry (mem_filter.mpr ⟨counted, by rw [matched]; rfl⟩)
    exact mem_classNames.mp (occurs_of_listed baseDistinct targetDistinct order counted inside listed)

variable (occur : base.ClassesOccurIn target)
include occur

theorem mem_reply_of_occur : diff ∈ reply ↔
    ∃ name ∈ target.classNames, describe base.id target.id name (classOnlyIn base target name)
      (classOnlyIn target base name) = some diff := by
  rw [mem_reply baseDistinct targetDistinct order, ownNames_eq_nil_iff.mpr occur]
  simp

theorem sum_reply (value : ConstructorComparison → Int) (weight : HeapNode × Nat → Nat)
    (agrees : ∀ fileId targetFileId name added removed diff,
      describe fileId targetFileId name added removed = some diff →
        value diff = ((added.map weight).sum : Int) - (removed.map weight).sum) :
    (reply.map value).sum + ((base.shared target).map weight).sum - ((target.shared base).map weight).sum =
      ((base.counted.map weight).sum : Int) - (target.counted.map weight).sum := by
  rw [(order.map _).sum_eq, compareClasses_eq baseDistinct targetDistinct, ownNames_eq_nil_iff.mpr occur,
    filterMap_nil, append_nil, sum_describe value _ agrees rfl]
  exact sum_shared occur weight

theorem sum_deltaCount : (reply.map deltaCount).sum = (base.counted.length : Int) - target.counted.length := by
  have counts := sum_reply baseDistinct targetDistinct order occur deltaCount (fun _ => 1) (by
    intro _ _ _ _ _ _ described
    simp [(describe_some described).2.2.2.2.2.1])
  simp only [map_const', sum_replicate, smul_eq_mul] at counts
  rw [shared_length baseDistinct targetDistinct] at counts
  omega

theorem sum_deltaSize :
    (reply.map deltaSize).sum + totalSize (base.shared target) - totalSize (target.shared base) =
      (totalSize base.counted : Int) - totalSize target.counted :=
  sum_reply baseDistinct targetDistinct order occur deltaSize (·.1.selfSize)
    fun _ _ _ _ _ _ described => (describe_some described).2.2.2.2.2.2

theorem exists_diff {name : String} (known : name ∈ target.classNames) {entry : HeapNode × Nat}
    (inside : entry ∈ classOnlyIn base target name ∨ entry ∈ classOnlyIn target base name) :
    ∃ diff ∈ reply, diff.addedIndx = (classOnlyIn base target name).map Prod.snd ∧
      diff.deletedIdx = (classOnlyIn target base name).map Prod.snd := by
  cases described : describe base.id target.id name (classOnlyIn base target name) (classOnlyIn target base name) with
  | none =>
    obtain ⟨noneAdded, noneRemoved⟩ := describe_none described
    rw [noneAdded, noneRemoved] at inside
    rcases inside with absurd | absurd <;> cases absurd
  | some diff =>
    obtain ⟨-, -, -, addedIndx, deletedIdx, -, -⟩ := describe_some described
    exact ⟨diff, (mem_reply_of_occur baseDistinct targetDistinct order occur).mpr ⟨name, known, described⟩, addedIndx,
      deletedIdx⟩

/-- The differences, in any order, account for the two files exactly when every class of the base is one
of the target and the nodes that both have take the same room in both. -/
theorem accounts_of_occur (sameSize : totalSize (base.shared target) = totalSize (target.shared base))
    (baseFound : (interface.getFileStructById base.id).map HeapLoader.file = some base)
    (targetFound : (interface.getFileStructById target.id).map HeapLoader.file = some target) :
    Accounts interface base target reply where
  count := sum_deltaCount baseDistinct targetDistinct order occur
  size := by
    have sizes := sum_deltaSize baseDistinct targetDistinct order occur
    omega
  added := by
    intro entry alone
    have known := mem_classNames.mpr (occur entry (mem_filter.mp alone).1)
    have only := mem_classOnlyIn.mpr ⟨alone, rfl⟩
    obtain ⟨diff, inside, addedIndx, -⟩ := exists_diff baseDistinct targetDistinct order occur known (.inl only)
    exact ⟨diff, inside, addedIndx ▸ mem_map_of_mem only⟩
  removed := by
    intro entry alone
    have known := mem_classNames.mpr ⟨entry, (mem_filter.mp alone).1, rfl⟩
    have only := mem_classOnlyIn.mpr ⟨alone, rfl⟩
    obtain ⟨diff, inside, -, deletedIdx⟩ := exists_diff baseDistinct targetDistinct order occur known (.inr only)
    exact ⟨diff, inside, deletedIdx ▸ mem_map_of_mem only⟩
  resolved := by
    intro diff inside
    obtain ⟨name, known, described⟩ := (mem_reply_of_occur baseDistinct targetDistinct order occur).mp inside
    obtain ⟨fileId, targetFileId, nodeName, addedIndx, deletedIdx, -, -⟩ := describe_some described
    obtain ⟨baseLoader, baseLoaded, rfl⟩ := Option.map_eq_some_iff.mp baseFound
    obtain ⟨targetLoader, targetLoaded, rfl⟩ := Option.map_eq_some_iff.mp targetFound
    refine ⟨_, _, fun entry only => nodeName ▸ mem_classOnlyIn.mp only, fun entry only => nodeName ▸ mem_classOnlyIn.mp only,
      addedIndx, deletedIdx, ?_⟩
    refine getNextForComparison_eq (fileId ▸ baseLoaded) (targetFileId ▸ targetLoaded) addedIndx deletedIdx ?_ ?_
    · exact fun entry only => (mem_filter.mp (mem_classOnlyIn.mp only).1).1
    · exact fun entry only => (mem_filter.mp (mem_classOnlyIn.mp only).1).1

end Compare

end SmartPerf.Heap
