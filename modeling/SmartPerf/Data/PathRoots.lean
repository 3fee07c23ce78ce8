import SmartPerf.Data.ObjectMap
import SmartPerf.Data.PathTree

namespace SmartPerf.Data.PathTree

open List

/-! Path trees whose roots are kept in a map and then put into groups.

Each entry has a top frame, the frames below it and a sample. Its root is found by a key that is made from the
group of the sample and the key of the top frame. -/

variable {Data Key Frame Sample Group RootKey : Type} {merging : Merging Data Frame Sample} {start : Sample → Data}

structure Entry (Frame Sample : Type) where
  top : Frame
  remaining : List Frame
  sample : Sample

/-- The root of an entry, a new one when none was found, absorbs the sample and passes it on. -/
def mergeRoot (merging : Merging Data Frame Sample) (start : Sample → Data) (entry : Entry Frame Sample)
    (found : Option (PathTree Data)) : PathTree Data :=
  let root := found.getD (node (start entry.sample) [])
  node (merging.absorb root.data entry.top entry.sample false) (merge merging entry.sample entry.remaining root.children)

/-- The samples of the entries that are chosen by their frames; a sample without frames makes no entry. -/
theorem samples_filter {frames : Sample → List Frame} {toEntry : Sample → Option (Entry Frame Sample)}
    (made_iff : ∀ sample entry,
      toEntry sample = some entry ↔ entry.sample = sample ∧ frames sample = entry.top :: entry.remaining)
    (chosen : Sample → List Frame → Bool) (samples : List Sample) :
    ((samples.filterMap toEntry).filter fun entry => chosen entry.sample (entry.top :: entry.remaining)).map Entry.sample =
      samples.filter fun sample => frames sample ≠ [] ∧ chosen sample (frames sample) := by
  induction samples with
  | nil => rfl
  | cons sample rest ih =>
    cases made : toEntry sample with
    | none =>
      have empty : frames sample = [] := by
        cases found : frames sample with
        | nil => rfl
        | cons top remaining =>
          rw [(made_iff sample ⟨top, remaining, sample⟩).mpr ⟨rfl, found⟩] at made
          cases made
      rw [filterMap_cons_none made, ih, filter_cons_of_neg (by simp [empty])]
    | some entry =>
      obtain ⟨rfl, found⟩ := (made_iff sample entry).mp made
      rw [filterMap_cons_some made, filter_cons, filter_cons, found]
      by_cases taken : chosen entry.sample (entry.top :: entry.remaining) = true <;> simp [taken, ih]

section One

variable (own : List (Entry Frame Sample)) {root : PathTree Data}

def growRoot (merging : Merging Data Frame Sample) (start : Sample → Data) (own : List (Entry Frame Sample))
    (found : Option (PathTree Data)) : Option (PathTree Data) :=
  own.foldl (fun root entry => some (mergeRoot merging start entry root)) found

theorem growRoot_children (found : Option (PathTree Data))
    (grown : growRoot merging start own found = some root) :
    root.children =
      mergeAll merging (own.map fun entry => (entry.remaining, entry.sample)) ((found.map children).getD []) := by
  induction own generalizing found with
  | nil =>
    cases grown
    rfl
  | cons entry rest ih =>
    rw [ih _ grown]
    cases found <;> rfl

theorem growRoot_eq_none_iff : growRoot merging start own none = none ↔ own = [] := by
  have kept (found : PathTree Data) (more : List (Entry Frame Sample)) :
      (growRoot merging start more (some found)).isSome := by
    induction more generalizing found with
    | nil => rfl
    | cons entry rest ih => exact ih _
  cases own with
  | nil => exact ⟨fun _ => rfl, fun _ => rfl⟩
  | cons entry rest =>
    constructor
    · intro absent
      have present := kept (mergeRoot merging start entry none) rest
      rw [growRoot, foldl_cons, ← growRoot] at absent
      rw [absent] at present
      cases present
    · intro empty
      cases empty

variable {Measure : Type} [AddCommMonoid Measure] {measure : Data → Measure} {weight : Sample → Bool → Measure}

theorem growRoot_measure (zero : ∀ sample, measure (start sample) = 0)
    (adds : ∀ data frame sample last, measure (merging.absorb data frame sample last) = measure data + weight sample last)
    (found : Option (PathTree Data)) (grown : growRoot merging start own found = some root) :
    measure root.data =
      (found.map fun tree => measure tree.data).getD 0 + (own.map fun entry => weight entry.sample false).sum := by
  induction own generalizing found with
  | nil =>
    cases grown
    simp
  | cons entry rest ih =>
    rw [ih _ grown, map_cons, sum_cons, ← add_assoc]
    cases found with
    | none => simp [mergeRoot, adds, zero]
    | some tree => simp [mergeRoot, adds]

theorem growRoot_balanced [DecidableEq Key] {key : Data → Key} {frameKey : Frame → Key} {Valid : Frame → Prop}
    {whole part : Data → Measure} {weight : Sample → Measure} (keyed : Keyed merging key frameKey Valid)
    (weighs : Weighs merging whole part weight) (startWhole : ∀ sample, whole (start sample) = 0)
    (startPart : ∀ sample, part (start sample) = 0)
    (valid : ∀ entry ∈ own, entry.remaining ≠ [] ∧ ∀ frame ∈ entry.remaining, Valid frame) (found : Option (PathTree Data))
    (before : ∀ tree, found = some tree → Balanced whole part tree ∧ Distinct key tree.children)
    (grown : growRoot merging start own found = some root) : Balanced whole part root := by
  induction own generalizing found with
  | nil => exact (before root grown).1
  | cons entry rest ih =>
    obtain ⟨deep, validEntry⟩ := valid entry mem_cons_self
    refine ih (forall_mem_of_forall_mem_cons valid) _ ?_ grown
    intro tree same
    obtain ⟨data, children, opened, sum, below, distinct⟩ : ∃ data children,
        found.getD (node (start entry.sample) []) = node data children ∧
        whole data = part data + (children.map fun child => whole child.data).sum ∧
        (∀ child ∈ children, Balanced whole part child) ∧ Distinct key children := by
      cases found with
      | none =>
        refine ⟨_, _, rfl, ?_, nofun, distinct_nil⟩
        simp [startWhole, startPart]
      | some tree =>
        obtain ⟨⟨data, children, sum, below⟩, distinct⟩ := before tree rfl
        exact ⟨data, children, rfl, sum, below, distinct⟩
    obtain ⟨belowGrown, total⟩ := merge_balanced keyed weighs entry.sample validEntry distinct below
    rw [← Option.some.inj same, mergeRoot, opened]
    refine ⟨.node _ _ ?_ belowGrown, distinct.merge keyed entry.sample validEntry⟩
    rw [data_node, children_node, weighs.whole, weighs.own, total, sum, if_neg Bool.false_ne_true, add_zero, add_assoc,
      if_neg (by simpa using deep)]

end One

section Groups

variable [DecidableEq Key] {key : Data → Key} {group : Data → Group}
  {text : Group → Key → RootKey} {frameKey : Frame → Key} {kind : Sample → Group} {Valid : Frame → Prop}

def rootKeyOf (text : Group → Key → RootKey) (frameKey : Frame → Key) (sampleGroup : Sample → Group)
    (entry : Entry Frame Sample) : RootKey :=
  text (sampleGroup entry.sample) (frameKey entry.top)

/-- A root keeps the key and the group of its first entry, and the text tells the roots apart that occur. -/
structure Grouped (merging : Merging Data Frame Sample) (start : Sample → Data) (key : Data → Key) (group : Data → Group)
    (text : Group → Key → RootKey) (frameKey : Frame → Key) (sampleGroup : Sample → Group) (Valid : Frame → Prop)
    (Occurs : Group → Key → Prop) : Prop where
  keyed : Keyed merging key frameKey Valid
  startKey : ∀ frame sample, Valid frame → key (merging.absorb (start sample) frame sample false) = frameKey frame
  startGroup : ∀ frame sample, Valid frame → group (merging.absorb (start sample) frame sample false) = sampleGroup sample
  keepGroup : ∀ data frame sample, Valid frame → key data = frameKey frame → group data = sampleGroup sample →
    group (merging.absorb data frame sample false) = sampleGroup sample
  injective : ∀ first second firstKey secondKey, Occurs first firstKey → Occurs second secondKey →
    text first firstKey = text second secondKey → first = second ∧ firstKey = secondKey

/-- The entries that a root can be made from. -/
structure Entry.Fine (frameKey : Frame → Key) (sampleGroup : Sample → Group) (Valid : Frame → Prop)
    (Occurs : Group → Key → Prop) (entry : Entry Frame Sample) : Prop where
  top : Valid entry.top
  remaining : ∀ frame ∈ entry.remaining, Valid frame
  occurs : Occurs (sampleGroup entry.sample) (frameKey entry.top)

def RootFine (key : Data → Key) (group : Data → Group) (text : Group → Key → RootKey) (Occurs : Group → Key → Prop)
    (rootKey : RootKey) (root : PathTree Data) : Prop :=
  Occurs (group root.data) (key root.data) ∧ rootKey = text (group root.data) (key root.data)

variable {Occurs : Group → Key → Prop} {entries : List (Entry Frame Sample)}

section

variable (grouped : Grouped merging start key group text frameKey kind Valid Occurs)
include grouped

section
variable {entry : Entry Frame Sample} (fine : entry.Fine frameKey kind Valid Occurs)
include fine

theorem rootFine_new :
    RootFine key group text Occurs (rootKeyOf text frameKey kind entry) (mergeRoot merging start entry none) := by
  have sameKey := grouped.startKey entry.top entry.sample fine.top
  have sameGroup := grouped.startGroup entry.top entry.sample fine.top
  simp only [RootFine, mergeRoot, Option.getD_none, data_node, sameKey, sameGroup]
  exact ⟨fine.occurs, rfl⟩

theorem same_of_rootFine {root : PathTree Data}
    (rootFine : RootFine key group text Occurs (rootKeyOf text frameKey kind entry) root) :
    group root.data = kind entry.sample ∧ key root.data = frameKey entry.top :=
  grouped.injective _ _ _ _ rootFine.1 fine.occurs rootFine.2.symm

theorem rootFine_old (root : PathTree Data)
    (rootFine : RootFine key group text Occurs (rootKeyOf text frameKey kind entry) root) :
    RootFine key group text Occurs (rootKeyOf text frameKey kind entry) (mergeRoot merging start entry (some root)) := by
  obtain ⟨sameGroup, sameKey⟩ := same_of_rootFine grouped fine rootFine
  have keepKey := grouped.keyed.absorb root.data entry.top entry.sample false fine.top sameKey
  have keepGroup := grouped.keepGroup root.data entry.top entry.sample fine.top sameKey sameGroup
  simp only [RootFine, mergeRoot, Option.getD_some, data_node, keepKey, keepGroup]
  exact ⟨fine.occurs, rfl⟩

end

end

variable [DecidableEq RootKey]

def roots (merging : Merging Data Frame Sample) (start : Sample → Data) (text : Group → Key → RootKey)
    (frameKey : Frame → Key) (sampleGroup : Sample → Group) (entries : List (Entry Frame Sample)) :
    List (RootKey × PathTree Data) :=
  upsertAll (rootKeyOf text frameKey sampleGroup) (mergeRoot merging start) entries []

omit [DecidableEq Key] in
theorem roots_nodup : ((roots merging start text frameKey kind entries).map Prod.fst).Nodup :=
  nodup_upsertAll entries nodup_nil

variable [DecidableEq Group]

def ownEntries (frameKey : Frame → Key) (sampleGroup : Sample → Group) (wanted : Group) (top : Key)
    (entries : List (Entry Frame Sample)) : List (Entry Frame Sample) :=
  entries.filter fun entry => sampleGroup entry.sample = wanted ∧ frameKey entry.top = top

def groupRoots (group : Data → Group) (wanted : Group) (roots : List (RootKey × PathTree Data)) : List (PathTree Data) :=
  (roots.map Prod.snd).filter fun root => group root.data = wanted

def passing (frameKey : Frame → Key) (sampleGroup : Sample → Group) (wanted : Group) (path : List Key)
    (entries : List (Entry Frame Sample)) : List (Entry Frame Sample) :=
  entries.filter fun entry =>
    sampleGroup entry.sample = wanted ∧ path <+: (entry.top :: entry.remaining).map frameKey

variable {Measure : Type} [AddCommMonoid Measure] {measure : Data → Measure} {weight : Sample → Bool → Measure}
  (grouped : Grouped merging start key group text frameKey kind Valid Occurs)
  (fine : ∀ entry ∈ entries, entry.Fine frameKey kind Valid Occurs)
include grouped fine

omit [DecidableEq Group] in
theorem roots_fine :
    ∀ pair ∈ roots merging start text frameKey kind entries, RootFine key group text Occurs pair.1 pair.2 :=
  fine_upsertAll entries (nofun)
    (fun entry inside => rootFine_new grouped (fine entry inside))
    (fun entry inside root => rootFine_old grouped (fine entry inside) root)

theorem find_roots {wanted : Group} {top : Key} (occurs : Occurs wanted top) :
    find (text wanted top) (roots merging start text frameKey kind entries) =
      growRoot merging start (ownEntries frameKey kind wanted top entries) none := by
  have own : entries.filter (rootKeyOf text frameKey kind · = text wanted top) =
      ownEntries frameKey kind wanted top entries := by
    apply filter_congr
    intro entry inside
    rw [decide_eq_decide]
    constructor
    · exact grouped.injective _ _ _ _ (fine entry inside).occurs occurs
    · rintro ⟨sameGroup, sameKey⟩
      rw [rootKeyOf, sameGroup, sameKey]
  rw [roots, find_upsertAll, gatherAt, own]
  rfl

theorem select_groupRoots (wanted : Group) (top : Key) :
    select key top (groupRoots group wanted (roots merging start text frameKey kind entries)) =
      (growRoot merging start (ownEntries frameKey kind wanted top entries) none).toList := by
  have allFine := roots_fine grouped fine
  by_cases occurs : Occurs wanted top
  · rw [← find_roots grouped fine occurs, select, groupRoots, filter_filter]
    apply filter_values roots_nodup
    intro pair inside
    obtain ⟨pairOccurs, pairKey⟩ := allFine pair inside
    rw [Bool.and_eq_true, decide_eq_true_eq, decide_eq_true_eq]
    constructor
    · rintro ⟨sameKey, sameGroup⟩
      rw [pairKey, sameKey, sameGroup]
    · intro same
      obtain ⟨sameGroup, sameKey⟩ := grouped.injective _ _ _ _ pairOccurs occurs (pairKey.symm.trans same)
      exact ⟨sameKey, sameGroup⟩
  · have absent : ownEntries frameKey kind wanted top entries = [] := by
      rw [ownEntries, filter_eq_nil_iff]
      intro entry inside same
      rw [decide_eq_true_eq] at same
      exact occurs (same.1 ▸ same.2 ▸ (fine entry inside).occurs)
    rw [absent, select, filter_eq_nil_iff.mpr]
    · rfl
    · intro root inside same
      rw [decide_eq_true_eq] at same
      obtain ⟨listed, sameGroup⟩ := mem_filter.mp inside
      obtain ⟨pair, inRoots, rfl⟩ := mem_map.mp listed
      rw [decide_eq_true_eq] at sameGroup
      exact occurs (sameGroup ▸ same ▸ (allFine pair inRoots).1)

variable (measure weight) in
/-- A path below a group has one node when some sample of the group runs through it and none otherwise, and a measure
of the node is the sum of the weights of these samples. A top frame never counts as the last one. -/
theorem measure_groupRoots
    (zero : measure merging.new = 0) (startZero : ∀ sample, measure (start sample) = 0)
    (adds : ∀ data frame sample last, measure (merging.absorb data frame sample last) = measure data + weight sample last)
    (wanted : Group) {path : List Key} (nonempty : path ≠ []) :
    (dataAt key path (groupRoots group wanted (roots merging start text frameKey kind entries))).map measure =
      if passing frameKey kind wanted path entries = [] then []
      else [((passing frameKey kind wanted path entries).map fun entry =>
        weight entry.sample (decide (path.length ≠ 1 ∧ path = (entry.top :: entry.remaining).map frameKey))).sum] := by
  obtain ⟨top, rest, rfl⟩ := exists_cons_of_ne_nil nonempty
  have chosen := select_groupRoots grouped fine wanted top
  have split : passing frameKey kind wanted (top :: rest) entries =
      (ownEntries frameKey kind wanted top entries).filter fun entry => rest <+: entry.remaining.map frameKey := by
    rw [passing, ownEntries, filter_filter]
    apply filter_congr
    intro entry _
    rw [← Bool.decide_and, decide_eq_decide, map_cons, cons_prefix_cons]
    constructor
    · rintro ⟨sameGroup, sameKey, runs⟩
      exact ⟨runs, sameGroup, sameKey.symm⟩
    · rintro ⟨runs, sameGroup, sameKey⟩
      exact ⟨sameGroup, sameKey.symm, runs⟩
  rw [split]
  generalize ownTop : ownEntries frameKey kind wanted top entries = own at chosen ⊢
  have topOf (entry : Entry Frame Sample) (inside : entry ∈ own) : frameKey entry.top = top := by
    rw [← ownTop] at inside
    exact (of_decide_eq_true (mem_filter.mp inside).2).2
  cases rest with
  | nil =>
    have all : (own.filter fun entry => ([] : List Key) <+: entry.remaining.map frameKey) = own :=
      filter_eq_self.mpr fun entry _ => decide_eq_true List.nil_prefix
    rw [dataAt, chosen, all]
    cases grown : growRoot merging start own none with
    | none =>
      rw [(growRoot_eq_none_iff own).mp grown]
      rfl
    | some root =>
      have some : own ≠ [] := by
        intro empty
        rw [(growRoot_eq_none_iff own).mpr empty] at grown
        cases grown
      have total := growRoot_measure own startZero adds none grown
      rw [Option.map_none, Option.getD_none, zero_add] at total
      rw [if_neg some]
      simp [total]
  | cons next more =>
    rw [dataAt, under, chosen]
    cases grown : growRoot merging start own none with
    | none =>
      rw [(growRoot_eq_none_iff own).mp grown, Option.toList_none, flatMap_nil, dataAt_nil]
      rfl
    | some root =>
      have validOwn : ∀ pair ∈ own.map fun entry => (entry.remaining, entry.sample), ∀ frame ∈ pair.1, Valid frame := by
        intro pair inside
        obtain ⟨entry, inOwn, rfl⟩ := mem_map.mp inside
        rw [← ownTop] at inOwn
        exact (fine entry (mem_of_mem_filter inOwn)).remaining
      have runs : through frameKey (next :: more) (own.map fun entry => (entry.remaining, entry.sample)) =
          (own.filter fun entry => next :: more <+: entry.remaining.map frameKey).map
            fun entry => (entry.remaining, entry.sample) := by
        rw [through, filter_map]
        rfl
      rw [Option.toList_some, flatMap_singleton, growRoot_children own none grown, Option.map_none, Option.getD_none,
        measure_mergeAll grouped.keyed zero adds validOwn (cons_ne_nil next more), runs]
      simp only [map_eq_nil_iff, map_map]
      congr 3
      apply map_congr_left
      intro entry inside
      have sameTop := topOf entry (mem_of_mem_filter inside)
      simp [sameTop]

variable (measure weight) in
theorem sum_groupRoots (startZero : ∀ sample, measure (start sample) = 0)
    (adds : ∀ data frame sample last, measure (merging.absorb data frame sample last) = measure data + weight sample last)
    (wanted : Group) :
    ((groupRoots group wanted (roots merging start text frameKey kind entries)).map fun root => measure root.data).sum =
      ((entries.filter fun entry => kind entry.sample = wanted).map fun entry => weight entry.sample false).sum := by
  have step := @sum_upsertAll RootKey (PathTree Data) (Entry Frame Sample) _ [] (rootKeyOf text frameKey kind)
    (mergeRoot merging start) (RootFine key group text Occurs) Measure _
    (fun root => if group root.data = wanted then measure root.data else 0)
    (fun entry => if kind entry.sample = wanted then weight entry.sample false else 0) entries
    (nofun)
    (fun entry inside => rootFine_new grouped (fine entry inside))
    (fun entry inside root => rootFine_old grouped (fine entry inside) root)
    (by
      intro entry inside
      simp [mergeRoot, data_node, grouped.startGroup _ _ (fine entry inside).top, adds, startZero])
    (by
      intro entry inside root rootFine
      obtain ⟨sameGroup, sameKey⟩ := same_of_rootFine grouped (fine entry inside) rootFine
      have keepGroup := grouped.keepGroup root.data entry.top entry.sample (fine entry inside).top sameKey sameGroup
      simp only [mergeRoot, Option.getD_some, data_node, keepGroup, sameGroup, adds]
      split
      · rfl
      · rw [add_zero])
  rw [map_nil, sum_nil, zero_add] at step
  rw [groupRoots, sum_filter_map, sum_filter_map, map_map]
  exact step

theorem groupRoots_eq_nil_iff (wanted : Group) :
    groupRoots group wanted (roots merging start text frameKey kind entries) = [] ↔
      ∀ entry ∈ entries, kind entry.sample ≠ wanted := by
  have chosen := select_groupRoots grouped fine wanted
  constructor
  · intro empty entry inside same
    have absent := chosen (frameKey entry.top)
    rw [empty] at absent
    have own : entry ∈ ownEntries frameKey kind wanted (frameKey entry.top) entries :=
      mem_filter.mpr ⟨inside, decide_eq_true ⟨same, rfl⟩⟩
    cases grown : growRoot merging start (ownEntries frameKey kind wanted (frameKey entry.top) entries) none with
    | none =>
      rw [(growRoot_eq_none_iff _).mp grown] at own
      cases own
    | some root =>
      rw [grown] at absent
      cases absent
  · intro other
    rw [eq_nil_iff_forall_not_mem]
    intro root inside
    have own : ownEntries frameKey kind wanted (key root.data) entries = [] := by
      rw [ownEntries, filter_eq_nil_iff]
      intro entry listed same
      exact other entry listed (of_decide_eq_true same).1
    have taken : root ∈ select key (key root.data)
        (groupRoots group wanted (roots merging start text frameKey kind entries)) :=
      mem_filter.mpr ⟨inside, decide_eq_true rfl⟩
    rw [chosen, own] at taken
    cases taken

end Groups

section GroupNodes

variable [DecidableEq Group] {groupOf : PathTree Data → Group} {new : PathTree Data → Data} {add : Data → PathTree Data → Data}

def joinGroup (new : PathTree Data → Data) (add : Data → PathTree Data → Data) (root : PathTree Data)
    (found : Option (PathTree Data)) : PathTree Data :=
  match found with
  | none => node (new root) [root]
  | some group => node (add group.data root) (group.children ++ [root])

def groupNodes (groupOf : PathTree Data → Group) (new : PathTree Data → Data) (add : Data → PathTree Data → Data)
    (trees : List (PathTree Data)) : List (Group × PathTree Data) :=
  upsertAll groupOf (joinGroup new add) trees []

variable (trees : List (PathTree Data))

theorem groupNodes_nodup : ((groupNodes groupOf new add trees).map Prod.fst).Nodup :=
  nodup_upsertAll trees nodup_nil

variable {Measure : Type} [AddCommMonoid Measure] {measure : Data → Measure} {part : PathTree Data → Measure}

theorem growGroup_spec (adds : ∀ data root, measure (add data root) = measure data + part root) (own : List (PathTree Data))
    (group grown : PathTree Data)
    (grows : own.foldl (fun found root => some (joinGroup new add root found)) (some group) = some grown)
    (total : measure group.data = (group.children.map part).sum) :
    grown.children = group.children ++ own ∧ measure grown.data = (grown.children.map part).sum := by
  induction own generalizing group with
  | nil =>
    cases grows
    exact ⟨(append_nil _).symm, total⟩
  | cons root rest ih =>
    have joined : measure (joinGroup new add root (some group)).data =
        ((joinGroup new add root (some group)).children.map part).sum := by
      simp [joinGroup, adds, total]
    obtain ⟨sameChildren, sameTotal⟩ := ih _ grows joined
    refine ⟨?_, sameTotal⟩
    rw [sameChildren]
    exact append_assoc group.children [root] rest

theorem mem_groupNodes_iff (wanted : Group) :
    wanted ∈ (groupNodes groupOf new add trees).map Prod.fst ↔ ∃ root ∈ trees, groupOf root = wanted := by
  rw [groupNodes, mem_keys_upsertAll]
  constructor
  · rintro (old | root)
    · cases old
    · exact root
  · exact .inr

variable (measure part) in
theorem groupNodes_spec (opens : ∀ root, measure (new root) = part root)
    (adds : ∀ data root, measure (add data root) = measure data + part root) {trees : List (PathTree Data)} {wanted : Group}
    {node : PathTree Data} (inside : (wanted, node) ∈ groupNodes groupOf new add trees) :
    node.children = trees.filter (groupOf · = wanted) ∧ node.children ≠ [] ∧
      measure node.data = (node.children.map part).sum := by
  have found : find wanted (groupNodes groupOf new add trees) = some node := find_of_mem (groupNodes_nodup trees) inside
  rw [groupNodes, find_upsertAll, gatherAt] at found
  cases own : trees.filter (groupOf · = wanted) with
  | nil =>
    rw [own] at found
    cases found
  | cons root more =>
    have total : measure (joinGroup new add root none).data =
        ((joinGroup new add root none).children.map part).sum := by
      simpa [joinGroup] using opens root
    rw [own, foldl_cons] at found
    obtain ⟨sameChildren, sameTotal⟩ := growGroup_spec adds more _ node found total
    refine ⟨sameChildren, ?_, sameTotal⟩
    rw [sameChildren]
    exact cons_ne_nil root more

end GroupNodes


end SmartPerf.Data.PathTree
