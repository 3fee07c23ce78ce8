import Mathlib.Algebra.BigOperators.Group.List.Basic
import Mathlib.Tactic

namespace SmartPerf.Data

open List

/-! Trees that gather samples along their paths.

A sample comes with a list of frames. Merging it follows the frames from the roots down, lets every node on the
way absorb the sample and grows the part of the path that is not there. A node then stands for the path of keys
that leads to it, and its data is what the samples that run through that path have made of a new node. -/

inductive PathTree (Data : Type) where
  | node (data : Data) (children : List (PathTree Data))

namespace PathTree

variable {Data Key Frame Sample : Type}

def data : PathTree Data → Data
  | node data _ => data

def children : PathTree Data → List (PathTree Data)
  | node _ children => children

@[simp] theorem data_node (data : Data) (children : List (PathTree Data)) : (node data children).data = data := rfl

@[simp] theorem children_node (data : Data) (children : List (PathTree Data)) : (node data children).children = children := rfl

/-- What a node does with a sample; the flag says that the frame is the last one. -/
structure Merging (Data Frame Sample : Type) where
  fits : Data → Frame → Bool
  new : Data
  absorb : Data → Frame → Sample → Bool → Data

/-- Every tree that fits absorbs the sample, and the last of them passes it on. -/
def mergeFitting (fits : Data → Bool) (absorb : Data → Data) (descend : List (PathTree Data) → List (PathTree Data)) :
    List (PathTree Data) → List (PathTree Data)
  | [] => []
  | tree :: rest =>
    if fits tree.data then
      node (absorb tree.data) (if rest.any (fits ·.data) then tree.children else descend tree.children) ::
        mergeFitting fits absorb descend rest
    else tree :: mergeFitting fits absorb descend rest

def merge (merging : Merging Data Frame Sample) (sample : Sample) :
    List Frame → List (PathTree Data) → List (PathTree Data)
  | [], forest => forest
  | frame :: rest, forest =>
    if forest.any (merging.fits ·.data frame) then
      mergeFitting (merging.fits · frame) (merging.absorb · frame sample rest.isEmpty) (merge merging sample rest) forest
    else forest ++ [node (merging.absorb merging.new frame sample rest.isEmpty) (merge merging sample rest [])]

def mergeAll (merging : Merging Data Frame Sample) (entries : List (List Frame × Sample)) (forest : List (PathTree Data)) :
    List (PathTree Data) :=
  entries.foldl (fun forest entry => merge merging entry.2 entry.1 forest) forest

section Paths

variable [DecidableEq Key] (key : Data → Key)

def select (wanted : Key) (forest : List (PathTree Data)) : List (PathTree Data) :=
  forest.filter fun tree => key tree.data = wanted

def under (wanted : Key) (forest : List (PathTree Data)) : List (PathTree Data) :=
  (select key wanted forest).flatMap children

def dataAt : List Key → List (PathTree Data) → List Data
  | [], _ => []
  | [last], forest => (select key last forest).map data
  | first :: next :: rest, forest => dataAt (next :: rest) (under key first forest)

def Distinct (forest : List (PathTree Data)) : Prop := ∀ path, (dataAt key path forest).length ≤ 1

variable {key} {forest : List (PathTree Data)} {tree : PathTree Data} {wanted : Key}

theorem select_cons_of_eq (same : key tree.data = wanted) :
    select key wanted (tree :: forest) = tree :: select key wanted forest :=
  filter_cons_of_pos (decide_eq_true same)

theorem select_cons_of_ne (other : key tree.data ≠ wanted) :
    select key wanted (tree :: forest) = select key wanted forest :=
  filter_cons_of_neg (by simpa using other)

theorem select_append (more : List (PathTree Data)) :
    select key wanted (forest ++ more) = select key wanted forest ++ select key wanted more :=
  filter_append forest more

theorem dataAt_nil (path : List Key) : dataAt key path [] = [] := by
  induction path with
  | nil => rfl
  | cons first rest ih =>
    cases rest with
    | nil => rfl
    | cons next rest =>
      exact ih

theorem distinct_nil : Distinct key ([] : List (PathTree Data)) := by
  intro path
  rw [dataAt_nil]
  exact Nat.zero_le 1

theorem Distinct.under (distinct : Distinct key forest) (wanted : Key) : Distinct key (under key wanted forest) := by
  intro path
  cases path with
  | nil => exact Nat.zero_le 1
  | cons next rest => exact distinct (wanted :: next :: rest)

theorem Distinct.select (distinct : Distinct key forest) (wanted : Key) :
    select key wanted forest = [] ∨ ∃ tree, select key wanted forest = [tree] := by
  have atMost := distinct [wanted]
  rw [dataAt, length_map] at atMost
  match found : PathTree.select key wanted forest with
  | [] => exact .inl rfl
  | [tree] => exact .inr ⟨tree, rfl⟩
  | first :: second :: rest =>
    rw [found] at atMost
    simp at atMost

theorem dataAt_map {Measure : Type} {measure : Data → Measure} {change : PathTree Data → PathTree Data}
    (sameKey : ∀ tree, key (change tree).data = key tree.data) (sameChildren : ∀ tree, (change tree).children = tree.children)
    (sameMeasure : ∀ tree, measure (change tree).data = measure tree.data) (path : List Key) :
    (dataAt key path (forest.map change)).map measure = (dataAt key path forest).map measure := by
  have selected (wanted : Key) : select key wanted (forest.map change) = (select key wanted forest).map change := by
    rw [select, select, filter_map]
    congr 1
    apply filter_congr
    intro tree _
    rw [Function.comp_apply, sameKey]
  match path with
  | [] => rfl
  | [last] => simp only [dataAt, selected, map_map, Function.comp_def, sameMeasure]
  | first :: next :: rest => simp only [dataAt, under, selected, flatMap_map, sameChildren]

end Paths

/-- The keys of nodes and frames agree, and a node keeps its key. -/
structure Keyed [DecidableEq Key] (merging : Merging Data Frame Sample) (key : Data → Key) (frameKey : Frame → Key)
    (Valid : Frame → Prop) : Prop where
  fits : ∀ data frame, Valid frame → merging.fits data frame = decide (key data = frameKey frame)
  new : ∀ frame sample last, Valid frame → key (merging.absorb merging.new frame sample last) = frameKey frame
  absorb : ∀ data frame sample last, Valid frame → key data = frameKey frame →
    key (merging.absorb data frame sample last) = frameKey frame

section Merge

variable [DecidableEq Key] {key : Data → Key} {forest : List (PathTree Data)}

theorem mergeFitting_eq {fits : Data → Bool} {absorb : Data → Data} {descend : List (PathTree Data) → List (PathTree Data)}
    {before after : List (PathTree Data)} {tree : PathTree Data} (early : ∀ other ∈ before, fits other.data = false)
    (fit : fits tree.data = true) (late : ∀ other ∈ after, fits other.data = false) :
    mergeFitting fits absorb descend (before ++ tree :: after) =
      before ++ node (absorb tree.data) (descend tree.children) :: after := by
  have untouched (trees : List (PathTree Data)) (misfits : ∀ other ∈ trees, fits other.data = false) :
      mergeFitting fits absorb descend trees = trees := by
    induction trees with
    | nil => rfl
    | cons first rest ih =>
      rw [mergeFitting, if_neg (by simp [misfits first mem_cons_self]), ih (forall_mem_of_forall_mem_cons misfits)]
  induction before with
  | nil =>
    have noMore : after.any (fits ·.data) = false := by
      rw [any_eq_false]
      intro other inside
      simp [late other inside]
    rw [nil_append, nil_append, mergeFitting, if_pos fit, untouched after late, noMore]
    rfl
  | cons first rest ih =>
    rw [cons_append, mergeFitting, if_neg (by simp [early first mem_cons_self]),
      ih (forall_mem_of_forall_mem_cons early)]
    rfl

variable {merging : Merging Data Frame Sample} {frameKey : Frame → Key} {Valid : Frame → Prop} {frames : List Frame}

section
variable (keyed : Keyed merging key frameKey Valid) {frame : Frame} {rest : List Frame}
include keyed

/-- The one tree with the first frame's key absorbs the sample and passes it on; where there is none, a new one grows. -/
theorem merge_cons (valid : Valid frame) (sample : Sample)
    (rest : List Frame) (distinct : Distinct key forest) :
    (select key (frameKey frame) forest = [] ∧ merge merging sample (frame :: rest) forest =
      forest ++ [node (merging.absorb merging.new frame sample rest.isEmpty) (merge merging sample rest [])]) ∨
    ∃ before tree after, forest = before ++ tree :: after ∧ key tree.data = frameKey frame ∧
      select key (frameKey frame) before = [] ∧ select key (frameKey frame) after = [] ∧
      merge merging sample (frame :: rest) forest = before ++
        node (merging.absorb tree.data frame sample rest.isEmpty) (merge merging sample rest tree.children) :: after := by
  have misfits {trees : List (PathTree Data)} (none : select key (frameKey frame) trees = []) :
      ∀ other ∈ trees, merging.fits other.data frame = false := by
    intro other inside
    rw [keyed.fits _ _ valid]
    simpa using filter_eq_nil_iff.mp none other inside
  rcases distinct.select (frameKey frame) with none | ⟨tree, one⟩
  · have absent : ¬ forest.any (merging.fits ·.data frame) = true := by simpa using misfits none
    exact .inl ⟨none, by rw [merge, if_neg absent]⟩
  · obtain ⟨before, after, rfl, early, fit, late⟩ := filter_eq_cons_iff.mp one
    have early : select key (frameKey frame) before = [] := filter_eq_nil_iff.mpr early
    have fits : merging.fits tree.data frame = true := by rwa [keyed.fits _ _ valid]
    have present : (before ++ tree :: after).any (merging.fits ·.data frame) = true := by simp [fits]
    refine .inr ⟨before, tree, after, rfl, of_decide_eq_true fit, early, late, ?_⟩
    rw [merge, if_pos present, mergeFitting_eq (misfits early) fits (misfits late)]

theorem select_merge_other (valid : Valid frame) {sample : Sample}
    (distinct : Distinct key forest) {wanted : Key} (other : wanted ≠ frameKey frame) :
    select key wanted (merge merging sample (frame :: rest) forest) = select key wanted forest := by
  rcases merge_cons keyed valid sample rest distinct with ⟨_, merged⟩ | ⟨before, tree, after, rfl, fit, _, _, merged⟩
  · have grown := (keyed.new frame sample rest.isEmpty valid).trans_ne other.symm
    rw [merged, select_append, select_cons_of_ne grown]
    exact append_nil _
  · have kept := (keyed.absorb tree.data frame sample rest.isEmpty valid fit).trans_ne other.symm
    rw [merged, select_append, select_append, select_cons_of_ne kept, select_cons_of_ne (fit.trans_ne other.symm)]

theorem select_merge_same (valid : Valid frame) {sample : Sample} (distinct : Distinct key forest) :
    select key (frameKey frame) (merge merging sample (frame :: rest) forest) =
      [node (merging.absorb ((dataAt key [frameKey frame] forest).headD merging.new) frame sample rest.isEmpty)
        (merge merging sample rest (under key (frameKey frame) forest))] := by
  rw [dataAt, under]
  rcases merge_cons keyed valid sample rest distinct with ⟨none, merged⟩ | ⟨before, tree, after, rfl, fit, early, late, merged⟩
  · have grown := keyed.new frame sample rest.isEmpty valid
    rw [merged, select_append, none, select_cons_of_eq grown]
    rfl
  · have kept := keyed.absorb tree.data frame sample rest.isEmpty valid fit
    rw [merged, select_append, select_append, early, select_cons_of_eq kept, select_cons_of_eq fit, late]
    simp

end

/-- The frame at the end of a path of keys, if the frames start with that path, and whether it is the last frame. -/
def frameAt (frameKey : Frame → Key) : List Key → List Frame → Option (Frame × Bool)
  | [last], frame :: rest => if frameKey frame = last then some (frame, rest.isEmpty) else none
  | first :: next :: path, frame :: rest => if frameKey frame = first then frameAt frameKey (next :: path) rest else none
  | _, _ => none

theorem dataAt_merge (keyed : Keyed merging key frameKey Valid) (sample : Sample)
    (valid : ∀ frame ∈ frames, Valid frame) (distinct : Distinct key forest) (path : List Key) :
    dataAt key path (merge merging sample frames forest) =
      match frameAt frameKey path frames with
      | some (frame, last) => [merging.absorb ((dataAt key path forest).headD merging.new) frame sample last]
      | none => dataAt key path forest := by
  induction frames generalizing path forest with
  | nil => cases path <;> simp [frameAt, merge]
  | cons frame rest ih =>
    have validFrame := valid frame mem_cons_self
    have validRest := forall_mem_of_forall_mem_cons valid
    match path with
    | [] => rfl
    | [last] =>
      rw [frameAt]
      by_cases same : frameKey frame = last
      · subst same
        rw [if_pos rfl, dataAt, select_merge_same keyed validFrame distinct]
        rfl
      · rw [if_neg same, dataAt, select_merge_other keyed validFrame distinct (Ne.symm same), dataAt]
    | first :: next :: path =>
      rw [frameAt, dataAt, under]
      by_cases same : frameKey frame = first
      · subst same
        rw [if_pos rfl, select_merge_same keyed validFrame distinct, flatMap_singleton, children,
          ih validRest (distinct.under _), dataAt]
      · rw [if_neg same, select_merge_other keyed validFrame distinct (Ne.symm same), dataAt, under]

theorem Distinct.merge (keyed : Keyed merging key frameKey Valid) (sample : Sample)
    (valid : ∀ frame ∈ frames, Valid frame) (distinct : Distinct key forest) :
    Distinct key (merge merging sample frames forest) := by
  intro path
  rw [dataAt_merge keyed sample valid distinct]
  split
  · exact Nat.le_refl 1
  · exact distinct path

end Merge

section Balance

variable [DecidableEq Key] {key : Data → Key} {merging : Merging Data Frame Sample} {frameKey : Frame → Key}
  {Valid : Frame → Prop} {Measure : Type} [AddCommMonoid Measure] {whole own : Data → Measure} {weight : Sample → Measure}

/-- Everywhere in a tree, the whole of a node is its own part and the wholes of its children. -/
inductive Balanced (whole own : Data → Measure) : PathTree Data → Prop
  | node (data : Data) (children : List (PathTree Data))
      (sum : whole data = own data + (children.map fun child => whole child.data).sum)
      (below : ∀ child ∈ children, Balanced whole own child) : Balanced whole own (node data children)

/-- Every sample adds to the whole of a node, and to its own part when it ends there. -/
structure Weighs (merging : Merging Data Frame Sample) (whole own : Data → Measure) (weight : Sample → Measure) : Prop where
  newWhole : whole merging.new = 0
  newOwn : own merging.new = 0
  whole : ∀ data frame sample last, whole (merging.absorb data frame sample last) = whole data + weight sample
  own : ∀ data frame sample last, own (merging.absorb data frame sample last) = own data + if last then weight sample else 0

theorem Weighs.balanced (weighs : Weighs merging whole own weight) {data : Data} (frame : Frame) {sample : Sample}
    {rest : List Frame} (before : List (PathTree Data)) {after : List (PathTree Data)}
    (sum : whole data = own data + (before.map fun child => whole child.data).sum)
    (below : ∀ child ∈ after, Balanced whole own child)
    (grown : (after.map fun child => whole child.data).sum =
      (before.map fun child => whole child.data).sum + if rest.isEmpty then 0 else weight sample) :
    Balanced whole own (node (merging.absorb data frame sample rest.isEmpty) after) := by
  refine .node _ _ ?_ below
  rw [weighs.whole, weighs.own, grown, sum]
  cases rest.isEmpty
  · simp [add_assoc]
  · simp [add_assoc, add_comm, add_left_comm]

theorem merge_balanced (keyed : Keyed merging key frameKey Valid) (weighs : Weighs merging whole own weight) (sample : Sample)
    {frames : List Frame} (valid : ∀ frame ∈ frames, Valid frame) {forest : List (PathTree Data)}
    (distinct : Distinct key forest) (balanced : ∀ tree ∈ forest, Balanced whole own tree) :
    (∀ tree ∈ merge merging sample frames forest, Balanced whole own tree) ∧
      ((merge merging sample frames forest).map fun tree => whole tree.data).sum =
        (forest.map fun tree => whole tree.data).sum + if frames.isEmpty then 0 else weight sample := by
  induction frames generalizing forest with
  | nil => exact ⟨balanced, by simp [merge]⟩
  | cons frame rest ih =>
    have validFrame := valid frame mem_cons_self
    have validRest := forall_mem_of_forall_mem_cons valid
    rcases merge_cons keyed validFrame sample rest distinct with ⟨_, merged⟩ | ⟨before, tree, after, rfl, fit, early, late, merged⟩
    · obtain ⟨below, grown⟩ := @ih validRest [] distinct_nil (nofun)
      have empty : whole merging.new = own merging.new + (([] : List (PathTree Data)).map fun child => whole child.data).sum := by
        simp [weighs.newWhole, weighs.newOwn]
      have added := weighs.balanced frame [] empty below grown
      rw [merged]
      refine ⟨forall_mem_append.mpr ⟨balanced, forall_mem_singleton.mpr added⟩, ?_⟩
      simp [weighs.whole, weighs.newWhole]
    · obtain ⟨data, children⟩ := tree
      have lone : under key (frameKey frame) (before ++ node data children :: after) = children := by
        rw [under, select_append, early, select_cons_of_eq fit, late]
        simp
      have distinctChildren := lone ▸ distinct.under (frameKey frame)
      obtain ⟨earlier, ⟨_, _, sum, below⟩, later⟩ := by
        simpa only [forall_mem_append, forall_mem_cons] using balanced
      obtain ⟨belowGrown, grown⟩ := ih validRest distinctChildren below
      have changed := weighs.balanced frame children sum belowGrown grown
      rw [merged]
      refine ⟨forall_mem_append.mpr ⟨earlier, forall_mem_cons.mpr ⟨changed, later⟩⟩, ?_⟩
      simp [weighs.whole, add_assoc, add_comm, add_left_comm]

end Balance

section Gather

variable [DecidableEq Key] {key : Data → Key} {merging : Merging Data Frame Sample} {frameKey : Frame → Key}
  {Valid : Frame → Prop}

/-- What the samples make of the node at a path, one after the other. -/
def gather (merging : Merging Data Frame Sample) (frameKey : Frame → Key) (path : List Key)
    (entries : List (List Frame × Sample)) (start : Option Data) : Option Data :=
  entries.foldl (fun gathered entry =>
    match frameAt frameKey path entry.1 with
    | some (frame, last) => some (merging.absorb (gathered.getD merging.new) frame entry.2 last)
    | none => gathered) start

variable {entries : List (List Frame × Sample)} {path : List Key}

theorem dataAt_mergeAll (keyed : Keyed merging key frameKey Valid)
    {forest : List (PathTree Data)} (valid : ∀ entry ∈ entries, ∀ frame ∈ entry.1, Valid frame)
    (distinct : Distinct key forest) (path : List Key) :
    dataAt key path (mergeAll merging entries forest) =
      (gather merging frameKey path entries (dataAt key path forest).head?).toList := by
  induction entries generalizing forest with
  | nil =>
    have atMost := distinct path
    match found : dataAt key path forest with
    | [] => rfl
    | [one] => rfl
    | first :: second :: rest => simp [found] at atMost
  | cons entry rest ih =>
    have validEntry := valid entry mem_cons_self
    have validRest := forall_mem_of_forall_mem_cons valid
    have step := dataAt_merge keyed entry.2 validEntry distinct path
    have later := ih validRest (distinct.merge keyed entry.2 validEntry)
    rw [mergeAll, foldl_cons, ← mergeAll, later, gather, gather, foldl_cons, step]
    cases frameAt frameKey path entry.1 with
    | none => rfl
    | some found => simp

theorem frameAt_isSome_iff (path : List Key) (frames : List Frame) (nonempty : path ≠ []) :
    (frameAt frameKey path frames).isSome ↔ path <+: frames.map frameKey := by
  induction frames generalizing path with
  | nil =>
    match path, nonempty with
    | [_], _ => simp [frameAt]
    | _ :: _ :: _, _ => simp [frameAt]
  | cons frame rest ih =>
    match path, nonempty with
    | [last], _ =>
      rw [frameAt]
      by_cases same : frameKey frame = last
      · simp [same]
      · simp [same, Ne.symm same]
    | first :: next :: path, _ =>
      rw [frameAt]
      by_cases same : frameKey frame = first
      · simp [same, ih (next :: path) (cons_ne_nil _ _)]
      · simp [same, Ne.symm same]

theorem last_of_frameAt {frames : List Frame} {frame : Frame} {last : Bool}
    (found : frameAt frameKey path frames = some (frame, last)) : last = decide (path = frames.map frameKey) := by
  induction frames generalizing path with
  | nil =>
    match path with
    | [] => cases found
    | [_] => cases found
    | _ :: _ :: _ => cases found
  | cons first rest ih =>
    match path with
    | [] => cases found
    | [only] =>
      rw [frameAt] at found
      split at found
      next same =>
        cases found
        cases rest <;> simp [same]
      · cases found
    | start :: next :: path =>
      rw [frameAt] at found
      split at found
      next same => simp [ih found, same]
      · cases found

def through (frameKey : Frame → Key) (path : List Key) (entries : List (List Frame × Sample)) : List (List Frame × Sample) :=
  entries.filter fun entry => path <+: entry.1.map frameKey

theorem through_cons_of_not {entry : List Frame × Sample} {rest : List (List Frame × Sample)}
    (other : ¬ path <+: entry.1.map frameKey) : through frameKey path (entry :: rest) = through frameKey path rest :=
  filter_cons_of_neg (by simpa using other)

variable {Measure : Type} [AddCommMonoid Measure] {measure : Data → Measure} {weight : Sample → Bool → Measure}

theorem measure_gather (zero : measure merging.new = 0)
    (adds : ∀ data frame sample last, measure (merging.absorb data frame sample last) = measure data + weight sample last)
    (nonempty : path ≠ []) (entries : List (List Frame × Sample)) (start : Option Data) :
    (gather merging frameKey path entries start).map measure =
      if start = none ∧ through frameKey path entries = [] then none
      else some ((start.map measure).getD 0 +
        ((through frameKey path entries).map fun entry => weight entry.2 (decide (path = entry.1.map frameKey))).sum) := by
  induction entries generalizing start with
  | nil => cases start <;> simp [gather, through]
  | cons entry rest ih =>
    have runs : (frameAt frameKey path entry.1).isSome ↔ path <+: entry.1.map frameKey :=
      frameAt_isSome_iff path entry.1 nonempty
    rw [gather, foldl_cons, ← gather, ih]
    cases found : frameAt frameKey path entry.1 with
    | none =>
      have other : ¬ path <+: entry.1.map frameKey := by
        rw [← runs, found]
        exact Bool.false_ne_true
      rw [through_cons_of_not other]
    | some pair =>
      have passes : path <+: entry.1.map frameKey := by
        rw [← runs, found]
        rfl
      have last := last_of_frameAt found
      have total : measure (merging.absorb (start.getD merging.new) pair.1 entry.2 pair.2) =
          (start.map measure).getD 0 + weight entry.2 (decide (path = entry.1.map frameKey)) := by
        rw [adds, last]
        cases start with
        | none => rw [Option.getD_none, Option.map_none, Option.getD_none, zero]
        | some data => rfl
      simp [through, passes, total, add_assoc]

/-- A path has one node when some sample runs through it and none otherwise, and a measure of the node is the sum of
the weights of these samples. -/
theorem measure_mergeAll (keyed : Keyed merging key frameKey Valid) (zero : measure merging.new = 0)
    (adds : ∀ data frame sample last, measure (merging.absorb data frame sample last) = measure data + weight sample last)
    (valid : ∀ entry ∈ entries, ∀ frame ∈ entry.1, Valid frame)
    (nonempty : path ≠ []) :
    (dataAt key path (mergeAll merging entries [])).map measure =
      if through frameKey path entries = [] then []
      else [((through frameKey path entries).map fun entry => weight entry.2 (decide (path = entry.1.map frameKey))).sum] := by
  rw [dataAt_mergeAll keyed valid distinct_nil, dataAt_nil, head?_nil, ← Option.toList_map,
    measure_gather zero adds nonempty]
  by_cases none : through frameKey path entries = []
  · rw [if_pos ⟨rfl, none⟩, if_pos none]
    rfl
  · rw [if_neg (fun both => none both.2), if_neg none, Option.map_none, Option.getD_none, zero_add]
    rfl

end Gather

end PathTree

end SmartPerf.Data
