import SmartPerf.Data.PathTree

namespace SmartPerf.Data.PathTree

open List

/-! Trees that grow along their last path.

A sample comes with a list of frames and a span of time. It is fused with the last path of the tree: as long as
the last node of a level fits the next frame that node absorbs the sample, and from the first frame on that does
not fit a new path is added. Samples come in the order of time, so a tree of such samples should show at every
time the frames of the sample of that time. -/

variable {Data Frame Sample Name Time : Type}

/-- What a node does with a sample, and what a frame of a sample becomes where no node fits. -/
structure Fusing (Data Frame Sample : Type) where
  fits : Data → Frame → Bool
  absorb : Data → Sample → Data
  grow : Frame → Sample → Data

def growPath (fusing : Fusing Data Frame Sample) (sample : Sample) : List Frame → List (PathTree Data)
  | [] => []
  | frame :: rest => [node (fusing.grow frame sample) (growPath fusing sample rest)]

def fuse (fusing : Fusing Data Frame Sample) (sample : Sample) : List Frame → List (PathTree Data) → List (PathTree Data)
  | [], forest => forest
  | frame :: rest, forest =>
    match forest.getLast? with
    | none => growPath fusing sample (frame :: rest)
    | some last =>
      if fusing.fits last.data frame then
        forest.dropLast ++ [node (fusing.absorb last.data sample) (fuse fusing sample rest last.children)]
      else forest ++ growPath fusing sample (frame :: rest)

def fuseAll (fusing : Fusing Data Frame Sample) (entries : List (List Frame × Sample)) : List (PathTree Data) :=
  entries.foldl (fun forest entry => fuse fusing entry.2 entry.1 forest) []

mutual

def flattenTree : PathTree Data → List Data
  | node data children => data :: flatten children

def flatten : List (PathTree Data) → List Data
  | [] => []
  | tree :: rest => flattenTree tree ++ flatten rest

end

/-- The node that a path of names leads to when only the last node of every level is looked at. -/
def lastAt [DecidableEq Name] (name : Data → Name) : List Name → List (PathTree Data) → Option Data
  | [], _ => none
  | key :: rest, forest =>
    match forest.getLast? with
    | none => none
    | some last =>
      if name last.data = key then
        if rest.isEmpty then some last.data else lastAt name rest last.children
      else none

section Shape

variable {fusing : Fusing Data Frame Sample} {sample : Sample} {frame : Frame} {rest : List Frame}
  {forest init : List (PathTree Data)} {last : PathTree Data}

theorem fuse_nil_forest (frames : List Frame) : fuse fusing sample frames [] = growPath fusing sample frames := by
  cases frames <;> rfl

theorem fuse_of_fits (fits : fusing.fits last.data frame) :
    fuse fusing sample (frame :: rest) (init ++ [last]) =
      init ++ [node (fusing.absorb last.data sample) (fuse fusing sample rest last.children)] := by
  simp [fuse, fits]

theorem fuse_of_not_fits (differs : ¬ fusing.fits last.data frame) :
    fuse fusing sample (frame :: rest) (init ++ [last]) = init ++ [last] ++ growPath fusing sample (frame :: rest) := by
  simp [fuse, differs]

theorem forest_cases (fusing : Fusing Data Frame Sample) (frame : Frame) (forest : List (PathTree Data)) :
    forest = [] ∨ (∃ init last, forest = init ++ [last] ∧ fusing.fits last.data frame) ∨
      ∃ init last, forest = init ++ [last] ∧ ¬ fusing.fits last.data frame := by
  rcases forest.eq_nil_or_concat' with empty | ⟨init, last, rfl⟩
  · exact .inl empty
  · by_cases fits : fusing.fits last.data frame
    · exact .inr (.inl ⟨init, last, rfl, fits⟩)
    · exact .inr (.inr ⟨init, last, rfl, fits⟩)

theorem fuseAll_concat (entries : List (List Frame × Sample)) (entry : List Frame × Sample) :
    fuseAll fusing (entries ++ [entry]) = fuse fusing entry.2 entry.1 (fuseAll fusing entries) := by
  simp [fuseAll]

theorem flatten_append (front back : List (PathTree Data)) : flatten (front ++ back) = flatten front ++ flatten back := by
  induction front with
  | nil => simp [flatten]
  | cons tree rest ih => simp [flatten, ih]

theorem flatten_node (data : Data) (children : List (PathTree Data)) :
    flatten [node data children] = data :: flatten children := by
  simp [flatten, flattenTree]

theorem flatten_concat (init : List (PathTree Data)) (last : PathTree Data) :
    flatten (init ++ [last]) = flatten init ++ last.data :: flatten last.children := by
  obtain ⟨data, children⟩ := last
  rw [flatten_append, flatten_node]
  rfl

theorem flatten_growPath (frames : List Frame) :
    flatten (growPath fusing sample frames) = frames.map fun frame => fusing.grow frame sample := by
  induction frames with
  | nil => simp [growPath, flatten]
  | cons frame rest ih => rw [growPath, flatten_node, ih, map_cons]

/-- Fusing changes the data of some nodes and adds a path, so a property of all nodes is kept when absorbing keeps it
and new nodes have it. -/
theorem forall_flatten_fuse {fine after : Data → Prop} (weaken : ∀ data, fine data → after data)
    (absorbs : ∀ data, fine data → after (fusing.absorb data sample))
    (grows : ∀ frame, after (fusing.grow frame sample)) {frames : List Frame} {forest : List (PathTree Data)}
    (all : ∀ data ∈ flatten forest, fine data) : ∀ data ∈ flatten (fuse fusing sample frames forest), after data := by
  have path (frames : List Frame) : ∀ data ∈ flatten (growPath fusing sample frames), after data := by
    rw [flatten_growPath, forall_mem_map]
    exact fun frame _ => grows frame
  induction frames generalizing forest with
  | nil => exact fun data inside => weaken data (all data inside)
  | cons frame rest ih =>
    rcases forest_cases fusing frame forest with rfl | ⟨init, last, rfl, fits⟩ | ⟨init, last, rfl, differs⟩
    · exact path _
    · rw [flatten_concat, forall_mem_append, forall_mem_cons] at all
      rw [fuse_of_fits fits, flatten_concat, forall_mem_append, forall_mem_cons]
      exact ⟨fun data inside => weaken data (all.1 data inside), absorbs _ all.2.1, ih all.2.2⟩
    · rw [fuse_of_not_fits differs, flatten_append, forall_mem_append]
      exact ⟨fun data inside => weaken data (all data inside), path _⟩

end Shape

/-- Nodes and frames with the same name fit, and the node's span ends with the last sample that it absorbed. -/
structure Spans (fusing : Fusing Data Frame Sample) (name : Data → Name) (frameName : Frame → Name)
    (start stop : Data → Time) (begins ends : Sample → Time) : Prop where
  fits_iff (data : Data) (frame : Frame) : fusing.fits data frame ↔ name data = frameName frame
  name_absorb (data : Data) (sample : Sample) : name (fusing.absorb data sample) = name data
  name_grow (frame : Frame) (sample : Sample) : name (fusing.grow frame sample) = frameName frame
  start_absorb (data : Data) (sample : Sample) : start (fusing.absorb data sample) = start data
  stop_absorb (data : Data) (sample : Sample) : stop (fusing.absorb data sample) = ends sample
  start_grow (frame : Frame) (sample : Sample) : start (fusing.grow frame sample) = begins sample
  stop_grow (frame : Frame) (sample : Sample) : stop (fusing.grow frame sample) = ends sample

variable {fusing : Fusing Data Frame Sample} {name : Data → Name} {frameName : Frame → Name}
  {start stop : Data → Time} {begins ends : Sample → Time} {sample : Sample} {frames rest : List Frame} {frame : Frame}
  {init forest children : List (PathTree Data)} {last : PathTree Data} {data : Data} {time : Time}

section Shown

variable [LinearOrder Time]

/-- The names of the nodes whose span contains a time, callers first. -/
def shown (name : Data → Name) (start stop : Data → Time) (time : Time) (forest : List (PathTree Data)) : List Name :=
  ((flatten forest).filter fun data => start data ≤ time ∧ time < stop data).map name

theorem shown_append (front back : List (PathTree Data)) :
    shown name start stop time (front ++ back) = shown name start stop time front ++ shown name start stop time back := by
  rw [shown, flatten_append, filter_append, map_append]
  rfl

theorem shown_node : shown name start stop time [node data children] =
    (if start data ≤ time ∧ time < stop data then [name data] else []) ++ shown name start stop time children := by
  rw [shown, flatten_node, filter_cons]
  by_cases covers : start data ≤ time ∧ time < stop data
  · simp [covers, shown]
  · rw [if_neg covers, if_neg (by simpa using covers)]
    rfl

theorem shown_of_past (past : ∀ data ∈ flatten forest, stop data ≤ time) : shown name start stop time forest = [] := by
  rw [shown, map_eq_nil_iff, filter_eq_nil_iff]
  intro data inside covers
  simp only [decide_eq_true_eq] at covers
  exact absurd covers.2 (not_lt.mpr (past data inside))

variable (spans : Spans fusing name frameName start stop begins ends)
include spans

theorem shown_growPath (from_le : begins sample ≤ time) (lt_to : time < ends sample) :
    shown name start stop time (growPath fusing sample frames) = frames.map frameName := by
  rw [shown, flatten_growPath, filter_eq_self.mpr, map_map]
  · exact map_congr_left fun frame _ => spans.name_grow frame sample
  · rw [forall_mem_map]
    intro frame _
    simpa [spans.start_grow, spans.stop_grow] using ⟨from_le, lt_to⟩

theorem shown_growPath_before (early : time < begins sample) :
    shown name start stop time (growPath fusing sample frames) = [] := by
  rw [shown, map_eq_nil_iff, filter_eq_nil_iff, flatten_growPath, forall_mem_map]
  intro frame _ covers
  simp only [decide_eq_true_eq, spans.start_grow] at covers
  exact absurd covers.1 (not_le.mpr early)

theorem shown_fuse_now (past : ∀ data ∈ flatten forest, start data ≤ begins sample ∧ stop data ≤ begins sample)
    (from_le : begins sample ≤ time) (lt_to : time < ends sample) :
    shown name start stop time (fuse fusing sample frames forest) = frames.map frameName := by
  have hidden {trees : List (PathTree Data)}
      (past : ∀ data ∈ flatten trees, start data ≤ begins sample ∧ stop data ≤ begins sample) :
      shown name start stop time trees = [] :=
    shown_of_past fun data inside => (past data inside).2.trans from_le
  induction frames generalizing forest with
  | nil => exact hidden past
  | cons frame rest ih =>
    rcases forest_cases fusing frame forest with rfl | ⟨init, last, rfl, fits⟩ | ⟨init, last, rfl, differs⟩
    · rw [fuse_nil_forest, shown_growPath spans from_le lt_to]
    · rw [flatten_concat, forall_mem_append, forall_mem_cons] at past
      rw [fuse_of_fits fits, shown_append, hidden past.1, nil_append, shown_node, ih past.2.2,
        spans.start_absorb, spans.stop_absorb, spans.name_absorb, (spans.fits_iff _ _).mp fits,
        if_pos ⟨past.2.1.1.trans from_le, lt_to⟩, singleton_append, map_cons]
    · rw [fuse_of_not_fits differs, shown_append, hidden past, nil_append, shown_growPath spans from_le lt_to]

end Shown

section LastPath

variable [DecidableEq Name] {key : Name} {path : List Name}

/-- The path leads along the last nodes to one that ends at the time. -/
def EndsAt (name : Data → Name) (stop : Data → Time) (path : List Name) (forest : List (PathTree Data)) (time : Time) :
    Prop :=
  ∃ data, lastAt name path forest = some data ∧ stop data = time

theorem endsAt_nil_path : ¬ EndsAt name stop [] forest time := by
  rintro ⟨data, found, _⟩
  simp [lastAt] at found

theorem endsAt_nil_forest : ¬ EndsAt name stop path [] time := by
  rintro ⟨data, found, _⟩
  cases path <;> simp [lastAt] at found

theorem endsAt_cons_iff :
    EndsAt name stop (key :: path) (init ++ [last]) time ↔
      name last.data = key ∧ ((path = [] ∧ stop last.data = time) ∨ (path ≠ [] ∧ EndsAt name stop path last.children time)) := by
  by_cases same : name last.data = key
  · by_cases ended : path = []
    · simp [EndsAt, lastAt, ended]
    · simp [EndsAt, lastAt, same, ended]
  · simp [EndsAt, lastAt, same]

variable (spans : Spans fusing name frameName start stop begins ends)
include spans

theorem endsAt_fuse_iff :
    EndsAt name stop path (fuse fusing sample frames forest) time ↔
      (path ≠ [] ∧ path <+: frames.map frameName ∧ ends sample = time) ∨
        (frames.map frameName <+: path ∧ frames.map frameName ≠ path ∧ EndsAt name stop path forest time) := by
  induction frames generalizing path forest with
  | nil =>
    cases path with
    | nil => simp [endsAt_nil_path]
    | cons key below => simp [fuse]
  | cons frame rest ih =>
    cases path with
    | nil => simp [endsAt_nil_path]
    | cons key below =>
      have grown (front : List (PathTree Data)) :
          EndsAt name stop (key :: below) (front ++ growPath fusing sample (frame :: rest)) time ↔
            key :: below <+: (frame :: rest).map frameName ∧ ends sample = time := by
        rw [growPath, endsAt_cons_iff, data_node, children_node, spans.name_grow, spans.stop_grow,
          ← fuse_nil_forest, ih, map_cons]
        have fresh : ¬ EndsAt name stop below [] time := endsAt_nil_forest
        by_cases ended : below = []
        · simp [ended, eq_comm]
        · simp [ended, fresh, eq_comm, and_assoc]
      rcases forest_cases fusing frame forest with rfl | ⟨init, last, rfl, fits⟩ | ⟨init, last, rfl, differs⟩
      · have fresh : ¬ EndsAt name stop (key :: below) [] time := endsAt_nil_forest
        have alone := grown []
        rw [nil_append] at alone
        simp [fuse_nil_forest, alone, fresh]
      · have same := (spans.fits_iff _ _).mp fits
        rw [fuse_of_fits fits, endsAt_cons_iff, endsAt_cons_iff, data_node, children_node, spans.name_absorb,
          spans.stop_absorb, ih, same, map_cons, cons_prefix_cons, cons_prefix_cons]
        by_cases ended : below = []
        · grind
        · simp only [ended, false_and, false_or, ne_eq, List.cons.injEq, not_and]
          by_cases key_eq : frameName frame = key
          · simp [key_eq]
          · have other : ¬ key = frameName frame := fun eq => key_eq eq.symm
            simp [key_eq, other]
      · have apart : name last.data ≠ frameName frame := fun same => differs ((spans.fits_iff _ _).mpr same)
        rw [fuse_of_not_fits differs, grown, endsAt_cons_iff, map_cons]
        simp only [cons_prefix_cons, ne_eq, reduceCtorEq, not_false_eq_true, true_and]
        refine ⟨.inl, ?_⟩
        rintro (found | ⟨start_of, _, last_eq, _⟩)
        · exact found
        · exact absurd (last_eq.trans start_of.1.symm) apart

variable {entries : List (List Frame × Sample)}

/-- A node on the last path ends with the last sample that runs through its path, and all later ones run through a part
of the path only. -/
theorem endsAt_fuseAll_iff :
    EndsAt name stop path (fuseAll fusing entries) time ↔
      path ≠ [] ∧ ∃ before first gap, entries = before ++ first :: gap ∧ path <+: first.1.map frameName ∧
        ends first.2 = time ∧ ∀ entry ∈ gap, entry.1.map frameName <+: path ∧ entry.1.map frameName ≠ path := by
  induction entries using List.reverseRecOn with
  | nil =>
    have fresh : ¬ EndsAt name stop path (fuseAll fusing []) time := endsAt_nil_forest
    simp [fresh]
  | append_singleton entries entry ih =>
    rw [fuseAll_concat, endsAt_fuse_iff spans, ih]
    refine ⟨?_, ?_⟩
    · rintro (⟨some_path, start_of, ended⟩ | ⟨part, differs, some_path, before, first, gap, rfl, start_of, ended, away⟩)
      · exact ⟨some_path, entries, entry, [], rfl, start_of, ended, nofun⟩
      · refine ⟨some_path, before, first, gap ++ [entry], by simp, start_of, ended, ?_⟩
        rw [forall_mem_append]
        exact ⟨away, by simpa using ⟨part, differs⟩⟩
    · rintro ⟨some_path, before, first, gap, split, start_of, ended, away⟩
      rcases gap.eq_nil_or_concat' with rfl | ⟨gap, last, rfl⟩
      · obtain ⟨rfl, ⟨⟩⟩ := append_inj' split rfl
        exact .inl ⟨some_path, start_of, ended⟩
      · have reassociated : entries ++ [entry] = (before ++ first :: gap) ++ [last] := by simpa using split
        obtain ⟨rfl, ⟨⟩⟩ := append_inj' reassociated rfl
        rw [forall_mem_append] at away
        obtain ⟨part, differs⟩ := away.2 entry (mem_singleton_self entry)
        exact .inr ⟨part, differs, some_path, before, first, gap, rfl, start_of, ended, away.1⟩

end LastPath

section Stretching

variable [DecidableEq Name] [LinearOrder Time] (spans : Spans fusing name frameName start stop begins ends)

/-- Some node of the last path that fits the frames has ended at a time, so absorbing makes it last through that time. -/
def Stretches (name : Data → Name) (frameName : Frame → Name) (stop : Data → Time) (time : Time) (frames : List Frame)
    (forest : List (PathTree Data)) : Prop :=
  ∃ path ended, path <+: frames.map frameName ∧ EndsAt name stop path forest ended ∧ ended ≤ time

theorem not_stretches_nil : ¬ Stretches name frameName stop time [] forest := by
  rintro ⟨path, ended, start_of, ends_at, _⟩
  rw [map_nil, prefix_nil] at start_of
  subst start_of
  exact endsAt_nil_path ends_at

theorem not_stretches_nil_forest : ¬ Stretches name frameName stop time frames [] := by
  rintro ⟨path, ended, _, ends_at, _⟩
  exact endsAt_nil_forest ends_at

theorem stretches_cons_iff :
    Stretches name frameName stop time (frame :: rest) (init ++ [last]) ↔
      name last.data = frameName frame ∧ (stop last.data ≤ time ∨ Stretches name frameName stop time rest last.children) := by
  refine ⟨?_, ?_⟩
  · rintro ⟨path, ended, start_of, ends_at, past⟩
    cases path with
    | nil => exact absurd ends_at endsAt_nil_path
    | cons key below =>
      rw [map_cons, cons_prefix_cons] at start_of
      obtain ⟨same, here | ⟨_, deeper⟩⟩ := endsAt_cons_iff.mp ends_at
      · exact ⟨same.trans start_of.1, .inl (here.2 ▸ past)⟩
      · exact ⟨same.trans start_of.1, .inr ⟨below, ended, start_of.2, deeper, past⟩⟩
  · rintro ⟨same, past | ⟨below, ended, start_of, ends_at, past⟩⟩
    · refine ⟨[frameName frame], stop last.data, ?_, endsAt_cons_iff.mpr ⟨same, .inl ⟨rfl, rfl⟩⟩, past⟩
      rw [map_cons, cons_prefix_cons]
      exact ⟨rfl, List.nil_prefix⟩
    · have deeper : below ≠ [] := by
        rintro rfl
        exact endsAt_nil_path ends_at
      refine ⟨frameName frame :: below, ended, ?_, endsAt_cons_iff.mpr ⟨same, .inr ⟨deeper, ends_at⟩⟩, past⟩
      rw [map_cons, cons_prefix_cons]
      exact ⟨rfl, start_of⟩

include spans

theorem shown_fuse_before (frames : List Frame) (valid : ∀ data ∈ flatten forest, start data ≤ stop data) (early : time < begins sample)
    (proper : begins sample ≤ ends sample) :
    (¬ Stretches name frameName stop time frames forest →
      shown name start stop time (fuse fusing sample frames forest) = shown name start stop time forest) ∧
    (Stretches name frameName stop time frames forest →
      (shown name start stop time forest).length < (shown name start stop time (fuse fusing sample frames forest)).length) := by
  induction frames generalizing forest with
  | nil => exact ⟨fun _ => rfl, fun stretches => absurd stretches not_stretches_nil⟩
  | cons frame rest ih =>
    rcases forest_cases fusing frame forest with rfl | ⟨init, last, rfl, fits⟩ | ⟨init, last, rfl, differs⟩
    · refine ⟨fun _ => ?_, fun stretches => absurd stretches not_stretches_nil_forest⟩
      rw [fuse_nil_forest, shown_growPath_before spans early]
      rfl
    · rw [flatten_concat, forall_mem_append, forall_mem_cons] at valid
      obtain ⟨same, more⟩ := ih valid.2.2
      have late : time < ends sample := early.trans_le proper
      rw [fuse_of_fits fits, shown_append, shown_append, stretches_cons_iff]
      obtain ⟨data, children⟩ := last
      simp only [data_node, children_node, shown_node, spans.start_absorb, spans.stop_absorb, spans.name_absorb,
        length_append, late, and_true] at *
      have names := (spans.fits_iff _ _).mp fits
      by_cases ended : stop data ≤ time
      · rw [if_pos (valid.2.1.trans ended), if_neg fun covers => absurd covers.2 (not_lt.mpr ended), length_singleton,
          length_nil]
        refine ⟨fun calm => absurd ⟨names, .inl ended⟩ calm, fun _ => ?_⟩
        by_cases deeper : Stretches name frameName stop time rest children
        · have := more deeper
          omega
        · rw [same deeper]
          omega
      · simp only [not_le.mp ended, and_true]
        refine ⟨fun calm => ?_, fun stretches => ?_⟩
        · rw [same fun deeper => calm ⟨names, .inr deeper⟩]
        · have := more (stretches.2.resolve_left ended)
          omega
    · refine ⟨fun _ => ?_, fun stretches => ?_⟩
      · rw [fuse_of_not_fits differs, shown_append, shown_growPath_before spans early, append_nil]
      · exact absurd ((spans.fits_iff _ _).mpr (stretches_cons_iff.mp stretches).1) differs

end Stretching

section Weights

variable {Weight : Type} [AddCommMonoid Weight] (spans : Spans fusing name frameName start stop begins ends)
  (weight : Data → Weight) (added : Sample → Weight) (wanted : Name → Bool)

def totalWeight (name : Data → Name) (weight : Data → Weight) (wanted : Name → Bool) (forest : List (PathTree Data)) : Weight :=
  (((flatten forest).filter fun data => wanted (name data)).map weight).sum

theorem totalWeight_append (front back : List (PathTree Data)) :
    totalWeight name weight wanted (front ++ back) = totalWeight name weight wanted front + totalWeight name weight wanted back := by
  rw [totalWeight, flatten_append, filter_append, map_append, sum_append]
  rfl

theorem totalWeight_node (data : Data) (children : List (PathTree Data)) :
    totalWeight name weight wanted [node data children] =
      (if wanted (name data) then weight data else 0) + totalWeight name weight wanted children := by
  rw [totalWeight, flatten_node, filter_cons]
  split
  · rfl
  · rw [zero_add]
    rfl

variable (absorbs : ∀ data sample, weight (fusing.absorb data sample) = weight data + added sample)
  (grows : ∀ frame sample, weight (fusing.grow frame sample) = added sample)
include spans grows

theorem totalWeight_growPath (frames : List Frame) :
    totalWeight name weight wanted (growPath fusing sample frames) =
      (frames.countP fun frame => wanted (frameName frame)) • added sample := by
  induction frames with
  | nil => rw [countP_nil, zero_nsmul, growPath, totalWeight, flatten, filter_nil, map_nil, sum_nil]
  | cons frame rest ih =>
    rw [growPath, totalWeight_node, ih, spans.name_grow, grows, countP_cons]
    split
    · rw [succ_nsmul, add_comm]
    · rw [zero_add, add_zero]

include absorbs

theorem totalWeight_fuse (frames : List Frame) :
    totalWeight name weight wanted (fuse fusing sample frames forest) =
      totalWeight name weight wanted forest + (frames.countP fun frame => wanted (frameName frame)) • added sample := by
  induction frames generalizing forest with
  | nil => rw [countP_nil, zero_nsmul, add_zero, fuse]
  | cons frame rest ih =>
    rcases forest_cases fusing frame forest with rfl | ⟨init, ⟨data, children⟩, rfl, fits⟩ | ⟨init, last, rfl, differs⟩
    · rw [fuse_nil_forest, totalWeight_growPath spans weight added wanted grows]
      exact (zero_add _).symm
    · rw [fuse_of_fits fits, totalWeight_append, totalWeight_append, totalWeight_node, totalWeight_node, data_node,
        children_node, spans.name_absorb, absorbs, ih, countP_cons, ← (spans.fits_iff _ _).mp fits, data_node]
      split
      · rw [succ_nsmul]
        abel
      · rw [zero_add, zero_add, add_zero, add_assoc]
    · rw [fuse_of_not_fits differs, totalWeight_append, totalWeight_growPath spans weight added wanted grows]

theorem totalWeight_fuseAll (entries : List (List Frame × Sample)) :
    totalWeight name weight wanted (fuseAll fusing entries) =
      (entries.map fun entry => (entry.1.countP fun frame => wanted (frameName frame)) • added entry.2).sum := by
  induction entries using List.reverseRecOn with
  | nil => rfl
  | append_singleton entries entry ih =>
    rw [fuseAll_concat, totalWeight_fuse spans weight added wanted absorbs grows, ih, map_append, sum_append,
      map_singleton, sum_singleton]

end Weights

section Runs

variable [LinearOrder Time] {entries : List (List Frame × Sample)} {entry : List Frame × Sample} {path : List Name}

/-- The samples come one after the other. -/
structure InTurn (begins ends : Sample → Time) (entries : List (List Frame × Sample)) : Prop where
  proper : ∀ entry ∈ entries, begins entry.2 ≤ ends entry.2
  ordered : entries.Pairwise fun earlier later => ends earlier.2 ≤ begins later.2

/-- Two samples run through a path and those between them only through a part of it, the path being left and entered
again. -/
structure Returns (frameName : Frame → Name) (entries : List (List Frame × Sample)) (path : List Name)
    (first : List Frame × Sample) (gap : List (List Frame × Sample)) (again : List Frame × Sample) : Prop where
  split : ∃ before after, entries = before ++ first :: (gap ++ again :: after)
  leaves : path <+: first.1.map frameName
  enters : path <+: again.1.map frameName
  away : ∀ entry ∈ gap, entry.1.map frameName <+: path ∧ entry.1.map frameName ≠ path

def ReturnsAtOnce (frameName : Frame → Name) (begins ends : Sample → Time) (entries : List (List Frame × Sample)) : Prop :=
  ∀ path first gap again, Returns frameName entries path first gap again → ∀ entry ∈ gap, ends entry.2 ≤ begins entry.2

def Stretched (frameName : Frame → Name) (begins ends : Sample → Time) (time : Time)
    (entries : List (List Frame × Sample)) : Prop :=
  ∃ path first gap again, Returns frameName entries path first gap again ∧ path ≠ [] ∧ ends first.2 ≤ time ∧
    time < begins again.2

theorem InTurn.of_concat (turn : InTurn begins ends (entries ++ [entry])) : InTurn begins ends entries where
  proper := fun other inside => turn.proper other (mem_append_left _ inside)
  ordered := (pairwise_append.mp turn.ordered).1

theorem InTurn.le_last (turn : InTurn begins ends (entries ++ [entry])) :
    ∀ other ∈ entries, ends other.2 ≤ begins entry.2 :=
  fun other inside => (pairwise_append.mp turn.ordered).2.2 other inside entry (mem_singleton_self entry)

section
variable {before gap after : List (List Frame × Sample)} {first again : List Frame × Sample}
  (turn : InTurn begins ends (before ++ first :: (gap ++ again :: after)))
include turn

theorem InTurn.of_mem_gap (inside : entry ∈ gap) : ends first.2 ≤ begins entry.2 ∧ ends entry.2 ≤ begins again.2 := by
  obtain ⟨_, fromFirst, _⟩ := pairwise_append.mp turn.ordered
  obtain ⟨firstBefore, fromGap⟩ := pairwise_cons.mp fromFirst
  obtain ⟨_, _, gapBefore⟩ := pairwise_append.mp fromGap
  exact ⟨firstBefore entry (mem_append_left _ inside), gapBefore entry inside again mem_cons_self⟩

theorem InTurn.mem_gap (inside : entry ∈ before ++ first :: (gap ++ again :: after)) (from_le : begins entry.2 ≤ time)
    (lt_to : time < ends entry.2) (past : ends first.2 ≤ time) (early : time < begins again.2) : entry ∈ gap := by
  obtain ⟨_, fromFirst, beforeFirst⟩ := pairwise_append.mp turn.ordered
  obtain ⟨_, fromGap⟩ := pairwise_cons.mp fromFirst
  obtain ⟨_, fromAgain, _⟩ := pairwise_append.mp fromGap
  obtain ⟨againBefore, _⟩ := pairwise_cons.mp fromAgain
  have firstProper := turn.proper first (by simp)
  have againProper := turn.proper again (by simp)
  simp only [mem_append, mem_cons] at inside
  rcases inside with earlier | rfl | between | rfl | later
  · have ended := beforeFirst entry earlier first mem_cons_self
    exact absurd (((lt_to.trans_le ended).trans_le firstProper).trans_le past) (lt_irrefl time)
  · exact absurd lt_to (not_lt.mpr past)
  · exact between
  · exact absurd early (not_lt.mpr from_le)
  · have begun := againBefore entry later
    exact absurd (((early.trans_le againProper).trans_le begun).trans_le from_le) (lt_irrefl time)

end

theorem returnsAtOnce_iff (turn : InTurn begins ends entries) :
    ReturnsAtOnce frameName begins ends entries ↔
      ∀ entry ∈ entries, ∀ time, begins entry.2 ≤ time → time < ends entry.2 →
        ¬ Stretched frameName begins ends time entries := by
  refine ⟨?_, ?_⟩
  · intro at_once entry inside time from_le lt_to ⟨path, first, gap, again, returns, _, past, early⟩
    have short := at_once path first gap again returns
    obtain ⟨before, after, rfl⟩ := returns.split
    have between := turn.mem_gap inside from_le lt_to past early
    exact absurd (from_le.trans_lt lt_to) (not_lt.mpr (short entry between))
  · intro calm path first gap again returns entry between
    by_contra lasts
    rw [not_le] at lasts
    have some_path : path ≠ [] := by
      rintro rfl
      obtain ⟨part, differs⟩ := returns.away entry between
      exact differs (prefix_nil.mp part)
    obtain ⟨before, after, rfl⟩ := returns.split
    obtain ⟨past, early⟩ := turn.of_mem_gap between
    exact calm entry (by simp [between]) (begins entry.2) le_rfl lasts
      ⟨path, first, gap, again, returns, some_path, past, lasts.trans_le early⟩

variable (spans : Spans fusing name frameName start stop begins ends)
include spans

theorem flatten_fuseAll_valid (turn : InTurn begins ends entries) :
    ∀ data ∈ flatten (fuseAll fusing entries), start data ≤ stop data ∧ ∃ entry ∈ entries, stop data = ends entry.2 := by
  induction entries using List.reverseRecOn with
  | nil =>
    intro data inside
    simp [fuseAll, flatten] at inside
  | append_singleton entries entry ih =>
    rw [fuseAll_concat]
    have proper := turn.proper entry (mem_append_right _ (mem_singleton_self entry))
    have itself : entry ∈ entries ++ [entry] := mem_append_right _ (mem_singleton_self entry)
    refine forall_flatten_fuse ?_ ?_ ?_ (ih turn.of_concat)
    · rintro data ⟨valid, other, inside, ended⟩
      exact ⟨valid, other, mem_append_left _ inside, ended⟩
    · rintro data ⟨valid, other, inside, ended⟩
      rw [spans.start_absorb, spans.stop_absorb]
      refine ⟨?_, entry, itself, rfl⟩
      exact valid.trans ((ended.trans_le (turn.le_last other inside)).trans proper)
    · intro frame
      rw [spans.start_grow, spans.stop_grow]
      exact ⟨proper, entry, itself, rfl⟩

variable [DecidableEq Name]

theorem stretched_concat_iff :
    Stretched frameName begins ends time (entries ++ [entry]) ↔
      Stretched frameName begins ends time entries ∨
        (time < begins entry.2 ∧ Stretches name frameName stop time entry.1 (fuseAll fusing entries)) := by
  refine ⟨?_, ?_⟩
  · rintro ⟨path, first, gap, again, ⟨⟨before, after, split⟩, leaves, enters, away⟩, some_path, past, early⟩
    rcases after.eq_nil_or_concat' with rfl | ⟨after, last, rfl⟩
    · have reassociated : entries ++ [entry] = (before ++ first :: gap) ++ [again] := by simpa using split
      obtain ⟨rfl, ⟨⟩⟩ := append_inj' reassociated rfl
      refine .inr ⟨early, path, ends first.2, enters, ?_, past⟩
      exact (endsAt_fuseAll_iff spans).mpr ⟨some_path, before, first, gap, rfl, leaves, rfl, away⟩
    · have reassociated : entries ++ [entry] = (before ++ first :: (gap ++ again :: after)) ++ [last] := by
        simpa using split
      obtain ⟨rfl, _⟩ := append_inj' reassociated rfl
      exact .inl ⟨path, first, gap, again, ⟨⟨before, after, rfl⟩, leaves, enters, away⟩, some_path, past, early⟩
  · rintro (⟨path, first, gap, again, ⟨⟨before, after, rfl⟩, leaves, enters, away⟩, some_path, past, early⟩ |
      ⟨early, path, ended, enters, ends_at, past⟩)
    · refine ⟨path, first, gap, again, ⟨⟨before, after ++ [entry], by simp⟩, leaves, enters, away⟩, some_path, past, early⟩
    · obtain ⟨some_path, before, first, gap, rfl, leaves, rfl, away⟩ := (endsAt_fuseAll_iff spans).mp ends_at
      exact ⟨path, first, gap, entry, ⟨⟨before, [], by simp⟩, leaves, enters, away⟩, some_path, past, early⟩

/-- At the time of a sample the tree of all samples shows its frames, or more when a node has been stretched. -/
theorem shown_fuseAll (turn : InTurn begins ends entries) (inside : entry ∈ entries) (from_le : begins entry.2 ≤ time)
    (lt_to : time < ends entry.2) :
    (¬ Stretched frameName begins ends time entries →
      shown name start stop time (fuseAll fusing entries) = entry.1.map frameName) ∧
    (Stretched frameName begins ends time entries →
      entry.1.length < (shown name start stop time (fuseAll fusing entries)).length) := by
  induction entries using List.reverseRecOn with
  | nil => exact absurd inside not_mem_nil
  | append_singleton entries last ih =>
    have valid := flatten_fuseAll_valid spans turn.of_concat
    rw [fuseAll_concat, stretched_concat_iff spans]
    rw [mem_append, mem_singleton] at inside
    rcases inside with earlier | rfl
    · have early : time < begins last.2 := lt_to.trans_le (turn.le_last entry earlier)
      have proper := turn.proper last (mem_append_right _ (mem_singleton_self last))
      obtain ⟨exact_before, more_before⟩ := ih turn.of_concat earlier
      obtain ⟨exact_now, more_now⟩ := shown_fuse_before spans last.1 (fun data inside => (valid data inside).1) early proper
      refine ⟨fun calm => ?_, fun stretched => ?_⟩
      · rw [not_or] at calm
        rw [exact_now fun stretches => calm.2 ⟨early, stretches⟩, exact_before calm.1]
      · by_cases already : Stretched frameName begins ends time entries
        · have grows := more_before already
          by_cases stretches : Stretches name frameName stop time last.1 (fuseAll fusing entries)
          · exact grows.trans (more_now stretches)
          · rw [exact_now stretches]
            exact grows
        · have grows := more_now (stretched.resolve_left already).2
          rw [exact_before already, length_map] at grows
          exact grows
    · have past : ∀ data ∈ flatten (fuseAll fusing entries), start data ≤ begins entry.2 ∧ stop data ≤ begins entry.2 := by
        intro data inside
        obtain ⟨proper, other, listed, ended⟩ := valid data inside
        have bounded := ended.trans_le (turn.le_last other listed)
        exact ⟨proper.trans bounded, bounded⟩
      refine ⟨fun _ => shown_fuse_now spans past from_le lt_to, ?_⟩
      rintro (⟨path, first, gap, again, returns, _, _, early⟩ | ⟨early, _⟩)
      · obtain ⟨before, after, rfl⟩ := returns.split
        have listed : again ∈ before ++ first :: (gap ++ again :: after) := by simp
        have proper := turn.proper again (mem_append_left _ listed)
        exact absurd (early.trans_le (proper.trans (turn.le_last again listed))) (not_lt.mpr from_le)
      · exact absurd early (not_lt.mpr from_le)

end Runs

end SmartPerf.Data.PathTree
