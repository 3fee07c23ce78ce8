import SmartPerf.CallChart.HiperfCallChart

namespace SmartPerf.CallChart

open Data Data.PathTree PerfCall

/-! What the perf call chart shows at a time, compared with the call chain of the sample of that time. -/

section Cache

variable {callstack : CallStackCache} {callchainId : Int}

def CallStackCache.Keyed (callstack : CallStackCache) : Prop :=
  ∀ key symbol, find key callstack = some symbol → key = (symbol.item.callchainId, symbol.item.depth)

theorem keyed_upsert (keyed : callstack.Keyed) (symbol : CachedSymbol) {key : Int × Nat}
    (own : key = (symbol.item.callchainId, symbol.item.depth)) :
    CallStackCache.Keyed (upsert key (fun _ => symbol) callstack) := by
  intro other found stored
  by_cases same : other = key
  · rw [same, find_upsert_same, Option.some.injEq] at stored
    rw [same, own, stored]
  · rw [find_upsert_other _ same] at stored
    exact keyed other found stored

theorem keyed_addStack (keyed : callstack.Keyed) (item : HiPerfCallStack) : (addStack callstack item).Keyed := by
  have added := keyed_upsert keyed { item } rfl
  rw [addStack]
  split
  · exact added
  · split
    · exact added
    · split
      next own => exact keyed_upsert added _ (by rw [own.1, own.2])
      · exact added

theorem keyed_arrayBufferCallStackHandler (res : List HiPerfCallStack) : (arrayBufferCallStackHandler res).Keyed := by
  have run (callstack : CallStackCache) (keyed : callstack.Keyed) : CallStackCache.Keyed (res.foldl addStack callstack) := by
    induction res generalizing callstack with
    | nil => exact keyed
    | cons item rest ih => exact ih _ (keyed_addStack keyed item)
  refine run [] ?_
  intro key symbol found
  cases found

theorem framesFrom_depth (keyed : callstack.Keyed) (rounds depth : Nat) :
    (framesFrom callstack callchainId rounds depth).map (·.depth) =
      List.range' depth (framesFrom callstack callchainId rounds depth).length := by
  induction rounds generalizing depth with
  | zero => rfl
  | succ rounds ih =>
    rw [framesFrom]
    split
    · rfl
    next symbol found =>
      have own := keyed _ _ found
      rw [Prod.mk.injEq] at own
      split
      · rw [List.map_cons, ih, ← own.2, List.length_cons, List.range'_succ]
      · rw [List.map_cons, ← own.2]
        rfl

end Cache

section Fusing

variable {sample above item : PerfCall} {frames : List HiPerfCallStack} {forest : List (PathTree PerfCall)} {level : Nat}

theorem growPath_durFrom (frames : List HiPerfCallStack) :
    growPath chartFusing (above.durFrom item) frames = growPath chartFusing above frames := by
  induction frames with
  | nil => rfl
  | cons frame rest ih => rw [growPath, growPath, ih]; rfl

theorem setDur_copyStack (above : PerfCall) (frames : List HiPerfCallStack) :
    (copyStack frames).map (setDur above) = growPath chartFusing above frames := by
  induction frames generalizing above with
  | nil => rfl
  | cons frame rest ih =>
    rw [copyStack, List.map_singleton, growPath]
    have below := ih (above.durFrom
      { depth := frame.depth
        name := some frame.name
        symbolId := some frame.symbolId
        fileId := some frame.fileId
        callchainId := frame.callchainId })
    rw [growPath_durFrom] at below
    cases rest with
    | nil => rfl
    | cons next rest =>
      rw [← below]
      rfl

def Levels (level : Nat) (frames : List HiPerfCallStack) : Prop := frames.map (·.depth) = List.range' level frames.length

/-- The nodes of the last path have the depths that their place in the tree asks for. -/
def LastLevels (level : Nat) (forest : List (PathTree PerfCall)) : Prop :=
  ∀ path time, EndsAt PerfCall.label endTime path forest time →
    path.map (·.2) = (List.range' level path.length).map Int.ofNat

theorem Levels.head {frame : HiPerfCallStack} {rest : List HiPerfCallStack}
    (levels : Levels level (frame :: rest)) : frame.depth = level ∧ Levels (level + 1) rest := by
  rw [Levels, List.map_cons, List.length_cons, List.range'_succ, List.cons.injEq] at levels
  exact levels

theorem LastLevels.last {init : List (PathTree PerfCall)} {last : PathTree PerfCall}
    (levels : LastLevels level (init ++ [last])) : last.data.depth = level ∧ LastLevels (level + 1) last.children := by
  refine ⟨?_, fun path time ends => ?_⟩
  · have single := levels [last.data.label] last.data.endTime (endsAt_cons_iff.mpr ⟨rfl, .inl ⟨rfl, rfl⟩⟩)
    exact (List.cons.inj single).1
  · have some_path : path ≠ [] := by
      rintro rfl
      exact endsAt_nil_path ends
    have longer := levels (last.data.label :: path) time (endsAt_cons_iff.mpr ⟨rfl, .inr ⟨some_path, ends⟩⟩)
    exact (List.cons.inj longer).2

/-- Merging the nested items of a sample into a node is fusing its frames with the node's children. -/
theorem combinePerfCallData_eq_fuse {item1 item2 : PerfCall} (rule : fixMergeRuler item1 item2)
    (taken : item2.endTime = sample.endTime ∧ item2.eventCount = sample.eventCount) (levels : Levels level frames)
    (lastLevels : LastLevels level forest) :
    combinePerfCallData (.node item1 forest) (.node item2 (growPath chartFusing sample frames)) =
      .node (item1.extend sample) (fuse chartFusing sample frames forest) := by
  have extended : item1.extend item2 = item1.extend sample := by
    rw [extend, extend, taken.1, taken.2]
  induction frames generalizing level item1 item2 forest with
  | nil => rw [growPath, combinePerfCallData, data_node, if_pos rule, extended]; rfl
  | cons frame rest ih =>
    obtain ⟨frameLevel, restLevels⟩ := levels.head
    rw [growPath, combinePerfCallData, data_node, if_pos rule, extended, children_node]
    rcases forest_cases chartFusing frame forest with rfl | ⟨init, last, rfl, fits⟩ | ⟨init, last, rfl, differs⟩
    · rfl
    · have same : fixMergeRuler last.data (chartFusing.grow frame sample) := fits
      rw [fuse_of_fits fits, List.getLast?_concat]
      obtain ⟨data, children⟩ := last
      simp only [data_node, List.dropLast_concat] at same ⊢
      rw [if_pos same, ih same ⟨rfl, rfl⟩ restLevels (by simpa using lastLevels.last.2) rfl]
      rfl
    · have apart : ¬ fixMergeRuler last.data (chartFusing.grow frame sample) := differs
      have level_eq : last.data.depth = (chartFusing.grow frame sample).depth := by
        rw [lastLevels.last.1, ← frameLevel]
        rfl
      rw [fuse_of_not_fits differs, List.getLast?_concat]
      simp only [data_node, apart, level_eq]
      rfl

end Fusing

section Chart

variable (callstack : CallStackCache) {type : Int} {samples : List HiPerfSample} {sample : HiPerfSample}

/-- The function names of the call chain of a sample, from the outermost one on. -/
def chainOf (sample : HiPerfSample) : List Int :=
  (callChain callstack sample.callchainId).map (·.name)

def stackAt (time : Nat) (chart : List (PathTree PerfCall)) : List (Option Int) :=
  (((getArrayData chart).filter fun item => item.startTime ≤ time ∧ time < item.endTime).insertionSort
    fun upper lower => upper.depth ≤ lower.depth).map (·.name)

/-- The chart shows the call chain of a sample at each time of it, and all events at depth 0. -/
structure ShowsStacks (samples : List HiPerfSample) (chart : List (PathTree PerfCall)) : Prop where
  chains : ∀ sample ∈ samples, ∀ time, sample.startTs ≤ time → time < sample.startTs + sample.dur →
    stackAt time chart = (chainOf callstack sample).map some
  events : (((getArrayData chart).filter (·.depth = 0)).map (·.eventCount)).sum = (samples.map (·.eventCount)).sum

/-- Samples of one thread, each of which begins where the one before it ends, with known call chains. -/
structure Recorded (samples : List HiPerfSample) : Prop where
  oneThread : ∀ first ∈ samples, ∀ second ∈ samples, first.threadId = second.threadId
  contiguous : samples.IsChain fun earlier later => earlier.startTs + earlier.dur = later.startTs
  known : ∀ sample ∈ samples, callChain callstack sample.callchainId ≠ []

/-- No time passes between leaving a function and calling it again when only its callers ran in between. -/
def CallsAgainAtOnce (samples : List HiPerfSample) : Prop :=
  ∀ before first gap again after path, samples = before ++ first :: (gap ++ again :: after) →
    path <+: chainOf callstack first → path <+: chainOf callstack again →
    (∀ sample ∈ gap, chainOf callstack sample <+: path ∧ chainOf callstack sample ≠ path) → ∀ sample ∈ gap, sample.dur = 0

def entry (sample : HiPerfSample) : List HiPerfCallStack × PerfCall :=
  (callChain callstack sample.callchainId, perfSample sample)

variable {callstack} {whole : PerfCall} (names : List Int) {few many : List Int}

theorem Recorded.of_concat (recorded : Recorded callstack (samples ++ [sample])) : Recorded callstack samples where
  oneThread := fun first inFirst second inSecond =>
    recorded.oneThread first (List.mem_append_left _ inFirst) second (List.mem_append_left _ inSecond)
  contiguous := (List.isChain_append.mp recorded.contiguous).1
  known := fun other inside => recorded.known other (List.mem_append_left _ inside)

theorem levels_entry (keyed : callstack.Keyed) (sample : HiPerfSample) : Levels 0 (entry callstack sample).1 :=
  framesFrom_depth keyed _ _

theorem labels_levels {level : Nat} {frames : List HiPerfCallStack} (levels : Levels level frames) :
    (frames.map HiPerfCallStack.label).map (·.2) = (List.range' level frames.length).map Int.ofNat := by
  rw [← levels, List.map_map, List.map_map]
  rfl

theorem lastLevels_fuseAll (keyed : callstack.Keyed) (samples : List HiPerfSample) :
    LastLevels 0 (fuseAll chartFusing (samples.map (entry callstack))) := by
  intro path time ends
  obtain ⟨_, before, first, gap, split, start_of, _⟩ := (endsAt_fuseAll_iff chartFusing_spans).mp ends
  have listed : first ∈ samples.map (entry callstack) := by
    rw [split]
    simp
  obtain ⟨sample, _, rfl⟩ := List.mem_map.mp listed
  have levels := labels_levels (levels_entry keyed sample)
  rw [List.prefix_iff_eq_take.mp start_of, List.map_take, levels, ← List.map_take, ← List.range_eq_range', ← List.range_eq_range', List.take_range,
    List.length_take, List.length_map]

def sampleTree (callstack : CallStackCache) (sample : HiPerfSample) : PathTree PerfCall :=
  .node (perfSample sample) (growPath chartFusing (perfSample sample) (entry callstack sample).1)

section
variable (known : callChain callstack sample.callchainId ≠ [])
include known

theorem combineStep_of_known (chart : List (PathTree PerfCall)) : combineStep callstack type chart (perfSample sample) =
      match chart.getLast? with
      | none => chart ++ [sampleTree callstack sample]
      | some pre =>
        if type = 0 then
          if pre.data.threadId = sample.threadId ∧ pre.data.endTime = sample.startTs then
            chart.dropLast ++ [combinePerfCallData pre (sampleTree callstack sample)]
          else chart ++ [sampleTree callstack sample]
        else chart.dropLast ++ [combinePerfCallData pre (sampleTree callstack sample)] := by
  obtain ⟨frame, rest, frames⟩ := List.exists_cons_of_ne_nil known
  have chain : callChain callstack (perfSample sample).callchainId = frame :: rest := frames
  have child := setDur_copyStack (perfSample sample) (frame :: rest)
  rw [copyStack, List.map_singleton] at child
  rw [combineStep, chain, copyStack]
  simp only [child, sampleTree, entry, frames]
  rfl

theorem combineStep_next {whole : PerfCall}
    (sameThread : whole.threadId = sample.threadId) (follows : whole.endTime = sample.startTs)
    (forest : List (PathTree PerfCall)) :
    combineStep callstack type [.node whole forest] (perfSample sample) =
      [combinePerfCallData (.node whole forest) (sampleTree callstack sample)] := by
  rw [combineStep_of_known known]
  simp [sameThread, follows]

end

theorem chart_eq_fuseAll (keyed : callstack.Keyed) (samples : List HiPerfSample) (sample : HiPerfSample)
    (recorded : Recorded callstack (samples ++ [sample])) :
    ∃ whole, combinePerfSampleByCallChainId callstack type (samples ++ [sample]) =
        [.node whole (fuseAll chartFusing ((samples ++ [sample]).map (entry callstack)))] ∧
      whole.depth = -1 ∧ whole.name = none ∧ whole.threadId = sample.threadId ∧
      whole.endTime = sample.startTs + sample.dur := by
  have known := recorded.known sample (by simp)
  have concat (earlier : List HiPerfSample) (sample : HiPerfSample) :
      combinePerfSampleByCallChainId callstack type (earlier ++ [sample]) =
        combineStep callstack type (combinePerfSampleByCallChainId callstack type earlier) (perfSample sample) := by
    simp [combinePerfSampleByCallChainId, combineChartData]
  induction samples using List.reverseRecOn generalizing sample with
  | nil =>
    refine ⟨perfSample sample, ?_, rfl, rfl, rfl, rfl⟩
    rw [concat, List.map_append, List.map_singleton, fuseAll_concat, fuseAll, List.map_nil, List.foldl_nil,
      fuse_nil_forest]
    exact combineStep_of_known known []
  | append_singleton samples pre ih =>
    obtain ⟨whole, chart, depth, name, thread, ended⟩ := ih pre recorded.of_concat (recorded.known pre (by simp))
    have sameThread : whole.threadId = sample.threadId := by
      rw [thread, recorded.oneThread pre (by simp) sample (by simp)]
    have follows : whole.endTime = sample.startTs := by
      rw [ended]
      have joint := (List.isChain_append.mp recorded.contiguous).2.2
      exact joint pre (by simp) sample (by simp)
    have rule : fixMergeRuler whole (perfSample sample) := by
      simp [fixMergeRuler, depth, name, perfSample]
    have next : fuseAll chartFusing ((samples ++ [pre] ++ [sample]).map (entry callstack)) =
        fuse chartFusing (perfSample sample) (entry callstack sample).1
          (fuseAll chartFusing ((samples ++ [pre]).map (entry callstack))) := by
      rw [List.map_append, List.map_singleton, fuseAll_concat]
      rfl
    refine ⟨whole.extend (perfSample sample), ?_, depth, name, sameThread, rfl⟩
    rw [concat, chart, combineStep_next known sameThread follows, sampleTree, next,
      combinePerfCallData_eq_fuse rule ⟨rfl, rfl⟩ (levels_entry keyed sample) (lastLevels_fuseAll keyed _)]

def Precedes (earlier later : HiPerfSample) : Prop := earlier.startTs + earlier.dur ≤ later.startTs

instance : Trans Precedes Precedes Precedes where
  trans before after := before.trans ((Nat.le_add_right _ _).trans after)

theorem inTurn_entries (recorded : Recorded callstack samples) :
    InTurn startTime endTime (samples.map (entry callstack)) where
  proper := by
    rw [List.forall_mem_map]
    exact fun sample _ => Nat.le_add_right _ _
  ordered := by
    rw [List.pairwise_map]
    have ordered : samples.Pairwise Precedes :=
      List.isChain_iff_pairwise.mp (recorded.contiguous.imp fun _ _ follows => follows.le)
    exact ordered

theorem getArrayData_chart (depth : whole.depth = -1) (entries : List (List HiPerfCallStack × PerfCall)) :
    getArrayData [.node whole (fuseAll chartFusing entries)] = flatten (fuseAll chartFusing entries) := by
  have drawn : ∀ item ∈ flatten (fuseAll chartFusing entries), -1 < item.depth := by
    induction entries using List.reverseRecOn with
    | nil =>
      intro item inside
      simp [fuseAll, flatten] at inside
    | append_singleton entries entry ih =>
      rw [fuseAll_concat]
      refine forall_flatten_fuse (fun _ drawn => drawn) (fun _ drawn => drawn) (fun frame => ?_) ih
      exact Int.lt_of_lt_of_le (by decide) (Int.natCast_nonneg frame.depth)
  rw [getArrayData, flatten_node, List.filter_cons_of_neg (by simp [depth]), List.filter_eq_self.mpr (by simpa using drawn)]

def labels : List (Option Int × Int) := names.mapIdx fun depth name => (some name, Int.ofNat depth)

theorem labels_chain (keyed : callstack.Keyed) (sample : HiPerfSample) :
    (entry callstack sample).1.map HiPerfCallStack.label = labels (chainOf callstack sample) := by
  have levels : (callChain callstack sample.callchainId).map (·.depth) = _ := levels_entry keyed sample
  rw [labels, chainOf, entry]
  refine List.ext_getElem (by simp) ?_
  intro index inside _
  have level := List.getElem_of_eq levels (by simpa using inside)
  simp only [List.getElem_map] at level
  simp [HiPerfCallStack.label, level]

theorem labels_names : (labels names).map (·.1) = names.map some := by
  rw [labels]
  exact List.ext_getElem (by simp) (by simp)

theorem length_labels : (labels names).length = names.length := by
  rw [labels, List.length_mapIdx]

theorem labels_injective {first second : List Int} (same : labels first = labels second) : first = second := by
  have names := congrArg (List.map (·.1)) same
  rw [labels_names, labels_names] at names
  exact List.map_injective_iff.mpr (Option.some_injective Int) names

theorem labels_ordered : (labels names).Pairwise fun upper lower => upper.2 ≤ lower.2 := by
  rw [List.pairwise_iff_getElem]
  intro upper lower _ _ before
  simpa [labels] using Int.ofNat_le.mpr before.le

theorem labels_mono (start_of : few <+: many) : labels few <+: labels many := by
  obtain ⟨rest, rfl⟩ := start_of
  rw [labels, labels, List.mapIdx_append]
  exact List.prefix_append _ _

theorem eq_labels_of_start {path : List (Option Int × Int)} {names : List Int} (start_of : path <+: labels names) :
    ∃ few, few <+: names ∧ path = labels few := by
  refine ⟨names.take path.length, List.take_prefix _ _, ?_⟩
  have short : path.length ≤ names.length := length_labels names ▸ start_of.length_le
  have length_eq : path.length = (labels (names.take path.length)).length := by
    rw [length_labels, List.length_take, Nat.min_eq_left short]
  exact (List.prefix_of_prefix_length_le start_of (labels_mono (List.take_prefix _ _)) length_eq.le).eq_of_length length_eq

theorem labels_start_iff : labels few <+: labels many ↔ few <+: many := by
  refine ⟨fun start_of => ?_, labels_mono⟩
  obtain ⟨same, start_of, labels_eq⟩ := eq_labels_of_start start_of
  rw [labels_injective labels_eq]
  exact start_of

theorem callsAgainAtOnce_iff (keyed : callstack.Keyed) :
    CallsAgainAtOnce callstack samples ↔
      ReturnsAtOnce HiPerfCallStack.label startTime endTime (samples.map (entry callstack)) := by
  have away_iff (names : List Int) (gap : List HiPerfSample) :
      (∀ other ∈ gap.map (entry callstack), other.1.map HiPerfCallStack.label <+: labels names ∧
          other.1.map HiPerfCallStack.label ≠ labels names) ↔
        ∀ sample ∈ gap, chainOf callstack sample <+: names ∧ chainOf callstack sample ≠ names := by
    rw [List.forall_mem_map]
    refine forall₂_congr fun sample _ => ?_
    rw [labels_chain keyed, labels_start_iff, Ne, Ne, (Function.Injective.eq_iff fun _ _ => labels_injective)]
  refine ⟨?_, ?_⟩
  · intro at_once path first gap again ⟨⟨before, after, split⟩, leaves, enters, away⟩
    obtain ⟨before, fromFirst, rfl, rfl, fromFirst_eq⟩ := List.map_eq_append_iff.mp split
    obtain ⟨first, fromGap, rfl, rfl, fromGap_eq⟩ := List.map_eq_cons_iff.mp fromFirst_eq
    obtain ⟨gap, fromAgain, rfl, rfl, fromAgain_eq⟩ := List.map_eq_append_iff.mp fromGap_eq
    obtain ⟨again, after, rfl, rfl, rfl⟩ := List.map_eq_cons_iff.mp fromAgain_eq
    rw [labels_chain keyed] at leaves enters
    obtain ⟨names, start_of, rfl⟩ := eq_labels_of_start leaves
    have short := at_once before first gap again after names rfl start_of (labels_start_iff.mp enters) ((away_iff _ _).mp away)
    rw [List.forall_mem_map]
    intro sample inside
    exact Nat.le_of_eq (by rw [entry, perfSample, short sample inside, Nat.add_zero])
  · intro at_once before first gap again after names split leaves enters away sample inside
    have returns : Returns HiPerfCallStack.label (samples.map (entry callstack)) (labels names) (entry callstack first)
        (gap.map (entry callstack)) (entry callstack again) :=
      { split := ⟨before.map (entry callstack), after.map (entry callstack), by rw [split]; simp⟩
        leaves := by rw [labels_chain keyed]; exact labels_mono leaves
        enters := by rw [labels_chain keyed]; exact labels_mono enters
        away := (away_iff _ _).mpr away }
    have short : sample.startTs + sample.dur ≤ sample.startTs :=
      at_once _ _ _ _ returns (entry callstack sample) (List.mem_map_of_mem inside)
    omega

/-- The nodes that cover a time are as many as the tree shows, and have the names that it shows when these are the
names of a chain. -/
theorem stackAt_chart (depth : whole.depth = -1) (entries : List (List HiPerfCallStack × PerfCall))
    (time : Nat) :
    (stackAt time [.node whole (fuseAll chartFusing entries)]).length =
        (shown PerfCall.label startTime endTime time (fuseAll chartFusing entries)).length ∧
      ∀ names, shown PerfCall.label startTime endTime time (fuseAll chartFusing entries) = labels names →
        stackAt time [.node whole (fuseAll chartFusing entries)] = names.map some := by
  rw [stackAt, getArrayData_chart depth, shown, List.length_map, List.length_map, List.length_insertionSort]
  refine ⟨rfl, fun names all => ?_⟩
  have labels_sorted := labels_ordered names
  rw [← all, List.pairwise_map] at labels_sorted
  have sorted : ((flatten (fuseAll chartFusing entries)).filter fun item =>
      item.startTime ≤ time ∧ time < item.endTime).Pairwise fun upper lower => upper.depth ≤ lower.depth := labels_sorted
  rw [sorted.insertionSort_eq, ← labels_names, ← all, List.map_map]
  rfl

theorem countP_outermost (keyed : callstack.Keyed) (known : callChain callstack sample.callchainId ≠ []) :
    ((entry callstack sample).1.countP fun frame => decide (frame.label.2 = 0)) = 1 := by
  have levels := levels_entry keyed sample
  obtain ⟨frame, rest, frames⟩ : ∃ frame rest, (entry callstack sample).1 = frame :: rest := List.exists_cons_of_ne_nil known
  rw [frames] at levels ⊢
  obtain ⟨outermost, deeper⟩ := levels.head
  have none_deeper : (rest.countP fun frame => decide (frame.label.2 = 0)) = 0 := by
    rw [List.countP_eq_zero]
    intro other inside outer
    have level : other.depth ∈ List.range' (0 + 1) rest.length := deeper ▸ List.mem_map_of_mem inside
    rw [List.mem_range'_1] at level
    have zero : other.depth = 0 := by simpa [HiPerfCallStack.label] using outer
    omega
  rw [List.countP_cons_of_pos (by simp [HiPerfCallStack.label, outermost]), none_deeper]

theorem events_chart (keyed : callstack.Keyed) (known : ∀ sample ∈ samples, callChain callstack sample.callchainId ≠ []) :
    (((flatten (fuseAll chartFusing (samples.map (entry callstack)))).filter (·.depth = 0)).map (·.eventCount)).sum =
      (samples.map (·.eventCount)).sum := by
  have total := totalWeight_fuseAll chartFusing_spans PerfCall.eventCount PerfCall.eventCount (fun label => label.2 = 0)
    (fun _ _ => rfl) (fun _ _ => rfl) (samples.map (entry callstack))
  have each : (samples.map (entry callstack)).map (fun other =>
      (other.1.countP fun frame => decide (frame.label.2 = 0)) • other.2.eventCount) = samples.map (·.eventCount) := by
    rw [List.map_map]
    refine List.map_congr_left fun sample inside => ?_
    rw [Function.comp_apply, countP_outermost keyed (known sample inside), one_nsmul]
    rfl
  exact total.trans (congrArg List.sum each)

/-- The chart shows the stacks of the samples exactly when a function that is left for its callers only is called again
at once. -/
theorem combineChartData_showsStacks_iff (res : List HiPerfCallStack) (type : Int) (samples : List HiPerfSample)
    (recorded : Recorded (arrayBufferCallStackHandler res) samples) :
    ShowsStacks (arrayBufferCallStackHandler res) samples
        (combinePerfSampleByCallChainId (arrayBufferCallStackHandler res) type samples) ↔
      CallsAgainAtOnce (arrayBufferCallStackHandler res) samples := by
  have keyed := keyed_arrayBufferCallStackHandler res
  have turn := inTurn_entries recorded
  generalize arrayBufferCallStackHandler res = callstack at *
  rcases samples.eq_nil_or_concat' with rfl | ⟨earlier, last, split⟩
  · refine ⟨fun _ before first gap again after path split => by simp at split, fun _ => ⟨?_, rfl⟩⟩
    exact fun sample inside => absurd inside List.not_mem_nil
  · obtain ⟨whole, chart, depth, _⟩ := @chart_eq_fuseAll callstack type keyed earlier last (split ▸ recorded)
    rw [← split] at chart
    rw [chart, callsAgainAtOnce_iff keyed, returnsAtOnce_iff turn, List.forall_mem_map]
    refine ⟨fun shows sample inside time from_le lt_to stretched => ?_, fun calm => ⟨?_, ?_⟩⟩
    · have more := (shown_fuseAll chartFusing_spans turn (List.mem_map_of_mem inside) from_le lt_to).2 stretched
      have exactly := congrArg List.length (shows.chains sample inside time from_le lt_to)
      rw [(stackAt_chart depth _ time).1, List.length_map, chainOf, List.length_map] at exactly
      exact absurd more (Nat.not_lt.mpr exactly.le)
    · intro sample inside time from_le lt_to
      refine (stackAt_chart depth _ time).2 _ ?_
      rw [(shown_fuseAll chartFusing_spans turn (List.mem_map_of_mem inside) from_le lt_to).1
        (calm sample inside time from_le lt_to), labels_chain keyed]
    · rw [getArrayData_chart depth]
      exact events_chart keyed recorded.known

/-- Chain 1 is a function alone, chain 2 the same function calling another one. -/
def sampleStacks : List HiPerfCallStack :=
  [{ callchainId := 1, fileId := 0, depth := 0, symbolId := 0, name := 100 },
   { callchainId := 2, fileId := 0, depth := 0, symbolId := 0, name := 100 },
   { callchainId := 2, fileId := 0, depth := 1, symbolId := 1, name := 200 }]

def samplesOf (callchainIds : List Int) : List HiPerfSample :=
  callchainIds.mapIdx fun index callchainId =>
    { callchainId, startTs := 10 * index, dur := 10, eventCount := 1, threadId := 7, cpuId := 0 }

theorem combineChartData_showsStacks_returning :
    ShowsStacks (arrayBufferCallStackHandler sampleStacks) (samplesOf [2, 1])
      (combinePerfSampleByCallChainId (arrayBufferCallStackHandler sampleStacks) 1 (samplesOf [2, 1])) := by
  refine (combineChartData_showsStacks_iff sampleStacks 1 (samplesOf [2, 1]) ⟨by decide, ?_, by decide⟩).mpr ?_
  · simp [samplesOf]
  · intro before first gap again after path split _ _ _ sample inside
    have lengths := congrArg List.length split
    have some_gap := List.length_pos_of_mem inside
    simp [samplesOf] at lengths
    omega

/-- The callee is drawn at time 15, where only its caller ran. -/
theorem combineChartData_not_showsStacks_calledAgain :
    ¬ ShowsStacks (arrayBufferCallStackHandler sampleStacks) (samplesOf [2, 1, 2])
      (combinePerfSampleByCallChainId (arrayBufferCallStackHandler sampleStacks) 1 (samplesOf [2, 1, 2])) := by
  intro shows
  have wrong := shows.chains ⟨1, 10, 10, 1, 7, 0⟩ (by decide) 15 (by decide) (by decide)
  revert wrong
  decide

end Chart

end SmartPerf.CallChart
