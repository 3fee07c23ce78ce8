import SmartPerf.CallTree.Perf
import SmartPerf.Data.NumberText

namespace SmartPerf.CallTree.ProcedureLogicWorkerPerf

open Data List PathTree

/-! What the nodes of the top-down perf tree stand for. -/

variable (worker : ProcedureLogicWorkerPerf) (sample : PerfCountSample) (samples : List PerfCountSample)

def Named (frame : PerfCallChain) : Prop :=
  ∃ name, worker.resolve frame.name = some name ∧ name ≠ ""

def frameName (frame : PerfCallChain) : String := worker.symbolNameOf frame.name

/-- The call chain of a sample with the frames of its thread; nothing when it has no call chain. -/
def extendedChain : List PerfCallChain :=
  match worker.callChainData sample.sampleId with
  | none => []
  | some [] => []
  | some chain => (worker.addOtherCallchainsData sample chain).getD []

def extendedNames : List String :=
  (worker.extendedChain sample).map worker.frameName

/-- The samples of a process whose extended chain starts with a path. -/
def samplesThrough (pid : Int) (path : List String) : List PerfCountSample :=
  samples.filter fun sample => sample.pid = pid ∧ path <+: worker.extendedNames sample

def samplesAt (pid : Int) (path : List String) : List PerfCountSample :=
  samples.filter fun sample => sample.pid = pid ∧ path = worker.extendedNames sample

def samplesOfProcess (pid : Int) : List PerfCountSample :=
  samples.filter fun sample => sample.pid = pid ∧ worker.extendedNames sample ≠ []

/-- The `dur`, `count`, `eventCount` and `selfDur` of a node. -/
def figuresOf (node : PerfCallChainMerageData) : Int × Int × Int × Int :=
  (node.dur, node.count, node.eventCount, node.selfDur)

/-- What a sample adds to them; the flag says that its chain ends at the node. -/
def added (last : Bool) : Int × Int × Int × Int :=
  (sample.count, sample.count, sample.eventCount, if last then sample.count else 0)

/-- What they should be for the samples through a node and the samples that end at it. -/
def figuresFor (through ending : List PerfCountSample) : Int × Int × Int × Int :=
  ((through.map (·.count)).sum, (through.map (·.count)).sum, (through.map (·.eventCount)).sum, (ending.map (·.count)).sum)

/-- The process nodes and the nodes below them carry the numbers of exactly the samples that they stand for. -/
structure IsExact (processes : List (Int × PathTree PerfCallChainMerageData)) : Prop where
  /-- Each process with a sample has one node. -/
  distinct : (processes.map Prod.fst).Nodup
  shown : ∀ pid, pid ∈ processes.map Prod.fst ↔ worker.samplesOfProcess samples pid ≠ []
  process : ∀ entry ∈ processes,
    figuresOf entry.2.data = figuresFor (worker.samplesOfProcess samples entry.1) []
  /-- Each path that a sample of the process starts with has one node, and other paths have none. -/
  node : ∀ entry ∈ processes, ∀ path ≠ [],
    (dataAt PerfCallChainMerageData.symbolName path entry.2.children).map figuresOf =
      if worker.samplesThrough samples entry.1 path = [] then []
      else [figuresFor (worker.samplesThrough samples entry.1 path) (worker.samplesAt samples entry.1 path)]
  /-- Every node has its own part and the parts of its children. -/
  balanced : ∀ entry ∈ processes,
    PathTree.Balanced PerfCallChainMerageData.dur PerfCallChainMerageData.selfDur entry.2

variable {worker}

section Merging

variable {node : PerfCallChainMerageData} {frame : PerfCallChain} {sample : PerfCountSample} {last : Bool}

theorem resolve_of_named (named : worker.Named frame) :
    worker.resolve frame.name = some (worker.frameName frame) ∧ worker.frameName frame ≠ "" := by
  obtain ⟨name, resolved, nonempty⟩ := named
  have same : worker.frameName frame = name := by
    rw [frameName, symbolNameOf, resolved]
    rfl
  rw [same]
  exact ⟨resolved, nonempty⟩

theorem merageCallChainSample_symbolName (same : node.symbolName = "" ∨ node.symbolName = worker.frameName frame) :
    (worker.merageCallChainSample node frame sample last).symbolName = worker.frameName frame := by
  by_cases unnamed : node.symbolName = ""
  · simp only [merageCallChainSample, if_pos unnamed, frameName]
  · simp only [merageCallChainSample, if_neg unnamed]
    exact same.resolve_left unnamed

theorem merageCallChainSample_pid (same : node.symbolName = "" ∨ node.pid = sample.pid) :
    (worker.merageCallChainSample node frame sample last).pid = sample.pid := by
  by_cases unnamed : node.symbolName = ""
  · simp only [merageCallChainSample, if_pos unnamed]
  · simp only [merageCallChainSample, if_neg unnamed]
    exact same.resolve_left unnamed

theorem merageCallChainSample_figures :
    figuresOf (worker.merageCallChainSample node frame sample last) = figuresOf node + added sample last := by
  by_cases unnamed : node.symbolName = ""
  · cases last <;> simp [merageCallChainSample, unnamed, figuresOf, added]
  · cases last <;> simp [merageCallChainSample, unnamed, figuresOf, added]

theorem merging_keyed : Keyed worker.merging PerfCallChainMerageData.symbolName worker.frameName worker.Named where
  fits node frame named := by
    simp [merging, (resolve_of_named named).1, eq_comm]
  new _ _ _ _ := merageCallChainSample_symbolName (.inl rfl)
  absorb _ _ _ _ _ same := merageCallChainSample_symbolName (.inr same)

def rootText (pid : Int) (name : String) : String := name ++ pid.repr

theorem rootText_injective {first second : Int} {firstName secondName : String}
    (bracket : ∃ start, firstName = start ++ ")") (bracketOther : ∃ start, secondName = start ++ ")")
    (same : rootText first firstName = rootText second secondName) : first = second ∧ firstName = secondName := by
  obtain ⟨start, rfl⟩ := bracket
  obtain ⟨otherStart, rfl⟩ := bracketOther
  have texts := congrArg String.toList same
  simp only [rootText, String.toList_append, append_assoc] at texts
  obtain ⟨names, ids⟩ := last_split_inj_of_notMem (notMem_repr (by decide) (by decide) first)
    (notMem_repr (by decide) (by decide) second) texts
  rw [Int.repr_inj.mp (String.toList_inj.mp ids), String.toList_inj.mp names]
  exact ⟨rfl, rfl⟩

theorem merging_grouped :
    Grouped worker.merging (fun _ => {}) PerfCallChainMerageData.symbolName PerfCallChainMerageData.pid rootText
      worker.frameName PerfCountSample.pid worker.Named (fun _ name => ∃ start, name = start ++ ")") where
  keyed := merging_keyed
  startKey _ _ _ := merageCallChainSample_symbolName (.inl rfl)
  startGroup _ _ _ := merageCallChainSample_pid (.inl rfl)
  keepGroup _ _ _ _ _ samePid := merageCallChainSample_pid (.inr samePid)
  injective _ _ _ _ bracket bracketOther same := rootText_injective bracket bracketOther same

theorem merging_weighs : Weighs worker.merging PerfCallChainMerageData.dur PerfCallChainMerageData.selfDur
    PerfCountSample.count where
  newWhole := rfl
  newOwn := rfl
  whole node frame sample last := congrArg (·.1) (@merageCallChainSample_figures worker node frame sample last)
  own node frame sample last := congrArg (·.2.2.2) (@merageCallChainSample_figures worker node frame sample last)

end Merging

section Samples

/-- What the theorem asks of the tables: the threads are shown, the call chains have frames, every frame has a name, and
the threads of the samples are known. -/
structure Shows (worker : ProcedureLogicWorkerPerf) (samples : List PerfCountSample) : Prop where
  threads : worker.isHideThread = false ∧ worker.isOnlyKernel = false
  chains : ∀ sampleId chain, worker.callChainData sampleId = some chain → chain ≠ [] ∧ ∀ frame ∈ chain, worker.Named frame
  known : ∀ sample ∈ samples, (worker.threadData sample.tid).isSome

variable {samples : List PerfCountSample} {sample : PerfCountSample}

theorem extendedChain_cases (tables : worker.Shows samples) (inside : sample ∈ samples) :
    (worker.callChainData sample.sampleId = none ∧ worker.extendedChain sample = []) ∨
      ∃ chain thread remaining, worker.callChainData sample.sampleId = some chain ∧ chain ≠ [] ∧
        worker.addOtherCallchainsData sample chain = some (threadCallChain thread sample :: remaining) ∧
        worker.extendedChain sample = threadCallChain thread sample :: remaining ∧ remaining ≠ [] ∧
        ∀ frame ∈ remaining, worker.Named frame := by
  cases found : worker.callChainData sample.sampleId with
  | none =>
    refine .inl ⟨rfl, ?_⟩
    rw [extendedChain, found]
  | some chain =>
    obtain ⟨nonempty, named⟩ := tables.chains _ chain found
    obtain ⟨thread, known⟩ := Option.isSome_iff_exists.mp (tables.known sample inside)
    obtain ⟨shown, whole⟩ := tables.threads
    refine .inr ⟨chain, thread, if worker.isHideThreadState then chain else threadStateCallChain sample :: chain, rfl, nonempty,
      ?_, ?_, ?_, ?_⟩
    · simp [addOtherCallchainsData, known, shown, whole]
    · cases chain with
      | nil => exact absurd rfl nonempty
      | cons first rest => simp [extendedChain, found, addOtherCallchainsData, known, shown, whole]
    · split
      · exact nonempty
      · exact cons_ne_nil _ _
    · intro frame listed
      split at listed
      · exact named frame listed
      · rcases mem_cons.mp listed with rfl | later
        · refine ⟨_, rfl, ?_⟩
          rw [orText]
          split
          · decide
          · assumption
        · exact named frame later

theorem named_threadCallChain (thread : PerfThread) : worker.Named (threadCallChain thread sample) := by
  refine ⟨_, rfl, ?_⟩
  intro empty
  have length := congrArg String.length empty
  simp at length

def toEntry (worker : ProcedureLogicWorkerPerf) (sample : PerfCountSample) :
    Option (Entry PerfCallChain PerfCountSample) :=
  match worker.extendedChain sample with
  | [] => none
  | top :: remaining => some ⟨top, remaining, sample⟩

theorem toEntry_eq_some_iff (sample : PerfCountSample) (entry : Entry PerfCallChain PerfCountSample) :
    worker.toEntry sample = some entry ↔
      entry.sample = sample ∧ worker.extendedChain sample = entry.top :: entry.remaining := by
  rw [toEntry]
  split
  next frames => simp [frames]
  next top remaining frames =>
    rw [frames, Option.some.injEq, List.cons.injEq]
    constructor
    · rintro rfl
      exact ⟨rfl, rfl, rfl⟩
    · rintro ⟨rfl, rfl, rfl⟩
      rfl

theorem entries_fine (tables : worker.Shows samples) :
    ∀ entry ∈ samples.filterMap worker.toEntry,
      entry.remaining ≠ [] ∧
        entry.Fine worker.frameName PerfCountSample.pid worker.Named (fun _ name => ∃ start, name = start ++ ")") := by
  intro entry inside
  obtain ⟨sample, listed, made⟩ := mem_filterMap.mp inside
  obtain ⟨_, frames⟩ := (toEntry_eq_some_iff _ _).mp made
  rcases extendedChain_cases tables listed with ⟨_, empty⟩ | ⟨chain, thread, remaining, _, _, _, extended, deep, named⟩
  · rw [empty] at frames
    cases frames
  · rw [extended] at frames
    obtain ⟨sameTop, sameRest⟩ := List.cons.inj frames
    rw [← sameRest]
    refine ⟨deep, ?_, ?_, ?_⟩
    · rw [← sameTop]
      exact named_threadCallChain thread
    · rw [← sameRest]
      exact named
    · rw [← sameTop]
      exact ⟨_, rfl⟩

def rootsOf (worker : ProcedureLogicWorkerPerf) (samples : List PerfCountSample) :
    List (String × PathTree PerfCallChainMerageData) :=
  PathTree.roots worker.merging (fun _ => {}) rootText worker.frameName PerfCountSample.pid
    (samples.filterMap worker.toEntry)

theorem foldlM_addSample (tables : worker.Shows samples) :
    samples.foldlM (worker.addSample true) [] = some (worker.rootsOf samples) := by
  have step (map : List (String × PathTree PerfCallChainMerageData)) (sample : PerfCountSample) (inside : sample ∈ samples) :
      worker.addSample true map sample =
        some (match worker.toEntry sample with
          | some entry => upsert (rootKeyOf rootText worker.frameName PerfCountSample.pid entry)
              (PathTree.mergeRoot worker.merging (fun _ => {}) entry) map
          | none => map) := by
    rcases extendedChain_cases tables inside with
      ⟨none, empty⟩ | ⟨chain, thread, remaining, found, nonempty, extends_, extended, _, _⟩
    · rw [addSample, none, toEntry, empty]
    · cases chain with
      | nil => exact absurd rfl nonempty
      | cons first rest =>
        rw [addSample, found]
        simp only [extends_, toEntry, extended]
        rfl
  rw [foldlM_some samples [] step, rootsOf, PathTree.roots, upsertAll, foldl_filterMap]
  congr 2
  funext map sample
  cases worker.toEntry sample <;> rfl

theorem samples_passing (pid : Int) {path : List String} (nonempty : path ≠ []) :
    (passing worker.frameName PerfCountSample.pid pid path (samples.filterMap worker.toEntry)).map
        Entry.sample = worker.samplesThrough samples pid path := by
  rw [passing, samples_filter toEntry_eq_some_iff fun sample frames =>
    sample.pid = pid ∧ path <+: frames.map worker.frameName]
  refine filter_congr fun sample _ => ?_
  cases frames : worker.extendedChain sample with
  | nil => simp [extendedNames, frames, nonempty]
  | cons top remaining => simp [extendedNames, frames]

theorem samples_entries (pid : Int) :
    ((samples.filterMap worker.toEntry).filter fun entry => entry.sample.pid = pid).map Entry.sample =
      worker.samplesOfProcess samples pid := by
  rw [samples_filter toEntry_eq_some_iff fun sample _ => sample.pid = pid, samplesOfProcess]
  simp [extendedNames, and_comm]

theorem figuresFor_eq (through : List PerfCountSample) (ends : PerfCountSample → Bool) :
    (through.map fun sample => added sample (ends sample)).sum = figuresFor through (through.filter ends) := by
  induction through with
  | nil => rfl
  | cons sample rest ih =>
    rw [map_cons, sum_cons, ih, figuresFor, figuresFor]
    by_cases last : ends sample = true
    · simp [last, added]
    · simp [last, added]

end Samples

section Processes

variable {samples : List PerfCountSample} (totalEventCount totalSamplesCount : Int)

def processesOf (worker : ProcedureLogicWorkerPerf) (samples : List PerfCountSample)
    (totalEventCount totalSamplesCount : Int) : List (Int × PathTree PerfCallChainMerageData) :=
  groupNodes (fun root => root.data.pid) (worker.newProcess totalEventCount totalSamplesCount)
    (growProcess totalEventCount totalSamplesCount) ((worker.rootsOf samples).map Prod.snd)

theorem process_spec {pid : Int} {process : PathTree PerfCallChainMerageData}
    (inside : (pid, process) ∈ worker.processesOf samples totalEventCount totalSamplesCount) :
    process.children = groupRoots PerfCallChainMerageData.pid pid (worker.rootsOf samples) ∧
      figuresOf process.data =
        (process.children.map fun root => (root.data.dur, root.data.dur, root.data.eventCount, (0 : Int))).sum := by
  obtain ⟨children, _, total⟩ := groupNodes_spec figuresOf
    (fun root => (root.data.dur, root.data.dur, root.data.eventCount, (0 : Int))) (fun _ => rfl)
    (by simp [figuresOf, growProcess]) inside
  exact ⟨children, total⟩

section

variable (tables : worker.Shows samples)
include tables

section

variable {pid : Int} {process : PathTree PerfCallChainMerageData}
  (inside : (pid, process) ∈ worker.processesOf samples totalEventCount totalSamplesCount)
include inside

theorem process_figures : figuresOf process.data = figuresFor (worker.samplesOfProcess samples pid) [] := by
  obtain ⟨children, total⟩ := process_spec totalEventCount totalSamplesCount inside
  have sums := figuresFor_eq (worker.samplesOfProcess samples pid) fun _ => false
  simp only [filter_false] at sums
  rw [total, children, rootsOf, sum_groupRoots (fun node => (node.dur, node.dur, node.eventCount, (0 : Int)))
      (fun sample _ => (sample.count, sample.count, sample.eventCount, (0 : Int))) merging_grouped
      (fun entry listed => (entries_fine tables entry listed).2) (fun _ => rfl)
      (fun node frame sample last => by
        have figures := @merageCallChainSample_figures worker node frame sample last
        simp only [figuresOf, added, Prod.mk_add_mk, Prod.mk.injEq] at figures
        simp only [merging, Prod.mk_add_mk, figures.1, figures.2.2.1, add_zero]),
    ← sums, ← samples_entries, map_map]
  rfl

theorem process_nodes {path : List String} (nonempty : path ≠ []) :
    (dataAt PerfCallChainMerageData.symbolName path process.children).map figuresOf =
      if worker.samplesThrough samples pid path = [] then []
      else [figuresFor (worker.samplesThrough samples pid path) (worker.samplesAt samples pid path)] := by
  obtain ⟨children, _⟩ := process_spec totalEventCount totalSamplesCount inside
  have fine (entry : Entry PerfCallChain PerfCountSample) (listed : entry ∈ samples.filterMap worker.toEntry) :=
    (entries_fine tables entry listed).2
  rw [children, rootsOf, measure_groupRoots figuresOf added
    merging_grouped fine rfl (fun _ => rfl) (fun _ _ _ _ => merageCallChainSample_figures) pid nonempty]
  have ends : ((passing worker.frameName PerfCountSample.pid pid path (samples.filterMap worker.toEntry)).map
        fun entry => added entry.sample
          (decide (path.length ≠ 1 ∧ path = (entry.top :: entry.remaining).map worker.frameName))) =
      (worker.samplesThrough samples pid path).map fun sample => added sample (decide (path = worker.extendedNames sample)) := by
    rw [← samples_passing pid nonempty, map_map]
    apply map_congr_left
    intro entry passes
    have listed := mem_of_mem_filter passes
    obtain ⟨sample, _, made⟩ := mem_filterMap.mp listed
    obtain ⟨rfl, frames⟩ := (toEntry_eq_some_iff _ _).mp made
    have deep := (entries_fine tables entry listed).1
    have long : path = (entry.top :: entry.remaining).map worker.frameName → path.length ≠ 1 := by
      rintro rfl
      simpa using deep
    have same : (path.length ≠ 1 ∧ path = (entry.top :: entry.remaining).map worker.frameName) ↔
        path = worker.extendedNames entry.sample := by
      rw [extendedNames, frames]
      exact ⟨fun both => both.2, fun equal => ⟨long equal, equal⟩⟩
    simp only [Function.comp_apply, same]
  have ending : (worker.samplesThrough samples pid path).filter (fun sample => path = worker.extendedNames sample) =
      worker.samplesAt samples pid path := by
    rw [samplesThrough, samplesAt, filter_filter]
    apply filter_congr
    intro sample _
    rw [← Bool.decide_and, decide_eq_decide]
    constructor
    · rintro ⟨equal, samePid, _⟩
      exact ⟨samePid, equal⟩
    · rintro ⟨samePid, equal⟩
      exact ⟨equal, samePid, equal ▸ prefix_rfl⟩
  rw [ends, figuresFor_eq, ending, ← samples_passing pid nonempty]
  simp

theorem process_balanced : PathTree.Balanced PerfCallChainMerageData.dur PerfCallChainMerageData.selfDur process := by
  obtain ⟨children, total⟩ := process_spec totalEventCount totalSamplesCount inside
  have fine (entry : Entry PerfCallChain PerfCountSample) (listed : entry ∈ samples.filterMap worker.toEntry) :=
    entries_fine tables entry listed
  obtain ⟨data, roots⟩ := process
  refine .node data roots ?_ ?_
  · have sums (trees : List (PathTree PerfCallChainMerageData)) :
        (trees.map fun root => (root.data.dur, root.data.dur, root.data.eventCount, (0 : Int))).sum =
          ((trees.map fun root => root.data.dur).sum, (trees.map fun root => root.data.dur).sum,
            (trees.map fun root => root.data.eventCount).sum, 0) := by
      induction trees with
      | nil => rfl
      | cons root rest ih => simp [ih]
    rw [sums] at total
    simp only [figuresOf, data_node, children_node, Prod.mk.injEq] at total
    rw [total.1, total.2.2.2, zero_add]
  · intro root listed
    rw [children_node] at children
    rw [children] at listed
    obtain ⟨entry, inRoots, rfl⟩ := mem_map.mp (mem_of_mem_filter listed)
    have found := find_of_mem roots_nodup inRoots
    obtain ⟨occurs, text⟩ := roots_fine merging_grouped (fun entry listed => (fine entry listed).2) entry inRoots
    rw [text, find_roots merging_grouped (fun entry listed => (fine entry listed).2) occurs] at found
    refine growRoot_balanced _ merging_keyed merging_weighs (fun _ => rfl) (fun _ => rfl) ?_ none
      (fun _ absent => nomatch absent) found
    intro own ownListed
    have listed := mem_of_mem_filter ownListed
    exact ⟨(fine own listed).1, (fine own listed).2.remaining⟩

end

theorem mem_processes_iff (pid : Int) :
    pid ∈ (worker.processesOf samples totalEventCount totalSamplesCount).map Prod.fst ↔
      worker.samplesOfProcess samples pid ≠ [] := by
  have empty := groupRoots_eq_nil_iff merging_grouped (fun entry listed => (entries_fine tables entry listed).2) pid
  rw [← rootsOf, groupRoots, filter_eq_nil_iff] at empty
  rw [processesOf, mem_groupNodes_iff, ← samples_entries]
  constructor
  · rintro ⟨root, listed, same⟩ none
    exact empty.mpr (by simpa using none) root listed (decide_eq_true same)
  · intro some
    by_contra none
    refine some ?_
    have absent := empty.mp fun root listed same => none ⟨root, listed, of_decide_eq_true same⟩
    simpa using absent

theorem root_tid : ∀ entry ∈ worker.rootsOf samples, (worker.threadData entry.2.data.tid).isSome := by
  have kept (node : PerfCallChainMerageData) (frame : PerfCallChain) (sample : PerfCountSample) (last : Bool) :
      (worker.merageCallChainSample node frame sample last).tid = node.tid ∨
        (worker.merageCallChainSample node frame sample last).tid = sample.tid := by
    by_cases unnamed : node.symbolName = ""
    · exact .inr (by simp only [merageCallChainSample, if_pos unnamed])
    · exact .inl (by simp only [merageCallChainSample, if_neg unnamed])
  have known (entry : Entry PerfCallChain PerfCountSample) (listed : entry ∈ samples.filterMap worker.toEntry) :
      (worker.threadData entry.sample.tid).isSome := by
    obtain ⟨sample, inside, made⟩ := mem_filterMap.mp listed
    obtain ⟨rfl, _⟩ := (toEntry_eq_some_iff _ _).mp made
    exact tables.known _ inside
  apply @fine_upsertAll _ _ _ _ _ _ _
    (fun _ (root : PathTree PerfCallChainMerageData) => (worker.threadData root.data.tid).isSome = true)
  · exact nofun
  · intro entry listed
    -- A new root has no name yet, so it takes the thread of the sample.
    exact known entry listed
  · intro entry listed root fine
    rcases kept root.data entry.top entry.sample false with old | new
    · exact (congrArg (fun tid => (worker.threadData tid).isSome) old).trans fine
    · exact (congrArg (fun tid => (worker.threadData tid).isSome) new).trans (known entry listed)

theorem mergeNodeData_eq :
    worker.mergeNodeData totalEventCount totalSamplesCount (worker.rootsOf samples) =
      some (worker.processesOf samples totalEventCount totalSamplesCount) := by
  apply foldlM_some
  intro map root listed
  obtain ⟨entry, inRoots, rfl⟩ := mem_map.mp listed
  have known := root_tid tables entry inRoots
  rw [mergeProcess, if_neg]
  rintro ⟨_, unknown⟩
  rw [Option.isNone_iff_eq_none] at unknown
  rw [unknown] at known
  cases known

end

/-- With the threads shown the top-down tree is exact. -/
theorem freshPerfCallchains_exact (worker : ProcedureLogicWorkerPerf) (samples : List PerfCountSample)
    (tables : worker.Shows samples) :
    ∃ processes, worker.freshPerfCallchains samples true = some processes ∧ IsExact worker samples processes := by
  have order := objectValues_perm
    (worker.processesOf samples (samples.map (·.eventCount)).sum (samples.map (·.count)).sum)
  refine ⟨objectValues (worker.processesOf samples (samples.map (·.eventCount)).sum (samples.map (·.count)).sum), ?_, ?_, ?_, ?_,
    ?_, ?_⟩
  · simp [freshPerfCallchains, foldlM_addSample tables, mergeNodeData_eq _ _ tables]
  · exact (order.map Prod.fst).nodup_iff.mpr (groupNodes_nodup _)
  · intro pid
    exact (order.map Prod.fst).mem_iff.trans (mem_processes_iff _ _ tables pid)
  · intro entry inside
    exact process_figures _ _ tables (order.mem_iff.mp inside)
  · intro entry inside path nonempty
    exact process_nodes _ _ tables (order.mem_iff.mp inside) nonempty
  · intro entry inside
    exact process_balanced _ _ tables (order.mem_iff.mp inside)

/-- Every sample ran `main` and then `read`. -/
def readWorker : ProcedureLogicWorkerPerf where
  dataDict id := if id = 10 then some "main" else some "read"
  threadData _ := some { threadName := "worker" }
  callChainData _ := some [{ name := .index 10 }, { name := .index 11 }]
  isHideThread := false
  isHideThreadState := false
  isOnlyKernel := false

theorem freshPerfCallchains_readWorker :
    ∃ processes, readWorker.freshPerfCallchains [⟨1, 7, 2, "Running", 5, 30, []⟩, ⟨2, 8, 1, "", 5, 10, []⟩] true = some processes ∧
      IsExact readWorker [⟨1, 7, 2, "Running", 5, 30, []⟩, ⟨2, 8, 1, "", 5, 10, []⟩] processes := by
  apply freshPerfCallchains_exact
  refine ⟨⟨rfl, rfl⟩, ?_, fun _ _ => rfl⟩
  intro sampleId chain found
  cases found
  refine ⟨cons_ne_nil _ _, ?_⟩
  intro frame inside
  rcases mem_cons.mp inside with rfl | last
  · exact ⟨"main", rfl, by decide⟩
  · rw [mem_singleton.mp last]
    exact ⟨"read", rfl, by decide⟩

end Processes

end SmartPerf.CallTree.ProcedureLogicWorkerPerf
