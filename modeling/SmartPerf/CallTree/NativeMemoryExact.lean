import SmartPerf.CallTree.NativeMemory
import SmartPerf.Data.NumberText

namespace SmartPerf.CallTree.ProcedureLogicWorkerNativeMemory

open Data List PathTree

/-! What the nodes of the native memory tree stand for. -/

variable {worker : ProcedureLogicWorkerNativeMemory} {down : Bool}

def frameIds (frame : HeapTreeDataBean) : Int × Int := (frame.symbolId, frame.fileId)

def nodeIds (node : NativeHookCallInfo) : Int × Int := (node.symbolId, node.fileId)

variable (worker)

def threadOf (sample : NativeHookStatistics) : Int :=
  if worker.isHideThread then 0 else sample.tid

def framesOf (isTopDown : Bool) (sample : NativeHookStatistics) : List HeapTreeDataBean :=
  framesFrom isTopDown (worker.createThreadSample sample)

def totals (node : NativeHookCallInfo) : Int × Nat := (node.heapSize, node.count)

def added (sample : NativeHookStatistics) : Int × Nat := (sample.heapSize, orOne sample.count)

def sumOf (samples : List NativeHookStatistics) : Int × Nat :=
  ((samples.map (·.heapSize)).sum, (samples.map fun sample => orOne sample.count).sum)

def samplesThrough (isTopDown : Bool) (taken : NativeHookStatistics → Bool) (samples : List NativeHookStatistics)
    (tid : Int) (path : List (Int × Int)) : List NativeHookStatistics :=
  samples.filter fun sample =>
    taken sample ∧ worker.threadOf sample = tid ∧ path <+: (worker.framesOf isTopDown sample).map frameIds

def samplesOfThread (isTopDown : Bool) (taken : NativeHookStatistics → Bool) (samples : List NativeHookStatistics)
    (tid : Int) : List NativeHookStatistics :=
  samples.filter fun sample => taken sample ∧ worker.threadOf sample = tid ∧ worker.framesOf isTopDown sample ≠ []

/-- The thread nodes and the nodes below them carry the sums of exactly the samples that they stand for. -/
structure IsExact (isTopDown : Bool) (taken : NativeHookStatistics → Bool) (samples : List NativeHookStatistics)
    (threads : List (Int × PathTree NativeHookCallInfo)) : Prop where
  /-- Each thread with a sample has one node. -/
  distinct : (threads.map Prod.fst).Nodup
  shown : ∀ tid, tid ∈ threads.map Prod.fst ↔ worker.samplesOfThread isTopDown taken samples tid ≠ []
  thread : ∀ entry ∈ threads, totals entry.2.data = sumOf (worker.samplesOfThread isTopDown taken samples entry.1)
  /-- Each path that a sample of the thread starts with has one node, and other paths have none. -/
  node : ∀ entry ∈ threads, ∀ path ≠ [],
    (dataAt nodeIds path entry.2.children).map totals =
      if worker.samplesThrough isTopDown taken samples entry.1 path = [] then []
      else [sumOf (worker.samplesThrough isTopDown taken samples entry.1 path)]

variable {worker}

section Keys

theorem idText_toList (id : Int) : (idText id).toList = [] ∨ IsNumberText (idText id).toList := by
  rw [idText]
  split
  · exact .inl rfl
  · exact .inr (isNumberText_repr id)

variable {first second : Int}

theorem idText_injective (same : idText first = idText second) : first = second := by
  have nonempty (id : Int) : id.repr ≠ "" := by
    intro empty
    have text := (isNumberText_repr id).nonempty
    rw [empty] at text
    exact text rfl
  rw [idText, idText] at same
  split at same
  next zero =>
    split at same
    next other => rw [zero, other]
    · exact absurd same.symm (nonempty second)
  · split at same
    · exact absurd same (nonempty first)
    · exact Int.repr_inj.mp same

def rootText (worker : ProcedureLogicWorkerNativeMemory) (thread : Int) (ids : Int × Int) : String :=
  if worker.isHideThread then idText ids.1 ++ "-" ++ idText ids.2
  else thread.repr ++ "-" ++ idText ids.1 ++ "-" ++ idText ids.2

theorem rootKey_eq (sample : NativeHookStatistics) (top : HeapTreeDataBean) :
    worker.rootKey sample top = worker.rootText (worker.threadOf sample) (frameIds top) := by
  rw [rootKey, rootText, threadOf]
  split <;> rfl

theorem ids_of_text {first second : Int × Int}
    (same : (idText first.1).toList ++ '-' :: (idText first.2).toList = (idText second.1).toList ++ '-' :: (idText second.2).toList) :
    first = second := by
  obtain ⟨symbols, files⟩ := pair_dash_inj (idText_toList _) (idText_toList _) (idText_toList _) (idText_toList _) same
  exact Prod.ext (idText_injective (String.toList_inj.mp symbols)) (idText_injective (String.toList_inj.mp files))

theorem rootText_injective {firstIds secondIds : Int × Int}
    (own : worker.isHideThread = true → first = 0) (ownOther : worker.isHideThread = true → second = 0)
    (same : worker.rootText first firstIds = worker.rootText second secondIds) :
    first = second ∧ firstIds = secondIds := by
  rw [rootText, rootText] at same
  split at same
  next hidden =>
    have texts := congrArg String.toList same
    simp only [String.toList_append, append_assoc] at texts
    exact ⟨(own hidden).trans (ownOther hidden).symm, ids_of_text texts⟩
  · have texts := congrArg String.toList same
    simp only [String.toList_append, append_assoc] at texts
    obtain ⟨threads, rests⟩ := number_dash_inj (isNumberText_repr first) (isNumberText_repr second) texts
    exact ⟨Int.repr_inj.mp (String.toList_inj.mp threads), ids_of_text rests⟩

end Keys

section Merging

variable {node : NativeHookCallInfo} {frame : HeapTreeDataBean} {sample : NativeHookStatistics}

theorem mergeCallChainSample_ids (same : node.symbol = "" ∨ nodeIds node = frameIds frame) :
    nodeIds (worker.mergeCallChainSample node frame sample) = frameIds frame := by
  by_cases unnamed : node.symbol = ""
  · simp only [mergeCallChainSample, if_pos unnamed, nodeIds, frameIds]
  · simp only [mergeCallChainSample, if_neg unnamed]
    exact same.resolve_left unnamed

theorem mergeCallChainSample_tid (same : node.symbol = "" ∨ node.tid = sample.tid) :
    (worker.mergeCallChainSample node frame sample).tid = sample.tid := by
  by_cases unnamed : node.symbol = ""
  · simp only [mergeCallChainSample, if_pos unnamed]
  · simp only [mergeCallChainSample, if_neg unnamed]
    exact same.resolve_left unnamed

theorem mergeCallChainSample_totals (notFreed : worker.useFreedSize = false) :
    totals (worker.mergeCallChainSample node frame sample) = totals node + added sample := by
  by_cases unnamed : node.symbol = ""
  · simp [mergeCallChainSample, if_pos unnamed, notFreed, totals, added]
  · simp [mergeCallChainSample, if_neg unnamed, notFreed, totals, added]

def startRoot (sample : NativeHookStatistics) : NativeHookCallInfo := { threadName := some sample.threadName }

def shownThread (worker : ProcedureLogicWorkerNativeMemory) (node : NativeHookCallInfo) : Int :=
  if worker.isHideThread then 0 else node.tid

theorem merging_keyed : Keyed worker.merging nodeIds frameIds fun _ => True where
  fits node frame _ := by
    simp [merging, nodeIds, frameIds]
  new frame sample last _ := mergeCallChainSample_ids (.inl rfl)
  absorb node frame sample last _ same := mergeCallChainSample_ids (.inr same)

theorem merging_grouped :
    Grouped worker.merging startRoot nodeIds worker.shownThread worker.rootText frameIds worker.threadOf
      (fun _ => True) (fun thread _ => worker.isHideThread = true → thread = 0) where
  keyed := merging_keyed
  startKey frame sample _ := mergeCallChainSample_ids (.inl rfl)
  startGroup frame sample _ := by
    rw [shownThread, threadOf]
    split
    · rfl
    · exact mergeCallChainSample_tid (.inl rfl)
  keepGroup node frame sample _ _ same := by
    rw [shownThread, threadOf] at same ⊢
    split
    · rfl
    next shown =>
      rw [if_neg shown, if_neg shown] at same
      exact mergeCallChainSample_tid (.inr same)
  injective first second firstIds secondIds own ownOther same := rootText_injective own ownOther same

end Merging

section Samples

def toEntry (worker : ProcedureLogicWorkerNativeMemory) (isTopDown : Bool) (sample : NativeHookStatistics) :
    Option (Entry HeapTreeDataBean NativeHookStatistics) :=
  if sample.eventId = -1 then none
  else
    match worker.framesOf isTopDown sample with
    | [] => none
    | top :: remaining => some ⟨top, remaining, sample⟩

theorem toEntry_eq_some_iff (sample : NativeHookStatistics) (entry : Entry HeapTreeDataBean NativeHookStatistics) :
    worker.toEntry down sample = some entry ↔ entry.sample = sample ∧
      (if sample.eventId = -1 then [] else worker.framesOf down sample) = entry.top :: entry.remaining := by
  rw [toEntry]
  split
  · simp
  · split
    next frames => simp [frames]
    next top remaining frames =>
      rw [frames, Option.some.injEq, List.cons.injEq]
      constructor
      · rintro rfl
        exact ⟨rfl, rfl, rfl⟩
      · rintro ⟨rfl, rfl, rfl⟩
        rfl

variable (samples : List NativeHookStatistics)

theorem roots_eq :
    samples.foldl (worker.addSample down) [] =
      PathTree.roots worker.merging startRoot worker.rootText frameIds worker.threadOf
        (samples.filterMap (worker.toEntry down)) := by
  rw [PathTree.roots, upsertAll, foldl_filterMap]
  congr 1
  funext map sample
  rw [addSample, toEntry, framesOf]
  by_cases missing : sample.eventId = -1
  · rw [if_pos missing, if_pos missing]
  · rw [if_neg missing, if_neg missing]
    cases framesFrom down (worker.createThreadSample sample) with
    | nil => rfl
    | cons top remaining =>
      simp only [rootKey_eq]
      rfl

theorem entries_fine :
    ∀ entry ∈ samples.filterMap (worker.toEntry down),
      entry.Fine frameIds worker.threadOf (fun _ => True) (fun thread _ => worker.isHideThread = true → thread = 0) := by
  intro entry _
  refine ⟨trivial, fun _ _ => trivial, ?_⟩
  intro hidden
  rw [threadOf, if_pos hidden]

/-- The samples that are not marked as being without a call chain. -/
def hasEvent (sample : NativeHookStatistics) : Bool := sample.eventId ≠ -1

theorem samples_passing (tid : Int) {path : List (Int × Int)} (nonempty : path ≠ []) :
    (passing frameIds worker.threadOf tid path (samples.filterMap (worker.toEntry down))).map
        Entry.sample = worker.samplesThrough down hasEvent samples tid path := by
  rw [passing, samples_filter toEntry_eq_some_iff fun sample frames =>
    worker.threadOf sample = tid ∧ path <+: frames.map frameIds]
  refine filter_congr fun sample _ => ?_
  by_cases missing : sample.eventId = -1
  · simp [hasEvent, missing]
  · have some_frames (runs : path <+: (worker.framesOf down sample).map frameIds) :
        worker.framesOf down sample ≠ [] := by
      intro empty
      rw [empty] at runs
      exact nonempty (prefix_nil.mp runs)
    simpa [hasEvent, missing] using fun _ => some_frames

theorem samples_entries (tid : Int) :
    ((samples.filterMap (worker.toEntry down)).filter fun entry => worker.threadOf entry.sample = tid).map
        Entry.sample = worker.samplesOfThread down hasEvent samples tid := by
  rw [samples_filter toEntry_eq_some_iff fun sample _ => worker.threadOf sample = tid]
  refine filter_congr fun sample _ => ?_
  by_cases missing : sample.eventId = -1 <;> simp [hasEvent, missing, and_comm]

theorem sumOf_eq : (samples.map added).sum = sumOf samples := by
  induction samples with
  | nil => rfl
  | cons sample rest ih => rw [map_cons, sum_cons, ih, sumOf, sumOf, map_cons, map_cons, sum_cons,
      sum_cons, added, Prod.mk_add_mk]

end Samples

section Threads

variable (samples : List NativeHookStatistics)

def rootsOf (worker : ProcedureLogicWorkerNativeMemory) (isTopDown : Bool) (samples : List NativeHookStatistics) :
    List (String × PathTree NativeHookCallInfo) :=
  samples.foldl (worker.addSample isTopDown) []

theorem root_count_pos (notFreed : worker.useFreedSize = false) :
    ∀ entry ∈ worker.rootsOf down samples, 0 < entry.2.data.count := by
  have positive (count : Nat) : 0 < orOne count := by
    rw [orOne]
    split <;> omega
  have grows (node : NativeHookCallInfo) (frame : HeapTreeDataBean) (sample : NativeHookStatistics) :
      0 < (worker.mergeCallChainSample node frame sample).count := by
    have total : (totals (worker.mergeCallChainSample node frame sample)).2 = node.count + orOne sample.count := by
      rw [mergeCallChainSample_totals notFreed]
      rfl
    have more := positive sample.count
    rw [totals] at total
    omega
  rw [rootsOf, roots_eq]
  exact @fine_upsertAll _ _ _ _ _ _ _ (fun _ (root : PathTree NativeHookCallInfo) => 0 < root.data.count) _
    (nofun) (fun _ _ => grows _ _ _) (fun _ _ _ _ => grows _ _ _)

theorem clearThread_same (root : PathTree NativeHookCallInfo) :
    nodeIds (worker.clearThread root).data = nodeIds root.data ∧ (worker.clearThread root).children = root.children ∧
      totals (worker.clearThread root).data = totals root.data := by
  rw [clearThread]
  split <;> exact ⟨rfl, rfl, rfl⟩

theorem filter_clearThread (tid : Int) :
    ((worker.rootsOf down samples).map fun entry => worker.clearThread entry.2).filter (fun root => root.data.tid = tid) =
      (groupRoots worker.shownThread tid (worker.rootsOf down samples)).map worker.clearThread := by
  have inner : ((worker.rootsOf down samples).map fun entry => worker.clearThread entry.2) =
      ((worker.rootsOf down samples).map Prod.snd).map worker.clearThread := by
    rw [map_map]
    rfl
  rw [inner, groupRoots, filter_map]
  congr 1
  apply filter_congr
  intro root _
  rw [Function.comp_apply, clearThread, shownThread]
  split <;> rfl

variable (totalCount : Nat) (totalSize : Int) {thread : PathTree NativeHookCallInfo} {tid : Int}

def threadsOf (worker : ProcedureLogicWorkerNativeMemory) (isTopDown : Bool) (samples : List NativeHookStatistics)
    (totalCount : Nat) (totalSize : Int) : List (Int × PathTree NativeHookCallInfo) :=
  worker.mergeNodeData totalCount totalSize (worker.rootsOf isTopDown samples)

theorem thread_spec (inside : (tid, thread) ∈ worker.threadsOf down samples totalCount totalSize) :
    thread.children =
        (groupRoots worker.shownThread tid (worker.rootsOf down samples)).map worker.clearThread ∧
      totals thread.data = (thread.children.map fun root => (root.data.heapSize, orOne root.data.count)).sum := by
  obtain ⟨children, _, total⟩ := groupNodes_spec totals
    (fun root => (root.data.heapSize, orOne root.data.count)) (fun _ => rfl) (fun _ _ => rfl) inside
  exact ⟨children.trans (filter_clearThread samples tid), total⟩

theorem thread_totals (notFreed : worker.useFreedSize = false)
    (inside : (tid, thread) ∈ worker.threadsOf down samples totalCount totalSize) :
    totals thread.data = sumOf (worker.samplesOfThread down hasEvent samples tid) := by
  obtain ⟨children, total⟩ := thread_spec samples totalCount totalSize inside
  have parts : (thread.children.map fun root => (root.data.heapSize, orOne root.data.count)) =
      (groupRoots worker.shownThread tid (worker.rootsOf down samples)).map fun root => totals root.data := by
    rw [children, map_map]
    apply map_congr_left
    intro root listed
    obtain ⟨entry, inRoots, rfl⟩ := mem_map.mp (mem_of_mem_filter listed)
    have positive := root_count_pos samples notFreed entry inRoots
    have same := (@clearThread_same worker entry.2).2.2
    simp only [totals, Prod.mk.injEq] at same
    rw [Function.comp_apply, same.1, same.2, orOne, if_neg positive.ne']
    rfl
  rw [total, parts, rootsOf, roots_eq, sum_groupRoots totals (fun sample _ => added sample)
    merging_grouped (entries_fine samples) (fun _ => rfl) (fun _ _ _ _ => mergeCallChainSample_totals notFreed), ← sumOf_eq,
    ← samples_entries, map_map]
  rfl

theorem thread_nodes (notFreed : worker.useFreedSize = false)
    (inside : (tid, thread) ∈ worker.threadsOf down samples totalCount totalSize) {path : List (Int × Int)}
    (nonempty : path ≠ []) :
    (dataAt nodeIds path thread.children).map totals =
      if worker.samplesThrough down hasEvent samples tid path = [] then []
      else [sumOf (worker.samplesThrough down hasEvent samples tid path)] := by
  obtain ⟨children, _⟩ := thread_spec samples totalCount totalSize inside
  have same (root : PathTree NativeHookCallInfo) := @clearThread_same worker root
  rw [children, dataAt_map (fun root => (same root).1) (fun root => (same root).2.1) (fun root => (same root).2.2),
    rootsOf, roots_eq, measure_groupRoots totals (fun sample _ => added sample)
      merging_grouped (entries_fine samples) rfl (fun _ => rfl) (fun _ _ _ _ => mergeCallChainSample_totals notFreed) tid nonempty,
    ← samples_passing samples tid nonempty, ← sumOf_eq]
  simp [Function.comp_def]

theorem mem_threads_iff (tid : Int) :
    tid ∈ (worker.threadsOf down samples totalCount totalSize).map Prod.fst ↔
      worker.samplesOfThread down hasEvent samples tid ≠ [] := by
  have roots := @filter_clearThread worker down samples tid
  have empty := groupRoots_eq_nil_iff merging_grouped (@entries_fine worker down samples) tid
  rw [← roots_eq, ← rootsOf] at empty
  rw [threadsOf, mergeNodeData, mem_groupNodes_iff, ← samples_entries]
  constructor
  · rintro ⟨root, listed, same⟩ none
    have inside : root ∈ List.filter (fun root => root.data.tid = tid) _ :=
      mem_filter.mpr ⟨listed, decide_eq_true same⟩
    rw [roots, empty.mpr (by simpa using none)] at inside
    cases inside
  · intro some
    by_contra none
    have absent : groupRoots worker.shownThread tid (worker.rootsOf down samples) = [] := by
      rw [← map_eq_nil_iff, ← roots, filter_eq_nil_iff]
      intro root listed same
      exact none ⟨root, listed, of_decide_eq_true same⟩
    exact some (by simpa using empty.mp absent)

/-- For every list of samples and every table of call chains, from either end and with the threads shown or hidden, the
tree is exact about the samples that have an event. -/
theorem freshCurrentCallchains_exact (nmHeapFrameMap : Int → Option (List HeapTreeDataBean)) (isHideThread isTopDown : Bool)
    (samples : List NativeHookStatistics) :
    let worker : ProcedureLogicWorkerNativeMemory := { nmHeapFrameMap, isHideThread, useFreedSize := false }
    IsExact worker isTopDown hasEvent samples (worker.freshCurrentCallchains samples isTopDown) := by
  intro worker
  have order := objectValues_perm (worker.threadsOf isTopDown samples
    ((samples.filter fun sample => sample.eventId ≠ -1).map fun sample => orOne sample.count).sum
    ((samples.filter fun sample => sample.eventId ≠ -1).map (·.heapSize)).sum)
  refine ⟨?_, ?_, ?_, ?_⟩
  · exact (order.map Prod.fst).nodup_iff.mpr (groupNodes_nodup _)
  · intro tid
    exact (order.map Prod.fst).mem_iff.trans (mem_threads_iff samples _ _ tid)
  · intro entry inside
    exact thread_totals samples _ _ rfl (order.mem_iff.mp inside)
  · intro entry inside path nonempty
    exact thread_nodes samples _ _ rfl (order.mem_iff.mp inside) nonempty

/-- A sample with the event id -1 is left out, even when the table has a call chain for it. -/
theorem freshCurrentCallchains_not_exact_noEvent :
    let worker : ProcedureLogicWorkerNativeMemory :=
      { nmHeapFrameMap := fun _ => some [{ symbolId := 1, fileId := 2 }], isHideThread := false, useFreedSize := false }
    let samples : List NativeHookStatistics := [{ eventId := -1, heapSize := 8, tid := 5 }]
    worker.freshCurrentCallchains samples true = [] ∧
      ¬ IsExact worker true (fun _ => true) samples (worker.freshCurrentCallchains samples true) := by
  intro worker samples
  have empty : worker.freshCurrentCallchains samples true = [] := rfl
  refine ⟨empty, ?_⟩
  intro exact
  have shown := (exact.shown 5).mpr (by decide)
  cases shown

end Threads

end SmartPerf.CallTree.ProcedureLogicWorkerNativeMemory
