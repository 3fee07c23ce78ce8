import SmartPerf.Data.FusedTree

namespace SmartPerf.CallTree.ProcedureLogicWorkerJsCpuProfiler

open Data List PathTree

/-! The bottom-up view of the JS profiler. -/

structure CallFrame where
  nameId : Nat
  urlId : Nat
  line : Nat
  column : Nat
  selfTime : Nat
  totalTime : Nat
deriving Repr, DecidableEq

/-- A frame of the chart, with its `isSelect`. -/
abbrev ChartFrame := PathTree (CallFrame × Bool)

/-- The numbers of the key: line and column tell anonymous functions apart. -/
def symbolKey (frame : CallFrame) : List Nat :=
  if frame.nameId = 0 then [frame.nameId, frame.urlId, frame.line, frame.column] else [frame.nameId, frame.urlId]

/-- A row of the tab, with its `chartFrameChildren`. -/
abbrev Row := CallFrame × List ChartFrame

def addTimes (frame : CallFrame) (children : List ChartFrame) (row : Row) : Row :=
  if symbolKey row.1 = symbolKey frame then
    ({ row.1 with
      totalTime := row.1.totalTime + frame.totalTime
      selfTime := row.1.selfTime + frame.selfTime }, row.2 ++ children)
  else row

/-- The loop over the frames of one level. -/
def addFrame (rows : List Row) : ChartFrame → List Row
  | .node (frame, isSelect) children =>
    if !isSelect then rows
    else if rows.any fun row => symbolKey row.1 = symbolKey frame then rows.map (addTimes frame children)
    else rows ++ [(frame, children)]

/-- The first argument bounds the levels. -/
def combineTopDownData : Nat → List ChartFrame → List (PathTree CallFrame)
  | 0, _ => []
  | levels + 1, chartArray =>
    (chartArray.foldl addFrame []).map fun row => .node row.1 (combineTopDownData levels row.2)

def withTimes (frame top : CallFrame) : CallFrame := { frame with selfTime := top.selfTime, totalTime := top.totalTime }

@[simp] theorem symbolKey_withTimes (frame top : CallFrame) : symbolKey (withTimes frame top) = symbolKey frame := rfl

/-- The copy of a stack, innermost frame first: a caller is the child of what it calls and has the times of the top. -/
def copyParent (top : CallFrame) : List CallFrame → List ChartFrame
  | [] => []
  | parent :: rest => [.node (withTimes parent top, true) (copyParent top rest)]

mutual

def recursionTree (parents : List CallFrame) : ChartFrame → List ChartFrame
  | .node (frame, isSelect) children =>
    if !isSelect then []
    else (if frame.selfTime > 0 then copyParent frame (frame :: parents) else []) ++
      reverseChartFrameTree (frame :: parents) children

def reverseChartFrameTree (parents : List CallFrame) : List ChartFrame → List ChartFrame
  | [] => []
  | chartFrame :: rest => recursionTree parents chartFrame ++ reverseChartFrameTree parents rest

end

/-- There are no more levels than frames. -/
def combineBottomUpData (chartTreeArray : List ChartFrame) : List (PathTree CallFrame) :=
  let reverseTreeArray := reverseChartFrameTree [] chartTreeArray
  combineTopDownData (flatten reverseTreeArray).length reverseTreeArray

/-- A frame, after its path to the root with the innermost frame first. -/
abbrev Stack := List CallFrame × CallFrame

mutual

def stacksOf (parents : List CallFrame) : ChartFrame → List Stack
  | .node (frame, isSelect) children =>
    if isSelect then (frame :: parents, frame) :: callStacks (frame :: parents) children else []

/-- The stacks of the frames that are not hidden. -/
def callStacks (parents : List CallFrame) : List ChartFrame → List Stack
  | [] => []
  | chartFrame :: rest => stacksOf parents chartFrame ++ callStacks parents rest

end

def timed (entries : List Stack) : List Stack := entries.filter fun entry => 0 < entry.2.selfTime

def copies (entries : List Stack) : List ChartFrame := entries.flatMap fun entry => copyParent entry.2 entry.1

mutual

theorem recursionTree_eq (parents : List CallFrame) (chartFrame : ChartFrame) :
    recursionTree parents chartFrame = copies (timed (stacksOf parents chartFrame)) := by
  obtain ⟨⟨frame, isSelect⟩, children⟩ := chartFrame
  have below := reverseChartFrameTree_eq (frame :: parents) children
  rw [recursionTree, stacksOf, below]
  cases isSelect with
  | false => rfl
  | true => by_cases time : 0 < frame.selfTime <;> simp [time, copies, timed]

theorem reverseChartFrameTree_eq (parents : List CallFrame) (chartTreeArray : List ChartFrame) :
    reverseChartFrameTree parents chartTreeArray = copies (timed (callStacks parents chartTreeArray)) := by
  cases chartTreeArray with
  | nil => rfl
  | cons chartFrame rest =>
    have first := recursionTree_eq parents chartFrame
    have others := reverseChartFrameTree_eq parents rest
    rw [reverseChartFrameTree, callStacks, first, others]
    simp [copies, timed]

end

/-- What a node of the view does with a stack that runs through it: it has the names of the first. -/
def stackMerging : Merging CallFrame CallFrame CallFrame where
  fits data frame := symbolKey data = symbolKey frame
  new := ⟨0, 0, 0, 0, 0, 0⟩
  absorb data frame top _ :=
    { if symbolKey data = symbolKey frame then data else frame with
      selfTime := data.selfTime + top.selfTime
      totalTime := data.totalTime + top.totalTime }

theorem stackMerging_absorb_new (frame top : CallFrame) (last : Bool) :
    stackMerging.absorb stackMerging.new frame top last = withTimes frame top := by
  obtain ⟨nameId, urlId, line, column, _, _⟩ := frame
  cases nameId with
  | zero =>
    by_cases zeros : 0 = urlId ∧ 0 = line ∧ 0 = column
    · obtain ⟨rfl, rfl, rfl⟩ := zeros
      simp [stackMerging, withTimes, symbolKey]
    · simp [stackMerging, withTimes, symbolKey, zeros]
  | succ nameId => simp [stackMerging, withTimes, symbolKey]

theorem stackMerging_keyed : Keyed stackMerging symbolKey symbolKey fun _ => True where
  fits _ _ _ := rfl
  new frame top last _ := by
    rw [stackMerging_absorb_new]
    rfl
  absorb data frame top last _ same := by
    simp only [stackMerging, if_pos same]
    exact same

theorem addTimes_of_fit {row : Row} {parent : CallFrame} (fit : symbolKey row.1 = symbolKey parent) (top : CallFrame)
    (children : List ChartFrame) (last : Bool) :
    addTimes (withTimes parent top) children row = (stackMerging.absorb row.1 parent top last, row.2 ++ children) := by
  rw [addTimes, symbolKey_withTimes]
  simp [stackMerging, fit, withTimes]

variable {chartArray : List ChartFrame} {entries : List Stack} {levels : Nat}

theorem combineTopDownData_nil (levels : Nat) : combineTopDownData levels [] = [] := by
  cases levels <;> rfl

/-- Merging level by level takes a further stack down its path. -/
theorem combineTopDownData_append (top : CallFrame) {stack : List CallFrame} (short : stack.length ≤ levels)
    (distinct : Distinct symbolKey (combineTopDownData levels chartArray)) :
    combineTopDownData levels (chartArray ++ copyParent top stack) =
      merge stackMerging top stack (combineTopDownData levels chartArray) := by
  induction stack generalizing levels chartArray with
  | nil => rw [copyParent, append_nil, PathTree.merge]
  | cons parent rest ih =>
    obtain ⟨levels, shorter, rfl⟩ : ∃ less, rest.length ≤ less ∧ levels = less + 1 := ⟨levels - 1, by simp at short; omega⟩
    have apart {some : List Row} (none : select symbolKey (symbolKey parent)
        (some.map fun row => .node row.1 (combineTopDownData levels row.2)) = []) :
        ∀ row ∈ some, ¬ symbolKey row.1 = symbolKey parent := by
      intro row inside same
      exact filter_eq_nil_iff.mp none _ (mem_map_of_mem inside) (decide_eq_true same)
    rw [combineTopDownData, copyParent, foldl_append, foldl_cons, foldl_nil, addFrame, if_neg (by decide), symbolKey_withTimes]
    rcases merge_cons stackMerging_keyed trivial top rest distinct with
      ⟨none, merged⟩ | ⟨before, tree, after, whole, fit, early, late, merged⟩
    · have grown := ih shorter (combineTopDownData_nil levels ▸ distinct_nil)
      rw [nil_append, combineTopDownData_nil] at grown
      rw [merged, if_neg (by simpa only [any_eq_true, decide_eq_true_eq, not_exists, not_and] using apart none), map_append,
        stackMerging_absorb_new, ← grown]
      rfl
    · -- the roots of the merged trees are the rows, so the rows are split as the roots are
      obtain ⟨front, _, rows, rfl, others⟩ := map_eq_append_iff.mp whole
      obtain ⟨row, back, rfl, rfl, rfl⟩ := map_eq_cons_iff.mp others
      have kept {some : List Row} (misfits : ∀ row ∈ some, ¬ symbolKey row.1 = symbolKey parent) :
          some.map (addTimes (withTimes parent top) (copyParent top rest)) = some :=
        (map_congr_left fun row inside => if_neg (misfits row inside)).trans (map_id some)
      have lone := distinct.under (symbolKey parent)
      rw [whole, under, select_append, early, select_cons_of_eq fit, late] at lone
      have deeper := ih shorter (by simpa using lone)
      have present : (front ++ row :: back).any fun row => symbolKey row.1 = symbolKey parent :=
        any_eq_true.mpr ⟨row, mem_append_right front mem_cons_self, decide_eq_true fit⟩
      rw [merged, rows, if_pos present, map_append, map_cons, kept (apart early), kept (apart late),
        addTimes_of_fit fit _ _ rest.isEmpty, map_append, map_cons, deeper]
      rfl

theorem combineTopDownData_copies (short : ∀ entry ∈ entries, entry.1.length ≤ levels)
    (distinct : Distinct symbolKey (combineTopDownData levels chartArray)) :
    combineTopDownData levels (chartArray ++ copies entries) =
      mergeAll stackMerging entries (combineTopDownData levels chartArray) := by
  induction entries generalizing chartArray with
  | nil => rw [copies, flatMap_nil, append_nil, mergeAll, foldl_nil]
  | cons entry rest ih =>
    have step := combineTopDownData_append entry.2 (short entry mem_cons_self) distinct
    have merged := distinct.merge stackMerging_keyed entry.2 fun frame (_ : frame ∈ entry.1) => trivial
    rw [← step] at merged
    rw [copies, flatMap_cons, ← copies, ← append_assoc, ih (forall_mem_of_forall_mem_cons short) merged, step,
      mergeAll, mergeAll, foldl_cons]

theorem length_le_flatten : ∀ entry ∈ entries, entry.1.length ≤ (flatten (copies entries)).length := by
  have length (top : CallFrame) (stack : List CallFrame) : (flatten (copyParent top stack)).length = stack.length := by
    induction stack with
    | nil => rfl
    | cons parent rest ih => rw [copyParent, flatten_node, length_cons, ih, length_cons]
  intro entry inside
  obtain ⟨before, after, rfl⟩ := append_of_mem inside
  rw [copies, flatMap_append, flatMap_cons, PathTree.flatten_append, PathTree.flatten_append,
    length_append, length_append, length]
  omega

/-- A path has a node exactly when a frame with self time that is not hidden has a stack that starts with it; it is then
the only one, and its self time is the sum over these frames. -/
theorem combineBottomUpData_exact (chartTreeArray : List ChartFrame) (first : List Nat) (rest : List (List Nat)) :
    (dataAt symbolKey (first :: rest) (combineBottomUpData chartTreeArray)).map CallFrame.selfTime =
      if through symbolKey (first :: rest) (timed (callStacks [] chartTreeArray)) = [] then []
      else [((through symbolKey (first :: rest) (timed (callStacks [] chartTreeArray))).map (·.2.selfTime)).sum] := by
  have empty := combineTopDownData_nil (flatten (copies (timed (callStacks [] chartTreeArray)))).length
  have merged := combineTopDownData_copies length_le_flatten (empty ▸ distinct_nil)
  rw [nil_append, empty] at merged
  rw [combineBottomUpData, reverseChartFrameTree_eq, merged]
  have adds (data frame top : CallFrame) (last : Bool) :
      (stackMerging.absorb data frame top last).selfTime = data.selfTime + top.selfTime := rfl
  exact measure_mergeAll stackMerging_keyed rfl adds (fun _ _ _ _ => trivial) (cons_ne_nil first rest)

end SmartPerf.CallTree.ProcedureLogicWorkerJsCpuProfiler
