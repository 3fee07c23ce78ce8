import SmartPerf.Data.ListLookup
import SmartPerf.Slice.SliceFilter

namespace SmartPerf.Slice

open Data List SliceFilter CallStack

/-! What the begins and ends of all threads say about the slices, without stacks,
and that the table of `SliceFilter` holds it. -/

/-- A slice as the events tell it. -/
structure Span where
  thread : Nat
  beginTs : Nat
  endTs : Option Nat := none
  cat : Nat
  name : Nat
  depth : Nat
  parent : Option Nat
deriving Repr, DecidableEq

def Span.isOpenOf (thread : Nat) (span : Span) : Bool := span.thread == thread && span.endTs.isNone

theorem isOpenOf_iff {thread : Nat} {span : Span} :
    span.isOpenOf thread = true ↔ span.thread = thread ∧ span.endTs = none := by
  simp [Span.isOpenOf]

/-- The slices of the thread that have not ended, outermost first. -/
def openOf (thread : Nat) (spans : List Span) : List Nat :=
  (List.range spans.length).filter fun index => spans[index]?.any (Span.isOpenOf thread)

def Span.endAt (timeStamp : Nat) (span : Span) : Span := { span with endTs := some timeStamp }

variable (spans : List Span)

def begun (timeStamp thread cat name : Nat) : Span where
  thread := thread
  beginTs := timeStamp
  cat := cat
  name := name
  depth := (openOf thread spans).length
  parent := (openOf thread spans).getLast?

/-- A begin nests in the open slices of its thread, an end closes the innermost of
them. -/
def insertEvent : SliceEvent → List Span
  | .beginSlice timeStamp internalTid cat nameIndex =>
    spans ++ [begun spans timeStamp.toNat internalTid.toNat cat.toNat nameIndex.toNat]
  | .endSlice timeStamp internalTid =>
    match (openOf internalTid.toNat spans).getLast? with
    | none => spans
    | some innermost => spans.modify innermost (Span.endAt timeStamp.toNat)

def nest (events : List SliceEvent) : List Span := events.foldl insertEvent []

/-- The row of a slice. An open one lasts `-1`, and no parent is `INVALID_UINT32`. -/
def Span.row (id : Nat) (span : Span) : CallStackRow where
  id := id
  timeStamp := span.beginTs
  dur := match span.endTs with
    | none => invalidUint64
    | some endTs => endTs - span.beginTs
  callId := span.thread
  parentId := some (span.parent.getD invalidUint32)
  cat := span.cat
  name := span.name
  depth := span.depth

def rowsOf : List CallStackRow := spans.mapIdx Span.row

section OpenOf

variable {spans : List Span} {span : Span} {thread index innermost : Nat}

theorem mem_openOf : index ∈ openOf thread spans ↔ ∃ span, spans[index]? = some span ∧ span.isOpenOf thread = true := by
  simp only [openOf, mem_filter, mem_range]
  constructor
  · rintro ⟨-, opened⟩
    exact (Option.any_eq_true _ _).mp opened
  · rintro ⟨span, found, opened⟩
    exact ⟨lookup_lt found, (Option.any_eq_true _ _).mpr ⟨span, found, opened⟩⟩

theorem openOf_ascending (thread : Nat) (spans : List Span) : (openOf thread spans).Pairwise (· < ·) :=
  pairwise_lt_range.filter _

theorem le_innermost (found : (openOf thread spans).getLast? = some innermost) (member : index ∈ openOf thread spans) :
    index ≤ innermost := by
  obtain ⟨init, split⟩ := getLast?_eq_some_iff.mp found
  have ascending := openOf_ascending thread spans
  rw [split] at ascending member
  rcases mem_append.mp member with before | last
  · exact ((pairwise_append.mp ascending).2.2 index before innermost (by simp)).le
  · exact (mem_singleton.mp last).le

theorem openOf_append (thread : Nat) (spans : List Span) (span : Span) :
    openOf thread (spans ++ [span]) = openOf thread spans ++ if span.isOpenOf thread then [spans.length] else [] := by
  have before : (List.range spans.length).filter
      (fun index => (spans ++ [span])[index]?.any (Span.isOpenOf thread)) = openOf thread spans := by
    apply filter_congr
    intro index inside
    rw [getElem?_append_left (mem_range.mp inside)]
  rw [openOf, length_append, length_singleton, range_succ, filter_append, before]
  simp [filter_singleton]

theorem filter_ne_last {numbers : List Nat} {last : Nat} (ascending : numbers.Pairwise (· < ·))
    (found : numbers.getLast? = some last) : numbers.filter (· != last) = numbers.dropLast := by
  obtain ⟨init, rfl⟩ := getLast?_eq_some_iff.mp found
  have below : ∀ number ∈ init, number < last := by
    intro number member
    exact (pairwise_append.mp ascending).2.2 number member last (by simp)
  rw [filter_append, dropLast_concat, filter_eq_self.mpr]
  · simp
  · intro number member
    exact bne_iff_ne.mpr ((below number member).ne)

theorem openOf_end (found : (openOf thread spans).getLast? = some innermost) (endTs : Nat) :
    openOf thread (spans.modify innermost (Span.endAt endTs)) = (openOf thread spans).dropLast := by
  rw [← filter_ne_last (openOf_ascending thread spans) found, openOf, openOf, length_modify, filter_filter]
  apply filter_congr
  intro index _
  by_cases here : innermost = index
  · subst here
    cases lookup : spans[innermost]? <;> simp [lookup, Span.isOpenOf, Span.endAt]
  · simp [here, Ne.symm here]

theorem openOf_other {other : Nat} (different : thread ≠ other)
    (found : (openOf thread spans).getLast? = some innermost) (endTs : Nat) :
    openOf other (spans.modify innermost (Span.endAt endTs)) = openOf other spans := by
  obtain ⟨span, lookup, opened⟩ := mem_openOf.mp (mem_of_getLast? found)
  obtain ⟨own, -⟩ := isOpenOf_iff.mp opened
  rw [openOf, openOf, length_modify]
  apply filter_congr
  intro index _
  by_cases here : innermost = index
  · subst here
    simp [lookup, Span.isOpenOf, Span.endAt, own, different]
  · simp [here]

end OpenOf

section Stack

variable {slices : CallStack} {stack : SlicesStack} {slice : SliceData}

theorem closeUnMatchedSlice_of_open
    (opened : ∀ slice ∈ stack, toInt64 (slices.durs.getD (slice.index % 2 ^ 32) 0) = -1) (ts : Nat) :
    closeUnMatchedSlice ts slices stack = (slices, stack) := by
  have loop : ∀ count incomplete,
      closeUnMatchedSliceBelow (toInt64 ts) count incomplete slices stack = (slices, stack) := by
    intro count
    induction count with
    | zero => exact fun _ => rfl
    | succ i ih =>
      intro incomplete
      cases found : stack[i]? with
      | none => simp only [closeUnMatchedSliceBelow, found, ih]
      | some slice =>
        have negative := opened slice (mem_of_getElem? found)
        simp only [closeUnMatchedSliceBelow, found, negative, if_true, ih]
  exact loop stack.length false

theorem matchingIncompleteSliceIndex_last (found : stack.getLast? = some slice)
    (opened : toInt64 (slices.durs.getD (slice.index % 2 ^ 32) 0) = -1) :
    matchingIncompleteSliceIndex slices stack invalidUint64 invalidUint64 = some (stack.length - 1) := by
  obtain ⟨init, rfl⟩ := getLast?_eq_some_iff.mp found
  simp only [matchingIncompleteSliceIndex, length_append, length_singleton,
    matchingIncompleteSliceIndexBelow, getElem?_concat_length, opened, ne_eq, not_true, if_false, false_and,
    Nat.add_sub_cancel]

end Stack

/-- The table holds the spans, and each stack the open ones of its thread. -/
structure Reconstructs (filter : SliceFilter) (spans : List Span) : Prop where
  table : filter.slices = ofRows (rowsOf spans)
  sync : ∀ thread, ((filter.binderStackMap thread).getD {}).isAsyncEvent = false
  stack : ∀ thread, ((filter.binderStackMap thread).getD {}).sliceStack.map (·.index) = openOf thread spans

theorem reconstructs_initial : Reconstructs {} [] where
  table := rfl
  sync := fun _ => rfl
  stack := fun _ => rfl

namespace Reconstructs

variable {filter : SliceFilter} {spans : List Span} {timeStamp thread : Nat}

theorem row_lookup {index : Nat} {span : Span} (found : spans[index]? = some span) :
    (rowsOf spans)[index]? = some (span.row index) := by
  simp [rowsOf, found]

theorem columns {index : Nat} {span : Span} (found : spans[index]? = some span) :
    (ofRows (rowsOf spans)).ids.getD index 0 = index ∧
      (ofRows (rowsOf spans)).timeStamps.getD index 0 = span.beginTs ∧
      (ofRows (rowsOf spans)).durs.getD index 0 = (span.row index).dur := by
  have row := row_lookup found
  simp [ofRows, row, Span.row]

theorem rowsOf_begun (spans : List Span) (timeStamp thread cat name : Nat) :
    let row : CallStackInternalRow :=
      { startT := timeStamp, durationNs := (-1 % 2 ^ 64 : Int).toNat, internalTid := thread, cat, name, depth := 0 }
    let slices := (ofRows (rowsOf spans)).appendInternalSlice row
      (some ((openOf thread spans).getLast?.getD invalidUint32))
    slices.size - 1 = spans.length ∧
      slices.setDepth spans.length (openOf thread spans).length =
        ofRows (rowsOf (spans ++ [begun spans timeStamp thread cat name])) := by
  simp only [appendInternalSlice_ofRows]
  have length : (rowsOf spans).length = spans.length := by simp [rowsOf]
  rw [← length, setDepth_ofRows getElem?_concat_length]
  simp [rowsOf, CallStackInternalRow.append, begun, Span.row, invalidUint64]

theorem rowsOf_ended {index : Nat} {span : Span} (found : spans[index]? = some span)
    (ordered : span.beginTs ≤ timeStamp) (valid : timeStamp < 2 ^ 64) :
    (ofRows (rowsOf spans)).setDuration index timeStamp =
      ofRows (rowsOf (spans.modify index (Span.endAt timeStamp))) := by
  rw [setDuration_ofRows (row_lookup found)]
  congr 1
  apply ext_getElem?
  intro place
  by_cases here : index = place
  · subst here
    obtain ⟨inside, rfl⟩ := List.getElem?_eq_some_iff.mp found
    simp [rowsOf, inside, Span.row, Span.endAt, subUint64_of_le ordered valid]
  · simp [rowsOf, here]

section

variable (shows : Reconstructs filter spans)
include shows

/-- Only the stack of one thread is written. -/
theorem update {next : SliceFilter} {after : List Span} {info : StackInfo} (table : next.slices = ofRows (rowsOf after))
    (written : next.binderStackMap = Function.update filter.binderStackMap thread (some info))
    (sync : info.isAsyncEvent = false) (own : info.sliceStack.map (·.index) = openOf thread after)
    (others : ∀ other, other ≠ thread → openOf other after = openOf other spans) : Reconstructs next after := by
  refine ⟨table, fun other => ?_, fun other => ?_⟩
  · by_cases same : other = thread
    · simpa [written, same] using sync
    · simpa [written, same] using shows.sync other
  · by_cases same : other = thread
    · simpa [written, same] using own
    · simpa [written, same, others other same] using shows.stack other

theorem endSlice_none (empty : openOf thread spans = []) (timeStamp : Nat) :
    Reconstructs (filter.endSlice timeStamp thread invalidUint64 invalidUint64).2 spans := by
  have stack := shows.stack thread
  rw [empty, map_eq_nil_iff] at stack
  unfold SliceFilter.endSlice completeSlice
  cases found : filter.binderStackMap thread with
  | none => exact shows
  | some info =>
    rw [found, Option.getD_some] at stack
    have sync := shows.sync thread
    rw [found] at sync
    simp only [stack, closeUnMatchedSlice, length_nil, closeUnMatchedSliceBelow]
    refine shows.update shows.table rfl sync ?_ fun _ _ => rfl
    rw [empty, map_nil]

variable (small : spans.length ≤ 2 ^ 32)
include small

theorem opened {index : Nat} (member : index ∈ openOf thread spans) :
    index % 2 ^ 32 = index ∧ filter.slices.ids.getD index 0 = index ∧
      toInt64 (filter.slices.durs.getD index 0) = -1 := by
  obtain ⟨span, found, isOpen⟩ := mem_openOf.mp member
  have inside := lookup_lt found
  obtain ⟨-, unended⟩ := isOpenOf_iff.mp isOpen
  obtain ⟨ids, -, durs⟩ := columns found
  rw [shows.table]
  refine ⟨Nat.mod_eq_of_lt (by omega), ids, ?_⟩
  rw [durs, Span.row, unended]
  change toInt64 invalidUint64 = -1
  decide

theorem unmatched (timeStamp thread : Nat) :
    closeUnMatchedSlice timeStamp filter.slices ((filter.binderStackMap thread).getD {}).sliceStack =
      (filter.slices, ((filter.binderStackMap thread).getD {}).sliceStack) := by
  refine closeUnMatchedSlice_of_open (fun slice member => ?_) timeStamp
  have index : slice.index ∈ openOf thread spans := by
    rw [← shows.stack thread]
    exact mem_map_of_mem member
  obtain ⟨narrow, -, negative⟩ := shows.opened small index
  rw [narrow, negative]

theorem parent (thread : Nat) :
    parentIdOf filter.slices ((filter.binderStackMap thread).getD {}).sliceStack =
      (openOf thread spans).getLast?.getD invalidUint32 := by
  unfold parentIdOf
  have innermost := congrArg List.getLast? (shows.stack thread)
  rw [getLast?_map] at innermost
  cases last : ((filter.binderStackMap thread).getD {}).sliceStack.getLast? with
  | none => simp [← innermost, last]
  | some slice =>
    simp only [last, Option.map_some] at innermost
    obtain ⟨narrow, ids, -⟩ := shows.opened small (mem_of_getLast? innermost.symm)
    simp only [← innermost, ids, narrow, Option.getD_some]

theorem beginSlice_eq (shallow : (openOf thread spans).length < 255) (timeStamp cat name : Nat) :
    ∃ slice : SliceData, slice.index = spans.length ∧
      (filter.beginSlice timeStamp thread cat name).2 =
        let info := (filter.binderStackMap thread).getD {}
        { filter with
          slices := ofRows (rowsOf (spans ++ [begun spans timeStamp thread cat name]))
          binderStackMap := Function.update filter.binderStackMap thread
            (some { info with sliceStack := info.sliceStack ++ [slice] }) } := by
  have depth : ((filter.binderStackMap thread).getD {}).sliceStack.length = (openOf thread spans).length := by
    rw [← shows.stack thread, length_map]
  have unmatched := shows.unmatched small timeStamp thread
  have parent := shows.parent small thread
  have sync := shows.sync thread
  have enough : ¬ invalidUint8 ≤ (openOf thread spans).length := by
    simp only [invalidUint8]
    omega
  obtain ⟨size, table⟩ := rowsOf_begun spans timeStamp thread cat name
  rw [← shows.table] at size table
  refine ⟨{ timeStamp, duration := -1, internalTid := thread, cat, name, depth := (openOf thread spans).length,
            index := spans.length, argSetId := invalidUint32 }, rfl, ?_⟩
  simp only [SliceFilter.beginSlice, startSlice, sync, Bool.false_eq_true, if_false, false_and, unmatched,
    parent, depth, enough, size, table, sliceArgs, length_nil, if_true,
    rememberSliceData, Function.update_self, Option.getD_some, Function.update_idem]

theorem beginSlice (shallow : (openOf thread spans).length < 255) (timeStamp cat name : Nat) :
    Reconstructs (filter.beginSlice timeStamp thread cat name).2
      (spans ++ [begun spans timeStamp thread cat name]) := by
  obtain ⟨slice, index, after⟩ := shows.beginSlice_eq small shallow timeStamp cat name
  rw [after]
  refine shows.update rfl rfl (shows.sync thread) ?_ fun other different => ?_
  · rw [openOf_append, map_append, shows.stack thread]
    simp [index, begun, Span.isOpenOf]
  · simp [openOf_append, Ne.symm different, begun, Span.isOpenOf]

theorem endSlice_some {innermost : Nat} (found : (openOf thread spans).getLast? = some innermost)
    (ordered : ∀ span, spans[innermost]? = some span → span.beginTs ≤ timeStamp) (valid : timeStamp < 2 ^ 64) :
    Reconstructs (filter.endSlice timeStamp thread invalidUint64 invalidUint64).2
      (spans.modify innermost (Span.endAt timeStamp)) := by
  have stack := shows.stack thread
  have sync := shows.sync thread
  have unmatched := shows.unmatched small timeStamp thread
  obtain ⟨span, lookup, -⟩ := mem_openOf.mp (mem_of_getLast? found)
  have table := rowsOf_ended lookup (ordered span lookup) valid
  unfold SliceFilter.endSlice completeSlice
  cases stored : filter.binderStackMap thread with
  | none =>
    simp only [stored] at stack
    rw [← stack] at found
    cases found
  | some info =>
    simp only [stored, Option.getD_some] at stack sync unmatched
    obtain ⟨slice, last, index⟩ : ∃ slice, info.sliceStack.getLast? = some slice ∧ slice.index = innermost := by
      rw [← stack, getLast?_map] at found
      exact Option.map_eq_some_iff.mp found
    obtain ⟨narrow, -, negative⟩ := shows.opened small (mem_of_getLast? found)
    have matching := matchingIncompleteSliceIndex_last last (by rw [index, narrow, negative])
    have nonempty : info.sliceStack.length ≠ 0 := by
      rintro zero
      rw [length_eq_zero_iff.mp zero] at last
      cases last
    have top : info.sliceStack[info.sliceStack.length - 1]? = some slice := by
      rw [← getLast?_eq_getElem?, last]
    simp only [unmatched, nonempty, if_false, matching, top, Option.map_some, Option.getD_some, index, if_true,
      handleAsyncEventAndOther, sync, length_nil, Bool.false_eq_true, false_and]
    refine shows.update (by rw [shows.table, table]) (Function.update_idem _ _ _) rfl ?_
      fun other different => openOf_other (Ne.symm different) found timeStamp
    · rw [openOf_end found, ← stack]
      simp

end

end Reconstructs

/-- The interval of a slice lies inside that of another slice of its thread. -/
def Span.Within (span outer : Span) : Prop :=
  span.thread = outer.thread ∧ outer.beginTs ≤ span.beginTs ∧
    ∀ outerEnd, outer.endTs = some outerEnd → ∃ endTs, span.endTs = some endTs ∧ endTs ≤ outerEnd

structure Nested (now : Nat) (spans : List Span) : Prop where
  begins : ∀ (index : Nat) (span : Span), spans[index]? = some span → span.beginTs ≤ now
  ends : ∀ (index : Nat) (span : Span) (endTs : Nat), spans[index]? = some span → span.endTs = some endTs →
    span.beginTs ≤ endTs ∧ endTs ≤ now
  parents : ∀ (index : Nat) (span : Span) (parent : Nat), spans[index]? = some span → span.parent = some parent →
    parent < index ∧ ∃ outer, spans[parent]? = some outer ∧ span.Within outer

theorem nested_initial : Nested 0 [] := ⟨by simp, by simp, by simp⟩

namespace Nested

variable {spans : List Span} {now timeStamp thread innermost : Nat}

theorem later (nested : Nested now spans) (forward : now ≤ timeStamp) : Nested timeStamp spans where
  begins := fun index span found => (nested.begins index span found).trans forward
  ends := by
    intro index span endTs found ended
    have bounds := nested.ends index span endTs found ended
    exact ⟨bounds.1, bounds.2.trans forward⟩
  parents := nested.parents

variable (nested : Nested timeStamp spans)
include nested

theorem begun (thread cat name : Nat) : Nested timeStamp (spans ++ [begun spans timeStamp thread cat name]) := by
  refine ⟨fun index span found => ?_, fun index span endTs found ended => ?_, fun index span parent found child => ?_⟩
  · rcases lookup_append_iff.mp found with old | ⟨-, rfl⟩
    · exact nested.begins index span old
    · exact le_rfl
  · rcases lookup_append_iff.mp found with old | ⟨-, rfl⟩
    · exact nested.ends index span endTs old ended
    · cases ended
  · rcases lookup_append_iff.mp found with old | ⟨rfl, rfl⟩
    · obtain ⟨before, outer, outerFound, within⟩ := nested.parents index span parent old child
      exact ⟨before, outer, lookup_append_of_lookup outerFound _, within⟩
    · -- the parent is open, so the new slice cannot outlast it yet
      obtain ⟨outer, outerFound, isOpen⟩ := mem_openOf.mp (mem_of_getLast? child)
      obtain ⟨own, unended⟩ := isOpenOf_iff.mp isOpen
      have inside := lookup_lt outerFound
      refine ⟨inside, outer, lookup_append_of_lookup outerFound _, own.symm, nested.begins parent outer outerFound, ?_⟩
      intro outerEnd ended
      cases unended.symm.trans ended

variable (found : (openOf thread spans).getLast? = some innermost)
include found

theorem within_ended {index parent : Nat} {span outer : Span}
    (spanFound : spans[index]? = some span) (outerFound : spans[parent]? = some outer) (earlier : parent < index)
    (within : span.Within outer) :
    (if innermost = index then span.endAt timeStamp else span).Within
      (if innermost = parent then outer.endAt timeStamp else outer) := by
  obtain ⟨inner, innerFound, isOpen⟩ := mem_openOf.mp (mem_of_getLast? found)
  obtain ⟨own, unended⟩ := isOpenOf_iff.mp isOpen
  obtain ⟨same, begins, ends⟩ := within
  by_cases closes : innermost = index
  · subst closes
    cases Option.mem_unique innerFound spanFound
    rw [if_pos rfl, if_neg earlier.ne']
    refine ⟨same, begins, fun outerEnd outerEnded => ?_⟩
    obtain ⟨endTs, ended, -⟩ := ends outerEnd outerEnded
    cases unended.symm.trans ended
  · rw [if_neg closes]
    by_cases outerCloses : innermost = parent
    · subst outerCloses
      cases Option.mem_unique innerFound outerFound
      rw [if_pos rfl]
      refine ⟨same, begins, ?_⟩
      rintro outerEnd ⟨⟩
      cases ended : span.endTs with
      | some endTs => exact ⟨endTs, rfl, (nested.ends index span endTs spanFound ended).2⟩
      | none =>
        -- an open slice inside would be further in than the innermost
        have member : index ∈ openOf thread spans :=
          mem_openOf.mpr ⟨span, spanFound, isOpenOf_iff.mpr ⟨same.trans own, ended⟩⟩
        exact absurd (le_innermost found member) (Nat.not_le.mpr earlier)
    · rw [if_neg outerCloses]
      exact ⟨same, begins, ends⟩

theorem ended : Nested timeStamp (spans.modify innermost (Span.endAt timeStamp)) := by
  refine ⟨fun index span lookup => ?_, fun index span endTs lookup ended => ?_, fun index span parent lookup child => ?_⟩
  · obtain ⟨before, beforeFound, rfl⟩ := lookup_modify_iff.mp lookup
    have begins := nested.begins index before beforeFound
    split <;> exact begins
  · obtain ⟨before, beforeFound, rfl⟩ := lookup_modify_iff.mp lookup
    split at ended
    next same =>
      cases ended
      rw [if_pos same]
      exact ⟨nested.begins index before beforeFound, le_rfl⟩
    next other =>
      rw [if_neg other]
      exact nested.ends index before endTs beforeFound ended
  · obtain ⟨before, beforeFound, rfl⟩ := lookup_modify_iff.mp lookup
    have child : before.parent = some parent := by
      split at child <;> exact child
    obtain ⟨earlier, outer, outerFound, within⟩ := nested.parents index before parent beforeFound child
    exact ⟨earlier, _, lookup_modify_iff.mpr ⟨outer, outerFound, rfl⟩,
      nested.within_ended found beforeFound outerFound earlier within⟩

end Nested

section Run

variable {filter : SliceFilter} {spans : List Span} {now : Nat} {event : SliceEvent}

theorem Nested.insertEvent (nested : Nested now spans) (forward : now ≤ event.timeStamp) :
    Nested event.timeStamp (insertEvent spans event) := by
  have nested := nested.later forward
  cases event with
  | beginSlice timeStamp internalTid cat nameIndex => exact nested.begun _ _ _
  | endSlice timeStamp internalTid =>
    simp only [Slice.insertEvent]
    cases found : (openOf internalTid.toNat spans).getLast? with
    | none => exact nested
    | some innermost => exact nested.ended found

def Shallow (spans : List Span) : SliceEvent → Prop
  | .beginSlice _ internalTid .. => (openOf internalTid.toNat spans).length < 255
  | .endSlice .. => True

theorem Reconstructs.insert (shows : Reconstructs filter spans) (nested : Nested now spans)
    (forward : now ≤ event.timeStamp) (small : spans.length ≤ 2 ^ 32) (shallow : Shallow spans event) :
    Reconstructs (filter.insert event) (insertEvent spans event) := by
  cases event with
  | beginSlice timeStamp internalTid cat nameIndex => exact shows.beginSlice small shallow _ _ _
  | endSlice timeStamp internalTid =>
    simp only [insertEvent]
    cases found : (openOf internalTid.toNat spans).getLast? with
    | none => exact shows.endSlice_none (getLast?_eq_none_iff.mp found) _
    | some innermost =>
      refine shows.endSlice_some small found (fun span lookup => ?_) timeStamp.toNat_lt
      exact (nested.begins innermost span lookup).trans forward

theorem insertEvent_keeps {index : Nat} {span : Span} (found : spans[index]? = some span) (event : SliceEvent) :
    ∃ after, (insertEvent spans event)[index]? = some after ∧ after.depth = span.depth ∧
      (span.thread ≠ event.internalTid → after = span) := by
  cases event with
  | beginSlice timeStamp internalTid cat nameIndex =>
    exact ⟨span, lookup_append_of_lookup found _, rfl, fun _ => rfl⟩
  | endSlice timeStamp internalTid =>
    simp only [insertEvent]
    cases last : (openOf internalTid.toNat spans).getLast? with
    | none => exact ⟨span, found, rfl, fun _ => rfl⟩
    | some innermost =>
      obtain ⟨inner, innerFound, isOpen⟩ := mem_openOf.mp (mem_of_getLast? last)
      refine ⟨_, lookup_modify_iff.mpr ⟨span, found, rfl⟩, ?_, fun other => ?_⟩
      · split <;> rfl
      · have elsewhere : innermost ≠ index := by
          rintro rfl
          cases Option.mem_unique innerFound found
          exact other (isOpenOf_iff.mp isOpen).1
        rw [if_neg elsewhere]

theorem foldl_keeps_depth {index : Nat} {span : Span} (found : spans[index]? = some span) (events : List SliceEvent) :
    ∃ after, (events.foldl insertEvent spans)[index]? = some after ∧ after.depth = span.depth := by
  induction events generalizing spans span with
  | nil => exact ⟨span, found, rfl⟩
  | cons event rest ih =>
    obtain ⟨next, nextFound, depth, -⟩ := insertEvent_keeps found event
    obtain ⟨after, afterFound, same⟩ := ih nextFound
    exact ⟨after, afterFound, same.trans depth⟩

theorem length_le_foldl (spans : List Span) (events : List SliceEvent) :
    spans.length ≤ (events.foldl insertEvent spans).length := by
  rcases Nat.eq_zero_or_pos spans.length with zero | positive
  · omega
  · have found := getElem?_eq_getElem (show spans.length - 1 < spans.length by omega)
    obtain ⟨after, lookup, -⟩ := foldl_keeps_depth found events
    have inside := lookup_lt lookup
    omega

theorem Reconstructs.run (shows : Reconstructs filter spans) (nested : Nested now spans)
    (events : List SliceEvent) (ordered : (now :: events.map SliceEvent.timeStamp).Pairwise (· ≤ ·))
    (shallow : ∀ span ∈ events.foldl insertEvent spans, span.depth < 255)
    (few : (events.foldl insertEvent spans).length ≤ 2 ^ 32) :
    Reconstructs (filter.run events) (events.foldl insertEvent spans) ∧
      ∃ last, Nested last (events.foldl insertEvent spans) := by
  induction events generalizing filter spans now with
  | nil => exact ⟨shows, now, nested⟩
  | cons event rest ih =>
    obtain ⟨first, later⟩ := pairwise_cons.mp ordered
    have forward := first event.timeStamp (by simp)
    have small : spans.length ≤ 2 ^ 32 := (length_le_foldl spans (event :: rest)).trans few
    have room : Shallow spans event := by
      cases event with
      | endSlice timeStamp internalTid => trivial
      | beginSlice timeStamp internalTid cat nameIndex =>
        obtain ⟨after, lookup, depth⟩ := foldl_keeps_depth (getElem?_concat_length) rest
        have bound := shallow after (mem_of_getElem? lookup)
        rw [depth] at bound
        exact bound
    exact ih (shows.insert nested forward small room) (nested.insertEvent forward) later shallow few

end Run

/-- For begins and ends of any threads, with nesting below 255 and at most `2 ^ 32`
slices, the table holds exactly the slices that the events tell: an end closes the
innermost open slice of its thread, depth and parent are those at the begin, a slice
lies inside its parent, and no event changes the slices of another thread. -/
theorem slices_reconstructed (events : List SliceEvent) (ordered : (events.map SliceEvent.timeStamp).Pairwise (· ≤ ·))
    (shallow : ∀ span ∈ nest events, span.depth < 255) (few : (nest events).length ≤ 2 ^ 32) :
    (SliceFilter.run {} events).slices = ofRows (rowsOf (nest events)) ∧
      (∀ (index : Nat) (span : Span), (nest events)[index]? = some span →
        (∀ endTs, span.endTs = some endTs → span.beginTs ≤ endTs) ∧ (∀ parent, span.parent = some parent →
            ∃ outer, (nest events)[parent]? = some outer ∧ span.Within outer) ∧
          ∀ event, span.thread ≠ event.internalTid → (insertEvent (nest events) event)[index]? = some span) := by
  obtain ⟨reconstructs, last, nested⟩ := reconstructs_initial.run nested_initial events
    (pairwise_cons.mpr ⟨fun _ _ => Nat.zero_le _, ordered⟩) shallow few
  refine ⟨reconstructs.table, fun index span found => ⟨fun endTs ended => ?_, fun parent child => ?_, fun event other => ?_⟩⟩
  · exact (nested.ends index span endTs found ended).1
  · exact (nested.parents index span parent found child).2
  · obtain ⟨after, lookup, -, same⟩ := insertEvent_keeps found event
    exact same other ▸ lookup

/-- Thread 1 opens a slice at 1 and one inside it at 2, and thread 2 one at 3. -/
def interleaved : List SliceEvent :=
  [.beginSlice 1 1 0 10, .beginSlice 2 1 0 11, .beginSlice 3 2 0 12, .endSlice 4 1, .endSlice 5 3, .endSlice 6 1]

theorem slices_reconstructed_interleaved :
    (SliceFilter.run {} interleaved).slices.durs = [5, 2, invalidUint64] ∧
      (SliceFilter.run {} interleaved).slices.parentIds = [some invalidUint32, some 0, some invalidUint32] := by
  rw [(slices_reconstructed interleaved (by decide) (by decide) (by decide)).1]
  decide

/-- `count` slices of thread 1, each ended before the next begins. -/
def onePairAfterAnother : Nat → List SliceEvent
  | 0 => []
  | count + 1 => onePairAfterAnother count ++ [.beginSlice 0 1 0 0, .endSlice 0 1]

def openSpan : Span where
  thread := 1
  beginTs := 0
  cat := 0
  name := 0
  depth := 0
  parent := none

def endedSpan : Span where
  thread := 1
  beginTs := 0
  endTs := some 0
  cat := 0
  name := 0
  depth := 0
  parent := none

theorem openOf_replicate (thread count : Nat) : openOf thread (List.replicate count endedSpan) = [] := by
  rw [eq_nil_iff_forall_not_mem]
  intro index member
  obtain ⟨span, found, isOpen⟩ := mem_openOf.mp member
  cases eq_of_mem_replicate (mem_of_getElem? found)
  cases (isOpenOf_iff.mp isOpen).2

variable (count : Nat)

theorem begin_replicate :
    insertEvent (List.replicate count endedSpan) (.beginSlice 0 1 0 0) =
      List.replicate count endedSpan ++ [openSpan] := by
  simp only [insertEvent, begun, openOf_replicate]
  rfl

theorem openOf_replicate_begun : openOf 1 (List.replicate count endedSpan ++ [openSpan]) = [count] := by
  rw [openOf_append, openOf_replicate]
  simp [Span.isOpenOf, openSpan]

theorem nest_onePairAfterAnother : nest (onePairAfterAnother count) = List.replicate count endedSpan := by
  induction count with
  | zero => rfl
  | succ count ih =>
    have ends : insertEvent (List.replicate count endedSpan ++ [openSpan]) (.endSlice 0 1) =
        List.replicate count endedSpan ++ [endedSpan] := by
      simp only [insertEvent, UInt32.reduceToNat, openOf_replicate_begun, getLast?_singleton]
      rw [modify_eq_take_cons_drop (by simp)]
      simp [Span.endAt, endedSpan, openSpan]
    have before : (onePairAfterAnother count).foldl insertEvent [] = List.replicate count endedSpan := ih
    rw [onePairAfterAnother, nest, foldl_append, before, foldl_cons, foldl_cons, begin_replicate,
      foldl_nil, ends, replicate_succ']

theorem timeStamp_onePairAfterAnother : ∀ event ∈ onePairAfterAnother count, event.timeStamp = 0 := by
  induction count with
  | zero => simp [onePairAfterAnother]
  | succ count ih =>
    intro event member
    simp only [onePairAfterAnother, mem_append, mem_cons, not_mem_nil, or_false] at member
    rcases member with before | rfl | rfl
    · exact ih event before
    · rfl
    · rfl

theorem endSlice_wrapped {filter : SliceFilter} {count : Nat} (wraps : count = 2 ^ 32)
    (shows : Reconstructs filter (List.replicate count endedSpan ++ [openSpan])) :
    (filter.endSlice 0 1 invalidUint64 invalidUint64).2.slices = filter.slices := by
  have zero : (List.replicate count endedSpan ++ [openSpan])[0]? = some endedSpan :=
    lookup_append_of_lookup (by rw [getElem?_replicate, if_pos (by omega)]) _
  obtain ⟨-, start, dur⟩ := Reconstructs.columns zero
  rw [← shows.table] at start dur
  have ended : toInt64 (filter.slices.durs.getD 0 0) = 0 := by rw [dur]; decide
  have started : toInt64 (filter.slices.timeStamps.getD 0 0) = 0 := by rw [start]; decide
  have stack := shows.stack 1
  rw [openOf_replicate_begun] at stack
  unfold SliceFilter.endSlice completeSlice
  cases stored : filter.binderStackMap 1 with
  | none => rfl
  | some info =>
    rw [stored, Option.getD_some] at stack
    obtain ⟨slice, entries, index⟩ := map_eq_singleton_iff.mp stack
    have narrow : slice.index % 2 ^ 32 = 0 := by
      rw [index, wraps, Nat.mod_self]
    have closed : closeUnMatchedSlice 0 filter.slices info.sliceStack = (filter.slices, []) := by
      simp only [closeUnMatchedSlice, entries, length_singleton, closeUnMatchedSliceBelow,
        getElem?_cons_zero, narrow, ended, started]
      rfl
    simp [closed]

theorem onePairAfterAnother_ordered : ((onePairAfterAnother count).map SliceEvent.timeStamp).Pairwise (· ≤ ·) := by
  have zeros : (onePairAfterAnother count).map SliceEvent.timeStamp =
      List.replicate (onePairAfterAnother count).length 0 := by
    rw [eq_replicate_iff, length_map]
    refine ⟨rfl, fun timeStamp member => ?_⟩
    obtain ⟨event, inside, rfl⟩ := mem_map.mp member
    exact timeStamp_onePairAfterAnother count event inside
  rw [zeros]
  exact pairwise_replicate.mpr (.inr (Nat.le_refl 0))

theorem onePairAfterAnother_shallow : ∀ span ∈ nest (onePairAfterAnother count), span.depth < 255 := by
  rw [nest_onePairAfterAnother]
  intro span member
  rw [eq_of_mem_replicate member]
  decide

theorem onePairAfterAnother_unclosed {count : Nat} (wraps : count = 2 ^ 32) :
    (SliceFilter.run {} (onePairAfterAnother (count + 1))).slices ≠
      ofRows (rowsOf (nest (onePairAfterAnother (count + 1)))) := by
  have few : (nest (onePairAfterAnother count)).length ≤ 2 ^ 32 := by
    rw [nest_onePairAfterAnother, length_replicate]
    exact wraps.le
  obtain ⟨pairs, -⟩ := reconstructs_initial.run nested_initial (onePairAfterAnother count)
    (pairwise_cons.mpr ⟨fun _ _ => Nat.zero_le _, onePairAfterAnother_ordered count⟩)
    (onePairAfterAnother_shallow count) few
  change Reconstructs _ (nest (onePairAfterAnother count)) at pairs
  have begun : Reconstructs ((SliceFilter.run {} (onePairAfterAnother count)).insert (.beginSlice 0 1 0 0))
      (List.replicate count endedSpan ++ [openSpan]) := by
    rw [← begin_replicate, ← nest_onePairAfterAnother]
    refine pairs.beginSlice few ?_ 0 0 0
    rw [nest_onePairAfterAnother, openOf_replicate]
    decide
  have run : SliceFilter.run {} (onePairAfterAnother (count + 1)) =
      ((SliceFilter.run {} (onePairAfterAnother count)).insert (.beginSlice 0 1 0 0)).insert (.endSlice 0 1) := by
    simp [SliceFilter.run, onePairAfterAnother]
  have unclosed := endSlice_wrapped wraps begun
  rw [begun.table] at unclosed
  intro same
  rw [run, nest_onePairAfterAnother, replicate_succ'] at same
  have last : ∀ span : Span, (List.replicate count endedSpan ++ [span])[count]? = some span := by
    intro span
    exact lookup_append_iff.mpr (.inr ⟨length_replicate.symm, rfl⟩)
  have durs := congrArg (fun table => table.durs.getD count 0) (unclosed.symm.trans same)
  simp only [(Reconstructs.columns (last openSpan)).2.2, (Reconstructs.columns (last endedSpan)).2.2] at durs
  change invalidUint64 = 0 at durs
  exact absurd durs (by decide)

/-- After `2 ^ 32` slices the next one is never ended. -/
theorem slices_beyond_uint32_unclosed :
    let events := onePairAfterAnother (2 ^ 32 + 1)
    (events.map SliceEvent.timeStamp).Pairwise (· ≤ ·) ∧ (∀ span ∈ nest events, span.depth < 255) ∧
      (SliceFilter.run {} events).slices ≠ ofRows (rowsOf (nest events)) :=
  ⟨onePairAfterAnother_ordered _, onePairAfterAnother_shallow _, onePairAfterAnother_unclosed rfl⟩

end SmartPerf.Slice
