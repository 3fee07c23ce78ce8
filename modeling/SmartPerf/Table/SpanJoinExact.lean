import SmartPerf.Table.SpanJoin

namespace SmartPerf.Table

open Data List

/-! Which pairs of spans the join puts into rows. -/

/-- A span of a partition: the times from `ts` up to, but not at, `ts + dur`. -/
structure Span where
  ts : Int
  dur : Int
  partition : Int
deriving Repr, DecidableEq

namespace Span

def endTs (span : Span) : Int := span.ts + span.dur

def Contains (span : Span) (time : Int) : Prop := span.ts ≤ time ∧ time < span.endTs

def key (span : Span) : Lex (Int × Int) := toLex (span.partition, span.endTs)

theorem key_lt_iff (first second : Span) :
    first.key < second.key ↔ first.partition < second.partition ∨
      first.partition = second.partition ∧ first.endTs < second.endTs := Prod.Lex.toLex_lt_toLex

end Span

def SpanRow.span? (row : SpanRow) : Option Span := row.partition.map fun partition => ⟨row.ts, row.dur, partition⟩

def spansOf (rows : List SpanRow) : List Span := rows.filterMap SpanRow.span?

namespace CaclSpan

variable {span : CaclSpan} {current : Span} {spans : List Span}

/-- The statement stands on the first of the spans, or is at its end if there are none. -/
structure Stands (span : CaclSpan) (spans : List Span) : Prop where
  row : span.current.bind SpanRow.span? = spans.head?
  no_row : span.current = none ↔ spans = []
  rest : spansOf span.rest = spans.tail

theorem stands_getCursorNext (spans : List Span) (rest : spansOf span.rest = spans) : span.getCursorNext.Stands spans := by
  have skipped : spansOf (span.rest.dropWhile fun row => row.partition.isNone) = spans := by
    rw [← rest]
    generalize span.rest = rows
    induction rows with
    | nil => rfl
    | cons row rows ih =>
      cases partition : row.partition with
      | none =>
        rw [dropWhile_cons_of_pos (by rw [partition]; rfl), ih, spansOf, spansOf, filterMap_cons_none]
        rw [SpanRow.span?, partition]
        rfl
      | some value => rw [dropWhile_cons_of_neg (by rw [partition]; simp)]
  cases left : span.rest.dropWhile fun row => row.partition.isNone with
  | nil =>
    rw [left] at skipped
    rw [getCursorNext, left, ← skipped]
    exact ⟨rfl, by simp [spansOf], rfl⟩
  | cons row rows =>
    have has_partition : row.partition.isNone = false := by
      have head := head?_dropWhile_not (fun row : SpanRow => row.partition.isNone) span.rest
      rw [left] at head
      simpa using head
    obtain ⟨partition, is_partition⟩ : ∃ partition, row.partition = some partition := by
      cases value : row.partition with
      | none =>
        rw [value] at has_partition
        cases has_partition
      | some partition => exact ⟨partition, rfl⟩
    have is_span : row.span? = some ⟨row.ts, row.dur, partition⟩ := by rw [SpanRow.span?, is_partition]; rfl
    rw [left, spansOf, filterMap_cons_some is_span] at skipped
    rw [getCursorNext, left, ← skipped]
    exact ⟨is_span, by simp, rfl⟩

/-- The statement stands on the first span, and the state is that of this span. -/
structure At (span : CaclSpan) (current : Span) (spans : List Span) : Prop where
  stands : span.Stands (current :: spans)
  real : span.partitionState = .tsReal
  ts : span.ts = current.ts
  endTs : span.endTs = current.endTs
  partition : span.partition = current.partition

theorem Stands.columns (stands : span.Stands (current :: spans)) :
    span.isEof = false ∧ span.columnTs = current.ts ∧ span.columnDur = current.dur ∧
      span.columnPartition = current.partition ∧ current.ts < int64Max ∧ current.partition < int32Max := by
  cases row : span.current with
  | none => exact absurd (stands.no_row.mp row) (cons_ne_nil _ _)
  | some row' =>
    have is_row := stands.row
    rw [row, Option.bind_some, head?_cons, SpanRow.span?, Option.map_eq_some_iff] at is_row
    obtain ⟨partition, is_partition, rfl⟩ := is_row
    refine ⟨by rw [isEof, row]; rfl, by rw [columnTs, row]; rfl, by rw [columnDur, row]; rfl, ?_, row'.ts_lt, ?_⟩
    · rw [columnPartition, row, Option.bind_some, is_partition]
      rfl
    · exact (row'.partition_range partition (by rw [is_partition]; rfl)).2

def Reads (span : CaclSpan) : List Span → Prop
  | [] => span.current = none
  | current :: spans => span.At current spans

variable (fuel : Nat)

theorem search_partition (stands : span.Stands (current :: spans)) (state : span.partitionState = .tsPartition)
    (gap : span.endTs ≠ int64Max) (partition : span.partition = current.partition) :
    (searchNextslice (fuel + 2) span).At current spans := by
  obtain ⟨-, ts, dur, -, -⟩ := stands.columns
  have step : span.getNextState = some { span with
      partitionState := .tsReal, ts := span.columnTs, endTs := span.columnTs + span.columnDur } := by
    rw [getNextState, state]
    rw [if_neg gap]
  rw [searchNextslice, if_neg (by rw [state]; decide), step]
  exact ⟨⟨stands.row, stands.no_row, stands.rest⟩, rfl, ts, by rw [ts, dur]; rfl, partition⟩

theorem search_missing (stands : span.Stands (current :: spans)) (state : span.partitionState = .tsMissing)
    (partition : span.missPartitionEnd = current.partition) : (searchNextslice (fuel + 3) span).At current spans := by
  obtain ⟨-, ts, -, -, ts_lt, partition_lt⟩ := stands.columns
  have step : span.getNextState = some { span with
      partitionState := .tsPartition, ts := 0, endTs := span.columnTs, partition := span.missPartitionEnd } := by
    rw [getNextState, state]
    simp only
    rw [if_neg (by rw [partition]; exact partition_lt.ne)]
  rw [searchNextslice, if_neg (by rw [state]; decide), step]
  refine search_partition fuel ⟨stands.row, stands.no_row, stands.rest⟩ rfl ?_ partition
  rw [ts]
  exact ts_lt.ne

theorem search_current (span : CaclSpan) : (searchNextslice fuel span).current = span.current := by
  induction fuel generalizing span with
  | zero => rfl
  | succ fuel ih =>
    rw [searchNextslice]
    split
    · rfl
    next not_real =>
      have step : ∀ following, span.getNextState = some following → following.current = span.current := by
        intro following moves
        rw [getNextState] at moves
        split at moves
        next real => exact absurd real not_real
        · split at moves
          · rw [← Option.some.inj moves]
          · rw [← Option.some.inj moves]
        · split at moves
          · rw [← Option.some.inj moves]
          · rw [← Option.some.inj moves]
        · cases moves
      split
      · rfl
      next following moves => rw [ih, step following moves]

theorem At.next (here : span.At current spans) : span.next.Reads spans := by
  have stands := @stands_getCursorNext span spans here.stands.rest
  have kept : span.getCursorNext.partition = span.partition ∧ span.getCursorNext.endTs = span.endTs := by
    rw [getCursorNext]
    split
    · exact ⟨rfl, rfl⟩
    · exact ⟨rfl, rfl⟩
  rw [CaclSpan.next, getNextState, here.real]
  simp only [Option.getD_some]
  generalize span.getCursorNext = moved at stands kept
  cases spans with
  | nil =>
    rw [Reads, search_current]
    exact stands.no_row.mpr rfl
  | cons following spans =>
    obtain ⟨not_eof, ts, -, partition, ts_lt, -⟩ := stands.columns
    by_cases same : current.partition = following.partition
    · refine search_partition 2 ⟨stands.row, stands.no_row, stands.rest⟩ rfl ?_ ?_
      · rw [if_neg (by rw [not_eof, kept.1, here.partition, partition, same]; simp), ts]
        exact ts_lt.ne
      · rw [kept.1, here.partition, same]
    · -- the gap up to the end of the partition, and then the missing partitions
      have different : moved.isEof = true ∨ moved.partition ≠ moved.columnPartition := by
        right
        rw [kept.1, here.partition, partition]
        exact same
      rw [if_pos different, searchNextslice, if_neg (by simp)]
      have step : getNextState { moved with partitionState := .tsPartition, ts := moved.endTs, endTs := int64Max } =
          some { moved with
            partitionState := .tsMissing, ts := 0, endTs := int64Max, missPartitionEnd := moved.columnPartition } := by
        rw [getNextState]
        simp only [if_true]
        rw [if_neg (by rw [isEof] at not_eof ⊢; rw [not_eof]; decide)]
        rfl
      rw [step]
      exact search_missing 0 ⟨stands.row, stands.no_row, stands.rest⟩ rfl partition

theorem isQueryNext_reads (rows : List SpanRow) : (isQueryNext rows).Reads (spansOf rows) := by
  have stands := @stands_getCursorNext { rest := rows } (spansOf rows) rfl
  have start : (getCursorNext { rest := rows }).partitionState = .tsMissing := by
    rw [getCursorNext]
    split
    · rfl
    · rfl
  rw [isQueryNext]
  cases spans : spansOf rows with
  | nil =>
    rw [spans] at stands
    rw [Reads, search_current]
    exact stands.no_row.mpr rfl
  | cons first others =>
    rw [spans] at stands
    obtain ⟨-, -, -, partition, -⟩ := stands.columns
    exact search_missing 1 ⟨stands.row, stands.no_row, stands.rest⟩ start partition

theorem isEof_of_reads (reads : span.Reads spans) : span.isEof = spans.isEmpty := by
  cases spans with
  | nil =>
    have no_row : span.current = none := reads
    rw [isEof, no_row]
    rfl
  | cons current spans =>
    have here : span.At current spans := reads
    exact here.stands.columns.1

theorem length_le_of_reads (reads : span.Reads spans) : spans.length ≤ span.rest.length + 1 := by
  cases spans with
  | nil => exact Nat.zero_le _
  | cons current spans =>
    have here : span.At current spans := reads
    have rest := congrArg List.length here.stands.rest
    have fewer : (spansOf span.rest).length ≤ span.rest.length := length_filterMap_le _ _
    rw [tail_cons] at rest
    rw [length_cons]
    omega

end CaclSpan

def overlaps (first second : Span) : Bool := second.ts ≤ first.ts ∨ second.ts < first.endTs

def joinRow (first second : Span) : JoinRow where
  ts := max first.ts second.ts
  dur := min first.endTs second.endTs - max first.ts second.ts
  partition := first.partition

def joined (firsts seconds : List Span) : List (Span × Span) :=
  (visits Span.key Span.key firsts seconds).filter fun pair => overlaps pair.1 pair.2

namespace SpanJoinCursor

variable {cursor : SpanJoinCursor} {first second : Span} {firsts seconds : List Span}

structure Reads (cursor : SpanJoinCursor) (firsts seconds : List Span) : Prop where
  first : cursor.tableFirst.Reads firsts
  second : cursor.tableSecond.Reads seconds

section

variable (reads : cursor.Reads (first :: firsts) (second :: seconds))
include reads

theorem Reads.spans : cursor.tableFirst.At first firsts ∧ cursor.tableSecond.At second seconds := ⟨reads.first, reads.second⟩

theorem Reads.caclOverLap : cursor.caclOverLap = overlaps first second := by
  obtain ⟨at_first, at_second⟩ := reads.spans
  rw [SpanJoinCursor.caclOverLap, at_first.ts, at_second.ts, at_first.endTs, at_second.endTs, at_first.real, at_second.real,
    overlaps]
  by_cases behind : second.ts ≤ first.ts
  · simp [behind]
  · simp [(not_le.mp behind).le]

theorem Reads.findQueryResult :
    cursor.findQueryResult = if first.key < second.key then .tableFirst else .tableSecond := by
  obtain ⟨at_first, at_second⟩ := reads.spans
  rw [SpanJoinCursor.findQueryResult, CaclSpan.getPatitonForMiss, CaclSpan.getPatitonForMiss, at_first.real, at_second.real,
    at_first.partition, at_second.partition, at_first.endTs, at_second.endTs]
  refine if_congr ?_ rfl rfl
  rw [Span.key_lt_iff]
  simp [Prod.Lex.toLex_lt_toLex]

theorem Reads.column : cursor.column = joinRow first second := by
  obtain ⟨at_first, at_second⟩ := reads.spans
  rw [SpanJoinCursor.column, at_first.ts, at_second.ts, at_first.endTs, at_second.endTs, at_first.real, at_first.partition,
    joinRow]
  simp

end

theorem Reads.eof_eq (reads : cursor.Reads firsts seconds) : cursor.eof = (firsts.isEmpty || seconds.isEmpty) := by
  rw [eof, CaclSpan.isEof_of_reads reads.first, CaclSpan.isEof_of_reads reads.second]

theorem Reads.length_le_left (reads : cursor.Reads firsts seconds) : firsts.length + seconds.length ≤ cursor.left := by
  have first_le := CaclSpan.length_le_of_reads reads.first
  have second_le := CaclSpan.length_le_of_reads reads.second
  rw [left]
  omega

/-- The cursor stands at the first of the pairs, and knows which reader to move. -/
structure Stops (cursor : SpanJoinCursor) (first : Span) (firsts : List Span) (second : Span) (seconds : List Span) :
    Prop where
  reads : cursor.Reads (first :: firsts) (second :: seconds)
  queryNext : cursor.queryNext = if first.key < second.key then .tableFirst else .tableSecond
  overlaps : Table.overlaps first second = true

def behind (first : Span) (firsts : List Span) (second : Span) (seconds : List Span) : List (Span × Span) :=
  if first.key < second.key then joined firsts (second :: seconds) else joined (first :: firsts) seconds

theorem joined_cons (first : Span) (firsts : List Span) (second : Span) (seconds : List Span) :
    joined (first :: firsts) (second :: seconds) =
      if Table.overlaps first second then (first, second) :: behind first firsts second seconds
      else behind first firsts second seconds := by
  rw [joined, visits, filter_cons, behind]
  split
  · split
    · rfl
    · rfl
  · split
    · rfl
    · rfl

theorem Reads.moveNext (reads : cursor.Reads (first :: firsts) (second :: seconds))
    (queryNext : cursor.queryNext = if first.key < second.key then .tableFirst else .tableSecond) :
    ∃ lefts rights, cursor.moveNext.Reads lefts rights ∧ joined lefts rights = behind first firsts second seconds ∧
      lefts.length + rights.length + 1 = (first :: firsts).length + (second :: seconds).length := by
  obtain ⟨at_first, at_second⟩ := reads.spans
  rw [SpanJoinCursor.moveNext, queryNext, behind]
  by_cases smaller : first.key < second.key
  · rw [if_pos smaller, if_pos smaller]
    refine ⟨firsts, second :: seconds, ⟨at_first.next, at_second⟩, rfl, ?_⟩
    rw [length_cons, length_cons]
    omega
  · rw [if_neg smaller, if_neg smaller]
    refine ⟨first :: firsts, seconds, ⟨at_first, at_second.next⟩, rfl, ?_⟩
    rw [length_cons, length_cons]
    omega

theorem isFindSpan_spec (fuel : Nat) (reads : cursor.Reads firsts seconds) (enough : firsts.length + seconds.length ≤ fuel) :
    joined firsts seconds = [] ∧ (isFindSpan fuel cursor).eof = true ∨
      ∃ first lefts second rights, (isFindSpan fuel cursor).Stops first lefts second rights ∧
        joined firsts seconds = (first, second) :: behind first lefts second rights := by
  induction fuel generalizing cursor firsts seconds with
  | zero =>
    obtain rfl : firsts = [] := length_eq_zero_iff.mp (by omega)
    refine .inl ⟨by rw [joined, visits]; rfl, ?_⟩
    rw [isFindSpan, reads.eof_eq]
    rfl
  | succ fuel ih =>
    rw [isFindSpan, reads.eof_eq]
    cases firsts with
    | nil => exact .inl ⟨by rw [joined, visits]; rfl, by simpa using reads.eof_eq⟩
    | cons first firsts =>
      cases seconds with
      | nil => exact .inl ⟨by rw [joined, visits]; rfl, by simpa using reads.eof_eq⟩
      | cons second seconds =>
        simp only [isEmpty_cons]
        have here : { cursor with queryNext := cursor.findQueryResult : SpanJoinCursor }.Reads (first :: firsts)
          (second :: seconds) := ⟨reads.first, reads.second⟩
        have overlap := here.caclOverLap
        have query := reads.findQueryResult
        rw [overlap, joined_cons]
        cases meets : Table.overlaps first second with
        | true =>
          exact .inr ⟨first, firsts, second, seconds, ⟨here, query, meets⟩, rfl⟩
        | false =>
          obtain ⟨lefts, rights, moved, same, length⟩ := here.moveNext query
          rw [if_neg (by decide), if_neg (by decide), ← same]
          exact ih moved (by omega)

theorem length_visits_le (firsts seconds : List Span) :
    (visits Span.key Span.key firsts seconds).length ≤ firsts.length + seconds.length := by
  fun_induction visits Span.key Span.key firsts seconds with
  | case1 seconds => exact Nat.zero_le _
  | case2 first firsts => exact Nat.zero_le _
  | case3 first firsts second seconds ih_first ih_second =>
    split
    · simp only [length_cons] at ih_first ⊢
      omega
    · simp only [length_cons] at ih_second ⊢
      omega

theorem length_behind_lt (first : Span) (firsts : List Span) (second : Span) (seconds : List Span) :
    (behind first firsts second seconds).length < (first :: firsts).length + (second :: seconds).length := by
  have joined_le : ∀ lefts rights : List Span, (joined lefts rights).length ≤ lefts.length + rights.length :=
    fun lefts rights => (length_filter_le _ _).trans (length_visits_le lefts rights)
  rw [behind]
  split
  · have bound := joined_le firsts (second :: seconds)
    simp only [length_cons] at bound ⊢
    omega
  · have bound := joined_le (first :: firsts) seconds
    simp only [length_cons] at bound ⊢
    omega

theorem rows_of_eof (fuel : Nat) (ended : cursor.eof = true) : rows fuel cursor = [] := by
  cases fuel with
  | zero => rfl
  | succ fuel => rw [rows, if_pos ended]

theorem Stops.rows_eq (fuel : Nat) (stops : cursor.Stops first firsts second seconds)
    (enough : (behind first firsts second seconds).length < fuel) :
    rows fuel cursor = ((first, second) :: behind first firsts second seconds).map fun pair => joinRow pair.1 pair.2 := by
  induction fuel generalizing cursor first firsts second seconds with
  | zero => exact absurd enough (Nat.not_lt_zero _)
  | succ fuel ih =>
    obtain ⟨lefts, rights, moved, same, -⟩ := stops.reads.moveNext stops.queryNext
    rw [rows, stops.reads.eof_eq, if_neg (by simp), stops.reads.column, map_cons, next, ← same]
    rw [← same] at enough
    rcases isFindSpan_spec _ moved moved.length_le_left with ⟨none, ended⟩ | ⟨left, lefts', right, rights', following, whole⟩
    · rw [none, rows_of_eof fuel ended]
      rfl
    · rw [whole]
      rw [whole, length_cons] at enough
      rw [ih following (by omega)]

end SpanJoinCursor

theorem spanJoin_eq (firstRows secondRows : List SpanRow) :
    spanJoin firstRows secondRows =
      (joined (spansOf firstRows) (spansOf secondRows)).map fun pair => joinRow pair.1 pair.2 := by
  have start : SpanJoinCursor.Reads { tableFirst := .isQueryNext firstRows, tableSecond := .isQueryNext secondRows }
      (spansOf firstRows) (spansOf secondRows) := ⟨CaclSpan.isQueryNext_reads _, CaclSpan.isQueryNext_reads _⟩
  rcases SpanJoinCursor.isFindSpan_spec _ start start.length_le_left with ⟨none, ended⟩ | ⟨first, firsts, second, seconds, stops, whole⟩
  · rw [none]
    exact SpanJoinCursor.rows_of_eof _ ended
  · rw [whole]
    exact stops.rows_eq _ (lt_of_lt_of_le (SpanJoinCursor.length_behind_lt _ _ _ _) stops.reads.length_le_left)

/-! ### Intersections -/

variable (first second : Span)

def intersects : Bool :=
  first.partition = second.partition ∧ max first.ts second.ts < min first.endTs second.endTs

variable (firsts seconds : List Span)

/-- The nonempty intersections of a span of one table with a span of the same partition of the other. -/
def intersections : List JoinRow :=
  ((firsts ×ˢ seconds).filter fun pair => intersects pair.1 pair.2).map fun pair => joinRow pair.1 pair.2

def Precedes : Prop :=
  first.partition < second.partition ∨ first.partition = second.partition ∧ first.ts ≤ second.ts

/-- Spans in order, those of one partition disjoint. -/
structure Separate (spans : List Span) : Prop where
  sorted : spans.Pairwise Precedes
  disjoint : spans.Pairwise fun first second =>
    first.partition = second.partition → ∀ time, ¬ (first.Contains time ∧ second.Contains time)

theorem intersects_iff : intersects first second = true ↔
    first.partition = second.partition ∧ ∃ time, first.Contains time ∧ second.Contains time := by
  rw [intersects, decide_eq_true_eq]
  refine and_congr_right fun _ => ⟨fun nonempty => ?_, fun common => ?_⟩
  · refine ⟨max first.ts second.ts, ⟨le_max_left _ _, ?_⟩, ⟨le_max_right _ _, ?_⟩⟩
    · exact lt_of_lt_of_le nonempty (min_le_left _ _)
    · exact lt_of_lt_of_le nonempty (min_le_right _ _)
  · obtain ⟨time, in_first, in_second⟩ := common
    exact lt_of_le_of_lt (max_le in_first.1 in_second.1) (lt_min in_first.2 in_second.2)

theorem intersects_symm : intersects first second = intersects second first := by
  rw [intersects, intersects, max_comm, min_comm, decide_eq_decide, eq_comm]

theorem intersects_behind {span passed later : Span} (precedes : Precedes passed later)
    (disjoint : passed.partition = later.partition → ∀ time, ¬ (passed.Contains time ∧ later.Contains time))
    (before : span.key ≤ passed.key) : intersects span later = false := by
  rw [Bool.eq_false_iff]
  intro meets
  obtain ⟨partition, time, in_span, in_later⟩ := (intersects_iff span later).mp meets
  have order : span.partition < passed.partition ∨ span.partition = passed.partition ∧ span.endTs ≤ passed.endTs :=
    Prod.Lex.toLex_le_toLex.mp before
  rcases precedes with lower | ⟨same, starts⟩
  · omega
  · have ends : span.endTs ≤ passed.endTs := by omega
    exact disjoint same time ⟨⟨starts.trans in_later.1, lt_of_lt_of_le in_span.2 ends⟩, in_later⟩

theorem overtaken_intersects {firsts seconds : List Span} (first_separate : Separate firsts) (second_separate : Separate seconds) :
    Overtaken Span.key Span.key intersects firsts seconds where
  passedLeft := by
    refine second_separate.sorted.imp₂ (fun _ _ precedes disjoint left _ smaller => ?_) second_separate.disjoint
    exact intersects_behind precedes disjoint smaller.le
  passedRight := by
    refine first_separate.sorted.imp₂ (fun _ _ precedes disjoint right _ smaller => ?_) first_separate.disjoint
    rw [intersects_symm]
    exact intersects_behind precedes disjoint smaller

theorem overlaps_of_intersects {first second : Span} (meets : intersects first second = true) : overlaps first second = true := by
  obtain ⟨-, time, in_first, in_second⟩ := (intersects_iff first second).mp meets
  rw [overlaps, decide_eq_true_eq]
  by_cases behind : second.ts ≤ first.ts
  · exact .inl behind
  · exact .inr (lt_of_le_of_lt in_second.1 in_first.2)

/-- Wherever the two readers come together, the spans intersect or the first one lies before the second one. -/
def NoFalseOverlap : Prop :=
  ∀ before first after earlier second later, firsts = before ++ first :: after → seconds = earlier ++ second :: later →
    Meets Span.key Span.key before first earlier second →
      intersects first second = true ∨ first.ts < second.ts ∧ first.endTs ≤ second.ts

theorem noFalseOverlap_iff :
    NoFalseOverlap firsts seconds ↔ ∀ pair ∈ visits Span.key Span.key firsts seconds,
      overlaps pair.1 pair.2 = true → intersects pair.1 pair.2 = true := by
  have lies_before : ∀ first second : Span, overlaps first second = false ↔ first.ts < second.ts ∧ first.endTs ≤ second.ts := by
    intro first second
    rw [overlaps, decide_eq_false_iff_not, not_or, not_le, not_lt]
  refine ⟨fun none pair visited overlap => ?_, fun exact before first after earlier second later lefts rights meets => ?_⟩
  · obtain ⟨before, after, earlier, later, lefts, rights, meets⟩ := Meets.of_visits visited
    rcases none before pair.1 after earlier pair.2 later lefts rights meets with intersect | apart
    · exact intersect
    · rw [(lies_before pair.1 pair.2).mpr apart] at overlap
      cases overlap
  · subst lefts rights
    have visited := @Meets.visits _ _ _ _ _ _ before after first earlier later second meets
    cases overlap : overlaps first second with
    | true => exact .inl (exact (first, second) visited overlap)
    | false => exact .inr ((lies_before first second).mp overlap)

/-- The rows of a join are exactly the intersections, each once, and none is empty. -/
structure IsSpanJoin (rows : List JoinRow) (firsts seconds : List Span) : Prop where
  perm : rows.Perm (intersections firsts seconds)
  positive : ∀ row ∈ rows, 0 < row.dur

/-- The join is right exactly when the readers never come together on spans that have nothing in common, unless the first
one lies before the second one: spans of different partitions and a first span behind the second one are not told apart from
an intersection. -/
theorem spanJoin_exact_iff (firstRows secondRows : List SpanRow) (first_separate : Separate (spansOf firstRows))
    (second_separate : Separate (spansOf secondRows)) :
    IsSpanJoin (spanJoin firstRows secondRows) (spansOf firstRows) (spansOf secondRows) ↔
      NoFalseOverlap (spansOf firstRows) (spansOf secondRows) := by
  have complete := visits_filter_perm (overtaken_intersects first_separate second_separate)
  rw [noFalseOverlap_iff, spanJoin_eq]
  generalize spansOf firstRows = firsts at complete
  generalize spansOf secondRows = seconds at complete
  have within : (joined firsts seconds).filter (fun pair => intersects pair.1 pair.2) =
      (visits Span.key Span.key firsts seconds).filter fun pair => intersects pair.1 pair.2 := by
    rw [joined, filter_filter]
    refine filter_congr fun pair _ => ?_
    cases meets : intersects pair.1 pair.2 with
    | true => rw [overlaps_of_intersects meets]; rfl
    | false => rfl
  refine ⟨fun exact pair visited overlap => ?_, fun exact => ?_⟩
  · -- there are no more rows than intersections
    have lengths := exact.perm.length_eq
    rw [intersections, length_map, length_map, ← complete.length_eq, ← within] at lengths
    exact length_filter_eq_length_iff.mp lengths.symm pair (mem_filter.mpr ⟨visited, overlap⟩)
  · have all_intersect : joined firsts seconds = (visits Span.key Span.key firsts seconds).filter fun pair => intersects pair.1 pair.2 := by
      rw [← within, eq_comm, filter_eq_self]
      intro pair listed
      obtain ⟨visited, overlap⟩ := mem_filter.mp listed
      exact exact pair visited overlap
    rw [all_intersect]
    refine ⟨complete.map _, fun row listed => ?_⟩
    obtain ⟨pair, inside, rfl⟩ := mem_map.mp listed
    have meets := (mem_filter.mp inside).2
    rw [intersects, decide_eq_true_eq] at meets
    exact sub_pos.mpr meets.2

private def sampleRow (ts dur partition : Int) (ts_lt : ts < int64Max)
    (range : -2147483648 ≤ partition ∧ partition < int32Max) : SpanRow :=
  ⟨ts, dur, some partition, ts_lt, by simpa using range⟩

private def sampleFirst : List SpanRow := [sampleRow 0 10 1 (by decide) (by decide)]

private def sampleSecond : List SpanRow :=
  [sampleRow 2 3 1 (by decide) (by decide), sampleRow 6 10 1 (by decide) (by decide)]

theorem separate_sampleFirst : Separate (spansOf sampleFirst) := ⟨pairwise_singleton _ _, pairwise_singleton _ _⟩

theorem separate_sampleSecond : Separate (spansOf sampleSecond) := by
  refine ⟨pairwise_pair.mpr (.inr ⟨rfl, by decide⟩), pairwise_pair.mpr fun _ time common => ?_⟩
  have first_end : time < 5 := common.1.2
  have second_start : 6 ≤ time := common.2.1
  omega

/-- One span that meets two. -/
theorem spanJoin_exact_oneWithTwo :
    IsSpanJoin (spanJoin sampleFirst sampleSecond) (spansOf sampleFirst) (spansOf sampleSecond) := by
  refine (spanJoin_exact_iff sampleFirst sampleSecond separate_sampleFirst separate_sampleSecond).mpr ?_
  rw [noFalseOverlap_iff]
  have visited : visits Span.key Span.key (spansOf sampleFirst) (spansOf sampleSecond) =
      [(⟨0, 10, 1⟩, ⟨2, 3, 1⟩), (⟨0, 10, 1⟩, ⟨6, 10, 1⟩)] := by
    have firsts : spansOf sampleFirst = [⟨0, 10, 1⟩] := by decide
    have seconds : spansOf sampleSecond = [⟨2, 3, 1⟩, ⟨6, 10, 1⟩] := by decide
    simp [firsts, seconds, visits, Span.key_lt_iff, Span.endTs]
  rw [visited]
  decide

/-- A span of the first table behind the only one of the second table: a row of negative duration. -/
theorem spanJoin_not_exact_behind :
    spanJoin [sampleRow 10 5 1 (by decide) (by decide)] [sampleRow 0 5 1 (by decide) (by decide)] = [⟨10, -5, 1⟩] ∧
      spanJoin [sampleRow 0 5 1 (by decide) (by decide)] [sampleRow 0 5 2 (by decide) (by decide)] = [⟨0, 5, 1⟩] := by
  decide

end SmartPerf.Table
