import Mathlib.Logic.Relation
import SmartPerf.RawTrace.PageWalk

namespace SmartPerf.RawTrace

open Data List

/-! Which pages are read without a look behind their end. -/

variable (processor : FtraceProcessor)

/-- The page is read to the end of the walk, and no position behind the page is read. -/
def StaysInside (memory : Nat → UInt8) : Prop :=
  ∃ page_result, processor.handlePage memory ftracePageSize = some page_result ∧
    ∀ index ∈ page_result.final.reads, index < ftracePageSize

/-! The fields of an event, of which `limit` bytes lie in the page. -/

def TextInside (data : List UInt8) (limit start size : Nat) : Prop :=
  start + size ≤ data.length → start + ((sliceAt data start size).takeWhile (· ≠ 0)).length < limit

def NumberInside (data : List UInt8) (limit start size : Nat) : Prop :=
  start + size ≤ data.length → size = 0 ∨ start + size ≤ limit

def DataLocInside (data : List UInt8) (limit start : Nat) : Prop :=
  NumberInside data limit start 4 ∧
    (start + 4 ≤ data.length → 0 < wordAt data start 4 % 2 ^ 16 →
      TextInside data limit (wordAt data start 4 % 2 ^ 16) (wordAt data start 4 / 2 ^ 16 % 2 ^ 16))

def StrFieldInside (data : List UInt8) (limit : Nat) (format : FieldFormat) : Prop :=
  format.offset + format.size ≤ data.length →
    match format.filedType with
    | .fixedCString => TextInside data limit format.offset format.size
    | .cString => TextInside data limit format.offset (if format.size = 0 then data.length - format.offset else format.size)
    | .stringPtr => NumberInside data limit format.offset (min format.size 8)
    | .dataLoc => DataLocInside data limit format.offset
    | .other => True

def IntFieldInside (data : List UInt8) (limit : Nat) (format : FieldFormat) : Prop :=
  NumberInside data limit format.offset format.size

def FieldAccess.Inside (fields : List FieldFormat) (data : List UInt8) (limit : Nat) : FieldAccess → Prop
  | number index => ∀ format ∈ fields[index]?, IntFieldInside data limit format
  | text index => ∀ format ∈ fields[index]?, StrFieldInside data limit format

/-- Of an event that has its format's size, and whose format has the common fields, all fields are taken. -/
def EventInside (handler : EventFormat → List FieldAccess) (format : EventFormat) (data : List UInt8) (limit : Nat) : Prop :=
  format.eventSize ≤ data.length → ∀ pid ∈ format.commonIndex.pid, ∀ type ∈ format.commonIndex.type,
    ∀ flags ∈ format.commonIndex.flags, ∀ preemt ∈ format.commonIndex.preemt,
      (∀ index ∈ [pid, type, flags, preemt], (FieldAccess.number index).Inside format.commonFields data limit) ∧
        ∀ access ∈ handler format, access.Inside format.fields data limit

theorem handleString_inside {data : List UInt8} {limit start size : Nat} :
    (∀ index ∈ (handleString data start size).2, index < limit) ↔ TextInside data limit start size := by
  unfold handleString TextInside
  split
  next inside =>
    rw [forall_mem_range'_lt]
    omega
  next outside => simp [outside]

theorem handleTypeData_inside {data : List UInt8} {limit start size : Nat} :
    (∀ index ∈ (handleTypeData data start size).2, index < limit) ↔ NumberInside data limit start size := by
  unfold handleTypeData NumberInside
  split
  next inside => rw [forall_mem_range'_lt, forall_prop_of_true inside]
  next outside => simp [outside]

theorem handleDataLoc_inside {data : List UInt8} {limit start : Nat} :
    (∀ index ∈ (handleDataLoc data start).2, index < limit) ↔ DataLocInside data limit start := by
  by_cases inside : start + 4 ≤ data.length
  · have taken : handleTypeData data start 4 = (wordAt data start 4, List.range' start 4) := if_pos inside
    have word : (∀ index ∈ List.range' start 4, index < limit) ↔ NumberInside data limit start 4 := by
      rw [← handleTypeData_inside, taken]
    unfold handleDataLoc DataLocInside
    rw [taken, forall_prop_of_true inside]
    dsimp only
    split
    next behind =>
      rw [forall_mem_append, word, handleString_inside, forall_prop_of_true behind.1]
    next missing =>
      rw [word]
      refine ⟨fun holds => ⟨holds, fun some_offset fits => ?_⟩, fun holds => holds.1⟩
      exact absurd ⟨some_offset, fits⟩ missing
  · have taken : handleTypeData data start 4 = (0, []) := if_neg inside
    unfold handleDataLoc DataLocInside NumberInside
    rw [taken]
    simp [inside]

theorem handleStrField_inside {getSymbol : Nat → List UInt8} {format : FieldFormat} {data : List UInt8} {limit : Nat} :
    (∀ index ∈ (handleStrField getSymbol format data).2, index < limit) ↔ StrFieldInside data limit format := by
  unfold handleStrField StrFieldInside
  split
  next inside =>
    rw [forall_prop_of_true inside]
    cases format.filedType with
    | fixedCString => exact handleString_inside
    | cString =>
      dsimp only
      split
      · exact handleString_inside
      · exact handleString_inside
    | stringPtr =>
      rw [forall_mem_range'_lt, NumberInside, forall_prop_of_true (by omega)]
    | dataLoc => exact handleDataLoc_inside
    | other => simp
  next outside => simp [outside]

theorem FieldAccess.take_inside {getSymbol : Nat → List UInt8} {fields : List FieldFormat} {data : List UInt8} {limit : Nat}
    (access : FieldAccess) :
    (∀ index ∈ (access.take getSymbol fields data).2, index < limit) ↔ access.Inside fields data limit := by
  cases access with
  | number index =>
    unfold FieldAccess.take intFieldAt FieldAccess.Inside
    cases found : fields[index]? with
    | none => simp [found]
    | some format =>
      simp only [found, Option.mem_def, Option.some.injEq, forall_eq']
      exact handleTypeData_inside
  | text index =>
    unfold FieldAccess.take strFieldAt FieldAccess.Inside
    cases found : fields[index]? with
    | none => simp [found]
    | some format =>
      simp only [found, Option.mem_def, Option.some.injEq, forall_eq']
      exact handleStrField_inside

theorem intFieldAt_inside {fields : List FieldFormat} {data : List UInt8} {limit index : Nat} :
    (∀ position ∈ (intFieldAt fields index data).2, position < limit) ↔ (FieldAccess.number index).Inside fields data limit :=
  @FieldAccess.take_inside (fun _ => []) fields data limit (.number index)

theorem FtraceProcessor.handleFtraceEvent_inside {processor : FtraceProcessor} {handler : EventFormat → List FieldAccess}
    {format : EventFormat} {timestamp : Nat} {data : List UInt8} {limit : Nat} :
    (∀ index ∈ (processor.handleFtraceEvent handler format timestamp data).2, index < limit) ↔
      EventInside handler format data limit := by
  unfold FtraceProcessor.handleFtraceEvent EventInside
  split
  next small => simp [Nat.not_le.mpr small]
  next large =>
    rw [forall_prop_of_true (Nat.not_lt.mp large)]
    unfold FtraceProcessor.handleFtraceCommonFields
    cases format.commonIndex.pid with
    | none => simp
    | some pid =>
      cases format.commonIndex.type with
      | none => simp
      | some type =>
        cases format.commonIndex.flags with
        | none => simp
        | some flags =>
          cases format.commonIndex.preemt with
          | none => simp
          | some preemt =>
            have taken : (∀ index ∈ ((handler format).map (FieldAccess.take processor.getSymbol format.fields
                data)).flatMap Prod.snd, index < limit) ↔
                  ∀ access ∈ handler format, access.Inside format.fields data limit := by
              simp only [flatMap_map, forall_mem_flatMap, FieldAccess.take_inside]
            simp only [Option.bind_eq_bind, Option.bind_some, Option.pure_def, Option.mem_def, Option.some.injEq,
              forall_eq', forall_mem_append, intFieldAt_inside, taken, forall_mem_cons,
              not_mem_nil, false_imp_iff, implies_true, true_and, and_assoc]

/-! The records that a page lays out, each behind the one before it. -/

/-- A record as its first words describe it: one at which the walk ends, after a look at some of its bytes, one that
is passed over, one that sets the time, or the data of an event. -/
inductive RecordLayout where
  | broken (looked : Nat)
  | skipped (length : Nat)
  | extended (deltaExt : Nat)
  | stamped (deltaExt : Nat)
  | data (start eventSize : Nat)
deriving Repr, DecidableEq

/-- A position and the time that is reached there. -/
structure Place where
  position : Nat
  time : Nat
deriving Repr, DecidableEq

def headerAt (memory : Nat → UInt8) (position : Nat) : FtraceEventHeader :=
  FtraceProcessor.eventHeaderOf (numberAt memory position 4)

def wordLayout (header : FtraceEventHeader) (position array0 : Nat) : RecordLayout :=
  if header.typeLen = bufferTypePadding then .skipped (8 + array0)
  else if header.typeLen = bufferTypeTimeExtend then .extended array0
  else if header.typeLen = bufferTypeTimeStamp then .stamped array0
  else if array0 < 6 then .broken 8
  else .data (position + 8) (array0 - 4)

def recordLayout (memory : Nat → UInt8) (endPosOfData position : Nat) : RecordLayout :=
  let header := headerAt memory position
  if endPosOfData < position + 4 then .broken 0
  else if 0 < header.typeLen ∧ header.typeLen < bufferTypePadding then .data (position + 4) (4 * header.typeLen)
  else if header.typeLen = bufferTypePadding ∧ header.timeDelta = 0 then .broken 4
  else if endPosOfData < position + 8 then .broken 4
  else wordLayout header position (numberAt memory (position + 4) 4)

def RecordLayout.after (timeDelta : Nat) (place : Place) : RecordLayout → Option Place
  | broken _ => none
  | skipped length => some { position := place.position + length, time := (place.time + timeDelta) % 2 ^ 64 }
  | extended deltaExt =>
    some {
      position := place.position + 8
      time := ((place.time + timeDelta) % 2 ^ 64 + timestampIncrements deltaExt) % 2 ^ 64 }
  | stamped deltaExt => some { position := place.position + 8, time := timeDelta + timestampIncrements deltaExt }
  | data start eventSize => some { position := start + eventSize, time := (place.time + timeDelta) % 2 ^ 64 }

def RecordLayout.Inside (memory : Nat → UInt8) (size position : Nat) : RecordLayout → Prop
  | broken looked => looked = 0 ∨ position + looked ≤ size
  | skipped _ => position + 8 ≤ size
  | extended _ => position + 8 ≤ size
  | stamped _ => position + 8 ≤ size
  | data start eventSize =>
    start + 2 ≤ size ∧
      (processor.splitFile = none → ∀ format ∈ processor.eventFormatDict (numberAt memory start 2),
        ∀ handler ∈ processor.eventIdToFunctions format.eventId,
          EventInside handler format (bytesAt memory start eventSize) (size - start))

/-- One record is followed by another, until the data ends or the range of the cut is reached. -/
def Follows (memory : Nat → UInt8) (endPosOfData : Nat) (place next : Place) : Prop :=
  place.position < endPosOfData ∧
    (recordLayout memory endPosOfData place.position).after (headerAt memory place.position).timeDelta place = some next ∧
    processor.isSplitCpuTimeStampData next.time = false

/-- Every record of the page has what is looked at of it in the page. -/
def LaidInside (memory : Nat → UInt8) : Prop :=
  let dataStart := 8 + processor.headerPageCommitSize
  let endPosOfData := dataStart + numberAt memory 8 processor.headerPageCommitSize % 2 ^ 30
  ∀ place, Relation.ReflTransGen (Follows processor memory endPosOfData)
      { position := dataStart, time := numberAt memory 0 8 } place →
    place.position < endPosOfData →
      (recordLayout memory endPosOfData place.position).Inside processor memory ftracePageSize place.position

def PageState.Inside (state : PageState) (size : Nat) : Prop := ∀ index ∈ state.reads, index < size

def PageState.place (state : PageState) : Place where
  position := state.curPos
  time := state.curTimestamp

namespace FtraceProcessor

variable {processor : FtraceProcessor} {memory : Nat → UInt8} {endPos size : Nat} {state : PageState}

theorem afterHeader_inside (timeDelta : Nat) :
    (state.afterHeader timeDelta).Inside size ↔ state.Inside size ∧ state.curPos + 4 ≤ size := by
  unfold PageState.Inside PageState.afterHeader
  rw [forall_mem_append, forall_mem_range'_lt]
  simp

theorem afterWord_inside (timeDelta : Nat) :
    (state.afterWord timeDelta).Inside size ↔ state.Inside size ∧ state.curPos + 8 ≤ size := by
  unfold PageState.Inside PageState.afterWord
  rw [forall_mem_append, forall_mem_append, forall_mem_range'_lt, forall_mem_range'_lt]
  constructor
  · intro inside
    exact ⟨inside.1.1, by omega⟩
  · intro inside
    exact ⟨⟨inside.1, by omega⟩, by omega⟩

/-- A record is handled as its layout says. -/
structure Handles (processor : FtraceProcessor) (memory : Nat → UInt8) (size : Nat) (state : PageState) (timeDelta : Nat)
    (layout : RecordLayout) (handled : Bool × PageState) : Prop where
  after_eq : layout.after timeDelta state.place = if handled.1 then some handled.2.place else none
  inside_iff : handled.2.Inside size ↔ state.Inside size ∧ layout.Inside processor memory size state.curPos

theorem handleEventData_handles {start eventSize timeDelta : Nat} {before : PageState} (large : 2 ≤ eventSize)
    (at_start : state.curPos = start) (time_eq : state.curTimestamp = (before.curTimestamp + timeDelta) % 2 ^ 64)
    (inside_start : state.Inside size ∧ start + 2 ≤ size ↔ before.Inside size ∧ start + 2 ≤ size) :
    Handles processor memory size before timeDelta (.data start eventSize)
      (processor.handleEventData memory eventSize state) := by
  subst at_start
  have id_inside : (∀ index ∈ state.reads ++ List.range' state.curPos 2, index < size) ↔
      before.Inside size ∧ state.curPos + 2 ≤ size := by
    rw [← inside_start, forall_mem_append, forall_mem_range'_lt]
    exact and_congr_right fun _ => by omega
  -- the branches that take no field
  have passed : (processor.splitFile = none → ∀ format ∈ processor.eventFormatDict (numberAt memory state.curPos 2),
      ∀ handler ∈ processor.eventIdToFunctions format.eventId,
        EventInside handler format (bytesAt memory state.curPos eventSize) (size - state.curPos)) →
      Handles processor memory size before timeDelta (.data state.curPos eventSize)
        (true, { state with
          curPos := state.curPos + eventSize
          reads := state.reads ++ List.range' state.curPos 2 }) := by
    intro no_field
    refine ⟨by rw [if_pos rfl, PageState.place, time_eq]; rfl, ?_⟩
    exact id_inside.trans (and_congr_right fun _ => (and_iff_left no_field).symm)
  unfold handleEventData
  dsimp only
  rw [readInfo_eq (by omega)]
  dsimp only
  split
  next unknown => exact passed (by simp [unknown])
  next format known =>
    split
    next cut => exact passed fun whole => by simp [whole] at cut
    next uncut =>
      have whole : processor.splitFile = none := by simpa using uncut
      split
      next unsupported => exact passed (by simp [known, unsupported])
      next handler supported =>
        refine ⟨by rw [if_pos rfl, PageState.place, time_eq]; rfl, ?_⟩
        have fields_inside : (∀ index ∈ ((processor.handleFtraceEvent handler format state.curTimestamp
            (bytesAt memory state.curPos eventSize)).2).map (state.curPos + ·), index < size) ↔
              EventInside handler format (bytesAt memory state.curPos eventSize) (size - state.curPos) := by
          rw [← processor.handleFtraceEvent_inside, forall_mem_map]
          exact forall₂_congr fun index _ => by omega
        unfold PageState.Inside at id_inside ⊢
        rw [forall_mem_append, id_inside, fields_inside, and_assoc, RecordLayout.Inside]
        simp only [whole, known, supported, Option.mem_def, Option.some.injEq, forall_eq', forall_const]

theorem broken_afterHeader (timeDelta : Nat) :
    Handles processor memory size state timeDelta (.broken 4) (false, state.afterHeader timeDelta) := by
  refine ⟨rfl, ?_⟩
  rw [afterHeader_inside, RecordLayout.Inside]
  exact and_congr_right fun _ => by omega

theorem broken_afterWord (timeDelta : Nat) :
    Handles processor memory size state timeDelta (.broken 8) (false, state.afterWord timeDelta) := by
  refine ⟨rfl, ?_⟩
  rw [afterWord_inside, RecordLayout.Inside]
  exact and_congr_right fun _ => by omega

/-- A record of two words moves the walk on and looks at these words. -/
theorem goesOn_afterWord {timeDelta : Nat} {layout : RecordLayout} {next : PageState}
    (reads : next.reads = (state.afterWord timeDelta).reads) (after_eq : layout.after timeDelta state.place = some next.place)
    (inside_iff : layout.Inside processor memory size state.curPos ↔ state.curPos + 8 ≤ size) :
    Handles processor memory size state timeDelta layout (true, next) := by
  refine ⟨after_eq, ?_⟩
  rw [inside_iff, ← afterWord_inside timeDelta, PageState.Inside, reads]
  rfl

variable {header : FtraceEventHeader}

theorem handleRecordBody_no_word (words : header.typeLen = 0 ∨ bufferTypePadding ≤ header.typeLen)
    (small : header.typeLen < 32) (missing : ¬ state.curPos + 8 ≤ endPos) :
    processor.handleRecordBody memory endPos header (state.afterHeader header.timeDelta) =
      (false, state.afterHeader header.timeDelta) := by
  have no_word : (state.afterHeader header.timeDelta).readInfo memory endPos 4 = none :=
    readInfo_eq_none (show ¬ state.curPos + 4 + 4 ≤ endPos by omega)
  unfold handleRecordBody
  split
  · rw [handlePaddingData, no_word, ite_self]
  · split
    · rw [handleTimeExtend, no_word]
    · split
      · rw [handleTimeStamp, no_word]
      · have counted : header.typeLen = 0 := by
          simp only [bufferTypePadding, bufferTypeTimeExtend, bufferTypeTimeStamp] at *
          omega
        rw [handleDataRecord, if_neg (not_not_intro counted), no_word]

theorem handleRecordBody_word (words : header.typeLen = 0 ∨ bufferTypePadding ≤ header.typeLen)
    (small : header.typeLen < 32) (padding : ¬ (header.typeLen = bufferTypePadding ∧ header.timeDelta = 0))
    (inside : state.curPos + 8 ≤ endPos) :
    Handles processor memory size state header.timeDelta
      (wordLayout header state.curPos (numberAt memory (state.curPos + 4) 4))
      (processor.handleRecordBody memory endPos header (state.afterHeader header.timeDelta)) := by
  have word := @readInfo_afterHeader memory endPos state header.timeDelta inside
  unfold handleRecordBody wordLayout
  split
  next is_padding =>
    rw [handlePaddingData, if_neg fun zero => padding ⟨is_padding, zero⟩, word]
    exact goesOn_afterWord rfl (by simp [RecordLayout.after, PageState.place, PageState.afterWord, Nat.add_assoc]) Iff.rfl
  next not_padding =>
    split
    · rw [handleTimeExtend, word]
      exact goesOn_afterWord rfl rfl Iff.rfl
    next not_extend =>
      split
      · rw [handleTimeStamp, word]
        exact goesOn_afterWord rfl rfl Iff.rfl
      next not_stamp =>
        have counted : header.typeLen = 0 := by
          simp only [bufferTypePadding, bufferTypeTimeExtend, bufferTypeTimeStamp] at *
          omega
        rw [handleDataRecord, if_neg (not_not_intro counted), word]
        dsimp only
        by_cases tiny : numberAt memory (state.curPos + 4) 4 < 4
        · rw [if_pos (tiny.trans (by decide)), if_pos tiny]
          exact broken_afterWord _
        · split
          next no_id =>
            unfold handleEventData
            dsimp only
            rw [readInfo_eq_none (by omega)]
            exact broken_afterWord _
          next large =>
            refine handleEventData_handles (by omega) rfl (by rw [PageState.afterWord]) ?_
            rw [afterWord_inside, and_assoc]
            exact and_congr_right fun _ => by omega

theorem handleRecordBody_handles (inside : state.curPos + 4 ≤ endPos) :
    Handles processor memory size state (headerAt memory state.curPos).timeDelta
      (recordLayout memory endPos state.curPos)
      (processor.handleRecordBody memory endPos (headerAt memory state.curPos)
        (state.afterHeader (headerAt memory state.curPos).timeDelta)) := by
  have small : (headerAt memory state.curPos).typeLen < 32 := Nat.mod_lt _ (by decide)
  unfold recordLayout
  rw [if_neg (by omega)]
  split
  next counted =>
    rw [handleRecordBody_data counted.2, handleDataRecord, if_pos (by omega)]
    refine handleEventData_handles (by omega) rfl rfl ?_
    rw [afterHeader_inside, and_assoc]
    exact and_congr_right fun _ => by omega
  next uncounted =>
    have words : (headerAt memory state.curPos).typeLen = 0 ∨ bufferTypePadding ≤ (headerAt memory state.curPos).typeLen := by
      omega
    split
    next padding =>
      rw [handleRecordBody, if_pos padding.1, handlePaddingData, if_pos padding.2]
      exact broken_afterHeader _
    next no_padding =>
      split
      next missing =>
        rw [handleRecordBody_no_word words small (by omega)]
        exact broken_afterHeader _
      next there => exact handleRecordBody_word words small no_padding (by omega)

/-- What a round comes to: the walk goes on to the record that follows, if there is one, and the reads of the round lie in
the page if what is looked at of the record does. -/
structure TurnOf (processor : FtraceProcessor) (memory : Nat → UInt8) (endPosOfData size : Nat) (state next : PageState)
    (goes : Bool) : Prop where
  follows : ∀ place, Follows processor memory endPosOfData state.place place ↔ goes = true ∧ place = next.place
  inside_iff : next.Inside size ↔ state.Inside size ∧
    (recordLayout memory endPosOfData state.curPos).Inside processor memory size state.curPos

theorem TurnOf.halt {next : PageState} (halts : ∀ place, ¬ Follows processor memory endPos state.place place)
    (inside_iff : next.Inside size ↔ state.Inside size ∧
      (recordLayout memory endPos state.curPos).Inside processor memory size state.curPos) :
    TurnOf processor memory endPos size state next false :=
  ⟨fun place => iff_of_false (halts place) fun goes => Bool.false_ne_true goes.1, inside_iff⟩

theorem handleRecord_turn (busy : state.curPos < endPos) :
    (∃ next, processor.handleRecord memory endPos state = .goOn next ∧
      TurnOf processor memory endPos size state next true) ∨
    ∃ result final, processor.handleRecord memory endPos state = .stop result final ∧
      TurnOf processor memory endPos size state final false := by
  by_cases inside : state.curPos + 4 ≤ endPos
  · have handles : Handles processor memory size state _ _ _ := handleRecordBody_handles inside
    have handled_eq := @handleRecord_eq processor memory endPos state inside
    rw [← headerAt] at handled_eq
    rw [handled_eq]
    generalize processor.handleRecordBody memory endPos (headerAt memory state.curPos)
      (state.afterHeader (headerAt memory state.curPos).timeDelta) = handled at handles
    obtain ⟨done, next⟩ := handled
    obtain ⟨after_eq, inside_iff⟩ := handles
    unfold finishRecord
    cases done with
    | false =>
      refine .inr ⟨false, next, rfl, .halt (fun place follows => ?_) inside_iff⟩
      cases after_eq.symm.trans follows.2.1
    | true =>
      cases cut : processor.isSplitCpuTimeStampData next.curTimestamp with
      | true =>
        refine .inr ⟨true, _, rfl, .halt (fun place follows => ?_) inside_iff⟩
        have same := Option.mem_unique after_eq follows.2.1
        have uncut := follows.2.2
        rw [← same, PageState.place, cut] at uncut
        cases uncut
      | false =>
        refine .inl ⟨next, rfl, ?_, inside_iff⟩
        intro place
        constructor
        · intro follows
          exact ⟨rfl, (Option.mem_unique after_eq follows.2.1).symm⟩
        · intro goes
          rw [goes.2]
          exact ⟨busy, after_eq, cut⟩
  · have layout_eq : recordLayout memory endPos state.curPos = .broken 0 := if_pos (by omega)
    refine .inr ⟨false, state, by rw [handleRecord, readInfo_eq_none inside], .halt (fun place follows => ?_) ?_⟩
    · have after_eq := follows.2.1
      rw [PageState.place, layout_eq] at after_eq
      cases after_eq
    · rw [layout_eq]
      exact (and_iff_left (.inl rfl)).symm

theorem handleRecords_inside {rounds : Nat} {result : Bool} {final : PageState}
    (ends : processor.handleRecords memory endPos rounds state = some (result, final)) :
    final.Inside size ↔ state.Inside size ∧
      ∀ place, Relation.ReflTransGen (Follows processor memory endPos) state.place place →
        place.position < endPos →
          (recordLayout memory endPos place.position).Inside processor memory size place.position := by
  induction rounds generalizing state with
  | zero => cases ends
  | succ rounds ih =>
    rw [handleRecords] at ends
    split at ends
    next busy =>
      rcases @handleRecord_turn processor memory endPos size state busy with
        ⟨next, goes, turn⟩ | ⟨stopped, last, stops, turn⟩
      · rw [goes] at ends
        rw [ih ends, turn.inside_iff, and_assoc]
        refine and_congr_right fun _ => ?_
        constructor
        · intro parts place reached before_end
          rcases Relation.ReflTransGen.cases_head_iff.mp reached with here | ⟨second, follows, later⟩
          · subst here
            exact parts.1
          · rw [((turn.follows second).mp follows).2] at later
            exact parts.2 place later before_end
        · intro all
          refine ⟨all _ .refl busy, fun place reached => all place (.head ?_ reached)⟩
          exact (turn.follows _).mpr ⟨rfl, rfl⟩
      · rw [stops] at ends
        cases ends
        rw [turn.inside_iff]
        refine and_congr_right fun _ => ?_
        constructor
        · intro here place reached before_end
          rcases Relation.ReflTransGen.cases_head_iff.mp reached with same | ⟨second, follows, -⟩
          · subst same
            exact here
          · cases ((turn.follows second).mp follows).1
        · intro all
          exact all _ .refl busy
    next idle =>
      cases ends
      refine (and_iff_left fun place reached before_end => ?_).symm
      rcases Relation.ReflTransGen.cases_head_iff.mp reached with same | ⟨second, follows, -⟩
      · subst same
        exact absurd before_end idle
      · exact absurd follows.1 idle

/-- A page of any content is read to the end of the walk, and without a look behind the page exactly if what is looked at
of each of its records lies in the page. -/
theorem staysInside_iff (processor : FtraceProcessor) (memory : Nat → UInt8) :
    StaysInside processor memory ↔ LaidInside processor memory := by
  have commit_le : processor.headerPageCommitSize ≤ 8 := by
    unfold headerPageCommitSize
    split
    · exact Nat.le_refl 8
    · exact processor.commitSize_le
  have fits : 8 + processor.headerPageCommitSize ≤ ftracePageSize := by
    rw [ftracePageSize]
    omega
  unfold StaysInside LaidInside handlePage handlePageHeader
  dsimp only
  rw [readInfo_eq (show 0 + 8 ≤ ftracePageSize by omega)]
  dsimp only
  rw [Nat.zero_add, readInfo_eq fits]
  obtain ⟨result, final, run⟩ := handleRecords_ends processor memory
    { curPos := 8 + processor.headerPageCommitSize
      curTimestamp := numberAt memory 0 8
      reads := [] ++ List.range' 0 8 ++ List.range' 8 processor.headerPageCommitSize }
    (Nat.le_add_left (8 + processor.headerPageCommitSize + numberAt memory 8 processor.headerPageCommitSize % 2 ^ 30) _)
  have header_inside : ∀ index ∈ [] ++ List.range' 0 8 ++ List.range' 8 processor.headerPageCommitSize,
      index < ftracePageSize := by
    rw [nil_append, forall_mem_append, forall_mem_range'_lt, forall_mem_range'_lt]
    exact ⟨.inr (by omega), .inr fits⟩
  have walk := @handleRecords_inside processor memory _ ftracePageSize _ _ result final run
  rw [run]
  constructor
  · intro inside
    obtain ⟨page_result, ran, reads_inside⟩ := inside
    cases ran
    exact (walk.mp reads_inside).2
  · intro laid
    exact ⟨_, rfl, walk.mpr ⟨header_inside, laid⟩⟩

/-- One event, with a text that goes on to the end of the event, is registered. -/
def textProcessor : FtraceProcessor where
  eventFormatDict eventId :=
    if eventId = 7 then
      some {
        eventId := 7
        eventSize := 8
        commonIndex := { type := some 0, flags := some 0, preemt := some 0, pid := some 0 }
        commonFields := [{ offset := 0, size := 2, filedType := .other }]
        fields := [{ offset := 8, size := 0, filedType := .cString }] }
    else none
  eventIdToFunctions eventId := if eventId = 7 then some fun _ => [.text 0] else none
  getSymbol _ := []
  pageHeaderCommitSize := 8
  commitSize_le := Nat.le_refl 8
  splitFile := none
  cpu := 0

/-- Behind an event that is not registered the page ends with an event of 28 bytes whose text has no null byte. -/
def unterminatedPage (address : Nat) : UInt8 :=
  if address = 8 then 0xf0 else if address = 9 then 0x0f
  else if address = 20 then 0xcc else if address = 21 then 0x0f
  else if address = 4064 then 7 else if address = 4068 then 7
  else if 4076 ≤ address then 1 else 0

/-- The committed size is 8192, and an event that is not registered reaches to the end of the page. -/
def overcommittedPage (address : Nat) : UInt8 :=
  if address = 9 then 0x20 else if address = 20 then 0xec else if address = 21 then 0x0f else 0

theorem not_staysInside_of_read {processor : FtraceProcessor} {memory : Nat → UInt8}
    (read : (processor.handlePage memory ftracePageSize).map
      (fun page_result => decide (ftracePageSize ∈ page_result.final.reads)) = some true) :
    ¬ StaysInside processor memory := by
  intro inside
  obtain ⟨page_result, ran, reads_inside⟩ := inside
  rw [ran, Option.map_some, Option.some.injEq] at read
  exact absurd (reads_inside _ (of_decide_eq_true read)) (Nat.lt_irrefl _)

/-- The byte behind the page is read for a text without a null byte, and for a record behind the page. -/
theorem not_staysInside_pages :
    ¬ StaysInside textProcessor unterminatedPage ∧ ¬ StaysInside textProcessor overcommittedPage :=
  ⟨not_staysInside_of_read (by decide +kernel), not_staysInside_of_read (by decide +kernel)⟩

end FtraceProcessor

end SmartPerf.RawTrace
