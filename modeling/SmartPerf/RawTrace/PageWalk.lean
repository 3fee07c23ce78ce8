import SmartPerf.RawTrace.FtraceProcessor

namespace SmartPerf.RawTrace

open Data

/-! What holds of every walk over a page, whatever its bytes are. -/

/-- A part of a round: the position does not go back and no header is read. -/
structure Advances (state next : PageState) : Prop where
  curPos_le : state.curPos ≤ next.curPos
  heads_eq : next.heads = state.heads

namespace Advances

variable {state next later : PageState}

theorem refl (state : PageState) : Advances state state := ⟨le_rfl, rfl⟩

theorem trans (first : Advances state next) (second : Advances next later) : Advances state later :=
  ⟨first.curPos_le.trans second.curPos_le, second.heads_eq.trans first.heads_eq⟩

theorem setTimestamp (advances : Advances state next) (timestamp : Nat) :
    Advances state { next with curTimestamp := timestamp } :=
  ⟨advances.curPos_le, advances.heads_eq⟩

theorem of_readInfo {memory : Nat → UInt8} {endPos outSize value : Nat}
    (taken : state.readInfo memory endPos outSize = some (value, next)) : Advances state next := by
  unfold PageState.readInfo at taken
  split at taken
  · cases taken
    exact ⟨Nat.le_add_right _ _, rfl⟩
  · cases taken

end Advances

def PageState.afterHeader (state : PageState) (timeDelta : Nat) : PageState where
  curPos := state.curPos + 4
  curTimestamp := (state.curTimestamp + timeDelta) % 2 ^ 64
  haveSplitSeg := state.haveSplitSeg
  eventList := state.eventList
  reads := state.reads ++ List.range' state.curPos 4
  heads := state.heads ++ [state.curPos]

def PageState.afterWord (state : PageState) (timeDelta : Nat) : PageState where
  curPos := state.curPos + 8
  curTimestamp := (state.curTimestamp + timeDelta) % 2 ^ 64
  haveSplitSeg := state.haveSplitSeg
  eventList := state.eventList
  reads := state.reads ++ List.range' state.curPos 4 ++ List.range' (state.curPos + 4) 4
  heads := state.heads ++ [state.curPos]

namespace FtraceProcessor

section Reading

variable {processor : FtraceProcessor} {memory : Nat → UInt8} {endPos : Nat} {state : PageState}

theorem readInfo_eq {endPos outSize : Nat} (inside : state.curPos + outSize ≤ endPos) :
    state.readInfo memory endPos outSize = some (numberAt memory state.curPos outSize,
      { state with
        curPos := state.curPos + outSize
        reads := state.reads ++ List.range' state.curPos outSize }) :=
  if_pos inside

theorem readInfo_eq_none {endPos outSize : Nat} (outside : ¬ state.curPos + outSize ≤ endPos) :
    state.readInfo memory endPos outSize = none :=
  if_neg outside

theorem readInfo_afterHeader (timeDelta : Nat) (inside : state.curPos + 8 ≤ endPos) :
    (state.afterHeader timeDelta).readInfo memory endPos 4 =
      some (numberAt memory (state.curPos + 4) 4, state.afterWord timeDelta) :=
  readInfo_eq (show state.curPos + 4 + 4 ≤ endPos by omega)

theorem handleRecordBody_data {eventHeader : FtraceEventHeader} (small : eventHeader.typeLen < bufferTypePadding) :
    processor.handleRecordBody memory endPos eventHeader state =
      processor.handleDataRecord memory endPos eventHeader state := by
  rw [handleRecordBody, if_neg small.ne, if_neg ((small.trans (by decide)).ne), if_neg ((small.trans (by decide)).ne)]

theorem handleRecord_eq (inside : state.curPos + 4 ≤ endPos) :
    processor.handleRecord memory endPos state =
      processor.finishRecord (processor.handleRecordBody memory endPos
        (eventHeaderOf (numberAt memory state.curPos 4))
        (state.afterHeader (eventHeaderOf (numberAt memory state.curPos 4)).timeDelta)) := by
  rw [handleRecord, readInfo_eq inside]
  rfl

end Reading

variable (processor : FtraceProcessor) (memory : Nat → UInt8) (endPos : Nat) (eventHeader : FtraceEventHeader)

variable (state : PageState)

theorem handlePaddingData_advances : Advances state (handlePaddingData memory endPos eventHeader state).2 := by
  unfold handlePaddingData
  split
  · exact .refl state
  · split
    · exact .refl state
    next taken =>
      have read := Advances.of_readInfo taken
      exact ⟨read.curPos_le.trans (Nat.le_add_right _ _), read.heads_eq⟩

theorem handleTimeExtend_advances : Advances state (handleTimeExtend memory endPos state).2 := by
  unfold handleTimeExtend
  split
  · exact .refl state
  next taken => exact (Advances.of_readInfo taken).setTimestamp _

theorem handleTimeStamp_advances : Advances state (handleTimeStamp memory endPos eventHeader state).2 := by
  unfold handleTimeStamp
  split
  · exact .refl state
  next taken => exact (Advances.of_readInfo taken).setTimestamp _

theorem handleEventData_advances (eventSize : Nat) (state : PageState) :
    Advances state (processor.handleEventData memory eventSize state).2 := by
  unfold handleEventData
  dsimp only
  split
  · exact .refl state
  next taken =>
    have read := Advances.of_readInfo taken
    split
    · exact ⟨Nat.le_add_right _ _, read.heads_eq⟩
    · split
      · exact ⟨Nat.le_add_right _ _, read.heads_eq⟩
      · split
        · exact ⟨Nat.le_add_right _ _, read.heads_eq⟩
        · exact ⟨Nat.le_add_right _ _, read.heads_eq⟩

theorem handleDataRecord_advances :
    Advances state (processor.handleDataRecord memory endPos eventHeader state).2 := by
  unfold handleDataRecord
  split
  · exact processor.handleEventData_advances memory _ state
  · split
    · exact .refl state
    next taken =>
      split
      · exact .of_readInfo taken
      · exact (Advances.of_readInfo taken).trans (processor.handleEventData_advances memory _ _)

theorem handleRecordBody_advances :
    Advances state (processor.handleRecordBody memory endPos eventHeader state).2 := by
  unfold handleRecordBody
  split
  · exact handlePaddingData_advances memory endPos eventHeader state
  · split
    · exact handleTimeExtend_advances memory endPos state
    · split
      · exact handleTimeStamp_advances memory endPos eventHeader state
      · exact processor.handleDataRecord_advances memory endPos eventHeader state

variable {processor memory endPos} {state next final : PageState}

theorem handleRecord_goOn (goes : processor.handleRecord memory endPos state = .goOn next) :
    next.heads = state.heads ++ [state.curPos] ∧ state.curPos + 4 ≤ next.curPos := by
  by_cases inside : state.curPos + 4 ≤ endPos
  · rw [handleRecord_eq inside, finishRecord] at goes
    have body := processor.handleRecordBody_advances memory endPos (eventHeaderOf (numberAt memory state.curPos 4))
      (state.afterHeader (eventHeaderOf (numberAt memory state.curPos 4)).timeDelta)
    split at goes
    · split at goes
      · cases goes
      · cases goes
        exact ⟨body.heads_eq, body.curPos_le⟩
    · cases goes
  · rw [handleRecord, readInfo_eq_none inside] at goes
    cases goes

theorem handleRecord_stop {result : Bool} (stops : processor.handleRecord memory endPos state = .stop result final) :
    final.heads = state.heads ∨ final.heads = state.heads ++ [state.curPos] := by
  by_cases inside : state.curPos + 4 ≤ endPos
  · rw [handleRecord_eq inside, finishRecord] at stops
    have body := processor.handleRecordBody_advances memory endPos (eventHeaderOf (numberAt memory state.curPos 4))
      (state.afterHeader (eventHeaderOf (numberAt memory state.curPos 4)).timeDelta)
    refine .inr ?_
    split at stops
    · split at stops
      · cases stops
        exact body.heads_eq
      · cases stops
    · cases stops
      exact body.heads_eq
  · rw [handleRecord, readInfo_eq_none inside] at stops
    cases stops
    exact .inl rfl

theorem handleRecords_heads {rounds : Nat} {result : Bool}
    (ends : processor.handleRecords memory endPos rounds state = some (result, final)) :
    ∃ more, final.heads = state.heads ++ more ∧ ∀ head ∈ more, state.curPos ≤ head := by
  induction rounds generalizing state with
  | zero => cases ends
  | succ rounds ih =>
    unfold handleRecords at ends
    split at ends
    · split at ends
      next after goes =>
        obtain ⟨heads_eq, passed⟩ := handleRecord_goOn goes
        obtain ⟨more, final_heads, behind⟩ := ih ends
        refine ⟨state.curPos :: more, ?_, ?_⟩
        · rw [final_heads, heads_eq, List.append_assoc, List.singleton_append]
        · intro head listed
          rcases List.mem_cons.mp listed with here | later
          · exact here.symm.le
          · exact Nat.le_trans (by omega) (behind head later)
      next stops =>
        cases ends
        rcases handleRecord_stop stops with same | one
        · exact ⟨[], by rw [same, List.append_nil], fun _ listed => nomatch listed⟩
        · refine ⟨[state.curPos], one, ?_⟩
          intro head listed
          exact (List.mem_singleton.mp listed).symm.le
    · cases ends
      exact ⟨[], by rw [List.append_nil], fun _ listed => nomatch listed⟩

theorem handleRecords_ends (processor : FtraceProcessor) (memory : Nat → UInt8) {rounds : Nat} (state : PageState)
    (enough : endPos ≤ state.curPos + rounds) :
    ∃ result final, processor.handleRecords memory endPos (rounds + 1) state = some (result, final) := by
  induction rounds generalizing state with
  | zero =>
    rw [handleRecords, if_neg (by omega)]
    exact ⟨_, _, rfl⟩
  | succ rounds ih =>
    unfold handleRecords
    split
    · split
      next after goes =>
        have passed := (handleRecord_goOn goes).2
        exact ih after (by omega)
      · exact ⟨_, _, rfl⟩
    · exact ⟨_, _, rfl⟩

end FtraceProcessor

end SmartPerf.RawTrace
