import SmartPerf.RawTrace.PageWalk

namespace SmartPerf.RawTrace

open Data List

/-! The pages that the ring buffer of the kernel writes, and what `HandlePage` makes of them. -/

/-- The events of the ring buffer. A discarded event keeps its place: the word behind its header holds the length
of all that follows the header, that word included, and the content is what is left of the payload. -/
inductive RingEvent where
  | data (timeDelta : Nat) (payload : List UInt8)
  | longData (timeDelta : Nat) (payload : List UInt8)
  | discarded (timeDelta : Nat) (content : List UInt8)
  | timeExtend (timeDelta array0 : Nat)
  | timeStamp (timeDelta array0 : Nat)
deriving Repr, DecidableEq

def headerWord (typeLen timeDelta : Nat) : List UInt8 := littleEndian 4 (typeLen + 32 * timeDelta)

structure Delivered where
  cpuId : Nat
  eventId : Nat
  timestamp : Nat
  payload : List UInt8
deriving Repr, DecidableEq

def RawTraceEventInfo.delivered (event : RawTraceEventInfo) : Delivered where
  cpuId := event.cpuId
  eventId := event.eventId
  timestamp := event.msg.timestamp
  payload := event.msg.data

/-- The format of the event is registered and the event is supported. -/
def FtraceProcessor.follows (processor : FtraceProcessor) (eventId : Nat) : Bool :=
  match processor.eventFormatDict eventId with
  | some format => (processor.eventIdToFunctions format.eventId).isSome
  | none => false

def FtraceProcessor.deliver (processor : FtraceProcessor) (timestamp : Nat) (payload : List UInt8) : List Delivered :=
  if processor.follows (ofLittleEndian (payload.take 2)) then
    [{ cpuId := processor.cpu, eventId := ofLittleEndian (payload.take 2), timestamp, payload }]
  else []

namespace RingEvent

def bytes : RingEvent → List UInt8
  | data timeDelta payload => headerWord (payload.length / 4) timeDelta ++ payload
  | longData timeDelta payload => headerWord 0 timeDelta ++ (littleEndian 4 (4 + payload.length) ++ payload)
  | discarded timeDelta content => headerWord bufferTypePadding timeDelta ++ (littleEndian 4 (4 + content.length) ++ content)
  | timeExtend timeDelta array0 => headerWord bufferTypeTimeExtend timeDelta ++ littleEndian 4 array0
  | timeStamp timeDelta array0 => headerWord bufferTypeTimeStamp timeDelta ++ littleEndian 4 array0

def timeDelta : RingEvent → Nat
  | data timeDelta _ => timeDelta
  | longData timeDelta _ => timeDelta
  | discarded timeDelta _ => timeDelta
  | timeExtend timeDelta _ => timeDelta
  | timeStamp timeDelta _ => timeDelta

/-- The payload of an event is made of whole words, and up to 28 of them are counted in the header. -/
def WellFormed : RingEvent → Prop
  | data timeDelta payload => timeDelta < 2 ^ 27 ∧ 4 ≤ payload.length ∧ payload.length ≤ 112 ∧ payload.length % 4 = 0
  | longData timeDelta payload => timeDelta < 2 ^ 27 ∧ 4 ≤ payload.length ∧ payload.length % 4 = 0
  | discarded timeDelta content => timeDelta < 2 ^ 27 ∧ timeDelta ≠ 0 ∧ content.length % 4 = 0
  | timeExtend timeDelta array0 => timeDelta < 2 ^ 27 ∧ array0 < 2 ^ 32
  | timeStamp timeDelta array0 => timeDelta < 2 ^ 27 ∧ array0 < 2 ^ 32

instance (event : RingEvent) : Decidable event.WellFormed :=
  match event with
  | data _ _ => inferInstanceAs (Decidable (_ ∧ _))
  | longData _ _ => inferInstanceAs (Decidable (_ ∧ _))
  | discarded _ _ => inferInstanceAs (Decidable (_ ∧ _))
  | timeExtend _ _ => inferInstanceAs (Decidable (_ ∧ _))
  | timeStamp _ _ => inferInstanceAs (Decidable (_ ∧ _))

def clock (time : Nat) : RingEvent → Nat
  | timeExtend timeDelta array0 => (time + timeDelta + array0 * 2 ^ 27) % 2 ^ 64
  | timeStamp timeDelta array0 => timeDelta + array0 * 2 ^ 27
  | event => (time + event.timeDelta) % 2 ^ 64

def delivered (processor : FtraceProcessor) (time : Nat) (event : RingEvent) : List Delivered :=
  match event with
  | data _ payload => processor.deliver (event.clock time) payload
  | longData _ payload => processor.deliver (event.clock time) payload
  | _ => []

def isDiscarded : RingEvent → Bool
  | discarded _ _ => true
  | _ => false

def overrun (event : RingEvent) : Nat := bif event.isDiscarded then 4 else 0

end RingEvent

def deliveredAll (processor : FtraceProcessor) (time : Nat) : List RingEvent → List Delivered
  | [] => []
  | event :: rest => event.delivered processor time ++ deliveredAll processor (event.clock time) rest

def starts (start : Nat) : List RingEvent → List Nat
  | [] => []
  | event :: rest => start :: starts (start + event.bytes.length) rest

/-- A page as the kernel writes it. -/
structure RingPage (commitSize : Nat) where
  timestamp : Nat
  missedEvents : Bool
  missedStored : Bool
  events : List RingEvent
  /-- What lies behind the committed events. -/
  unused : List UInt8
  timestamp_lt : timestamp < 2 ^ 64
  commitSize_ge : 4 ≤ commitSize
  wellFormed : ∀ event ∈ events, event.WellFormed
  length_eq : 8 + commitSize + (events.flatMap RingEvent.bytes).length + unused.length = ftracePageSize

namespace RingPage

variable {commitSize : Nat} (page : RingPage commitSize)

def commit : Nat :=
  (page.events.flatMap RingEvent.bytes).length + (bif page.missedStored then 2 ^ 30 else 0) +
    (bif page.missedEvents then 2 ^ 31 else 0)

def bytes : List UInt8 :=
  littleEndian 8 page.timestamp ++ (littleEndian commitSize page.commit ++
    (page.events.flatMap RingEvent.bytes ++ page.unused))

end RingPage

/-- What is read of a page are its events, each from where it begins, and what is delivered is what they hold. -/
def DecodesPage (processor : FtraceProcessor) (page : RingPage processor.headerPageCommitSize) (behind : Nat → UInt8) : Prop :=
  ∃ page_result, processor.handlePage (placed page.bytes behind) ftracePageSize = some page_result ∧
    page_result.result = true ∧
    page_result.final.eventList.map RawTraceEventInfo.delivered = deliveredAll processor page.timestamp page.events ∧
    page_result.final.heads = starts (8 + processor.headerPageCommitSize) page.events

/-- One event is read. -/
structure Passes (processor : FtraceProcessor) (event : RingEvent) (state next : PageState) : Prop where
  curPos_eq : next.curPos = state.curPos + event.bytes.length + event.overrun
  clock_eq : next.curTimestamp = event.clock state.curTimestamp
  delivered_eq : next.eventList.map RawTraceEventInfo.delivered =
    state.eventList.map RawTraceEventInfo.delivered ++ event.delivered processor state.curTimestamp
  heads_eq : next.heads = state.heads ++ [state.curPos]

namespace FtraceProcessor

variable {processor : FtraceProcessor} {memory : Nat → UInt8} {endPos : Nat} {state : PageState}

theorem handleRecord_goOn_of_body {typeLen timeDelta : Nat} {next : PageState} (whole : processor.splitFile = none)
    (type_small : typeLen < 32) (delta_small : timeDelta < 2 ^ 27)
    (lies : LiesAt memory state.curPos (headerWord typeLen timeDelta)) (inside : state.curPos + 4 ≤ endPos)
    (body : processor.handleRecordBody memory endPos { typeLen, timeDelta } (state.afterHeader timeDelta) = (true, next)) :
    processor.handleRecord memory endPos state = .goOn next := by
  have word : numberAt memory state.curPos 4 = typeLen + 32 * timeDelta := lies.numberAt (by omega)
  have header : eventHeaderOf (typeLen + 32 * timeDelta) = { typeLen, timeDelta } := by
    rw [eventHeaderOf, FtraceEventHeader.mk.injEq]
    omega
  have never : processor.isSplitCpuTimeStampData next.curTimestamp = false := by rw [isSplitCpuTimeStampData, whole]
  rw [handleRecord_eq inside, word, header, body, finishRecord, if_pos rfl, never]
  rfl

theorem handleFtraceEvent_keeps (handler : EventFormat → List FieldAccess) (format : EventFormat) (timestamp : Nat)
    (data : List UInt8) : (processor.handleFtraceEvent handler format timestamp data).1.timestamp = timestamp ∧
      (processor.handleFtraceEvent handler format timestamp data).1.data = data := by
  unfold handleFtraceEvent
  split
  · exact ⟨rfl, rfl⟩
  · split
    · exact ⟨rfl, rfl⟩
    · exact ⟨rfl, rfl⟩

theorem handleEventData_passes (whole : processor.splitFile = none) {payload : List UInt8} (long : 2 ≤ payload.length)
    (lies : LiesAt memory state.curPos payload) :
    ∃ next, processor.handleEventData memory payload.length state = (true, next) ∧
      next.curPos = state.curPos + payload.length ∧ next.curTimestamp = state.curTimestamp ∧ next.heads = state.heads ∧
      next.eventList.map RawTraceEventInfo.delivered =
        state.eventList.map RawTraceEventInfo.delivered ++ processor.deliver state.curTimestamp payload := by
  have id_eq : numberAt memory state.curPos 2 = ofLittleEndian (payload.take 2) := by rw [numberAt, lies.take long]
  unfold handleEventData deliver follows
  dsimp only
  rw [readInfo_eq (by omega), id_eq]
  rcases Option.eq_none_or_eq_some (processor.eventFormatDict (ofLittleEndian (payload.take 2))) with unknown | ⟨format, known⟩
  · simp only [unknown]
    exact ⟨_, rfl, rfl, rfl, rfl, by simp⟩
  · simp only [known, whole]
    rcases Option.eq_none_or_eq_some (processor.eventIdToFunctions format.eventId) with unsupported | ⟨handler, supported⟩
    · simp only [unsupported]
      exact ⟨_, rfl, rfl, rfl, rfl, by simp⟩
    · simp only [supported]
      refine ⟨_, rfl, rfl, rfl, rfl, ?_⟩
      have same : bytesAt memory state.curPos payload.length = payload := lies
      simp only [Option.isSome_some, if_true, map_append, map_singleton, RawTraceEventInfo.delivered,
        handleFtraceEvent_keeps, same]

@[simp] theorem length_headerWord (typeLen timeDelta : Nat) : (headerWord typeLen timeDelta).length = 4 :=
  littleEndian_length _ _

theorem length_bytes (event : RingEvent) : event.bytes.length =
    match event with
    | .data _ payload => 4 + payload.length
    | .longData _ payload => 8 + payload.length
    | .discarded _ content => 8 + content.length
    | .timeExtend _ _ => 8
    | .timeStamp _ _ => 8 := by
  cases event <;> simp only [RingEvent.bytes, length_append, length_headerWord, littleEndian_length] <;> omega

/-- The word behind a header is what is read there. -/
theorem liesAt_word {position typeLen timeDelta word : Nat} {rest : List UInt8} (small : word < 2 ^ 32)
    (lies : LiesAt memory position (headerWord typeLen timeDelta ++ (littleEndian 4 word ++ rest))) :
    LiesAt memory position (headerWord typeLen timeDelta) ∧ numberAt memory (position + 4) 4 = word ∧
      LiesAt memory (position + 8) rest := by
  obtain ⟨header, behind⟩ := liesAt_append.mp lies
  obtain ⟨word_lies, rest_lies⟩ := liesAt_append.mp behind
  exact ⟨header, word_lies.numberAt small, rest_lies⟩

theorem handleRecord_passes (whole : processor.splitFile = none) {event : RingEvent} (wellFormed : event.WellFormed)
    (lies : LiesAt memory state.curPos event.bytes) (inside : state.curPos + event.bytes.length ≤ endPos)
    (short : event.bytes.length < 2 ^ 30) :
    ∃ next, processor.handleRecord memory endPos state = .goOn next ∧ Passes processor event state next := by
  have length := length_bytes event
  cases event with
  | data timeDelta payload =>
    dsimp only at length
    obtain ⟨delta_small, some_words, few_words, whole_words⟩ := wellFormed
    obtain ⟨header, payload_lies⟩ := liesAt_append.mp lies
    obtain ⟨next, handled, curPos_eq, clock_eq, heads_eq, delivered_eq⟩ :=
      @handleEventData_passes processor memory (state.afterHeader timeDelta) whole payload (by omega) payload_lies
    refine ⟨next, handleRecord_goOn_of_body whole (by omega) delta_small header (by omega) ?_, ?_⟩
    · rw [handleRecordBody_data (show payload.length / 4 < 29 by omega), handleDataRecord,
        if_pos (show payload.length / 4 ≠ 0 by omega)]
      rw [Nat.mul_div_cancel' (Nat.dvd_of_mod_eq_zero whole_words), handled]
    · refine ⟨?_, clock_eq, delivered_eq, heads_eq⟩
      rw [curPos_eq, length]
      exact Nat.add_assoc _ _ _
  | longData timeDelta payload =>
    dsimp only at length
    obtain ⟨delta_small, some_words, whole_words⟩ := wellFormed
    obtain ⟨header, size_eq, payload_lies⟩ := liesAt_word (by omega) lies
    obtain ⟨next, handled, curPos_eq, clock_eq, heads_eq, delivered_eq⟩ :=
      @handleEventData_passes processor memory (state.afterWord timeDelta) whole payload (by omega) payload_lies
    refine ⟨next, handleRecord_goOn_of_body whole (by omega) delta_small header (by omega) ?_, ?_⟩
    · rw [handleRecordBody_data (show 0 < bufferTypePadding by decide), handleDataRecord, if_neg (not_not_intro rfl),
        readInfo_afterHeader _ (by omega), size_eq]
      dsimp only
      rw [if_neg (by omega), Nat.add_sub_cancel_left, handled]
    · refine ⟨?_, clock_eq, delivered_eq, heads_eq⟩
      rw [curPos_eq, length]
      exact Nat.add_assoc _ _ _
  | discarded timeDelta content =>
    dsimp only at length
    obtain ⟨delta_small, delta_pos, whole_words⟩ := wellFormed
    obtain ⟨header, size_eq, -⟩ := liesAt_word (by omega) lies
    refine ⟨_, handleRecord_goOn_of_body whole (by decide) delta_small header (by omega) (by
      rw [handleRecordBody, if_pos rfl, handlePaddingData, if_neg delta_pos, readInfo_afterHeader _ (by omega), size_eq]), ?_⟩
    refine ⟨?_, rfl, (append_nil _).symm, rfl⟩
    rw [length]
    show state.curPos + 8 + (4 + content.length) = state.curPos + (8 + content.length) + 4
    omega
  | timeExtend timeDelta array0 =>
    dsimp only at length
    obtain ⟨delta_small, array_small⟩ := wellFormed
    obtain ⟨header, array_eq, -⟩ := liesAt_word array_small lies
    refine ⟨_, handleRecord_goOn_of_body whole (by decide) delta_small header (by omega) (by
      rw [handleRecordBody, if_neg (by simp [bufferTypePadding, bufferTypeTimeExtend]), if_pos rfl, handleTimeExtend,
        readInfo_afterHeader _ (by omega), array_eq]), ?_⟩
    refine ⟨length ▸ rfl, ?_, (append_nil _).symm, rfl⟩
    simp only [PageState.afterWord, RingEvent.clock, timestampIncrements, tsExtShift]
    omega
  | timeStamp timeDelta array0 =>
    dsimp only at length
    obtain ⟨delta_small, array_small⟩ := wellFormed
    obtain ⟨header, array_eq, -⟩ := liesAt_word array_small lies
    refine ⟨_, handleRecord_goOn_of_body whole (by decide) delta_small header (by omega) (by
      rw [handleRecordBody, if_neg (by simp [bufferTypePadding, bufferTypeTimeStamp]),
        if_neg (by simp [bufferTypeTimeExtend, bufferTypeTimeStamp]), if_pos rfl, handleTimeStamp,
        readInfo_afterHeader _ (by omega), array_eq]), ?_⟩
    refine ⟨length ▸ rfl, ?_, (append_nil _).symm, rfl⟩
    simp only [RingEvent.clock, timestampIncrements, tsExtShift]

theorem bytes_length_ge {event : RingEvent} (wellFormed : event.WellFormed) : 8 ≤ event.bytes.length := by
  rw [length_bytes event]
  cases event with
  | data timeDelta payload =>
    have some_words := wellFormed.2.1
    dsimp only
    omega
  | longData timeDelta payload => exact Nat.le_add_right _ _
  | discarded timeDelta content => exact Nat.le_add_right _ _
  | timeExtend timeDelta array0 => exact le_rfl
  | timeStamp timeDelta array0 => exact le_rfl

/-- A list of events at the position of the walk, up to the end of the data. -/
structure EventsAt (processor : FtraceProcessor) (memory : Nat → UInt8) (endPosOfData : Nat) (state : PageState)
    (events : List RingEvent) : Prop where
  whole : processor.splitFile = none
  wellFormed : ∀ event ∈ events, event.WellFormed
  lies : LiesAt memory state.curPos (events.flatMap RingEvent.bytes)
  ends : endPosOfData = state.curPos + (events.flatMap RingEvent.bytes).length
  short : (events.flatMap RingEvent.bytes).length < 2 ^ 30

namespace EventsAt

variable {event : RingEvent} {rest : List RingEvent}

theorem handleRecord (events_at : EventsAt processor memory endPos state (event :: rest)) :
    state.curPos < endPos ∧
      ∃ next, processor.handleRecord memory endPos state = .goOn next ∧ Passes processor event state next ∧
        (event.isDiscarded = false → EventsAt processor memory endPos next rest) := by
  obtain ⟨whole, wellFormed, lies, ends, short⟩ := events_at
  rw [flatMap_cons, length_append] at ends short
  rw [flatMap_cons, liesAt_append] at lies
  have fine := wellFormed event mem_cons_self
  have some_bytes := bytes_length_ge fine
  have inside : state.curPos + event.bytes.length ≤ endPos := by omega
  obtain ⟨next, goes, passes⟩ := handleRecord_passes whole fine lies.1 inside (by omega)
  refine ⟨by omega, next, goes, passes, fun kept => ?_⟩
  have curPos_eq : next.curPos = state.curPos + event.bytes.length := by
    rw [passes.curPos_eq, RingEvent.overrun, kept]
    rfl
  exact {
    whole
    wellFormed := forall_mem_of_forall_mem_cons wellFormed
    lies := curPos_eq ▸ lies.2
    ends := by omega
    short := by omega }

section
variable {events : List RingEvent} (events_at : EventsAt processor memory endPos state events)
include events_at

theorem decodes (last : ∀ event ∈ events.dropLast, event.isDiscarded = false) {rounds : Nat} (enough : events.length < rounds) :
    ∃ final, processor.handleRecords memory endPos rounds state = some (true, final) ∧
      final.eventList.map RawTraceEventInfo.delivered =
        state.eventList.map RawTraceEventInfo.delivered ++ deliveredAll processor state.curTimestamp events ∧
      final.heads = state.heads ++ starts state.curPos events := by
  induction events generalizing state rounds with
  | nil =>
    have ends := events_at.ends
    obtain ⟨more, rfl⟩ := Nat.exists_eq_add_of_lt enough
    refine ⟨state, ?_, (append_nil _).symm, (append_nil _).symm⟩
    rw [handleRecords, if_neg (by rw [ends]; exact Nat.lt_irrefl _)]
  | cons event rest ih =>
    obtain ⟨inside, next, goes, passes, behind⟩ := events_at.handleRecord
    obtain ⟨more, rfl⟩ := Nat.exists_eq_add_of_lt enough
    rw [length_cons, handleRecords, if_pos inside, goes, deliveredAll]
    dsimp only
    cases kept : event.isDiscarded with
    | false =>
      have last_rest : ∀ later ∈ rest.dropLast, later.isDiscarded = false := by
        intro later listed
        cases rest with
        | nil => cases listed
        | cons second others => exact last later (mem_cons_of_mem _ listed)
      obtain ⟨final, run, delivered_eq, heads_eq⟩ := @ih next (behind kept) last_rest (rest.length + 1 + more) (by omega)
      refine ⟨final, run, ?_, ?_⟩
      · rw [delivered_eq, passes.delivered_eq, passes.clock_eq, append_assoc]
      · rw [heads_eq, passes.heads_eq, passes.curPos_eq, RingEvent.overrun, kept, append_assoc]
        rfl
    | true =>
      cases rest with
      | nil =>
        refine ⟨next, ?_, ?_, passes.heads_eq⟩
        · have ends := events_at.ends
          have passed := passes.curPos_eq
          rw [flatMap_cons, flatMap_nil, append_nil] at ends
          rw [length_nil, Nat.zero_add, Nat.add_comm, handleRecords, if_neg (by omega)]
        · rw [passes.delivered_eq, deliveredAll, append_nil]
      | cons second others =>
        have contradiction := last event mem_cons_self
        rw [kept] at contradiction
        cases contradiction

theorem discarded_last {rounds : Nat} {result : Bool} {final : PageState}
    (run : processor.handleRecords memory endPos rounds state = some (result, final))
    (heads_eq : final.heads = state.heads ++ starts state.curPos events) :
    ∀ event ∈ events.dropLast, event.isDiscarded = false := by
  induction events generalizing state rounds with
  | nil =>
    intro event listed
    cases listed
  | cons event rest ih =>
    obtain ⟨inside, next, goes, passes, behind⟩ := events_at.handleRecord
    cases rounds with
    | zero => cases run
    | succ rounds =>
      rw [handleRecords, if_pos inside, goes] at run
      rw [starts, append_cons, ← passes.heads_eq] at heads_eq
      cases kept : event.isDiscarded with
      | false =>
        have curPos_eq : next.curPos = state.curPos + event.bytes.length := by
          rw [passes.curPos_eq, RingEvent.overrun, kept]
          rfl
        have rest_last := ih (behind kept) run (curPos_eq ▸ heads_eq)
        intro earlier listed
        cases rest with
        | nil => cases listed
        | cons second others =>
          rcases mem_cons.mp listed with here | later
          · exact here ▸ kept
          · exact rest_last earlier later
      | true =>
        cases rest with
        | nil =>
          intro earlier listed
          cases listed
        | cons second others =>
          -- the headers read from here on lie behind the start of the next event
          obtain ⟨more, final_heads, beyond⟩ := handleRecords_heads run
          have same : more = starts (state.curPos + event.bytes.length) (second :: others) :=
            append_cancel_left (final_heads.symm.trans heads_eq)
          have first := beyond (state.curPos + event.bytes.length) (same ▸ mem_cons_self)
          rw [passes.curPos_eq, RingEvent.overrun, kept, cond_true] at first
          omega

end

end EventsAt

theorem commit_lt {commitSize : Nat} (page : RingPage commitSize) : page.commit < 256 ^ commitSize := by
  have bound : (256 : Nat) ^ 4 ≤ 256 ^ commitSize := Nat.pow_le_pow_right (by decide) page.commitSize_ge
  have length_eq := page.length_eq
  rw [ftracePageSize] at length_eq
  unfold RingPage.commit
  cases page.missedStored <;> cases page.missedEvents <;> simp only [cond_true, cond_false] <;> omega

theorem commit_mod {commitSize : Nat} (page : RingPage commitSize) :
    page.commit % 2 ^ 30 = (page.events.flatMap RingEvent.bytes).length := by
  have length_eq := page.length_eq
  rw [ftracePageSize] at length_eq
  unfold RingPage.commit
  cases page.missedStored <;> cases page.missedEvents <;> simp only [cond_true, cond_false] <;> omega

theorem eventsAt_start (whole : processor.splitFile = none) (page : RingPage processor.headerPageCommitSize)
    (behind : Nat → UInt8) :
    ∃ header start, processor.handlePageHeader (placed page.bytes behind) ftracePageSize = (header, start) ∧
      EventsAt processor (placed page.bytes behind) header.endpos { start with curTimestamp := header.timestamp } page.events ∧
      header.timestamp = page.timestamp ∧ start.curPos = 8 + processor.headerPageCommitSize ∧
      start.eventList = [] ∧ start.heads = [] := by
  have length_eq := page.length_eq
  obtain ⟨time_lies, rest_lies⟩ := liesAt_append.mp (liesAt_placed page.bytes behind)
  obtain ⟨commit_lies, data_lies⟩ := liesAt_append.mp rest_lies
  obtain ⟨events_lie, -⟩ := liesAt_append.mp data_lies
  rw [littleEndian_length] at commit_lies events_lie
  rw [littleEndian_length] at events_lie
  have time_eq := time_lies.numberAt (page.timestamp_lt.trans_le (by decide))
  have commit_eq := commit_lies.numberAt (commit_lt page)
  unfold handlePageHeader
  dsimp only
  rw [readInfo_eq (show 0 + 8 ≤ ftracePageSize by omega), time_eq]
  dsimp only
  rw [readInfo_eq (show 0 + 8 + processor.headerPageCommitSize ≤ ftracePageSize by omega)]
  dsimp only
  rw [Nat.zero_add, commit_eq, commit_mod]
  refine ⟨_, _, rfl, ?_, rfl, rfl, rfl, rfl⟩
  exact {
    whole
    wellFormed := page.wellFormed
    lies := events_lie
    ends := rfl
    short := by
      rw [ftracePageSize] at length_eq
      omega }

theorem length_le_length_flatMap {events : List RingEvent} (wellFormed : ∀ event ∈ events, event.WellFormed) :
    events.length ≤ (events.flatMap RingEvent.bytes).length := by
  induction events with
  | nil => exact Nat.le_refl 0
  | cons event rest ih =>
    have first := bytes_length_ge (wellFormed event mem_cons_self)
    have others := ih (forall_mem_of_forall_mem_cons wellFormed)
    rw [flatMap_cons, length_append, length_cons]
    omega

/-- A page is read back exactly if no event stands behind a discarded one: the walk goes four bytes too far
behind a discarded event, since the word with its length counts itself. -/
theorem decodesPage_iff (processor : FtraceProcessor) (whole : processor.splitFile = none)
    (page : RingPage processor.headerPageCommitSize) (behind : Nat → UInt8) :
    DecodesPage processor page behind ↔ ∀ event ∈ page.events.dropLast, event.isDiscarded = false := by
  obtain ⟨header, start, header_eq, events_at, time_eq, curPos_eq, no_events, no_heads⟩ := eventsAt_start whole page behind
  unfold DecodesPage handlePage
  rw [header_eq]
  constructor
  · rintro ⟨page_result, ran, -, -, heads_eq⟩
    obtain ⟨⟨result, final⟩, run, rfl⟩ := Option.map_eq_some_iff.mp ran
    refine events_at.discarded_last run ?_
    rw [heads_eq, no_heads, nil_append, curPos_eq]
  · intro last
    have enough : page.events.length < header.endpos + 1 := by
      have few := length_le_length_flatMap page.wellFormed
      have ends := events_at.ends
      omega
    obtain ⟨final, run, delivered_eq, heads_eq⟩ := events_at.decodes last enough
    refine ⟨_, Option.map_eq_some_iff.mpr ⟨_, run, rfl⟩, rfl, ?_, ?_⟩
    · rw [delivered_eq, no_events, map_nil, nil_append, time_eq]
    · rw [heads_eq, no_heads, nil_append, curPos_eq]

def sampleProcessor : FtraceProcessor where
  eventFormatDict eventId :=
    if eventId = 7 then
      some {
        eventId := 7
        eventSize := 4
        commonIndex := { type := none, flags := none, preemt := none, pid := none }
        commonFields := []
        fields := [] }
    else none
  eventIdToFunctions eventId := if eventId = 7 then some fun _ => [] else none
  getSymbol _ := []
  pageHeaderCommitSize := 8
  commitSize_le := le_rfl
  splitFile := none
  cpu := 0

def sampleData : RingEvent := .data 5 [7, 0, 0, 0]

def sampleDiscarded : RingEvent := .discarded 1 []

def sampleRingPage (events : List RingEvent) (wellFormed : ∀ event ∈ events, event.WellFormed)
    (length_eq : (events.flatMap RingEvent.bytes).length = 16) : RingPage sampleProcessor.headerPageCommitSize where
  timestamp := 1000
  missedEvents := false
  missedStored := false
  events
  unused := List.replicate 4064 0
  timestamp_lt := by decide
  commitSize_ge := by decide
  wellFormed
  length_eq := by
    rw [length_eq, length_replicate]
    decide

theorem decodesPage_discardedLast :
    DecodesPage sampleProcessor (sampleRingPage [sampleData, sampleDiscarded] (by decide) (by decide)) fun _ => 0 :=
  (decodesPage_iff sampleProcessor rfl _ _).mpr (by decide)

/-- The event behind a discarded one is lost: its payload is taken for the header of an event. -/
theorem decodesPage_not_discardedFirst :
    (sampleProcessor.handlePage (placed (sampleRingPage [sampleDiscarded, sampleData] (by decide) (by decide)).bytes fun _ => 0)
        ftracePageSize).map (fun page_result => page_result.final.eventList) = some [] ∧
      deliveredAll sampleProcessor 1000 [sampleDiscarded, sampleData] =
        [{ cpuId := 0, eventId := 7, timestamp := 1006, payload := [7, 0, 0, 0] }] ∧
      ¬ DecodesPage sampleProcessor (sampleRingPage [sampleDiscarded, sampleData] (by decide) (by decide)) fun _ => 0 := by
  have lost : (sampleProcessor.handlePage
      (placed (sampleRingPage [sampleDiscarded, sampleData] (by decide) (by decide)).bytes fun _ => 0)
      ftracePageSize).map (fun page_result => page_result.final.eventList) = some [] := by
    decide +kernel
  have written : deliveredAll sampleProcessor 1000 [sampleDiscarded, sampleData] =
      [{ cpuId := 0, eventId := 7, timestamp := 1006, payload := [7, 0, 0, 0] }] := by
    decide
  refine ⟨lost, written, ?_⟩
  intro decodes
  obtain ⟨page_result, ran, -, delivered_eq, -⟩ := decodes
  rw [ran, Option.map_some, Option.some.injEq] at lost
  rw [lost] at delivered_eq
  exact absurd (delivered_eq.trans written) (by decide)

end FtraceProcessor

end SmartPerf.RawTrace
