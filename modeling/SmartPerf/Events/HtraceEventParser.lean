import SmartPerf.Data.Window

namespace SmartPerf.Events

open Data List

/-! How `HtraceEventParser` collects the events of ftrace packets and hands them on in the order of their timestamps
(without splitting the file by time). -/

variable (EventType Detail : Type)

/-- An event of a packet. `detail` is what `SetEventType` finds: the type of a supported event and its message. -/
structure FtraceEvent where
  timestamp : Nat
  pid : Int
  tgid : Int
  comm : String
  detail : Option (EventType × Detail)

/-- The message for a cpu. -/
structure FtraceCpuDetailMsg where
  cpu : Nat
  overwrite : Nat
  event : List (FtraceEvent EventType Detail)

def FtraceCpuDetailMsg.hasEvent {EventType Detail : Type} (msg : FtraceCpuDetailMsg EventType Detail) : Bool :=
  !msg.event.isEmpty

/-- The event as it is kept, with its time on the primary clock. -/
structure HtraceEventInfo where
  pid : Int
  tgid : Int
  cpu : Nat
  eventType : EventType
  timeStamp : Nat
  taskName : String
  detail : Detail

/-- A packet and its clock. -/
structure TracePacket where
  clockId : Nat
  ftraceCpuDetail : List (FtraceCpuDetailMsg EventType Detail)

structure HtraceEventParser where
  htraceEventList : List (HtraceEventInfo EventType Detail) := []
  lastOverwrite : Nat := 0
  lostEvents : Nat := 0
  /-- The calls of the handlers, in order. -/
  handled : List (HtraceEventInfo EventType Detail) := []

def htraceMaxBuffSize : Nat := 1000 * 1000

variable {EventType Detail : Type} (toPrimaryTraceTime : Nat → Nat → Nat)

/-- What is kept of an event; an event of a type that is not supported is passed over. -/
def eventInfo (clockId cpu : Nat) (event : FtraceEvent EventType Detail) : Option (HtraceEventInfo EventType Detail) :=
  event.detail.map fun (eventType, detail) =>
    { pid := event.pid
      tgid := event.tgid
      cpu
      eventType
      timeStamp := toPrimaryTraceTime clockId event.timestamp
      taskName := event.comm
      detail }

namespace HtraceEventParser

def parserCpuEvent (clockId : Nat) (msg : FtraceCpuDetailMsg EventType Detail) (parser : HtraceEventParser EventType Detail) :
    HtraceEventParser EventType Detail :=
  msg.event.foldl (fun parser event =>
    match eventInfo toPrimaryTraceTime clockId msg.cpu event with
    | none => parser
    | some info => { parser with htraceEventList := parser.htraceEventList ++ [info] }) parser

def countOverwrite (overwrite : Nat) (parser : HtraceEventParser EventType Detail) : HtraceEventParser EventType Detail :=
  if overwrite = 0 then parser
  else { parser with lastOverwrite := overwrite, lostEvents := parser.lostEvents + 1 }

def parseMessages (clockId : Nat) : List (FtraceCpuDetailMsg EventType Detail) → HtraceEventParser EventType Detail →
    HtraceEventParser EventType Detail
  | [], parser => parser
  | msg :: rest, parser =>
    if !msg.hasEvent then parser
    else parseMessages clockId rest (parserCpuEvent toPrimaryTraceTime clockId msg (countOverwrite msg.overwrite parser))

def parseDataItem (packet : TracePacket EventType Detail) (parser : HtraceEventParser EventType Detail) :
    HtraceEventParser EventType Detail :=
  parseMessages toPrimaryTraceTime packet.clockId packet.ftraceCpuDetail parser

variable (eventToFunctionMap : EventType → Bool)

def protoReaderDealEvent (parser : HtraceEventParser EventType Detail)
    (event : HtraceEventInfo EventType Detail) : HtraceEventParser EventType Detail :=
  if eventToFunctionMap event.eventType then { parser with handled := parser.handled ++ [event] } else parser

/-- The earlier events are handed on when the list has grown to twice the window. -/
def filterAllEventsReader (maxBuffSize : Nat)
    (parser : HtraceEventParser EventType Detail) : HtraceEventParser EventType Detail :=
  if parser.htraceEventList.length < 2 * maxBuffSize then parser
  else
    let sorted := stableSort HtraceEventInfo.timeStamp parser.htraceEventList
    let parser := (sorted.take maxBuffSize).foldl (protoReaderDealEvent eventToFunctionMap) parser
    { parser with htraceEventList := sorted.drop maxBuffSize }

def filterAllEvents (maxBuffSize : Nat)
    (parser : HtraceEventParser EventType Detail) : Option (HtraceEventParser EventType Detail) :=
  let sorted := stableSort HtraceEventInfo.timeStamp parser.htraceEventList
  (drain (protoReaderDealEvent eventToFunctionMap) maxBuffSize (sorted.length + 1) parser sorted).map fun parser =>
    { parser with htraceEventList := [] }

end HtraceEventParser

/-- What is called while a trace is read. -/
inductive HtraceCall (EventType Detail : Type) where
  | parseDataItem (packet : TracePacket EventType Detail)
  | filterAllEventsReader

namespace HtraceEventParser

variable (eventToFunctionMap : EventType → Bool)

def call (maxBuffSize : Nat) (parser : HtraceEventParser EventType Detail) :
    HtraceCall EventType Detail → HtraceEventParser EventType Detail
  | .parseDataItem packet => parseDataItem toPrimaryTraceTime packet parser
  | .filterAllEventsReader => filterAllEventsReader eventToFunctionMap maxBuffSize parser

def callAll (maxBuffSize : Nat) (calls : List (HtraceCall EventType Detail)) :
    Option (HtraceEventParser EventType Detail) :=
  filterAllEvents eventToFunctionMap maxBuffSize (calls.foldl (call toPrimaryTraceTime eventToFunctionMap maxBuffSize) {})

end HtraceEventParser

def messageEvents (clockId : Nat) (msg : FtraceCpuDetailMsg EventType Detail) : List (HtraceEventInfo EventType Detail) :=
  msg.event.filterMap (eventInfo toPrimaryTraceTime clockId msg.cpu)

namespace TracePacket

variable (packet : TracePacket EventType Detail)

def events : List (HtraceEventInfo EventType Detail) :=
  packet.ftraceCpuDetail.flatMap (messageEvents toPrimaryTraceTime packet.clockId)

/-- The events of the messages before the first one without events. -/
def recorded : List (HtraceEventInfo EventType Detail) :=
  (packet.ftraceCpuDetail.takeWhile (·.hasEvent)).flatMap (messageEvents toPrimaryTraceTime packet.clockId)

/-- No event for a handler stands behind a message without events. -/
def NothingBehindEmpty (eventToFunctionMap : EventType → Bool) (packet : TracePacket EventType Detail) : Prop :=
  ∀ front msg back, packet.ftraceCpuDetail = front ++ msg :: back → msg.hasEvent = false →
    ∀ behind ∈ back, ∀ event ∈ messageEvents toPrimaryTraceTime packet.clockId behind,
      eventToFunctionMap event.eventType = false

end TracePacket

namespace HtraceCall

def events : HtraceCall EventType Detail → List (HtraceEventInfo EventType Detail)
  | .parseDataItem packet => packet.events toPrimaryTraceTime
  | .filterAllEventsReader => []

def recorded : HtraceCall EventType Detail → List (HtraceEventInfo EventType Detail)
  | .parseDataItem packet => packet.recorded toPrimaryTraceTime
  | .filterAllEventsReader => []

end HtraceCall

namespace HtraceEventParser

variable {toPrimary : Nat → Nat → Nat} {handles : EventType → Bool} {maxBuffSize : Nat}
variable {parser : HtraceEventParser EventType Detail}

theorem parserCpuEvent_eq (clockId : Nat) (msg : FtraceCpuDetailMsg EventType Detail)
    (parser : HtraceEventParser EventType Detail) :
    parserCpuEvent toPrimary clockId msg parser =
      { parser with htraceEventList := parser.htraceEventList ++ messageEvents toPrimary clockId msg } := by
  rw [parserCpuEvent, messageEvents]
  induction msg.event generalizing parser with
  | nil => simp
  | cons event rest ih =>
    rw [foldl_cons, ih]
    cases info : eventInfo toPrimary clockId msg.cpu event <;> simp [info]

theorem parseMessages_lists (clockId : Nat) (messages : List (FtraceCpuDetailMsg EventType Detail))
    (parser : HtraceEventParser EventType Detail) :
    (parseMessages toPrimary clockId messages parser).htraceEventList = parser.htraceEventList ++
        (messages.takeWhile (·.hasEvent)).flatMap (messageEvents toPrimary clockId) ∧
      (parseMessages toPrimary clockId messages parser).handled = parser.handled := by
  induction messages generalizing parser with
  | nil => simp [parseMessages]
  | cons msg rest ih =>
    rw [parseMessages]
    cases has_event : msg.hasEvent with
    | false => simp [has_event]
    | true =>
      obtain ⟨list, handled⟩ :=
        ih (parserCpuEvent toPrimary clockId msg (countOverwrite msg.overwrite parser))
      have counted : (countOverwrite msg.overwrite parser).htraceEventList = parser.htraceEventList ∧
          (countOverwrite msg.overwrite parser).handled = parser.handled := by
        unfold countOverwrite
        split <;> exact ⟨rfl, rfl⟩
      rw [parserCpuEvent_eq] at list handled
      rw [parserCpuEvent_eq, if_neg (by simp), list, handled, takeWhile_cons_of_pos has_event]
      refine ⟨?_, counted.2⟩
      simp [counted.1]

theorem handled_foldl (events : List (HtraceEventInfo EventType Detail)) (parser : HtraceEventParser EventType Detail) :
    (events.foldl (protoReaderDealEvent handles) parser).handled =
      parser.handled ++ events.filter fun event => handles event.eventType := by
  induction events generalizing parser with
  | nil => simp
  | cons event rest ih =>
    rw [foldl_cons, ih, protoReaderDealEvent]
    cases known : handles event.eventType <;> simp [known]

/-- The parser holds what a window holds, and the handlers have seen what the window has passed on. -/
structure Shows (eventToFunctionMap : EventType → Bool) (parser : HtraceEventParser EventType Detail)
    (window : Window (HtraceEventInfo EventType Detail)) : Prop where
  held : parser.htraceEventList = window.held
  handled : parser.handled = window.passed.filter fun event => eventToFunctionMap event.eventType

/-- What a window is when events have been seen: nothing is lost, and with bounded lateness it is in order. -/
structure Follows (maxBuffSize : Nat) (window : Window (HtraceEventInfo EventType Detail))
    (seen future : List (HtraceEventInfo EventType Detail)) : Prop where
  ranks : SameRanks HtraceEventInfo.timeStamp (window.passed ++ window.held) seen
  ordered : BoundedLateness HtraceEventInfo.timeStamp maxBuffSize (seen ++ future) →
    Windowed HtraceEventInfo.timeStamp window seen future

variable {window : Window (HtraceEventInfo EventType Detail)} {seen future : List (HtraceEventInfo EventType Detail)}

theorem step_parseDataItem (packet : TracePacket EventType Detail) (shows : parser.Shows handles window)
    (follows : Follows maxBuffSize window seen (packet.recorded toPrimary ++ future)) :
    (parseDataItem toPrimary packet parser).Shows handles
        (window.add (packet.recorded toPrimary)) ∧
      Follows maxBuffSize (window.add (packet.recorded toPrimary)) (seen ++ packet.recorded toPrimary)
        future := by
  obtain ⟨list, handled⟩ := @parseMessages_lists _ _ toPrimary packet.clockId packet.ftraceCpuDetail parser
  refine ⟨⟨?_, ?_⟩, ?_, ?_⟩
  · rw [parseDataItem, list, shows.held]
    rfl
  · rw [parseDataItem, handled, shows.handled]
    rfl
  · have same := follows.ranks.append (SameRanks.refl (packet.recorded toPrimary))
    rw [append_assoc] at same
    exact same
  · intro bounded
    rw [append_assoc] at bounded
    exact (follows.ordered bounded).add

section
variable (positive : 0 < maxBuffSize)
include positive

theorem step_filterAllEventsReader (shows : parser.Shows handles window)
    (follows : Follows maxBuffSize window seen future) :
    ∃ next, (filterAllEventsReader handles maxBuffSize parser).Shows handles next ∧
      Follows maxBuffSize next seen future := by
  rw [filterAllEventsReader]
  by_cases few : parser.htraceEventList.length < 2 * maxBuffSize
  · rw [if_pos few]
    exact ⟨window, shows, follows⟩
  · rw [if_neg few]
    refine ⟨window.flush HtraceEventInfo.timeStamp maxBuffSize, ⟨?_, ?_⟩, ?_, ?_⟩
    · simp only [shows.held]
      rfl
    · simp only [handled_foldl, shows.held, shows.handled]
      rw [← filter_append]
      rfl
    · exact (window.sameRanks_flush maxBuffSize).trans follows.ranks
    · intro bounded
      rw [shows.held] at few
      exact (follows.ordered bounded).flush bounded positive (by omega)

variable (calls : List (HtraceCall EventType Detail))

theorem follows_foldl (shows : parser.Shows handles window)
    (follows : Follows maxBuffSize window seen (calls.flatMap (HtraceCall.recorded toPrimary))) :
    ∃ last, (calls.foldl (call toPrimary handles maxBuffSize) parser).Shows handles last ∧
      Follows maxBuffSize last (seen ++ calls.flatMap (HtraceCall.recorded toPrimary)) [] := by
  induction calls generalizing parser window seen with
  | nil =>
    rw [flatMap_nil, append_nil]
    exact ⟨window, shows, follows⟩
  | cons first rest ih =>
    rw [foldl_cons, flatMap_cons, ← append_assoc]
    cases first with
    | parseDataItem packet =>
      obtain ⟨next_shows, next_follows⟩ := step_parseDataItem packet shows follows
      exact ih next_shows next_follows
    | filterAllEventsReader =>
      obtain ⟨next, next_shows, next_follows⟩ := step_filterAllEventsReader positive shows follows
      rw [HtraceCall.recorded, append_nil]
      exact ih next_shows next_follows

theorem filterAllEvents_eq (parser : HtraceEventParser EventType Detail) :
    filterAllEvents handles maxBuffSize parser =
      some { (stableSort HtraceEventInfo.timeStamp parser.htraceEventList).foldl (protoReaderDealEvent handles)
          parser with
        htraceEventList := [] } := by
  rw [filterAllEvents]
  simp [drain_eq_foldl _ _ positive _ _ _ (Nat.lt_succ_self _)]

theorem callAll_recorded :
    ∃ parser seen, callAll toPrimary handles maxBuffSize calls = some parser ∧
      parser.handled = seen.filter (fun event => handles event.eventType) ∧
      seen.Perm (calls.flatMap (HtraceCall.recorded toPrimary)) ∧
      (BoundedLateness HtraceEventInfo.timeStamp maxBuffSize (calls.flatMap (HtraceCall.recorded toPrimary)) →
        seen = stableSort HtraceEventInfo.timeStamp (calls.flatMap (HtraceCall.recorded toPrimary))) := by
  have start : ({} : HtraceEventParser EventType Detail).Shows handles {} := ⟨rfl, rfl⟩
  have begins : Follows maxBuffSize {} [] (calls.flatMap (HtraceCall.recorded toPrimary)) :=
    ⟨fun _ => rfl, fun _ => Windowed.start _⟩
  obtain ⟨last, shows, follows⟩ := follows_foldl positive calls start begins
  refine ⟨_, last.passed ++ stableSort HtraceEventInfo.timeStamp last.held, filterAllEvents_eq positive _, ?_, ?_, ?_⟩
  · simp only [handled_foldl, shows.held, shows.handled]
    rw [filter_append]
  · exact (stableSort_perm.append_left _).trans follows.ranks.perm
  · intro bounded
    exact (follows.ordered (by rwa [append_nil])).finish

end

end HtraceEventParser

namespace TracePacket

variable {toPrimary : Nat → Nat → Nat} {handles : EventType → Bool} {packet : TracePacket EventType Detail}

def lost (toPrimaryTraceTime : Nat → Nat → Nat) (packet : TracePacket EventType Detail) :
    List (HtraceEventInfo EventType Detail) :=
  (packet.ftraceCpuDetail.dropWhile (·.hasEvent)).flatMap (messageEvents toPrimaryTraceTime packet.clockId)

theorem recorded_append_lost : packet.recorded toPrimary ++ packet.lost toPrimary =
    packet.events toPrimary := by
  rw [recorded, lost, events, ← flatMap_append, takeWhile_append_dropWhile]

theorem messageEvents_of_empty {clockId : Nat} {msg : FtraceCpuDetailMsg EventType Detail} (empty : msg.hasEvent = false) :
    messageEvents toPrimary clockId msg = [] := by
  have none : msg.event = [] := by simpa [FtraceCpuDetailMsg.hasEvent] using empty
  rw [messageEvents, none, filterMap_nil]

theorem nothingBehindEmpty_iff : packet.NothingBehindEmpty toPrimary handles ↔
    (packet.lost toPrimary).filter (fun event => handles event.eventType) = [] := by
  rw [filter_eq_nil_iff]
  refine ⟨fun nothing event is_lost => ?_, fun none front msg back split empty behind is_behind event is_event => ?_⟩
  · obtain ⟨behind, is_behind, is_event⟩ := mem_flatMap.mp is_lost
    cases rest : packet.ftraceCpuDetail.dropWhile (·.hasEvent) with
    | nil =>
      rw [rest] at is_behind
      exact absurd is_behind not_mem_nil
    | cons msg back =>
      have empty : msg.hasEvent = false := by
        have stopped := @head_dropWhile_not _ FtraceCpuDetailMsg.hasEvent packet.ftraceCpuDetail
          (by rw [rest]; exact cons_ne_nil _ _)
        simpa only [rest, head_cons] using stopped
      have split : packet.ftraceCpuDetail = packet.ftraceCpuDetail.takeWhile (·.hasEvent) ++ msg :: back := by
        rw [← rest, takeWhile_append_dropWhile]
      rw [rest] at is_behind
      rcases mem_cons.mp is_behind with rfl | is_back
      · rw [messageEvents_of_empty empty] at is_event
        exact absurd is_event not_mem_nil
      · rw [nothing _ msg back split empty behind is_back event is_event]
        exact Bool.false_ne_true
  · have dropped : behind ∈ packet.ftraceCpuDetail.dropWhile (·.hasEvent) := by
      rw [split, dropWhile_append]
      split_ifs
      · rw [dropWhile_cons_of_neg (by simp [empty])]
        exact mem_cons_of_mem _ is_behind
      · exact mem_append_right _ (mem_cons_of_mem _ is_behind)
    exact Bool.not_eq_true _ ▸ none event (mem_flatMap.mpr ⟨behind, dropped, is_event⟩)

end TracePacket

namespace HtraceCall

variable {toPrimary : Nat → Nat → Nat} {handles : EventType → Bool}

def Lossless (toPrimaryTraceTime : Nat → Nat → Nat) (eventToFunctionMap : EventType → Bool) :
    HtraceCall EventType Detail → Prop
  | .parseDataItem packet => packet.NothingBehindEmpty toPrimaryTraceTime eventToFunctionMap
  | .filterAllEventsReader => True

theorem recorded_sublist (toPrimary : Nat → Nat → Nat) (call : HtraceCall EventType Detail) :
    (call.recorded toPrimary).Sublist (call.events toPrimary) := by
  cases call with
  | parseDataItem packet =>
    rw [recorded, events, ← TracePacket.recorded_append_lost]
    exact sublist_append_left _ _
  | filterAllEventsReader => exact List.Sublist.refl _

theorem lossless_iff (call : HtraceCall EventType Detail) : call.Lossless toPrimary handles ↔
    (call.recorded toPrimary).filter (fun event => handles event.eventType) =
      (call.events toPrimary).filter (fun event => handles event.eventType) := by
  cases call with
  | parseDataItem packet =>
    rw [Lossless, TracePacket.nothingBehindEmpty_iff, recorded, events, ← TracePacket.recorded_append_lost,
      filter_append, self_eq_append_right]
  | filterAllEventsReader => simp [Lossless, recorded, events]

theorem flatMap_recorded_sublist (toPrimary : Nat → Nat → Nat) (calls : List (HtraceCall EventType Detail)) :
    (calls.flatMap (recorded toPrimary)).Sublist (calls.flatMap (events toPrimary)) := by
  induction calls with
  | nil => exact List.Sublist.refl _
  | cons first rest ih =>
    exact (first.recorded_sublist toPrimary).append ih

theorem lossless_all_iff (calls : List (HtraceCall EventType Detail)) :
    (∀ call ∈ calls, call.Lossless toPrimary handles) ↔
      (calls.flatMap (recorded toPrimary)).filter (fun event => handles event.eventType) =
        (calls.flatMap (events toPrimary)).filter (fun event => handles event.eventType) := by
  induction calls with
  | nil => simp
  | cons first rest ih =>
    rw [forall_mem_cons, lossless_iff, ih, flatMap_cons, flatMap_cons, filter_append, filter_append]
    have first_le := ((first.recorded_sublist toPrimary).filter
      fun event => handles event.eventType).length_le
    have rest_le := ((flatMap_recorded_sublist toPrimary rest).filter
      fun event => handles event.eventType).length_le
    refine ⟨fun both => by rw [both.1, both.2], fun same => ?_⟩
    have lengths := congrArg List.length same
    rw [length_append, length_append] at lengths
    exact append_inj same (by omega)

end HtraceCall

/-- Every event with a handler reaches it once, and in order when lateness is bounded, exactly when in no packet such an
event stands behind a message without events. -/
theorem callAll_exact_iff (toPrimaryTraceTime : Nat → Nat → Nat) (eventToFunctionMap : EventType → Bool) (maxBuffSize : Nat)
    (positive : 0 < maxBuffSize) (calls : List (HtraceCall EventType Detail)) :
    ∃ parser, HtraceEventParser.callAll toPrimaryTraceTime eventToFunctionMap maxBuffSize calls = some parser ∧
      ((parser.handled.Perm ((calls.flatMap (HtraceCall.events toPrimaryTraceTime)).filter
            fun event => eventToFunctionMap event.eventType) ∧
          (BoundedLateness HtraceEventInfo.timeStamp maxBuffSize (calls.flatMap (HtraceCall.events toPrimaryTraceTime)) →
            parser.handled = stableSort HtraceEventInfo.timeStamp
              ((calls.flatMap (HtraceCall.events toPrimaryTraceTime)).filter
                fun event => eventToFunctionMap event.eventType))) ↔
        ∀ packet, .parseDataItem packet ∈ calls → packet.NothingBehindEmpty toPrimaryTraceTime eventToFunctionMap) := by
  obtain ⟨parser, seen, result, handled, perm, ordered⟩ :=
    @HtraceEventParser.callAll_recorded _ _ toPrimaryTraceTime eventToFunctionMap maxBuffSize positive calls
  refine ⟨parser, result, ?_⟩
  have packets : (∀ packet, .parseDataItem packet ∈ calls → packet.NothingBehindEmpty toPrimaryTraceTime eventToFunctionMap) ↔
      ∀ call ∈ calls, call.Lossless toPrimaryTraceTime eventToFunctionMap := by
    refine ⟨fun each call listed => ?_, fun each packet listed => each _ listed⟩
    cases call with
    | parseDataItem packet => exact each packet listed
    | filterAllEventsReader => trivial
  have part := HtraceCall.flatMap_recorded_sublist toPrimaryTraceTime calls
  have recorded_perm := perm.filter fun event => eventToFunctionMap event.eventType
  rw [packets, HtraceCall.lossless_all_iff, handled]
  refine ⟨fun exact_ => ?_, fun same => ⟨?_, fun bounded => ?_⟩⟩
  · exact (part.filter _).eq_of_length (recorded_perm.symm.trans exact_.1).length_eq
  · rw [← same]
    exact recorded_perm
  · rw [ordered (bounded.sublist part), stableSort_filter, same]

def sampleEvent (timestamp : Nat) : FtraceEvent Nat Nat := ⟨timestamp, 1, 1, "task", some (7, 0)⟩

def samplePacket (first second : List (FtraceEvent Nat Nat)) : TracePacket Nat Nat := ⟨0, [⟨0, 0, first⟩, ⟨1, 0, second⟩]⟩

theorem callAll_exact_bothCpus :
    0 < htraceMaxBuffSize ∧ ∃ parser,
      HtraceEventParser.callAll (fun _ time => time) (· == 7) 2
        [.parseDataItem (samplePacket [sampleEvent 2] [sampleEvent 1]), .filterAllEventsReader] = some parser ∧
      parser.handled.Perm [⟨1, 1, 0, 7, 2, "task", 0⟩, ⟨1, 1, 1, 7, 1, "task", 0⟩] := by
  refine ⟨by decide, ?_⟩
  obtain ⟨parser, result, exactly⟩ := callAll_exact_iff (fun _ time => time) (· == 7) 2 (by decide)
    [.parseDataItem (samplePacket [sampleEvent 2] [sampleEvent 1]), .filterAllEventsReader]
  refine ⟨parser, result, (exactly.mpr ?_).1⟩
  intro packet listed
  obtain rfl : packet = samplePacket [sampleEvent 2] [sampleEvent 1] := by simpa using listed
  rw [TracePacket.nothingBehindEmpty_iff]
  decide

/-- A packet whose first message has no events: the event of the second cpu is lost. -/
theorem callAll_not_exact_emptyCpu :
    (HtraceEventParser.callAll (fun _ time => time) (· == 7) 2
        [.parseDataItem (samplePacket [] [sampleEvent 1])]).map (fun parser => parser.handled.length) = some 0 ∧
      (((samplePacket [] [sampleEvent 1]).events fun _ time => time).filter (·.eventType == 7)).length = 1 := by
  decide

end SmartPerf.Events
