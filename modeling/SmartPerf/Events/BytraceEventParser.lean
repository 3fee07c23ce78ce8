import SmartPerf.Data.Window

namespace SmartPerf.Events

open Data List

/-! How `BytraceEventParser` brings the lines of a text trace into the order of their timestamps. -/

structure BytraceLine where
  ts : Nat
  pid : Nat
  cpu : Nat
  task : String
  tgid : Nat
  eventName : String
  argsStr : String
deriving Repr, DecidableEq

structure EventInfo where
  eventTimestamp : Nat
  line : BytraceLine
deriving Repr, DecidableEq

def maxBuffSize : Nat := 1000 * 1000

structure BytraceEventParser where
  eventList : List EventInfo := []
  /-- The calls of the handlers, in order. -/
  handled : List EventInfo := []
  notSupported : Nat := 0
deriving Repr, DecidableEq

namespace BytraceEventParser

variable (eventToFunctionMap : String → Bool)

def beginFilterEvents (parser : BytraceEventParser) (event : EventInfo) : BytraceEventParser :=
  if eventToFunctionMap event.line.eventName then { parser with handled := parser.handled ++ [event] }
  else { parser with notSupported := parser.notSupported + 1 }

variable (maxBuffSize : Nat)

/-- The buffer may hold twice the window before the earlier half of it is handed on. -/
def parseDataItem (parser : BytraceEventParser) (line : BytraceLine) : BytraceEventParser :=
  let eventList := parser.eventList ++ [⟨line.ts, line⟩]
  if eventList.length < maxBuffSize * 2 then { parser with eventList }
  else
    let sorted := stableSort EventInfo.eventTimestamp eventList
    let parser := (sorted.take maxBuffSize).foldl (beginFilterEvents eventToFunctionMap) parser
    { parser with eventList := sorted.drop maxBuffSize }

def filterAllEvents (parser : BytraceEventParser) : Option BytraceEventParser :=
  let sorted := stableSort EventInfo.eventTimestamp parser.eventList
  (drain (beginFilterEvents eventToFunctionMap) maxBuffSize (sorted.length + 1) parser sorted).map fun parser =>
    { parser with eventList := [] }

def parseAll (lines : List BytraceLine) : Option BytraceEventParser :=
  filterAllEvents eventToFunctionMap maxBuffSize (lines.foldl (parseDataItem eventToFunctionMap maxBuffSize) {})

end BytraceEventParser

def eventOf (line : BytraceLine) : EventInfo := ⟨line.ts, line⟩

namespace BytraceEventParser

variable {handles : String → Bool} {maxBuffSize : Nat} {parser : BytraceEventParser}

theorem handled_foldl (events : List EventInfo) (parser : BytraceEventParser) :
    (events.foldl (beginFilterEvents handles) parser).handled =
      parser.handled ++ events.filter fun event => handles event.line.eventName := by
  induction events generalizing parser with
  | nil => simp
  | cons event rest ih =>
    rw [foldl_cons, ih, beginFilterEvents]
    cases known : handles event.line.eventName <;> simp [known]

/-- The parser holds what a window holds, and the handlers have seen what the window has passed on. -/
structure Shows (eventToFunctionMap : String → Bool) (parser : BytraceEventParser) (window : Window EventInfo) : Prop where
  held : parser.eventList = window.held
  handled : parser.handled = window.passed.filter fun event => eventToFunctionMap event.line.eventName

variable {window : Window EventInfo}

theorem Shows.parseDataItem (shows : parser.Shows handles window) (line : BytraceLine) :
    (parser.parseDataItem handles maxBuffSize line).Shows handles
      (if (window.add [eventOf line]).held.length < maxBuffSize * 2 then window.add [eventOf line]
       else (window.add [eventOf line]).flush EventInfo.eventTimestamp maxBuffSize) := by
  have added : parser.eventList ++ [⟨line.ts, line⟩] = (window.add [eventOf line]).held := by
    rw [shows.held]
    rfl
  rw [BytraceEventParser.parseDataItem]
  simp only [added]
  split
  · exact ⟨rfl, shows.handled⟩
  · refine ⟨rfl, ?_⟩
    simp only [handled_foldl, shows.handled]
    rw [← filter_append]
    rfl

theorem windowed_parseDataItem {seen future : List EventInfo} {line : BytraceLine} (positive : 0 < maxBuffSize)
    (bounded : BoundedLateness EventInfo.eventTimestamp maxBuffSize (seen ++ eventOf line :: future))
    (shows : parser.Shows handles window)
    (windowed : Windowed EventInfo.eventTimestamp window seen (eventOf line :: future)) :
    ∃ next, (parser.parseDataItem handles maxBuffSize line).Shows handles next ∧
      Windowed EventInfo.eventTimestamp next (seen ++ [eventOf line]) future := by
  refine ⟨_, shows.parseDataItem line, ?_⟩
  have more := @Windowed.add _ _ _ _ _ _ _ [eventOf line] windowed
  split
  · exact more
  next full =>
    have bounded_more : BoundedLateness EventInfo.eventTimestamp maxBuffSize ((seen ++ [eventOf line]) ++ future) := by
      rw [append_assoc]
      exact bounded
    exact more.flush bounded_more positive (by omega)

theorem windowed_foldl {seen : List EventInfo} (positive : 0 < maxBuffSize) (lines : List BytraceLine)
    (bounded : BoundedLateness EventInfo.eventTimestamp maxBuffSize (seen ++ lines.map eventOf))
    (shows : parser.Shows handles window)
    (windowed : Windowed EventInfo.eventTimestamp window seen (lines.map eventOf)) :
    ∃ last, (lines.foldl (parseDataItem handles maxBuffSize) parser).Shows handles last ∧
      Windowed EventInfo.eventTimestamp last (seen ++ lines.map eventOf) [] := by
  induction lines generalizing parser window seen with
  | nil =>
    rw [map_nil, append_nil]
    exact ⟨window, shows, windowed⟩
  | cons line rest ih =>
    rw [map_cons] at bounded windowed
    obtain ⟨next, next_shows, next_windowed⟩ := windowed_parseDataItem positive bounded shows windowed
    have split : seen ++ eventOf line :: rest.map eventOf = (seen ++ [eventOf line]) ++ rest.map eventOf := by
      rw [append_assoc]
      rfl
    rw [split] at bounded
    rw [map_cons, split]
    exact ih bounded next_shows next_windowed

theorem filterAllEvents_eq (positive : 0 < maxBuffSize) (parser : BytraceEventParser) :
    parser.filterAllEvents handles maxBuffSize =
      some { (stableSort EventInfo.eventTimestamp parser.eventList).foldl (beginFilterEvents handles) parser with
        eventList := [] } := by
  rw [filterAllEvents]
  simp [drain_eq_foldl _ _ positive _ _ _ (Nat.lt_succ_self _)]

/-- When no line is earlier than one that came a window before it, the handlers see the stable sort of all lines. -/
theorem parseAll_handled (eventToFunctionMap : String → Bool) (maxBuffSize : Nat) (lines : List BytraceLine)
    (positive : 0 < maxBuffSize) (bounded : BoundedLateness EventInfo.eventTimestamp maxBuffSize (lines.map eventOf)) :
    ∃ parser, parseAll eventToFunctionMap maxBuffSize lines = some parser ∧ parser.eventList = [] ∧
      parser.handled = (stableSort EventInfo.eventTimestamp (lines.map eventOf)).filter
        fun event => eventToFunctionMap event.line.eventName := by
  have start : ({} : BytraceEventParser).Shows eventToFunctionMap {} := ⟨rfl, rfl⟩
  obtain ⟨last, shows, windowed⟩ := @windowed_foldl eventToFunctionMap maxBuffSize {} {} [] positive lines bounded start
    (Windowed.start _)
  rw [nil_append] at windowed
  refine ⟨_, filterAllEvents_eq positive _, rfl, ?_⟩
  simp only [handled_foldl, shows.held, shows.handled]
  rw [← filter_append, windowed.finish]

def sampleLine (ts : Nat) : BytraceLine := ⟨ts, 1, 0, "task", 1, "sched_switch", ""⟩

theorem parseAll_handled_late :
    0 < Events.maxBuffSize ∧ (parseAll (· == "sched_switch") 2 [sampleLine 2, sampleLine 1, sampleLine 4, sampleLine 3,
      sampleLine 5]).map (fun parser => parser.handled.map EventInfo.eventTimestamp) = some [1, 2, 3, 4, 5] := by
  refine ⟨by decide, ?_⟩
  obtain ⟨parser, parsed, -, handled⟩ := parseAll_handled (· == "sched_switch") 2
    [sampleLine 2, sampleLine 1, sampleLine 4, sampleLine 3, sampleLine 5] (by decide) (by decide)
  rw [parsed, Option.map_some, handled]
  decide

end BytraceEventParser

end SmartPerf.Events
