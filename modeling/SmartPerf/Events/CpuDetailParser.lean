import SmartPerf.Data.Lanes
import SmartPerf.Data.Machine

namespace SmartPerf.Events

open Data List

/-! How `CpuDetailParser` merges the events of the cpus of a raw trace into one sequence. -/

structure RawTraceEventInfo where
  cpuId : Nat
  eventId : Nat
  timestamp : Nat
  /-- The message of the event. -/
  msg : List UInt8
  timestamp_lt : timestamp < 2 ^ 64
deriving Repr, DecidableEq

structure CpuDetailParser where
  cpuCoreMax : Nat
  curRawTraceEventNum : Nat := 0
  rawTraceEventList : List RawTraceEventInfo := []
  standAloneCpuEventList : List (List RawTraceEventInfo)
  /-- The calls of the handlers, in order. -/
  handled : List RawTraceEventInfo := []
  notSupported : Nat := 0
deriving Repr, DecidableEq

/-- What the scan over the cpus comes to: a cpu whose events may still be missing, or the cpu with the earliest event. -/
inductive Selection where
  | missing
  | selected (minTimeCpuId : Option Nat)
deriving Repr, DecidableEq

namespace CpuDetailParser

def ofCpus (cpuNum : Nat) : CpuDetailParser where
  cpuCoreMax := cpuNum
  standAloneCpuEventList := List.replicate cpuNum []

def eventAppend (parser : CpuDetailParser) (event : RawTraceEventInfo) : CpuDetailParser :=
  if parser.standAloneCpuEventList.length ≤ event.cpuId then parser
  else { parser with
    standAloneCpuEventList := parser.standAloneCpuEventList.modify event.cpuId (· ++ [event])
    curRawTraceEventNum := parser.curRawTraceEventNum + 1 }

def selectMin (isFinished : Bool) : Nat → List (List RawTraceEventInfo) → Option Nat → Nat → Selection
  | _, [], minTimeCpuId, _ => .selected minTimeCpuId
  | curCpuId, [] :: rest, minTimeCpuId, curMinTs =>
    if isFinished then selectMin isFinished (curCpuId + 1) rest minTimeCpuId curMinTs else .missing
  | curCpuId, (event :: _) :: rest, minTimeCpuId, curMinTs =>
    if event.timestamp < curMinTs then selectMin isFinished (curCpuId + 1) rest (some curCpuId) event.timestamp
    else selectMin isFinished (curCpuId + 1) rest minTimeCpuId curMinTs

def moveFront (cpuId : Nat) (parser : CpuDetailParser) : CpuDetailParser :=
  match parser.standAloneCpuEventList[cpuId]? with
  | some (event :: rest) => { parser with
      rawTraceEventList := parser.rawTraceEventList ++ [event]
      standAloneCpuEventList := parser.standAloneCpuEventList.set cpuId rest
      curRawTraceEventNum := parser.curRawTraceEventNum - 1 }
  | _ => parser

/-- The loop while there are events, whose number goes down by one each time. -/
def sortLoop (isFinished : Bool) : Nat → CpuDetailParser → CpuDetailParser
  | 0, parser => parser
  | num + 1, parser =>
    match selectMin isFinished 0 (parser.standAloneCpuEventList.take parser.cpuCoreMax) none invalidUint64 with
    | .selected (some minTimeCpuId) =>
      let parser := parser.moveFront minTimeCpuId
      if !isFinished && (parser.standAloneCpuEventList.getD minTimeCpuId []).isEmpty then parser
      else sortLoop isFinished num parser
    | _ => parser

def sortStandAloneCpuEventList (isFinished : Bool) (parser : CpuDetailParser) : CpuDetailParser :=
  sortLoop isFinished parser.curRawTraceEventNum parser

def dealEvent (eventToFunctionMap : Nat → Bool) (parser : CpuDetailParser) (event : RawTraceEventInfo) : CpuDetailParser :=
  if eventToFunctionMap event.eventId then { parser with handled := parser.handled ++ [event] }
  else { parser with notSupported := parser.notSupported + 1 }

def filterAllEvents (eventToFunctionMap : Nat → Bool) (isFinished : Bool) (parser : CpuDetailParser) : CpuDetailParser :=
  let parser := parser.sortStandAloneCpuEventList isFinished
  let parser := parser.rawTraceEventList.foldl (dealEvent eventToFunctionMap) parser
  { parser with rawTraceEventList := [] }

end CpuDetailParser

/-- What is called while a trace is read. -/
inductive CpuDetailCall where
  | eventAppend (event : RawTraceEventInfo)
  | filterAllEvents
deriving Repr, DecidableEq

namespace CpuDetailParser

def call (eventToFunctionMap : Nat → Bool) (parser : CpuDetailParser) : CpuDetailCall → CpuDetailParser
  | .eventAppend event => parser.eventAppend event
  | .filterAllEvents => parser.filterAllEvents eventToFunctionMap false

/-- The calls one after the other, and the last one with the finish flag. -/
def callAll (eventToFunctionMap : Nat → Bool) (cpuNum : Nat) (calls : List CpuDetailCall) : CpuDetailParser :=
  (calls.foldl (call eventToFunctionMap) (ofCpus cpuNum)).filterAllEvents eventToFunctionMap true

end CpuDetailParser

def CpuDetailCall.events (cpuNum : Nat) : CpuDetailCall → List RawTraceEventInfo
  | .eventAppend event => if event.cpuId < cpuNum then [event] else []
  | .filterAllEvents => []

def appendedEvents (cpuNum : Nat) (calls : List CpuDetailCall) : List RawTraceEventInfo :=
  calls.flatMap (CpuDetailCall.events cpuNum)

theorem cpuId_of_mem_appendedEvents {cpuNum : Nat} {calls : List CpuDetailCall} {event : RawTraceEventInfo}
    (listed : event ∈ appendedEvents cpuNum calls) : event.cpuId < cpuNum := by
  obtain ⟨call, -, appended⟩ := mem_flatMap.mp listed
  cases call with
  | eventAppend other =>
    rw [CpuDetailCall.events] at appended
    split at appended
    next has_cpu =>
      rw [mem_singleton.mp appended]
      exact has_cpu
    · exact absurd appended not_mem_nil
  | filterAllEvents => exact absurd appended not_mem_nil

namespace CpuDetailParser

variable {isFinished : Bool}

/-- What the scan tells about the queues. -/
structure IsEarliest (queues : List (List RawTraceEventInfo)) (cpuId : Nat) (event : RawTraceEventInfo) : Prop where
  front : ∃ rest, queues[cpuId]? = some (event :: rest)
  smallest : ∀ (other : Nat) first others, queues[other]? = some (first :: others) → event.timestamp ≤ first.timestamp

variable {rest : List (List RawTraceEventInfo)}

theorem IsEarliest.cons {queue : List RawTraceEventInfo} {place : Nat} {event : RawTraceEventInfo}
    (earliest : IsEarliest rest place event)
    (early : ∀ first others, queue = first :: others → event.timestamp ≤ first.timestamp) :
    IsEarliest (queue :: rest) (place + 1) event := by
  refine ⟨?_, fun other first others front => ?_⟩
  · obtain ⟨tail, front⟩ := earliest.front
    exact ⟨tail, by rw [getElem?_cons_succ, front]⟩
  · cases other with
    | zero => exact early first others (Option.some.inj front)
    | succ other =>
      exact earliest.smallest other first others front

def Selects (isFinished : Bool) (curCpuId : Nat) (queues : List (List RawTraceEventInfo)) (minTimeCpuId : Option Nat)
    (curMinTs : Nat) : Selection → Prop
  | .missing => isFinished = false ∧ [] ∈ queues
  | .selected cpuId => (isFinished = false → [] ∉ queues) ∧
      ((cpuId = minTimeCpuId ∧ ∀ first others, first :: others ∈ queues → curMinTs ≤ first.timestamp) ∨
        ∃ place event, cpuId = some (curCpuId + place) ∧ event.timestamp < curMinTs ∧ IsEarliest queues place event)

theorem Selects.cons {curCpuId curMinTs : Nat} {queue : List RawTraceEventInfo} {minTimeCpuId : Option Nat}
    {selection : Selection} (selects : Selects isFinished (curCpuId + 1) rest minTimeCpuId curMinTs selection)
    (there : isFinished = false → queue ≠ [])
    (late : ∀ first others, queue = first :: others → curMinTs ≤ first.timestamp) :
    Selects isFinished curCpuId (queue :: rest) minTimeCpuId curMinTs selection := by
  cases selection with
  | missing => exact ⟨selects.1, mem_cons_of_mem _ selects.2⟩
  | selected cpuId =>
    refine ⟨fun unfinished listed => ?_, ?_⟩
    · rcases mem_cons.mp listed with is_queue | is_rest
      · exact there unfinished is_queue.symm
      · exact selects.1 unfinished is_rest
    · rcases selects.2 with ⟨kept, behind⟩ | ⟨place, event, found, early, earliest⟩
      · refine .inl ⟨kept, fun first others listed => ?_⟩
        rcases mem_cons.mp listed with is_queue | is_rest
        · exact late first others is_queue.symm
        · exact behind first others is_rest
      · refine .inr ⟨place + 1, event, by rw [found]; congr 1; omega, early, earliest.cons ?_⟩
        exact fun first others is_queue => early.le.trans (late first others is_queue)

theorem selectMin_selects (isFinished : Bool) (curCpuId : Nat) (queues : List (List RawTraceEventInfo))
    (minTimeCpuId : Option Nat) (curMinTs : Nat) :
    Selects isFinished curCpuId queues minTimeCpuId curMinTs (selectMin isFinished curCpuId queues minTimeCpuId curMinTs) := by
  induction queues generalizing curCpuId minTimeCpuId curMinTs with
  | nil => exact ⟨fun _ => not_mem_nil, .inl ⟨rfl, fun _ _ listed => absurd listed not_mem_nil⟩⟩
  | cons queue rest ih =>
    cases queue with
    | nil =>
      cases isFinished with
      | false => exact ⟨rfl, mem_cons_self⟩
      | true => exact (ih _ _ _).cons nofun nofun
    | cons event tail =>
      rw [selectMin]
      by_cases smaller : event.timestamp < curMinTs
      · have later := ih (curCpuId + 1) (some curCpuId) event.timestamp
        have own : ∀ first others, event :: tail = first :: others → event.timestamp ≤ first.timestamp := by
          rintro first others ⟨⟩
          exact le_rfl
        replace later := later.cons (fun _ => cons_ne_nil event tail) own
        rw [if_pos smaller]
        generalize selectMin isFinished (curCpuId + 1) rest (some curCpuId) event.timestamp = selection at later
        cases selection with
        | missing => exact later
        | selected cpuId =>
          refine ⟨later.1, .inr ?_⟩
          rcases later.2 with ⟨kept, late⟩ | ⟨place, found_event, found, early, earliest⟩
          · refine ⟨0, event, kept, smaller, ⟨tail, rfl⟩, fun other first others front => ?_⟩
            exact late first others (mem_of_getElem? front)
          · exact ⟨place, found_event, found, early.trans smaller, earliest⟩
      · rw [if_neg smaller]
        refine (ih _ _ _).cons (fun _ => cons_ne_nil event tail) ?_
        rintro first others ⟨⟩
        exact not_lt.mp smaller

/-- The parser when some events have been selected, others wait in their queues and others are to come. -/
structure Merges (eventToFunctionMap : Nat → Bool) (cpuNum : Nat) (parser : CpuDetailParser)
    (out seen future : List RawTraceEventInfo) : Prop where
  cpus : parser.cpuCoreMax = cpuNum ∧ parser.standAloneCpuEventList.length = cpuNum
  merging : Merging RawTraceEventInfo.timestamp RawTraceEventInfo.cpuId parser.standAloneCpuEventList out seen future
  counted : parser.curRawTraceEventNum = parser.standAloneCpuEventList.flatten.length
  selected : parser.handled ++ parser.rawTraceEventList.filter (fun event => eventToFunctionMap event.eventId) =
    out.filter fun event => eventToFunctionMap event.eventId
  early : ∀ event ∈ out, event.timestamp < invalidUint64

variable {handles : Nat → Bool} {cpuNum : Nat} {parser : CpuDetailParser} {out seen future : List RawTraceEventInfo}

variable {event : RawTraceEventInfo}

theorem Merges.eventAppend (merges : parser.Merges handles cpuNum out seen (event :: future))
    (has_cpu : event.cpuId < cpuNum) :
    (parser.eventAppend event).Merges handles cpuNum out (seen ++ [event]) future := by
  have has_queue : event.cpuId < parser.standAloneCpuEventList.length := by rwa [merges.cpus.2]
  rw [CpuDetailParser.eventAppend, if_neg (not_le.mpr has_queue)]
  refine ⟨⟨merges.cpus.1, ?_⟩, merges.merging.append has_queue, ?_, merges.selected, merges.early⟩
  · rw [length_modify]
    exact merges.cpus.2
  · rw [length_flatten_modify event has_queue, ← merges.counted]

theorem Merges.moveFront {cpuId : Nat} (merges : parser.Merges handles cpuNum out seen future)
    (sorted : InLaneOrder RawTraceEventInfo.timestamp RawTraceEventInfo.cpuId (seen ++ future))
    (earliest : IsEarliest parser.standAloneCpuEventList cpuId event) (early : event.timestamp < invalidUint64)
    (awaited : ∀ coming ∈ future, ∃ first others, parser.standAloneCpuEventList[coming.cpuId]? = some (first :: others)) :
    (parser.moveFront cpuId).Merges handles cpuNum (out ++ [event]) seen future ∧
      (parser.moveFront cpuId).curRawTraceEventNum + 1 = parser.curRawTraceEventNum := by
  obtain ⟨rest, front⟩ := earliest.front
  have shorter := length_flatten_set front
  have counted := merges.counted
  rw [CpuDetailParser.moveFront, front]
  refine ⟨⟨⟨merges.cpus.1, ?_⟩, merges.merging.take sorted front earliest.smallest awaited, ?_, ?_, ?_⟩, ?_⟩
  · simp only [length_set]
    exact merges.cpus.2
  · simp only
    omega
  · simp only [filter_append]
    rw [← append_assoc, merges.selected]
  · intro other is_out
    rcases mem_append.mp is_out with before | now
    · exact merges.early other before
    · rw [mem_singleton.mp now]
      exact early
  · simp only
    omega

def Exhausted (parser : CpuDetailParser) : Prop :=
  ∀ first others, first :: others ∈ parser.standAloneCpuEventList → invalidUint64 ≤ first.timestamp

theorem sortLoop_merges (isFinished : Bool) (num : Nat) (merges : parser.Merges handles cpuNum out seen future)
    (number : parser.curRawTraceEventNum = num)
    (sorted : InLaneOrder RawTraceEventInfo.timestamp RawTraceEventInfo.cpuId (seen ++ future))
    (has_cpus : ∀ coming ∈ future, coming.cpuId < cpuNum) (last : isFinished = true → future = []) :
    ∃ more, (sortLoop isFinished num parser).Merges handles cpuNum more seen future ∧
      (isFinished = true → (sortLoop isFinished num parser).Exhausted) := by
  induction num generalizing parser out with
  | zero =>
    refine ⟨out, merges, fun _ first others listed => ?_⟩
    have counted := merges.counted
    rw [number] at counted
    have empty := flatten_eq_nil_iff.mp (length_eq_zero_iff.mp counted.symm) _ listed
    exact absurd empty (cons_ne_nil _ _)
  | succ num ih =>
    have all_queues : parser.standAloneCpuEventList.take parser.cpuCoreMax = parser.standAloneCpuEventList := by
      rw [merges.cpus.1, ← merges.cpus.2, take_length]
    have selects := selectMin_selects isFinished 0 parser.standAloneCpuEventList none invalidUint64
    rw [sortLoop, all_queues]
    generalize selectMin isFinished 0 parser.standAloneCpuEventList none invalidUint64 = selection at selects
    cases selection with
    | missing =>
      refine ⟨out, merges, fun finished => ?_⟩
      rw [selects.1] at finished
      exact absurd finished (by decide)
    | selected cpuId =>
      obtain ⟨none_missing, found⟩ := selects
      rcases found with ⟨rfl, late⟩ | ⟨place, event, rfl, early, earliest⟩
      · exact ⟨out, merges, fun _ => late⟩
      · rw [Nat.zero_add]
        have awaited : ∀ coming ∈ future, ∃ first others,
            parser.standAloneCpuEventList[coming.cpuId]? = some (first :: others) := by
          intro coming is_future
          cases isFinished with
          | true =>
            rw [last rfl] at is_future
            exact absurd is_future not_mem_nil
          | false =>
            have has_queue : coming.cpuId < parser.standAloneCpuEventList.length := by
              rw [merges.cpus.2]
              exact has_cpus coming is_future
            have queue := getElem?_eq_getElem has_queue
            cases items : parser.standAloneCpuEventList[coming.cpuId] with
            | nil => exact absurd (items ▸ getElem_mem has_queue) (none_missing rfl)
            | cons first others => exact ⟨first, others, by rw [queue, items]⟩
        obtain ⟨moved, fewer⟩ := merges.moveFront sorted earliest early awaited
        simp only
        split
        next stops =>
          refine ⟨_, moved, fun finished => ?_⟩
          rw [finished] at stops
          exact absurd stops (by simp)
        · exact ih moved (by omega)

theorem cpus_foldl (events : List RawTraceEventInfo) (parser : CpuDetailParser) :
    (events.foldl (dealEvent handles) parser).cpuCoreMax = parser.cpuCoreMax ∧
      (events.foldl (dealEvent handles) parser).standAloneCpuEventList = parser.standAloneCpuEventList ∧
      (events.foldl (dealEvent handles) parser).curRawTraceEventNum = parser.curRawTraceEventNum ∧
      (events.foldl (dealEvent handles) parser).handled =
        parser.handled ++ events.filter fun event => handles event.eventId := by
  induction events generalizing parser with
  | nil => simp
  | cons event rest ih =>
    rw [foldl_cons, dealEvent]
    cases known : handles event.eventId with
    | true => simpa [known] using ih { parser with handled := parser.handled ++ [event] }
    | false => simpa [known] using ih { parser with notSupported := parser.notSupported + 1 }

theorem filterAllEvents_merges (isFinished : Bool) (merges : parser.Merges handles cpuNum out seen future)
    (sorted : InLaneOrder RawTraceEventInfo.timestamp RawTraceEventInfo.cpuId (seen ++ future))
    (has_cpus : ∀ coming ∈ future, coming.cpuId < cpuNum) (last : isFinished = true → future = []) :
    ∃ more, (parser.filterAllEvents handles isFinished).Merges handles cpuNum more seen future ∧
      (parser.filterAllEvents handles isFinished).rawTraceEventList = [] ∧
      (isFinished = true → (parser.filterAllEvents handles isFinished).Exhausted) := by
  obtain ⟨more, moved, exhausted⟩ := sortLoop_merges isFinished _ merges rfl sorted has_cpus last
  obtain ⟨cpus, queues, number, handled⟩ := @cpus_foldl handles
    (parser.sortStandAloneCpuEventList isFinished).rawTraceEventList (parser.sortStandAloneCpuEventList isFinished)
  refine ⟨more, ⟨?_, ?_, ?_, ?_, moved.early⟩, rfl, fun finished => ?_⟩
  · simp only [filterAllEvents, cpus, queues]
    exact moved.cpus
  · simp only [filterAllEvents, queues]
    exact moved.merging
  · simp only [filterAllEvents, queues, number]
    exact moved.counted
  · simp only [filterAllEvents, handled, filter_nil, append_nil]
    exact moved.selected
  · intro first others listed
    simp only [filterAllEvents, queues] at listed
    exact exhausted finished first others listed

theorem Merges.start (calls : List RawTraceEventInfo) : (ofCpus cpuNum).Merges handles cpuNum [] [] calls where
  cpus := ⟨rfl, length_replicate⟩
  merging := Merging.start cpuNum calls
  counted := by simp [ofCpus]
  selected := rfl
  early _ listed := absurd listed not_mem_nil

theorem foldl_call_merges (calls : List CpuDetailCall)
    (merges : parser.Merges handles cpuNum out seen (appendedEvents cpuNum calls))
    (sorted : InLaneOrder RawTraceEventInfo.timestamp RawTraceEventInfo.cpuId (seen ++ appendedEvents cpuNum calls)) :
    ∃ more, (calls.foldl (call handles) parser).Merges handles cpuNum more
      (seen ++ appendedEvents cpuNum calls) [] := by
  induction calls generalizing parser out seen with
  | nil =>
    rw [appendedEvents, flatMap_nil, append_nil]
    exact ⟨out, merges⟩
  | cons first rest ih =>
    rw [foldl_cons]
    cases first with
    | eventAppend event =>
      by_cases has_cpu : event.cpuId < cpuNum
      · have appends : appendedEvents cpuNum (.eventAppend event :: rest) = event :: appendedEvents cpuNum rest := by
          rw [appendedEvents, flatMap_cons, CpuDetailCall.events, if_pos has_cpu, singleton_append, appendedEvents]
        rw [appends] at merges sorted
        rw [appends, append_cons]
        refine ih (merges.eventAppend has_cpu) ?_
        rwa [← append_cons]
      · have appends : appendedEvents cpuNum (.eventAppend event :: rest) = appendedEvents cpuNum rest := by
          rw [appendedEvents, flatMap_cons, CpuDetailCall.events, if_neg has_cpu, nil_append, appendedEvents]
        have rejected : parser.eventAppend event = parser := by
          rw [CpuDetailParser.eventAppend, if_pos (by rw [merges.cpus.2]; exact not_lt.mp has_cpu)]
        rw [appends] at merges sorted
        rw [appends, call, rejected]
        exact ih merges sorted
    | filterAllEvents =>
      obtain ⟨more, moved, -⟩ := filterAllEvents_merges false merges sorted
        (fun _ listed => cpuId_of_mem_appendedEvents listed) (fun finished => nomatch finished)
      exact ih moved sorted

theorem Merges.timestamp_of_waits (merges : parser.Merges handles cpuNum out seen future)
    (sorted : InLaneOrder RawTraceEventInfo.timestamp RawTraceEventInfo.cpuId (seen ++ future))
    (exhausted : parser.Exhausted) {number : Nat} (waits : event ∈ parser.standAloneCpuEventList.getD number []) :
    event.timestamp = invalidUint64 := by
  have bound := event.timestamp_lt
  have late : invalidUint64 ≤ event.timestamp := by
    have ordered := merges.merging.queue_inOrder sorted number
    have listed : parser.standAloneCpuEventList.getD number [] ∈ parser.standAloneCpuEventList := by
      rw [getD_eq_getElem?_getD] at waits ⊢
      cases queue : parser.standAloneCpuEventList[number]? with
      | none =>
        rw [queue] at waits
        exact absurd waits not_mem_nil
      | some items => exact mem_of_getElem? queue
    cases queue : parser.standAloneCpuEventList.getD number [] with
    | nil =>
      rw [queue] at waits
      exact absurd waits not_mem_nil
    | cons first others =>
      rw [queue] at waits ordered listed
      have front := exhausted first others listed
      rcases mem_cons.mp waits with rfl | behind
      · exact front
      · exact le_trans front ((pairwise_cons.mp ordered).1 event behind)
  unfold invalidUint64 at late ⊢
  omega

theorem callAll_merges (handles : Nat → Bool) (cpuNum : Nat) (calls : List CpuDetailCall)
    (sorted : InLaneOrder RawTraceEventInfo.timestamp RawTraceEventInfo.cpuId (appendedEvents cpuNum calls)) :
    ∃ out, (callAll handles cpuNum calls).Merges handles cpuNum out (appendedEvents cpuNum calls) [] ∧
      (callAll handles cpuNum calls).Exhausted ∧
      (callAll handles cpuNum calls).handled = out.filter fun event => handles event.eventId := by
  obtain ⟨out, merges⟩ := foldl_call_merges calls (@Merges.start handles cpuNum _) (by rwa [nil_append])
  obtain ⟨more, final, no_rest, exhausted⟩ := filterAllEvents_merges true merges (by rwa [append_nil])
    (nofun) fun _ => rfl
  refine ⟨more, final, exhausted rfl, ?_⟩
  have selected := final.selected
  rw [no_rest, filter_nil, append_nil] at selected
  exact selected

end CpuDetailParser

/-- Nothing is lost or added, the times do not go down, and the events of each cpu keep their order. -/
structure IsMerge (handled appended : List RawTraceEventInfo) : Prop where
  perm : handled.Perm appended
  order : InOrder RawTraceEventInfo.timestamp handled
  ranks : SameRanks RawTraceEventInfo.cpuId handled appended

/-- The handlers get a merge of the events they can handle exactly when none of these has the time that stands for an
invalid one: such an event is never below the initial minimum. -/
theorem CpuDetailParser.callAll_isMerge_iff (eventToFunctionMap : Nat → Bool) (cpuNum : Nat) (calls : List CpuDetailCall)
    (sorted : InLaneOrder RawTraceEventInfo.timestamp RawTraceEventInfo.cpuId (appendedEvents cpuNum calls)) :
    IsMerge (callAll eventToFunctionMap cpuNum calls).handled
        ((appendedEvents cpuNum calls).filter fun event => eventToFunctionMap event.eventId) ↔
      ∀ event ∈ appendedEvents cpuNum calls, eventToFunctionMap event.eventId → event.timestamp ≠ invalidUint64 := by
  obtain ⟨out, merges, exhausted, handled⟩ := callAll_merges eventToFunctionMap cpuNum calls sorted
  rw [handled]
  refine ⟨fun is_merge event appended known => ?_, fun valid => ?_⟩
  · have listed := is_merge.perm.mem_iff.mpr (mem_filter.mpr ⟨appended, known⟩)
    exact (merges.early event (mem_filter.mp listed).1).ne
  · have ranks : SameRanks RawTraceEventInfo.cpuId (out.filter fun event => eventToFunctionMap event.eventId)
        ((appendedEvents cpuNum calls).filter fun event => eventToFunctionMap event.eventId) := by
      intro cpuId
      -- what still waits has no handler
      have no_waiting : ((callAll eventToFunctionMap cpuNum calls).standAloneCpuEventList.getD cpuId []).filter
          (fun event => eventToFunctionMap event.eventId) = [] := by
        refine filter_eq_nil_iff.mpr fun event waits known => ?_
        exact valid event (mem_filter.mp (merges.merging.mem_seen waits)).1 known
          (merges.timestamp_of_waits (by rwa [append_nil]) exhausted waits)
      have lane := congrArg (List.filter fun event => eventToFunctionMap event.eventId) (merges.merging.lanes cpuId)
      rw [filter_append, no_waiting, append_nil] at lane
      rw [filter_comm, lane, filter_comm]
    exact ⟨ranks.perm, merges.merging.order.sublist filter_sublist, ranks⟩

private def sampleRaw (cpuId timestamp : Nat) (bound : timestamp < 2 ^ 64) : RawTraceEventInfo :=
  ⟨cpuId, 7, timestamp, [], bound⟩

/-- The first cpu is ahead when the queues are emptied for the first time. -/
theorem CpuDetailParser.callAll_isMerge_twoCpus :
    IsMerge (callAll (· == 7) 2 [.eventAppend (sampleRaw 0 5 (by decide)), .eventAppend (sampleRaw 0 9 (by decide)),
        .eventAppend (sampleRaw 1 3 (by decide)), .filterAllEvents, .eventAppend (sampleRaw 1 4 (by decide))]).handled
      ((appendedEvents 2 [.eventAppend (sampleRaw 0 5 (by decide)), .eventAppend (sampleRaw 0 9 (by decide)),
        .eventAppend (sampleRaw 1 3 (by decide)), .filterAllEvents, .eventAppend (sampleRaw 1 4 (by decide))]).filter
          (·.eventId == 7)) := by
  refine (callAll_isMerge_iff (· == 7) 2 _ fun cpuId => ?_).mpr (by decide)
  rcases cpuId with _ | _ | cpuId
  · simp [appendedEvents, CpuDetailCall.events, sampleRaw, InOrder]
  · simp [appendedEvents, CpuDetailCall.events, sampleRaw, InOrder]
  · simp [appendedEvents, CpuDetailCall.events, sampleRaw, InOrder]

/-- An event with the greatest time is appended and never handled. -/
theorem CpuDetailParser.callAll_not_isMerge_greatestTime :
    (appendedEvents 1 [.eventAppend (sampleRaw 0 (2 ^ 64 - 1) (by decide))]).length = 1 ∧
      (callAll (· == 7) 1 [.eventAppend (sampleRaw 0 (2 ^ 64 - 1) (by decide))]).handled = [] := by
  decide

end SmartPerf.Events
