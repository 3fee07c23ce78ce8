import SmartPerf.Split.PerfDataParser

namespace SmartPerf.Split

open Data

/-! The cutter and the loader of a perf file come to the time of a sample on two ways. The cutter finds the word in the
raw record; the loader gets the record from a reader that takes the fields one after the other. -/

/-- The time in the record reader: it lies behind the identifier, the address and the thread, where these are there. -/
def sampleTime (sampleType : Nat) (event : List UInt8) : Nat :=
  let rest := event.drop perfEventHeaderSize
  let rest := if sampleType.testBit perfSampleIdentifier then rest.drop 8 else rest
  let rest := if sampleType.testBit perfSampleIp then rest.drop 8 else rest
  let rest := if sampleType.testBit perfSampleTid then rest.drop 8 else rest
  if sampleType.testBit perfSampleTime then wordAt rest 0 8 else 0

variable (request : SplitRequest)

/-- The time that is stored with a sample; an unknown clock throws. -/
def updatePerfSampleData (parser : PerfDataParser) (event : List UInt8) : Option Nat :=
  let time := sampleTime parser.sampleType event
  (perfToTSClockType parser.clockId).map fun clock =>
    if parser.useClockId = 0 then time else request.toPrimaryTraceTime clock time

/-- The cutter after records of the data. A throw leaves the state, and all later samples throw as well. -/
def afterRecords (scan : PerfScan) (records : List (List UInt8)) : PerfScan :=
  records.foldl (fun scan event => (parsingData request scan (.record event)).2) scan

/-- A parser that has read the attributes and no records yet. -/
structure DataPhase extends PerfScan where
  timed : parser.sampleType.testBit perfSampleTime
  time_offset : parser.sampleTimeOffset = sampleTimeOffsetOf parser.sampleType
  started : parser.splitDataEnd = false

theorem splitPerfParsingAttr_dataPhase (buffer : List UInt8) (scan : PerfScan)
    (accepted : (splitPerfParsingAttr buffer scan).1 = .again) (started : scan.parser.splitDataEnd = false) :
    ∃ phase : DataPhase, phase.toPerfScan = (splitPerfParsingAttr buffer scan).2 := by
  simp only [splitPerfParsingAttr] at accepted ⊢
  split_ifs at accepted ⊢ with empty missing untimed
  rw [Bool.not_eq_true', Bool.not_eq_false] at untimed
  refine ⟨⟨_, ?_, ?_, ?_⟩, rfl⟩
  · exact untimed
  · rfl
  · exact started

namespace DataPhase

variable (phase : DataPhase) (event : List UInt8)

def IsInRange : Prop :=
  ∃ time ∈ updatePerfSampleData request phase.parser event,
    request.splitFileMinTime ≤ time ∧ time ≤ request.splitFileMaxTime

def IsTooLate : Prop :=
  eventType event = perfRecordSample ∧
    ∃ time ∈ updatePerfSampleData request phase.parser event, request.splitFileMaxTime < time

def IsKept (before : List (List UInt8)) : Prop :=
  ∃ ended, needRecord request (afterRecords request phase.toPerfScan before).parser event = some (true, ended)

/-- A sample of the data, and no sample up to it is too late. -/
structure IsTimely (records before : List (List UInt8)) : Prop where
  inside : before ++ [event] <+: records
  sample : eventType event = perfRecordSample
  early : ∀ earlier ∈ before ++ [event], ¬ phase.IsTooLate request earlier

/-- The two ways lead to one word. -/
theorem sampleTime_eq :
    sampleTime phase.parser.sampleType event = wordAt event (perfEventHeaderSize + phase.parser.sampleTimeOffset) 8 := by
  rw [sampleTime, phase.time_offset, sampleTimeOffsetOf, if_pos phase.timed]
  split_ifs with identifier ip tid <;> simp [*, wordAt, perfEventHeaderSize]

variable {request} {phase} {event} {records before : List (List UInt8)}

/-- Without a clock every sample is at time 0 for the cutter. -/
theorem needRecord_sample (sample : eventType event = perfRecordSample) :
    needRecord request phase.parser event = (perfToTSClockType phase.parser.clockId).map fun clock =>
      let time := if phase.parser.useClockId = 0 then 0
        else request.toPrimaryTraceTime clock (sampleTime phase.parser.sampleType event)
      (decide (request.splitFileMinTime ≤ time ∧ time ≤ request.splitFileMaxTime),
        decide (request.splitFileMaxTime < time)) := by
  have ordered := request.ordered
  rw [needRecord, phase.started, if_neg Bool.false_ne_true, if_pos sample, sampleTime_eq]
  cases perfToTSClockType phase.parser.clockId with
  | none => rfl
  | some clock =>
    simp only [ne_eq, ite_not, Option.map_some]
    generalize (if phase.parser.useClockId = 0 then 0 else _) = time
    split_ifs <;> simp <;> omega

section Scan

variable {scan : PerfScan} (started : scan.parser.splitDataEnd = false)
  (same : needRecord request scan.parser = needRecord request phase.parser)
include started same

/-- A record that is not too late for the loader leaves the cutter as it is for the next one. -/
theorem parsingData_timely (timely : ¬ phase.IsTooLate request event) :
    (parsingData request scan (.record event)).2.parser.splitDataEnd = false ∧
      needRecord request (parsingData request scan (.record event)).2.parser = needRecord request phase.parser := by
  rw [parsingData]
  cases decided : needRecord request scan.parser event with
  | none => exact ⟨started, same⟩
  | some decision =>
    obtain ⟨needed, ended⟩ := decision
    have open_still : ended = false := by
      rw [same] at decided
      by_cases sample : eventType event = perfRecordSample
      · rw [needRecord_sample sample, Option.map_eq_some_iff] at decided
        obtain ⟨clock, known, pair⟩ := decided
        obtain ⟨-, rfl⟩ := Prod.mk.inj pair
        refine decide_eq_false ?_
        split_ifs with unused
        · omega
        · intro late
          exact timely ⟨sample, _, Option.map_eq_some_iff.mpr ⟨clock, known, if_neg unused⟩, late⟩
      · rw [needRecord, phase.started, if_neg Bool.false_ne_true, if_neg sample] at decided
        cases decided
        rfl
    subst open_still
    rw [← same]
    cases needed <;> exact ⟨rfl, by funext other; simp [needRecord, started]⟩

theorem needRecord_afterRecords (early : ∀ earlier ∈ before, ¬ phase.IsTooLate request earlier) :
    needRecord request (afterRecords request scan before).parser = needRecord request phase.parser := by
  induction before generalizing scan with
  | nil => exact same
  | cons record rest ih =>
    obtain ⟨open_still, still_same⟩ := parsingData_timely started same (early record List.mem_cons_self)
    exact ih open_still still_same fun earlier inside => early earlier (List.mem_cons_of_mem record inside)

end Scan

theorem isKept_iff (timely : phase.IsTimely request event records before) :
    phase.IsKept request event before ↔
      (phase.parser.useClockId ≠ 0 ∨ request.splitFileMinTime = 0) ∧ phase.IsInRange request event := by
  have bounded : ∀ time ∈ updatePerfSampleData request phase.parser event, time ≤ request.splitFileMaxTime := by
    intro time stored
    by_contra late
    exact timely.early event (by simp) ⟨timely.sample, time, stored, not_le.mp late⟩
  rw [IsKept, needRecord_afterRecords phase.started rfl fun earlier inside => timely.early earlier (by simp [inside]),
    needRecord_sample timely.sample, IsInRange]
  rw [updatePerfSampleData] at bounded ⊢
  cases known : perfToTSClockType phase.parser.clockId with
  | none => simp
  | some clock =>
    by_cases unused : phase.parser.useClockId = 0
    · have bound := bounded (sampleTime phase.parser.sampleType event) (by simp [known, unused])
      simp +contextual [unused, bound]
    · simp [unused]

/-- A file whose samples begin with their time, and no clock. -/
def clockless : DataPhase where
  parser := { sampleType := 4 }
  processedLen := 0
  timed := rfl
  time_offset := rfl
  started := rfl

def tenToTwenty : SplitRequest where
  splitFileMinTime := 10
  splitFileMaxTime := 20
  toPrimaryTraceTime _ time := time
  ordered := Nat.le_add_right 10 10

def sampleAtFifteen : List UInt8 := [9, 0, 0, 0, 0, 0, 16, 0, 15, 0, 0, 0, 0, 0, 0, 0]

end DataPhase

end SmartPerf.Split
