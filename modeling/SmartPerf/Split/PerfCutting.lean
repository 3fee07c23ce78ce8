import SmartPerf.Split.PerfFile

namespace SmartPerf.Split

open Data List PerfFile SplitPerfState PerfScan

/-! The splitting of a perf file that arrives in pieces.

At each moment the parser is what the bytes passed so far have made of it, whichever pieces they came in. The steps of
the machine lead from one such place in the file to a later one, or wait because bytes of the file are still to come. -/

/-- A perf file in an input, and a parser to cut it with that is as it was withdrawn. -/
structure PerfJob where
  file : PerfFile
  request : SplitRequest
  origin : PerfDataParser
  before : List UInt8
  after : List UInt8
  base_lt : before.length < 2 ^ 31
  withdrawn : origin.splitDataWithdraw = origin
  profiler_length : origin.profilerHeader.length = profilerHeaderSize

namespace PerfJob

variable (job : PerfJob)

def input : List UInt8 := job.before ++ (job.file.bytes ++ job.after)

def base : Nat := job.before.length

def heads : List PerfSplitResult := if job.origin.hasProfilerHead then [.buffer .profilerHeader profilerHeaderSize] else []

variable (processed : Nat)

/-- The parser when splitting begins, after a number of bytes has been processed by earlier calls. -/
def fresh : PerfDataParser :=
  { job.origin with perfDataOffset := job.base, perfSplitError := false, processedLength := processed }

def headed : PerfDataParser :=
  { job.fresh processed with
    perfHeader := job.file.header
    featureCount := job.file.features.length
    splitResult := job.heads ++ [.buffer .perfHeader perfFileHeaderSize]
    splitState := .waitForAttr }

def clocked : PerfDataParser :=
  { job.headed processed with
    useClockId := attrUseClockId job.file.attrs
    clockId := attrClockId job.file.attrs
    sampleType := attrSampleType job.file.attrs
    sampleTimeOffset := sampleTimeOffsetOf (attrSampleType job.file.attrs)
    splitState := .waitForData }

variable (parts : List (Nat × Nat))

def segments : List PerfSplitResult := parts.map fun part => .originSeg part.1 part.2

def readParts : List UInt8 := parts.flatMap fun part => sliceAt job.input part.1 part.2

def inData (done : List (List UInt8)) (parts : List (Nat × Nat)) : PerfDataParser :=
  { job.clocked processed with
    splitDataEnd := done.any (job.file.isLate job.request)
    splitDataSize := (job.file.keep job.request done).flatten.length
    splitResult := job.heads ++ [.buffer .perfHeader perfFileHeaderSize] ++ segments parts
    splitState := .parsingData }

def beforeTable (processed tableSize : Nat) (parts : List (Nat × Nat)) : PerfDataParser :=
  { job.inData processed job.file.records parts with
    featureSectioSize := tableSize
    splitState := .parsingFeatureSection }

def behindTable : PerfDataParser :=
  { job.inData processed job.file.records parts with
    featureSection := tableBytes (job.file.features.map (·.lower (job.file.dropped job.request)))
    featureSectioSize := job.file.features.length * perfFileSectionSize
    splitResult := job.heads ++ [.buffer .perfHeader perfFileHeaderSize] ++ segments parts ++
      [.buffer .featureSection (job.file.features.length * perfFileSectionSize)]
    perfHeader := setWord job.file.header 48 8 (job.file.kept job.request).flatten.length
    profilerHeader := setWord job.origin.profilerHeader 8 8
      (subUint64 (wordAt job.origin.profilerHeader 8 8) (job.file.dropped job.request))
    splitState := .waitForFinish }

def upToData : List UInt8 := job.file.attrsGap ++ (job.file.attrs ++ job.file.dataGap)

/-- The parts stand for everything up to the data and the records that are kept of those passed. -/
def Noted (done : List (List UInt8)) (parts : List (Nat × Nat)) : Prop :=
  parts ≠ [] ∧ job.readParts parts = job.upToData ++ (job.file.keep job.request done).flatten

/-- What the parser is at a position of the file. -/
inductive At (processed : Nat) : Nat → PerfDataParser → Prop
  | starting : At processed 0 (job.fresh processed)
  | parsingHead : At processed 0 { job.fresh processed with splitResult := job.heads, splitState := .parsingHead }
  | waitForAttr (position : Nat) (behind : perfFileHeaderSize ≤ position) (ahead : position ≤ job.file.attrsAt) :
      At processed position (job.headed processed)
  | parsingAttr : At processed job.file.attrsAt { job.headed processed with splitState := .parsingAttr }
  | waitForData (position : Nat) (behind : job.file.attrsEnd ≤ position) (ahead : position ≤ job.file.dataAt) :
      At processed position (job.clocked processed)
  | parsingData (done todo : List (List UInt8)) (parts : List (Nat × Nat)) (split : job.file.records = done ++ todo)
      (noted : job.Noted done parts) :
      At processed (job.file.dataAt + done.flatten.length) (job.inData processed done parts)
  | parsingFeatureSection (tableSize : Nat) (parts : List (Nat × Nat)) (noted : job.Noted job.file.records parts) :
      At processed job.file.dataEnd (job.beforeTable processed tableSize parts)
  | waitForFinish (parts : List (Nat × Nat)) (noted : job.Noted job.file.records parts) :
      At processed job.file.tableEnd (job.behindTable processed parts)

/-- The parser between two steps of a call, at a position up to which the bytes have come. -/
structure Scanning (buffer : List UInt8) (scan : PerfScan) (position : Nat) : Prop where
  place : job.At processed position scan.parser
  here : processed + scan.processedLen = position
  within : scan.processedLen ≤ buffer.length

end PerfJob

def SplitPerfState.index : SplitPerfState → Nat
  | .starting => 0
  | .parsingHead => 1
  | .waitForAttr => 2
  | .parsingAttr => 3
  | .waitForData => 4
  | .parsingData => 5
  | .parsingFeatureSection => 6
  | .waitForFinish => 7

def PerfScan.work (buffer : List UInt8) (scan : PerfScan) : Nat :=
  buffer.length - scan.processedLen + (7 - scan.parser.splitState.index)

namespace PerfJob

variable {job : PerfJob} {processed position len : Nat} {buffer future : List UInt8} {scan : PerfScan}

/-- How a step may end: at a later place with less to do, or waiting for bytes of the file. -/
def Goes (job : PerfJob) (processed : Nat) (buffer : List UInt8) (scan : PerfScan) (outcome : Step × PerfScan) : Prop :=
  (outcome.1 = .again ∧ outcome.2.work buffer < scan.work buffer ∧ ∃ position, job.Scanning processed buffer outcome.2 position) ∨
  (outcome.1 = .wait ∧ (∃ position, job.Scanning processed buffer outcome.2 position) ∧
    (scan.parser.splitState = .waitForFinish ∨ processed + buffer.length < job.file.bytes.length))

def StepGoes (job : PerfJob) (processed : Nat) (buffer : List UInt8) (scan : PerfScan) : Prop :=
  job.Goes processed buffer scan (splitFunc job.request buffer scan)

/-- The places of a file, one behind the other. -/
theorem layout (job : PerfJob) : perfFileHeaderSize ≤ job.file.attrsAt ∧
    job.file.attrsAt + job.file.attrs.length = job.file.attrsEnd ∧ job.file.attrsEnd ≤ job.file.dataAt ∧
    job.file.dataAt + job.file.records.flatten.length = job.file.dataEnd ∧
    job.file.dataEnd + (tableBytes job.file.features).length = job.file.tableEnd ∧
    job.file.tableEnd ≤ job.file.bytes.length := by
  rw [bytes_length]
  exact ⟨Nat.le_add_right _ _, rfl, Nat.le_add_right _ _, rfl, rfl, Nat.le_add_right _ _⟩

theorem fileOffset_eq {parser : PerfDataParser} (offset : parser.perfDataOffset = job.base) (small : position < 2 ^ 63) :
    parser.fileOffset position = job.base + position := by
  have base_lt : job.base < 2 ^ 31 := job.base_lt
  rw [PerfDataParser.fileOffset]
  omega

theorem sliceAt_input {size : Nat} (inside : position + size ≤ job.file.bytes.length) :
    sliceAt job.input (job.base + position) size = (job.file.bytes.drop position).take size := by
  rw [input, base, sliceAt_append_right, sliceAt, drop_append_of_le_length (by omega),
    take_append_of_le_length (by rw [length_drop]; omega)]

section Origin

variable (job : PerfJob)

@[simp] theorem origin_splitState : job.origin.splitState = .starting := by
  rw [← job.withdrawn]
  rfl

@[simp] theorem origin_splitResult : job.origin.splitResult = [] := by
  rw [← job.withdrawn]
  rfl

@[simp] theorem origin_splitDataEnd : job.origin.splitDataEnd = false := by
  rw [← job.withdrawn]
  rfl

@[simp] theorem origin_splitDataSize : job.origin.splitDataSize = 0 := by
  rw [← job.withdrawn]
  rfl

end Origin

theorem records_length {done todo : List (List UInt8)} (split : job.file.records = done ++ todo) :
    job.file.records.flatten.length = done.flatten.length + todo.flatten.length := by
  rw [split, List.flatten_append, length_append]

theorem At.position_le {parser : PerfDataParser} (place : job.At processed position parser) :
    position ≤ job.file.bytes.length := by
  have layout := job.layout
  cases place with
  | parsingData done todo parts split _ =>
    have lengths := records_length split
    omega
  | _ => omega

section Reading

variable (arrived : buffer ++ future = job.file.bytes.drop processed)
include arrived

theorem unread {passed : Nat} (here : processed + passed = position) (within : passed ≤ buffer.length) :
    buffer.drop passed ++ future = job.file.bytes.drop position := by
  rw [← here, ← drop_drop, ← arrived, drop_append_of_le_length within]

theorem sliceAt_buffer {passed size : Nat} (here : processed + passed = position) (enough : passed + size ≤ buffer.length) :
    sliceAt buffer passed size = (job.file.bytes.drop position).take size := by
  rw [sliceAt, ← unread arrived here (by omega), take_append_of_le_length]
  rw [length_drop]
  omega

end Reading

theorem goes_starting (here : processed + len = 0) (within : len ≤ buffer.length) :
    job.StepGoes processed buffer ⟨job.fresh processed, len⟩ := by
  have result : splitFunc job.request buffer ⟨job.fresh processed, len⟩ =
      (.again, ⟨{ job.fresh processed with splitResult := job.heads, splitState := .parsingHead }, len⟩) := by
    simp [splitFunc, splitPerfStarting, fresh, heads]
  rw [StepGoes, result]
  refine .inl ⟨rfl, ?_, 0, .parsingHead, here, within⟩
  simp [work, index, fresh]

theorem goes_parsingHead (arrived : buffer ++ future = job.file.bytes.drop processed) (here : processed + len = 0) :
    job.StepGoes processed buffer ⟨{ job.fresh processed with splitResult := job.heads, splitState := .parsingHead }, len⟩ := by
  obtain ⟨rfl, rfl⟩ : processed = 0 ∧ len = 0 := by
    omega
  rw [drop_zero] at arrived
  simp only [StepGoes, splitFunc, splitPerfParsingHead]
  by_cases short : buffer.length < perfFileHeaderSize
  · rw [if_pos short]
    have layout := job.layout
    exact .inr ⟨rfl, ⟨0, .parsingHead, rfl, Nat.zero_le _⟩, .inr (by omega)⟩
  · have header : buffer.take perfFileHeaderSize = job.file.header := by
      rw [← take_append_of_le_length (not_lt.mp short), arrived, PerfFile.bytes, ← job.file.header_length, take_left]
    rw [if_neg short, header, if_neg (not_not.mpr job.file.magic), job.file.features_count]
    refine .inl ⟨rfl, ?_, perfFileHeaderSize, .waitForAttr _ le_rfl (Nat.le_add_right _ _), Nat.zero_add _, not_lt.mp short⟩
    simp [work, index]

theorem goes_waitFor {offset : Nat} {parser : PerfDataParser} {arrive : PerfDataParser → PerfDataParser}
    (here : processed + len = position) (within : len ≤ buffer.length) (length : parser.processedLength = processed)
    (ahead : position ≤ offset) (inside : offset ≤ job.file.bytes.length)
    (waits : ∀ later, position ≤ later → later ≤ offset → job.At processed later parser)
    (arrives : job.At processed offset (arrive parser))
    (next : parser.splitState.index < (arrive parser).splitState.index) (bound : (arrive parser).splitState.index ≤ 7) :
    job.Goes processed buffer ⟨parser, len⟩ (splitPerfWaitFor offset arrive buffer ⟨parser, len⟩) := by
  rw [splitPerfWaitFor, length, if_neg (by simp only; omega)]
  by_cases short : processed + buffer.length < offset
  · rw [if_pos short]
    exact .inr ⟨rfl, ⟨processed + buffer.length, waits _ (by omega) (by omega), rfl, le_rfl⟩, .inr (by omega)⟩
  · rw [if_neg short]
    refine .inl ⟨rfl, ?_, offset, arrives, ?_, ?_⟩
    · simp only [work]
      omega
    · simp only
      omega
    · simp only
      omega

theorem goes_waitForAttr (here : processed + len = position) (within : len ≤ buffer.length)
    (behind : perfFileHeaderSize ≤ position) (ahead : position ≤ job.file.attrsAt) :
    job.StepGoes processed buffer ⟨job.headed processed, len⟩ := by
  have inside := (At.parsingAttr : job.At processed _ _).position_le
  have offset : headAttrsOffset (job.headed processed).perfHeader = job.file.attrsAt := job.file.attrs_at
  refine goes_waitFor here within rfl ?_ ?_ ?_ ?_ ?_ ?_
  all_goals simp only [offset]
  · exact ahead
  · exact inside
  · exact fun later from_le le_to => .waitForAttr later (behind.trans from_le) le_to
  · exact .parsingAttr
  · simp [headed, index]
  · simp [index]

theorem goes_parsingAttr (arrived : buffer ++ future = job.file.bytes.drop processed)
    (here : processed + len = job.file.attrsAt) (within : len ≤ buffer.length) :
    job.StepGoes processed buffer ⟨{ job.headed processed with splitState := .parsingAttr }, len⟩ := by
  simp only [StepGoes, splitFunc, splitPerfParsingAttr, headed, attrs_size]
  rw [if_neg job.file.attrs_count]
  by_cases short : buffer.length - len < job.file.attrs.length
  · rw [if_pos short]
    have layout := job.layout
    exact .inr ⟨rfl, ⟨_, .parsingAttr, here, within⟩, .inr (by omega)⟩
  · have attrs : sliceAt buffer len job.file.attrs.length = job.file.attrs := by
      rw [sliceAt_buffer arrived here (by omega), bytes_drop_attrs, take_left]
    rw [if_neg short, attrs, if_neg (by simp [job.file.timed])]
    refine .inl ⟨rfl, ?_, job.file.attrsEnd, .waitForData _ le_rfl (Nat.le_add_right _ _), ?_, ?_⟩
    · simp only [work, index]
      omega
    · simp only [attrsEnd]
      omega
    · simp only
      omega

theorem noted_upToData (job : PerfJob) :
    job.Noted [] [(job.base + perfFileHeaderSize, job.file.dataAt - perfFileHeaderSize)] := by
  have gap : job.file.dataAt - perfFileHeaderSize = job.upToData.length := by
    simp only [dataAt, attrsEnd, attrsAt, upToData, length_append]
    omega
  have inside : perfFileHeaderSize + job.upToData.length ≤ job.file.bytes.length := by
    rw [bytes_length, ← gap]
    simp only [tableEnd, dataEnd, dataAt, attrsEnd, attrsAt]
    omega
  have bytes : job.file.bytes.drop perfFileHeaderSize =
      job.upToData ++ (job.file.records.flatten ++ (tableBytes job.file.features ++ job.file.rest)) := by
    simp [bytes_drop_header, upToData]
  refine ⟨cons_ne_nil _ _, ?_⟩
  rw [readParts, flatMap_singleton, gap, sliceAt_input inside, bytes]
  simp [PerfFile.keep]

theorem goes_waitForData (here : processed + len = position) (within : len ≤ buffer.length)
    (behind : job.file.attrsEnd ≤ position) (ahead : position ≤ job.file.dataAt) :
    job.StepGoes processed buffer ⟨job.clocked processed, len⟩ := by
  have offset : headDataOffset (job.clocked processed).perfHeader = job.file.dataAt := by
    refine job.file.data_at.trans ?_
    simp only [dataAt, attrsEnd, attrsAt]
  have start : job.At processed job.file.dataAt
      (job.inData processed [] [(job.base + perfFileHeaderSize, job.file.dataAt - perfFileHeaderSize)]) :=
    .parsingData [] job.file.records _ rfl job.noted_upToData
  have inside := start.position_le
  refine goes_waitFor here within rfl ?_ ?_ ?_ ?_ ?_ ?_
  all_goals simp only [offset]
  · exact ahead
  · exact inside
  · exact fun later from_le le_to => .waitForData later (behind.trans from_le) le_to
  · have noted_offset : (job.clocked processed).fileOffset perfFileHeaderSize = job.base + perfFileHeaderSize :=
      fileOffset_eq rfl (by decide)
    rw [noted_offset]
    simpa [inData, clocked, headed, fresh, segments, PerfFile.keep] using start
  · simp [clocked, index]
  · simp [index]

theorem readParts_addOriginSeg (heads : List PerfSplitResult) {parts : List (Nat × Nat)} (some_parts : parts ≠ [])
    (offset size : Nat) :
    ∃ more, addOriginSeg offset size (heads ++ segments parts) = heads ++ segments more ∧ more ≠ [] ∧
      job.readParts more = job.readParts parts ++ sliceAt job.input offset size := by
  rcases parts.eq_nil_or_concat' with empty | ⟨init, ⟨lastOffset, lastSize⟩, rfl⟩
  · exact absurd empty some_parts
  · have last : (heads ++ segments (init ++ [(lastOffset, lastSize)])).getLast? = some (.originSeg lastOffset lastSize) := by
      simp [segments]
    rw [addOriginSeg, last]
    by_cases joined : lastOffset + lastSize = offset
    · refine ⟨init ++ [(lastOffset, lastSize + size)], ?_, by simp, ?_⟩
      · simp only [if_pos joined]
        simp [segments]
      · simp [readParts, sliceAt_add, joined]
    · refine ⟨init ++ [(lastOffset, lastSize)] ++ [(offset, size)], ?_, by simp, ?_⟩
      · simp only [if_neg joined]
        simp [segments]
      · simp [readParts]

theorem needRecord_inData {done : List (List UInt8)} {parts : List (Nat × Nat)} (record : List UInt8) :
    needRecord job.request (job.inData processed done parts) record =
      some (!(done.any (job.file.isLate job.request) || job.file.isLate job.request record || job.file.isEarly job.request record),
        done.any (job.file.isLate job.request) || job.file.isLate job.request record) := by
  have ordered := job.request.ordered
  have used : (job.inData processed done parts).useClockId ≠ 0 := by
    rw [show (job.inData processed done parts).useClockId = 1 from job.file.clock_used]
    exact one_ne_zero
  have known : perfToTSClockType (job.inData processed done parts).clockId = some job.file.clock := job.file.clock_known
  have ended : (job.inData processed done parts).splitDataEnd = done.any (job.file.isLate job.request) := rfl
  have time : job.request.toPrimaryTraceTime job.file.clock
      (wordAt record (perfEventHeaderSize + (job.inData processed done parts).sampleTimeOffset) 8) =
        job.file.sampleTime job.request record := rfl
  rw [needRecord, ended, known]
  simp only [if_pos used, time]
  cases done.any (job.file.isLate job.request) with
  | true => rfl
  | false =>
    by_cases sample : eventType record = perfRecordSample
    · by_cases early : job.file.sampleTime job.request record < job.request.splitFileMinTime
      · have not_late : ¬ job.request.splitFileMaxTime < job.file.sampleTime job.request record := by omega
        simp [isLate, isEarly, sample, early, not_late]
      · by_cases late : job.request.splitFileMaxTime < job.file.sampleTime job.request record
        · simp [isLate, sample, early, late]
        · simp [isLate, isEarly, early, late]
    · simp [isLate, isEarly, sample]

section Data

variable {done todo : List (List UInt8)} {parts : List (Nat × Nat)} {len : Nat}

theorem totalDataRemain_eq (split : job.file.records = done ++ todo)
    (here : processed + len = job.file.dataAt + done.flatten.length) :
    subUint64 (headDataOffset job.file.header + headDataSize job.file.header) (processed + len) = todo.flatten.length := by
  have data_at : headDataOffset job.file.header = job.file.dataAt := by
    rw [job.file.data_at, dataAt, attrsEnd, attrsAt]
  have lengths := records_length split
  have small := job.file.dataEnd_lt
  rw [dataEnd] at small
  rw [data_at, job.file.data_size, here, lengths, subUint64_of_le (by omega) (by omega)]
  omega

theorem dataLengthProcessing_nil (split : job.file.records = done)
    (here : processed + len = job.file.dataAt + done.flatten.length) :
    dataLengthProcessing buffer ⟨job.inData processed done parts, len⟩ = .over 0 := by
  have whole : job.file.records = done ++ [] := by rw [split, append_nil]
  have remain := totalDataRemain_eq whole here
  rw [flatten_nil, length_nil] at remain
  have header : (job.inData processed done parts).perfHeader = job.file.header := rfl
  have length : (job.inData processed done parts).processedLength = processed := rfl
  simp only [dataLengthProcessing, header, length, remain]
  rw [if_pos (by decide)]

theorem dataLengthProcessing_cons (arrived : buffer ++ future = job.file.bytes.drop processed) {record : List UInt8}
    (split : job.file.records = done ++ record :: todo)
    (here : processed + len = job.file.dataAt + done.flatten.length) (within : len ≤ buffer.length) :
    dataLengthProcessing buffer ⟨job.inData processed done parts, len⟩ =
      if buffer.length - len < record.length then .missing else .record record := by
  obtain ⟨long, size⟩ := job.file.sized record (by rw [split]; simp)
  have remain := totalDataRemain_eq split here
  rw [flatten_cons, length_append] at remain
  have upcoming : buffer.drop len ++ future =
      record ++ (todo.flatten ++ (tableBytes job.file.features ++ job.file.rest)) := by
    rw [unread arrived here within, bytes_drop_records split, flatten_cons, append_assoc]
  have rest_length : (buffer.drop len).length = buffer.length - len := length_drop
  have header : (job.inData processed done parts).perfHeader = job.file.header := rfl
  have length : (job.inData processed done parts).processedLength = processed := rfl
  simp only [dataLengthProcessing, header, length, rest_length]
  rw [if_neg (by omega)]
  by_cases headless : buffer.length - len < perfEventHeaderSize
  · rw [if_pos headless, if_pos (by omega)]
  · have read : eventSize (buffer.drop len) = record.length := by
      rw [← size, eventSize, eventSize, ← wordAt_append future, upcoming, wordAt_append]
      · exact long
      · rw [rest_length]
        exact not_lt.mp headless
    rw [if_neg headless, read, if_neg (not_lt.mpr long)]
    by_cases short : buffer.length - len < record.length
    · rw [if_pos short, if_pos short]
    · rw [if_neg short, if_neg short, ← take_append_of_le_length (by omega), upcoming, take_left]

theorem parsingData_over (request : SplitRequest) (scan : PerfScan) :
    parsingData request scan (.over 0) =
      (.again, ⟨{ scan.parser with splitState := .parsingFeatureSection }, scan.processedLen⟩) := rfl

theorem parsingData_kept {request : SplitRequest} {event : List UInt8} {ended : Bool}
    (decided : needRecord request scan.parser event = some (true, ended)) :
    parsingData request scan (.record event) =
      (.again, ⟨{ scan.parser with
        splitDataEnd := ended
        splitResult := addOriginSeg (scan.parser.fileOffset (scan.parser.processedLength + scan.processedLen)) event.length
          scan.parser.splitResult
        splitDataSize := scan.parser.splitDataSize + event.length }, scan.processedLen + event.length⟩) := by
  rw [parsingData, decided]
  rfl

theorem parsingData_record {record : List UInt8} (split : job.file.records = done ++ record :: todo)
    (noted : job.Noted done parts) (here : processed + len = job.file.dataAt + done.flatten.length) :
    ∃ more, job.Noted (done ++ [record]) more ∧
      parsingData job.request ⟨job.inData processed done parts, len⟩ (.record record) =
        (.again, ⟨job.inData processed (done ++ [record]) more, len + record.length⟩) := by
  have decided := @needRecord_inData job processed done parts record
  have late_concat : (done ++ [record]).any (job.file.isLate job.request) =
      (done.any (job.file.isLate job.request) || job.file.isLate job.request record) := by
    rw [any_append, any_cons, any_nil, Bool.or_false]
  have kept := @keep_concat job.file job.request done record
  rw [← late_concat] at decided
  by_cases skipped : done.any (job.file.isLate job.request) ∨ job.file.isLate job.request record ∨
      job.file.isEarly job.request record
  · have skip : ((done ++ [record]).any (job.file.isLate job.request) || job.file.isEarly job.request record) = true := by
      rw [late_concat, Bool.or_assoc, Bool.or_eq_true, Bool.or_eq_true]
      exact skipped
    rw [if_pos skipped, append_nil] at kept
    rw [skip] at decided
    refine ⟨parts, ⟨noted.1, by rw [noted.2, kept]⟩, ?_⟩
    rw [parsingData, decided, inData, inData, kept]
    rfl
  · have keep : ((done ++ [record]).any (job.file.isLate job.request) || job.file.isEarly job.request record) = false := by
      rw [late_concat, Bool.or_assoc, ← Bool.not_eq_true, Bool.or_eq_true, Bool.or_eq_true]
      exact skipped
    rw [if_neg skipped] at kept
    rw [keep] at decided
    have lengths := records_length split
    rw [flatten_cons, length_append] at lengths
    have offset : (job.inData processed done parts).fileOffset (processed + len) = job.base + (processed + len) := by
      refine fileOffset_eq rfl (lt_of_le_of_lt ?_ job.file.dataEnd_lt)
      rw [dataEnd]
      omega
    have bytes : sliceAt job.input (job.base + (processed + len)) record.length = record := by
      rw [sliceAt_input, here, bytes_drop_records split, flatten_cons, append_assoc, take_left]
      rw [bytes_length, tableEnd, dataEnd]
      omega
    obtain ⟨more, result, some_parts, read⟩ := @readParts_addOriginSeg job
      (job.heads ++ [.buffer .perfHeader perfFileHeaderSize]) parts noted.1 (job.base + (processed + len)) record.length
    refine ⟨more, ⟨some_parts, ?_⟩, ?_⟩
    · rw [read, noted.2, bytes, kept, List.flatten_append, flatten_singleton, append_assoc]
    · have size : (job.file.keep job.request (done ++ [record])).flatten.length =
          (job.file.keep job.request done).flatten.length + record.length := by
        rw [kept, List.flatten_append, length_append, flatten_singleton]
      have length : (job.inData processed done parts).processedLength = processed := rfl
      rw [parsingData_kept decided]
      simp only [length, offset]
      simp only [inData, size, result]
      rfl

theorem goes_parsingData (arrived : buffer ++ future = job.file.bytes.drop processed)
    (split : job.file.records = done ++ todo) (noted : job.Noted done parts)
    (here : processed + len = job.file.dataAt + done.flatten.length) (within : len ≤ buffer.length) :
    job.StepGoes processed buffer ⟨job.inData processed done parts, len⟩ := by
  have function : splitFunc job.request buffer ⟨job.inData processed done parts, len⟩ =
      parsingData job.request ⟨job.inData processed done parts, len⟩
        (dataLengthProcessing buffer ⟨job.inData processed done parts, len⟩) := rfl
  rw [StepGoes, function]
  cases todo with
  | nil =>
    rw [append_nil] at split
    rw [dataLengthProcessing_nil split here, parsingData_over]
    subst split
    refine .inl ⟨rfl, ?_, job.file.dataEnd, .parsingFeatureSection job.origin.featureSectioSize parts noted, here, within⟩
    simp [work, index, inData]
  | cons record todo =>
    rw [dataLengthProcessing_cons arrived split here within]
    have long := (job.file.sized record (by rw [split]; simp)).1
    have place : job.At processed (job.file.dataAt + done.flatten.length) (job.inData processed done parts) :=
      .parsingData done (record :: todo) parts split noted
    by_cases short : buffer.length - len < record.length
    · rw [if_pos short]
      have layout := job.layout
      have lengths := records_length split
      rw [flatten_cons, length_append] at lengths
      exact .inr ⟨rfl, ⟨_, place, here, within⟩, .inr (by omega)⟩
    · rw [if_neg short]
      obtain ⟨more, noted_more, result⟩ := parsingData_record split noted here
      have split_more : job.file.records = (done ++ [record]) ++ todo := by rw [split, append_assoc]; rfl
      rw [result]
      refine .inl ⟨rfl, ?_, _, .parsingData (done ++ [record]) todo more split_more noted_more, ?_, ?_⟩
      · simp only [work, inData]
        have positive : 0 < record.length := lt_of_lt_of_le (by decide) long
        omega
      · rw [List.flatten_append, length_append, flatten_cons, flatten_nil, append_nil]
        simp only
        omega
      · simp only
        omega

end Data

theorem splitDropSize_eq (job : PerfJob) :
    subUint64 (headDataSize job.file.header) (job.file.kept job.request).flatten.length = job.file.dropped job.request := by
  have kept_le := @kept_length_le job.file job.request
  have small := job.file.dataEnd_lt
  rw [dataEnd] at small
  rw [job.file.data_size, subUint64_of_le kept_le (by omega), dropped]

theorem goes_parsingFeatureSection (arrived : buffer ++ future = job.file.bytes.drop processed) {tableSize : Nat}
    {parts : List (Nat × Nat)} (noted : job.Noted job.file.records parts)
    (here : processed + len = job.file.dataEnd) (within : len ≤ buffer.length) :
    job.StepGoes processed buffer ⟨job.beforeTable processed tableSize parts, len⟩ := by
  have function : splitFunc job.request buffer ⟨job.beforeTable processed tableSize parts, len⟩ =
      splitPerfParsingFeatureSection buffer ⟨job.beforeTable processed tableSize parts, len⟩ := rfl
  have count : (job.beforeTable processed tableSize parts).featureCount = job.file.features.length := rfl
  have header : (job.beforeTable processed tableSize parts).perfHeader = job.file.header := rfl
  have size : (job.beforeTable processed tableSize parts).splitDataSize = (job.file.kept job.request).flatten.length := rfl
  have some_features : job.file.features.length * perfFileSectionSize ≠ 0 :=
    Nat.mul_ne_zero (mt length_eq_zero_iff.mp job.file.features_some) (by decide)
  have table_length := tableBytes_length job.file.features
  rw [StepGoes, function]
  simp only [splitPerfParsingFeatureSection, count, header, size, splitDropSize_eq]
  rw [if_neg some_features]
  by_cases short : buffer.length - len < job.file.features.length * perfFileSectionSize
  · rw [if_pos short]
    have layout := job.layout
    exact .inr ⟨rfl, ⟨_, .parsingFeatureSection _ parts noted, here, within⟩, .inr (by omega)⟩
  · have table : sliceAt buffer len (job.file.features.length * perfFileSectionSize) = tableBytes job.file.features := by
      rw [sliceAt_buffer arrived here (by omega), bytes_drop_dataEnd, ← table_length, take_left]
    rw [if_neg short, table, lowerOffsets_tableBytes _ _ fun _ listed => dropped_le_offset listed]
    refine .inl ⟨rfl, ?_, job.file.tableEnd, .waitForFinish parts noted, ?_, ?_⟩
    · simp only [work, index]
      omega
    · rw [tableEnd]
      simp only
      omega
    · simp only
      omega

theorem goes (arrived : buffer ++ future = job.file.bytes.drop processed) (scanning : job.Scanning processed buffer scan position) :
    job.StepGoes processed buffer scan := by
  obtain ⟨place, here, within⟩ := scanning
  obtain ⟨parser, len⟩ := scan
  cases place with
  | starting => exact goes_starting here within
  | parsingHead => exact goes_parsingHead arrived here
  | waitForAttr _ behind ahead => exact goes_waitForAttr here within behind ahead
  | parsingAttr => exact goes_parsingAttr arrived here within
  | waitForData _ behind ahead => exact goes_waitForData here within behind ahead
  | parsingData done todo parts split noted => exact goes_parsingData arrived split noted here within
  | parsingFeatureSection tableSize parts noted => exact goes_parsingFeatureSection arrived noted here within
  | waitForFinish parts noted => exact .inr ⟨rfl, ⟨_, .waitForFinish parts noted, here, within⟩, .inl rfl⟩

end PerfJob

end SmartPerf.Split
