import SmartPerf.Split.PerfCutting

namespace SmartPerf.Split

open Data List PerfFile

/-! The calls that bring the pieces of a perf file, and what they leave when the last one has come. -/

namespace PerfJob

variable {job : PerfJob} {processed position : Nat} {buffer future : List UInt8} {scan : PerfScan} {parser : PerfDataParser}

section

variable (place : job.At processed position parser)
include place

theorem At.processedLength_eq : parser.processedLength = processed := by
  cases place <;> rfl

theorem At.move (later : Nat) : job.At later position { parser with processedLength := later } := by
  cases place with
  | starting => exact .starting
  | parsingHead => exact .parsingHead
  | waitForAttr _ behind ahead => exact .waitForAttr position behind ahead
  | parsingAttr => exact .parsingAttr
  | waitForData _ behind ahead => exact .waitForData position behind ahead
  | parsingData done todo parts split noted => exact .parsingData done todo parts split noted
  | parsingFeatureSection tableSize parts noted => exact .parsingFeatureSection tableSize parts noted
  | waitForFinish parts noted => exact .waitForFinish parts noted

theorem At.eq_behindTable (finished : parser.splitState = .waitForFinish) :
    position = job.file.tableEnd ∧ ∃ parts, job.Noted job.file.records parts ∧ parser = job.behindTable processed parts := by
  cases place with
  | starting => simp [fresh] at finished
  | parsingHead => cases finished
  | waitForAttr => cases finished
  | parsingAttr => cases finished
  | waitForData => cases finished
  | parsingData => cases finished
  | parsingFeatureSection => cases finished
  | waitForFinish parts noted => exact ⟨rfl, parts, noted, rfl⟩

end

def finished (job : PerfJob) (processed total : Nat) (parts : List (Nat × Nat)) : PerfDataParser :=
  { job.behindTable processed parts with
    splitResult := (job.behindTable processed parts).splitResult ++
      [.originSeg (job.base + job.file.tableEnd) job.file.rest.length]
    processedLength := total }

section Loop

variable (arrived : buffer ++ future = job.file.bytes.drop processed)
include arrived

theorem dataProcessing_waits (fuel : Nat) (scanning : job.Scanning processed buffer scan position)
    (enough : scan.work buffer < fuel) :
    ∃ later len, dataProcessing job.request buffer false fuel scan = some (later, len) ∧ len ≤ buffer.length ∧
      job.At (processed + len) (processed + len) later := by
  induction fuel generalizing scan position with
  | zero => omega
  | succ fuel ih =>
    rw [dataProcessing]
    rcases goes arrived scanning with ⟨again, less, next, onward⟩ | ⟨wait, ⟨next, resting⟩, _⟩
    · generalize splitFunc job.request buffer scan = outcome at again less onward
      obtain ⟨step, following⟩ := outcome
      simp only at again less onward
      subst again
      exact ih onward (by omega)
    · generalize splitFunc job.request buffer scan = outcome at wait resting
      obtain ⟨step, following⟩ := outcome
      subst wait
      refine ⟨_, _, rfl, resting.within, ?_⟩
      have place := resting.place
      rw [resting.place.processedLength_eq]
      rw [← resting.here] at place
      exact place.move _

theorem dataProcessing_finishes (whole : future = []) (inside : processed ≤ job.file.bytes.length) (fuel : Nat)
    (scanning : job.Scanning processed buffer scan position) (enough : scan.work buffer < fuel) :
    ∃ parts, job.Noted job.file.records parts ∧
      dataProcessing job.request buffer true fuel scan =
        some (job.finished processed (processed + buffer.length) parts, buffer.length) := by
  have total : processed + buffer.length = job.file.bytes.length := by
    have lengths := congrArg List.length arrived
    rw [whole, append_nil, length_drop] at lengths
    omega
  induction fuel generalizing scan position with
  | zero => omega
  | succ fuel ih =>
    rw [dataProcessing]
    by_cases passed : scan.parser.splitState = .waitForFinish
    · rw [if_pos ⟨rfl, passed⟩]
      obtain ⟨place, here, within⟩ := scanning
      obtain ⟨rfl, parts, noted, parser⟩ := place.eq_behindTable passed
      refine ⟨parts, noted, ?_⟩
      have length : (job.behindTable processed parts).processedLength = processed := rfl
      have offset : (job.behindTable processed parts).fileOffset job.file.tableEnd = job.base + job.file.tableEnd :=
        fileOffset_eq rfl job.file.tableEnd_lt
      have rest : buffer.length - scan.processedLen = job.file.rest.length := by
        rw [bytes_length] at total
        omega
      rw [parser, length, here, offset, rest, finished]
    · rw [if_neg fun both => passed both.2]
      rcases goes arrived scanning with ⟨again, less, next, onward⟩ | ⟨_, _, state | missing⟩
      · generalize splitFunc job.request buffer scan = outcome at again less onward
        obtain ⟨step, following⟩ := outcome
        simp only at again less onward
        subst again
        exact ih onward (by omega)
      · exact absurd state passed
      · omega

end Loop

/-- The parser between two calls. The offset in the input counts from the first call that processes something. -/
structure Ready (job : PerfJob) (consumed : Nat) (parser : PerfDataParser) : Prop where
  place : job.At consumed consumed { parser with perfDataOffset := job.base, perfSplitError := false }
  begun : consumed ≠ 0 → parser.perfDataOffset = job.base ∧ parser.perfSplitError = false

theorem At.ready (place : job.At position position parser) : job.Ready position parser := by
  have offset : parser.perfDataOffset = job.base := by cases place <;> rfl
  have error : parser.perfSplitError = false := by cases place <;> rfl
  refine ⟨?_, fun _ => ⟨offset, error⟩⟩
  rw [← offset, ← error]
  exact place

theorem ready_origin (job : PerfJob) : job.Ready 0 job.origin := by
  refine ⟨?_, fun begun => absurd rfl begun⟩
  have length : job.origin.processedLength = 0 := by
    rw [← job.withdrawn]
    rfl
  have same : { job.origin with perfDataOffset := job.base, perfSplitError := false } = job.fresh 0 := by
    rw [fresh, ← length]
  rw [same]
  exact .starting

theorem toInt32_base (job : PerfJob) : toInt32 job.base = job.base := by
  have base_lt : job.base < 2 ^ 31 := job.base_lt
  rw [toInt32, BitVec.toInt_eq_toNat_of_lt]
  · rw [BitVec.toNat_ofNat, Nat.mod_eq_of_lt (by omega)]
  · rw [BitVec.toNat_ofNat]
    omega

theorem Ready.splitPerfData_eq {consumed offset : Nat} (ready : job.Ready consumed parser)
    (first : consumed = 0 → offset = job.base) (buffer : List UInt8) (isFinish : Bool) :
    splitPerfData job.request parser buffer offset isFinish =
      dataProcessingLength job.request { parser with perfDataOffset := job.base, perfSplitError := false } buffer isFinish := by
  have length : parser.processedLength = consumed := ready.place.processedLength_eq
  rw [splitPerfData]
  by_cases start : consumed = 0
  · rw [if_pos (length.trans start), first start, toInt32_base]
    rfl
  · obtain ⟨offset_eq, error_eq⟩ := ready.begun start
    have same : { parser with perfDataOffset := job.base, perfSplitError := false } = parser := by
      rw [← offset_eq, ← error_eq]
    have going : ¬ parser.processedLength = 0 := by rwa [length]
    simp only [if_neg going, error_eq, same]
    rfl

/-- What the caller keeps: the bytes that have come and are not processed. -/
structure Feeding (job : PerfJob) (feed : PerfFeed) (future : List UInt8) : Prop where
  ready : job.Ready feed.consumed feed.parser
  arrived : feed.packagesBuffer ++ future = job.file.bytes.drop feed.consumed

theorem Feeding.scanning {feed : PerfFeed} (feeding : job.Feeding feed future) (buffer : List UInt8) :
    job.Scanning feed.consumed buffer
      ⟨{ feed.parser with perfDataOffset := job.base, perfSplitError := false }, 0⟩ feed.consumed :=
  ⟨feeding.ready.place, rfl, Nat.zero_le _⟩

theorem work_lt (buffer : List UInt8) (scan : PerfScan) : scan.work buffer < buffer.length + 9 := by
  rw [PerfScan.work]
  omega

section Delivery

variable {offsetOf : Nat → Nat} (start : offsetOf 0 = job.base)
include start

theorem Feeding.deliver {feed : PerfFeed} {piece : List UInt8} (feeding : job.Feeding feed (piece ++ future)) :
    ∃ later, feed.deliver job.request offsetOf piece false = some later ∧ job.Feeding later future := by
  have arrived := feeding.arrived
  rw [← append_assoc] at arrived
  obtain ⟨later, len, result, within, place⟩ := dataProcessing_waits arrived _ (feeding.scanning _) (work_lt _ _)
  refine ⟨⟨later, (feed.packagesBuffer ++ piece).drop len, feed.consumed + len⟩, ?_, place.ready, ?_⟩
  · rw [PerfFeed.deliver, feeding.ready.splitPerfData_eq (fun none => by rw [none, start]), dataProcessingLength, result]
    rfl
  · rw [← drop_drop, ← arrived, drop_append_of_le_length within]

theorem Feeding.deliver_last {feed : PerfFeed} {piece : List UInt8} (feeding : job.Feeding feed piece) :
    ∃ processed total parts, job.Noted job.file.records parts ∧
      feed.deliver job.request offsetOf piece true =
        some ⟨job.finished processed total parts, [], feed.consumed + (feed.packagesBuffer ++ piece).length⟩ := by
  have arrived := feeding.arrived
  rw [← append_nil piece, ← append_assoc] at arrived
  have inside := feeding.ready.place.position_le
  obtain ⟨parts, noted, result⟩ := dataProcessing_finishes arrived rfl inside _ (feeding.scanning _) (work_lt _ _)
  refine ⟨feed.consumed, feed.consumed + (feed.packagesBuffer ++ piece).length, parts, noted, ?_⟩
  rw [PerfFeed.deliver, feeding.ready.splitPerfData_eq (fun none => by rw [none, start]), dataProcessingLength, result]
  simp

theorem Feeding.deliverAll {feed : PerfFeed} {pieces : List (List UInt8)} (some_pieces : pieces ≠ [])
    (feeding : job.Feeding feed pieces.flatten) :
    ∃ last processed total parts, job.Noted job.file.records parts ∧
      feed.deliverAll job.request offsetOf pieces = some last ∧ last.parser = job.finished processed total parts := by
  induction pieces generalizing feed with
  | nil => exact absurd rfl some_pieces
  | cons piece rest ih =>
    cases rest with
    | nil =>
      rw [flatten_singleton] at feeding
      obtain ⟨processed, total, parts, noted, result⟩ := feeding.deliver_last start
      exact ⟨_, processed, total, parts, noted, result, rfl⟩
    | cons next rest =>
      obtain ⟨later, result, onward⟩ := feeding.deliver start
      obtain ⟨last, processed, total, parts, noted, delivered, parser⟩ := ih (cons_ne_nil _ _) onward
      refine ⟨last, processed, total, parts, noted, ?_, parser⟩
      rw [PerfFeed.deliverAll, result]
      exact delivered

end Delivery

/-- The profiler header that precedes the perf file, with the length of the section lowered. -/
def profilerHead (job : PerfJob) : List UInt8 :=
  if job.origin.hasProfilerHead then
    setWord job.origin.profilerHeader 8 8 (subUint64 (wordAt job.origin.profilerHeader 8 8) (job.file.dropped job.request))
  else []

theorem readResult_segments (job : PerfJob) (parser : PerfDataParser) (parts : List (Nat × Nat)) :
    (segments parts).flatMap (parser.readResult job.input) = job.readParts parts := by
  rw [segments, flatMap_map]
  rfl

theorem splitBytes_finished {total : Nat} {parts : List (Nat × Nat)} (noted : job.Noted job.file.records parts) :
    (job.finished processed total parts).splitBytes job.input = job.profilerHead ++ job.file.cut job.request := by
  have result : (job.finished processed total parts).splitResult = job.heads ++ [.buffer .perfHeader perfFileHeaderSize] ++
      segments parts ++ [.buffer .featureSection (job.file.features.length * perfFileSectionSize)] ++
      [.originSeg (job.base + job.file.tableEnd) job.file.rest.length] := rfl
  have head : job.heads.flatMap ((job.finished processed total parts).readResult job.input) = job.profilerHead := by
    rw [heads, profilerHead]
    split
    · have length := @setWord_length job.origin.profilerHeader 8 8
        (subUint64 (wordAt job.origin.profilerHeader 8 8) (job.file.dropped job.request))
        (by rw [job.profiler_length]; decide)
      rw [flatMap_singleton]
      exact take_of_length_le (length.trans job.profiler_length).le
    · rfl
  have header : (job.finished processed total parts).readResult job.input (.buffer .perfHeader perfFileHeaderSize) =
      setWord job.file.header 48 8 (job.file.kept job.request).flatten.length := by
    refine take_of_length_le ?_
    change (setWord job.file.header 48 8 (job.file.kept job.request).flatten.length).length ≤ _
    rw [header_setWord_length]
  have table : (job.finished processed total parts).readResult job.input
      (.buffer .featureSection (job.file.features.length * perfFileSectionSize)) =
        tableBytes (job.file.features.map (·.lower (job.file.dropped job.request))) := by
    refine take_of_length_le ?_
    change (tableBytes (job.file.features.map (·.lower (job.file.dropped job.request)))).length ≤ _
    rw [tableBytes_length, length_map]
  have rest : (job.finished processed total parts).readResult job.input
      (.originSeg (job.base + job.file.tableEnd) job.file.rest.length) = job.file.rest := by
    change sliceAt job.input (job.base + job.file.tableEnd) job.file.rest.length = _
    rw [sliceAt_input bytes_length.ge, bytes_drop_tableEnd, take_length]
  rw [PerfDataParser.splitBytes, result]
  simp [head, header, readResult_segments, noted.2, table, rest, upToData, cut, kept]

end PerfJob

/-- Cutting a perf file gives the right perf file, whichever pieces it comes in. -/
theorem deliverAll_cuts (job : PerfJob) (offsetOf : Nat → Nat) (start : offsetOf 0 = job.base)
    (pieces : List (List UInt8)) (some_pieces : pieces ≠ []) (whole : pieces.flatten = job.file.bytes) :
    ∃ last, PerfFeed.deliverAll job.request offsetOf { parser := job.origin } pieces = some last ∧
      last.parser.splitBytes job.input = job.profilerHead ++ job.file.cut job.request ∧
      ∀ descriptor ∈ job.file.features, job.file.dropped job.request ≤ descriptor.offset ∧
        (job.file.tableEnd ≤ descriptor.offset →
          sliceAt (job.file.cut job.request) (descriptor.lower (job.file.dropped job.request)).offset descriptor.size =
            sliceAt job.file.bytes descriptor.offset descriptor.size) := by
  have feeding : job.Feeding { parser := job.origin } pieces.flatten := ⟨job.ready_origin, whole⟩
  obtain ⟨last, processed, total, parts, noted, delivered, parser⟩ := feeding.deliverAll start some_pieces
  refine ⟨last, delivered, ?_, fun descriptor listed => ⟨dropped_le_offset listed, job.file.sliceAt_cut job.request⟩⟩
  rw [parser, PerfJob.splitBytes_finished noted]

/-- A file with a sample before the range, one in it, another record, one sample behind it, and a feature. -/
def sampleFile : PerfFile where
  header := perfMagic ++ littleEndian 8 104 ++ littleEndian 8 96 ++ littleEndian 8 104 ++ littleEndian 8 96 ++
    littleEndian 8 200 ++ littleEndian 8 56 ++ littleEndian 8 0 ++ littleEndian 8 0 ++ 1 :: List.replicate 31 0
  attrsGap := []
  attrs := List.replicate 24 0 ++ littleEndian 8 4 ++ littleEndian 8 0 ++ littleEndian 8 (2 ^ 25) ++
    List.replicate 44 0 ++ littleEndian 4 1
  dataGap := []
  records := [[9, 0, 0, 0, 0, 0, 16, 0, 5, 0, 0, 0, 0, 0, 0, 0], [9, 0, 0, 0, 0, 0, 16, 0, 15, 0, 0, 0, 0, 0, 0, 0],
    [3, 0, 0, 0, 0, 0, 8, 0], [9, 0, 0, 0, 0, 0, 16, 0, 25, 0, 0, 0, 0, 0, 0, 0]]
  features := [⟨272, 2, by decide, by decide⟩]
  rest := [7, 8]
  header_length := by decide +kernel
  magic := by decide +kernel
  attrs_at := by decide +kernel
  attrs_size := by decide +kernel
  attrs_count := by decide +kernel
  attrs_hold := by decide +kernel
  data_at := by decide +kernel
  data_size := by decide +kernel
  sized := by decide +kernel
  features_count := by decide +kernel
  features_some := cons_ne_nil _ _
  features_after := by decide +kernel
  clock := 4
  clock_used := by decide +kernel
  clock_known := by decide +kernel
  timed := by decide +kernel
  times_there := by decide +kernel
  small := by decide +kernel

def sampleJob : PerfJob where
  file := sampleFile
  request := ⟨10, 20, fun _ time => time, by decide⟩
  origin := { profilerHeader := List.replicate 1024 0 }
  before := [1, 2, 3]
  after := [4]
  base_lt := by decide
  withdrawn := rfl
  profiler_length := length_replicate

theorem deliverAll_cuts_twoPieces :
    sampleFile.dropped sampleJob.request = 32 ∧
    ∃ last, PerfFeed.deliverAll sampleJob.request (3 + ·) { parser := sampleJob.origin }
        [sampleFile.bytes.take 150, sampleFile.bytes.drop 150] = some last ∧
      last.parser.splitBytes sampleJob.input = sampleFile.cut sampleJob.request := by
  refine ⟨by decide +kernel, ?_⟩
  obtain ⟨last, delivered, bytes, _⟩ := deliverAll_cuts sampleJob (3 + ·) rfl
    [sampleFile.bytes.take 150, sampleFile.bytes.drop 150] (cons_ne_nil _ _)
    (by rw [flatten_cons]; exact take_append_drop 150 _)
  exact ⟨last, delivered, bytes⟩

end SmartPerf.Split
