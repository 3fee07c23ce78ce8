import SmartPerf.Split.EbpfCutting

namespace SmartPerf.Split

open Data Framing List

/-! The pieces of an ebpf section, and what they leave when the section is consumed. -/

namespace EbpfJob

variable {job : EbpfJob} {tries received : Nat} {buffer piece future : List UInt8} {feed : EbpfFeed}

theorem initEbpfPublicData_buffer (minTime maxTime : Nat) (feed : EbpfFeed) (buffer : List UInt8) :
    { feed with packagesBuffer := buffer }.initEbpfPublicData minTime maxTime =
      { feed.initEbpfPublicData minTime maxTime with packagesBuffer := buffer } := by
  unfold EbpfFeed.initEbpfPublicData
  split <;> rfl

section
variable {splitter : EbpfSplitter} (ready : feed.initEbpfPublicData job.minTime job.maxTime = job.opened splitter buffer)
include ready

/-- A feed that only lacks the offset and the range has the other values already. -/
theorem eq_of_ready : feed = { job.opened splitter buffer with
      splitter := feed.splitter
      hasInitEbpfPublicData := feed.hasInitEbpfPublicData } := by
  rw [← ready, EbpfFeed.initEbpfPublicData]
  split <;> rfl

theorem parseDataRecursively_ready : feed.parseDataRecursively job.minTime job.maxTime =
      (splitter.addAndSplitEbpfData buffer).map (job.opened splitter buffer).afterSplit := by
  have has_header : feed.hasGotHeader = true := by rw [eq_of_ready ready]; rfl
  have is_ebpf : feed.profilerDataType = standaloneData ∧ feed.standalonePluginName = ebpfPluginName := by
    rw [eq_of_ready ready]
    exact ⟨rfl, rfl⟩
  have going : feed.parsedEbpfOver = false := by rw [eq_of_ready ready]; rfl
  have got : feed.getHeaderAndUpdateLengthMark = (true, feed) := by
    rw [EbpfFeed.getHeaderAndUpdateLengthMark, if_pos has_header]
  simp only [EbpfFeed.parseDataRecursively, got, EbpfFeed.calcEbpfCutOffset, going, ready]
  rw [if_pos is_ebpf]
  rfl

end

theorem place_heading (arrived : buffer ++ future = job.entry.body) (some_bytes : buffer ≠ [])
    (ready : feed.initEbpfPublicData job.minTime job.maxTime = job.opened (job.heading tries) buffer) :
    ∃ next, feed.parseDataRecursively job.minTime job.maxTime = some next ∧
      job.Place future (packetHeaderLength + buffer.length)
        (tries + if InHeader (packetHeaderLength + buffer.length) then 1 else 0) next := by
  have positive := length_pos_iff.mpr some_bytes
  rw [parseDataRecursively_ready ready]
  by_cases short : buffer.length < ebpfDataHeaderSize
  · have inside : InHeader (packetHeaderLength + buffer.length) := ⟨by omega, by omega⟩
    rw [addAndSplitEbpfData_short short, if_pos inside]
    exact ⟨_, rfl, .heading (tries + 1) buffer _ short arrived rfl⟩
  · have outside : ¬ InHeader (packetHeaderLength + buffer.length) := fun inside => short (by have := inside.2; omega)
    obtain ⟨result, called, leaves⟩ := @addAndSplitEbpfData_heading job tries buffer future arrived (not_lt.mp short)
    rw [called, if_neg outside]
    exact ⟨_, rfl, leaves.place (by omega)⟩

def headed (job : EbpfJob) (buffer : List UInt8) : EbpfFeed :=
  { job.start with
    packagesBuffer := buffer
    hasGotHeader := true
    profilerDataLength := headerLength job.entry.header
    profilerDataType := standaloneData
    standalonePluginName := ebpfPluginName
    processedDataLen := job.base + packetHeaderLength
    splitter := { job.origin.clearEbpfSplitResult with profilerHeader := job.entry.header } }

theorem init_headed (buffer : List UInt8) :
    (job.headed buffer).initEbpfPublicData job.minTime job.maxTime = job.opened (job.heading 0) buffer := by
  rfl

theorem getHeader_waiting (records : List UInt8) :
    ({ job.start with packagesBuffer := job.entry.header ++ records } : EbpfFeed).getHeaderAndUpdateLengthMark =
      (decide (records ≠ []), job.headed records) := by
  have header : (job.entry.header ++ records).take packetHeaderLength = job.entry.header :=
    take_left' job.entry.header_length
  have after : (job.entry.header ++ records).drop packetHeaderLength = records :=
    drop_left' job.entry.header_length
  have enough : ¬ (job.entry.header ++ records).length < packetHeaderLength := by
    rw [length_append, job.entry.header_length]
    omega
  have sound : ¬ (headerLength job.entry.header ≤ packetHeaderLength ∨ headerMagicOf job.entry.header ≠ headerMagic) := by
    rw [job.entry.total_length, job.entry.magic]
    simp [ebpfDataHeaderSize]
  have is_ebpf : headerDataType job.entry.header = standaloneData ∧ headerPluginName job.entry.header = ebpfPluginName :=
    ⟨job.entry.data_type, job.entry.plugin_name⟩
  simp only [EbpfFeed.getHeaderAndUpdateLengthMark, EbpfFeed.initProfilerTraceFileHeader, header, if_neg enough, if_neg sound,
    is_ebpf.1, is_ebpf.2, after]
  rfl

theorem parseDataRecursively_short (short : buffer.length < packetHeaderLength) :
    ({ job.start with packagesBuffer := buffer } : EbpfFeed).parseDataRecursively job.minTime job.maxTime =
      some { job.start with packagesBuffer := buffer } := by
  have no_header : ({ job.start with packagesBuffer := buffer } : EbpfFeed).initProfilerTraceFileHeader = none := by
    simp only [EbpfFeed.initProfilerTraceFileHeader, if_pos short]
  simp only [EbpfFeed.parseDataRecursively, EbpfFeed.getHeaderAndUpdateLengthMark, no_header]
  rfl

theorem place_waiting {records : List UInt8} (arrived : records ++ future = job.entry.body) :
    ∃ next, ({ job.start with packagesBuffer := job.entry.header ++ records } : EbpfFeed).parseDataRecursively
        job.minTime job.maxTime = some next ∧
      job.Place future (packetHeaderLength + records.length)
        (0 + if InHeader (packetHeaderLength + records.length) then 1 else 0) next := by
  cases records with
  | nil =>
    refine ⟨job.headed [], ?_, .heading 0 [] _ (by decide) arrived (init_headed [])⟩
    simp only [EbpfFeed.parseDataRecursively, getHeader_waiting, ne_eq, not_true_eq_false, decide_false]
  | cons byte records =>
    have is_some : byte :: records ≠ [] := cons_ne_nil _ _
    obtain ⟨next, parsed, place⟩ := place_heading arrived is_some (init_headed (byte :: records))
    refine ⟨next, ?_, place⟩
    rw [← parsed]
    simp only [EbpfFeed.parseDataRecursively, getHeader_waiting]
    rfl

theorem Place.step (place : job.Place (piece ++ future) received tries feed) (some_bytes : piece ≠ []) :
    ∃ next, feed.parseTraceDataSegment job.minTime job.maxTime piece = some next ∧
      job.Place future (received + piece.length) (tries + if InHeader (received + piece.length) then 1 else 0) next := by
  rw [EbpfFeed.parseTraceDataSegment, if_neg some_bytes]
  cases place with
  | waiting buffer short arrived =>
    rw [← append_assoc] at arrived
    have length : (buffer ++ piece).length = buffer.length + piece.length := length_append
    by_cases still_short : (buffer ++ piece).length < packetHeaderLength
    · have outside : ¬ InHeader (buffer.length + piece.length) := fun inside => by have := inside.1; omega
      refine ⟨_, parseDataRecursively_short still_short, ?_⟩
      rw [if_neg outside, ← length]
      exact .waiting _ still_short arrived
    · obtain ⟨records, whole, later⟩ := arrived_cons arrived (job.entry.header_length.trans_le (not_lt.mp still_short))
      rw [← length, whole, length_append, job.entry.header_length]
      exact place_waiting later
  | heading _ buffer _ short arrived ready =>
    rw [← append_assoc] at arrived
    have length : (buffer ++ piece).length = buffer.length + piece.length := length_append
    have kept : feed.packagesBuffer = buffer := by rw [eq_of_ready ready]; rfl
    have ready_more : ({ feed with packagesBuffer := feed.packagesBuffer ++ piece } : EbpfFeed).initEbpfPublicData
        job.minTime job.maxTime = job.opened (job.heading tries) (buffer ++ piece) := by
      rw [initEbpfPublicData_buffer, ready, kept]
      rfl
    have result := place_heading arrived (append_ne_nil_of_right_ne_nil _ some_bytes) ready_more
    rw [length, ← Nat.add_assoc] at result
    exact result
  | splitting _ _ done todo buffer behind split arrived missing =>
    rw [← append_assoc] at arrived
    obtain ⟨result, called, leaves⟩ := @addAndSplitEbpfData_passed job tries (buffer ++ piece) future done todo split arrived
    have ready : ({ job.opened (job.passed tries done) buffer with packagesBuffer := buffer ++ piece } :
        EbpfFeed).initEbpfPublicData job.minTime job.maxTime = job.opened (job.passed tries done) (buffer ++ piece) := rfl
    have outside : ¬ InHeader (received + piece.length) := fun inside => by have := inside.2; omega
    have parsed := parseDataRecursively_ready ready
    rw [called] at parsed
    rw [if_neg outside]
    exact ⟨_, parsed, leaves.place (by omega)⟩
  | consumed _ _ behind whole => exact absurd (append_eq_nil_iff.mp whole).1 some_bytes

/-- How often a piece ends strictly inside the header of the ebpf data. -/
def endsInHeader : Nat → List (List UInt8) → Nat
  | _, [] => 0
  | received, piece :: rest =>
    (if piece ≠ [] ∧ InHeader (received + piece.length) then 1 else 0) + endsInHeader (received + piece.length) rest

variable {pieces : List (List UInt8)}

theorem endsInHeader_eq_zero_iff (outside : ¬ InHeader received) :
    endsInHeader received pieces = 0 ↔ ∀ count, ¬ InHeader (received + (pieces.take count).flatten.length) := by
  induction pieces generalizing received with
  | nil => simp [endsInHeader, outside]
  | cons piece rest ih =>
    rw [endsInHeader, Nat.add_eq_zero_iff]
    by_cases inside : InHeader (received + piece.length)
    · have is_some : piece ≠ [] := by
        intro empty
        rw [empty] at inside
        exact outside inside
      refine ⟨fun none => ?_, fun never => absurd ?_ (never 1)⟩
      · rw [if_pos ⟨is_some, inside⟩] at none
        exact absurd none.1 one_ne_zero
      · simpa using inside
    · rw [if_neg fun both => inside both.2, ih inside]
      refine ⟨fun never count => ?_, fun never => ⟨rfl, fun count => ?_⟩⟩
      · cases count with
        | zero => simpa using outside
        | succ count =>
          rw [take_succ_cons, flatten_cons, length_append, ← Nat.add_assoc]
          exact never.2 count
      · have later := never (count + 1)
        rw [take_succ_cons, flatten_cons, length_append, ← Nat.add_assoc] at later
        exact later

/-- The place between two pieces, with the tries that are still to come. -/
def Between (job : EbpfJob) (total : Nat) (feed : EbpfFeed) (pieces : List (List UInt8)) : Prop :=
  ∃ received tries, job.Place pieces.flatten received tries feed ∧ tries + endsInHeader received pieces = total

theorem Between.step {total : Nat} {rest : List (List UInt8)} (between : job.Between total feed (piece :: rest)) :
    ∃ next, feed.parseTraceDataSegment job.minTime job.maxTime piece = some next ∧ job.Between total next rest := by
  obtain ⟨received, tries, place, counted⟩ := between
  rw [endsInHeader] at counted
  by_cases empty : piece = []
  · subst empty
    refine ⟨feed, if_pos rfl, received, tries, place, ?_⟩
    simpa using counted
  · obtain ⟨next, parsed, later⟩ := place.step empty
    refine ⟨next, parsed, _, _, later, ?_⟩
    simp only [ne_eq, empty, not_false_eq_true, true_and] at counted
    omega

theorem Place.eq_consumed (place : job.Place [] received tries feed) : feed = job.consumed tries := by
  have header_length := job.entry.header_length
  have ebpfHeader_length := job.entry.ebpfHeader_length
  cases place with
  | waiting buffer short arrived =>
    rw [append_nil] at arrived
    rw [arrived, EbpfSection.bytes, length_append] at short
    omega
  | heading _ buffer _ short arrived =>
    rw [append_nil] at arrived
    rw [arrived, EbpfSection.body, length_append] at short
    omega
  | splitting _ _ _ _ _ _ _ _ missing => exact absurd rfl missing
  | consumed => rfl

theorem feedAll_eq_consumed (whole : pieces.flatten = job.entry.bytes) :
    feedAll (EbpfFeed.parseTraceDataSegment job.minTime job.maxTime) job.start pieces =
      some (job.consumed (endsInHeader 0 pieces)) := by
  have start : job.Between (endsInHeader 0 pieces) job.start pieces :=
    ⟨0, 0, .waiting [] (by decide) whole, Nat.zero_add _⟩
  obtain ⟨last, result, received, tries, place, counted⟩ :=
    @feedAll_invariant _ _ (EbpfFeed.parseTraceDataSegment job.minTime job.maxTime) (job.Between (endsInHeader 0 pieces))
      (fun _ _ _ between => between.step) _ _ start
  rw [endsInHeader, Nat.add_zero] at counted
  rw [result, place.eq_consumed, counted]

/-- The split result of a section that is consumed: one profiler header with the length of what is kept, one ebpf header,
and one segment for each record that is kept. -/
structure IsSplit (job : EbpfJob) (feed : EbpfFeed) : Prop where
  over_and_empty : feed.parsedEbpfOver = true ∧ feed.packagesBuffer = []
  result : feed.splitter.ebpfSplitResult =
    .buffer .profilerHeader packetHeaderLength :: .buffer .ebpfHeader ebpfDataHeaderSize ::
      keptSegments job.minTime job.maxTime (job.base + packetHeaderLength + ebpfDataHeaderSize) job.entry.records
  profilerHeader : feed.splitter.profilerHeader = setWord job.entry.header 8 8
    (keptLength job.minTime job.maxTime job.entry.records + packetHeaderLength + ebpfDataHeaderSize)
  ebpfHeader : feed.splitter.splitEbpfHeader = some job.entry.ebpfHeader

theorem isSplit_consumed_iff : job.IsSplit (job.consumed tries) ↔ tries = 0 := by
  have result : (job.consumed tries).splitter.ebpfSplitResult = job.resultOf tries job.entry.records := rfl
  refine ⟨fun split => ?_, ?_⟩
  · have lengths := congrArg List.length split.result
    rw [result, resultOf, bodyAt] at lengths
    simp only [length_append, length_replicate, length_cons] at lengths
    omega
  · intro none
    subst none
    exact ⟨⟨rfl, rfl⟩, rfl, rfl, rfl⟩

/-- The result is the right one exactly when no piece ends strictly inside the header of the ebpf data. -/
theorem feedAll_isSplit_iff (job : EbpfJob) (pieces : List (List UInt8)) (whole : pieces.flatten = job.entry.bytes) :
    ∃ last, feedAll (EbpfFeed.parseTraceDataSegment job.minTime job.maxTime) job.start pieces = some last ∧
      (job.IsSplit last ↔ ∀ count, ¬ InHeader (pieces.take count).flatten.length) := by
  refine ⟨_, feedAll_eq_consumed whole, ?_⟩
  rw [isSplit_consumed_iff, endsInHeader_eq_zero_iff (by decide)]
  simp

end EbpfJob

/-- A section with a string record, an event in the range and one behind it. -/
def sampleSection : EbpfSection where
  header := littleEndian 8 headerMagic ++ littleEndian 8 2257 ++ List.replicate 40 0 ++ littleEndian 4 standaloneData ++
    List.replicate 48 0 ++ ebpfPluginName ++ List.replicate 903 0
  ebpfHeader := littleEndian 8 ebpfHeaderMagic ++ littleEndian 4 ebpfDataHeaderSize ++ List.replicate 1012 0
  records := [⟨itemEventStr, [1], by decide, by decide, by decide, by decide⟩,
    ⟨itemEventFs, List.replicate 16 0 ++ littleEndian 8 15 ++ littleEndian 8 16 ++ List.replicate 72 0, by decide, by decide,
      by decide, by decide⟩,
    ⟨itemEventVm, List.replicate 16 0 ++ littleEndian 8 25 ++ littleEndian 8 26 ++ List.replicate 48 0, by decide, by decide,
      by decide, by decide⟩]
  header_length := by decide +kernel
  magic := by decide +kernel
  total_length := by decide +kernel
  data_type := by decide +kernel
  plugin_name := by decide +kernel
  ebpfHeader_length := by decide +kernel
  ebpf_magic := by decide +kernel
  ebpf_headSize := by decide +kernel

def sampleEbpfJob : EbpfJob := ⟨sampleSection, 0, 10, 20, {}⟩

theorem feedAll_isSplit_atBoundary :
    ∃ last, feedAll (EbpfFeed.parseTraceDataSegment 10 20) sampleEbpfJob.start
        [sampleSection.bytes.take 1024, sampleSection.bytes.drop 1024] = some last ∧ sampleEbpfJob.IsSplit last := by
  obtain ⟨last, delivered, right⟩ := EbpfJob.feedAll_isSplit_iff sampleEbpfJob
    [sampleSection.bytes.take 1024, sampleSection.bytes.drop 1024]
    (by rw [flatten_cons, flatten_singleton]; exact take_append_drop 1024 _)
  refine ⟨last, delivered, right.mpr fun count => ?_⟩
  match count with
  | 0 => decide +kernel
  | 1 => decide +kernel
  | count + 2 =>
    rw [take_succ_cons, take_succ_cons, take_nil]
    decide +kernel

/-- A piece that ends inside the ebpf header: the profiler header is noted twice. -/
theorem feedAll_not_isSplit_inHeader :
    ∃ last, feedAll (EbpfFeed.parseTraceDataSegment 10 20) sampleEbpfJob.start
        [sampleSection.bytes.take 1025, sampleSection.bytes.drop 1025] = some last ∧
      last.splitter.ebpfSplitResult = [.buffer .profilerHeader 1024, .buffer .profilerHeader 1024, .buffer .ebpfHeader 1024,
        .originSeg 2048 9, .originSeg 2057 112] ∧ ¬ sampleEbpfJob.IsSplit last := by
  have whole : ([sampleSection.bytes.take 1025, sampleSection.bytes.drop 1025]).flatten = sampleEbpfJob.entry.bytes := by
    rw [flatten_cons, flatten_singleton]
    exact take_append_drop 1025 _
  have tries : EbpfJob.endsInHeader 0 [sampleSection.bytes.take 1025, sampleSection.bytes.drop 1025] = 1 := by decide +kernel
  have result := EbpfJob.feedAll_eq_consumed whole
  rw [tries] at result
  refine ⟨sampleEbpfJob.consumed 1, result, by decide +kernel, ?_⟩
  rw [EbpfJob.isSplit_consumed_iff]
  exact one_ne_zero

end SmartPerf.Split
