import SmartPerf.Split.EbpfSplitter

namespace SmartPerf.Split

open Data Framing List EbpfSplitter

/-! The splitting of an ebpf section that arrives in pieces. -/

def isPublicItem (type : Nat) : Bool :=
  type = itemEventMaps ∨ type = itemSymbolInfo ∨ type = itemEventStr ∨ type = itemEventKenelSymbolInfo

def fixedHeaderOf (type : Nat) : Option FixedHeader :=
  if type = itemEventFs then some fsFixedHeader
  else if type = itemEventVm then some pagedMemoryFixedHeader
  else if type = itemEventBio then some bioFixedHeader
  else none

/-- A record whose size is a `uint32_t`; an event holds its fixed header. -/
structure EbpfRecord where
  type : Nat
  body : List UInt8
  type_lt : type < 2 ^ 32
  body_some : body ≠ []
  size_lt : ebpfTitleSize + body.length < 2 ^ 32
  holds : ∀ fixedHeader, fixedHeaderOf type = some fixedHeader → fixedHeader.size ≤ body.length

namespace EbpfRecord

def bytes (record : EbpfRecord) : List UInt8 :=
  littleEndian 4 record.type ++ (littleEndian 4 record.body.length ++ record.body)

def size (record : EbpfRecord) : Nat := ebpfTitleSize + record.body.length

def isKept (minTime maxTime : Nat) (record : EbpfRecord) : Bool :=
  isPublicItem record.type ∨
    (fixedHeaderOf record.type).any fun fixedHeader =>
      wordAt record.body fixedHeader.endTime 8 ≤ maxTime ∧ minTime ≤ wordAt record.body fixedHeader.startTime 8

variable {record : EbpfRecord}

theorem bytes_length : record.bytes.length = record.size := by
  simp only [bytes, length_append, littleEndian_length, size, ebpfTitleSize]
  omega

theorem title_lt_size : ebpfTitleSize < record.size := by
  have body_length := length_pos_iff.mpr record.body_some
  rw [size]
  omega

variable (more : List UInt8)

theorem wordAt_type : wordAt (record.bytes ++ more) 0 4 = record.type := by
  exact ofLittleEndian_littleEndian 4 record.type record.type_lt

theorem wordAt_length : wordAt (record.bytes ++ more) 4 4 = record.body.length := by
  have size_lt := record.size_lt
  exact ofLittleEndian_littleEndian 4 record.body.length (by omega)

theorem wordAt_body {offset : Nat} (inside : offset + 8 ≤ record.body.length) :
    wordAt (record.bytes ++ more) (ebpfTitleSize + offset) 8 = wordAt record.body offset 8 := by
  have title : record.bytes ++ more = (littleEndian 4 record.type ++ littleEndian 4 record.body.length) ++ (record.body ++ more) := by
    simp [bytes]
  have length : (littleEndian 4 record.type ++ littleEndian 4 record.body.length).length = ebpfTitleSize := by
    rfl
  rw [← wordAt_append more inside, wordAt, title, ← drop_drop, drop_left' length, wordAt]

end EbpfRecord

/-- The segments for the records that are kept, from a file offset on. -/
def keptSegments (minTime maxTime : Nat) : Nat → List EbpfRecord → List EbpfSplitResult
  | _, [] => []
  | offset, record :: rest =>
    (if record.isKept minTime maxTime then [.originSeg offset record.size] else []) ++
      keptSegments minTime maxTime (offset + record.size) rest

def keptLength (minTime maxTime : Nat) (records : List EbpfRecord) : Nat :=
  ((records.filter (·.isKept minTime maxTime)).map (·.size)).sum

def recordBytes (records : List EbpfRecord) : List UInt8 := records.flatMap EbpfRecord.bytes

theorem keptSegments_concat (minTime maxTime offset : Nat) (records : List EbpfRecord) (record : EbpfRecord) :
    keptSegments minTime maxTime offset (records ++ [record]) = keptSegments minTime maxTime offset records ++
      if record.isKept minTime maxTime then [.originSeg (offset + (recordBytes records).length) record.size] else [] := by
  induction records generalizing offset with
  | nil => simp [keptSegments, recordBytes]
  | cons first rest ih =>
    rw [cons_append, keptSegments, ih, keptSegments, append_assoc]
    simp only [recordBytes, flatMap_cons, length_append, EbpfRecord.bytes_length, Nat.add_assoc]

theorem keptLength_concat (minTime maxTime : Nat) (records : List EbpfRecord) (record : EbpfRecord) :
    keptLength minTime maxTime (records ++ [record]) =
      keptLength minTime maxTime records + if record.isKept minTime maxTime then record.size else 0 := by
  cases kept : record.isKept minTime maxTime <;> simp [keptLength, kept]

theorem recordBytes_cons_length (record : EbpfRecord) (records : List EbpfRecord) :
    (recordBytes (record :: records)).length = record.size + (recordBytes records).length := by
  rw [recordBytes, flatMap_cons, length_append, EbpfRecord.bytes_length, recordBytes]

/-- A section with headers that describe it. -/
structure EbpfSection where
  header : List UInt8
  ebpfHeader : List UInt8
  records : List EbpfRecord
  header_length : header.length = packetHeaderLength
  magic : headerMagicOf header = headerMagic
  total_length : headerLength header = packetHeaderLength + (ebpfDataHeaderSize + (recordBytes records).length)
  data_type : headerDataType header = standaloneData
  plugin_name : headerPluginName header = ebpfPluginName
  ebpfHeader_length : ebpfHeader.length = ebpfDataHeaderSize
  ebpf_magic : wordAt ebpfHeader 0 8 = ebpfHeaderMagic
  ebpf_headSize : wordAt ebpfHeader 8 4 = ebpfDataHeaderSize

namespace EbpfSection

variable (entry : EbpfSection)

def body : List UInt8 := entry.ebpfHeader ++ recordBytes entry.records

def bytes : List UInt8 := entry.header ++ entry.body

theorem total_lt : packetHeaderLength + (ebpfDataHeaderSize + (recordBytes entry.records).length) < 2 ^ 64 := by
  rw [← entry.total_length]
  exact lt_of_lt_of_le (wordAt_lt entry.header 8 8) (by decide)

end EbpfSection

/-- A section that begins at an offset of the file, a range, and the splitter as the last use has left it. -/
structure EbpfJob where
  entry : EbpfSection
  base : Nat
  minTime : Nat
  maxTime : Nat
  origin : EbpfSplitter

namespace EbpfJob

variable (job : EbpfJob)

def start : EbpfFeed := { processedDataLen := job.base, splitter := job.origin.clearEbpfSplitResult }

variable (tries : Nat)

/-- Before the header of the ebpf data is there; it has been awaited `tries` times. -/
def heading : EbpfSplitter :=
  { job.origin.clearEbpfSplitResult with
    profilerHeader := job.entry.header
    offsetOfEbpfDataInFile := job.base + packetHeaderLength
    splitFileMinTs := job.minTime
    splitFileMaxTs := job.maxTime
    ebpfSplitResult := List.replicate tries (.buffer .profilerHeader packetHeaderLength) }

def bodyAt : Nat := job.base + packetHeaderLength + ebpfDataHeaderSize

def resultOf (records : List EbpfRecord) : List EbpfSplitResult :=
  List.replicate (tries + 1) (.buffer .profilerHeader packetHeaderLength) ++ .buffer .ebpfHeader ebpfDataHeaderSize ::
    keptSegments job.minTime job.maxTime job.bodyAt records

def passed (done : List EbpfRecord) : EbpfSplitter :=
  { job.heading tries with
    splittedLen := ebpfDataHeaderSize + (recordBytes done).length
    usefulDataLen := keptLength job.minTime job.maxTime done
    ebpfSplitResult := job.resultOf tries done
    splitEbpfHeader := some job.entry.ebpfHeader }

def ended : EbpfSplitter :=
  { job.passed tries job.entry.records with
    profilerHeader := setWord job.entry.header 8 8
      (keptLength job.minTime job.maxTime job.entry.records + packetHeaderLength + ebpfDataHeaderSize) }

variable {job} {tries : Nat} {buffer future : List UInt8} {done todo : List EbpfRecord}

theorem unUsedLength_passed (split : job.entry.records = done ++ todo) :
    (job.passed tries done).unUsedLength = (recordBytes todo).length := by
  have total_lt := job.entry.total_lt
  have lengths : (recordBytes job.entry.records).length = (recordBytes done).length + (recordBytes todo).length := by
    rw [split, recordBytes, flatMap_append, length_append, recordBytes, recordBytes]
  have header : headerLength (job.passed tries done).profilerHeader =
      packetHeaderLength + (ebpfDataHeaderSize + (recordBytes job.entry.records).length) := job.entry.total_length
  have length : (job.passed tries done).splittedLen = ebpfDataHeaderSize + (recordBytes done).length := rfl
  rw [unUsedLength, header, length, subUint64_of_le (by omega) total_lt, subUint64_of_le (by omega) (by omega)]
  omega

theorem fixedHeader_inside {type : Nat} {fixedHeader : FixedHeader} (event : fixedHeaderOf type = some fixedHeader) :
    fixedHeader.startTime + 8 ≤ fixedHeader.size ∧ fixedHeader.endTime + 8 ≤ fixedHeader.size := by
  unfold fixedHeaderOf at event
  split at event
  · cases event
    decide
  · split at event
    · cases event
      decide
    · split at event
      · cases event
        decide
      · cases event

theorem splitItem_eq (type segLen : Nat) (buffer : List UInt8) (splitter : EbpfSplitter) :
    splitter.splitItem type segLen buffer =
      if isPublicItem type then splitter.appendSplitOriginSegResult segLen
      else
        match fixedHeaderOf type with
        | some fixedHeader => splitter.appendSplitResultWithFixedHeader segLen buffer fixedHeader
        | none => splitter := by
  simp only [splitItem, isPublicItem, decide_eq_true_eq, fixedHeaderOf]
  split_ifs <;> rfl

theorem splitItem_passed (done : List EbpfRecord) (record : EbpfRecord) (more : List UInt8) :
    (job.passed tries done).splitItem record.type record.size (record.bytes ++ more) =
      if record.isKept job.minTime job.maxTime then (job.passed tries done).appendSplitOriginSegResult record.size
      else job.passed tries done := by
  rw [splitItem_eq]
  cases isPublic : isPublicItem record.type with
  | true => simp [EbpfRecord.isKept, isPublic]
  | false =>
    cases event : fixedHeaderOf record.type with
    | none => simp [EbpfRecord.isKept, isPublic, event]
    | some fixedHeader =>
      have holds := record.holds fixedHeader event
      obtain ⟨start_inside, end_inside⟩ := fixedHeader_inside event
      have minTs : (job.passed tries done).splitFileMinTs = job.minTime := rfl
      have maxTs : (job.passed tries done).splitFileMaxTs = job.maxTime := rfl
      simp [appendSplitResultWithFixedHeader, minTs, maxTs, EbpfRecord.wordAt_body more (start_inside.trans holds), EbpfRecord.wordAt_body more (end_inside.trans holds), EbpfRecord.isKept, isPublic, event]

theorem splitItem_next (done : List EbpfRecord) (record : EbpfRecord) (more : List UInt8) :
    { (job.passed tries done).splitItem record.type record.size (record.bytes ++ more) with
      splittedLen := ((job.passed tries done).splitItem record.type record.size (record.bytes ++ more)).splittedLen +
        record.size } = job.passed tries (done ++ [record]) := by
  have offset : job.base + packetHeaderLength + (ebpfDataHeaderSize + (recordBytes done).length) =
      job.bodyAt + (recordBytes done).length := by
    rw [bodyAt]
    omega
  have length : (recordBytes (done ++ [record])).length = (recordBytes done).length + record.size := by
    simp [recordBytes, EbpfRecord.bytes_length]
  rw [splitItem_passed]
  cases kept : record.isKept job.minTime job.maxTime with
  | true =>
    simp [appendSplitOriginSegResult, passed, heading, resultOf, keptSegments_concat, keptLength_concat,
      kept, length, offset, Nat.add_assoc]
  | false =>
    simp [passed, resultOf, keptSegments_concat, keptLength_concat, kept, length, Nat.add_assoc]

theorem splitEbpfBodyData_passed (split : job.entry.records = done ++ todo)
    (arrived : buffer ++ future = recordBytes todo) (fuel : Nat) (enough : buffer.length < fuel) :
    ∃ more rest left, todo = more ++ rest ∧ left ++ future = recordBytes rest ∧ (rest = [] ∨ future ≠ []) ∧
      splitEbpfBodyData fuel (job.passed tries done) buffer = some (job.passed tries (done ++ more), left) := by
  induction todo generalizing done buffer fuel with
  | nil =>
    obtain ⟨fuel, rfl⟩ := Nat.exists_eq_add_one_of_ne_zero (by omega : fuel ≠ 0)
    refine ⟨[], [], buffer, rfl, arrived, .inl rfl, ?_⟩
    have none_left : ¬ (ebpfTitleSize < (job.passed tries done).unUsedLength ∧ ebpfTitleSize < buffer.length) := by
      rw [unUsedLength_passed split]
      simp [recordBytes]
    rw [splitEbpfBodyData, if_neg none_left, append_nil]
  | cons record todo ih =>
    obtain ⟨fuel, rfl⟩ := Nat.exists_eq_add_one_of_ne_zero (by omega : fuel ≠ 0)
    have long := @EbpfRecord.title_lt_size record
    have segLen : (ebpfTitleSize + record.body.length) % 2 ^ 32 = record.size := Nat.mod_eq_of_lt record.size_lt
    have upcoming : buffer ++ future = record.bytes ++ recordBytes todo := by
      rw [arrived, recordBytes, flatMap_cons, recordBytes]
    have remaining : ebpfTitleSize < (job.passed tries done).unUsedLength := by
      rw [unUsedLength_passed split, recordBytes_cons_length]
      omega
    by_cases short : buffer.length < record.size
    · have awaited : buffer.length < (recordBytes (record :: todo)).length := by
        rw [recordBytes_cons_length]
        omega
      refine ⟨[], record :: todo, buffer, rfl, arrived, .inr (future_ne_nil arrived awaited), ?_⟩
      rw [splitEbpfBodyData, append_nil]
      by_cases titled : ebpfTitleSize < buffer.length
      · have length : wordAt buffer 4 4 = record.body.length := by
          rw [← wordAt_append future titled.le, upcoming, EbpfRecord.wordAt_length]
        simp only [if_pos (And.intro remaining titled), length, segLen, if_pos short]
      · rw [if_neg fun both => titled both.2]
    · obtain ⟨left, rfl, later⟩ := arrived_cons upcoming (EbpfRecord.bytes_length.trans_le (not_lt.mp short))
      have buffer_length : (record.bytes ++ left).length = record.size + left.length := by
        rw [length_append, EbpfRecord.bytes_length]
      have titled : ebpfTitleSize < (record.bytes ++ left).length := by omega
      have split_more : job.entry.records = (done ++ [record]) ++ todo := by rw [split, append_assoc]; rfl
      obtain ⟨more, rest, last, todo_eq, awaited, over_or_missing, result⟩ := ih split_more later fuel (by omega)
      refine ⟨record :: more, rest, last, by rw [todo_eq, cons_append], awaited, over_or_missing, ?_⟩
      rw [splitEbpfBodyData]
      simp only [if_pos (And.intro remaining titled), EbpfRecord.wordAt_type, EbpfRecord.wordAt_length, segLen,
        if_neg short, splitItem_next, drop_left' EbpfRecord.bytes_length, result, append_assoc, singleton_append]

/-- What a call of the splitter can leave behind the header: the end of the section, or bytes that have to wait. -/
def Leaves (job : EbpfJob) (tries : Nat) (future : List UInt8) (result : Bool × EbpfSplitter × List UInt8) : Prop :=
  (future = [] ∧ result = (true, job.ended tries, [])) ∨
  (future ≠ [] ∧ ∃ done todo left, job.entry.records = done ++ todo ∧ left ++ future = recordBytes todo ∧
    result = (false, job.passed tries done, left))

theorem splitRest_passed (split : job.entry.records = done ++ todo) (arrived : buffer ++ future = recordBytes todo) :
    ∃ result, (job.passed tries done).splitRest buffer = some result ∧ job.Leaves tries future result := by
  obtain ⟨more, rest, left, todo_eq, awaited, over_or_missing, looped⟩ :=
    @splitEbpfBodyData_passed job tries buffer future done todo split arrived (buffer.length + 1) (by omega)
  have split_more : job.entry.records = (done ++ more) ++ rest := by rw [split, todo_eq, append_assoc]
  have unused := @unUsedLength_passed job tries _ _ split_more
  rw [splitRest, looped]
  refine ⟨_, rfl, ?_⟩
  cases rest with
  | nil =>
    obtain ⟨rfl, rfl⟩ := append_eq_nil_iff.mp awaited
    have is_over : (recordBytes []).length < ebpfTitleSize := by decide
    rw [append_nil] at split_more
    refine .inl ⟨rfl, ?_⟩
    simp only [unused, if_pos is_over, drop_nil]
    simp only [← split_more, ended, passed, heading]
  | cons record rest =>
    have missing := over_or_missing.resolve_left (cons_ne_nil _ _)
    refine .inr ⟨missing, done ++ more, record :: rest, left, split_more, awaited, ?_⟩
    have long := @EbpfRecord.title_lt_size record
    have not_over : ¬ (recordBytes (record :: rest)).length < ebpfTitleSize := by
      rw [recordBytes_cons_length]
      omega
    simp only [unused, if_neg not_over]

theorem appendProfilerHeader_heading : (job.heading tries).appendProfilerHeader = job.heading (tries + 1) := by
  rw [appendProfilerHeader, heading, heading, replicate_succ']

theorem splitHeader_heading (records : List UInt8) :
    (job.heading (tries + 1)).splitHeader (job.entry.ebpfHeader ++ records) = some (job.passed tries [], records) := by
  have header : (job.entry.ebpfHeader ++ records).take ebpfDataHeaderSize = job.entry.ebpfHeader :=
    take_left' job.entry.ebpfHeader_length
  have after : (job.entry.ebpfHeader ++ records).drop ebpfDataHeaderSize = records :=
    drop_left' job.entry.ebpfHeader_length
  have checked : ¬ (wordAt job.entry.ebpfHeader 0 8 ≠ ebpfHeaderMagic ∨
      wordAt job.entry.ebpfHeader 8 4 ≠ ebpfDataHeaderSize) := by
    simp [job.entry.ebpf_magic, job.entry.ebpf_headSize]
  simp only [splitHeader, header, after, if_neg checked]
  simp [passed, heading, resultOf, keptSegments, keptLength, recordBytes, clearEbpfSplitResult]

theorem addAndSplitEbpfData_short (short : buffer.length < ebpfDataHeaderSize) :
    (job.heading tries).addAndSplitEbpfData buffer = some (false, job.heading (tries + 1), buffer) := by
  have none_yet : (job.heading tries).splitEbpfHeader = none := rfl
  simp only [addAndSplitEbpfData, none_yet, if_neg (not_le.mpr short), appendProfilerHeader_heading]

theorem addAndSplitEbpfData_heading (arrived : buffer ++ future = job.entry.body)
    (long : ebpfDataHeaderSize ≤ buffer.length) :
    ∃ result, (job.heading tries).addAndSplitEbpfData buffer = some result ∧ job.Leaves tries future result := by
  obtain ⟨records, rfl, later⟩ := arrived_cons arrived (job.entry.ebpfHeader_length.trans_le long)
  obtain ⟨result, rest, leaves⟩ := @splitRest_passed job tries records future [] job.entry.records rfl later
  refine ⟨result, ?_, leaves⟩
  simp only [addAndSplitEbpfData, appendProfilerHeader_heading]
  rw [if_pos long, splitHeader_heading, Option.bind_some]
  exact rest

theorem addAndSplitEbpfData_passed (split : job.entry.records = done ++ todo)
    (arrived : buffer ++ future = recordBytes todo) :
    ∃ result, (job.passed tries done).addAndSplitEbpfData buffer = some result ∧ job.Leaves tries future result := by
  have header : (job.passed tries done).splitEbpfHeader = some job.entry.ebpfHeader := rfl
  obtain ⟨result, rest, leaves⟩ := @splitRest_passed job tries buffer future done todo split arrived
  refine ⟨result, ?_, leaves⟩
  simp only [addAndSplitEbpfData, header, rest]

/-- The feed while the section is taken, with the offset and the range set. -/
def opened (job : EbpfJob) (splitter : EbpfSplitter) (buffer : List UInt8) : EbpfFeed where
  packagesBuffer := buffer
  hasGotHeader := true
  profilerDataLength := headerLength job.entry.header
  profilerDataType := standaloneData
  standalonePluginName := ebpfPluginName
  processedDataLen := job.base + packetHeaderLength
  hasInitEbpfPublicData := true
  parsedEbpfOver := false
  splitter

def consumed (job : EbpfJob) (tries : Nat) : EbpfFeed :=
  { job.opened (job.ended tries) [] with
    profilerDataType := unknowType
    hasGotHeader := false
    parsedEbpfOver := true
    processedDataLen := job.base + packetHeaderLength + (headerLength job.entry.header - packetHeaderLength) }

/-- What the feed is when a number of bytes of the section has come and `tries` calls have found too little of the
header. -/
inductive Place (job : EbpfJob) (future : List UInt8) : Nat → Nat → EbpfFeed → Prop
  | waiting (buffer : List UInt8) (short : buffer.length < packetHeaderLength)
      (arrived : buffer ++ future = job.entry.bytes) :
      Place job future buffer.length 0 { job.start with packagesBuffer := buffer }
  | heading (tries : Nat) (buffer : List UInt8) (feed : EbpfFeed) (short : buffer.length < ebpfDataHeaderSize)
      (arrived : buffer ++ future = job.entry.body)
      (ready : feed.initEbpfPublicData job.minTime job.maxTime = job.opened (job.heading tries) buffer) :
      Place job future (packetHeaderLength + buffer.length) tries feed
  | splitting (received tries : Nat) (done todo : List EbpfRecord) (buffer : List UInt8)
      (behind : packetHeaderLength + ebpfDataHeaderSize ≤ received)
      (split : job.entry.records = done ++ todo) (arrived : buffer ++ future = recordBytes todo) (missing : future ≠ []) :
      Place job future received tries (job.opened (job.passed tries done) buffer)
  | consumed (received tries : Nat) (behind : packetHeaderLength + ebpfDataHeaderSize ≤ received) (whole : future = []) :
      Place job future received tries (job.consumed tries)

/-- A number of bytes that ends strictly inside the header of the ebpf data. -/
def InHeader (received : Nat) : Prop :=
  packetHeaderLength < received ∧ received < packetHeaderLength + ebpfDataHeaderSize

instance (received : Nat) : Decidable (InHeader received) := inferInstanceAs (Decidable (_ ∧ _))

theorem Leaves.place {result : Bool × EbpfSplitter × List UInt8} {received : Nat} {splitter : EbpfSplitter}
    (leaves : job.Leaves tries future result) (behind : packetHeaderLength + ebpfDataHeaderSize ≤ received) :
    job.Place future received tries ((job.opened splitter buffer).afterSplit result) := by
  rcases leaves with ⟨whole, rfl⟩ | ⟨missing, done, todo, left, split, arrived, rfl⟩
  · exact .consumed received tries behind whole
  · exact .splitting received tries done todo left behind split arrived missing

end EbpfJob

end SmartPerf.Split
