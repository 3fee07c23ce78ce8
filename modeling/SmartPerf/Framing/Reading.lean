import SmartPerf.Framing.TraceFile

namespace SmartPerf.Framing

open Data List Scan

/-! The steps of a call on a buffer that holds a part of a well-formed file. -/

theorem take_drop_of_append {window future front tail : List UInt8} (joined : window ++ future = front ++ tail)
    (enough : front.length ≤ window.length) :
    window.take front.length = front ∧ window.drop front.length ++ future = tail := by
  have front_eq := congrArg (List.take front.length) joined
  have tail_eq := congrArg (List.drop front.length) joined
  rw [take_append_of_le_length enough, take_left] at front_eq
  rw [drop_append_of_le_length enough, drop_left] at tail_eq
  exact ⟨front_eq, tail_eq⟩

def PbreaderParser.At (parser : PbreaderParser) : Position → Prop
  | .between _ => parser.hasGotHeader = false ∧ parser.hasGotSegLength = false
  | .standalone ebpf bytes _ =>
    parser.hasGotHeader = true ∧ parser.hasGotSegLength = false ∧ bytes ≠ [] ∧
      parser.profilerDataLength = packetHeaderLength + bytes.length ∧
      (Body.standalone ebpf bytes).Announced parser.profilerDataType parser.standalonePluginName
  | .segments first more _ =>
    parser.hasGotHeader = true ∧ parser.hasGotSegLength = false ∧
      parser.pbreaderCurentLength = (encodeSegments (first :: more)).length ∧
      parser.pbreaderCurentLength < 2 ^ 64 ∧ (Body.segments first more).Sized ∧
      (Body.segments first more).Announced parser.profilerDataType parser.standalonePluginName
  | .segment first more _ =>
    parser.hasGotHeader = true ∧ parser.hasGotSegLength = true ∧ parser.nextLength = first.length ∧
      parser.pbreaderCurentLength = first.length + (encodeSegments more).length ∧
      parser.pbreaderCurentLength < 2 ^ 64 ∧ (Body.segments first more).Sized ∧
      (Body.segments first more).Announced parser.profilerDataType parser.standalonePluginName

/-- The scan stands at `position`, which is at `start` in the file.  What was handed on
and what is to come make up `all`, `received` bytes have arrived, `future` is to arrive,
and the standalone sections to come end at `ends`. -/
structure Reading (future : List UInt8) (all : List Handed) (received : Nat) (ends : List Nat)
    (scan : Scan) (position : Position) (start : Nat) : Prop where
  marks : scan.parser.At position
  unread : scan.parser.packagesBuffer.drop scan.packagesBegin ++ future = position.bytes
  length : scan.currentLength = (scan.parser.packagesBuffer.drop scan.packagesBegin).length
  items : scan.parser.handed ++ position.items = all
  arrived : start + scan.currentLength = received
  standalones : position.ends start = ends

def Scan.afterHeader (header : List UInt8) (scan : Scan) : Scan := { scan with
  parser := { scan.parser with
    profilerDataLength := headerLength header
    profilerDataType := headerDataType header
    standalonePluginName := headerPluginName header
    packagesBuffer := scan.parser.packagesBuffer.drop packetHeaderLength
    pbreaderCurentLength := headerLength header - packetHeaderLength
    hasGotHeader := true }
  currentLength := scan.currentLength - packetHeaderLength }

def Scan.afterStandalone (item : Handed) (size : Nat) (scan : Scan) : Scan where
  parser := { scan.parser with
    handed := scan.parser.handed ++ [item]
    profilerDataType := unknowType
    hasGotHeader := false }
  packagesBegin := scan.packagesBegin + size
  currentLength := scan.currentLength - size

def Scan.afterSegLength (nextLength : Nat) (scan : Scan) : Scan where
  parser := { scan.parser with
    nextLength
    hasGotSegLength := true
    pbreaderCurentLength := subUint64 scan.parser.pbreaderCurentLength packetSegLength }
  packagesBegin := scan.packagesBegin + packetSegLength
  currentLength := scan.currentLength - packetSegLength

namespace Reading

variable {future : List UInt8} {all : List Handed} {received start : Nat} {ends : List Nat} {scan : Scan}
  {entry : Section} {rest : List Section} {ebpf : Bool} {bytes first : List UInt8} {more : List (List UInt8)}
  {position : Position}

theorem buffer_length (reading : Reading future all received ends scan position start)
    (atStart : scan.packagesBegin = 0) : scan.parser.packagesBuffer.length = scan.currentLength := by
  rw [reading.length, atStart, drop_zero]

theorem header (reading : Reading future all received ends scan (.between (entry :: rest)) start)
    (atStart : scan.packagesBegin = 0) (enough : packetHeaderLength ≤ scan.currentLength) :
    getHeaderAndUpdateLengthMark scan =
        (scan.currentLength - packetHeaderLength != 0, scan.afterHeader entry.header) ∧
      Reading future all received ends (scan.afterHeader entry.header) (.ofBody rest entry.body)
        (start + packetHeaderLength) := by
  have bufferLength := reading.buffer_length atStart
  have unread := reading.unread
  simp only [atStart, drop_zero, Position.bytes, fileBytes, flatMap_cons, Section.bytes, append_assoc] at unread
  obtain ⟨taken, dropped⟩ := take_drop_of_append unread (by rw [entry.header_length]; omega)
  rw [entry.header_length] at taken dropped
  have totalLength := entry.total_length
  have bodyPos := entry.body_pos
  have accepted : ¬ (headerLength entry.header ≤ packetHeaderLength ∨ headerMagicOf entry.header ≠ headerMagic) := by
    rw [not_or]
    exact ⟨by omega, not_not.mpr entry.magic⟩
  obtain ⟨noHeader, noSegLength⟩ := reading.marks
  have read : getHeaderAndUpdateLengthMark scan =
      (scan.currentLength - packetHeaderLength != 0, scan.afterHeader entry.header) := by
    simp [getHeaderAndUpdateLengthMark, noHeader, initProfilerTraceFileHeader, taken, if_neg accepted, if_neg (show ¬ scan.parser.packagesBuffer.length < packetHeaderLength by omega), afterHeader]
  refine ⟨read, ?_⟩
  have smallLength : headerLength entry.header < 2 ^ 64 := by
    have bound := ofLittleEndian_lt ((entry.header.drop 8).take 8)
    have width : ((entry.header.drop 8).take 8).length = 8 := by
      simp [entry.header_length, packetHeaderLength]
    rw [width] at bound
    exact bound
  have announced := entry.announced
  have sized := entry.sized
  constructor
  · cases shape : entry.body with
    | segments first more =>
      rw [shape] at announced sized totalLength
      exact ⟨rfl, noSegLength, by simp only [afterHeader, totalLength, Nat.add_sub_cancel_left, Body.bytes],
        show headerLength entry.header - packetHeaderLength < 2 ^ 64 by omega, sized, announced⟩
    | standalone ebpf bytes =>
      rw [shape] at announced sized totalLength
      exact ⟨rfl, noSegLength, sized, totalLength, announced⟩
  · simp only [afterHeader, atStart, entry.ofBody_bytes]
    exact dropped
  · simp [afterHeader, atStart, bufferLength]
  · rw [entry.ofBody_items]
    exact reading.items
  · have arrived := reading.arrived
    simp only [afterHeader]
    omega
  · rw [entry.ofBody_ends]
    exact reading.standalones

theorem header_missing (reading : Reading future all received ends scan (.between rest) start)
    (atStart : scan.packagesBegin = 0) (short : scan.currentLength < packetHeaderLength) :
    getHeaderAndUpdateLengthMark scan = (false, scan) := by
  have bufferLength := reading.buffer_length atStart
  simp only [getHeaderAndUpdateLengthMark, reading.marks.1, initProfilerTraceFileHeader,
    if_pos (show scan.parser.packagesBuffer.length < packetHeaderLength by omega)]
  rfl

theorem finished (reading : Reading future all received ends scan (.between []) start) : scan.currentLength = 0 := by
  have none := reading.unread
  simp only [Position.bytes, fileBytes, flatMap_nil, append_eq_nil_iff] at none
  rw [reading.length, none.1]
  rfl

section

variable (reading : Reading future all received ends scan (.standalone ebpf bytes rest) start)
include reading

theorem standalone_branch (fuel : Nat) :
    parseDataRecursively (fuel + 1) scan = some (parseStandalone (handStandalone ebpf) scan) := by
  obtain ⟨gotHeader, _, _, _, announced⟩ := reading.marks
  cases ebpf with
  | false =>
    simp only [Body.Announced] at announced
    simp only [parseDataRecursively, getHeaderAndUpdateLengthMark, gotHeader, if_true, announced]
    rfl
  | true =>
    simp only [Body.Announced] at announced
    simp only [parseDataRecursively, getHeaderAndUpdateLengthMark, gotHeader, if_true, announced]
    rfl

theorem standalone_there (atStart : scan.packagesBegin = 0) (enough : bytes.length ≤ scan.currentLength) :
    parseStandalone (handStandalone ebpf) scan =
        (true, scan.afterStandalone (handStandalone ebpf bytes) bytes.length) ∧
      Reading future all received (standaloneEnds (start + bytes.length) rest)
        (scan.afterStandalone (handStandalone ebpf bytes) bytes.length) (.between rest) (start + bytes.length) := by
  obtain ⟨_, noSegLength, _, totalLength, _⟩ := reading.marks
  have bufferLength := reading.buffer_length atStart
  have size : scan.parser.profilerDataLength - packetHeaderLength = bytes.length := by omega
  have unread := reading.unread
  simp only [atStart, drop_zero] at unread
  obtain ⟨taken, dropped⟩ := take_drop_of_append unread (by omega)
  have read : parseStandalone (handStandalone ebpf) scan =
      (true, scan.afterStandalone (handStandalone ebpf bytes) bytes.length) := by
    simp only [parseStandalone, size, taken,
      if_pos (show bytes.length ≤ scan.parser.packagesBuffer.length by omega), afterStandalone]
  refine ⟨read, ?_⟩
  constructor
  · exact ⟨rfl, noSegLength⟩
  · simpa only [afterStandalone, atStart, Nat.zero_add, Position.bytes] using dropped
  · simp [afterStandalone, atStart, bufferLength]
  · simpa only [afterStandalone, append_assoc, singleton_append, Position.items] using reading.items
  · have arrived := reading.arrived
    simp only [afterStandalone]
    omega
  · rfl

theorem standalone_missing (atStart : scan.packagesBegin = 0) (short : scan.currentLength < bytes.length) :
    parseStandalone (handStandalone ebpf) scan = (false, scan) := by
  obtain ⟨_, _, _, totalLength, _⟩ := reading.marks
  have bufferLength := reading.buffer_length atStart
  simp [parseStandalone, totalLength, if_neg (show ¬ bytes.length ≤ scan.parser.packagesBuffer.length by omega)]

end

theorem segment_awaited (reading : Reading future all received ends scan (.segment first more rest) start) :
    parseSegLengthAndEnsureSegDataEnough scan = (decide (first.length ≤ scan.currentLength), scan) := by
  obtain ⟨_, gotSegLength, nextLength, _⟩ := reading.marks
  simp only [parseSegLengthAndEnsureSegDataEnough, gotSegLength, if_true, nextLength]

section
variable (reading : Reading future all received ends scan (.segments first more rest) start)
include reading

theorem segLength_missing (short : scan.currentLength < packetSegLength) :
    parseSegLengthAndEnsureSegDataEnough scan = (false, scan) := by
  obtain ⟨_, noSegLength, _⟩ := reading.marks
  simp only [parseSegLengthAndEnsureSegDataEnough, noSegLength, if_pos short]
  rfl

theorem segLength_there (enough : packetSegLength ≤ scan.currentLength) : parseSegLengthAndEnsureSegDataEnough scan =
        (decide (first.length ≤ scan.currentLength - packetSegLength), scan.afterSegLength first.length) ∧
      Reading future all received ends (scan.afterSegLength first.length) (.segment first more rest)
        (start + packetSegLength) := by
  obtain ⟨gotHeader, noSegLength, remaining, small, sized, announced⟩ := reading.marks
  have unread := reading.unread
  simp only [Position.bytes, encodeSegments_cons, append_assoc] at unread
  obtain ⟨taken, dropped⟩ := take_drop_of_append unread (by simpa [← reading.length] using enough)
  simp only [littleEndian_length, drop_drop] at taken dropped
  have firstSmall : first.length < 256 ^ packetSegLength := sized first (mem_cons_self ..)
  have remaining' := remaining
  rw [encodeSegments_length_cons] at remaining'
  have read : parseSegLengthAndEnsureSegDataEnough scan =
      (decide (first.length ≤ scan.currentLength - packetSegLength), scan.afterSegLength first.length) := by
    simp [parseSegLengthAndEnsureSegDataEnough, noSegLength, taken, ofLittleEndian_littleEndian _ _ firstSmall, if_neg (Nat.not_lt.mpr enough), afterSegLength]
  refine ⟨read, ?_⟩
  have lower : subUint64 scan.parser.pbreaderCurentLength packetSegLength =
      first.length + (encodeSegments more).length := by
    rw [subUint64_of_le (by omega) small]
    omega
  constructor
  · exact ⟨gotHeader, rfl, rfl, lower, show subUint64 _ _ < 2 ^ 64 by omega, sized, announced⟩
  · simpa only [afterSegLength, Position.bytes, append_assoc] using dropped
  · have length := reading.length
    simp only [afterSegLength, length_drop] at length ⊢
    omega
  · exact reading.items
  · have arrived := reading.arrived
    simp only [afterSegLength]
    omega
  · simpa only [Position.ends, encodeSegments_length_cons, Nat.add_assoc] using reading.standalones

end

theorem hand_last (reading : Reading future all received ends scan (.segment first [] rest) start)
    (enough : first.length ≤ scan.currentLength) :
    (handSegment scan).parser.pbreaderCurentLength = 0 ∧
      (finishSection (handSegment scan)).currentLength = scan.currentLength - first.length ∧
      Reading future all received ends (finishSection (handSegment scan)) (.between rest) (start + first.length) := by
  obtain ⟨_, _, nextLength, remaining, small, _, _⟩ := reading.marks
  have unread := reading.unread
  simp only [Position.bytes, encodeSegments, flatMap_nil, append_nil] at unread
  obtain ⟨taken, dropped⟩ := take_drop_of_append unread (by simpa [← reading.length] using enough)
  simp only [encodeSegments, flatMap_nil, length_nil] at remaining
  refine ⟨?_, by simp only [finishSection, handSegment, nextLength], ?_⟩
  · simp only [handSegment]
    rw [subUint64_of_le (by omega) small]
    omega
  constructor
  · exact ⟨rfl, rfl⟩
  · simpa only [finishSection, handSegment, nextLength, drop_drop, Nat.add_zero,
      Position.bytes] using dropped
  · have length := reading.length
    simp only [finishSection, handSegment, length_drop] at length ⊢
    omega
  · simpa only [finishSection, handSegment, nextLength, taken, append_assoc, Position.items, map_cons,
      map_nil] using reading.items
  · have arrived := reading.arrived
    simp only [finishSection, handSegment]
    omega
  · simpa only [Position.ends, encodeSegments, flatMap_nil, length_nil, Nat.add_zero] using reading.standalones

theorem hand_next {second : List UInt8}
    (reading : Reading future all received ends scan (.segment first (second :: more) rest) start)
    (enough : first.length ≤ scan.currentLength) :
    (handSegment scan).parser.pbreaderCurentLength ≠ 0 ∧
      (handSegment scan).currentLength = scan.currentLength - first.length ∧
      Reading future all received ends (handSegment scan) (.segments second more rest) (start + first.length) := by
  obtain ⟨gotHeader, _, nextLength, remaining, small, sized, announced⟩ := reading.marks
  have unread := reading.unread
  simp only [Position.bytes, append_assoc] at unread
  obtain ⟨taken, dropped⟩ := take_drop_of_append unread (by simpa [← reading.length] using enough)
  have lower : subUint64 scan.parser.pbreaderCurentLength scan.parser.nextLength =
      (encodeSegments (second :: more)).length := by
    rw [subUint64_of_le (by omega) small]
    omega
  refine ⟨?_, by simp only [handSegment, nextLength], ?_⟩
  · simp only [handSegment, lower]
    rw [Ne, encodeSegments_eq_nil]
    exact cons_ne_nil _ _
  constructor
  · exact ⟨gotHeader, rfl, lower, show subUint64 _ _ < 2 ^ 64 by omega,
      forall_mem_of_forall_mem_cons sized, announced⟩
  · simpa only [handSegment, nextLength, drop_drop, Position.bytes] using dropped
  · have length := reading.length
    simp only [handSegment, length_drop] at length ⊢
    omega
  · simpa only [handSegment, nextLength, taken, Position.items, map_cons, append_assoc,
      cons_append, nil_append] using reading.items
  · have arrived := reading.arrived
    simp only [handSegment]
    omega
  · exact reading.standalones

end Reading

end SmartPerf.Framing
