import SmartPerf.Framing.Reading

namespace SmartPerf.Framing

open Position

/-! What one call of the parser does with a chunk of a well-formed file. -/

/-- What a call of the parser leaves: it is stuck for want of bytes, or it returned
behind a standalone body without looking at what follows. -/
inductive CallEnds (future : List UInt8) (all : List Handed) (received : Nat) (ends : List Nat) :
    Bool × Scan → Prop where
  | stuck {ok : Bool} {scan : Scan} {position : Position} {start : Nat}
      (reading : Reading future all received ends scan position start)
      (kept : ok = false → scan.packagesBegin = 0)
      (short : position.Stuck scan.currentLength) :
      CallEnds future all received ends (ok, scan)
  | stopped {scan : Scan} {rest : List Section} {start : Nat} {later : List Nat}
      (split : ends = start :: later)
      (reading : Reading future all received later scan (.between rest) start) :
      CallEnds future all received ends (true, scan)

def Position.work (available : Nat) : Position → Nat
  | .segment .. => 2 * available + 3
  | _ => 2 * available + 1

section Calls

variable (future : List UInt8) (all : List Handed) (received : Nat)

def DataEnds (fuel : Nat) : Prop :=
  ∀ {ends scan position start}, Reading future all received ends scan position start →
    scan.packagesBegin = 0 → position.work scan.currentLength < fuel →
    ∃ result, parseDataRecursively fuel scan = some result ∧ CallEnds future all received ends result

def SegmentsEnd (fuel : Nat) : Prop :=
  ∀ {ends scan first more rest start},
    (Reading future all received ends scan (.segments first more rest) start → 2 * scan.currentLength < fuel →
      ∃ result, parseSegments fuel scan = some result ∧ CallEnds future all received ends result) ∧
    (Reading future all received ends scan (.segment first more rest) start → 2 * scan.currentLength + 2 < fuel →
      ∃ result, parseSegments fuel scan = some result ∧ CallEnds future all received ends result)

variable {future all received} {fuel start : Nat} {ends : List Nat} {scan : Scan} {first : List UInt8}
  {more : List (List UInt8)} {rest : List Section}

theorem after_segment (dataEnds : DataEnds future all received fuel)
    (segmentsEnd : SegmentsEnd future all received fuel)
    (reading : Reading future all received ends scan (.segment first more rest) start)
    (enough : first.length ≤ scan.currentLength) (fueled : 2 * scan.currentLength + 1 < fuel) :
    ∃ result, (if (handSegment scan).parser.pbreaderCurentLength = 0
        then parseDataRecursively fuel (finishSection (handSegment scan))
        else parseSegments fuel (handSegment scan)) = some result ∧ CallEnds future all received ends result := by
  cases more with
  | nil =>
    obtain ⟨complete, length, next⟩ := reading.hand_last enough
    rw [if_pos complete]
    exact dataEnds next rfl (by simp only [work]; omega)
  | cons second more =>
    obtain ⟨incomplete, length, next⟩ := reading.hand_next enough
    rw [if_neg incomplete]
    exact segmentsEnd.1 next (by omega)

theorem segmentsEnd_succ (dataEnds : DataEnds future all received fuel)
    (segmentsEnd : SegmentsEnd future all received fuel) : SegmentsEnd future all received (fuel + 1) := by
  intro ends scan first more rest start
  constructor
  · intro reading fueled
    by_cases short : scan.currentLength < packetSegLength
    · simp only [parseSegments, reading.segLength_missing short]
      exact ⟨_, rfl, .stuck reading (fun impossible => by cases impossible) short⟩
    · obtain ⟨read, next⟩ := reading.segLength_there (Nat.not_lt.mp short)
      simp only [parseSegments, read]
      by_cases enough : first.length ≤ scan.currentLength - packetSegLength
      · simp only [enough]
        refine after_segment dataEnds segmentsEnd next enough ?_
        simp only [Scan.afterSegLength, packetSegLength] at short ⊢
        omega
      · simp only [enough]
        exact ⟨_, rfl, .stuck next (fun impossible => by cases impossible) (Nat.not_le.mp enough)⟩
  · intro reading fueled
    simp only [parseSegments, reading.segment_awaited]
    by_cases enough : first.length ≤ scan.currentLength
    · simp only [enough]
      exact after_segment dataEnds segmentsEnd reading enough (by omega)
    · simp only [enough]
      exact ⟨_, rfl, .stuck reading (fun impossible => by cases impossible) (Nat.not_le.mp enough)⟩

theorem segments_branch (gotHeader : scan.parser.hasGotHeader = true)
    (announced : (Body.segments first more).Announced scan.parser.profilerDataType
      scan.parser.standalonePluginName) : parseDataRecursively (fuel + 1) scan = parseSegments fuel scan := by
  simp [parseDataRecursively, getHeaderAndUpdateLengthMark, gotHeader, if_neg announced.1, if_neg announced.2]

theorem dataEnds_inside (segmentsEnd : SegmentsEnd future all received fuel) {position : Position}
    (reading : Reading future all received ends scan position start) (atStart : scan.packagesBegin = 0)
    (gotHeader : scan.parser.hasGotHeader = true) (fueled : position.work scan.currentLength < fuel + 1) :
    ∃ result, parseDataRecursively (fuel + 1) scan = some result ∧ CallEnds future all received ends result := by
  cases position with
  | between rest => simp [reading.marks.1] at gotHeader
  | standalone ebpf bytes rest =>
    rw [reading.standalone_branch]
    by_cases enough : bytes.length ≤ scan.currentLength
    · obtain ⟨read, next⟩ := reading.standalone_there atStart enough
      rw [read]
      exact ⟨_, rfl, .stopped reading.standalones.symm next⟩
    · rw [reading.standalone_missing atStart (Nat.not_le.mp enough)]
      exact ⟨_, rfl, .stuck reading (fun _ => atStart) (Nat.not_le.mp enough)⟩
  | segments first more rest =>
    obtain ⟨_, _, _, _, _, announced⟩ := reading.marks
    rw [segments_branch gotHeader announced]
    exact segmentsEnd.1 reading (by simp only [work] at fueled; omega)
  | segment first more rest =>
    obtain ⟨_, _, _, _, _, _, announced⟩ := reading.marks
    rw [segments_branch gotHeader announced]
    exact segmentsEnd.2 reading (by simp only [work] at fueled; omega)

theorem dataEnds_succ (segmentsEnd : SegmentsEnd future all received fuel) :
    DataEnds future all received (fuel + 1) := by
  intro ends scan position start reading atStart fueled
  by_cases gotHeader : scan.parser.hasGotHeader = true
  · exact dataEnds_inside segmentsEnd reading atStart gotHeader fueled
  cases position with
  | standalone ebpf bytes rest => exact absurd reading.marks.1 gotHeader
  | segments first more rest => exact absurd reading.marks.1 gotHeader
  | segment first more rest => exact absurd reading.marks.1 gotHeader
  | between sections =>
    by_cases short : scan.currentLength < packetHeaderLength
    · simp only [parseDataRecursively, reading.header_missing atStart short]
      exact ⟨_, rfl, .stuck reading (fun _ => atStart) short⟩
    cases sections with
    | nil => exact absurd (by rw [reading.finished]; decide) short
    | cons entry rest =>
      obtain ⟨read, next⟩ := reading.header atStart (Nat.not_lt.mp short)
      by_cases drained : scan.currentLength - packetHeaderLength = 0
      · -- the call returns behind the header, and the body is not empty
        have stuck : (ofBody rest entry.body).Stuck (scan.afterHeader entry.header).currentLength := by
          simp only [Scan.afterHeader, drained]
          have sized := entry.sized
          cases shape : entry.body with
          | segments first more => exact Nat.zero_lt_succ _
          | standalone ebpf bytes =>
            rw [shape] at sized
            exact List.length_pos_iff.mpr sized
        simp only [parseDataRecursively, read, drained]
        exact ⟨_, rfl, .stuck next (fun _ => atStart) stuck⟩
      · -- the rest of the call is a call that has the header already
        have again : parseDataRecursively (fuel + 1) scan =
            parseDataRecursively (fuel + 1) (scan.afterHeader entry.header) := by
          have here : (scan.currentLength - packetHeaderLength != 0) = true := by simpa using drained
          have got : getHeaderAndUpdateLengthMark (scan.afterHeader entry.header) =
              (true, scan.afterHeader entry.header) := rfl
          simp only [parseDataRecursively, read, here, got]
        rw [again]
        refine dataEnds_inside segmentsEnd next atStart rfl ?_
        simp only [work, Scan.afterHeader] at fueled short ⊢
        cases entry.body <;> simp only [ofBody] <;> omega

theorem dataEnds_and_segmentsEnd (fuel : Nat) :
    DataEnds future all received fuel ∧ SegmentsEnd future all received fuel := by
  induction fuel with
  | zero =>
    constructor
    · intro ends scan position start reading atStart fueled
      exact absurd fueled (Nat.not_lt_zero _)
    · exact ⟨fun reading fueled => absurd fueled (Nat.not_lt_zero _),
        fun reading fueled => absurd fueled (Nat.not_lt_zero _)⟩
  | succ fuel ih => exact ⟨dataEnds_succ ih.2, segmentsEnd_succ ih.1 ih.2⟩

end Calls

def Resting (future : List UInt8) (all : List Handed) (received : Nat) (ends : List Nat)
    (parser : PbreaderParser) (position : Position) (start : Nat) : Prop :=
  Reading future all received ends ⟨parser, 0, parser.packagesBuffer.length⟩ position start

section Resting

variable {future chunk : List UInt8} {all : List Handed} {received start : Nat} {ends : List Nat}
  {parser : PbreaderParser} {position : Position} {scan : Scan}

theorem Reading.rest (reading : Reading future all received ends scan position start) :
    Resting future all received ends
      { scan.parser with packagesBuffer := scan.parser.packagesBuffer.drop scan.packagesBegin } position start := by
  have arrived := reading.arrived
  rw [reading.length] at arrived
  refine ⟨?_, reading.unread, rfl, reading.items, arrived, reading.standalones⟩
  have marks := reading.marks
  cases position <;> exact marks

section
variable (resting : Resting (chunk ++ future) all received ends parser position start)
include resting

theorem Resting.receive : Reading future all (received + chunk.length) ends
    ⟨{ parser with packagesBuffer := parser.packagesBuffer ++ chunk }, 0, (parser.packagesBuffer ++ chunk).length⟩ position
    start := by
  have arrived := resting.arrived
  have unread := resting.unread
  refine ⟨?_, ?_, rfl, resting.items, ?_, resting.standalones⟩
  · have marks := resting.marks
    cases position <;> exact marks
  · simpa only [List.drop_zero, List.append_assoc] using unread
  · simp only [List.length_append] at arrived ⊢
    omega

theorem Resting.parseTraceDataSegment : ∃ after, parseTraceDataSegment parser chunk = some after ∧
      ((∃ position start, Resting future all (received + chunk.length) ends after position start ∧
          position.Stuck after.packagesBuffer.length) ∨ ∃ rest finish later, ends = finish :: later ∧
          Resting future all (received + chunk.length) later after (.between rest) finish) := by
  have reading := resting.receive
  obtain ⟨result, parsed, ended⟩ :=
    (dataEnds_and_segmentsEnd (2 * (parser.packagesBuffer ++ chunk).length + 4)).1 reading rfl
      (by cases position <;> simp only [work] <;> omega)
  simp only [Framing.parseTraceDataSegment, parsed]
  cases ended with
  | @stuck ok scan position start reading kept short =>
    rw [reading.length] at short
    cases ok with
    | true => exact ⟨_, rfl, .inl ⟨position, start, reading.rest, short⟩⟩
    | false =>
      have resting := reading.rest
      rw [kept rfl, List.drop_zero] at resting short
      exact ⟨_, rfl, .inl ⟨position, start, resting, short⟩⟩
  | stopped split reading => exact ⟨_, rfl, .inr ⟨_, _, _, split, reading.rest⟩⟩

end

theorem Resting.complete_iff (resting : Resting [] all received ends parser position start) :
    (parser.handed = all ∧ parser.packagesBuffer = []) ↔ position = .between [] := by
  have items := resting.items
  have unread := resting.unread
  simp only [List.append_nil] at items unread
  constructor
  · intro complete
    apply items_eq_nil_iff.mp
    rw [complete.1] at items
    exact List.append_right_eq_self.mp items
  · intro atEnd
    subst atEnd
    exact ⟨by simpa [Position.items, fileItems] using items, unread⟩

end Resting

end SmartPerf.Framing
