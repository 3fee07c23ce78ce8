import SmartPerf.Framing.PbreaderParser

namespace SmartPerf.Framing

open Data List

/-! Well-formed profiler files, and the places at which a reader of one can stand. -/

/-- A section holds segments, or one opaque body of perf or ebpf data. -/
inductive Body where
  | segments (first : List UInt8) (more : List (List UInt8))
  | standalone (ebpf : Bool) (bytes : List UInt8)
deriving Repr, DecidableEq

def encodeSegment (segment : List UInt8) : List UInt8 := littleEndian packetSegLength segment.length ++ segment

def encodeSegments (segments : List (List UInt8)) : List UInt8 := segments.flatMap encodeSegment

def handStandalone (ebpf : Bool) : List UInt8 → Handed := if ebpf then .ebpf else .hiperf

namespace Body

def bytes : Body → List UInt8
  | segments first more => encodeSegments (first :: more)
  | standalone _ bytes => bytes

def items : Body → List Handed
  | segments first more => (first :: more).map .segment
  | standalone ebpf bytes => [handStandalone ebpf bytes]

/-- The data type and the plugin name under which the parser takes the body as what
it is. -/
def Announced (dataType : Nat) (pluginName : List UInt8) : Body → Prop
  | segments .. => dataType ≠ hiperfData ∧ ¬ (dataType = standaloneData ∧ pluginName = ebpfPluginName)
  | standalone false _ => dataType = hiperfData
  | standalone true _ => dataType = standaloneData ∧ pluginName = ebpfPluginName

/-- Segments have lengths of 32 bits, and a standalone body is not empty. -/
def Sized : Body → Prop
  | segments first more => ∀ segment ∈ first :: more, segment.length < 2 ^ 32
  | standalone _ bytes => bytes ≠ []

end Body

/-- A section with a header that describes it. -/
structure Section where
  header : List UInt8
  body : Body
  header_length : header.length = packetHeaderLength
  magic : headerMagicOf header = headerMagic
  total_length : headerLength header = packetHeaderLength + body.bytes.length
  announced : body.Announced (headerDataType header) (headerPluginName header)
  sized : body.Sized

namespace Section

def bytes (entry : Section) : List UInt8 := entry.header ++ entry.body.bytes

def isStandalone (entry : Section) : Bool :=
  match entry.body with
  | .segments .. => false
  | .standalone .. => true

end Section

def fileBytes (sections : List Section) : List UInt8 := sections.flatMap Section.bytes

def fileItems (sections : List Section) : List Handed := sections.flatMap fun entry => entry.body.items

/-- Where the standalone sections end, in a file that starts at `start`. -/
def standaloneEnds (start : Nat) : List Section → List Nat
  | [] => []
  | entry :: rest =>
    let finish := start + entry.bytes.length
    if entry.isStandalone then finish :: standaloneEnds finish rest else standaloneEnds finish rest

/-- A place in a file: between sections, before a standalone body, before a length
prefix or behind one. -/
inductive Position where
  | between (rest : List Section)
  | standalone (ebpf : Bool) (bytes : List UInt8) (rest : List Section)
  | segments (first : List UInt8) (more : List (List UInt8)) (rest : List Section)
  | segment (first : List UInt8) (more : List (List UInt8)) (rest : List Section)

namespace Position

def bytes : Position → List UInt8
  | between rest => fileBytes rest
  | standalone _ bytes rest => bytes ++ fileBytes rest
  | segments first more rest => encodeSegments (first :: more) ++ fileBytes rest
  | segment first more rest => first ++ encodeSegments more ++ fileBytes rest

def items : Position → List Handed
  | between rest => fileItems rest
  | standalone ebpf bytes rest => handStandalone ebpf bytes :: fileItems rest
  | segments first more rest => (first :: more).map .segment ++ fileItems rest
  | segment first more rest => (first :: more).map .segment ++ fileItems rest

/-- Where the standalone sections to come end, if the place is at `start`. -/
def ends (start : Nat) : Position → List Nat
  | between rest => standaloneEnds start rest
  | standalone _ bytes rest => (start + bytes.length) :: standaloneEnds (start + bytes.length) rest
  | segments first more rest => standaloneEnds (start + (encodeSegments (first :: more)).length) rest
  | segment first more rest => standaloneEnds (start + first.length + (encodeSegments more).length) rest

def ofBody (rest : List Section) : Body → Position
  | .segments first more => segments first more rest
  | .standalone ebpf bytes => standalone ebpf bytes rest

def Stuck (available : Nat) : Position → Prop
  | between _ => available < packetHeaderLength
  | standalone _ bytes _ => available < bytes.length
  | segments .. => available < packetSegLength
  | segment first .. => available < first.length

end Position

variable (first : List UInt8)

variable (more : List (List UInt8))

theorem encodeSegments_cons :
    encodeSegments (first :: more) = littleEndian packetSegLength first.length ++ (first ++ encodeSegments more) := by
  simp [encodeSegments, encodeSegment]

theorem encodeSegments_length_cons :
    (encodeSegments (first :: more)).length = packetSegLength + first.length + (encodeSegments more).length := by
  rw [encodeSegments_cons]
  simp [Nat.add_assoc]

theorem encodeSegments_eq_nil {segments : List (List UInt8)} :
    (encodeSegments segments).length = 0 ↔ segments = [] := by
  cases segments with
  | nil => simp [encodeSegments]
  | cons first more => simp [encodeSegments_length_cons, packetSegLength]

namespace Section

variable (entry : Section) (rest : List Section)

theorem body_pos : 0 < entry.body.bytes.length := by
  have sized := entry.sized
  cases shape : entry.body with
  | segments first more => simp [Body.bytes, encodeSegments_length_cons, packetSegLength]
  | standalone ebpf bytes =>
    rw [shape] at sized
    exact length_pos_iff.mpr sized

theorem bytes_length : entry.bytes.length = packetHeaderLength + entry.body.bytes.length := by
  rw [bytes, length_append, entry.header_length]

theorem ofBody_bytes : (Position.ofBody rest entry.body).bytes = entry.body.bytes ++ fileBytes rest := by
  cases entry.body <;> rfl

theorem ofBody_items : (Position.ofBody rest entry.body).items = fileItems (entry :: rest) := by
  simp only [fileItems, flatMap_cons]
  cases entry.body <;> rfl

theorem ofBody_ends (start : Nat) :
    (Position.ofBody rest entry.body).ends (start + packetHeaderLength) = standaloneEnds start (entry :: rest) := by
  simp only [standaloneEnds, bytes_length, isStandalone, ← Nat.add_assoc]
  cases entry.body <;> rfl

end Section

namespace Position

variable {position : Position} {available start : Nat}

theorem standaloneEnds_beyond (start : Nat) (sections : List Section) :
    ∀ finish ∈ standaloneEnds start sections, start + packetHeaderLength ≤ finish := by
  induction sections generalizing start with
  | nil => simp [standaloneEnds]
  | cons entry rest ih =>
    intro finish member
    have later : ∀ finish ∈ standaloneEnds (start + entry.bytes.length) rest, start + packetHeaderLength ≤ finish := by
      intro finish member
      have bound := ih _ finish member
      omega
    simp only [standaloneEnds] at member
    split at member
    · rcases mem_cons.mp member with rfl | member
      · rw [entry.bytes_length]
        omega
      · exact later finish member
    · exact later finish member

theorem Stuck.ends_beyond (stuck : position.Stuck available) :
    ∀ finish ∈ position.ends start, start + available < finish := by
  intro finish member
  cases position with
  | between rest =>
    have bound := standaloneEnds_beyond start rest finish member
    simp only [Stuck] at stuck
    omega
  | standalone ebpf bytes rest =>
    simp only [Stuck] at stuck
    simp only [ends, mem_cons] at member
    rcases member with rfl | member
    · omega
    · have bound := standaloneEnds_beyond _ rest finish member
      omega
  | segments first more rest =>
    have bound := standaloneEnds_beyond _ rest finish member
    simp only [Stuck, encodeSegments_length_cons] at stuck bound
    omega
  | segment first more rest =>
    have bound := standaloneEnds_beyond _ rest finish member
    simp only [Stuck] at stuck
    omega

theorem Stuck.finished (stuck : position.Stuck position.bytes.length) : position = between [] := by
  cases position with
  | between rest =>
    cases rest with
    | nil => rfl
    | cons entry rest =>
      simp only [Stuck, bytes, fileBytes, flatMap_cons, length_append, entry.bytes_length] at stuck
      omega
  | standalone ebpf bytes rest =>
    simp only [Stuck, Position.bytes, length_append] at stuck
    omega
  | segments first more rest =>
    simp only [Stuck, bytes, length_append, encodeSegments_length_cons] at stuck
    omega
  | segment first more rest =>
    simp only [Stuck, bytes, length_append] at stuck
    omega

theorem items_eq_nil_iff : position.items = [] ↔ position = between [] := by
  constructor
  · intro none
    cases position with
    | between rest =>
      cases rest with
      | nil => rfl
      | cons entry rest =>
        simp only [items, fileItems] at none
        cases shape : entry.body <;> simp [shape, Body.items] at none
    | standalone ebpf bytes rest => cases none
    | segments first more rest => cases none
    | segment first more rest => cases none
  · rintro rfl
    rfl

end Position

end SmartPerf.Framing
