import SmartPerf.Proto.Scan

namespace SmartPerf.Proto

open SmartPerf.Data List

/-! The wire format and the reader's view of one encoded field. -/

inductive WireValue where
  | varint (value : UInt64)
  | fixed32 (value : UInt32)
  | fixed64 (value : UInt64)
  | lengthDelimited (payload : List UInt8) (bounded : payload.length ≤ kMaxMessageLength)

def WireValue.wireType : WireValue → ProtoWireType
  | .varint _ => .kVarInt
  | .fixed32 _ => .kFixed32
  | .fixed64 _ => .kFixed64
  | .lengthDelimited _ _ => .kLengthDelimited

def WireValue.encode : WireValue → List UInt8
  | .varint value => base128 9 value.toNat
  | .fixed32 value => littleEndian 4 value.toNat
  | .fixed64 value => littleEndian 8 value.toNat
  | .lengthDelimited payload _ => base128 9 payload.length ++ payload

/-- A field with an id that the reader keeps. -/
structure Field where
  id : Nat
  value : WireValue
  positive : 1 ≤ id
  small : id ≤ uint16Max

variable (field : Field) (value : WireValue) (rest : List UInt8)

def Field.tag : Nat := field.id * 8 + field.value.wireType.code

def Field.encode : List UInt8 :=
  base128 9 field.tag ++ field.value.encode

def encodeFields (fields : List Field) : List UInt8 := fields.flatMap Field.encode

/-- What a data area says about a buffer, compared with the field it was read from. -/
def DataArea.Denotes (buffer : Buffer) (area : DataArea) (field : Field) : Prop :=
  area.dataAreaId = field.id ∧ area.type = field.value.wireType.code ∧
    match field.value with
    | .varint value => area.intValue = value.toNat
    | .fixed32 value => area.intValue = value.toNat
    | .fixed64 value => area.intValue = value.toNat
    | .lengthDelimited payload _ =>
      area.size = payload.length ∧ buffer.startAddr ≤ area.intValue ∧
        (buffer.bytes.drop (area.intValue - buffer.startAddr)).take area.size = payload

theorem drop_add_of_drop {bytes front rest : List UInt8} {address : Nat}
    (split : bytes.drop address = front ++ rest) : bytes.drop (address + front.length) = rest := by
  rw [← drop_drop, split, drop_left]

/-- The area that the reader stores for a field whose value starts at `cursor`. -/
def Field.areaAt (buffer : Buffer) (field : Field) (cursor : Nat) : DataArea where
  intValue :=
    match field.value with
    | .varint value => value.toNat
    | .fixed32 value => value.toNat
    | .fixed64 value => value.toNat
    | .lengthDelimited payload _ => buffer.startAddr + (cursor + (base128 9 payload.length).length)
  size :=
    match field.value with
    | .lengthDelimited payload _ => payload.length
    | _ => 0
  dataAreaId := field.id
  type := field.value.wireType.code

theorem WireValue.encode_length_pos : 0 < value.encode.length := by
  cases value with
  | varint value => exact base128_length_pos 9 _
  | fixed32 value => simp [WireValue.encode]
  | fixed64 value => simp [WireValue.encode]
  | lengthDelimited payload bounded =>
    have prefixed := base128_length_pos 9 payload.length
    simp only [WireValue.encode, length_append]
    omega

def WireValue.number : WireValue → Nat
  | .varint value => value.toNat
  | .fixed32 value => value.toNat
  | .fixed64 value => value.toNat
  | .lengthDelimited _ _ => 0

def WireValue.payload : WireValue → List UInt8
  | .lengthDelimited payload _ => payload
  | _ => []

theorem readFixed_littleEndian {width value : Nat} (small : value < 256 ^ width) (rest : List UInt8) :
    readFixed width (littleEndian width value ++ rest) = some (value, [], rest) := by
  have length := littleEndian_length width value
  rw [readFixed, if_pos (by simp), take_left' length, drop_left' length, ofLittleEndian_littleEndian width value small]

theorem readValue_encode :
    readValue value.wireType.code (value.encode ++ rest) = some (value.number, value.payload, rest) := by
  cases value with
  | varint value =>
    have word := value.toNat_lt
    have read := readBase128_base128 9 value.toNat rest (word.trans (by decide))
    simp [WireValue.wireType, readValue, WireValue.encode, read, WireValue.number, WireValue.payload]
  | fixed32 value =>
    have small : value.toNat < 256 ^ 4 := value.toNat_lt.trans_le (by decide)
    exact readFixed_littleEndian small rest
  | fixed64 value =>
    have small : value.toNat < 256 ^ 8 := value.toNat_lt.trans_le (by decide)
    exact readFixed_littleEndian small rest
  | lengthDelimited payload bounded =>
    have word : payload.length < 2 ^ 64 := bounded.trans_lt (by decide)
    have read := readBase128_base128 9 payload.length (payload ++ rest) (word.trans (by decide))
    have other : ¬ ProtoWireType.kLengthDelimited.code = ProtoWireType.kVarInt.code := by decide
    simp only [WireValue.wireType, readValue, if_neg other, if_true, WireValue.encode, append_assoc, read,
      Option.bind_some, Nat.mod_eq_of_lt word, take_left, drop_left]
    exact if_pos (by simp)

theorem WireValue.payload_bounded : ¬ value.payload.length > kMaxMessageLength := by
  cases value with
  | lengthDelimited payload bounded => exact Nat.not_lt.mpr bounded
  | _ => exact Nat.not_lt_zero _

theorem readField_encoded {id : Nat} (positive : 1 ≤ id) (word : id < 2 ^ 32) :
    readField (base128 9 (id * 8 + value.wireType.code) ++ (value.encode ++ rest)) =
      if id > uint16Max then .ignored (value.encode ++ rest)
      else .complete ⟨id, value.wireType.code, value.number, value.payload⟩ rest := by
  have code : value.wireType.code < 8 := by cases value.wireType <;> decide
  have read := readBase128_base128 9 (id * 8 + value.wireType.code) (value.encode ++ rest)
    (Nat.lt_trans (show _ < 2 ^ 64 by omega) (by decide))
  have idEq : (id * 8 + value.wireType.code) / 8 % 2 ^ 32 = id := by omega
  have typeEq : (id * 8 + value.wireType.code) % 8 = value.wireType.code := by omega
  have valueLength := value.encode_length_pos
  have more : ¬ (value.encode ++ rest = [] ∨ id = 0) := by
    rintro (empty | zero)
    · have length := congrArg List.length empty
      simp only [length_append, length_nil] at length
      omega
    · omega
  simp only [readField, read, idEq, typeEq, if_neg more, readValue_encode, if_neg value.payload_bounded]

theorem parseOneDataArea_encoded {buffer : Buffer} {rest : List UInt8} {start : Nat}
    (front : buffer.bytes.drop start = field.encode ++ rest) :
    parseOneDataArea buffer start =
      .ok ⟨.ok, start + field.encode.length, field.areaAt buffer (start + (base128 9 field.tag).length)⟩ := by
  obtain ⟨result, parsed, gives⟩ := parseOneDataArea_spec buffer start
  have small := field.small
  have read := readField_encoded field.value rest field.positive (show field.id < 2 ^ 32 by
    rw [uint16Max] at small
    omega)
  rw [if_neg (by omega), ← append_assoc] at read
  rw [front] at gives
  have given := read ▸ gives
  have prefixed := base128_length_pos 9 field.tag
  have lengths := length_of_drop front (by
    rw [Field.encode, length_append]
    omega)
  have whole : field.encode.length = (base128 9 field.tag).length + field.value.encode.length :=
    length_append
  rw [parsed, given]
  congr 2
  · omega
  · obtain ⟨id, value, positive, small⟩ := field
    cases value with
    | varint value => rfl
    | fixed32 value => rfl
    | fixed64 value => rfl
    | lengthDelimited payload bounded =>
      simp only [WireValue.encode, length_append] at whole
      simp only [ReadField.area, WireValue.payload, WireValue.wireType, if_true]
      congr 2
      omega

theorem Field.areaAt_denotes {buffer : Buffer} {rest : List UInt8} {cursor : Nat}
    (front : buffer.bytes.drop cursor = field.value.encode ++ rest) :
    (field.areaAt buffer cursor).Denotes buffer field := by
  refine ⟨rfl, rfl, ?_⟩
  obtain ⟨id, value, positive, small⟩ := field
  cases value with
  | varint value => rfl
  | fixed32 value => rfl
  | fixed64 value => rfl
  | lengthDelimited payload bounded =>
    simp only [WireValue.encode, append_assoc] at front
    refine ⟨rfl, Nat.le_add_right _ _, ?_⟩
    simp only [Field.areaAt, Nat.add_sub_cancel_left]
    rw [drop_add_of_drop front]
    exact take_left

end SmartPerf.Proto
