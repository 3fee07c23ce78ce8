import SmartPerf.Proto.Reader

namespace SmartPerf.Proto

open SmartPerf.Data List ProtoWireType

/-! What `ParseOneDataArea` makes of arbitrary bytes, read off what is left of the buffer. -/

/-- A field that is completely there. -/
structure ReadField where
  id : Nat
  type : Nat
  number : Nat
  payload : List UInt8
deriving Repr, DecidableEq

/-- The front of some bytes as the wire format has it.  Of a field whose value is cut off, or has
a type that does not exist, only the tag is known; a field with a large id or a long payload is
passed over. -/
inductive FieldReading where
  | nothing
  | incomplete (id type : Nat)
  | ignored (rest : List UInt8)
  | complete (field : ReadField) (rest : List UInt8)
deriving Repr, DecidableEq

def readFixed (width : Nat) (bytes : List UInt8) : Option (Nat × List UInt8 × List UInt8) :=
  if width ≤ bytes.length then some (ofLittleEndian (bytes.take width), [], bytes.drop width) else none

/-- The number or the payload of a value, and what follows it. -/
def readValue (type : Nat) (bytes : List UInt8) : Option (Nat × List UInt8 × List UInt8) :=
  if type = kVarInt.code then
    (readBase128 10 bytes).map fun read => (read.1 % 2 ^ 64, [], read.2)
  else if type = kLengthDelimited.code then
    (readBase128 10 bytes).bind fun read =>
      let length := read.1 % 2 ^ 64
      if length ≤ read.2.length then some (0, read.2.take length, read.2.drop length) else none
  else if type = kFixed32.code then readFixed 4 bytes
  else if type = kFixed64.code then readFixed 8 bytes
  else none

def readField (bytes : List UInt8) : FieldReading :=
  match readBase128 10 bytes with
  | none => .nothing
  | some (tag, rest) =>
    let id := tag / 8 % 2 ^ 32
    if rest = [] ∨ id = 0 then .nothing
    else if id > uint16Max then .ignored rest
    else
      match readValue (tag % 8) rest with
      | none => .incomplete id (tag % 8)
      | some (number, payload, rest) =>
        if payload.length > kMaxMessageLength then .ignored rest
        else .complete ⟨id, tag % 8, number, payload⟩ rest

/-- The area of a field that is followed by `rest`. -/
def ReadField.area (buffer : Buffer) (field : ReadField) (rest : List UInt8) : DataArea where
  intValue :=
    if field.type = kLengthDelimited.code then
      buffer.startAddr + (buffer.bytes.length - rest.length - field.payload.length)
    else field.number
  size := field.payload.length
  dataAreaId := field.id
  type := field.type

theorem readByte_of_drop {bytes rest : List UInt8} {byte : UInt8} {address : Nat}
    (front : bytes.drop address = byte :: rest) : readByte bytes address = .ok byte.toNat := by
  have found : bytes[address]? = some byte := by
    have head : (bytes.drop address)[0]? = some byte := by rw [front]; rfl
    simpa using head
  simp [readByte, found]

section
variable {bytes front rest : List UInt8} {address : Nat} (split : bytes.drop address = front ++ rest)
include split

theorem length_of_drop (nonempty : 0 < front.length) : address + front.length + rest.length = bytes.length := by
  have lengths := congrArg List.length split
  simp only [length_drop, length_append] at lengths
  omega

theorem drop_of_suffix : bytes.drop (bytes.length - rest.length) = rest := by
  have behind : rest <:+ bytes.drop address := split ▸ suffix_append front rest
  exact (suffix_iff_eq_drop.mp (behind.trans (drop_suffix address bytes))).symm

end

variable {bytes : List UInt8} {buffer : Buffer} {result : ParseDataAreaResult}

/-- The decoding loop at a group boundary: `shift` and the groups still allowed add up to 63. -/
theorem varIntDecodeLoop_eq {start : Nat} (groups cursor shift temp : Nat) (budget : shift + 7 * groups = 63)
    (low : temp < 2 ^ shift) (inside : cursor < bytes.length) :
    varIntDecodeLoop bytes start bytes.length (groups + 1) cursor shift temp =
      .ok ((readBase128 (groups + 1) (bytes.drop cursor)).elim (0, start) fun read =>
        ((temp + read.1 * 2 ^ shift) % 2 ^ 64, bytes.length - read.2.length)) := by
  induction groups generalizing cursor shift temp with
  | zero =>
    have front := drop_eq_getElem_cons inside
    have shiftEq : shift = 63 := by omega
    subst shiftEq
    rw [varIntDecodeLoop, readByte_of_drop front, front, readBase128]
    simp only [byteHighestBitMark, varIntValueMask, payload_bits, highest_bit_clear]
    split
    next last =>
      rw [or_group_mod low (by decide), Nat.mod_eq_of_lt last]
      simp only [Option.elim_some, length_drop]
      congr 2
      omega
    next => simp [readBase128, varIntValueBits, varIntValueDecodeMaxOffset]
  | succ groups ih =>
    have front := drop_eq_getElem_cons inside
    rw [varIntDecodeLoop, readByte_of_drop front, front, readBase128]
    simp only [byteHighestBitMark, varIntValueMask, payload_bits, highest_bit_clear]
    rw [or_group_mod low (by omega)]
    split
    next last =>
      rw [Nat.mod_eq_of_lt last]
      simp only [Option.elim_some, length_drop]
      congr 2
      omega
    next =>
      by_cases more : cursor + 1 < bytes.length
      · have grown : temp + bytes[cursor].toNat % 128 * 2 ^ shift < 2 ^ (shift + 7) := by
          have group : bytes[cursor].toNat % 128 ≤ 127 := by omega
          have scaled := Nat.mul_le_mul_right (2 ^ shift) group
          rw [Nat.pow_add]
          omega
        have word : 2 ^ (shift + 7) ≤ 2 ^ 64 := Nat.pow_le_pow_right (by decide) (by omega)
        rw [if_pos ⟨more, by simp only [varIntValueBits, varIntValueDecodeMaxOffset]; omega⟩,
          Nat.mod_eq_of_lt (grown.trans_le word), varIntValueBits, ih _ _ _ (by omega) grown more]
        cases readBase128 (groups + 1) (bytes.drop (cursor + 1)) with
        | none => rfl
        | some read =>
          simp only [Option.map_some, Option.elim_some]
          ring_nf
      · have empty : bytes.drop (cursor + 1) = [] := drop_eq_nil_of_le (by omega)
        rw [if_neg (fun room => more room.1), empty]
        rfl

theorem varIntDecode_eq {start : Nat} (inside : start < bytes.length) :
    varIntDecode bytes start bytes.length =
      .ok ((readBase128 10 (bytes.drop start)).elim (0, start) fun read =>
        (read.1 % 2 ^ 64, bytes.length - read.2.length)) := by
  have decoded := @varIntDecodeLoop_eq bytes start 9 start 0 0 rfl (by decide) inside
  simpa [varIntDecode] using decoded

theorem getNextProtoTag_eq {start : Nat} (inside : start < bytes.length) :
    getNextProtoTag bytes start bytes.length =
      .ok ((readBase128 10 (bytes.drop start)).bind fun read =>
        if read.2 = [] then none else some (read.1 % 2 ^ 64, bytes.length - read.2.length)) := by
  have front := drop_eq_getElem_cons inside
  have decoded := varIntDecode_eq inside
  by_cases single : bytes[start].toNat < 128
  · -- one byte: the tag is taken without calling the decoder
    have small : bytes[start].toNat % 2 ^ 64 = bytes[start].toNat := Nat.mod_eq_of_lt (by omega)
    rw [getNextProtoTag, readByte_of_drop front, front, readBase128, if_pos single, Option.bind_some, small]
    simp only [byteHighestBitMark, ne_eq, highest_bit_clear, ite_not, if_pos single]
    by_cases last : start + 1 ≥ bytes.length
    · rw [if_pos last, if_pos (drop_eq_nil_of_le last)]
    · have more : bytes.drop (start + 1) ≠ [] := by
        rw [ne_eq, drop_eq_nil_iff]
        exact last
      rw [if_neg last, if_neg more, length_drop]
      congr 3
      omega
  · cases found : readBase128 10 (bytes.drop start) with
    | none =>
      rw [found] at decoded
      simp [getNextProtoTag, readByte_of_drop front, decoded, byteHighestBitMark, highest_bit_clear, single]
    | some read =>
      obtain ⟨tag, rest⟩ := read
      rw [found, Option.elim_some] at decoded
      obtain ⟨group, nonempty, shape⟩ := readBase128_suffix found
      have taken := length_pos_iff.mpr nonempty
      have lengths := length_of_drop shape taken
      have moved : ¬ bytes.length - rest.length = start := by omega
      simp only [getNextProtoTag, readByte_of_drop front, decoded, byteHighestBitMark, ne_eq, highest_bit_clear,
        single, not_false_eq_true, if_true, if_neg moved, Option.bind_some]
      cases rest with
      | nil => simp
      | cons byte rest =>
        have inner : ¬ bytes.length - (byte :: rest).length ≥ bytes.length := by
          simp only [length_cons] at lengths ⊢
          omega
        rw [if_neg inner, if_neg (cons_ne_nil _ _)]

/-- The result that a value read from the front makes of the one for its tag. -/
def valueResult (buffer : Buffer) (type : Nat) (result : ParseDataAreaResult) :
    Option (Nat × List UInt8 × List UInt8) → ParseDataAreaResult
  | none => result
  | some (number, payload, rest) =>
    let next := buffer.bytes.length - rest.length
    if type = kLengthDelimited.code then
      ⟨if payload.length > kMaxMessageLength then .skip else .ok, next,
        (result.dataArea.setDataAreaIntValue (buffer.startAddr + (next - payload.length))).setDataAreaSize
          payload.length⟩
    else ⟨.ok, next, result.dataArea.setDataAreaIntValue number⟩

theorem parseFixedValue_eq {width cursor type : Nat} (other : type ≠ kLengthDelimited.code)
    (inside : cursor < buffer.bytes.length) :
    parseFixedValue width result buffer.bytes cursor buffer.bytes.length =
      .ok (valueResult buffer type result (readFixed width (buffer.bytes.drop cursor))) := by
  rw [parseFixedValue, readFixed, length_drop]
  by_cases room : cursor + width > buffer.bytes.length
  · rw [if_pos room, if_neg (by omega)]
    rfl
  · rw [if_neg room, if_neg room, if_pos (by omega)]
    simp only [valueResult, if_neg other, length_drop]
    congr 2
    omega

theorem parseVarIntValue_eq {cursor : Nat} (inside : cursor < buffer.bytes.length) :
    parseVarIntValue result buffer.bytes cursor buffer.bytes.length =
      .ok (valueResult buffer kVarInt.code result (readValue kVarInt.code (buffer.bytes.drop cursor))) := by
  have decoded := varIntDecode_eq inside
  rw [parseVarIntValue, readValue]
  cases found : readBase128 10 (buffer.bytes.drop cursor) with
  | none =>
    rw [found] at decoded
    simp [decoded, valueResult]
  | some read =>
    rw [found, Option.elim_some] at decoded
    obtain ⟨group, nonempty, shape⟩ := readBase128_suffix found
    have taken := length_pos_iff.mpr nonempty
    have moved : ¬ buffer.bytes.length - read.2.length = cursor := by
      have lengths := length_of_drop shape taken
      omega
    simp only [decoded, if_neg moved]
    rfl

theorem parseLengthDelimitedValue_eq {cursor : Nat} (inside : cursor < buffer.bytes.length) :
    parseLengthDelimitedValue buffer result cursor buffer.bytes.length =
      .ok (valueResult buffer kLengthDelimited.code result
        (readValue kLengthDelimited.code (buffer.bytes.drop cursor))) := by
  have decoded := varIntDecode_eq inside
  rw [parseLengthDelimitedValue, readValue, if_neg (by decide)]
  cases found : readBase128 10 (buffer.bytes.drop cursor) with
  | none =>
    rw [found] at decoded
    simp [decoded, valueResult]
  | some read =>
    obtain ⟨length, rest⟩ := read
    rw [found, Option.elim_some] at decoded
    obtain ⟨group, nonempty, shape⟩ := readBase128_suffix found
    have taken := length_pos_iff.mpr nonempty
    have lengths := length_of_drop shape taken
    simp only [decoded, Option.bind_some]
    by_cases room : length % 2 ^ 64 ≤ rest.length
    · have whole : ¬ (buffer.bytes.length - rest.length = cursor ∨
          length % 2 ^ 64 > buffer.bytes.length - (buffer.bytes.length - rest.length)) := by omega
      have next : buffer.bytes.length - rest.length + length % 2 ^ 64 =
          buffer.bytes.length - (rest.length - length % 2 ^ 64) := by omega
      have back : buffer.bytes.length - (rest.length - length % 2 ^ 64) - length % 2 ^ 64 =
          buffer.bytes.length - rest.length := by omega
      rw [if_neg whole, if_pos room, next]
      simp only [valueResult, if_true, length_take_of_le room, length_drop, back]
      split <;> rfl
    · rw [if_pos (by omega), if_neg room]
      rfl

theorem parseValueByType_eq {cursor type : Nat} (inside : cursor < buffer.bytes.length) :
    parseValueByType buffer type result cursor buffer.bytes.length =
      .ok (valueResult buffer type result (readValue type (buffer.bytes.drop cursor))) := by
  rw [parseValueByType]
  split
  next isVarInt =>
    rw [isVarInt]
    exact parseVarIntValue_eq inside
  next notVarInt =>
    split
    next isDelimited =>
      rw [isDelimited]
      exact parseLengthDelimitedValue_eq inside
    next notDelimited =>
      rw [readValue]
      split
      · exact parseFixedValue_eq notDelimited inside
      · split
        · exact parseFixedValue_eq notDelimited inside
        · rfl

/-- The result of `ParseOneDataArea` that belongs to a reading. -/
def FieldReading.Gives (buffer : Buffer) (start : Nat) (result : ParseDataAreaResult) : FieldReading → Prop
  | .nothing => result = ⟨.abort, start, {}⟩
  | .incomplete id type => result = ⟨.abort, start, { dataAreaId := id, type }⟩
  | .ignored rest => result.status = .skip ∧ result.next = buffer.bytes.length - rest.length
  | .complete field rest => result = ⟨.ok, buffer.bytes.length - rest.length, field.area buffer rest⟩

theorem readValue_suffix {type number : Nat} {bytes payload rest : List UInt8}
    (read : readValue type bytes = some (number, payload, rest)) :
    (∃ front, bytes = front ++ payload ++ rest) ∧ number < 2 ^ 64 ∧ (type ≠ kLengthDelimited.code → payload = []) := by
  have fixed : ∀ width, 256 ^ width ≤ 2 ^ 64 → readFixed width bytes = some (number, payload, rest) →
      (∃ front, bytes = front ++ payload ++ rest) ∧ number < 2 ^ 64 ∧ payload = [] := by
    intro width narrow fixed
    rw [readFixed] at fixed
    split at fixed
    next room =>
      cases fixed
      have small := ofLittleEndian_lt (bytes.take width)
      rw [length_take_of_le room] at small
      exact ⟨⟨bytes.take width, by simp⟩, by omega, rfl⟩
    next => cases fixed
  rw [readValue] at read
  split at read
  · obtain ⟨⟨value, after⟩, found, same⟩ := Option.map_eq_some_iff.mp read
    cases same
    obtain ⟨front, -, shape⟩ := readBase128_suffix found
    exact ⟨⟨front, by simpa using shape⟩, Nat.mod_lt _ (by decide), fun _ => rfl⟩
  · split at read
    next isDelimited =>
      obtain ⟨⟨value, after⟩, found, taken⟩ := Option.bind_eq_some_iff.mp read
      obtain ⟨front, -, shape⟩ := readBase128_suffix found
      dsimp only at taken
      split at taken
      · cases taken
        exact ⟨⟨front, by rw [append_assoc, take_append_drop, shape]⟩, by decide, fun other => absurd isDelimited other⟩
      · cases taken
    next =>
      split at read
      · obtain ⟨front, small, empty⟩ := fixed 4 (by decide) read
        exact ⟨front, small, fun _ => empty⟩
      · split at read
        · obtain ⟨front, small, empty⟩ := fixed 8 (by decide) read
          exact ⟨front, small, fun _ => empty⟩
        · cases read

theorem valueResult_gives {start number id type : Nat} {payload rest : List UInt8} (word : number < 2 ^ 64)
    (plain : type ≠ kLengthDelimited.code → payload = []) :
    FieldReading.Gives buffer start
      (valueResult buffer type ⟨.abort, start, { dataAreaId := id, type }⟩ (some (number, payload, rest)))
      (if payload.length > kMaxMessageLength then .ignored rest else .complete ⟨id, type, number, payload⟩ rest) := by
  by_cases isDelimited : type = kLengthDelimited.code
  · simp only [valueResult, if_pos isDelimited]
    by_cases long : payload.length > kMaxMessageLength
    · rw [if_pos long, if_pos long]
      exact ⟨rfl, rfl⟩
    · have address : (buffer.startAddr + (buffer.bytes.length - rest.length - payload.length)) % 2 ^ 64 =
          buffer.startAddr + (buffer.bytes.length - rest.length - payload.length) := by
        have addressable := buffer.addressable
        exact Nat.mod_eq_of_lt (by omega)
      have size : payload.length % 2 ^ 32 = payload.length := by
        simp only [kMaxMessageLength, kMessageLengthFieldSize] at long
        exact Nat.mod_eq_of_lt (by omega)
      rw [if_neg long, if_neg long]
      simp only [FieldReading.Gives, ReadField.area, if_pos isDelimited, DataArea.setDataAreaIntValue,
        DataArea.setDataAreaSize, address, size]
  · have empty := plain isDelimited
    subst empty
    simp only [valueResult, if_neg isDelimited, length_nil, Nat.not_lt_zero, if_false,
      FieldReading.Gives, ReadField.area, DataArea.setDataAreaIntValue, Nat.mod_eq_of_lt word]

/-- `ParseOneDataArea` reads no byte outside of the buffer and finds what its front is. -/
theorem parseOneDataArea_spec (buffer : Buffer) (start : Nat) :
    ∃ result, parseOneDataArea buffer start = .ok result ∧
      (readField (buffer.bytes.drop start)).Gives buffer start result := by
  by_cases inside : start < buffer.bytes.length
  · have entered : ¬ (buffer.startAddr + start = 0 ∨ start ≥ buffer.bytes.length) := by
      have placed := buffer.placed (ne_nil_of_length_pos (by omega))
      omega
    simp only [parseOneDataArea, if_neg entered, getNextProtoTag_eq inside, readField]
    cases found : readBase128 10 (buffer.bytes.drop start) with
    | none => exact ⟨_, rfl, rfl⟩
    | some read =>
      obtain ⟨tag, rest⟩ := read
      simp only [Option.bind_some]
      by_cases last : rest = []
      · rw [if_pos last, if_pos (.inl last)]
        exact ⟨_, rfl, rfl⟩
      · obtain ⟨group, -, shape⟩ := readBase128_suffix found
        have behind := drop_of_suffix shape
        have more := length_pos_iff.mpr last
        have idEq : (tag % 2 ^ 64) >>> dataAreaTypeBits % 2 ^ 32 = tag / 8 % 2 ^ 32 := by
          rw [dataAreaTypeBits]
          omega
        have typeEq : tag % 2 ^ 64 % 2 ^ 8 &&& dataAreaTypeValue = tag % 8 := by
          have masked : tag % 2 ^ 64 % 2 ^ 8 &&& dataAreaTypeValue = tag % 2 ^ 64 % 2 ^ 8 % 2 ^ 3 :=
            Nat.and_two_pow_sub_one_eq_mod _ 3
          omega
        rw [if_neg last]
        simp only [idEq, typeEq, last, false_or]
        by_cases zero : tag / 8 % 2 ^ 32 = 0
        · rw [if_pos zero, if_pos zero]
          exact ⟨_, rfl, rfl⟩
        · rw [if_neg zero, if_neg zero]
          by_cases large : tag / 8 % 2 ^ 32 > uint16Max
          · rw [if_pos large, if_pos large]
            exact ⟨_, rfl, rfl, rfl⟩
          · have small : tag / 8 % 2 ^ 32 % 2 ^ 16 = tag / 8 % 2 ^ 32 := by
              rw [uint16Max] at large
              omega
            have narrow : tag % 8 % 2 ^ 8 = tag % 8 := by omega
            rw [if_neg large, if_neg large, parseValueByType_eq (by omega), behind]
            refine ⟨_, rfl, ?_⟩
            simp only [DataArea.setDataAreaId, DataArea.setDataAreaType, small, narrow]
            cases value : readValue (tag % 8) rest with
            | none => rfl
            | some read =>
              obtain ⟨-, word, plain⟩ := readValue_suffix value
              exact valueResult_gives word plain
  · have outside : buffer.startAddr + start = 0 ∨ start ≥ buffer.bytes.length := by omega
    have empty : buffer.bytes.drop start = [] := drop_eq_nil_of_le (by omega)
    simp only [parseOneDataArea, if_pos outside, empty]
    exact ⟨_, rfl, rfl⟩

end SmartPerf.Proto
