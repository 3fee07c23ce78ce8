import SmartPerf.Hdc.Transfer

namespace SmartPerf.Hdc

open Data List

/-! The message that opens a session. Its reader passes over each value by the length that writing it again would have. -/

/-- What `TextDecoder` holds of a character that is not complete: its bits, how many bytes are missing, and the range of
the next one. -/
structure Pending where
  bits : Nat
  needed : Nat
  lower : Nat := 0x80
  upper : Nat := 0xBF
deriving Repr, DecidableEq

def decodeFirst (byte : Nat) : List Char × Option Pending :=
  if byte < 0x80 then ([Char.ofNat byte], none)
  else if 0xC2 ≤ byte ∧ byte ≤ 0xDF then ([], some { bits := byte % 32, needed := 1 })
  else if 0xE0 ≤ byte ∧ byte ≤ 0xEF then
    ([], some ⟨byte % 16, 2, if byte = 0xE0 then 0xA0 else 0x80, if byte = 0xED then 0x9F else 0xBF⟩)
  else if 0xF0 ≤ byte ∧ byte ≤ 0xF4 then
    ([], some ⟨byte % 8, 3, if byte = 0xF0 then 0x90 else 0x80, if byte = 0xF4 then 0x8F else 0xBF⟩)
  else (['\uFFFD'], none)

def decodeByte (byte : Nat) : Option Pending → List Char × Option Pending
  | none => decodeFirst byte
  | some pending =>
    if byte < pending.lower ∨ pending.upper < byte then ('\uFFFD' :: (decodeFirst byte).1, (decodeFirst byte).2)
    else if pending.needed = 1 then ([Char.ofNat (pending.bits * 64 + byte % 64)], none)
    else ([], some { bits := pending.bits * 64 + byte % 64, needed := pending.needed - 1 })

def decodeFrom : Option Pending → List UInt8 → List Char
  | none, [] => []
  | some _, [] => ['\uFFFD']
  | pending, byte :: rest => (decodeByte byte.toNat pending).1 ++ decodeFrom (decodeByte byte.toNat pending).2 rest

/-- The text of some bytes in UTF-8, without a byte order mark. -/
def decode (bytes : List UInt8) : List Char :=
  if (decodeFrom none bytes).head? = some '\uFEFF' then (decodeFrom none bytes).tail else decodeFrom none bytes

variable (buffer : List UInt8)

/-- The position that an argument of `slice` stands for. -/
def sliceIndex (index : Int) : Nat :=
  if index < 0 then buffer.length - index.natAbs else index.toNat

def parseString (size : Int) : List Char := decode (buffer.take (sliceIndex buffer size))

structure SessionHandShake where
  banner : List Char
  authType : Int
  sessionId : Int
  connectKey : List Char
  buf : List Char
  version : List Char
deriving Repr, DecidableEq

/-- `writeVarIntU32` of a number that may be negative. -/
def writeVarInt (value : Int) : List UInt8 := writeGroups 5 (BitVec.ofInt 32 value)

def serializeSessionHandShake (handShake : SessionHandShake) : List UInt8 :=
  serializeToString 1 handShake.banner ++ (writeTagWriteType 2 .varint ++ writeVarInt handShake.authType) ++
    (writeTagWriteType 3 .varint ++ writeVarInt handShake.sessionId) ++ serializeToString 4 handShake.connectKey ++
    serializeToString 5 handShake.buf ++ serializeToString 6 handShake.version

/-- The buffer behind its first tag. -/
def afterTag (wireType : WireType) (buffer : List UInt8) : List UInt8 :=
  let tag := readVarIntU32 buffer >>> (3 : Nat)
  buffer.drop (writeGroups 5 (BitVec.ofInt 32 tag <<< 3 ||| BitVec.ofNat 32 wireType.value)).length

def parseStringField : List Char × List UInt8 :=
  let lengthBuffer := afterTag .lengthDelimeted buffer
  let size := readVarIntU32 lengthBuffer
  let dataBuffer := lengthBuffer.drop (writeVarInt size).length
  (parseString dataBuffer size, dataBuffer.drop (sliceIndex dataBuffer size))

def parseNumberField : Int × List UInt8 :=
  let dataBuffer := afterTag .varint buffer
  let value := readVarIntU32 dataBuffer
  (value, dataBuffer.drop (writeVarInt value).length)

def parseHandshake (data : List UInt8) : SessionHandShake :=
  let (banner, authBuffer) := parseStringField data
  let (authType, sessionIdBuffer) := parseNumberField authBuffer
  let (sessionId, connectKeyBuffer) := parseNumberField sessionIdBuffer
  let (connectKey, bufBuffer) := parseStringField connectKeyBuffer
  let (buf, versionBuffer) := parseStringField bufBuffer
  { banner, authType, sessionId, connectKey, buf, version := (parseStringField versionBuffer).1 }

structure AsciiString where
  text : List Char
  ascii : ∀ char ∈ text, char.toNat < 128
  short : text.length < 2 ^ 31

theorem codes_ascii {text : List Char} (ascii : ∀ char ∈ text, char.toNat < 128) :
    (utf16 text).length = text.length ∧ (utf8 text).length = text.length ∧ decodeFrom none (utf8 text) = text := by
  induction text with
  | nil => exact ⟨rfl, rfl, rfl⟩
  | cons char text ih =>
    obtain ⟨small, others⟩ := forall_mem_cons.mp ascii
    obtain ⟨units, bytes, decoded⟩ := ih others
    have byte : String.utf8EncodeChar char = [char.toNat.toUInt8] := by
      exact if_pos (Nat.le_of_lt_succ small)
    have unit : utf16Char char = [char.toNat.toUInt16] := if_pos (by omega)
    have first : decodeByte char.toNat.toUInt8.toNat none = ([char], none) := by
      rw [toNat_toUInt8 (by omega), decodeByte, decodeFirst, if_pos small, Char.ofNat_toNat]
    rw [utf16, flatMap_cons, unit, utf8, flatMap_cons, byte, ← utf16, ← utf8]
    refine ⟨congrArg (· + 1) units, congrArg (· + 1) bytes, ?_⟩
    rw [singleton_append, decodeFrom, first, decoded, singleton_append]

variable (string : AsciiString)

theorem decode_ascii : decode (utf8 string.text) = string.text := by
  have unmarked : string.text.head? ≠ some '\uFEFF' := by
    intro mark
    exact absurd (string.ascii _ (mem_of_head? mark)) (by decide)
  rw [decode, (codes_ascii string.ascii).2.2, if_neg unmarked]

variable {tag : Nat}

theorem afterTag_append (wireType : WireType) (rest : List UInt8) (small : tag < 16) :
    afterTag wireType (writeTagWriteType tag wireType ++ rest) = rest := by
  have table : ∀ tag : Fin 16, makeTagWireType tag wireType < 2 ^ 31 ∧
      BitVec.ofInt 32 ((makeTagWireType tag wireType : Int) >>> (3 : Nat)) <<< 3 ||| BitVec.ofNat 32 wireType.value =
        BitVec.ofNat 32 (makeTagWireType tag wireType) := by
    cases wireType <;> decide +kernel
  obtain ⟨key, same⟩ := table ⟨tag, small⟩
  rw [afterTag, writeTagWriteType, readVarIntU32_writeVarIntU32 rest (key.trans (by decide)), if_pos key, same]
  exact drop_left

variable (rest : List UInt8)

theorem readVarIntU32_writeVarInt {value : Nat} (small : value < 2 ^ 31) :
    readVarIntU32 (writeVarInt value ++ rest) = value := by
  have read := readVarIntU32_writeVarIntU32 rest (small.trans (by decide))
  rwa [if_pos small, writeVarIntU32, ← BitVec.ofInt_natCast] at read

theorem parseNumberField_append (value : Fin (2 ^ 31)) (rest : List UInt8) (small : tag < 16) :
    parseNumberField (writeTagWriteType tag .varint ++ (writeVarInt value.val ++ rest)) = ((value.val : Int), rest) := by
  rw [parseNumberField, afterTag_append _ _ small, readVarIntU32_writeVarInt rest value.isLt, drop_left]

theorem parseStringField_append (small : tag < 16) :
    parseStringField (serializeToString tag string.text ++ rest) = (string.text, rest) := by
  obtain ⟨units, bytes, -⟩ := codes_ascii string.ascii
  have written : writeVarIntU32 string.text.length = writeVarInt (string.text.length : Int) := by
    rw [writeVarInt, BitVec.ofInt_natCast, writeVarIntU32]
  have index : sliceIndex (utf8 string.text ++ rest) (string.text.length : Int) = (utf8 string.text).length := by
    rw [sliceIndex, if_neg (by omega), bytes, Int.toNat_natCast]
  rw [serializeToString, units, written, append_assoc, append_assoc, parseStringField, ← writeTagWriteType,
    afterTag_append _ _ small, readVarIntU32_writeVarInt _ string.short, drop_left, parseString, index, take_left,
    drop_left, decode_ascii]

/-- A handshake is read as it was written. -/
theorem parseHandshake_serializeSessionHandShake (banner connectKey buf version : AsciiString)
    (authType sessionId : Fin (2 ^ 31)) :
    let handShake : SessionHandShake :=
      ⟨banner.text, authType.val, sessionId.val, connectKey.text, buf.text, version.text⟩
    parseHandshake (serializeSessionHandShake handShake) = handShake := by
  intro handShake
  have last := parseStringField_append version [] (by decide : 6 < 16)
  rw [append_nil] at last
  simp only [parseHandshake, serializeSessionHandShake, handShake, append_assoc, parseStringField_append,
    parseNumberField_append, Nat.reduceLT, last]

end SmartPerf.Hdc
