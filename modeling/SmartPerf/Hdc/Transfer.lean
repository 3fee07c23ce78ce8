import SmartPerf.Data.CodeUnits
import SmartPerf.Hdc.Serialize

namespace SmartPerf.Hdc

open Data List

/-! The description of a file that is sent to the device. `&`, `>>` and `<<` take their operands modulo 2^32, and a shift
distance modulo 32, also in the functions for 64-bit values. -/

def serializeToString (tag : Nat) (value : List Char) : List UInt8 :=
  writeVarIntU32 (makeTagWireType tag .lengthDelimeted) ++ writeVarIntU32 (utf16 value).length ++ utf8 value

def writeVarIntU64 (value : Int) : List UInt8 := writeGroups 10 (BitVec.ofInt 32 value)

def serializeU64 (tag : Nat) (value : Int) : List UInt8 := writeTagWriteType tag .varint ++ writeVarIntU64 value

/-- The loop of `readVarIntU64`, which stands at the byte with the given index. -/
def readGroupsU64 : Nat → Nat → BitVec 32 → List UInt8 → Int
  | 0, _, _, _ => -1
  | _ + 1, _, _, [] => -1
  | rounds + 1, index, value, byte :: rest =>
    if byte.toNat &&& 128 = 0 then (value ||| BitVec.ofNat 32 (byte.toNat &&& 127) <<< (7 * index % 32)).toInt
    else readGroupsU64 rounds (index + 1) (value ||| BitVec.ofNat 32 (byte.toNat &&& 127) <<< (7 * index % 32)) rest

def readVarIntU64 (bytes : List UInt8) : Int := readGroupsU64 10 0 0#32 bytes

structure TransferConfig where
  fileSize : Int
  atime : Int := 0
  mtime : Int := 0
  options : List Char := []
  path : List Char := []
  optionalName : List Char := []
  updateIfNew : Bool := false
  compressType : Nat := 0
  holdTimestamp : Bool := false
  functionName : List Char := []
  clientCwd : List Char := []
  reserve1 : List Char := []
  reserve2 : List Char := []
deriving Repr, DecidableEq

def serializeTransferConfig (config : TransferConfig) : List UInt8 :=
  serializeU64 1 config.fileSize ++ (serializeU64 2 config.atime ++ serializeU64 3 config.mtime ++
    serializeToString 4 config.options ++ serializeToString 5 config.path ++ serializeToString 6 config.optionalName ++
    serializeU32 7 config.updateIfNew.toNat ++ serializeU8 8 config.compressType ++
    serializeU32 9 config.holdTimestamp.toNat ++ serializeToString 10 config.functionName ++
    serializeToString 11 config.clientCwd ++ serializeToString 12 config.reserve1 ++ serializeToString 13 config.reserve2)

/-- Only the size is read. -/
def parseTransferConfig (data : List UInt8) : TransferConfig := { fileSize := readVarIntU64 (data.drop 1) }

variable {gathered : BitVec 32}

variable {rounds index : Nat}

variable {bytes : List UInt8}

theorem readGroupsU64_eq (more : Nat)
    (narrow : index + rounds ≤ 5) (ends : readGroups rounds index gathered bytes ≠ -1) :
    readGroupsU64 (rounds + more) index gathered bytes = readGroups rounds index gathered bytes := by
  induction rounds generalizing index gathered bytes with
  | zero => exact absurd rfl ends
  | succ rounds ih =>
    cases bytes with
    | nil => exact absurd rfl ends
    | cons byte rest =>
      have distance : 7 * index % 32 = 7 * index := Nat.mod_eq_of_lt (by omega)
      rw [readGroups] at ends ⊢
      rw [Nat.succ_add, readGroupsU64, distance]
      split
      · rfl
      next continued =>
        rw [if_neg continued] at ends
        exact ih (by omega) ends

theorem readGroupsU64_continued (rest : List UInt8)
    (length : bytes.length = rounds) (continued : ∀ byte ∈ bytes, 128 ≤ byte.toNat) :
    readGroupsU64 rounds index gathered (bytes ++ rest) = -1 ∧ readBase128 rounds bytes = none := by
  induction bytes generalizing rounds index gathered with
  | nil =>
    rw [← length]
    exact ⟨rfl, rfl⟩
  | cons byte more ih =>
    obtain ⟨large, others⟩ := forall_mem_cons.mp continued
    have marked := mt (highest_bit_clear byte).mp (by omega)
    rw [← length, length_cons, cons_append, readGroupsU64, if_neg marked, readBase128, if_neg (by omega)]
    obtain ⟨unread, none⟩ := ih rfl others
    exact ⟨unread, by rw [none, Option.map_none]⟩

theorem base128_of_fits {groups more value : Nat} (fits : value < 128 ^ (groups + 1)) (within : groups ≤ more) :
    base128 more value = base128 groups value := by
  induction groups generalizing more value with
  | zero =>
    have small : value < 128 := by simpa using fits
    cases more with
    | zero => rfl
    | succ more => rw [base128.eq_2, if_pos small, base128, Nat.mod_eq_of_lt small]
  | succ groups ih =>
    obtain ⟨more, rfl⟩ := Nat.exists_eq_add_of_le' within
    have smaller : value / 128 < 128 ^ (groups + 1) := Nat.div_lt_of_lt_mul (by rwa [← Nat.pow_succ'])
    rw [← Nat.add_assoc, base128, base128, ih smaller (by omega)]

/-- The low 32 bits of a size are written. When the highest of them is set, no byte ends the encoding. -/
theorem writeVarIntU64_cases (size : Nat) (rest : List UInt8) :
    (size % 2 ^ 32 < 2 ^ 31 ∧ writeVarIntU64 size = base128 9 (size % 2 ^ 32) ∧
      readVarIntU64 (writeVarIntU64 size ++ rest) = (size % 2 ^ 32 : Nat)) ∨
    (2 ^ 31 ≤ size ∧ readBase128 10 (writeVarIntU64 size) = none ∧ readVarIntU64 (writeVarIntU64 size ++ rest) = -1) := by
  have word : (BitVec.ofInt 32 (size : Int)).toNat = size % 2 ^ 32 := by
    rw [BitVec.ofInt_natCast, BitVec.toNat_ofNat]
  by_cases positive : size % 2 ^ 32 < 2 ^ 31
  · left
    have written : writeVarIntU64 size = base128 9 (size % 2 ^ 32) := by
      rw [writeVarIntU64, writeGroups_eq_base128 (by omega) (by norm_num; omega), word]
    have short : base128 9 (size % 2 ^ 32) = base128 4 (size % 2 ^ 32) :=
      base128_of_fits (by norm_num; omega) (by decide)
    have read : readGroups 5 0 0#32 (base128 4 (size % 2 ^ 32) ++ rest) = (size % 2 ^ 32 : Nat) :=
      readVarIntU32_base128 rest (by norm_num; omega) (by decide) positive
    refine ⟨positive, written, ?_⟩
    rw [written, short, readVarIntU64, readGroupsU64_eq 5 (by decide) (by omega), read]
  · right
    have negative : (BitVec.ofInt 32 (size : Int)).msb = true := by
      rw [BitVec.msb_eq_decide]
      exact decide_eq_true (by omega)
    obtain ⟨length, continued⟩ := @writeGroups_negative _ 10 negative
    obtain ⟨unread, none⟩ := readGroupsU64_continued rest length continued
    exact ⟨by omega, none, unread⟩

/-- A file size survives, and is written in its canonical form, exactly when it is below 2^31. -/
theorem fileSize_survives_iff (config : TransferConfig) (size : Fin (2 ^ 53)) :
    ((parseTransferConfig (serializeTransferConfig { config with fileSize := size.val })).fileSize = size.val ↔
      size.val < 2 ^ 31) ∧
    (writeVarIntU64 size.val = base128 9 size.val ↔ size.val < 2 ^ 31) := by
  obtain ⟨size, limit⟩ := size
  obtain ⟨rest, bytes⟩ : ∃ rest, (serializeTransferConfig { config with fileSize := size }).drop 1 =
      writeVarIntU64 size ++ rest := ⟨_, append_assoc [] _ _⟩
  have canonical {value : Nat} (small : value < 2 ^ 53) : readBase128 10 (base128 9 value) = some (value, []) := by
    rw [← append_nil (base128 9 value)]
    exact readBase128_base128 9 value [] (by omega)
  rw [parseTransferConfig, bytes]
  dsimp only
  rcases writeVarIntU64_cases size rest with ⟨positive, written, read⟩ | ⟨large, unread, lost⟩
  · rw [read, written]
    refine ⟨by omega, ?_, fun small => by rw [Nat.mod_eq_of_lt (by omega)]⟩
    intro same
    have decoded : readBase128 10 (base128 9 (size % 2 ^ 32)) = _ := canonical (by omega)
    rw [same, canonical limit, Option.some.injEq, Prod.mk.injEq] at decoded
    omega
  · refine ⟨by omega, ?_, fun small => by omega⟩
    intro same
    rw [same, canonical limit] at unread
    cases unread

theorem fileSize_lost :
    (parseTransferConfig (serializeTransferConfig { fileSize := 2 ^ 31 })).fileSize ≠ 2 ^ 31 ∧
      writeVarIntU64 (2 ^ 31) ≠ base128 9 (2 ^ 31) := by
  decide +kernel

end SmartPerf.Hdc
