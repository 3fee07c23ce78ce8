import SmartPerf.Data.Base128

namespace SmartPerf.Hdc

open Data List

/-! The serialized head of a packet. Bitwise operators of the source work on signed 32-bit integers. -/

inductive WireType where
  | varint
  | fixed64
  | lengthDelimeted
  | startGroup
  | endGroup
  | fixed32
deriving Repr, DecidableEq

def WireType.value : WireType → Nat
  | .varint => 0
  | .fixed64 => 1
  | .lengthDelimeted => 2
  | .startGroup => 3
  | .endGroup => 4
  | .fixed32 => 5

/-- The loop of `writeVarIntU32`. -/
def writeGroups : Nat → BitVec 32 → List UInt8
  | 0, _ => []
  | rounds + 1, value =>
    if value.sshiftRight 7 ≠ 0 then
      UInt8.ofNat ((value &&& 127).toNat ||| 128) :: writeGroups rounds (value.sshiftRight 7)
    else [UInt8.ofNat (value &&& 127).toNat]

def writeVarIntU32 (value : Nat) : List UInt8 := writeGroups 5 (BitVec.ofNat 32 value)

/-- The loop of `readVarIntU32`, which stands at the byte with the given index. -/
def readGroups : Nat → Nat → BitVec 32 → List UInt8 → Int
  | 0, _, _, _ => -1
  | _ + 1, _, _, [] => -1
  | rounds + 1, index, value, byte :: rest =>
    if byte.toNat &&& 128 = 0 then (value ||| BitVec.ofNat 32 (byte.toNat &&& 127) <<< (7 * index)).toInt
    else readGroups rounds (index + 1) (value ||| BitVec.ofNat 32 (byte.toNat &&& 127) <<< (7 * index)) rest

/-- The value at the start of the bytes, -1 when it does not end within five of them. -/
def readVarIntU32 (bytes : List UInt8) : Int := readGroups 5 0 0#32 bytes

def makeTagWireType (tag : Nat) (wireType : WireType) : Nat := tag <<< 3 ||| wireType.value

def writeTagWriteType (tag : Nat) (wireType : WireType) : List UInt8 := writeVarIntU32 (makeTagWireType tag wireType)

def serializeU32 (tag value : Nat) : List UInt8 := writeTagWriteType tag .varint ++ writeVarIntU32 value

def serializeU8 (tag value : Nat) : List UInt8 := serializeU32 tag value

structure PayloadProtect where
  channelId : Int
  commandFlag : Int
  checkSum : Int
  vCode : Int
deriving Repr, DecidableEq

def serializePayloadProtect (channelId commandFlag checkSum vCode : Nat) : List UInt8 :=
  serializeU32 1 channelId ++ serializeU32 2 commandFlag ++ serializeU8 3 checkSum ++ serializeU8 4 vCode

/-- Each value is looked for two bytes after the one before it. The tags are read and not used. -/
def parsePayloadProtect (data : List UInt8) : PayloadProtect :=
  let channelDataBuffer := data.drop 1
  let commandTagBuffer := channelDataBuffer.drop 1
  let commandDataBuffer := commandTagBuffer.drop 1
  let checkSumTagBuffer := commandDataBuffer.drop 1
  let checkSumDataBuffer := checkSumTagBuffer.drop 1
  let vCodeTagBuffer := checkSumDataBuffer.drop 1
  let vCodeDataBuffer := vCodeTagBuffer.drop 1
  { channelId := readVarIntU32 channelDataBuffer
    commandFlag := readVarIntU32 commandDataBuffer
    checkSum := readVarIntU32 checkSumDataBuffer
    vCode := readVarIntU32 vCodeDataBuffer }

section Write

variable {value : BitVec 32} {rounds : Nat}

theorem sshiftRight_toNat (positive : value.toNat < 2 ^ 31) : (value.sshiftRight 7).toNat = value.toNat / 128 := by
  have clear : value.msb = false := by
    rw [BitVec.msb_eq_decide]
    exact decide_eq_false (by omega)
  rw [BitVec.sshiftRight_eq_of_msb_false clear, BitVec.toNat_ushiftRight, Nat.shiftRight_eq_div_pow]

theorem group_toNat (value : BitVec 32) : (value &&& 127).toNat = value.toNat % 128 := by
  exact Nat.and_two_pow_sub_one_eq_mod value.toNat 7

theorem group_or (value : BitVec 32) : (value &&& 127).toNat ||| 128 = value.toNat % 128 + 128 := by
  have small : value.toNat % 128 < 2 ^ 7 := Nat.mod_lt _ (by decide)
  rw [group_toNat, Nat.or_comm, Nat.add_comm]
  exact (Nat.two_pow_add_eq_or_of_lt small 1).symm

theorem writeGroups_eq_base128 (positive : value.toNat < 2 ^ 31) (fits : value.toNat < 128 ^ (rounds + 1)) :
    writeGroups (rounds + 1) value = base128 rounds value.toNat := by
  induction rounds generalizing value with
  | zero =>
    have shifted := sshiftRight_toNat positive
    have none : value.sshiftRight 7 = 0 := BitVec.eq_of_toNat_eq (by rw [shifted]; simp at fits ⊢; omega)
    rw [writeGroups, if_neg (not_not_intro none), group_toNat, base128]
  | succ rounds ih =>
    have shifted := sshiftRight_toNat positive
    by_cases single : value.toNat < 128
    · have none : value.sshiftRight 7 = 0 := BitVec.eq_of_toNat_eq (by rw [shifted]; simp; omega)
      rw [writeGroups, if_neg (not_not_intro none), group_toNat, base128, if_pos single, Nat.mod_eq_of_lt single]
    · have more : value.sshiftRight 7 ≠ 0 := by
        intro none
        rw [none] at shifted
        simp at shifted
        omega
      have smaller : value.toNat / 128 < 128 ^ (rounds + 1) := by
        rw [Nat.div_lt_iff_lt_mul (by decide)]
        exact fits
      rw [writeGroups, if_pos more, group_or, ih (by omega) (by rwa [shifted]), shifted, base128, if_neg single]

theorem writeVarIntU32_eq {value : Nat} (small : value < 2 ^ 31) : writeVarIntU32 value = base128 4 value := by
  have same : (BitVec.ofNat 32 value).toNat = value := by
    exact Nat.mod_eq_of_lt (by omega)
  rw [writeVarIntU32, writeGroups_eq_base128 (by omega) (by rw [same]; norm_num; omega), same]

theorem writeGroups_negative (negative : value.msb = true) :
    (writeGroups rounds value).length = rounds ∧ ∀ byte ∈ writeGroups rounds value, 128 ≤ byte.toNat := by
  induction rounds generalizing value with
  | zero => simp [writeGroups]
  | succ rounds ih =>
    have still : (value.sshiftRight 7).msb = true := by rw [BitVec.msb_sshiftRight, negative]
    have more : value.sshiftRight 7 ≠ 0 := by
      intro none
      rw [none] at still
      exact absurd still (by decide)
    obtain ⟨length, continued⟩ := ih still
    rw [writeGroups, if_pos more]
    refine ⟨by rw [length_cons, length], ?_⟩
    intro byte inside
    rcases mem_cons.mp inside with rfl | later
    · rw [group_or, UInt8.toNat_ofNat']
      omega
    · exact continued byte later

end Write

section Read

variable {index rounds : Nat} {gathered : BitVec 32}

theorem ofNat_groups (value : Nat) :
    BitVec.ofNat 32 (value % 128) ||| BitVec.ofNat 32 (value / 128) <<< 7 = BitVec.ofNat 32 value := by
  apply BitVec.eq_of_getLsbD_eq
  intro bit inside
  have low : value % 128 = value % 2 ^ 7 := rfl
  have high : value / 128 = value / 2 ^ 7 := rfl
  rw [BitVec.getLsbD_or, BitVec.getLsbD_shiftLeft, BitVec.getLsbD_ofNat, BitVec.getLsbD_ofNat, BitVec.getLsbD_ofNat, low,
    high, Nat.testBit_mod_two_pow, Nat.testBit_div_two_pow]
  by_cases early : bit < 7
  · simp [early]
  · have place : bit - 7 + 7 = bit := by omega
    have less : bit - 7 < 32 := by omega
    simp [early, place, less]

variable (rest : List UInt8)

theorem readGroups_base128 {groups value : Nat} (fits : value < 128 ^ (groups + 1)) (enough : groups < rounds) :
    readGroups rounds index gathered (base128 groups value ++ rest) =
      (gathered ||| BitVec.ofNat 32 value <<< (7 * index)).toInt := by
  induction groups generalizing rounds index gathered value with
  | zero =>
    obtain ⟨more, rfl⟩ := Nat.exists_eq_add_of_lt enough
    have small : value < 128 := by simpa using fits
    have byte : (UInt8.ofNat (value % 128)).toNat = value := by
      rw [UInt8.toNat_ofNat']
      omega
    have last : (UInt8.ofNat (value % 128)).toNat &&& 128 = 0 := (highest_bit_clear _).mpr (by omega)
    rw [base128, cons_append, Nat.zero_add, readGroups, if_pos last, payload_bits, byte, Nat.mod_eq_of_lt small]
  | succ groups ih =>
    obtain ⟨more, rfl⟩ := Nat.exists_eq_add_of_lt enough
    by_cases small : value < 128
    · have byte : (UInt8.ofNat value).toNat = value := by
        rw [UInt8.toNat_ofNat']
        omega
      have last : (UInt8.ofNat value).toNat &&& 128 = 0 := (highest_bit_clear _).mpr (by omega)
      rw [base128, if_pos small, cons_append, readGroups, if_pos last, payload_bits, byte, Nat.mod_eq_of_lt small]
    · have byte : (UInt8.ofNat (value % 128 + 128)).toNat = value % 128 + 128 := by
        rw [UInt8.toNat_ofNat']
        omega
      have continued : ¬ (UInt8.ofNat (value % 128 + 128)).toNat &&& 128 = 0 := by
        rw [highest_bit_clear]
        omega
      have payload : (value % 128 + 128) % 128 = value % 128 := by omega
      have smaller : value / 128 < 128 ^ (groups + 1) := by
        rw [Nat.div_lt_iff_lt_mul (by decide)]
        exact fits
      have shift : 7 * (index + 1) = 7 + 7 * index := by omega
      rw [base128, if_neg small, cons_append, readGroups, if_neg continued, payload_bits, byte, payload,
        ih smaller (by omega), shift, BitVec.shiftLeft_add, BitVec.or_assoc, ← BitVec.shiftLeft_or_distrib, ofNat_groups]

theorem readVarIntU32_base128 {groups value : Nat} (fits : value < 128 ^ (groups + 1)) (short : groups < 5)
    (small : value < 2 ^ 31) : readVarIntU32 (base128 groups value ++ rest) = value := by
  have word : (BitVec.ofNat 32 value).toNat = value := by
    exact Nat.mod_eq_of_lt (by omega)
  rw [readVarIntU32, readGroups_base128 rest fits short, Nat.mul_zero, BitVec.shiftLeft_zero, BitVec.zero_or,
    BitVec.toInt_eq_toNat_of_lt (by omega), word]

theorem readGroups_continued {bytes : List UInt8} (length : bytes.length = rounds)
    (continued : ∀ byte ∈ bytes, 128 ≤ byte.toNat) : readGroups rounds index gathered (bytes ++ rest) = -1 := by
  induction bytes generalizing rounds index gathered with
  | nil =>
    rw [← length]
    rfl
  | cons byte more ih =>
    rw [← length, length_cons, cons_append, readGroups, if_neg]
    · exact ih rfl (forall_mem_of_forall_mem_cons continued)
    · have large := continued byte mem_cons_self
      rw [highest_bit_clear]
      omega

theorem readVarIntU32_writeVarIntU32 {value : Nat} (word : value < 2 ^ 32) :
    readVarIntU32 (writeVarIntU32 value ++ rest) = if value < 2 ^ 31 then (value : Int) else -1 := by
  by_cases small : value < 2 ^ 31
  · rw [if_pos small, writeVarIntU32_eq small]
    exact readVarIntU32_base128 rest (by norm_num; omega) (by decide) small
  · have negative : (BitVec.ofNat 32 value).msb = true := by
      rw [BitVec.msb_eq_decide, BitVec.toNat_ofNat]
      exact decide_eq_true (by omega)
    obtain ⟨length, continued⟩ := @writeGroups_negative _ 5 negative
    rw [if_neg small]
    exact readGroups_continued rest length continued

end Read

end SmartPerf.Hdc
