import Mathlib.Tactic

namespace SmartPerf.Data

/-! Base-128 integers and fixed-width little-endian words.

A base-128 integer carries seven payload bits in each byte, lowest group first,
and sets the top bit of every byte but the last.  The encoders and the reader
below are the standard ones; the decoders of a program are compared with them. -/

/-- The base-128 form of a value that needs at most `groups + 1` bytes. -/
def base128 : Nat → Nat → List UInt8
  | 0, value => [UInt8.ofNat (value % 128)]
  | groups + 1, value =>
    if value < 128 then [UInt8.ofNat value]
    else UInt8.ofNat (value % 128 + 128) :: base128 groups (value / 128)

/-- The integer of at most `groups` bytes at the front of some bytes, and what follows it. -/
def readBase128 : Nat → List UInt8 → Option (Nat × List UInt8)
  | 0, _ => none
  | _ + 1, [] => none
  | groups + 1, byte :: rest =>
    if byte.toNat < 128 then some (byte.toNat, rest)
    else (readBase128 groups rest).map fun read => (byte.toNat % 128 + 128 * read.1, read.2)

/-- `count` bytes of a word, least significant byte first. -/
def littleEndian : Nat → Nat → List UInt8
  | 0, _ => []
  | count + 1, value => UInt8.ofNat (value % 256) :: littleEndian count (value / 256)

/-- The word that a byte list spells, least significant byte first. -/
def ofLittleEndian : List UInt8 → Nat
  | [] => 0
  | byte :: rest => byte.toNat + 256 * ofLittleEndian rest

variable (count value : Nat)

@[simp] theorem littleEndian_length : (littleEndian count value).length = count := by
  induction count generalizing value with
  | zero => rfl
  | succ count ih => simp [littleEndian, ih]

theorem ofLittleEndian_littleEndian_mod : ofLittleEndian (littleEndian count value) = value % 256 ^ count := by
  induction count generalizing value with
  | zero => simp [littleEndian, ofLittleEndian, Nat.mod_one]
  | succ count ih =>
    have parts : value % 256 ^ (count + 1) = value % 256 + 256 * (value / 256 % 256 ^ count) := by
      rw [Nat.pow_succ', Nat.mod_mul]
    rw [littleEndian, ofLittleEndian, ih, UInt8.toNat_ofNat']
    omega

theorem ofLittleEndian_littleEndian (small : value < 256 ^ count) :
    ofLittleEndian (littleEndian count value) = value := by
  rw [ofLittleEndian_littleEndian_mod]
  exact Nat.mod_eq_of_lt small

theorem ofLittleEndian_lt (bytes : List UInt8) : ofLittleEndian bytes < 256 ^ bytes.length := by
  induction bytes with
  | nil => simp [ofLittleEndian]
  | cons byte rest ih =>
    have small := byte.toNat_lt
    simp only [ofLittleEndian, List.length_cons]
    omega

theorem base128_length_pos (groups value : Nat) : 0 < (base128 groups value).length := by
  cases groups with
  | zero => simp [base128]
  | succ groups =>
    simp only [base128]
    split <;> simp

theorem payload_bits (byte : UInt8) : byte.toNat &&& 127 = byte.toNat % 128 :=
  Nat.and_two_pow_sub_one_eq_mod byte.toNat 7

theorem highest_bit_clear (byte : UInt8) : byte.toNat &&& 128 = 0 ↔ byte.toNat < 128 := by
  have table : ∀ value : Fin 256, value.val &&& 128 = 0 ↔ value.val < 128 := by decide +kernel
  exact table ⟨byte.toNat, byte.toNat_lt⟩

theorem readBase128_base128 (groups value : Nat) (rest : List UInt8) (small : value < 128 ^ (groups + 1)) :
    readBase128 (groups + 1) (base128 groups value ++ rest) = some (value, rest) := by
  induction groups generalizing value with
  | zero =>
    have byte : (UInt8.ofNat (value % 128)).toNat = value := by
      rw [UInt8.toNat_ofNat']
      omega
    simp only [base128, List.cons_append, readBase128, byte]
    exact if_pos (by omega)
  | succ groups ih =>
    rw [base128]
    split
    next last =>
      have byte : (UInt8.ofNat value).toNat = value := UInt8.toNat_ofNat_of_lt' (last.trans (by decide))
      simp [readBase128, byte, if_pos last]
    next more =>
      have byte : (UInt8.ofNat (value % 128 + 128)).toNat = value % 128 + 128 := by
        rw [UInt8.toNat_ofNat']
        omega
      have marked : ¬ value % 128 + 128 < 128 := by omega
      have below : value / 128 < 128 ^ (groups + 1) := by
        exact Nat.div_lt_of_lt_mul (by omega)
      rw [List.cons_append, readBase128, byte, if_neg marked, ih _ below, Option.map_some]
      congr 2
      omega

theorem readBase128_suffix {groups value : Nat} {bytes rest : List UInt8}
    (read : readBase128 groups bytes = some (value, rest)) : ∃ front, front ≠ [] ∧ bytes = front ++ rest := by
  induction groups generalizing value bytes with
  | zero => cases read
  | succ groups ih =>
    cases bytes with
    | nil => cases read
    | cons byte tail =>
      rw [readBase128] at read
      split at read
      · cases read
        exact ⟨[byte], by simp, rfl⟩
      · obtain ⟨⟨higher, after⟩, found, same⟩ := Option.map_eq_some_iff.mp read
        cases same
        obtain ⟨front, -, shape⟩ := ih found
        exact ⟨byte :: front, by simp, by rw [shape, List.cons_append]⟩

theorem or_group_mod {low group shift : Nat} (small : low < 2 ^ shift) (narrow : shift ≤ 64) :
    (low ||| (group <<< shift) % 2 ^ 64) = (low + group * 2 ^ shift) % 2 ^ 64 := by
  have word : 2 ^ 64 = 2 ^ shift * 2 ^ (64 - shift) := by rw [← Nat.pow_add, Nat.add_sub_cancel' narrow]
  have high : (low + group * 2 ^ shift) / 2 ^ shift = group := by
    rw [Nat.add_mul_div_right _ _ (Nat.two_pow_pos _), Nat.div_eq_of_lt small, Nat.zero_add]
  rw [Nat.shiftLeft_eq, Nat.mul_comm group, word, Nat.mul_mod_mul_left, Nat.or_comm,
    ← Nat.two_pow_add_eq_or_of_lt small, Nat.mod_mul, Nat.mul_comm (2 ^ shift) group, high,
    Nat.add_mul_mod_self_right, Nat.mod_eq_of_lt small]
  exact Nat.add_comm _ _

end SmartPerf.Data
