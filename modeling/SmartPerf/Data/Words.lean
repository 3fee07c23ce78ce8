import SmartPerf.Data.Base128

namespace SmartPerf.Data

open List

/-! Fields of fixed width in a byte list. -/

variable (bytes : List UInt8)

/-- The little-endian word of `count` bytes at an offset. -/
def wordAt (offset count : Nat) : Nat := ofLittleEndian ((bytes.drop offset).take count)

def setWord (offset count value : Nat) : List UInt8 :=
  bytes.take offset ++ littleEndian count value ++ bytes.drop (offset + count)

/-- The part of a byte list that begins at an offset and has a length. -/
def sliceAt (offset size : Nat) : List UInt8 := (bytes.drop offset).take size

variable {bytes : List UInt8} {offset count value : Nat}

theorem wordAt_lt (bytes : List UInt8) (offset count : Nat) : wordAt bytes offset count < 256 ^ count := by
  refine lt_of_lt_of_le (ofLittleEndian_lt _) (Nat.pow_le_pow_right (by decide) ?_)
  rw [length_take]
  exact Nat.min_le_left _ _

theorem wordAt_append (more : List UInt8) (inside : offset + count ≤ bytes.length) :
    wordAt (bytes ++ more) offset count = wordAt bytes offset count := by
  rw [wordAt, wordAt, drop_append_of_le_length (by omega), take_append_of_le_length]
  rw [length_drop]
  omega

theorem setWord_length (inside : offset + count ≤ bytes.length) : (setWord bytes offset count value).length = bytes.length := by
  simp only [setWord, length_append, length_take, littleEndian_length, length_drop]
  omega

theorem sliceAt_append_right (front back : List UInt8) (offset size : Nat) :
    sliceAt (front ++ back) (front.length + offset) size = sliceAt back offset size := by
  rw [sliceAt, sliceAt, drop_append, drop_eq_nil_of_le (Nat.le_add_right _ _), nil_append, Nat.add_sub_cancel_left]

theorem sliceAt_add (bytes : List UInt8) (offset size more : Nat) :
    sliceAt bytes offset (size + more) = sliceAt bytes offset size ++ sliceAt bytes (offset + size) more := by
  rw [sliceAt, sliceAt, sliceAt, take_add, drop_drop]

end SmartPerf.Data
