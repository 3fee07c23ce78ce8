import SmartPerf.Data.Words

namespace SmartPerf.Data

open List

/-! Bytes at addresses. -/

variable (memory : Nat → UInt8) {start size : Nat}

def bytesAt (start size : Nat) : List UInt8 := (List.range' start size).map memory

def numberAt (start size : Nat) : Nat := ofLittleEndian (bytesAt memory start size)

def LiesAt (start : Nat) (bytes : List UInt8) : Prop := bytesAt memory start bytes.length = bytes

def placed (bytes : List UInt8) (behind : Nat → UInt8) (address : Nat) : UInt8 := bytes.getD address (behind address)

@[simp] theorem length_bytesAt (start size : Nat) : (bytesAt memory start size).length = size := by
  rw [bytesAt, length_map, length_range']

theorem bytesAt_add (start size more : Nat) :
    bytesAt memory start (size + more) = bytesAt memory start size ++ bytesAt memory (start + size) more := by
  rw [bytesAt, bytesAt, bytesAt, ← map_append, range'_append_1]

variable {memory}

theorem liesAt_append {front back : List UInt8} :
    LiesAt memory start (front ++ back) ↔ LiesAt memory start front ∧ LiesAt memory (start + front.length) back := by
  unfold LiesAt
  rw [length_append, bytesAt_add]
  constructor
  · intro whole
    exact append_inj whole (length_bytesAt _ _ _)
  · intro parts
    rw [parts.1, parts.2]

theorem LiesAt.numberAt {value : Nat} (lies : LiesAt memory start (littleEndian size value)) (small : value < 256 ^ size) :
    numberAt memory start size = value := by
  rw [LiesAt, littleEndian_length] at lies
  rw [Data.numberAt, lies, ofLittleEndian_littleEndian _ _ small]

theorem LiesAt.take {bytes : List UInt8} (lies : LiesAt memory start bytes) (inside : size ≤ bytes.length) :
    bytesAt memory start size = bytes.take size := by
  obtain ⟨front, -⟩ := liesAt_append.mp ((take_append_drop size bytes).symm ▸ lies)
  rwa [LiesAt, length_take, Nat.min_eq_left inside] at front

theorem liesAt_placed (bytes : List UInt8) (behind : Nat → UInt8) : LiesAt (placed bytes behind) 0 bytes := by
  apply ext_getElem (length_bytesAt _ _ _)
  intro index _ inside
  simp only [bytesAt, getElem_map, getElem_range', Nat.zero_add, Nat.one_mul, placed]
  rw [getD_eq_getElem?_getD, getElem?_eq_getElem inside, Option.getD_some]

theorem forall_mem_range'_lt {start count limit : Nat} :
    (∀ index ∈ List.range' start count, index < limit) ↔ count = 0 ∨ start + count ≤ limit := by
  constructor
  · intro below
    rcases Nat.eq_zero_or_pos count with none | some_count
    · exact .inl none
    · have last := below (start + count - 1) (mem_range'_1.mpr (by omega))
      exact .inr (by omega)
  · intro bound index listed
    have range := mem_range'_1.mp listed
    omega

end SmartPerf.Data
