import SmartPerf.Proto.Scan

namespace SmartPerf.Proto

open SmartPerf.Data List

/-! `PackedRepeatedDataAreaIterator`: the elements of a packed payload. -/

def fixedTypeToSizeMap : ProtoWireType → Option Nat
  | .kFixed32 => some 4
  | .kFixed64 => some 8
  | _ => none

/-- The `wireType` that the template accepts. -/
abbrev PackedWireType := { type : ProtoWireType // type ≠ .kLengthDelimited }

/-- The iterator over a payload, with `cppType` as `α`.  `parseStatus` is the caller's flag. -/
structure PackedIterator (α : Type) where
  currentReadAddr : Nat
  currentValue : α
  currentValueValid : Bool
  parseStatus : Bool
deriving Repr, DecidableEq

section Iterator

variable {α : Type} (wireType : PackedWireType) (cast : Nat → α) (payload : List UInt8)

/-- `operator++`.  `cast` makes a `cppType` of the bits of an element. -/
def PackedIterator.advance (iterator : PackedIterator α) : Except Fault (PackedIterator α) :=
  if !iterator.currentValueValid then .ok iterator
  else if iterator.currentReadAddr = payload.length then .ok { iterator with currentValueValid := false }
  else
    match fixedTypeToSizeMap wireType.val with
    | none =>
      match varIntDecode payload iterator.currentReadAddr payload.length with
      | .error fault => .error fault
      | .ok (newValue, nextPos) =>
        if nextPos ≠ iterator.currentReadAddr then
          .ok { iterator with currentReadAddr := nextPos, currentValue := cast newValue }
        else .ok { iterator with parseStatus := true, currentValueValid := false }
    | some step =>
      if iterator.currentReadAddr + step > payload.length then .error .readOutOfBounds
      else .ok { iterator with
        currentReadAddr := iterator.currentReadAddr + step
        currentValue := cast (ofLittleEndian ((payload.drop iterator.currentReadAddr).take step)) }

/-- The constructor.  Its flag for a payload of a wrong length is not the one of `operator++`. -/
def PackedIterator.new (parseStatus : Bool) : Except Fault (PackedIterator α) :=
  if payload.length = 0 then .ok ⟨0, cast 0, false, parseStatus⟩
  else
    match fixedTypeToSizeMap wireType.val with
    | some step =>
      if payload.length % step ≠ 0 then .ok ⟨0, cast 0, false, false⟩
      else PackedIterator.advance wireType cast payload ⟨0, cast 0, true, parseStatus⟩
    | none => PackedIterator.advance wireType cast payload ⟨0, cast 0, true, parseStatus⟩

/-- `while (itor) { use(*itor); itor++; }`: the values and the flag in the end. -/
def PackedIterator.collect : Nat → PackedIterator α → Except Fault (List α × Bool)
  | 0, _ => .error .diverged
  | fuel + 1, iterator =>
    if !iterator.currentValueValid then .ok ([], iterator.parseStatus)
    else
      match iterator.advance wireType cast payload with
      | .error fault => .error fault
      | .ok after =>
        match collect fuel after with
        | .error fault => .error fault
        | .ok (values, flag) => .ok (iterator.currentValue :: values, flag)

/-- The iteration of a caller whose flag is false.  Each turn takes at least one byte. -/
def packedValues : Except Fault (List α × Bool) :=
  match PackedIterator.new wireType cast payload false with
  | .error fault => .error fault
  | .ok iterator => iterator.collect wireType cast payload (payload.length + 1)

end Iterator

/-- The elements at the front of some bytes, and what is left when no other one can be read. -/
def readElements (wireType : PackedWireType) : Nat → List UInt8 → List Nat × List UInt8
  | 0, bytes => ([], bytes)
  | length + 1, bytes =>
    match readValue wireType.val.code bytes with
    | some (number, _, rest) => (number :: (readElements wireType length rest).1, (readElements wireType length rest).2)
    | none => ([], bytes)

/-- A payload of fixed-size elements has a length that is a multiple of theirs. -/
def LengthFits (wireType : PackedWireType) (bytes : List UInt8) : Prop :=
  ∀ step ∈ fixedTypeToSizeMap wireType.val, bytes.length % step = 0

instance (wireType : PackedWireType) (bytes : List UInt8) : Decidable (LengthFits wireType bytes) :=
  inferInstanceAs (Decidable (∀ step ∈ fixedTypeToSizeMap wireType.val, bytes.length % step = 0))

/-- The values are those of the longest prefix of elements, none for a wrong length, and the flag
is set exactly when the payload is not a whole number of elements. -/
def ReportsErrors {α : Type} (wireType : PackedWireType) (cast : Nat → α) (payload : List UInt8) : Prop :=
  packedValues wireType cast payload = .ok
    ((if LengthFits wireType payload then (readElements wireType payload.length payload).1.map cast else []),
      decide ((readElements wireType payload.length payload).2 ≠ []))

section Reading

variable {α : Type} {wireType : PackedWireType} {cast : Nat → α} {payload : List UInt8}

/-- An element of a fixed size, as the tables of the source and of the wire format have it. -/
theorem readValue_fixed {step : Nat} (fixed : fixedTypeToSizeMap wireType.val = some step) (bytes : List UInt8) :
    0 < step ∧ readValue wireType.val.code bytes = readFixed step bytes := by
  obtain ⟨type, allowed⟩ := wireType
  cases type with
  | kVarInt => cases fixed
  | kLengthDelimited => cases fixed
  | kFixed32 =>
    cases fixed
    exact ⟨by decide, rfl⟩
  | kFixed64 =>
    cases fixed
    exact ⟨by decide, rfl⟩

theorem code_of_not_fixed (varint : fixedTypeToSizeMap wireType.val = none) :
    wireType.val.code = ProtoWireType.kVarInt.code := by
  obtain ⟨type, allowed⟩ := wireType
  cases type with
  | kVarInt => rfl
  | kLengthDelimited => exact absurd rfl allowed
  | kFixed32 => cases varint
  | kFixed64 => cases varint

/-- One step reads the next element, stops at the end, or reports what is not an element. -/
theorem advance_eq (cast : Nat → α) {iterator : PackedIterator α} (valid : iterator.currentValueValid = true)
    (inside : iterator.currentReadAddr ≤ payload.length)
    (fits : LengthFits wireType (payload.drop iterator.currentReadAddr)) :
    iterator.advance wireType cast payload = .ok
      (match readValue wireType.val.code (payload.drop iterator.currentReadAddr) with
        | some (number, _, rest) =>
          { iterator with currentReadAddr := payload.length - rest.length, currentValue := cast number }
        | none =>
          { iterator with
            currentValueValid := false
            parseStatus := iterator.parseStatus || decide (payload.drop iterator.currentReadAddr ≠ []) }) := by
  obtain ⟨position, value, isValid, flag⟩ := iterator
  dsimp only at valid inside fits ⊢
  subst valid
  rw [PackedIterator.advance]
  simp only [Bool.not_true, Bool.false_eq_true, if_false]
  by_cases atEnd : position = payload.length
  · subst atEnd
    have nothing : readValue wireType.val.code ([] : List UInt8) = none := by
      cases fixed : fixedTypeToSizeMap wireType.val with
      | none => rw [code_of_not_fixed fixed]; rfl
      | some step =>
        obtain ⟨positive, read⟩ := readValue_fixed fixed []
        rw [read]
        exact if_neg (Nat.not_le.mpr positive)
    simp [nothing]
  · have inner : position < payload.length := by omega
    rw [if_neg atEnd]
    cases fixed : fixedTypeToSizeMap wireType.val with
    | none =>
      have decoded := varIntDecode_eq inner
      rw [code_of_not_fixed fixed, readValue]
      cases found : readBase128 10 (payload.drop position) with
      | none =>
        rw [found] at decoded
        have more : payload.drop position ≠ [] := by
          rw [ne_eq, drop_eq_nil_iff]
          omega
        simp [decoded, more]
      | some read =>
        rw [found, Option.elim_some] at decoded
        obtain ⟨group, nonempty, shape⟩ := readBase128_suffix found
        have taken := length_pos_iff.mpr nonempty
        have moved : payload.length - read.2.length ≠ position := by
          have lengths := length_of_drop shape taken
          omega
        simp only [decoded, if_pos moved]
        rfl
    | some step =>
      obtain ⟨positive, read⟩ := readValue_fixed fixed (payload.drop position)
      have multiple := fits step fixed
      rw [length_drop] at multiple
      have room : step ≤ payload.length - position := Nat.le_of_dvd (by omega) (Nat.dvd_of_mod_eq_zero multiple)
      have within : ¬ position + step > payload.length := by omega
      rw [read, readFixed, length_drop, if_pos room]
      simp only [if_neg within, length_drop]
      congr 2
      omega

theorem lengthFits_rest {number : Nat} {bytes content rest : List UInt8} (fits : LengthFits wireType bytes)
    (read : readValue wireType.val.code bytes = some (number, content, rest)) :
    LengthFits wireType rest ∧ rest.length < bytes.length := by
  cases fixed : fixedTypeToSizeMap wireType.val with
  | none =>
    rw [code_of_not_fixed fixed] at read
    obtain ⟨group, found, same⟩ := Option.map_eq_some_iff.mp read
    cases same
    obtain ⟨front, nonempty, shape⟩ := readBase128_suffix found
    have taken := length_pos_iff.mpr nonempty
    refine ⟨fun step stated => by simp [fixed] at stated, ?_⟩
    rw [shape, length_append]
    omega
  | some step =>
    obtain ⟨positive, same⟩ := readValue_fixed fixed bytes
    have multiple := fits step fixed
    rw [same, readFixed] at read
    split at read
    next room =>
      cases read
      rw [length_drop]
      refine ⟨fun other stated => ?_, by omega⟩
      rw [Option.mem_def, fixed, Option.some_inj] at stated
      rw [← stated, length_drop]
      exact Nat.sub_mod_eq_zero_of_mod_eq (by simpa using multiple)
    next => cases read

/-- The loop hands out the value it has and those of the elements that follow. -/
theorem collect_eq (cast : Nat → α) {iterator : PackedIterator α} {length : Nat} (valid : iterator.currentValueValid = true)
    (inside : iterator.currentReadAddr ≤ payload.length)
    (fits : LengthFits wireType (payload.drop iterator.currentReadAddr))
    (short : (payload.drop iterator.currentReadAddr).length ≤ length) :
    iterator.collect wireType cast payload (length + 2) = .ok (iterator.currentValue ::
          (readElements wireType length (payload.drop iterator.currentReadAddr)).1.map cast, iterator.parseStatus ||
          decide ((readElements wireType length (payload.drop iterator.currentReadAddr)).2 ≠ [])) := by
  induction length generalizing iterator with
  | zero =>
    have empty : payload.drop iterator.currentReadAddr = [] :=
      eq_nil_of_length_eq_zero (Nat.le_zero.mp short)
    have stepped := advance_eq cast valid inside fits
    cases read : readValue wireType.val.code (payload.drop iterator.currentReadAddr) with
    | none =>
      rw [read] at stepped
      rw [PackedIterator.collect, stepped]
      simp [valid, PackedIterator.collect, readElements]
    | some found =>
      have shorter := (lengthFits_rest fits read).2
      simp [empty] at shorter
  | succ length ih =>
    have stepped := advance_eq cast valid inside fits
    rw [PackedIterator.collect, readElements]
    cases read : readValue wireType.val.code (payload.drop iterator.currentReadAddr) with
    | none =>
      rw [read] at stepped
      rw [stepped]
      simp [valid, PackedIterator.collect]
    | some found =>
      obtain ⟨number, content, rest⟩ := found
      obtain ⟨restFits, shorter⟩ := lengthFits_rest fits read
      obtain ⟨front, shape⟩ := (readValue_suffix read).1
      have behind := drop_of_suffix shape
      rw [read] at stepped
      have onward := @ih { iterator with
        currentReadAddr := payload.length - rest.length, currentValue := cast number } valid
        (Nat.sub_le _ _) (by rwa [behind]) (by rw [behind]; omega)
      rw [behind] at onward
      rw [stepped]
      simp only [valid] at onward
      simp [valid, onward]

theorem left_of_fixed {step length : Nat} {bytes : List UInt8} (fixed : fixedTypeToSizeMap wireType.val = some step)
    (empty : (readElements wireType length bytes).2 = []) : bytes.length % step = 0 := by
  induction length generalizing bytes with
  | zero =>
    rw [show bytes = [] from empty]
    exact Nat.zero_mod _
  | succ length ih =>
    rw [readElements, (readValue_fixed fixed bytes).2, readFixed] at empty
    by_cases room : step ≤ bytes.length
    · rw [if_pos room] at empty
      have multiple := ih empty
      rw [length_drop, ← Nat.mod_eq_sub_mod room] at multiple
      exact multiple
    · rw [if_neg room] at empty
      rw [show bytes = [] from empty]
      exact Nat.zero_mod _

theorem new_of_fits (cast : Nat → α) (fits : LengthFits wireType payload) (nonempty : payload.length ≠ 0) :
    PackedIterator.new wireType cast payload false =
      PackedIterator.advance wireType cast payload ⟨0, cast 0, true, false⟩ := by
  rw [PackedIterator.new, if_neg nonempty]
  cases fixed : fixedTypeToSizeMap wireType.val with
  | none => rfl
  | some step => exact if_neg (not_not.mpr (fits step fixed))

theorem reportsErrors_of_fits (cast : Nat → α) (fits : LengthFits wireType payload) :
    ReportsErrors wireType cast payload := by
  rw [ReportsErrors, packedValues, if_pos fits]
  by_cases empty : payload.length = 0
  · have empty := eq_nil_of_length_eq_zero empty
    subst empty
    rfl
  · -- the constructor has made the first step of a loop that starts before the first element
    have all := @collect_eq α wireType payload cast ⟨0, cast 0, true, false⟩ payload.length rfl (Nat.zero_le _) fits
    rw [PackedIterator.collect, ← new_of_fits cast fits empty] at all
    cases created : PackedIterator.new wireType cast payload false with
    | error fault => simp [created] at all
    | ok iterator =>
      simp only [created] at all
      cases collected : iterator.collect wireType cast payload (payload.length + 1) with
      | error fault => simp [collected] at all
      | ok result =>
        simpa [collected, Prod.ext_iff] using all

end Reading

/-- The caller learns of every payload that is not a whole number of elements, except for one of
fixed-size elements with a wrong length. -/
theorem reportsErrors_iff {α : Type} (wireType : PackedWireType) (cast : Nat → α) (payload : List UInt8) :
    ReportsErrors wireType cast payload ↔ LengthFits wireType payload := by
  refine ⟨fun reports step fixed => ?_, reportsErrors_of_fits cast⟩
  by_contra wrong
  have nonempty : payload.length ≠ 0 := by
    intro empty
    rw [empty] at wrong
    exact wrong rfl
  rw [ReportsErrors, packedValues, PackedIterator.new, if_neg nonempty, Option.mem_def.mp fixed] at reports
  simp only [ne_eq, wrong, not_false_eq_true, if_true, PackedIterator.collect, Bool.not_false, Except.ok.injEq,
    Prod.mk.injEq] at reports
  have whole := reports.2
  rw [eq_comm, decide_eq_false_iff_not, not_not] at whole
  exact wrong (left_of_fixed fixed whole)

theorem not_reportsErrors_threeBytes : ¬ ReportsErrors ⟨.kFixed32, by decide⟩ id [1, 2, 3] := by
  rw [ReportsErrors]
  decide

end SmartPerf.Proto
