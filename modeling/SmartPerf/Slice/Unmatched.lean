import SmartPerf.Slice.SliceFilter

namespace SmartPerf.Slice

open List

/-! `CloseUnMatchedSlice` on a stack in which an ended slice lies below open ones. -/

variable {slices : CallStack} {stack below above : SlicesStack} {ts : Int}

def startOf (slices : CallStack) (slice : SliceData) : Int :=
  toInt64 (slices.timeStamps.getD (slice.index % 2 ^ 32) 0)

def durOf (slices : CallStack) (slice : SliceData) : Int := toInt64 (slices.durs.getD (slice.index % 2 ^ 32) 0)

def endOf (slices : CallStack) (slice : SliceData) : Int :=
  Int.bmod (startOf slices slice + durOf slices slice) (2 ^ 64)

/-- The tables have the same times, read as the source reads them. -/
def SameTimes (before after : CallStack) : Prop :=
  after.timeStamps = before.timeStamps ∧
    ∀ index, toInt64 (after.durs.getD index 0) = toInt64 (before.durs.getD index 0)

theorem SameTimes.trans {before middle after : CallStack} (first : SameTimes before middle)
    (second : SameTimes middle after) : SameTimes before after :=
  ⟨second.1.trans first.1, fun index => (second.2 index).trans (first.2 index)⟩

theorem toInt64_restored (start dur : Nat) :
    toInt64 ((Int.bmod (toInt64 start + toInt64 dur) (2 ^ 64) - start) % 2 ^ 64).toNat = toInt64 dur := by
  have restored : ∀ (size : Nat) (start dur : Int),
      Int.bmod ((Int.bmod (Int.bmod start size + Int.bmod dur size) size - start) % size) size = Int.bmod dur size := by
    simp
  have word := restored (2 ^ 64) start dur
  rw [← Int.toNat_of_nonneg (Int.emod_nonneg _ (by decide))] at word
  exact word

/-- A row that is given the duration up to the end that it has. -/
theorem setDur_sameTimes (slices : CallStack) (row : Nat) {endTs : Int}
    (known : endTs = Int.bmod (toInt64 (slices.timeStamps.getD row 0) + toInt64 (slices.durs.getD row 0)) (2 ^ 64)) :
    SameTimes slices (slices.setDur row ((endTs - slices.timeStamps.getD row 0) % 2 ^ 64).toNat) := by
  refine ⟨rfl, fun index => ?_⟩
  have restored := toInt64_restored (slices.timeStamps.getD row 0) (slices.durs.getD row 0)
  rw [← known] at restored
  rw [CallStack.setDur, getD_eq_getElem?_getD, getElem?_set]
  split
  next same =>
    subst same
    split
    · exact restored
    next outside => rw [getD_eq_getElem?_getD, getElem?_eq_none (by omega)]
  next => rw [getD_eq_getElem?_getD]

theorem closeChildren_spec {row : Nat} {endTs : Int} {count : Nat}
    (known : endTs = Int.bmod (toInt64 (slices.timeStamps.getD row 0) + toInt64 (slices.durs.getD row 0)) (2 ^ 64)) :
    SameTimes slices (closeChildren row endTs count slices stack).1 ∧
      (closeChildren row endTs count slices stack).2 = stack.take (stack.length - count) := by
  induction count generalizing slices stack with
  | zero => exact ⟨⟨rfl, fun _ => rfl⟩, by simp [closeChildren]⟩
  | succ count ih =>
    have same := setDur_sameTimes slices row known
    have still := known
    rw [← same.1, ← same.2 row] at still
    obtain ⟨rest, shorter⟩ := @ih _ stack.dropLast still
    refine ⟨same.trans rest, ?_⟩
    rw [closeChildren, shorter, dropLast_eq_take, take_take, length_take]
    congr 1
    omega

theorem closeUnMatchedSliceBelow_succ {i : Nat} {slice : SliceData} (found : stack[i]? = some slice)
    (incomplete : Bool) :
    closeUnMatchedSliceBelow ts (i + 1) incomplete slices stack =
      if durOf slices slice = -1 then closeUnMatchedSliceBelow ts i true slices stack
      else if incomplete then
        if ts ≤ endOf slices slice then closeUnMatchedSliceBelow ts i incomplete slices stack
        else
          closeUnMatchedSliceBelow ts i false
            (closeChildren (slice.index % 2 ^ 32) (endOf slices slice) (stack.length - 1 - i) slices stack).1
            (closeChildren (slice.index % 2 ^ 32) (endOf slices slice) (stack.length - 1 - i) slices stack).2.dropLast
      else if endOf slices slice ≤ ts then closeUnMatchedSliceBelow ts i incomplete slices stack.dropLast
      else closeUnMatchedSliceBelow ts i incomplete slices stack := by
  simp only [closeUnMatchedSliceBelow, found]
  rfl

theorem closeChildren_of_slice (slices : CallStack) (stack : SlicesStack) (slice : SliceData) (count : Nat) :
    SameTimes slices (closeChildren (slice.index % 2 ^ 32) (endOf slices slice) count slices stack).1 ∧
      (closeChildren (slice.index % 2 ^ 32) (endOf slices slice) count slices stack).2 =
        stack.take (stack.length - count) := by
  apply closeChildren_spec
  simp only [endOf, startOf, durOf]

/-- No duration is ever changed, and only entries at the end of the stack are removed. -/
theorem closeUnMatchedSliceBelow_spec (count : Nat) (incomplete : Bool) :
    SameTimes slices (closeUnMatchedSliceBelow ts count incomplete slices stack).1 ∧
      (closeUnMatchedSliceBelow ts count incomplete slices stack).2 <+: stack := by
  induction count generalizing incomplete slices stack with
  | zero => exact ⟨⟨rfl, fun _ => rfl⟩, prefix_refl _⟩
  | succ i ih =>
    cases found : stack[i]? with
    | none =>
      simp only [closeUnMatchedSliceBelow, found]
      exact ih incomplete
    | some slice =>
      rw [closeUnMatchedSliceBelow_succ found]
      split
      · exact ih true
      · split
        · split
          · exact ih incomplete
          · obtain ⟨same, shorter⟩ := closeChildren_of_slice slices stack slice (stack.length - 1 - i)
            rw [shorter]
            refine ⟨same.trans (ih false).1, (ih false).2.trans ?_⟩
            exact (List.dropLast_prefix _).trans (List.take_prefix _ _)
        · split
          · exact ⟨(ih incomplete).1, (ih incomplete).2.trans (List.dropLast_prefix _)⟩
          · exact ih incomplete

/-- The slice has an end before `ts`, an open slice lies above it, and no other slice that has
ended lies between them. -/
structure EndedBelow (slices : CallStack) (ts : Int) (parent : SliceData) (above : SlicesStack) : Prop where
  known : durOf slices parent ≠ -1
  ended : endOf slices parent < ts
  covered : ∃ child ∈ above, durOf slices child = -1
  nearest : ∀ {front back slice}, above = front ++ slice :: back → durOf slices slice ≠ -1 →
    (∃ child ∈ back, durOf slices child = -1) → ts ≤ endOf slices slice

/-- Going down to the slice with an end: `back` has been passed, and some of it is still there. -/
theorem close_above {parent : SliceData} (ended : EndedBelow slices ts parent above) {front back left : SlicesStack}
    {incomplete : Bool} (parts : above = front ++ back)
    (flag : incomplete = true ↔ ∃ child ∈ back, durOf slices child = -1) :
    (closeUnMatchedSliceBelow ts (below.length + 1 + front.length) incomplete slices
      (below ++ parent :: (front ++ left))).2 <+: below := by
  induction front using List.reverseRecOn generalizing back left incomplete with
  | nil =>
    have passed : incomplete = true := flag.mpr (by simpa [parts] using ended.covered)
    have here : (below ++ parent :: ([] ++ left))[below.length]? = some parent := by simp
    obtain ⟨-, shorter⟩ := closeChildren_of_slice slices (below ++ parent :: ([] ++ left)) parent
      ((below ++ parent :: ([] ++ left)).length - 1 - below.length)
    have reached : ¬ ts ≤ endOf slices parent := by
      have before := ended.ended
      omega
    rw [length_nil, Nat.add_zero, closeUnMatchedSliceBelow_succ here, if_neg ended.known, if_pos passed,
      if_neg reached, shorter]
    have kept : ((below ++ parent :: ([] ++ left)).take ((below ++ parent :: ([] ++ left)).length -
        ((below ++ parent :: ([] ++ left)).length - 1 - below.length))).dropLast = below := by
      rw [nil_append, show (below ++ parent :: left).length - ((below ++ parent :: left).length - 1 - below.length) =
        below.length + 1 by simp; omega]
      simp [take_append]
    rw [kept]
    exact (closeUnMatchedSliceBelow_spec _ _).2
  | append_singleton front slice ih =>
    have here : (below ++ parent :: (front ++ [slice] ++ left))[below.length + 1 + front.length]? = some slice := by
      rw [getElem?_append_right (by omega), show below.length + 1 + front.length - below.length =
        front.length + 1 by omega, getElem?_cons_succ]
      simp
    have shape : below ++ parent :: (front ++ [slice] ++ left) = below ++ parent :: (front ++ (slice :: left)) := by simp
    have split : above = front ++ slice :: back := by simp [parts]
    rw [length_append, length_singleton, ← Nat.add_assoc, closeUnMatchedSliceBelow_succ here]
    by_cases isOpen : durOf slices slice = -1
    · rw [if_pos isOpen, shape]
      exact ih split ⟨fun _ => ⟨slice, mem_cons_self, isOpen⟩, fun _ => rfl⟩
    · have still : incomplete = true ↔ ∃ child ∈ slice :: back, durOf slices child = -1 := by
        simp [flag, isOpen]
      rw [if_neg isOpen]
      by_cases passed : incomplete = true
      · rw [if_pos passed, if_pos (ended.nearest split isOpen (flag.mp passed)), shape]
        exact ih split still
      · rw [if_neg passed]
        split
        · have shorter : (below ++ parent :: (front ++ [slice] ++ left)).dropLast =
              below ++ parent :: (front ++ (slice :: left).dropLast) := by
            rw [shape, dropLast_append_of_ne_nil (by simp), dropLast_cons_of_ne_nil (by simp),
              dropLast_append_of_ne_nil (by simp)]
          rw [shorter]
          exact ih split still
        · rw [shape]
          exact ih split still

/-- Every open slice above the ended one gets its end, all of them leave the stack with it, and no
other duration changes. -/
def ClosesChildren (slices : CallStack) (ts : Nat) (below : SlicesStack) (parent : SliceData) (above : SlicesStack) :
    Prop :=
  (∀ child ∈ above, durOf slices child = -1 → durOf (closeUnMatchedSlice ts slices (below ++ parent :: above)).1 child =
        Int.bmod (endOf slices parent - startOf slices child) (2 ^ 64)) ∧
    (closeUnMatchedSlice ts slices (below ++ parent :: above)).2 <+: below ∧
    ∀ row, toInt64 (slices.durs.getD row 0) ≠ -1 →
      toInt64 ((closeUnMatchedSlice ts slices (below ++ parent :: above)).1.durs.getD row 0) =
        toInt64 (slices.durs.getD row 0)

/-- The children stay open, so that they have the end of the ended slice only when the open mark
is this end. -/
theorem closesChildren_iff (slices : CallStack) (ts : Nat) (below : SlicesStack) (parent : SliceData)
    (above : SlicesStack) (ended : EndedBelow slices (toInt64 ts) parent above) :
    ClosesChildren slices ts below parent above ↔ ∀ child ∈ above, durOf slices child = -1 →
      Int.bmod (endOf slices parent - startOf slices child) (2 ^ 64) = -1 := by
  have whole : (below ++ parent :: above).length = below.length + 1 + above.length := by
    simp only [length_append, length_cons]
    omega
  have removed : (closeUnMatchedSlice ts slices (below ++ parent :: above)).2 <+: below := by
    have down := @close_above slices below above (toInt64 ts) parent ended above [] [] false (by simp) (by simp)
    rwa [append_nil, ← whole] at down
  have same : SameTimes slices (closeUnMatchedSlice ts slices (below ++ parent :: above)).1 :=
    (closeUnMatchedSliceBelow_spec _ _).1
  constructor
  · rintro ⟨closed, -, -⟩ child member isOpen
    rw [← closed child member isOpen, durOf, same.2]
    exact isOpen
  · intro marks
    refine ⟨fun child member isOpen => ?_, removed, fun row _ => same.2 row⟩
    rw [marks child member isOpen, durOf, same.2]
    exact isOpen

def rowSlice (row : Nat) : SliceData := { timeStamp := 0, duration := -1, internalTid := 0, cat := 0, name := 0, index := row }

/-- A slice from 0 to 5, and one that is open since `start`. -/
def familyTable (start : Nat) : CallStack := { timeStamps := [0, start], durs := [5, invalidUint64] }

theorem familyTable_ended (start : Nat) : EndedBelow (familyTable start) (toInt64 10) (rowSlice 0) [rowSlice 1] where
  known := by rw [show durOf (familyTable start) (rowSlice 0) = toInt64 5 from rfl]; decide
  ended := by
    rw [show endOf (familyTable start) (rowSlice 0) = Int.bmod (toInt64 0 + toInt64 5) (2 ^ 64) from rfl]
    decide
  covered := ⟨rowSlice 1, mem_singleton_self _, by
    rw [show durOf (familyTable start) (rowSlice 1) = toInt64 invalidUint64 from rfl]; decide⟩
  nearest := by
    intro front back slice parts _ covered
    obtain ⟨child, member, -⟩ := covered
    have length := congrArg List.length parts
    have inside := length_pos_of_mem member
    simp only [length_append, length_cons, length_nil] at length
    omega

theorem closesChildren_startsAfter : ClosesChildren (familyTable 6) 10 [] (rowSlice 0) [rowSlice 1] := by
  refine (closesChildren_iff (familyTable 6) 10 [] (rowSlice 0) [rowSlice 1] (familyTable_ended 6)).mpr ?_
  intro child member _
  rw [mem_singleton.mp member]
  decide

theorem not_closesChildren_inside : ¬ ClosesChildren (familyTable 2) 10 [] (rowSlice 0) [rowSlice 1] := by
  rintro ⟨closed, -, -⟩
  have wrong := closed (rowSlice 1) (mem_singleton_self _) (by decide)
  revert wrong
  decide

end SmartPerf.Slice
