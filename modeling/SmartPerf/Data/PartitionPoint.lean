import Mathlib.Tactic
import Mathlib.Data.List.Sort

namespace SmartPerf.Data

open List

/-! Searches in a partitioned window of a sequence, and runs of consecutive numbers. -/

variable {α : Type} {first last : Nat} {holds : α → Bool} {values : List α}

/-- The first position of the window `[first, last)` at which `holds` fails, or
the end of the window. -/
def partitionPoint (holds : α → Bool) (values : List α) (first last : Nat) : Nat :=
  first + (((values.drop first).take (last - first)).takeWhile holds).length

theorem partitionPoint_le (holds : α → Bool) (values : List α) (window : first ≤ last) :
    partitionPoint holds values first last ≤ last := by
  have whole := (List.takeWhile_prefix holds (l := (values.drop first).take (last - first))).length_le
  have bound := length_take_le (last - first) (values.drop first)
  simp only [partitionPoint]
  omega

theorem lt_takeWhile_length
    (downward : values.Pairwise (fun earlier later => holds later → holds earlier))
    {position : Nat} {value : α} (found : values[position]? = some value) :
    position < (values.takeWhile holds).length ↔ holds value := by
  induction values generalizing position with
  | nil => simp at found
  | cons head rest ih =>
    obtain ⟨headDown, restDown⟩ := pairwise_cons.mp downward
    cases position with
    | zero =>
      obtain rfl : head = value := by simpa using found
      by_cases headHolds : holds head <;> simp [headHolds]
    | succ position =>
      have restFound : rest[position]? = some value := by simpa using found
      by_cases headHolds : holds head
      · simpa [headHolds] using ih restDown restFound
      · have valueFails : ¬ holds value :=
          fun valueHolds => headHolds (headDown value (mem_of_getElem? restFound) valueHolds)
        simp [headHolds, valueFails]

/-- In a partitioned window the positions before the partition point are the
ones at which `holds` is true. -/
theorem lt_partitionPoint
    (downward : values.Pairwise (fun earlier later => holds later → holds earlier))
    {position : Nat} {value : α} (found : values[position]? = some value)
    (lower : first ≤ position) (upper : position < last) :
    position < partitionPoint holds values first last ↔ holds value := by
  obtain ⟨offset, rfl⟩ := Nat.exists_eq_add_of_le lower
  have windowDown := (downward.sublist (drop_sublist first values)).sublist
    (take_sublist (last - first) _)
  have windowFound : ((values.drop first).take (last - first))[offset]? = some value := by
    rw [getElem?_take_of_lt (by omega), getElem?_drop]
    exact found
  rw [← lt_takeWhile_length windowDown windowFound, partitionPoint]
  omega

/-- The consecutive numbers from `start` up to, but not including, `stop`. -/
def rangeFrom (start stop : Int) : List Nat := List.range' start.toNat (stop - start).toNat

theorem mem_rangeFrom {start stop : Int} (nonneg : 0 ≤ start) {row : Nat} :
    row ∈ rangeFrom start stop ↔ start ≤ row ∧ (row : Int) < stop := by
  simp only [rangeFrom, mem_range'_1]
  omega

end SmartPerf.Data
