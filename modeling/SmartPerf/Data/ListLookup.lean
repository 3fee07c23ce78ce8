import Mathlib.Tactic

namespace SmartPerf.Data

open List

/-! Lookups in lists that grow at the end and change in place. -/

variable {α : Type*} {items : List α} {item after : α} {index place : Nat}

theorem lookup_lt (found : items[index]? = some item) : index < items.length :=
  (List.getElem?_eq_some_iff.mp found).1

theorem lookup_append_iff :
    (items ++ [item])[index]? = some after ↔ items[index]? = some after ∨ (index = items.length ∧ after = item) := by
  rcases Nat.lt_trichotomy index items.length with before | here | beyond
  · rw [getElem?_append_left before]
    exact ⟨.inl, fun either => either.resolve_right fun last => by omega⟩
  · subst here
    simp [eq_comm]
  · rw [getElem?_eq_none (by simp; omega), getElem?_eq_none beyond.le]
    simp [beyond.ne']

theorem lookup_append_of_lookup (found : items[index]? = some after) (item : α) :
    (items ++ [item])[index]? = some after :=
  lookup_append_iff.mpr (.inl found)

theorem lookup_modify_iff {change : α → α} :
    (items.modify index change)[place]? = some after ↔
      ∃ before, items[place]? = some before ∧ after = if index = place then change before else before := by
  rw [getElem?_modify]
  constructor
  · intro found
    obtain ⟨before, lookup, rfl⟩ := Option.map_eq_some_iff.mp found
    exact ⟨before, lookup, rfl⟩
  · rintro ⟨before, lookup, rfl⟩
    rw [lookup]
    rfl

theorem sum_map_modify {change : α → α} (weight : α → Nat) (found : items[index]? = some item) :
    ((items.modify index change).map weight).sum + weight item = (items.map weight).sum + weight (change item) := by
  induction items generalizing index with
  | nil => cases found
  | cons first rest ih =>
    cases index with
    | zero =>
      obtain rfl : first = item := Option.some.inj found
      simp only [modify_zero_cons, map_cons, sum_cons]
      omega
    | succ index =>
      have rest_sum := @ih index found
      simp only [modify_succ_cons, map_cons, sum_cons]
      omega

end SmartPerf.Data
