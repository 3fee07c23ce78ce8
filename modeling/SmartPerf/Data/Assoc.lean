import Mathlib.Data.List.AList
import SmartPerf.Data.ListLookup

namespace SmartPerf.Data

/-! Lookups in an association list after an update, and association lists that name rows of a table. -/

variable {Key Value : Type} [DecidableEq Key] {map : AList fun _ : Key => Value} {key other : Key} {value new : Value}

theorem lookup_of_erase (found : (map.erase other).lookup key = some value) : map.lookup key = some value := by
  by_cases same : key = other
  · subst same
    rw [AList.lookup_erase] at found
    cases found
  · rwa [AList.lookup_erase_ne same] at found

theorem lookup_of_insert (found : (map.insert other new).lookup key = some value) :
    value = new ∨ map.lookup key = some value := by
  by_cases same : key = other
  · subst same
    rw [AList.lookup_insert] at found
    exact .inl (Option.some.inj found).symm
  · rw [AList.lookup_insert_ne same] at found
    exact .inr found

/-- An insertion that keeps the value a key already has. -/
def insertNew (key : Key) (value : Value) (map : AList fun _ : Key => Value) : AList fun _ : Key => Value :=
  match map.lookup key with
  | none => map.insert key value
  | some _ => map

/-- The rows that the list names are in the table, are open and have the key they are named by. -/
def Indexes {Row : Type} (map : AList fun _ : Key => Nat) (rows : List Row) (key : Row → Key) (isOpen : Row → Bool) :
    Prop :=
  ∀ name row, map.lookup name = some row → ∃ entry, rows[row]? = some entry ∧ isOpen entry ∧ key entry = name

namespace Indexes

variable {Row : Type} {map : AList fun _ : Key => Nat} {rows : List Row} {key : Row → Key} {isOpen : Row → Bool}
  (indexes : Indexes map rows key isOpen)
include indexes

theorem append (last : Row) : Indexes map (rows ++ [last]) key isOpen := by
  intro name row lookup
  obtain ⟨entry, found, opened, same⟩ := indexes name row lookup
  exact ⟨entry, lookup_append_of_lookup found _, opened, same⟩

theorem insertNew {last : Row} (opened : isOpen last) :
    Indexes (insertNew (key last) rows.length map) (rows ++ [last]) key isOpen := by
  rw [Data.insertNew]
  split
  · intro name row lookup
    by_cases same : name = key last
    · rw [same, AList.lookup_insert] at lookup
      obtain rfl := Option.some.inj lookup
      exact ⟨last, List.getElem?_concat_length, opened, same.symm⟩
    · rw [AList.lookup_insert_ne same] at lookup
      exact indexes.append last name row lookup
  · exact indexes.append last

theorem erase {row : Nat} {entry : Row} (found : rows[row]? = some entry) (change : Row → Row) :
    Indexes (map.erase (key entry)) (rows.modify row change) key isOpen := by
  intro name other lookup
  obtain ⟨named, present, opened, same⟩ := indexes name other (lookup_of_erase lookup)
  have distinct : row ≠ other := by
    rintro rfl
    obtain rfl := Option.mem_unique found present
    rw [← same, AList.lookup_erase] at lookup
    cases lookup
  exact ⟨named, lookup_modify_iff.mpr ⟨named, present, (if_neg distinct).symm⟩, opened, same⟩

end Indexes

end SmartPerf.Data
