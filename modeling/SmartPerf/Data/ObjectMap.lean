import Mathlib.Algebra.BigOperators.Group.List.Basic
import Mathlib.Data.List.Sort
import Mathlib.Tactic

namespace SmartPerf.Data

open List

/-! Maps that keep their keys in the order of insertion, as the objects of a scripting language do. -/

variable {Key Value Entry : Type} [DecidableEq Key] {key other : Key} {map : List (Key × Value)}

def find (key : Key) (map : List (Key × Value)) : Option Value := (map.find? (·.1 = key)).map (·.2)

/-- The value at a key is replaced, or added at the end when there is none. -/
def upsert (key : Key) (update : Option Value → Value) : List (Key × Value) → List (Key × Value)
  | [] => [(key, update none)]
  | (first, value) :: rest =>
    if first = key then (first, update (some value)) :: rest else (first, value) :: upsert key update rest

variable {value : Value} (update : Option Value → Value)

theorem find_cons_of_eq {first : Key} (same : first = key) : find key ((first, value) :: map) = some value := by
  rw [find, find?_cons_of_pos (by simpa using same)]
  rfl

theorem find_cons_of_ne {first : Key} (differs : first ≠ key) :
    find key ((first, value) :: map) = find key map := by
  rw [find, find?_cons_of_neg (by simpa using differs), find]

theorem find_upsert_same : find key (upsert key update map) = some (update (find key map)) := by
  induction map with
  | nil => exact find_cons_of_eq rfl
  | cons pair rest ih =>
    rw [upsert]
    split
    next same => rw [find_cons_of_eq same, find_cons_of_eq same]
    next differs => rw [find_cons_of_ne differs, find_cons_of_ne differs, ih]

theorem find_upsert_other (differs : other ≠ key) : find other (upsert key update map) = find other map := by
  induction map with
  | nil => exact find_cons_of_ne (Ne.symm differs)
  | cons pair rest ih =>
    obtain ⟨first, value⟩ := pair
    rw [upsert]
    split
    next same =>
      have away : first ≠ other := same ▸ Ne.symm differs
      rw [find_cons_of_ne away, find_cons_of_ne away]
    · by_cases same : first = other
      · rw [find_cons_of_eq same, find_cons_of_eq same]
      · rw [find_cons_of_ne same, find_cons_of_ne same, ih]

theorem keys_upsert :
    (upsert key update map).map Prod.fst =
      if key ∈ map.map Prod.fst then map.map Prod.fst else map.map Prod.fst ++ [key] := by
  induction map with
  | nil => rfl
  | cons pair rest ih =>
    obtain ⟨first, value⟩ := pair
    rw [upsert]
    split
    next same => simp [same]
    next differs =>
      rw [map_cons, ih, map_cons]
      have away : ¬ key = first := fun same => differs same.symm
      by_cases inside : key ∈ rest.map Prod.fst
      · rw [if_pos inside, if_pos (mem_cons_of_mem _ inside)]
      · rw [if_neg inside, if_neg (by simp [away, inside])]
        rfl

theorem nodup_upsert (distinct : (map.map Prod.fst).Nodup) : ((upsert key update map).map Prod.fst).Nodup := by
  rw [keys_upsert]
  split
  · exact distinct
  next fresh =>
    rw [nodup_append]
    refine ⟨distinct, nodup_singleton key, ?_⟩
    intro first inside second last
    rw [mem_singleton.mp last]
    rintro rfl
    exact fresh inside

theorem mem_of_find (found : find key map = some value) : (key, value) ∈ map := by
  obtain ⟨pair, first, rfl⟩ := Option.map_eq_some_iff.mp found
  have same : pair.1 = key := by simpa using find?_some first
  rw [← same]
  exact mem_of_find?_eq_some first

theorem find_of_mem (distinct : (map.map Prod.fst).Nodup) (inside : (key, value) ∈ map) :
    find key map = some value := by
  induction map with
  | nil => cases inside
  | cons pair rest ih =>
    rw [map_cons, nodup_cons] at distinct
    rcases mem_cons.mp inside with rfl | later
    · exact find_cons_of_eq rfl
    · have differs : pair.1 ≠ key := by
        intro same
        exact distinct.1 (same ▸ mem_map_of_mem later)
      rw [find_cons_of_ne differs]
      exact ih distinct.2 later

theorem foldlM_some {State Item : Type} {step : State → Item → Option State} {next : State → Item → State} (items : List Item)
    (start : State) (works : ∀ state item, item ∈ items → step state item = some (next state item)) :
    items.foldlM step start = some (items.foldl next start) := by
  induction items generalizing start with
  | nil => rfl
  | cons item rest ih =>
    rw [foldlM_cons, works start item mem_cons_self]
    exact ih _ fun state other inside => works state other (mem_cons_of_mem _ inside)

theorem sum_filter_map {Item Measure : Type} [AddCommMonoid Measure] (chosen : Item → Prop) [DecidablePred chosen]
    (measure : Item → Measure) (items : List Item) :
    ((items.filter fun item => chosen item).map measure).sum = (items.map fun item => if chosen item then measure item else 0).sum := by
  rw [sum_map_ite, sum_map_zero, add_zero]

theorem filter_values (distinct : (map.map Prod.fst).Nodup) {chosen : Value → Bool}
    (only : ∀ pair ∈ map, chosen pair.2 = true ↔ pair.1 = key) :
    (map.map Prod.snd).filter chosen = (find key map).toList := by
  induction map with
  | nil => rfl
  | cons pair rest ih =>
    obtain ⟨first, value⟩ := pair
    rw [map_cons, nodup_cons] at distinct
    have head := only (first, value) mem_cons_self
    have later := ih distinct.2 (forall_mem_of_forall_mem_cons only)
    by_cases same : first = key
    · have absent : find key rest = none := by
        cases found : find key rest with
        | none => rfl
        | some other =>
          have inside : (key, other) ∈ rest := mem_of_find found
          have listed : key ∈ rest.map Prod.fst := mem_map_of_mem inside
          rw [same] at distinct
          exact absurd listed distinct.1
      rw [map_cons, filter_cons_of_pos (head.mpr same), later, absent, find_cons_of_eq same]
      rfl
    · rw [map_cons, filter_cons_of_neg (fun taken => same (head.mp taken)), later, find_cons_of_ne same]

section UpsertAll

variable (keyOf : Entry → Key) (update : Entry → Option Value → Value)

def upsertAll (entries : List Entry) (map : List (Key × Value)) : List (Key × Value) :=
  entries.foldl (fun map entry => upsert (keyOf entry) (update entry) map) map

/-- The value at a key is what the entries with that key make of it, one after the other. -/
def gatherAt (key : Key) (entries : List Entry) (start : Option Value) : Option Value :=
  (entries.filter (keyOf · = key)).foldl (fun value entry => some (update entry value)) start

variable {keyOf update} (entries : List Entry) {Fine : Key → Value → Prop}

theorem find_upsertAll (map : List (Key × Value)) :
    find key (upsertAll keyOf update entries map) = gatherAt keyOf update key entries (find key map) := by
  induction entries generalizing map with
  | nil => rfl
  | cons entry rest ih =>
    rw [upsertAll, foldl_cons, ← upsertAll, ih]
    by_cases same : keyOf entry = key
    · rw [gatherAt, gatherAt, filter_cons_of_pos (by simpa using same), foldl_cons, ← same, find_upsert_same]
    · rw [gatherAt, gatherAt, filter_cons_of_neg (by simpa using same), find_upsert_other _ (Ne.symm same)]

theorem nodup_upsertAll (distinct : (map.map Prod.fst).Nodup) :
    ((upsertAll keyOf update entries map).map Prod.fst).Nodup := by
  induction entries generalizing map with
  | nil => exact distinct
  | cons entry rest ih => exact ih (nodup_upsert _ distinct)

theorem upsert_of_fresh (update : Option Value → Value) (fresh : key ∉ map.map Prod.fst) :
    upsert key update map = map ++ [(key, update none)] := by
  induction map with
  | nil => rfl
  | cons pair rest ih =>
    rw [map_cons, mem_cons, not_or] at fresh
    rw [upsert, if_neg fun same => fresh.1 same.symm, ih fresh.2]
    rfl

theorem upsertAll_of_fresh {entries : List Entry} (distinct : (entries.map keyOf).Nodup)
    (fresh : ∀ entry ∈ entries, keyOf entry ∉ map.map Prod.fst) :
    upsertAll keyOf update entries map = map ++ entries.map fun entry => (keyOf entry, update entry none) := by
  induction entries generalizing map with
  | nil => simp [upsertAll]
  | cons entry rest ih =>
    rw [map_cons, nodup_cons] at distinct
    rw [upsertAll, foldl_cons, ← upsertAll, upsert_of_fresh _ (fresh entry mem_cons_self), ih distinct.2,
      map_cons, append_assoc, singleton_append]
    intro other later
    rw [map_append, mem_append, not_or]
    refine ⟨fresh other (mem_cons_of_mem _ later), fun added => ?_⟩
    have same : keyOf other = keyOf entry := mem_singleton.mp added
    exact distinct.1 (same ▸ mem_map_of_mem later)

theorem mem_keys_upsertAll :
    key ∈ (upsertAll keyOf update entries map).map Prod.fst ↔
      key ∈ map.map Prod.fst ∨ ∃ entry ∈ entries, keyOf entry = key := by
  induction entries generalizing map with
  | nil => simp [upsertAll]
  | cons entry rest ih =>
    have step : key ∈ (upsert (keyOf entry) (update entry) map).map Prod.fst ↔
        key ∈ map.map Prod.fst ∨ keyOf entry = key := by
      rw [keys_upsert]
      split
      next known =>
        constructor
        · exact .inl
        · rintro (old | rfl)
          · exact old
          · exact known
      · rw [mem_append, mem_singleton, eq_comm]
    rw [upsertAll, foldl_cons, ← upsertAll, ih, step, exists_mem_cons_iff, or_assoc]

theorem fine_upsert {update : Option Value → Value} (fine : ∀ pair ∈ map, Fine pair.1 pair.2) (new : Fine key (update none))
    (old : ∀ value, Fine key value → Fine key (update (some value))) :
    ∀ pair ∈ upsert key update map, Fine pair.1 pair.2 := by
  induction map with
  | nil =>
    intro pair inside
    rw [mem_singleton.mp inside]
    exact new
  | cons pair rest ih =>
    obtain ⟨first, value⟩ := pair
    have head := fine (first, value) mem_cons_self
    have tail := forall_mem_of_forall_mem_cons fine
    rw [upsert]
    split
    next same =>
      subst same
      exact forall_mem_cons.mpr ⟨old value head, tail⟩
    · exact forall_mem_cons.mpr ⟨head, ih tail⟩

theorem fine_upsertAll (entries : List Entry) (fine : ∀ pair ∈ map, Fine pair.1 pair.2)
    (new : ∀ entry ∈ entries, Fine (keyOf entry) (update entry none))
    (old : ∀ entry ∈ entries, ∀ value, Fine (keyOf entry) value → Fine (keyOf entry) (update entry (some value))) :
    ∀ pair ∈ upsertAll keyOf update entries map, Fine pair.1 pair.2 := by
  induction entries generalizing map with
  | nil => exact fine
  | cons entry rest ih =>
    exact ih (fine_upsert fine (new entry mem_cons_self) (old entry mem_cons_self))
      (forall_mem_of_forall_mem_cons new)
      (forall_mem_of_forall_mem_cons old)

variable {Measure : Type} [AddCommMonoid Measure] {measure : Value → Measure} {weight : Entry → Measure}

theorem sum_upsert {update : Option Value → Value} {added : Measure} (fine : ∀ pair ∈ map, Fine pair.1 pair.2)
    (new : measure (update none) = added)
    (old : ∀ value, Fine key value → measure (update (some value)) = measure value + added) :
    ((upsert key update map).map fun pair => measure pair.2).sum = (map.map fun pair => measure pair.2).sum + added := by
  induction map with
  | nil => simpa [upsert] using new
  | cons pair rest ih =>
    obtain ⟨first, value⟩ := pair
    have tail := forall_mem_of_forall_mem_cons fine
    rw [upsert]
    split
    next same =>
      subst same
      rw [map_cons, map_cons, sum_cons, sum_cons, old value (fine _ mem_cons_self), add_right_comm]
    · rw [map_cons, map_cons, sum_cons, sum_cons, ih tail, add_assoc]

/-- When every entry adds its weight to the value at its key, all values together have all the weights. -/
theorem sum_upsertAll (entries : List Entry) (fine : ∀ pair ∈ map, Fine pair.1 pair.2)
    (new : ∀ entry ∈ entries, Fine (keyOf entry) (update entry none))
    (old : ∀ entry ∈ entries, ∀ value, Fine (keyOf entry) value → Fine (keyOf entry) (update entry (some value)))
    (newMeasure : ∀ entry ∈ entries, measure (update entry none) = weight entry)
    (oldMeasure : ∀ entry ∈ entries, ∀ value, Fine (keyOf entry) value →
      measure (update entry (some value)) = measure value + weight entry) :
    ((upsertAll keyOf update entries map).map fun pair => measure pair.2).sum =
      (map.map fun pair => measure pair.2).sum + (entries.map weight).sum := by
  induction entries generalizing map with
  | nil => simp [upsertAll]
  | cons entry rest ih =>
    have here := mem_cons_self (a := entry) (l := rest)
    have step := sum_upsert fine (newMeasure entry here) (oldMeasure entry here)
    have later := ih (fine_upsert fine (new entry here) (old entry here))
      (forall_mem_of_forall_mem_cons new)
      (forall_mem_of_forall_mem_cons old)
      (forall_mem_of_forall_mem_cons newMeasure)
      (forall_mem_of_forall_mem_cons oldMeasure)
    rw [upsertAll, foldl_cons, ← upsertAll, later, step, map_cons, sum_cons, add_assoc]

end UpsertAll

/-- The values of an object: those at index keys in ascending order, then the others as they were inserted. -/
def objectValues (map : List (Int × Value)) : List (Int × Value) :=
  (map.filter fun pair => 0 ≤ pair.1 ∧ pair.1 < 2 ^ 32 - 1).insertionSort (·.1 ≤ ·.1) ++
    map.filter fun pair => ¬ (0 ≤ pair.1 ∧ pair.1 < 2 ^ 32 - 1)

theorem objectValues_perm (map : List (Int × Value)) : (objectValues map).Perm map := by
  have sorted := perm_insertionSort (fun first second : Int × Value => first.1 ≤ second.1)
    (map.filter fun pair => 0 ≤ pair.1 ∧ pair.1 < 2 ^ 32 - 1)
  refine (sorted.append_right _).trans ?_
  have parts := filter_append_perm (fun pair : Int × Value => decide (0 ≤ pair.1 ∧ pair.1 < 2 ^ 32 - 1)) map
  simpa only [decide_not] using parts

end SmartPerf.Data
