import Mathlib.Tactic

namespace SmartPerf.Data

open List

/-! Maps that are kept as lists sorted by a key, with the search for the last key up to a bound. -/

variable {α : Type} {key : α → Nat}

def SortedBy (key : α → Nat) (items : List α) : Prop := items.Pairwise (key · < key ·)

/-- The item before `upper_bound(bound)`. -/
def lastUpTo (key : α → Nat) (items : List α) (bound : Nat) : Option α :=
  (items.takeWhile (key · ≤ bound)).getLast?

def insertByKey (key : α → Nat) (item : α) : List α → List α
  | [] => [item]
  | head :: rest =>
    if key item < key head then item :: head :: rest
    else if key item = key head then item :: rest
    else head :: insertByKey key item rest

variable {items : List α} {item other : α} {bound : Nat}

section

variable (sorted : SortedBy key items)
include sorted

theorem takeWhile_eq_filter : items.takeWhile (key · ≤ bound) = items.filter (key · ≤ bound) := by
  induction items with
  | nil => rfl
  | cons head rest ih =>
    obtain ⟨least, sorted⟩ := pairwise_cons.mp sorted
    by_cases below : key head ≤ bound
    · rw [takeWhile_cons_of_pos (by simpa using below), filter_cons_of_pos (by simpa using below), ih sorted]
    · have above : ∀ item ∈ rest, ¬ key item ≤ bound := by
        intro item inside
        have later := least item inside
        omega
      rw [takeWhile_cons_of_neg (by simpa using below), filter_cons_of_neg (by simpa using below)]
      exact (filter_eq_nil_iff.mpr (by simpa using above)).symm

theorem mem_takeWhile_iff : item ∈ items.takeWhile (key · ≤ bound) ↔ item ∈ items ∧ key item ≤ bound := by
  rw [takeWhile_eq_filter sorted, mem_filter, decide_eq_true_eq]

theorem sortedBy_takeWhile (keep : α → Bool) : SortedBy key (items.takeWhile keep) :=
  List.Pairwise.sublist (takeWhile_sublist keep) sorted

theorem eq_of_key_eq (inside : item ∈ items) (also : other ∈ items) (same : key item = key other) : item = other := by
  induction items with
  | nil => cases inside
  | cons head rest ih =>
    obtain ⟨least, sorted⟩ := pairwise_cons.mp sorted
    rcases mem_cons.mp inside with rfl | later
    · rcases mem_cons.mp also with rfl | otherLater
      · rfl
      · have above := least other otherLater
        omega
    · rcases mem_cons.mp also with rfl | otherLater
      · have above := least item later
        omega
      · exact ih sorted later otherLater

theorem key_le_getLast (last : items.getLast? = some item) (inside : other ∈ items) : key other ≤ key item := by
  obtain ⟨front, rfl⟩ := getLast?_eq_some_iff.mp last
  rcases mem_append.mp inside with before | same
  · exact ((pairwise_append.mp sorted).2.2 other before item (by simp)).le
  · rw [mem_singleton.mp same]

theorem lastUpTo_eq_some_iff :
    lastUpTo key items bound = some item ↔
      item ∈ items ∧ key item ≤ bound ∧ ∀ other ∈ items, key other ≤ bound → key other ≤ key item := by
  constructor
  · intro last
    obtain ⟨inside, below⟩ := (mem_takeWhile_iff sorted).mp (mem_of_getLast? last)
    refine ⟨inside, below, fun other member le => ?_⟩
    exact key_le_getLast (sortedBy_takeWhile sorted _) last ((mem_takeWhile_iff sorted).mpr ⟨member, le⟩)
  · intro ⟨inside, below, greatest⟩
    have member := (mem_takeWhile_iff sorted).mpr ⟨inside, below⟩
    cases last : lastUpTo key items bound with
    | none =>
      rw [lastUpTo, getLast?_eq_none_iff] at last
      rw [last] at member
      cases member
    | some found =>
      obtain ⟨foundInside, foundBelow⟩ := (mem_takeWhile_iff sorted).mp (mem_of_getLast? last)
      have upper := key_le_getLast (sortedBy_takeWhile sorted _) last member
      have lower := greatest found foundInside foundBelow
      rw [eq_of_key_eq sorted foundInside inside (Nat.le_antisymm lower upper)]

/-- What `lower_bound(bound)` points at. -/
theorem find?_from_eq_some_iff :
    items.find? (bound ≤ key ·) = some item ↔
      item ∈ items ∧ bound ≤ key item ∧ ∀ other ∈ items, bound ≤ key other → key item ≤ key other := by
  constructor
  · intro found
    obtain ⟨reaches, before, after, rfl, below⟩ := find?_eq_some_iff_append.mp found
    refine ⟨by simp, by simpa using reaches, fun other member above => ?_⟩
    rcases mem_append.mp member with earlier | member
    · simpa [above] using below other earlier
    · rcases mem_cons.mp member with rfl | later
      · exact le_rfl
      · exact ((pairwise_cons.mp (pairwise_append.mp sorted).2.1).1 other later).le
  · intro ⟨inside, reaches, least⟩
    obtain ⟨before, after, rfl⟩ := append_of_mem inside
    refine find?_eq_some_iff_append.mpr ⟨by simpa using reaches, before, after, rfl, fun other earlier => ?_⟩
    have smaller := (pairwise_append.mp sorted).2.2 other earlier item (by simp)
    have below := least other (by simp [earlier])
    simp only [Bool.not_eq_true', decide_eq_false_iff_not]
    omega

theorem mem_insertByKey :
    other ∈ insertByKey key item items ↔ other = item ∨ (other ∈ items ∧ key other ≠ key item) := by
  induction items with
  | nil => simp [insertByKey]
  | cons head rest ih =>
    obtain ⟨least, restSorted⟩ := pairwise_cons.mp sorted
    simp only [insertByKey]
    split
    next first =>
      have distinct : ∀ other ∈ head :: rest, key other ≠ key item := by
        intro other inside
        rcases mem_cons.mp inside with rfl | inside
        · omega
        · have above := least other inside
          omega
      rw [mem_cons]
      exact or_congr_right ⟨fun inside => ⟨inside, distinct other inside⟩, And.left⟩
    · split
      next same =>
        rw [mem_cons, mem_cons]
        apply or_congr_right
        constructor
        · intro inside
          have above := least other inside
          exact ⟨.inr inside, by omega⟩
        · rintro ⟨rfl | inside, distinct⟩
          · exact absurd same.symm distinct
          · exact inside
      next notBefore notSame =>
        rw [mem_cons, ih restSorted, mem_cons]
        constructor
        · rintro (rfl | rfl | ⟨inside, distinct⟩)
          · exact .inr ⟨.inl rfl, fun same => notSame same.symm⟩
          · exact .inl rfl
          · exact .inr ⟨.inr inside, distinct⟩
        · rintro (rfl | ⟨rfl | inside, distinct⟩)
          · exact .inr (.inl rfl)
          · exact .inl rfl
          · exact .inr (.inr ⟨inside, distinct⟩)

theorem sortedBy_insertByKey : SortedBy key (insertByKey key item items) := by
  induction items with
  | nil => exact pairwise_singleton ..
  | cons head rest ih =>
    obtain ⟨least, restSorted⟩ := pairwise_cons.mp sorted
    simp only [insertByKey]
    split
    next first =>
      refine pairwise_cons.mpr ⟨fun other inside => ?_, sorted⟩
      rcases mem_cons.mp inside with rfl | inside
      · exact first
      · exact first.trans (least other inside)
    · split
      next same => exact pairwise_cons.mpr ⟨fun other inside => same ▸ least other inside, restSorted⟩
      next notBefore notSame =>
        refine pairwise_cons.mpr ⟨fun other inside => ?_, ih restSorted⟩
        rcases (mem_insertByKey restSorted).mp inside with rfl | ⟨inside, -⟩
        · omega
        · exact least other inside

end

end SmartPerf.Data
