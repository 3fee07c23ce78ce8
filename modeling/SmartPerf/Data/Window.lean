import SmartPerf.Data.StableSort

namespace SmartPerf.Data

open List

/-! Sorting a stream through a window. Items are held back, and from time to time the smallest of them are passed on.
When an item is late by less than the window, nothing that comes later belongs before what has been passed on. -/

structure Window (Item : Type*) where
  held : List Item := []
  passed : List Item := []

variable {Item Key : Type*} [LinearOrder Key] {key : Item → Key}

namespace Window

def add (window : Window Item) (items : List Item) : Window Item := { window with held := window.held ++ items }

def flush (key : Item → Key) (count : Nat) (window : Window Item) : Window Item where
  held := (stableSort key window.held).drop count
  passed := window.passed ++ (stableSort key window.held).take count

theorem sameRanks_flush (count : Nat) (window : Window Item) :
    SameRanks key ((window.flush key count).passed ++ (window.flush key count).held) (window.passed ++ window.held) := by
  have same := (SameRanks.refl window.passed).append
    (stableSort_sameRanks : SameRanks key (stableSort key window.held) window.held)
  rw [flush, append_assoc, take_append_drop]
  exact same

end Window

/-- No item is earlier than one that came at least `late` places before it. -/
def BoundedLateness (key : Item → Key) (late : Nat) (items : List Item) : Prop :=
  ∀ first second (first_lt : first < items.length) (second_lt : second < items.length), first + late ≤ second →
    key items[first] ≤ key items[second]

instance (key : Item → Key) (late : Nat) (items : List Item) : Decidable (BoundedLateness key late items) :=
  decidable_of_iff
    (∀ first second : Fin items.length, first.val + late ≤ second.val → key (items.get first) ≤ key (items.get second))
    ⟨fun bounded first second first_lt second_lt => bounded ⟨first, first_lt⟩ ⟨second, second_lt⟩,
      fun bounded first second => bounded first second first.isLt second.isLt⟩

theorem BoundedLateness.sublist {late : Nat} {some_items items : List Item} (bounded : BoundedLateness key late items)
    (part : some_items.Sublist items) : BoundedLateness key late some_items := by
  obtain ⟨place, same⟩ := sublist_iff_exists_fin_orderEmbedding_get_eq.mp part
  have apart_in_items : ∀ steps first (later_lt : first + steps < some_items.length),
      (place ⟨first, by omega⟩).val + steps ≤ (place ⟨first + steps, later_lt⟩).val := by
    intro steps
    induction steps with
    | zero => intro first later_lt; rfl
    | succ steps ih =>
      intro first later_lt
      have before := ih first (by omega)
      have next : place ⟨first + steps, by omega⟩ < place ⟨first + (steps + 1), later_lt⟩ :=
        place.lt_iff_lt.mpr (Fin.mk_lt_mk.mpr (by omega))
      omega
  intro first second first_lt second_lt apart
  have first_same := same ⟨first, first_lt⟩
  have second_same := same ⟨second, second_lt⟩
  have distance := apart_in_items (second - first) first (by omega)
  simp only [Nat.add_sub_cancel' (show first ≤ second by omega)] at distance
  have ordered := bounded (place ⟨first, first_lt⟩) (place ⟨second, second_lt⟩) (Fin.isLt _) (Fin.isLt _) (by omega)
  rw [get_eq_getElem] at first_same second_same
  rw [first_same, second_same]
  exact ordered

theorem BoundedLateness.countP_lt {late : Nat} {seen future : List Item} (bounded : BoundedLateness key late (seen ++ future))
    {item : Item} (coming : item ∈ future) (positive : 0 < late) : seen.countP (fun other => key item < key other) < late := by
  obtain ⟨place, place_lt, rfl⟩ := getElem_of_mem coming
  have recent : seen = seen.take (seen.length - (late - 1)) ++ seen.drop (seen.length - (late - 1)) :=
    (take_append_drop _ _).symm
  have none_before : (seen.take (seen.length - (late - 1))).countP (fun other => key future[place] < key other) = 0 := by
    refine countP_eq_zero.mpr fun other is_old => ?_
    obtain ⟨index, index_lt, rfl⟩ := getElem_of_mem is_old
    rw [length_take] at index_lt
    have ordered := bounded index (seen.length + place) (by rw [length_append]; omega)
      (by rw [length_append]; omega) (by omega)
    rw [getElem_append_left (by omega), getElem_append_right (by omega)] at ordered
    simp only [Nat.add_sub_cancel_left] at ordered
    simp only [getElem_take, decide_eq_true_eq, not_lt]
    exact ordered
  have few_left : (seen.drop (seen.length - (late - 1))).countP (fun other => key future[place] < key other) ≤ late - 1 := by
    refine countP_le_length.trans ?_
    rw [length_drop]
    omega
  rw [recent, countP_append]
  omega

/-- What is known of a window when some items have been seen and others are to come. -/
structure Windowed (key : Item → Key) (window : Window Item) (seen future : List Item) : Prop where
  ranks : SameRanks key (window.passed ++ window.held) seen
  order : InOrder key window.passed
  below : ∀ early ∈ window.passed, ∀ item ∈ window.held ++ future, key early ≤ key item

namespace Windowed

variable {window : Window Item} {seen future : List Item}

theorem start (items : List Item) : Windowed key {} [] items where
  ranks _ := rfl
  order := List.Pairwise.nil
  below _ listed := absurd listed not_mem_nil

theorem add {items : List Item} (windowed : Windowed key window seen (items ++ future)) :
    Windowed key (window.add items) (seen ++ items) future where
  ranks := by
    have same := windowed.ranks.append (SameRanks.refl items)
    rw [append_assoc] at same
    exact same
  order := windowed.order
  below := by
    intro early listed other is_later
    refine windowed.below early listed other ?_
    rw [Window.add, append_assoc] at is_later
    exact is_later

theorem flush {late count : Nat} (windowed : Windowed key window seen future)
    (bounded : BoundedLateness key late (seen ++ future)) (positive : 0 < late)
    (enough : count + late ≤ window.held.length + 1) : Windowed key (window.flush key count) seen future := by
  have sorted_order : InOrder key (stableSort key window.held) := stableSort_inOrder
  have whole : (stableSort key window.held).take count ++ (stableSort key window.held).drop count =
      stableSort key window.held := take_append_drop _ _
  have parts := sorted_order
  rw [← whole] at parts
  obtain ⟨front_order, -, front_below⟩ := pairwise_append.mp parts
  have held_of_sorted : ∀ item ∈ stableSort key window.held, item ∈ window.held :=
    fun item listed => stableSort_perm.mem_iff.mp listed
  refine ⟨?_, ?_, ?_⟩
  · exact (window.sameRanks_flush count).trans windowed.ranks
  · refine pairwise_append.mpr ⟨windowed.order, front_order, fun early is_passed item is_front => ?_⟩
    exact windowed.below early is_passed item (mem_append_left _ (held_of_sorted item (mem_of_mem_take is_front)))
  · intro early is_passed item is_later
    rcases mem_append.mp is_passed with is_old | is_front
    · rcases mem_append.mp is_later with is_held | is_coming
      · exact windowed.below early is_old item
          (mem_append_left _ (held_of_sorted item (mem_of_mem_drop is_held)))
      · exact windowed.below early is_old item (mem_append_right _ is_coming)
    · rcases mem_append.mp is_later with is_held | is_coming
      · exact front_below early is_front item is_held
      · -- otherwise all that are held back are later than the item, and these are too many
        by_contra later
        have few := bounded.countP_lt is_coming positive
        rw [← windowed.ranks.perm.countP_eq, countP_append, ← (stableSort_perm : (stableSort key window.held).Perm window.held).countP_eq] at few
        have back : ((stableSort key window.held).drop count).countP (fun other => key item < key other) =
            window.held.length - count := by
          rw [countP_eq_length.mpr, length_drop, stableSort_perm.length_eq]
          intro other is_back
          have := front_below early is_front other is_back
          exact decide_eq_true (lt_of_lt_of_le (not_le.mp later) this)
        have front : 0 < ((stableSort key window.held).take count).countP (fun other => key item < key other) :=
          countP_pos_iff.mpr ⟨early, is_front, decide_eq_true (not_le.mp later)⟩
        rw [← whole, countP_append] at few
        omega

theorem finish (windowed : Windowed key window seen []) :
    window.passed ++ stableSort key window.held = stableSort key seen := by
  refine InOrder.eq_stableSort ?_ ?_
  · refine pairwise_append.mpr ⟨windowed.order, stableSort_inOrder, fun early is_passed item is_held => ?_⟩
    exact windowed.below early is_passed item (by simpa using stableSort_perm.mem_iff.mp is_held)
  · have same := (SameRanks.refl window.passed).append
      (stableSort_sameRanks : SameRanks key (stableSort key window.held) window.held)
    exact same.trans windowed.ranks

end Windowed

section Drain

variable {State : Type*} (deal : State → Item → State) (count : Nat)

/-- What is held is dealt with in portions until nothing is left; `none` is a loop that outlasts the fuel. -/
def drain : Nat → State → List Item → Option State
  | 0, _, _ => none
  | fuel + 1, state, held =>
    if held = [] then some state
    else
      let size := min count held.length
      drain fuel ((held.take size).foldl deal state) (held.drop size)

theorem drain_eq_foldl (positive : 0 < count) (fuel : Nat) (state : State) (held : List Item) (enough : held.length < fuel) :
    drain deal count fuel state held = some (held.foldl deal state) := by
  induction fuel generalizing state held with
  | zero => omega
  | succ fuel ih =>
    rw [drain]
    by_cases empty : held = []
    · rw [if_pos empty, empty, foldl_nil]
    · have length_pos := length_pos_iff.mpr empty
      rw [if_neg empty, ih _ _ (by rw [length_drop]; omega), ← foldl_append, take_append_drop]

end Drain

end SmartPerf.Data
