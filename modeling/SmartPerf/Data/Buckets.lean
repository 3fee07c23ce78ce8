import Mathlib.Logic.Function.Basic
import SmartPerf.Data.ListLookup

namespace SmartPerf.Data

open List Function

/-! Items sorted into buckets by their keys: the items of each bucket are counted, each bucket gets a
run of slots, and the first slot of a run holds the number of its slots that are still free until the
last one is taken. -/

variable {α : Type*} {key cell other : α → Nat} {items : List α} {counts : Nat → Nat} {bucket buckets : Nat}

def countKeys (key : α → Nat) (items : List α) : Nat → Nat :=
  items.foldl (fun counts item => update counts (key item) (counts (key item) + 1)) fun _ => 0

structure Runs where
  first : Nat → Nat
  cells : Nat → Nat := fun _ => 0
  unused : Nat := 0

/-- The next bucket gets its run. Its place in `first` holds the number of its items before. -/
def Runs.assign (runs : Runs) (bucket : Nat) : Runs where
  first := update runs.first bucket runs.unused
  cells := update runs.cells runs.unused (runs.first bucket)
  unused := runs.unused + runs.first bucket

def assignRuns (counts : Nat → Nat) (buckets : Nat) : Runs :=
  (List.range buckets).foldl Runs.assign { first := counts }

/-- Two arrays that are filled together, the first of which holds the free slots. -/
structure Slots where
  cells : Nat → Nat
  others : Nat → Nat := fun _ => 0

def Slots.place (first : Nat → Nat) (key cell other : α → Nat) (slots : Slots) (item : α) : Slots :=
  let slot := first (key item)
  let free := slots.cells slot - 1
  { cells := update (update slots.cells slot free) (slot + free) (cell item)
    others := update slots.others (slot + free) (other item) }

def runStart (counts : Nat → Nat) (bucket : Nat) : Nat := ((List.range bucket).map counts).sum

theorem countKeys_apply (bucket : Nat) : countKeys key items bucket = items.countP (key · = bucket) := by
  have general : ∀ counts : Nat → Nat, items.foldl (fun counts item =>
      update counts (key item) (counts (key item) + 1)) counts bucket =
        counts bucket + items.countP (key · = bucket) := by
    induction items with
    | nil => simp
    | cons item rest ih =>
      intro counts
      rw [foldl_cons, ih]
      by_cases same : key item = bucket
      · subst same
        simp
        omega
      · simp [same, update_of_ne (Ne.symm same)]
  simpa [countKeys] using general fun _ => 0

theorem runStart_succ (counts : Nat → Nat) (bucket : Nat) :
    runStart counts (bucket + 1) = runStart counts bucket + counts bucket := by
  simp [runStart, range_succ]

theorem runStart_le (counts : Nat → Nat) {low high : Nat} (ordered : low ≤ high) : runStart counts low ≤ runStart counts high := by
  induction ordered with
  | refl => exact le_rfl
  | step _ ih =>
    rw [runStart_succ]
    omega

theorem runs_apart {low high slot : Nat} (ordered : low < high) (inLow : slot < runStart counts low + counts low) :
    slot < runStart counts high := by
  have above := runStart_le counts (Nat.succ_le_of_lt ordered)
  rw [runStart_succ] at above
  omega

theorem eq_of_runs {left right slot : Nat} (leftFirst : runStart counts left ≤ slot)
    (leftLast : slot < runStart counts left + counts left) (rightFirst : runStart counts right ≤ slot)
    (rightLast : slot < runStart counts right + counts right) : left = right := by
  rcases Nat.lt_trichotomy left right with below | same | above
  · have apart := runs_apart below leftLast
    omega
  · exact same
  · have apart := runs_apart above rightLast
    omega

theorem assignRuns_spec (counts : Nat → Nat) (buckets : Nat) :
    (assignRuns counts buckets).unused = runStart counts buckets ∧
      (∀ bucket, (assignRuns counts buckets).first bucket =
        if bucket < buckets then runStart counts bucket else counts bucket) ∧
      ∀ bucket, bucket < buckets → 0 < counts bucket →
        (assignRuns counts buckets).cells (runStart counts bucket) = counts bucket := by
  induction buckets with
  | zero => exact ⟨rfl, fun _ => rfl, fun _ below => absurd below (Nat.not_lt_zero _)⟩
  | succ buckets ih =>
    obtain ⟨unused, first, cells⟩ := ih
    have step : assignRuns counts (buckets + 1) = (assignRuns counts buckets).assign buckets := by
      simp [assignRuns, range_succ]
    have size : (assignRuns counts buckets).first buckets = counts buckets := by
      rw [first, if_neg (Nat.lt_irrefl _)]
    rw [step]
    refine ⟨?_, ?_, ?_⟩
    · simp only [Runs.assign, size, unused, runStart_succ]
    · intro bucket
      by_cases same : bucket = buckets
      · subst same
        simp [Runs.assign, unused]
      · have bounds : bucket < buckets + 1 ↔ bucket < buckets := by omega
        simp only [Runs.assign, update_of_ne same, first, bounds]
    · intro bucket below positive
      by_cases same : bucket = buckets
      · subst same
        simp [Runs.assign, unused, size]
      · have apart : runStart counts bucket < runStart counts buckets :=
          runs_apart (show bucket < buckets by omega) (by omega)
        simp only [Runs.assign, unused, update_of_ne apart.ne]
        exact cells bucket (by omega) positive

def nextSlot (key : α → Nat) (counts : Nat → Nat) (placed : List α) (bucket : Nat) : Nat :=
  runStart counts bucket + (counts bucket - 1 - placed.countP (key · = bucket))

/-- Some of the items are placed: those of a bucket fill its run from the end, and the first slot of a
run that is not full holds how many of them are missing. -/
structure Placed (key cell other : α → Nat) (counts : Nat → Nat) (buckets : Nat) (placed : List α)
    (slots : Slots) : Prop where
  free : ∀ bucket, bucket < buckets → placed.countP (key · = bucket) < counts bucket →
    slots.cells (runStart counts bucket) = counts bucket - placed.countP (key · = bucket)
  taken : ∀ bucket, bucket < buckets → ∀ position item, (placed.filter (key · = bucket))[position]? = some item →
    slots.cells (runStart counts bucket + (counts bucket - 1 - position)) = cell item ∧
      slots.others (runStart counts bucket + (counts bucket - 1 - position)) = other item

section Place

variable {placed : List α} {item : α} {slots : Slots} {first : Nat → Nat}

theorem Placed.place_eq (invariant : Placed key cell other counts buckets placed slots)
    (starts : first (key item) = runStart counts (key item)) (inside : key item < buckets)
    (room : placed.countP (key · = key item) < counts (key item)) :
    slots.place first key cell other item =
      { cells := update (update slots.cells (runStart counts (key item))
          (counts (key item) - 1 - placed.countP (key · = key item))) (nextSlot key counts placed (key item)) (cell item)
        others := update slots.others (nextSlot key counts placed (key item)) (other item) } := by
  have free := invariant.free (key item) inside room
  have less : counts (key item) - placed.countP (key · = key item) - 1 =
      counts (key item) - 1 - placed.countP (key · = key item) := by omega
  simp only [Slots.place, starts, free, less, nextSlot]

theorem slot_apart {slot : Nat} (distinct : bucket ≠ key item)
    (room : placed.countP (key · = key item) < counts (key item)) (low : runStart counts bucket ≤ slot)
    (high : slot < runStart counts bucket + counts bucket) :
    slot ≠ runStart counts (key item) ∧ slot ≠ nextSlot key counts placed (key item) := by
  constructor
  · intro same
    exact distinct (eq_of_runs low high (by omega) (by omega))
  · intro same
    simp only [nextSlot] at same
    exact distinct (eq_of_runs low high (by omega) (by omega))

theorem Placed.place (invariant : Placed key cell other counts buckets placed slots)
    (starts : first (key item) = runStart counts (key item)) (inside : key item < buckets)
    (room : placed.countP (key · = key item) < counts (key item))
    (fits : ∀ bucket, bucket < buckets → placed.countP (key · = bucket) ≤ counts bucket) :
    Placed key cell other counts buckets (placed ++ [item]) (slots.place first key cell other item) := by
  rw [invariant.place_eq starts inside room]
  constructor
  · intro bucket below missing
    rw [countP_append] at missing ⊢
    by_cases same : key item = bucket
    · subst same
      simp only [countP_singleton, decide_true, if_true] at missing ⊢
      have later : runStart counts (key item) ≠ nextSlot key counts placed (key item) := by
        simp only [nextSlot]
        omega
      simp only [update_of_ne later, update_self]
      omega
    · simp only [countP_singleton, same] at missing ⊢
      obtain ⟨start, next⟩ := slot_apart (Ne.symm same) room le_rfl (by omega)
      simp only [update_of_ne next, update_of_ne start]
      exact invariant.free bucket below missing
  · intro bucket below position known found
    have counted : (placed.filter (key · = bucket)).length = placed.countP (key · = bucket) :=
      countP_eq_length_filter.symm
    have bound := fits bucket below
    rw [filter_append] at found
    by_cases same : key item = bucket
    · subst same
      have single : [item].filter (key · = key item) = [item] := by simp
      rw [single] at found
      rcases lookup_append_iff.mp found with old | ⟨here, value⟩
      · have early := lookup_lt old
        have next : runStart counts (key item) + (counts (key item) - 1 - position) ≠
            nextSlot key counts placed (key item) := by
          simp only [nextSlot]
          omega
        have start : runStart counts (key item) + (counts (key item) - 1 - position) ≠
            runStart counts (key item) := by omega
        simp only [update_of_ne next, update_of_ne start]
        exact invariant.taken (key item) below position known old
      · rw [here, counted, value]
        exact ⟨update_self .., update_self ..⟩
    · have none : [item].filter (key · = bucket) = [] := by simp [same]
      rw [none, append_nil] at found
      have early := lookup_lt found
      obtain ⟨start, next⟩ := slot_apart (Ne.symm same) room
        (show runStart counts bucket ≤ runStart counts bucket + (counts bucket - 1 - position) by omega) (by omega)
      simp only [update_of_ne next, update_of_ne start]
      exact invariant.taken bucket below position known found

end Place

def sortIntoBuckets (key cell other : α → Nat) (counts : Nat → Nat) (buckets : Nat) (items : List α) : Slots :=
  let runs := assignRuns counts buckets
  items.foldl (Slots.place runs.first key cell other) { cells := runs.cells }

theorem placed_foldl {first : Nat → Nat} (starts : ∀ bucket, bucket < buckets → first bucket = runStart counts bucket)
    (inside : ∀ item ∈ items, key item < buckets) {placed todo : List α} {slots : Slots}
    (whole : items = placed ++ todo) (exactly : ∀ bucket, counts bucket = items.countP (key · = bucket))
    (invariant : Placed key cell other counts buckets placed slots) :
    Placed key cell other counts buckets items (todo.foldl (Slots.place first key cell other) slots) := by
  induction todo generalizing placed slots with
  | nil => simpa [whole] using invariant
  | cons item rest ih =>
    have member : key item < buckets := inside item (by simp [whole])
    have fits : ∀ bucket, placed.countP (key · = bucket) + (item :: rest).countP (key · = bucket) = counts bucket := by
      intro bucket
      rw [exactly, whole, countP_append]
    have room := fits (key item)
    rw [countP_cons_of_pos (by simp)] at room
    refine ih (by simp [whole]) (invariant.place (starts _ member) member (by omega) fun bucket _ => ?_)
    have bound := fits bucket
    omega

section
variable (exactly : ∀ bucket, counts bucket = items.countP (key · = bucket))
include exactly

theorem runStart_eq_countP (bucket : Nat) : runStart counts bucket = items.countP (key · < bucket) := by
  induction bucket with
  | zero => simp [runStart]
  | succ bucket ih =>
    rw [runStart_succ, ih, exactly]
    clear ih exactly
    induction items with
    | nil => rfl
    | cons item rest ih =>
      simp only [countP_cons, decide_eq_true_eq]
      split <;> split <;> split <;> omega

theorem runStart_eq_length (inside : ∀ item ∈ items, key item < buckets) : runStart counts buckets = items.length := by
  rw [runStart_eq_countP exactly, countP_eq_length]
  intro item member
  exact decide_eq_true (inside item member)

theorem sortIntoBuckets_spec (inside : ∀ item ∈ items, key item < buckets) (below : bucket < buckets) :
    (List.range (counts bucket)).map (fun offset =>
        ((sortIntoBuckets key cell other counts buckets items).cells (runStart counts bucket + offset),
          (sortIntoBuckets key cell other counts buckets items).others (runStart counts bucket + offset))) =
      ((items.filter (key · = bucket)).map fun item => (cell item, other item)).reverse := by
  obtain ⟨-, starts, cells⟩ := assignRuns_spec counts buckets
  have initial : Placed key cell other counts buckets [] { cells := (assignRuns counts buckets).cells } := by
    constructor
    · intro bucket below missing
      simpa using cells bucket below (by simpa using missing)
    · intro bucket below position item found
      simp at found
  have final : Placed key cell other counts buckets items (sortIntoBuckets key cell other counts buckets items) :=
    placed_foldl (fun bucket below => by rw [starts, if_pos below]) inside (nil_append items).symm exactly initial
  have size : counts bucket = (items.filter (key · = bucket)).length := by
    rw [exactly, countP_eq_length_filter]
  apply ext_getElem?
  intro offset
  by_cases within : offset < counts bucket
  · have flipped : counts bucket - 1 - offset < (items.filter (key · = bucket)).length := by omega
    obtain ⟨cellThere, otherThere⟩ := final.taken bucket below (counts bucket - 1 - offset)
      ((items.filter (key · = bucket)).get ⟨_, flipped⟩) (getElem?_eq_getElem flipped)
    have back : counts bucket - 1 - (counts bucket - 1 - offset) = offset := by omega
    rw [back] at cellThere otherThere
    rw [getElem?_map, getElem?_range within, getElem?_reverse (by simpa [← size] using within)]
    simp only [length_map, ← size, getElem?_map, getElem?_eq_getElem flipped]
    exact congrArg some (Prod.ext cellThere otherThere)
  · rw [getElem?_eq_none (by simpa using within), getElem?_eq_none (by simpa [← size] using within)]

end

end SmartPerf.Data
