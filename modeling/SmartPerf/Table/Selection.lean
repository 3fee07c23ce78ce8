import SmartPerf.Table.ThreadStateTable

namespace SmartPerf.Table

open SmartPerf.Data List ThreadStateTable

/-! Which rows of `thread_state` a query visits.

`Selection` follows the constraints without the bookkeeping of an index map: it
holds the rows still selected, whether some constraint has taken effect, and
whether the rows stand in an explicit list.  Index maps refine it as long as no
constraint meets one of the cases that `Selection.Regular` excludes. -/

inductive ComparisonOp where
  | eq
  | ne
  | gt
  | ge
  | le
  | lt
deriving Repr, DecidableEq

def ComparisonOp.constraintOp : ComparisonOp → ConstraintOp
  | .eq => .eq
  | .ne => .ne
  | .gt => .gt
  | .ge => .ge
  | .le => .le
  | .lt => .lt

def ComparisonOp.holds {α : Type} [LT α] [DecidableLT α] [DecidableEq α] (op : ComparisonOp) (left right : α) : Bool :=
  match op with
  | .eq => decide (left = right)
  | .ne => decide (left ≠ right)
  | .gt => decide (right < left)
  | .ge => decide (¬ left < right)
  | .le => decide (¬ right < left)
  | .lt => decide (left < right)

/-- A comparison in a query: a column, an operator and an integer. -/
structure Comparison where
  col : Column
  op : ComparisonOp
  operand : Int64
deriving Repr, DecidableEq

def Comparison.constraint (comparison : Comparison) : Constraint :=
  ⟨comparison.col, comparison.op.constraintOp, .integer comparison.operand⟩

/-- The comparison as sqlite makes it: a null satisfies none, and an integer is
compared with a text as a text. -/
def SqlValue.compares (value : SqlValue) (op : ComparisonOp) (operand : Int64) : Bool :=
  match value with
  | .null => false
  | .integer value => op.holds value operand.toInt
  | .text value => op.holds value (toString operand.toInt)

variable {table : ThreadStateTable} {comparison : Comparison}

def ThreadStateTable.satisfies (table : ThreadStateTable) (comparison : Comparison) (row : Nat) : Bool :=
  match table.rows[row]? with
  | none => false
  | some content => (content.column comparison.col).compares comparison.op comparison.operand

/-- The test the filters make of one row, on the converted operand. -/
def ThreadStateTable.selects (table : ThreadStateTable) (comparison : Comparison) (row : Nat) : Bool :=
  match comparison.col with
  | .id =>
    let v := toTableRowId comparison.operand.toInt
    match comparison.op with
    | .eq => decide (v ≤ row ∧ (row : Int) < toTableRowId (v + 1))
    | .ne => true
    | .gt => decide (toTableRowId (v + 1) ≤ row)
    | .ge => decide (v ≤ row)
    | .le => decide ((row : Int) < toTableRowId (v + 1))
    | .lt => decide ((row : Int) < v)
  | .ts =>
    let v := (Operand.integer comparison.operand).toUint64
    let time := (table.dataQueue .ts).getD row 0
    match comparison.op with
    | .eq => decide (time = v)
    | .ne => true
    | .gt => decide ((v + 1) % 2 ^ 64 ≤ time)
    | .ge => decide (v ≤ time)
    | .le => decide (time ≤ (v + 1) % 2 ^ 64)
    | .lt => decide (time ≤ v)
  | col =>
    match mixRangeValue col (.integer comparison.operand) with
    | none => true
    | some (value, invalidValue) =>
      IndexMap.mixRangeKeeps comparison.op.constraintOp value invalidValue ((table.dataQueue col).getD row 0)

@[ext]
structure Selection where
  rows : List Nat
  narrowed : Bool
  listed : Bool
deriving Repr, DecidableEq

def ThreadStateTable.initial (table : ThreadStateTable) : Selection := ⟨List.range table.rows.length, false, false⟩

def Selection.passing (selection : Selection) (table : ThreadStateTable) (comparison : Comparison) : List Nat :=
  selection.rows.filter (table.selects comparison)

/-- A comparison on another column that leaves no row of a list is skipped. -/
def Selection.next (table : ThreadStateTable) (selection : Selection) (comparison : Comparison) : Selection :=
  let passing := selection.passing table comparison
  match comparison.col with
  | .id =>
    ⟨passing, selection.narrowed || decide (comparison.op ≠ .ne), selection.listed || selection.narrowed⟩
  | .ts => ⟨passing, selection.narrowed || decide (comparison.op ≠ .ne), selection.listed⟩
  | _ =>
    ⟨if selection.narrowed then IndexMap.replaceIfChanged selection.rows passing else passing, true, true⟩

/-- What a comparison on `id` or `ts` needs once the rows stand in a list: it
leaves a row, and the rows whose number is not below the length of the list fall
as the bounds taken from that length make them fall. -/
def Selection.Regular (table : ThreadStateTable) (selection : Selection) (comparison : Comparison) : Prop :=
  let leaves := selection.passing table comparison ≠ [] ∨ selection.rows = []
  let upward := comparison.op = .gt ∨ comparison.op = .ge
  match comparison.col with
  | .id =>
    selection.narrowed → comparison.op ≠ .ne →
      leaves ∧ (upward → ∀ row ∈ selection.rows, selection.rows.length ≤ row → table.selects comparison row = false)
  | .ts =>
    selection.listed → comparison.op ≠ .ne →
      leaves ∧ ∀ row ∈ selection.rows, selection.rows.length ≤ row →
        (table.selects comparison row = true ↔ upward)
  | _ => True

instance (table : ThreadStateTable) (selection : Selection) (comparison : Comparison) :
    Decidable (selection.Regular table comparison) := by
  obtain ⟨col, op, operand⟩ := comparison
  cases col <;> dsimp only [Selection.Regular] <;> infer_instance

/-- The rows a map goes through while they are a range of row numbers. -/
structure IndexMap.IsRange (map : IndexMap) (count : Nat) (selection : Selection) : Prop where
  indexType : map.indexType = .id
  converted : map.converted = false
  rowIndex : map.rowIndex = []
  ascending : map.desc = false
  position : map.current = map.start
  lower : 0 ≤ map.start
  upper : map.endRow ≤ count
  rows : selection.rows = rangeFrom map.start map.endRow
  listed : selection.listed = false
  empty : map.empty = !selection.narrowed
  whole : selection.narrowed = false → map.start = 0 ∧ map.endRow = count

/-- The rows a map goes through once they stand in its list. -/
structure IndexMap.IsList (map : IndexMap) (selection : Selection) : Prop where
  indexType : map.indexType = .outerIndex
  rowIndex : map.rowIndex = selection.rows
  ascending : map.desc = false
  position : map.current = 0
  lower : map.start = 0
  upper : map.endRow = selection.rows.length
  listed : selection.listed = true
  empty : map.empty = false
  narrowed : selection.narrowed = true

def IndexMap.Represents (map : IndexMap) (count : Nat) (selection : Selection) : Prop :=
  map.IsRange count selection ∨ map.IsList selection

namespace IndexMap

variable {map : IndexMap} {count : Nat} {selection : Selection}

theorem IsRange.convertToIndexMap (range : map.IsRange count selection) (narrowed : selection.narrowed = true) :
    map.convertToIndexMap.IsList { selection with listed := true } := by
  have data : map.indexType = .id ∧ map.hasData = true := by
    simp [range.indexType, hasData, range.empty, narrowed]
  rw [IndexMap.convertToIndexMap, range.converted, if_neg Bool.false_ne_true, if_pos data, range.rowIndex, nil_append, ← range.rows]
  exact ⟨rfl, rfl, range.ascending, rfl, rfl, rfl, rfl, rfl, narrowed⟩

theorem IsList.convertToIndexMap (list : map.IsList selection) : map.convertToIndexMap.IsList selection := by
  obtain ⟨indexType, rowIndex, ascending, position, lower, upper, listed, empty, narrowed⟩ := list
  cases converted : map.converted with
  | true =>
    rw [IndexMap.convertToIndexMap, if_pos converted]
    exact ⟨rfl, rowIndex, ascending, position, lower, upper, listed, empty, narrowed⟩
  | false =>
    have outer : ¬ (map.indexType = .id ∧ map.hasData = true) := by simp [indexType]
    rw [IndexMap.convertToIndexMap, converted, if_neg Bool.false_ne_true, if_neg outer]
    exact ⟨rfl, rowIndex, ascending, position, lower, upper, listed, rfl, narrowed⟩

variable {keeps : Nat → Bool}

variable {start endRow : Int}

theorem IsRange.intersect (range : map.IsRange count selection)
    (agrees : ∀ row ∈ selection.rows, keeps row = true ↔ start ≤ row ∧ (row : Int) < endRow) :
    (map.intersect start endRow).IsRange count ⟨selection.rows.filter keeps, true, false⟩ := by
  have lower := range.lower
  have upper := range.upper
  have narrower : 0 ≤ max map.start start := by omega
  have rows : selection.rows.filter keeps = rangeFrom (max map.start start) (min map.endRow endRow) := by
    have ascending : selection.rows.Pairwise (· < ·) := by
      rw [range.rows]
      exact pairwise_lt_range'
    have target : (rangeFrom (max map.start start) (min map.endRow endRow)).Pairwise (· < ·) :=
      pairwise_lt_range'
    apply (ascending.filter keeps).eq_of_mem_iff target
    intro row
    have member : row ∈ selection.rows ↔ map.start ≤ row ∧ (row : Int) < map.endRow := by
      rw [range.rows, mem_rangeFrom lower]
    rw [mem_filter, mem_rangeFrom narrower]
    constructor
    · rintro ⟨inside, kept⟩
      have bounds := (agrees row inside).mp kept
      have within := member.mp inside
      omega
    · intro bounds
      have inside := member.mpr (by omega)
      exact ⟨inside, (agrees row inside).mpr (by omega)⟩
  simp only [IndexMap.intersect, range.indexType]
  exact ⟨rfl, range.converted, range.rowIndex, range.ascending, rfl, narrower,
    Int.le_trans (Int.min_le_left _ _) upper, rows, rfl, rfl, fun unchanged => by cases unchanged⟩

theorem replaceIfChanged_of_leaves {rows kept : List Nat} (leaves : kept ≠ [] ∨ rows = []) :
    replaceIfChanged rows kept = kept := by
  rcases leaves with some | none
  · simp [replaceIfChanged, some]
  · simp [replaceIfChanged, none]

theorem IsList.intersect (list : map.IsList selection)
    (agrees : ∀ row ∈ selection.rows, keeps row = true ↔ start ≤ row ∧ (row : Int) < endRow)
    (leaves : selection.rows.filter keeps ≠ [] ∨ selection.rows = []) :
    (map.intersect start endRow).IsList ⟨selection.rows.filter keeps, true, true⟩ := by
  have kept : selection.rows.filter (fun row : Nat => decide (start ≤ row ∧ (row : Int) < endRow)) =
      selection.rows.filter keeps := by
    apply filter_congr
    intro row member
    rw [Bool.eq_iff_iff, agrees row member, decide_eq_true_eq]
  have replaced := replaceIfChanged_of_leaves leaves
  simp only [IndexMap.intersect, list.indexType, list.rowIndex, kept, replaced]
  exact ⟨rfl, rfl, list.ascending, rfl, rfl, rfl, rfl, rfl, rfl⟩

theorem Represents.hasData (represents : map.Represents count selection) : map.hasData = selection.narrowed := by
  rcases represents with range | list
  · simp [IndexMap.hasData, range.empty]
  · simp [IndexMap.hasData, list.empty, list.narrowed]

/-- `FilterId` works on a list as soon as another constraint took effect. -/
def prepareId (map : IndexMap) : IndexMap := if map.hasData then map.convertToIndexMap else map

theorem Represents.prepareId (represents : map.Represents count selection) :
    (selection.narrowed = false ∧ map.prepareId.IsRange count selection) ∨
      (selection.narrowed = true ∧ map.prepareId.IsList { selection with listed := true }) := by
  rw [IndexMap.prepareId, represents.hasData]
  rcases represents with range | list
  · cases narrowed : selection.narrowed with
    | false =>
      left
      exact ⟨rfl, range⟩
    | true =>
      right
      rw [if_pos rfl]
      exact ⟨rfl, narrowed ▸ range.convertToIndexMap narrowed⟩
  · right
    rw [if_pos list.narrowed]
    have same : { selection with listed := true } = selection := by
      rw [← list.listed]
    rw [same]
    exact ⟨list.narrowed, list.convertToIndexMap⟩

end IndexMap

section Identifiers

/-- The bounds `FilterId` intersects with. -/
def idBounds (op : ComparisonOp) (v endRow : Int) : Int × Int :=
  match op with
  | .eq => (v, toTableRowId (v + 1))
  | .ge => (v, endRow)
  | .gt => (toTableRowId (v + 1), endRow)
  | .le => (0, toTableRowId (v + 1))
  | _ => (0, v)

variable {op : ComparisonOp}

theorem IndexMap.filterId_eq (map : IndexMap) (operand : Int64) (effective : op ≠ .ne) :
    map.filterId op.constraintOp (.integer operand) =
      map.prepareId.intersect (idBounds op (toTableRowId operand.toInt) map.prepareId.endRow).1
        (idBounds op (toTableRowId operand.toInt) map.prepareId.endRow).2 := by
  cases op with
  | ne => exact absurd rfl effective
  | eq => rfl
  | gt => rfl
  | ge => rfl
  | le => rfl
  | lt => rfl

theorem ThreadStateTable.selects_id_iff (table : ThreadStateTable) {operand : Int64} {endRow : Int} {row : Nat}
    (effective : op ≠ .ne)
    (below : op = .gt ∨ op = .ge → table.selects ⟨.id, op, operand⟩ row = true → (row : Int) < endRow) :
    table.selects ⟨.id, op, operand⟩ row = true ↔
      (idBounds op (toTableRowId operand.toInt) endRow).1 ≤ row ∧
        (row : Int) < (idBounds op (toTableRowId operand.toInt) endRow).2 := by
  cases op with
  | ne => exact absurd rfl effective
  | eq => simp [selects, idBounds]
  | gt =>
    simp only [selects, decide_eq_true_eq] at below ⊢
    exact ⟨fun lower => ⟨lower, below (.inl trivial) lower⟩, And.left⟩
  | ge =>
    simp only [selects, decide_eq_true_eq] at below ⊢
    exact ⟨fun lower => ⟨lower, below (.inr trivial) lower⟩, And.left⟩
  | le => simp [selects, idBounds]
  | lt => simp [selects, idBounds]

theorem IndexMap.Represents.filterId {map : IndexMap} {selection : Selection} {operand : Int64}
    (represents : map.Represents table.rows.length selection) (regular : selection.Regular table ⟨.id, op, operand⟩) :
    (map.filterId op.constraintOp (.integer operand)).Represents table.rows.length
      (selection.next table ⟨.id, op, operand⟩) := by
  by_cases effective : op = .ne
  · subst effective
    have same : selection.passing table ⟨.id, .ne, operand⟩ = selection.rows :=
      filter_eq_self.mpr (fun _ _ => rfl)
    have result : map.filterId ComparisonOp.ne.constraintOp (.integer operand) = map.prepareId := rfl
    rw [result]
    simp only [Selection.next, same]
    rcases represents.prepareId with ⟨narrowed, range⟩ | ⟨narrowed, list⟩
    · left
      have unchanged : (⟨selection.rows, false, false⟩ : Selection) = selection :=
        Selection.ext rfl narrowed.symm range.listed.symm
      simpa [narrowed, range.listed, unchanged] using range
    · right
      simpa [narrowed] using list
  · rw [map.filterId_eq operand effective]
    rcases represents.prepareId with ⟨narrowed, range⟩ | ⟨narrowed, list⟩
    · left
      have listed := range.listed
      have next : selection.next table ⟨.id, op, operand⟩ =
          ⟨selection.rows.filter (table.selects ⟨.id, op, operand⟩), true, false⟩ := by
        simp [Selection.next, Selection.passing, effective, listed, narrowed]
      rw [next]
      apply range.intersect
      intro row member
      rw [range.rows, mem_rangeFrom range.lower] at member
      exact table.selects_id_iff effective (fun _ _ => member.2)
    · right
      obtain ⟨leaves, beyond⟩ := regular narrowed effective
      have next : selection.next table ⟨.id, op, operand⟩ =
          ⟨selection.rows.filter (table.selects ⟨.id, op, operand⟩), true, true⟩ := by
        simp [Selection.next, Selection.passing, narrowed]
      rw [next]
      have length : map.prepareId.endRow = selection.rows.length := list.upper
      refine list.intersect (fun row member => table.selects_id_iff effective (fun upward selected => ?_)) leaves
      by_contra outside
      have dropped := beyond upward row member (by omega)
      simp [dropped] at selected

end Identifiers

section Timestamps

theorem ThreadStateTable.times_get (table : ThreadStateTable) {row : Nat} (inside : row < table.rows.length) :
    (table.dataQueue .ts)[row]? = some ((table.dataQueue .ts).getD row 0) := by
  simp [dataQueue, inside]

theorem ThreadStateTable.times_ordered (table : ThreadStateTable) : (table.dataQueue .ts).Pairwise (· ≤ ·) := by
  rw [dataQueue, pairwise_map]
  exact table.ordered.imp (fun before => before)

/-- The bounds `FilterTS` intersects with, searched in a window. -/
def tsBounds (op : ComparisonOp) (times : List Nat) (v first last : Nat) : Int × Int :=
  let lower := fun v => partitionPoint (fun time => decide (time < v)) times first last
  let upper := fun v => partitionPoint (fun time => decide (time ≤ v)) times first last
  match op with
  | .eq => (lower v, partitionPoint (fun time => decide (time ≤ v)) times (lower v) last)
  | .gt => (lower ((v + 1) % 2 ^ 64), invalidInt32)
  | .ge => (lower v, invalidInt32)
  | .le => (0, upper ((v + 1) % 2 ^ 64))
  | _ => (0, upper v)

theorem IndexMap.filterTS_eq (map : IndexMap) {op : ComparisonOp} (operand : Operand) (times : List Nat)
    (effective : op ≠ .ne) :
    map.filterTS op.constraintOp operand times =
      map.intersect (tsBounds op times operand.toUint64 map.start.toNat map.endRow.toNat).1
        (tsBounds op times operand.toUint64 map.start.toNat map.endRow.toNat).2 := by
  cases op with
  | ne => exact absurd rfl effective
  | eq => rfl
  | gt => rfl
  | ge => rfl
  | le => rfl
  | lt => rfl

variable {first last row : Nat} (table)

theorem ThreadStateTable.lower_le_iff (inside : row < table.rows.length) (window : first ≤ row) (upper : row < last)
    (v : Nat) :
    partitionPoint (fun time => decide (time < v)) (table.dataQueue .ts) first last ≤ row ↔
      v ≤ (table.dataQueue .ts).getD row 0 := by
  have downward : (table.dataQueue .ts).Pairwise
      (fun earlier later => decide (later < v) = true → decide (earlier < v) = true) := by
    apply table.times_ordered.imp
    simp only [decide_eq_true_eq]
    omega
  have search := lt_partitionPoint downward (table.times_get inside) window upper
  rw [decide_eq_true_eq] at search
  omega

theorem ThreadStateTable.lt_upper_iff (inside : row < table.rows.length) (window : first ≤ row) (upper : row < last)
    (v : Nat) :
    row < partitionPoint (fun time => decide (time ≤ v)) (table.dataQueue .ts) first last ↔
      (table.dataQueue .ts).getD row 0 ≤ v := by
  have downward : (table.dataQueue .ts).Pairwise
      (fun earlier later => decide (later ≤ v) = true → decide (earlier ≤ v) = true) := by
    apply table.times_ordered.imp
    simp only [decide_eq_true_eq]
    omega
  have search := lt_partitionPoint downward (table.times_get inside) window upper
  rwa [decide_eq_true_eq] at search

variable {operand : Int64}

theorem ThreadStateTable.selects_ts_inside {op : ComparisonOp} (effective : op ≠ .ne)
    (inside : row < table.rows.length) (window : first ≤ row) (upper : row < last) :
    table.selects ⟨.ts, op, operand⟩ row = true ↔
      (tsBounds op (table.dataQueue .ts) (Operand.integer operand).toUint64 first last).1 ≤ row ∧
        (row : Int) < (tsBounds op (table.dataQueue .ts) (Operand.integer operand).toUint64 first last).2 := by
  have lower := table.lower_le_iff inside window upper
  have upperBound := table.lt_upper_iff inside window upper
  have numbered : (row : Int) < invalidInt32 := by
    have numbered := table.numbered
    simp only [invalidInt32]
    omega
  cases op with
  | ne => exact absurd rfl effective
  | eq =>
    simp only [selects, tsBounds, decide_eq_true_eq, Nat.cast_le, Nat.cast_lt, lower]
    constructor
    · intro equal
      have reached := (lower (Operand.integer operand).toUint64).mpr equal.ge
      exact ⟨equal.ge, (table.lt_upper_iff inside reached upper _).mpr equal.le⟩
    · rintro ⟨above, below⟩
      have reached := (lower (Operand.integer operand).toUint64).mpr above
      exact Nat.le_antisymm ((table.lt_upper_iff inside reached upper _).mp below) above
  | gt => simp [selects, tsBounds, lower, numbered]
  | ge => simp [selects, tsBounds, lower, numbered]
  | le => simp [selects, tsBounds, upperBound]
  | lt => simp [selects, tsBounds, upperBound]

/-- Behind the window a search for a lower bound keeps every row and a search
for an upper bound none. -/
theorem ThreadStateTable.selects_ts_beyond {op : ComparisonOp} (effective : op ≠ .ne)
    (inside : row < table.rows.length) (beyond : last ≤ row)
    (falls : table.selects ⟨.ts, op, operand⟩ row = true ↔ op = .gt ∨ op = .ge) :
    table.selects ⟨.ts, op, operand⟩ row = true ↔
      (tsBounds op (table.dataQueue .ts) (Operand.integer operand).toUint64 0 last).1 ≤ row ∧
        (row : Int) < (tsBounds op (table.dataQueue .ts) (Operand.integer operand).toUint64 0 last).2 := by
  have numbered : (row : Int) < invalidInt32 := by
    have numbered := table.numbered
    simp only [invalidInt32]
    omega
  have stops : ∀ (holds : Nat → Bool) (first : Nat), first ≤ last →
      partitionPoint holds (table.dataQueue .ts) first last ≤ row :=
    fun holds first window => (partitionPoint_le holds _ window).trans beyond
  rw [falls]
  cases op with
  | ne => exact absurd rfl effective
  | eq =>
    have reached := stops (fun time => decide (time ≤ (Operand.integer operand).toUint64)) _
      (partitionPoint_le (fun time => decide (time < (Operand.integer operand).toUint64)) (table.dataQueue .ts)
        (Nat.zero_le last))
    simp [tsBounds]
    omega
  | gt => simpa [tsBounds, numbered] using stops _ 0 (Nat.zero_le last)
  | ge => simpa [tsBounds, numbered] using stops _ 0 (Nat.zero_le last)
  | le => simpa [tsBounds] using stops _ 0 (Nat.zero_le last)
  | lt => simpa [tsBounds] using stops _ 0 (Nat.zero_le last)

variable {table}

theorem IndexMap.Represents.filterTS {map : IndexMap} {selection : Selection} {op : ComparisonOp}
    (represents : map.Represents table.rows.length selection)
    (inside : ∀ row ∈ selection.rows, row < table.rows.length) (regular : selection.Regular table ⟨.ts, op, operand⟩) :
    (map.filterTS op.constraintOp (.integer operand) (table.dataQueue .ts)).Represents table.rows.length
      (selection.next table ⟨.ts, op, operand⟩) := by
  by_cases effective : op = .ne
  · subst effective
    have everything : selection.passing table ⟨.ts, .ne, operand⟩ = selection.rows :=
      filter_eq_self.mpr (fun _ _ => rfl)
    have same : selection.next table ⟨.ts, .ne, operand⟩ = selection := by
      simp [Selection.next, everything]
    rw [same]
    exact represents
  · rw [map.filterTS_eq _ _ effective]
    have passing : selection.next table ⟨.ts, op, operand⟩ =
        ⟨selection.rows.filter (table.selects ⟨.ts, op, operand⟩), true, selection.listed⟩ := by
      simp [Selection.next, Selection.passing, effective]
    rw [passing]
    rcases represents with range | list
    · left
      rw [range.listed]
      apply range.intersect
      intro row member
      have bounds := member
      rw [range.rows, mem_rangeFrom range.lower] at bounds
      exact table.selects_ts_inside effective (inside row member) (by omega) (by omega)
    · right
      obtain ⟨leaves, beyond⟩ := regular list.listed effective
      rw [list.listed]
      refine list.intersect (fun row member => ?_) leaves
      have window : map.endRow.toNat = selection.rows.length := by rw [list.upper, Int.toNat_natCast]
      rw [list.lower, window]
      by_cases within : row < selection.rows.length
      · exact table.selects_ts_inside effective (inside row member) (Nat.zero_le row) within
      · have outside := Nat.not_lt.mp within
        exact table.selects_ts_beyond effective (inside row member) outside (beyond row member outside)

end Timestamps

section OtherColumns

/-- A comparison on a column that only `MixRange` filters. -/
def Comparison.OnOther (comparison : Comparison) : Prop :=
  comparison.col ≠ .id ∧ comparison.col ≠ .ts

/-- What `MixRange` leaves: a filter that no row of a list passes is skipped. -/
def Selection.mixed (selection : Selection) (keeps : Nat → Bool) : Selection :=
  ⟨if selection.narrowed then IndexMap.replaceIfChanged selection.rows (selection.rows.filter keeps)
    else selection.rows.filter keeps, true, true⟩

section
variable {selection : Selection}

theorem Selection.mixed_sublist (keeps : Nat → Bool) : (selection.mixed keeps).rows.Sublist selection.rows := by
  simp only [mixed, IndexMap.replaceIfChanged]
  split
  · split
    · exact List.Sublist.refl _
    · exact filter_sublist
  · exact filter_sublist

theorem Selection.mem_mixed {keeps : Nat → Bool} {row : Nat} (member : row ∈ selection.rows) (kept : keeps row = true) :
    row ∈ (selection.mixed keeps).rows := by
  have passes : row ∈ selection.rows.filter keeps := mem_filter.mpr ⟨member, kept⟩
  have nonempty : (selection.rows.filter keeps).isEmpty = false := by simpa using ne_nil_of_mem passes
  simpa [mixed, IndexMap.replaceIfChanged, nonempty] using passes

theorem Selection.next_other (other : comparison.OnOther) :
    selection.next table comparison = selection.mixed (table.selects comparison) := by
  obtain ⟨col, op, operand⟩ := comparison
  obtain ⟨notId, notTs⟩ := other
  cases col <;> first | rfl | exact absurd rfl notId | exact absurd rfl notTs

end

theorem mixRangeValue_integer (col : Column) (operand : Int64) :
    ∃ value invalidValue, mixRangeValue col (.integer operand) = some (value, invalidValue) := by
  cases col <;> exact ⟨_, _, rfl⟩

variable {value invalidValue : Nat}

theorem ThreadStateTable.selects_other (other : comparison.OnOther)
    (converted : mixRangeValue comparison.col (.integer comparison.operand) = some (value, invalidValue)) :
    table.selects comparison = fun row =>
      IndexMap.mixRangeKeeps comparison.op.constraintOp value invalidValue
        ((table.dataQueue comparison.col).getD row 0) := by
  obtain ⟨col, op, operand⟩ := comparison
  obtain ⟨notId, notTs⟩ := other
  funext row
  cases col <;>
    first
      | exact absurd rfl notId
      | exact absurd rfl notTs
      | simp only [selects, converted]

theorem ThreadStateTable.handleConstraint_other {map : IndexMap} (other : comparison.OnOther)
    (converted : mixRangeValue comparison.col (.integer comparison.operand) = some (value, invalidValue)) :
    table.handleConstraint map comparison.constraint =
      some (map.mixRange comparison.op.constraintOp value invalidValue (table.dataQueue comparison.col)) := by
  obtain ⟨col, op, operand⟩ := comparison
  obtain ⟨notId, notTs⟩ := other
  cases col <;>
    first
      | exact absurd rfl notId
      | exact absurd rfl notTs
      | simp only [handleConstraint, Comparison.constraint, converted]

theorem ThreadStateTable.dataQueue_length (table : ThreadStateTable) (col : Column) :
    (table.dataQueue col).length = table.rows.length := by
  cases col <;> simp [dataQueue]

section
variable {map : IndexMap} {selection : Selection}

theorem IndexMap.Represents.mixRange_known {op : ConstraintOp} {dataQueue : List Nat}
    (represents : map.Represents dataQueue.length selection) (known : op ≠ .other) :
    (map.mixRange op value invalidValue dataQueue).IsList
      (selection.mixed fun row => mixRangeKeeps op value invalidValue (dataQueue.getD row 0)) := by
  simp only [IndexMap.mixRange, if_neg known]
  generalize (fun row => mixRangeKeeps op value invalidValue (dataQueue.getD row 0)) = keeps
  change IsList { map.prepareId.processData dataQueue.length map.hasData keeps with empty := false } _
  rcases represents.prepareId with ⟨narrowed, range⟩ | ⟨narrowed, list⟩
  · have whole : selection.rows = List.range dataQueue.length := by
      obtain ⟨start, endRow⟩ := range.whole narrowed
      rw [range.rows, start, endRow, rangeFrom, range_eq_range']
      simp
    rw [represents.hasData, Selection.mixed, narrowed]
    simp only [processData, range.rowIndex, whole]
    exact ⟨rfl, rfl, range.ascending, rfl, (range.whole narrowed).1, rfl, rfl, rfl, rfl⟩
  · rw [represents.hasData, Selection.mixed, narrowed]
    simp only [processData, if_true, fixSize, list.rowIndex]
    exact ⟨rfl, rfl, list.ascending, rfl, list.lower, rfl, rfl, rfl, rfl⟩

theorem IndexMap.Represents.mixRange (represents : map.Represents table.rows.length selection) (other : comparison.OnOther)
    (converted : mixRangeValue comparison.col (.integer comparison.operand) = some (value, invalidValue)) :
    (map.mixRange comparison.op.constraintOp value invalidValue (table.dataQueue comparison.col)).Represents
      table.rows.length (selection.next table comparison) := by
  have known : comparison.op.constraintOp ≠ .other := by cases comparison.op <;> decide
  rw [← table.dataQueue_length comparison.col] at represents
  rw [Selection.next_other other, selects_other other converted]
  exact .inr (represents.mixRange_known known)

end

end OtherColumns

end SmartPerf.Table
