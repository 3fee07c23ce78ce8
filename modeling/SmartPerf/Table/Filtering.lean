import SmartPerf.Table.Selection

namespace SmartPerf.Table

open SmartPerf.Data List ThreadStateTable Selection

/-! The rows that whole queries on `thread_state` visit. -/

variable {table : ThreadStateTable} {comparison : Comparison}

section Runs

theorem ThreadStateTable.handleConstraint_represents {map : IndexMap} {selection : Selection}
    (represents : map.Represents table.rows.length selection) (inside : ∀ row ∈ selection.rows, row < table.rows.length)
    (regular : selection.Regular table comparison) :
    ∃ next, table.handleConstraint map comparison.constraint = some next ∧
      next.Represents table.rows.length (selection.next table comparison) := by
  by_cases other : comparison.OnOther
  · obtain ⟨value, invalidValue, converted⟩ := mixRangeValue_integer comparison.col comparison.operand
    exact ⟨_, handleConstraint_other other converted, represents.mixRange other converted⟩
  · obtain ⟨col, op, operand⟩ := comparison
    cases col with
    | id => exact ⟨_, rfl, represents.filterId regular⟩
    | ts => exact ⟨_, rfl, represents.filterTS inside regular⟩
    | _ => exact absurd ⟨by simp, by simp⟩ other

def Selection.run (table : ThreadStateTable) (selection : Selection) (comparisons : List Comparison) : Selection :=
  comparisons.foldl (Selection.next table) selection

/-- Every comparison of a list is regular for the rows selected before it. -/
def Selection.RegularRun (table : ThreadStateTable) : Selection → List Comparison → Prop
  | _, [] => True
  | selection, comparison :: rest =>
    selection.Regular table comparison ∧ (selection.next table comparison).RegularRun table rest

instance Selection.decidableRegularRun (table : ThreadStateTable) :
    (selection : Selection) → (comparisons : List Comparison) →
      Decidable (selection.RegularRun table comparisons)
  | _, [] => .isTrue trivial
  | selection, comparison :: rest =>
    have := decidableRegularRun table (selection.next table comparison) rest
    inferInstanceAs
      (Decidable (selection.Regular table comparison ∧ (selection.next table comparison).RegularRun table rest))

variable {selection : Selection} {row : Nat}

theorem Selection.next_sublist (selection : Selection) (comparison : Comparison) :
    (selection.next table comparison).rows.Sublist selection.rows := by
  have passing : (selection.passing table comparison).Sublist selection.rows := filter_sublist
  by_cases other : comparison.OnOther
  · rw [next_other other]
    exact mixed_sublist _
  · obtain ⟨col, op, operand⟩ := comparison
    cases col with
    | id => exact passing
    | ts => exact passing
    | _ => exact absurd ⟨by simp, by simp⟩ other

theorem Selection.mem_next (member : row ∈ (selection.next table comparison).rows) (own : ¬ comparison.OnOther) :
    table.selects comparison row = true := by
  obtain ⟨col, op, operand⟩ := comparison
  cases col with
  | id => exact (mem_filter.mp member).2
  | ts => exact (mem_filter.mp member).2
  | _ => exact absurd ⟨by simp, by simp⟩ own

theorem Selection.next_mem (member : row ∈ selection.rows) (selected : table.selects comparison row = true) :
    row ∈ (selection.next table comparison).rows := by
  have passes : row ∈ selection.passing table comparison := mem_filter.mpr ⟨member, selected⟩
  by_cases other : comparison.OnOther
  · rw [next_other other]
    exact mem_mixed member selected
  · obtain ⟨col, op, operand⟩ := comparison
    cases col with
    | id => exact passes
    | ts => exact passes
    | _ => exact absurd ⟨by simp, by simp⟩ other

theorem Selection.run_sublist (selection : Selection) (comparisons : List Comparison) :
    (selection.run table comparisons).rows.Sublist selection.rows := by
  induction comparisons generalizing selection with
  | nil => exact List.Sublist.refl _
  | cons comparison rest ih => exact (ih _).trans (selection.next_sublist comparison)

variable {comparisons : List Comparison}

theorem Selection.mem_run (member : row ∈ (selection.run table comparisons).rows) :
    ∀ comparison ∈ comparisons, ¬ comparison.OnOther → table.selects comparison row = true := by
  induction comparisons generalizing selection with
  | nil => simp
  | cons first rest ih =>
    intro comparison listed own
    rcases mem_cons.mp listed with rfl | later
    · exact mem_next ((run_sublist _ rest).subset member) own
    · exact ih member comparison later own

theorem Selection.run_mem (member : row ∈ selection.rows)
    (selected : ∀ comparison ∈ comparisons, table.selects comparison row = true) :
    row ∈ (selection.run table comparisons).rows := by
  induction comparisons generalizing selection with
  | nil => exact member
  | cons first rest ih =>
    exact ih (Selection.next_mem member (selected first (by simp)))
      (forall_mem_of_forall_mem_cons selected)

theorem ThreadStateTable.handleConstraints_represents {map : IndexMap}
    (represents : map.Represents table.rows.length selection)
    (inside : ∀ row ∈ selection.rows, row < table.rows.length) (regular : selection.RegularRun table comparisons) :
    ∃ final, table.handleConstraints map (comparisons.map Comparison.constraint) = some final ∧
      final.Represents table.rows.length (selection.run table comparisons) := by
  induction comparisons generalizing map selection with
  | nil => exact ⟨map, rfl, represents⟩
  | cons comparison rest ih =>
    obtain ⟨first, later⟩ := regular
    obtain ⟨next, handled, nextRepresents⟩ := table.handleConstraint_represents represents inside first
    have nextInside : ∀ row ∈ (selection.next table comparison).rows, row < table.rows.length :=
      fun row member => inside row ((selection.next_sublist comparison).subset member)
    obtain ⟨final, rest, finalRepresents⟩ := ih nextRepresents nextInside later
    exact ⟨final, by simpa only [map_cons, handleConstraints, handled] using rest, finalRepresents⟩

end Runs

section Visits

variable {map : IndexMap} {cells : List Nat}

/-- The positions of a map from `start` to `endRow` show the rows `cells`. -/
structure IndexMap.Walks (map : IndexMap) (cells : List Nat) : Prop where
  length : map.endRow = map.start + cells.length
  cell : ∀ index < cells.length, ∀ desc,
    IndexMap.currentRow { map with current := map.start + index, desc := desc } = cells[index]?

namespace IndexMap

variable {index fuel : Nat}

theorem Walks.ascending (walks : map.Walks cells) (inside : index ≤ cells.length)
    (enough : cells.length - index < fuel) :
    visitLoop fuel { map with current := map.start + index, desc := false } = some (cells.drop index) := by
  have length := walks.length
  induction fuel generalizing index with
  | zero => omega
  | succ fuel ih =>
    rcases Nat.lt_or_ge index cells.length with more | done
    · have running : ¬ (map.start + (index : Int) ≥ map.endRow) := by omega
      have onward : map.start + (index : Int) < map.endRow := by omega
      have fewer : cells.length - (index + 1) < fuel := by omega
      have rest := ih more fewer
      have shift : map.start + (index : Int) + 1 = map.start + ((index + 1 : Nat) : Int) := by omega
      have step : next { map with current := map.start + index, desc := false } =
          { map with current := map.start + ((index + 1 : Nat) : Int), desc := false } := by
        simp [next, if_pos onward, shift]
      have shown := walks.cell index more false
      rw [getElem?_eq_getElem more] at shown
      have unfinished : eof { map with current := map.start + index, desc := false } = false := by
        simp only [eof, Bool.false_eq_true, if_false, decide_eq_false_iff_not]
        exact running
      simp only [visitLoop, unfinished, Bool.false_eq_true, if_false, shown, step, rest]
      rw [drop_eq_getElem_cons more]
    · have finished : eof { map with current := map.start + index, desc := false } = true := by
        simp only [eof, Bool.false_eq_true, if_false, decide_eq_true_eq]
        omega
      simp only [visitLoop, finished, if_true]
      rw [drop_eq_nil_of_le done]

theorem Walks.descending (walks : map.Walks cells) (inside : index ≤ cells.length)
    (enough : index < fuel) :
    visitLoop fuel { map with current := map.start + index - 1, desc := true } =
      some (cells.take index).reverse := by
  induction index generalizing fuel with
  | zero =>
    obtain ⟨fuel, rfl⟩ := Nat.exists_eq_add_of_le' (show 1 ≤ fuel by omega)
    simp [visitLoop, eof]
  | succ index ih =>
    obtain ⟨fuel, rfl⟩ := Nat.exists_eq_add_of_le' (show 1 ≤ fuel by omega)
    have here : map.start + ((index + 1 : Nat) : Int) - 1 = map.start + index := by omega
    have fewer : index < fuel := by omega
    have rest := ih (by omega) fewer
    have shown := walks.cell index (by omega) true
    rw [getElem?_eq_getElem (by omega)] at shown
    have unfinished : eof { map with current := map.start + index, desc := true } = false := by
      simp only [eof, if_true, decide_eq_false_iff_not]
      omega
    have step : next { map with current := map.start + index, desc := true } =
        { map with current := map.start + index - 1, desc := true } := by
      simp [next]
    rw [here]
    simp only [visitLoop, unfinished, shown, step, rest]
    rw [take_succ_eq_append_getElem (by omega), reverse_append]
    rfl

theorem Walks.visit (walks : map.Walks cells) (desc : Bool) :
    IndexMap.visit { map with current := if desc then map.endRow - 1 else map.start, desc := desc } =
      some (if desc then cells.reverse else cells) := by
  have length := walks.length
  have fuel : (map.endRow - map.start).toNat + 1 = cells.length + 1 := by omega
  simp only [IndexMap.visit, fuel]
  cases desc with
  | false => simpa using walks.ascending (Nat.zero_le _) (show cells.length - 0 < cells.length + 1 by omega)
  | true =>
    have walked := walks.descending le_rfl (Nat.lt_succ_self cells.length)
    simpa [length] using walked

theorem mergeRows_self (rows : List Nat) : mergeRows rows rows = some rows := by
  induction rows with
  | nil => simp [mergeRows]
  | cons row rest ih => simp [mergeRows, ih]

variable {count : Nat} {selection : Selection}

theorem IsList.walks (list : map.IsList selection) : map.Walks selection.rows where
  length := by rw [list.upper, list.lower, Int.zero_add]
  cell := by
    simp [currentRow, list.indexType, list.rowIndex, list.lower]

theorem IsRange.walks (range : map.IsRange count selection) (proper : map.start ≤ map.endRow) :
    map.Walks selection.rows where
  length := by
    rw [range.rows, rangeFrom, length_range']
    omega
  cell := by
    have lower := range.lower
    intro index inside desc
    rw [range.rows, rangeFrom, length_range'] at inside
    simp only [currentRow, range.indexType, range.rows, rangeFrom]
    rw [getElem?_range' inside]
    congr 1
    omega

theorem Represents.merge_self (represents : map.Represents count selection) (narrowed : selection.narrowed = true) :
    ∃ merged, map.merge map = some merged ∧ merged.Walks selection.rows ∧ merged.desc = false ∧
      merged.current = merged.start := by
  rcases represents with range | list
  · by_cases proper : map.start ≤ map.endRow
    · have same : { map with start := min map.start map.start, endRow := max map.endRow map.endRow } = map := by
        rw [Int.min_self, Int.max_self]
      have notLists : ¬ (map.indexType ≠ .id ∧ map.indexType ≠ .id) := by simp [range.indexType]
      have overlap : (map.start ≥ map.start ∧ map.start ≤ map.endRow) ∨
          (map.start ≥ map.start ∧ map.start ≤ map.endRow) := .inl ⟨Int.le_refl _, proper⟩
      have result : map.merge map = some map := by
        simp only [merge, mergeIndexTypeId, if_neg notLists, if_pos overlap, same]
      exact ⟨map, result, range.walks proper, range.ascending, range.position⟩
    · have list := range.convertToIndexMap narrowed
      have none : selection.rows = [] := by
        rw [range.rows, rangeFrom, range'_eq_nil_iff]
        omega
      have rowIndex : map.convertToIndexMap.rowIndex = [] := list.rowIndex.trans none
      have result : map.merge map =
          some { map.convertToIndexMap with start := 0, current := 0, endRow := 0 } := by
        simp [merge, mergeIndexTypeId, range.indexType, proper, rowIndex]
      refine ⟨_, result, ⟨by simp [none], by simp [none]⟩, list.ascending, rfl⟩
  · have converted := list.convertToIndexMap
    have result : map.merge map =
        some { map.convertToIndexMap with
          rowIndex := selection.rows
          start := 0
          current := 0
          endRow := selection.rows.length } := by
      simp [merge, mergeIndexTypeId, list.indexType, converted.rowIndex, mergeRows_self]
    refine ⟨_, result, IsList.walks ⟨converted.indexType, rfl, converted.ascending, rfl, rfl, rfl, list.listed,
      converted.empty, narrowed⟩, converted.ascending, rfl⟩

end IndexMap

theorem sortByOrders_eq (orderBys : List OrderBy) (ascending : map.desc = false) (position : map.current = map.start) :
    ∃ desc, sortByOrders map orderBys =
      { map with current := if desc then map.endRow - 1 else map.start, desc := desc } := by
  induction orderBys with
  | nil =>
    obtain ⟨rowIndex, endRow, current, start, indexType, empty, desc, converted⟩ := map
    cases ascending
    cases position
    exact ⟨false, rfl⟩
  | cons order rest ih =>
    obtain ⟨desc, sorted⟩ := ih
    simp only [sortByOrders, foldr_cons] at sorted ⊢
    rw [sorted]
    cases order.iColumn with
    | id => exact ⟨order.desc, rfl⟩
    | ts => exact ⟨order.desc, rfl⟩
    | _ => exact ⟨desc, rfl⟩

end Visits

theorem IndexMap.new_isRange (count : Nat) : (IndexMap.new 0 count).IsRange count ⟨List.range count, false, false⟩ := by
  refine ⟨rfl, rfl, rfl, rfl, rfl, Int.le_refl _, Int.le_refl _, ?_, rfl, rfl, fun _ => ⟨rfl, rfl⟩⟩
  simp [rangeFrom, IndexMap.new, range_eq_range']

section Columns

/-- A call of `MixRange` on a column with one value for each row.  A signed column is given by the distances from the
least value of its type, which compare in the same way. -/
structure ColumnFilter (count : Nat) where
  op : ConstraintOp
  value : Nat
  invalidValue : Nat
  dataQueue : List Nat
  sized : dataQueue.length = count

namespace ColumnFilter

variable {count : Nat} {map : IndexMap} {selection : Selection}

def keeps (filter : ColumnFilter count) (row : Nat) : Bool :=
  IndexMap.mixRangeKeeps filter.op filter.value filter.invalidValue (filter.dataQueue.getD row 0)

def mixRange (map : IndexMap) (filter : ColumnFilter count) : IndexMap :=
  map.mixRange filter.op filter.value filter.invalidValue filter.dataQueue

def mixRanges (filters : List (ColumnFilter count)) : IndexMap := filters.foldl mixRange (IndexMap.new 0 count)

variable (filters : List (ColumnFilter count))

theorem mixRanges_concat (filter : ColumnFilter count) :
    mixRanges (filters ++ [filter]) = mixRange (mixRanges filters) filter := by
  rw [mixRanges, foldl_append]
  rfl

/-- The rows of a map, in both directions. -/
structure Shows (map : IndexMap) (rows : List Nat) : Prop where
  listed : map.rowIndex.Pairwise (· < ·)
  ascending : rows.Pairwise (· < ·)
  visit : ∀ desc, (map.sortBy desc).visit = some (if desc then rows.reverse else rows)

theorem shows_of_represents (represents : map.Represents count selection) (walks : map.Walks selection.rows)
    (ascending : selection.rows.Pairwise (· < ·)) : Shows map selection.rows := by
  refine ⟨?_, ascending, walks.visit⟩
  rcases represents with range | list
  · rw [range.rowIndex]
    exact Pairwise.nil
  · rw [list.rowIndex]
    exact ascending

theorem represents_mixRange (represents : map.Represents count selection) (filter : ColumnFilter count) :
    ∃ next, (mixRange map filter).Represents count next ∧ (mixRange map filter).Walks next.rows ∧
      next.rows.Sublist selection.rows ∧ ∀ row ∈ selection.rows, filter.keeps row = true → row ∈ next.rows := by
  obtain ⟨op, value, invalidValue, dataQueue, rfl⟩ := filter
  by_cases known : op = .other
  · -- An operator that is not known only marks the map as filtered.
    subst known
    change ∃ next, IndexMap.Represents { map.prepareId with empty := false } _ next ∧
      IndexMap.Walks { map.prepareId with empty := false } next.rows ∧ _
    rcases represents.prepareId with ⟨narrowed, range⟩ | ⟨-, list⟩
    · obtain ⟨start, endRow⟩ := range.whole narrowed
      have walks := range.walks (by omega)
      exact ⟨{ selection with narrowed := true }, .inl { range with empty := rfl, whole := fun unchanged => by cases unchanged },
        ⟨walks.length, walks.cell⟩, .refl _, fun row member _ => member⟩
    · have marked : IndexMap.IsList { map.prepareId with empty := false } _ := { list with empty := rfl }
      exact ⟨_, .inr marked, marked.walks, .refl _, fun row member _ => member⟩
  · have list := @IndexMap.Represents.mixRange_known value invalidValue _ _ _ _ represents known
    exact ⟨_, .inr list, list.walks, mixed_sublist _, fun row member kept => mem_mixed member kept⟩

theorem represents_mixRanges :
    ∃ selection, (mixRanges filters).Represents count selection ∧ (mixRanges filters).Walks selection.rows ∧
      selection.rows.Sublist (List.range count) ∧
      ∀ row < count, (∀ filter ∈ filters, filter.keeps row = true) → row ∈ selection.rows := by
  induction filters using reverseRecOn with
  | nil =>
    have range := IndexMap.new_isRange count
    exact ⟨_, .inl range, range.walks (Int.natCast_nonneg count), .refl _, fun row inside _ => mem_range.mpr inside⟩
  | append_singleton filters filter ih =>
    obtain ⟨selection, represents, -, fewer, kept⟩ := ih
    obtain ⟨next, stands, walks, narrower, stay⟩ := represents_mixRange represents filter
    rw [mixRanges_concat]
    refine ⟨next, stands, walks, narrower.trans fewer, fun row inside passes => ?_⟩
    rw [forall_mem_append, forall_mem_singleton] at passes
    exact stay row (kept row inside passes.1) passes.2

/-- Further column filters take rows away only, none of them one that passes all filters, and the rows are gone through
in ascending order and in the reverse of it. -/
theorem mixRanges_narrow (filters : List (ColumnFilter count)) (filter : ColumnFilter count) :
    ∃ rows fewer, Shows (mixRanges filters) rows ∧ Shows (mixRanges (filters ++ [filter])) fewer ∧ fewer.Sublist rows ∧
      ∀ row < count, (∀ filter ∈ filters, filter.keeps row = true) → row ∈ rows := by
  obtain ⟨selection, represents, walks, inside, kept⟩ := represents_mixRanges filters
  obtain ⟨next, stands, further, fewer, -⟩ := represents_mixRange represents filter
  have ascending := pairwise_lt_range.sublist inside
  rw [mixRanges_concat]
  exact ⟨_, _, shows_of_represents represents walks ascending, shows_of_represents stands further (ascending.sublist fewer),
    fewer, kept⟩

end ColumnFilter

end Columns

section Queries

variable {α β : Type}

theorem swapIndexFront_map (inSet : β → Bool) (value : α → β) (constraints : List α) :
    swapIndexFront inSet (constraints.map value) =
      (swapIndexFront (fun constraint => inSet (value constraint)) constraints).map value := by
  cases constraints with
  | nil => rfl
  | cons front rest =>
    simp only [map_cons, swapIndexFront, findIdx?_map, Function.comp_def]
    split
    · rfl
    · cases rest.findIdx? (fun constraint => inSet (value constraint)) with
      | none => rfl
      | some index => cases found : rest[index]? <;> simp [found]

theorem mem_swapIndexFront (inSet : α → Bool) (constraints : List α) (constraint : α) :
    constraint ∈ swapIndexFront inSet constraints ↔ constraint ∈ constraints := by
  cases constraints with
  | nil => rfl
  | cons front rest =>
    simp only [swapIndexFront]
    split
    · rfl
    · cases rest.findIdx? inSet with
      | none => rfl
      | some index =>
        cases found : rest[index]? with
        | none => simp [found]
        | some swapped =>
          obtain ⟨inside, value⟩ := List.getElem?_eq_some_iff.mp found
          have before : rest.take index ++ swapped :: rest.drop (index + 1) = rest := by
            rw [← value, getElem_cons_drop, take_append_drop]
          have member : constraint ∈ rest ↔
              constraint ∈ rest.take index ++ swapped :: rest.drop (index + 1) := by
            rw [before]
          simp only [set_eq_take_append_cons_drop, inside, if_true, found, mem_cons, member, mem_append]
          tauto

/-- The comparisons in the order `HandleIndex` takes them. -/
def handled (comparisons : List Comparison) : List Comparison :=
  swapIndexFront (fun comparison => decide (comparison.col = .ts)) comparisons

/-- The rows a query visits are each visited once, satisfy every comparison that
sqlite does not check again, and include every row that satisfies all of them. -/
def ThreadStateTable.Exact (table : ThreadStateTable) (comparisons : List Comparison)
    (orderBys : List OrderBy) : Prop :=
  ∃ visited, table.visited (comparisons.map Comparison.constraint) orderBys = some visited ∧
    visited.Nodup ∧
    (∀ row ∈ visited, row < table.rows.length ∧ ∀ comparison ∈ comparisons, table.omits comparison.constraint = true →
        table.satisfies comparison row = true) ∧
    ∀ row < table.rows.length,
      (∀ comparison ∈ comparisons, table.satisfies comparison row = true) → row ∈ visited

/-- The converted comparison rejects no row that satisfies the comparison, and
where sqlite relies on it it accepts no other. -/
def ThreadStateTable.Agrees (table : ThreadStateTable) (comparison : Comparison) : Prop :=
  ∀ row < table.rows.length,
    (table.satisfies comparison row = true → table.selects comparison row = true) ∧
    (table.omits comparison.constraint = true → table.selects comparison row = true →
      table.satisfies comparison row = true)

theorem ThreadStateTable.visited_of_regular {comparisons : List Comparison} (orderBys : List OrderBy)
    (regular : table.initial.RegularRun table (handled comparisons)) :
    ∃ visited, table.visited (comparisons.map Comparison.constraint) orderBys = some visited ∧
      visited.Perm (table.initial.run table (handled comparisons)).rows := by
  by_cases none : table.rows.length = 0
  · have empty : (table.initial.run table (handled comparisons)).rows = [] := by
      have fewer : (table.initial.run table (handled comparisons)).rows.Sublist _ :=
        run_sublist table.initial (handled comparisons)
      simpa [initial, none] using fewer
    refine ⟨[], ?_, by rw [empty]⟩
    simp [ThreadStateTable.visited, ThreadStateTable.filter, none, IndexMap.visit, IndexMap.visitLoop,
      IndexMap.new, IndexMap.eof]
  · obtain ⟨map, run, represents⟩ := table.handleConstraints_represents (.inl (IndexMap.new_isRange _))
      (fun row member => mem_range.mp member) regular
    have order : swapIndexFront (fun constraint => decide (constraint.col = .ts))
        (comparisons.map Comparison.constraint) = (handled comparisons).map Comparison.constraint :=
      swapIndexFront_map _ _ _
    have indexed : table.handleIndex (IndexMap.new 0 table.rows.length)
        (comparisons.map Comparison.constraint) = some map := by
      rw [handleIndex, order, run]
    have merged : ∃ merged, (if map.hasData then map.merge map else some map) = some merged ∧
        merged.Walks (table.initial.run table (handled comparisons)).rows ∧ merged.desc = false ∧
        merged.current = merged.start := by
      cases data : map.hasData with
      | true => exact represents.merge_self (represents.hasData.symm.trans data)
      | false =>
        have unnarrowed := represents.hasData.symm.trans data
        rcases represents with range | list
        · obtain ⟨start, endRow⟩ := range.whole unnarrowed
          exact ⟨map, rfl, range.walks (by omega), range.ascending, range.position⟩
        · simp [list.narrowed] at unnarrowed
    obtain ⟨final, mergedResult, walks, ascending, position⟩ := merged
    obtain ⟨desc, sorted⟩ := sortByOrders_eq orderBys ascending position
    have visits : table.visited (comparisons.map Comparison.constraint) orderBys =
        some (if desc then (table.initial.run table (handled comparisons)).rows.reverse
          else (table.initial.run table (handled comparisons)).rows) := by
      rw [ThreadStateTable.visited, ThreadStateTable.filter, if_neg none, indexed]
      simp only [mergedResult, Option.map_some, sorted]
      exact walks.visit desc
    refine ⟨_, visits, ?_⟩
    cases desc with
    | false => exact List.Perm.refl _
    | true => exact reverse_perm _

variable {orderBys : List OrderBy}

theorem ThreadStateTable.exact_of_agrees {comparisons : List Comparison}
    (agrees : ∀ comparison ∈ comparisons, table.Agrees comparison)
    (regular : table.initial.RegularRun table (handled comparisons)) : table.Exact comparisons orderBys := by
  obtain ⟨visited, result, perm⟩ := table.visited_of_regular orderBys regular
  have fewer : (table.initial.run table (handled comparisons)).rows.Sublist _ :=
    run_sublist table.initial (handled comparisons)
  refine ⟨visited, result, ?_, ?_, ?_⟩
  · exact perm.nodup_iff.mpr (fewer.nodup nodup_range)
  · intro row member
    have selected := perm.mem_iff.mp member
    have inside : row < table.rows.length := mem_range.mp (fewer.subset selected)
    refine ⟨inside, fun comparison listed omitted => ?_⟩
    have own : ¬ comparison.OnOther := by
      obtain ⟨col, op, operand⟩ := comparison
      rintro ⟨notId, notTs⟩
      cases col <;> simp_all [omits, filterByConstraint, Comparison.constraint]
    exact (agrees comparison listed row inside).2 omitted
      (mem_run selected comparison ((mem_swapIndexFront _ _ _).mpr listed) own)
  · intro row inside satisfied
    refine perm.mem_iff.mpr (run_mem (mem_range.mpr inside) (fun comparison listed => ?_))
    have original := (mem_swapIndexFront _ _ _).mp listed
    exact (agrees comparison original row inside).1 (satisfied comparison original)

theorem handled_single (comparison : Comparison) : handled [comparison] = [comparison] := by
  simp [handled, swapIndexFront]

theorem regularRun_single (table : ThreadStateTable) (comparison : Comparison) :
    table.initial.RegularRun table (handled [comparison]) := by
  rw [handled_single]
  refine ⟨?_, trivial⟩
  obtain ⟨col, op, operand⟩ := comparison
  cases col <;> simp [Regular, initial]

theorem ThreadStateTable.initial_next (table : ThreadStateTable) (comparison : Comparison) :
    (table.initial.next table comparison).rows = (List.range table.rows.length).filter (table.selects comparison) := by
  obtain ⟨col, op, operand⟩ := comparison
  cases col <;> rfl

theorem ThreadStateTable.agrees_of_exact (exact : table.Exact [comparison] orderBys) :
    table.Agrees comparison := by
  obtain ⟨visited, result, perm⟩ := table.visited_of_regular orderBys (regularRun_single table comparison)
  obtain ⟨rows, visits, -, sound, complete⟩ := exact
  obtain rfl : visited = rows := Option.mem_unique result visits
  rw [handled_single] at perm
  have shown : ∀ row < table.rows.length, row ∈ visited ↔ table.selects comparison row = true := by
    intro row inside
    rw [perm.mem_iff, Selection.run, foldl_cons, foldl_nil, table.initial_next, mem_filter, mem_range]
    exact and_iff_right inside
  intro row inside
  refine ⟨fun satisfied => (shown row inside).mp (complete row inside (by simpa using satisfied)), ?_⟩
  intro omitted selected
  exact (sound row ((shown row inside).mpr selected)).2 comparison (by simp) omitted

/-- A query is exact when the converted comparisons agree with sqlite's and each
comparison on `id` or `ts` is regular for the rows selected before it.  A query
of one comparison is exact in no other case. -/
theorem threadState_query_exact (table : ThreadStateTable) (comparisons : List Comparison) (orderBys : List OrderBy) :
    ((∀ comparison ∈ comparisons, table.Agrees comparison) →
      table.initial.RegularRun table (handled comparisons) → table.Exact comparisons orderBys) ∧
    ∀ comparison, comparisons = [comparison] → table.Exact comparisons orderBys →
      table.Agrees comparison ∧ table.initial.RegularRun table (handled comparisons) := by
  refine ⟨exact_of_agrees, ?_⟩
  rintro comparison rfl exact
  exact ⟨agrees_of_exact exact, regularRun_single table comparison⟩

def twoRows : ThreadStateTable where
  rows := [⟨0, 1, 1, 0, 7, 7, 7, .running, 0⟩, ⟨1, 2, 5, 0, 8, 8, 8, .runnable, 0⟩]
  numbered := by decide
  ordered := by decide

theorem threadState_query_exact_twoRows : twoRows.Exact [⟨.internalTid, .eq, 8⟩, ⟨.ts, .ge, 2⟩] [⟨.ts, true⟩] := by
  apply (threadState_query_exact twoRows [⟨.internalTid, .eq, 8⟩, ⟨.ts, .ge, 2⟩] [⟨.ts, true⟩]).1
  · simp only [Agrees]
    decide
  · decide

/-- The search behind `ts < 2` ends behind the row with timestamp two. -/
theorem threadState_query_ts_below_inexact : ¬ twoRows.Exact [⟨.ts, .lt, 2⟩] [] := by
  rintro ⟨visited, result, -, sound, -⟩
  have computed : twoRows.visited [Comparison.constraint ⟨.ts, .lt, 2⟩] [] = some [0, 1] := by decide
  obtain rfl : visited = [0, 1] := Option.mem_unique result computed
  have wrong := (sound 1 (by decide)).2 ⟨.ts, .lt, 2⟩ (by decide) (by decide)
  exact absurd wrong (by decide)

end Queries

end SmartPerf.Table
