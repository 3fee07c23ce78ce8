import SmartPerf.Slice.Irq

namespace SmartPerf.Slice

open List

/-! Tables and maps by cpu of which a front part has been exported. -/

namespace CpuMap

variable {Value : Type} {map : CpuMap Value} {cpu : Nat} {value : Value}

theorem lookup_mapValues (change : Value → Value) (map : CpuMap Value) (cpu : Nat) :
    (map.mapValues change).lookup cpu = (map.lookup cpu).map change := by
  have entries : ∀ entries : List (Sigma fun _ : Nat => Value),
      (entries.map fun entry => (⟨entry.1, change entry.2⟩ : Sigma fun _ : Nat => Value)).dlookup cpu =
        (entries.dlookup cpu).map change := by
    intro entries
    induction entries with
    | nil => rfl
    | cons entry rest ih =>
      obtain ⟨key, value⟩ := entry
      by_cases same : key = cpu
      · subst same
        simp
      · rw [map_cons, dlookup_cons_ne _ _ (Ne.symm same), dlookup_cons_ne _ _ (Ne.symm same), ih]
  exact entries map.entries

theorem eq_empty_of_lookup (absent : ∀ cpu, map.lookup cpu = none) : map = ∅ := by
  apply AList.ext
  cases entries : map.entries with
  | nil => rfl
  | cons entry rest =>
    have found : map.lookup entry.1 = some entry.2 := AList.mem_lookup_iff.mpr (by simp [entries])
    rw [absent] at found
    cases found

theorem mapValues_of_same {change : Value → Value} (same : ∀ value, change value = value) (map : CpuMap Value) :
    map.mapValues change = map := by
  apply AList.ext
  simp only [mapValues, same]
  exact map_id' _

end CpuMap

section MinRow

variable {map : CpuMap IrqRecords} {cpu bound : Nat} {record : IrqRecords}

theorem foldl_min_spec (entries : List (Sigma fun _ : Nat => IrqRecords)) (bound : Nat) :
    let least := entries.foldl (fun least entry => if least > entry.2.row then entry.2.row else least) bound
    least ≤ bound ∧ (∀ entry ∈ entries, least ≤ entry.2.row) ∧
      (least = bound ∨ ∃ entry ∈ entries, least = entry.2.row) := by
  induction entries generalizing bound with
  | nil => simp
  | cons entry rest ih =>
    obtain ⟨below, all, attained⟩ := ih (if bound > entry.2.row then entry.2.row else bound)
    have narrowed : (if bound > entry.2.row then entry.2.row else bound) ≤ bound ∧
        (if bound > entry.2.row then entry.2.row else bound) ≤ entry.2.row := by
      split <;> omega
    simp only [foldl_cons]
    refine ⟨below.trans narrowed.1, ?_, ?_⟩
    · intro other member
      rcases mem_cons.mp member with rfl | later
      · exact below.trans narrowed.2
      · exact all other later
    · rcases attained with same | ⟨other, member, same⟩
      · rw [same]
        split
        · exact .inr ⟨entry, by simp, rfl⟩
        · exact .inl rfl
      · exact .inr ⟨other, mem_cons_of_mem _ member, same⟩

theorem minRow_le_bound (bound : Nat) (map : CpuMap IrqRecords) : IrqFilter.minRow bound map ≤ bound :=
  (foldl_min_spec map.entries bound).1

theorem minRow_le_row (bound : Nat) (found : map.lookup cpu = some record) : IrqFilter.minRow bound map ≤ record.row :=
  (foldl_min_spec map.entries bound).2.1 ⟨cpu, record⟩ (AList.mem_lookup_iff.mp found)

theorem minRow_attained (bound : Nat) (map : CpuMap IrqRecords) :
    IrqFilter.minRow bound map = bound ∨
      ∃ cpu record, map.lookup cpu = some record ∧ IrqFilter.minRow bound map = record.row := by
  rcases (foldl_min_spec map.entries bound).2.2 with same | ⟨⟨cpu, record⟩, member, same⟩
  · exact .inl same
  · exact .inr ⟨cpu, record, AList.mem_lookup_iff.mpr member, same⟩

end MinRow

namespace CallStack

variable {rows : List CallStackRow} {row : CallStackRow} {gone index : Nat}

/-- The table of `rows` after the first `gone` of them were exported. -/
def remaining (gone : Nat) (rows : List CallStackRow) : CallStack :=
  { ofRows (rows.drop gone) with
    parentIds := rows.map (·.parentId)
    id := rows.length
    diskTableSize := gone }

section

variable (found : rows[index]? = some row)
include found

/-- A write that leaves parents, ids and the disk size alone is the same write in what remains. -/
theorem write_remaining {write : CallStack → Nat → CallStack} {changed : CallStackRow} (inside : gone ≤ index)
    (same : changed.parentId = row.parentId)
    (frame : ∀ table parentIds id diskTableSize index, write { table with parentIds, id, diskTableSize } index =
      { write table index with parentIds, id, diskTableSize })
    (onRows : write (ofRows (rows.drop gone)) (index - gone) = ofRows ((rows.drop gone).set (index - gone) changed)) :
    write (remaining gone rows) (index - gone) = remaining gone (rows.set index changed) := by
  rw [remaining, frame, onRows, remaining, map_set_same found same, length_set, drop_set, if_neg (Nat.not_lt.mpr inside)]

end

theorem appendInternalSlice_remaining (inside : gone ≤ rows.length) (row : CallStackInternalRow)
    (parentId : Option Nat) :
    (remaining gone rows).appendInternalSlice row parentId =
      remaining gone (rows ++ [row.append rows.length parentId]) := by
  simp [appendInternalSlice, appendCommonInfo, appendCallStack, appendDistributeInfo, remaining, ofRows,
    CallStackInternalRow.append, drop_append_of_le_length inside]

theorem size_remaining (gone : Nat) (rows : List CallStackRow) : (remaining gone rows).size = rows.length - gone := by
  simp [size, remaining, ofRows]

end CallStack

/-- The live table is the rest of the whole one behind the exported rows. -/
def Parted (exported : List CallStackRow) (live whole : CallStack) : Prop :=
  ∃ rows, whole = .ofRows rows ∧ live = .remaining exported.length rows ∧ rows.take exported.length = exported ∧
    ∀ row ∈ rows, row.parentId = none

namespace Parted

open CallStack

variable {exported : List CallStackRow} {live whole : CallStack} {index : Nat}

theorem initial : Parted [] {} {} := ⟨[], rfl, rfl, rfl, by simp⟩

theorem gone_le {rows : List CallStackRow} (taken : rows.take exported.length = exported) :
    exported.length ≤ rows.length := by
  have length := congrArg List.length taken
  rw [length_take] at length
  omega

section

variable (parted : Parted exported live whole)
include parted

theorem size : exported.length ≤ whole.size ∧ live.size = whole.size - exported.length := by
  obtain ⟨rows, rfl, rfl, taken, -⟩ := parted
  rw [size_ofRows, size_remaining]
  exact ⟨gone_le taken, rfl⟩

theorem size_append (row : CallStackInternalRow) : (whole.appendInternalSlice row none).size = whole.size + 1 := by
  obtain ⟨rows, rfl, -⟩ := parted
  rw [appendInternalSlice_ofRows, size_ofRows, size_ofRows, length_append]
  rfl

theorem disk : live.diskTableSize = exported.length := by
  obtain ⟨rows, -, rfl, -⟩ := parted
  rfl

theorem write (write : CallStack → Nat → CallStack)
    (change : CallStackRow → CallStackRow) (inside : exported.length ≤ index) (bound : index < whole.size)
    (onWhole : ∀ {rows index row}, rows[index]? = some row →
      write (ofRows rows) index = ofRows (rows.set index (change row)))
    (frame : ∀ table parentIds id diskTableSize index, write { table with parentIds, id, diskTableSize } index =
      { write table index with parentIds, id, diskTableSize }) (parent : ∀ row, (change row).parentId = row.parentId) :
    Parted exported (write live (index - exported.length)) (write whole index) := by
  obtain ⟨rows, rfl, rfl, taken, orphans⟩ := parted
  rw [size_ofRows] at bound
  have found := getElem?_eq_getElem bound
  have there : (rows.drop exported.length)[index - exported.length]? = some rows[index] := by
    rw [getElem?_drop, Nat.add_sub_cancel' inside, found]
  refine ⟨rows.set index (change rows[index]), onWhole found, write_remaining found inside (parent _) frame (onWhole there),
    ?_, fun row member => ?_⟩
  · rw [take_set_of_le inside, taken]
  · rcases mem_or_eq_of_mem_set member with old | rfl
    · exact orphans row old
    · rw [parent]
      exact orphans _ (getElem_mem bound)

section
variable (inside : exported.length ≤ index)
include inside

theorem setDur (bound : index < whole.size)
    (dur : Nat) : Parted exported (live.setDur (index - exported.length) dur) (whole.setDur index dur) :=
  parted.write (fun table index => table.setDur index dur) (fun row => { row with dur }) inside bound
    (fun found => setDur_ofRows found dur) (fun _ _ _ _ _ => rfl) fun _ => rfl

theorem setArgSetId (bound : index < whole.size) (argSetId : Nat) :
    Parted exported (live.setArgSetId (index - exported.length) argSetId) (whole.setArgSetId index argSetId) :=
  parted.write (fun table index => table.setArgSetId index argSetId) (fun row => { row with argSetId }) inside bound
    (fun found => by simp [ofRows, CallStack.setArgSetId, map_set_same found]) (fun _ _ _ _ _ => rfl) fun _ => rfl

theorem setFlag (bound : index < whole.size) (flag : Nat) :
    Parted exported (live.setFlag (index - exported.length) flag) (whole.setFlag index flag) :=
  parted.write (fun table index => table.setFlag index flag) (fun row => { row with flag := toString flag }) inside bound
    (fun found => by simp [ofRows, CallStack.setFlag, map_set_same found]) (fun _ _ _ _ _ => rfl) fun _ => rfl

theorem reads : live.timeStamps.getD (index - exported.length) 0 = whole.timeStamps.getD index 0 ∧
      live.durs.getD (index - exported.length) 0 = whole.durs.getD index 0 ∧
      live.argSet.getD (index - exported.length) 0 = whole.argSet.getD index 0 := by
  obtain ⟨rows, rfl, rfl, -, -⟩ := parted
  simp [remaining, ofRows, Nat.add_sub_cancel' inside]

theorem setDuration (bound : index < whole.size) (timeStamp : Nat) :
    Parted exported (live.setDuration (index - exported.length) timeStamp) (whole.setDuration index timeStamp) := by
  rw [CallStack.setDuration, CallStack.setDuration, (parted.reads inside).1]
  exact parted.setDur inside bound _

theorem exchange {linked : Nat}
    (bound : index < whole.size) (linkedInside : exported.length ≤ linked) (linkedBound : linked < whole.size) :
    Parted exported (live.exchange (index - exported.length) (linked - exported.length))
      (whole.exchange index linked) := by
  unfold CallStack.exchange
  have copied := parted.setArgSetId linkedInside linkedBound (whole.argSet.getD index 0)
  have duration := (copied.reads linkedInside).2.1
  simp only [(parted.reads inside).2.2, duration]
  exact copied.setDur inside bound _

end

theorem appendInternalSlice (row : CallStackInternalRow) :
    Parted exported (live.appendInternalSlice row none) (whole.appendInternalSlice row none) := by
  obtain ⟨rows, rfl, rfl, taken, orphans⟩ := parted
  have inside := gone_le taken
  refine ⟨rows ++ [row.append rows.length none], appendInternalSlice_ofRows rows row none,
    appendInternalSlice_remaining inside row none, ?_, fun other member => ?_⟩
  · rw [take_append_of_le_length inside, taken]
  · rcases mem_append.mp member with old | new
    · exact orphans other old
    · rw [mem_singleton.mp new]
      rfl

end

theorem filterMap_lookup (rows : List CallStackRow) (count : Nat) :
    (List.range count).filterMap (fun index => rows[index]?) = rows.take count := by
  induction count with
  | zero => rfl
  | succ count ih =>
    rw [range_succ, filterMap_append, ih, take_add_one]
    cases found : rows[count]? <;> simp [found]

section
variable {rows : List CallStackRow} (orphans : ∀ row ∈ rows, row.parentId = none)
include orphans

theorem row_remaining (gone index : Nat) : (remaining gone rows).row? index = (rows.drop gone)[index]? := by
  cases found : (rows.drop gone)[index]? with
  | none => simp only [row?, remaining, ofRows, getElem?_map, found]; rfl
  | some row =>
    -- the parents are those of earlier rows, and no row has one
    have inside : index < rows.length := by
      rw [getElem?_drop] at found
      have bound := (List.getElem?_eq_some_iff.mp found).1
      omega
    have parent : rows[index].parentId = row.parentId := by
      rw [orphans _ (getElem_mem inside), orphans _ (mem_of_mem_drop (mem_of_getElem? found))]
    simp only [row?, remaining, ofRows, getElem?_map, found, getElem?_eq_getElem inside, Option.map_some, parent]
    rfl

theorem firstRows_remaining (gone count : Nat) : (remaining gone rows).firstRows count = (rows.drop gone).take count := by
  rw [firstRows, ← filterMap_lookup]
  congr 1
  funext index
  exact row_remaining orphans gone index

end

theorem remaining_zero (rows : List CallStackRow) : remaining 0 rows = ofRows rows := rfl

theorem rows_eq (parted : Parted exported live whole) : exported ++ live.rows = whole.rows := by
  obtain ⟨rows, rfl, rfl, taken, orphans⟩ := parted
  have liveRows : (remaining exported.length rows).rows = rows.drop exported.length := by
    rw [CallStack.rows, firstRows_remaining orphans, size_remaining, ← length_drop, take_length]
  have wholeRows : (ofRows rows).rows = rows := by
    rw [CallStack.rows, ← remaining_zero, firstRows_remaining orphans, size_remaining]
    simp
  have split := take_append_drop exported.length rows
  rw [taken] at split
  rw [liveRows, wholeRows, split]

theorem clearExportedData (parted : Parted exported live whole) {ready : Nat} (bound : ready ≤ live.size) :
    Parted (exported ++ live.firstRows ready) (live.updateReadySize ready).clearExportedData whole ∧
      (live.firstRows ready).length = ready := by
  obtain ⟨rows, rfl, rfl, taken, orphans⟩ := parted
  rw [size_remaining] at bound
  have batch := firstRows_remaining orphans exported.length ready
  have length : ((remaining exported.length rows).firstRows ready).length = ready := by
    rw [batch, length_take, length_drop]
    omega
  refine ⟨⟨rows, rfl, ?_, ?_, orphans⟩, length⟩
  · rw [length_append, length]
    simp [CallStack.clearExportedData, updateReadySize, remaining, ofRows]
  · rw [length_append, length, take_add, taken, batch]

end Parted

/-- A map of the exporting filter holds the rows of the whole one's map, counted from
the first row that is left. -/
structure Tracks {Value : Type} (row : Value → Nat) (rebase : Nat → Value → Value) (gone size : Nat)
    (live whole : CpuMap Value) : Prop where
  lookup : ∀ cpu, live.lookup cpu = (whole.lookup cpu).map (rebase gone)
  inside : ∀ cpu value, whole.lookup cpu = some value → gone ≤ row value ∧ row value < size

namespace Tracks

variable {Value : Type} {row : Value → Nat} {rebase : Nat → Value → Value} {gone size : Nat}
  {live whole : CpuMap Value}

theorem initial : Tracks row rebase gone size ∅ ∅ := ⟨fun _ => rfl, fun _ _ found => by cases found⟩

section

variable (tracks : Tracks row rebase gone size live whole)
include tracks

theorem grow {larger : Nat} (grows : size ≤ larger) : Tracks row rebase gone larger live whole where
  lookup := tracks.lookup
  inside := fun cpu value found =>
    ⟨(tracks.inside cpu value found).1, (tracks.inside cpu value found).2.trans_le grows⟩

theorem erase (cpu : Nat) : Tracks row rebase gone size (live.erase cpu) (whole.erase cpu) where
  lookup := by
    intro other
    by_cases same : other = cpu
    · subst same
      simp
    · rw [AList.lookup_erase_ne same, AList.lookup_erase_ne same, tracks.lookup other]
  inside := by
    intro other value found
    by_cases same : other = cpu
    · subst same
      simp at found
    · rw [AList.lookup_erase_ne same] at found
      exact tracks.inside other value found

theorem insert (cpu : Nat) {value : Value} (inside : gone ≤ row value) (bound : row value < size) :
    Tracks row rebase gone size (live.insert cpu (rebase gone value)) (whole.insert cpu value) where
  lookup := by
    intro other
    by_cases same : other = cpu
    · subst same
      simp
    · rw [AList.lookup_insert_ne same, AList.lookup_insert_ne same, tracks.lookup other]
  inside := by
    intro other found lookup
    by_cases same : other = cpu
    · subst same
      rw [AList.lookup_insert] at lookup
      cases lookup
      exact ⟨inside, bound⟩
    · rw [AList.lookup_insert_ne same] at lookup
      exact tracks.inside other found lookup

theorem flush {ready : Nat} (compose : ∀ value, rebase ready (rebase gone value) = rebase (gone + ready) value)
    (behind : ∀ cpu value, whole.lookup cpu = some value → gone + ready ≤ row value) :
    Tracks row rebase (gone + ready) size (live.mapValues (rebase ready)) whole where
  lookup := by
    intro cpu
    rw [CpuMap.lookup_mapValues, tracks.lookup, Option.map_map]
    exact congrArg (fun change => (whole.lookup cpu).map change) (funext compose)
  inside := fun cpu value found => ⟨behind cpu value found, (tracks.inside cpu value found).2⟩

theorem vacuous (absent : ∀ cpu, live.lookup cpu = none) (later : Nat) : Tracks row rebase later size live whole := by
  have none : ∀ cpu, whole.lookup cpu = none := by
    intro cpu
    have lookup := tracks.lookup cpu
    rw [absent] at lookup
    exact Option.map_eq_none_iff.mp lookup.symm
  refine ⟨fun cpu => by rw [absent, none]; rfl, fun cpu value found => ?_⟩
  rw [none] at found
  cases found

end

end Tracks

section Aligned

variable {table : CallStack}

theorem CallStack.Aligned.size (aligned : table.Aligned) : table.size = table.timeStamps.length := by
  have ids : table.ids.length = table.timeStamps.length := aligned _ (by simp)
  rw [CallStack.size, ids, Nat.max_self]

theorem CallStack.clearExportedData_zero (ready : table.readySize = 0) :
    (table.updateReadySize 0).clearExportedData = table := by
  cases table
  cases ready
  rfl

section
variable (aligned : table.Aligned)
include aligned

theorem CallStack.Aligned.appendInternalSlice (row : CallStackInternalRow) (parentId : Option Nat) :
    (table.appendInternalSlice row parentId).Aligned ∧
      (table.appendInternalSlice row parentId).size = table.size + 1 := by
  constructor
  · simpa [CallStack.Aligned, CallStack.appendInternalSlice, CallStack.appendCommonInfo, CallStack.appendCallStack,
      CallStack.appendDistributeInfo] using aligned
  · simp [CallStack.size, CallStack.appendInternalSlice, CallStack.appendCommonInfo, CallStack.appendCallStack,
      CallStack.appendDistributeInfo]

theorem CallStack.Aligned.setDur (index dur : Nat) : (table.setDur index dur).Aligned := by
  simpa [CallStack.Aligned, CallStack.setDur] using aligned

theorem CallStack.Aligned.setFlag (index flag : Nat) : (table.setFlag index flag).Aligned := by
  simpa [CallStack.Aligned, CallStack.setFlag] using aligned

theorem CallStack.Aligned.setArgSetId (index argSetId : Nat) : (table.setArgSetId index argSetId).Aligned := by
  simpa [CallStack.Aligned, CallStack.setArgSetId] using aligned

end

end Aligned

end SmartPerf.Slice
