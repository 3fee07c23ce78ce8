import SmartPerf.Data.Assoc
import SmartPerf.Hook.NativeHook

namespace SmartPerf.Hook

open Data List NativeHookRow

/-! What one allocation event does to the table. The column `currentSizeDur` is written behind the
other columns and read by none of them, so the rows are described without it. -/

def NativeHookRow.withoutSizeDur (row : NativeHookRow) : NativeHookRow := { row with currentSizeDur := 0 }

def NativeHookRow.closed (endTimeStamp : Nat) (row : NativeHookRow) : NativeHookRow :=
  { row with endTimeStamp, duration := subUint64 endTimeStamp row.timeStamp }

namespace NativeHook

variable (hook : NativeHook)

def columns : List NativeHookRow := hook.rows.map withoutSizeDur

variable {hook} {alloc : AllocEvent} {free : FreeEvent} {row : Nat} {entry : NativeHookRow}

theorem columns_length : hook.columns.length = hook.rows.length := length_map ..

theorem lookup_columns (found : hook.rows[row]? = some entry) : hook.columns[row]? = some entry.withoutSizeDur := by
  rw [columns, getElem?_map, found]
  rfl

theorem lookup_of_columns (found : hook.columns[row]? = some entry) :
    ∃ full, hook.rows[row]? = some full ∧ full.withoutSizeDur = entry :=
  Option.map_eq_some_iff.mp (by rwa [columns, getElem?_map] at found)

section
variable (row timeStamp : Nat)

theorem updateCurrentSizeDur_columns : (hook.updateCurrentSizeDur row timeStamp).columns = hook.columns := by
  apply ext_getElem?
  intro index
  simp only [columns, updateCurrentSizeDur, getElem?_map, getElem?_modify]
  cases hook.rows[index]? with
  | none => rfl
  | some entry => by_cases same : row = index <;> simp [same, withoutSizeDur]

theorem updateEndTimeStampAndDuration_columns : (hook.updateEndTimeStampAndDuration row timeStamp).columns =
      hook.columns.modify row (NativeHookRow.closed timeStamp) := by
  apply ext_getElem?
  intro index
  simp only [columns, updateEndTimeStampAndDuration, getElem?_map, getElem?_modify]
  cases hook.rows[index]? with
  | none => rfl
  | some entry => by_cases same : row = index <;> simp [same, withoutSizeDur, NativeHookRow.closed]

theorem maybeUpdateCurrentSizeDur_columns : (hook.maybeUpdateCurrentSizeDur row timeStamp).columns = hook.columns := by
  simp only [maybeUpdateCurrentSizeDur]
  split
  · rfl
  · exact updateCurrentSizeDur_columns _ timeStamp

theorem maybeUpdateCurrentSizeDur_count :
    (hook.maybeUpdateCurrentSizeDur row timeStamp).countHeapSizes = hook.countHeapSizes := by
  simp only [maybeUpdateCurrentSizeDur]
  split <;> rfl

theorem maybeUpdateCurrentSizeDur_addr :
    (hook.maybeUpdateCurrentSizeDur row timeStamp).addrToAllocEventRow = hook.addrToAllocEventRow := by
  simp only [maybeUpdateCurrentSizeDur]
  split <;> rfl

end

theorem insertAddr_columns (addr row : Nat) : (hook.insertAddr addr row).columns = hook.columns := by
  simp only [insertAddr]
  split <;> rfl

theorem insertAddr_count (addr row : Nat) : (hook.insertAddr addr row).countHeapSizes = hook.countHeapSizes := by
  simp only [insertAddr]
  split <;> rfl

def allocColumns (hook : NativeHook) (event : AllocEvent) : NativeHookRow :=
  { allocRow event with allMemSize := hook.countHeapSizes + event.size.toInt64 }

def freeColumns (hook : NativeHook) (event : FreeEvent) (freeHeapSize : Int64) : NativeHookRow :=
  { freeRow event freeHeapSize with allMemSize := hook.countHeapSizes - freeHeapSize }

theorem parseAllocEvent_columns : (hook.parseAllocEvent alloc).columns = hook.columns ++ [hook.allocColumns alloc] := by
  have appended : (hook.appendNewNativeHookData (allocRow alloc)).columns =
      hook.columns ++ [hook.allocColumns alloc] := by
    simp [appendNewNativeHookData, allocRow, columns, allocColumns, withoutSizeDur]
  simp only [parseAllocEvent]
  split
  · rw [maybeUpdateCurrentSizeDur_columns, insertAddr_columns, appended]
  · rw [insertAddr_columns, appended]

theorem parseAllocEvent_count :
    (hook.parseAllocEvent alloc).countHeapSizes = hook.countHeapSizes + alloc.size.toInt64 := by
  simp only [parseAllocEvent]
  split
  · rw [maybeUpdateCurrentSizeDur_count, insertAddr_count]
    rfl
  · rw [insertAddr_count]
    rfl

theorem parseAllocEvent_addr : (hook.parseAllocEvent alloc).addrToAllocEventRow =
    insertNew alloc.addr hook.rows.length hook.addrToAllocEventRow := by
  have inserted : ((hook.appendNewNativeHookData (allocRow alloc)).insertAddr alloc.addr
      hook.rows.length).addrToAllocEventRow = insertNew alloc.addr hook.rows.length hook.addrToAllocEventRow := by
    cases held : hook.addrToAllocEventRow.lookup alloc.addr <;>
      simp [insertAddr, insertNew, appendNewNativeHookData, allocRow, held]
  simp only [parseAllocEvent]
  split
  · rw [maybeUpdateCurrentSizeDur_addr, inserted]
  · exact inserted

theorem matchingRow_eq_some : hook.matchingRow free = some row ↔
    hook.addrToAllocEventRow.lookup free.addr = some row ∧
      ∃ entry, hook.columns[row]? = some entry ∧ entry.timeStamp < free.timeStamp := by
  cases held : hook.addrToAllocEventRow.lookup free.addr with
  | none => simp [matchingRow, held]
  | some known =>
    cases lookup : hook.rows[known]? with
    | none =>
      simp only [matchingRow, held, lookup, reduceCtorEq, false_iff]
      intro ⟨same, entry, found, _⟩
      obtain ⟨full, present, _⟩ := lookup_of_columns found
      rw [← Option.some.inj same, lookup] at present
      cases present
    | some entry =>
      have kept := lookup_columns lookup
      simp only [matchingRow, held, lookup]
      constructor
      · intro found
        split at found
        · obtain rfl := Option.some.inj found
          exact ⟨rfl, _, kept, by assumption⟩
        · cases found
      · intro ⟨same, other, found, later⟩
        obtain rfl := Option.some.inj same
        obtain rfl := Option.mem_unique kept found
        exact if_pos later

theorem parseFreeEvent_of_none (unmatched : hook.matchingRow free = none) : hook.parseFreeEvent free = hook := by
  simp only [parseFreeEvent, unmatched]

section Matched

variable (matched : hook.matchingRow free = some row) (found : hook.columns[row]? = some entry)
include matched found

theorem parseFreeEvent_eq : ∃ before : NativeHook,
    before.columns = hook.columns.modify row (NativeHookRow.closed free.timeStamp) ++
        [hook.freeColumns free entry.memSize] ∧
      before.countHeapSizes = hook.countHeapSizes - entry.memSize ∧
      before.addrToAllocEventRow = hook.addrToAllocEventRow.erase free.addr ∧
      (hook.parseFreeEvent free = before ∨
        hook.parseFreeEvent free = before.maybeUpdateCurrentSizeDur hook.rows.length free.timeStamp) := by
  obtain ⟨full, lookup, rfl⟩ := lookup_of_columns found
  have size : (((hook.eraseAddr free.addr).updateEndTimeStampAndDuration row free.timeStamp).rows[row]?.map
      memSize).getD 0 = full.memSize := by
    simp [eraseAddr, updateEndTimeStampAndDuration, lookup]
  refine ⟨((hook.eraseAddr free.addr).updateEndTimeStampAndDuration row free.timeStamp).appendNewNativeHookData
    (freeRow free full.memSize), ?_, rfl, rfl, ?_⟩
  · have closed : ((hook.eraseAddr free.addr).updateEndTimeStampAndDuration row free.timeStamp).columns =
        hook.columns.modify row (NativeHookRow.closed free.timeStamp) := updateEndTimeStampAndDuration_columns row _
    rw [← closed]
    simp [appendNewNativeHookData, freeRow, columns, freeColumns, withoutSizeDur, eraseAddr,
      updateEndTimeStampAndDuration]
  · have length : ((hook.eraseAddr free.addr).updateEndTimeStampAndDuration row free.timeStamp).rows.length =
        hook.rows.length := length_modify ..
    simp only [parseFreeEvent, matched, size, length]
    split
    · exact .inr rfl
    · exact .inl rfl

theorem parseFreeEvent_columns :
    (hook.parseFreeEvent free).columns = hook.columns.modify row (NativeHookRow.closed free.timeStamp) ++
      [hook.freeColumns free entry.memSize] := by
  obtain ⟨before, columns, -, -, same | same⟩ := parseFreeEvent_eq matched found
  · rw [same, columns]
  · rw [same, maybeUpdateCurrentSizeDur_columns, columns]

theorem parseFreeEvent_count : (hook.parseFreeEvent free).countHeapSizes = hook.countHeapSizes - entry.memSize := by
  obtain ⟨before, -, count, -, same | same⟩ := parseFreeEvent_eq matched found
  · rw [same, count]
  · rw [same, maybeUpdateCurrentSizeDur_count, count]

theorem parseFreeEvent_addr :
    (hook.parseFreeEvent free).addrToAllocEventRow = hook.addrToAllocEventRow.erase free.addr := by
  obtain ⟨before, -, -, addr, same | same⟩ := parseFreeEvent_eq matched found
  · rw [same, addr]
  · rw [same, maybeUpdateCurrentSizeDur_addr, addr]

end Matched

end NativeHook

end SmartPerf.Hook
