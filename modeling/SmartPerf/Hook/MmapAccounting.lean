import SmartPerf.Data.Run
import SmartPerf.Hook.HeapRows

namespace SmartPerf.Hook

open Data NativeHook NativeHookRow

/-! The mmap and munmap events of `NativeHookFilter` and the running total of the mapped memory. -/

/-- What a `MmapEvent` or a `MunmapEvent` message says, with its thread, process and call chain looked up. -/
structure MapMessage where
  timeStamp : Nat
  callChainId : Nat := invalidUint32
  ipid : Nat
  itid : Nat
  addr : Nat
  size : UInt64
deriving Repr, DecidableEq

inductive MapEvent where
  | mmap (message : MapMessage)
  | munmap (message : MapMessage)
deriving Repr, DecidableEq

def mapRow (eventType : EventType) (message : MapMessage) : NativeHookRow where
  callChainId := message.callChainId
  ipid := message.ipid
  itid := message.itid
  eventType
  timeStamp := message.timeStamp
  addr := message.addr
  memSize := message.size.toInt64

structure MmapFilter where
  hook : NativeHook := {}
  addrToMmapEventRow : AList (fun _ : Nat => Nat) := ∅
  lastMmapEventRaw : Option Nat := none

namespace MmapFilter

variable (filter : MmapFilter) (message : MapMessage)

/-- `MaybeUpdateCurrentSizeDur` for mappings. -/
def maybeUpdateCurrentSizeDur (row timeStamp : Nat) : MmapFilter :=
  match filter.lastMmapEventRaw with
  | none => { filter with lastMmapEventRaw := some row }
  | some last => { filter with hook := filter.hook.updateCurrentSizeDur last timeStamp, lastMmapEventRaw := some row }

def parseMmapEvent : MmapFilter :=
  let row := filter.hook.rows.length
  let filter := { filter with
    hook := filter.hook.appendNewNativeHookData (mapRow .mmapEvent message)
    addrToMmapEventRow := insertNew message.addr row filter.addrToMmapEventRow }
  if message.size ≠ 0 then filter.maybeUpdateCurrentSizeDur row message.timeStamp else filter

def matchingRow : Option Nat :=
  (filter.addrToMmapEventRow.lookup message.addr).filter fun row =>
    filter.hook.rows[row]?.any fun entry => entry.timeStamp < message.timeStamp

/-- The row of the event has the size that the event says, whatever the size of the mapping that ends. -/
def parseMunmapEvent : MmapFilter :=
  match filter.matchingRow message with
  | none => filter
  | some row =>
    let hook := filter.hook.updateEndTimeStampAndDuration row message.timeStamp
    let unmapped := hook.rows.length
    let filter := { filter with
      hook := hook.appendNewNativeHookData (mapRow .munmapEvent message)
      addrToMmapEventRow := filter.addrToMmapEventRow.erase message.addr }
    if message.size ≠ 0 then filter.maybeUpdateCurrentSizeDur unmapped message.timeStamp else filter

def step : MapEvent → MmapFilter
  | .mmap message => filter.parseMmapEvent message
  | .munmap message => filter.parseMunmapEvent message

end MmapFilter

variable (row : NativeHookRow)

def NativeHookRow.size : Nat := row.memSize.toUInt64.toNat

def NativeHookRow.mapped : Bool :=
  row.eventType = .mmapEvent ∧ row.endTimeStamp = 0

def NativeHookRow.mappedSize : Nat := if row.mapped then row.size else 0

/-- The memory of the mappings that have not ended. -/
def mappedSizes (rows : List NativeHookRow) : Nat := (rows.map mappedSize).sum

namespace MmapFilter

variable {filter : MmapFilter} {message : MapMessage} {row : Nat} {entry : NativeHookRow}

/-- The running total is the memory that is mapped. -/
def Conserves (filter : MmapFilter) : Prop :=
  filter.hook.countMmapSizes.toInt = mappedSizes filter.hook.rows ∧ 0 ≤ filter.hook.countMmapSizes.toInt

/-- All that is mapped then can be counted, and what is unmapped has the size it was mapped with. -/
def Fits (filter : MmapFilter) : MapEvent → Prop
  | .mmap message => mappedSizes filter.hook.rows + message.size.toNat < 2 ^ 63
  | .munmap message => ∀ row entry, filter.matchingRow message = some row → filter.hook.rows[row]? = some entry →
      message.size.toNat = entry.size

/-- What the total and the matching read of the table. -/
def view (filter : MmapFilter) : List NativeHookRow × Int64 × AList (fun _ : Nat => Nat) :=
  (filter.hook.columns, filter.hook.countMmapSizes, filter.addrToMmapEventRow)

theorem maybeUpdateCurrentSizeDur_view (row timeStamp : Nat) :
    (filter.maybeUpdateCurrentSizeDur row timeStamp).view = filter.view := by
  simp only [maybeUpdateCurrentSizeDur]
  split
  · rfl
  · simp only [view, updateCurrentSizeDur_columns]
    rfl

/-- The row of an event with the running total behind it. -/
def countedRow (eventType : EventType) (total : Int64) (message : MapMessage) : NativeHookRow :=
  { mapRow eventType message with allMemSize := total }

theorem parseMmapEvent_view : (filter.parseMmapEvent message).view =
    (filter.hook.columns ++ [countedRow .mmapEvent (filter.hook.countMmapSizes + message.size.toInt64) message],
      filter.hook.countMmapSizes + message.size.toInt64,
      insertNew message.addr filter.hook.rows.length filter.addrToMmapEventRow) := by
  have appended : (filter.hook.appendNewNativeHookData (mapRow .mmapEvent message)).columns = filter.hook.columns ++
      [countedRow .mmapEvent (filter.hook.countMmapSizes + message.size.toInt64) message] := by
    simp [appendNewNativeHookData, countedRow, mapRow, columns, withoutSizeDur]
  simp only [parseMmapEvent]
  split
  · rw [maybeUpdateCurrentSizeDur_view, view, appended]
    rfl
  · rw [view, appended]
    rfl

theorem parseMunmapEvent_view (matched : filter.matchingRow message = some row) :
    (filter.parseMunmapEvent message).view =
      (filter.hook.columns.modify row (closed message.timeStamp) ++
          [countedRow .munmapEvent (filter.hook.countMmapSizes - message.size.toInt64) message],
        filter.hook.countMmapSizes - message.size.toInt64, filter.addrToMmapEventRow.erase message.addr) := by
  have appended : ((filter.hook.updateEndTimeStampAndDuration row message.timeStamp).appendNewNativeHookData
      (mapRow .munmapEvent message)).columns =
        filter.hook.columns.modify row (closed message.timeStamp) ++
          [countedRow .munmapEvent (filter.hook.countMmapSizes - message.size.toInt64) message] := by
    rw [← updateEndTimeStampAndDuration_columns]
    simp [appendNewNativeHookData, countedRow, mapRow, columns, withoutSizeDur, updateEndTimeStampAndDuration]
  simp only [parseMunmapEvent, matched]
  split
  · rw [maybeUpdateCurrentSizeDur_view, view, appended]
    rfl
  · rw [view, appended]
    rfl

theorem mappedSizes_columns (hook : NativeHook) : mappedSizes hook.columns = mappedSizes hook.rows := by
  rw [mappedSizes, columns, List.map_map]
  rfl

theorem mappedSizes_append (rows : List NativeHookRow) (last : NativeHookRow) :
    mappedSizes (rows ++ [last]) = mappedSizes rows + last.mappedSize := by
  simp [mappedSizes]

theorem matchingRow_eq_some (matched : filter.matchingRow message = some row) :
    filter.addrToMmapEventRow.lookup message.addr = some row ∧
      ∃ entry, filter.hook.rows[row]? = some entry ∧ entry.timeStamp < message.timeStamp := by
  obtain ⟨lookup, later⟩ := Option.filter_eq_some_iff.mp matched
  obtain ⟨entry, found, later⟩ := Option.any_eq_true _ _ |>.mp later
  exact ⟨lookup, entry, found, of_decide_eq_true later⟩

/-- The rows that the map holds are mappings that have not ended, and the total is theirs. -/
structure Accounted (filter : MmapFilter) : Prop where
  total : filter.Conserves
  held : Indexes filter.addrToMmapEventRow filter.hook.columns (·.addr) mapped

theorem conserves_iff : filter.Conserves ↔ filter.view.2.1.toInt = mappedSizes filter.view.1 := by
  rw [Conserves, view, mappedSizes_columns, and_iff_left_iff_imp]
  intro total
  rw [total]
  exact Int.natCast_nonneg _

theorem toInt_size (size : UInt64) : size.toInt64.toInt = (size.toNat : Int).bmod (2 ^ 64) :=
  BitVec.toInt_eq_toNat_bmod _

theorem total_lt (conserves : filter.Conserves) : mappedSizes filter.hook.rows < 2 ^ 63 := by
  have bound : filter.hook.countMmapSizes.toInt < 2 ^ 63 := Int64.toInt_lt _
  rw [conserves.1] at bound
  exact_mod_cast bound

theorem mmap_conserves_iff (conserves : filter.Conserves) :
    (filter.parseMmapEvent message).Conserves ↔ mappedSizes filter.hook.rows + message.size.toNat < 2 ^ 63 := by
  have opened (total : Int64) : (countedRow .mmapEvent total message).mappedSize = message.size.toNat := rfl
  rw [conserves_iff, parseMmapEvent_view, mappedSizes_append, opened, mappedSizes_columns, Int64.toInt_add, toInt_size,
    Int.add_bmod_bmod, conserves.1, Int.bmod_def]
  split <;> omega

theorem munmap_conserves_iff (conserves : filter.Conserves) (matched : filter.matchingRow message = some row)
    (found : filter.hook.rows[row]? = some entry) (opened : entry.mapped) (later : entry.timeStamp < message.timeStamp) :
    (filter.parseMunmapEvent message).Conserves ↔ message.size.toNat = entry.size := by
  have small := total_lt conserves
  have size_lt := message.size.toNat_lt
  have counted : entry.withoutSizeDur.mappedSize = entry.size := if_pos opened
  have ended : (entry.withoutSizeDur.closed message.timeStamp).mappedSize = 0 := by
    refine if_neg fun still => ?_
    have unended : message.timeStamp = 0 := (of_decide_eq_true still).2
    omega
  have sums : mappedSizes (filter.hook.columns.modify row (closed message.timeStamp)) + entry.size =
      mappedSizes filter.hook.rows := by
    rw [← mappedSizes_columns filter.hook, ← counted]
    exact (sum_map_modify _ (lookup_columns found)).trans (by rw [ended]; rfl)
  have unmapped (total : Int64) : (countedRow .munmapEvent total message).mappedSize = 0 := rfl
  rw [conserves_iff, parseMunmapEvent_view matched, mappedSizes_append, unmapped, Int64.toInt_sub, toInt_size,
    Int.sub_bmod_bmod, conserves.1, Int.bmod_def]
  split <;> omega

theorem Accounted.munmapped (accounted : filter.Accounted) (matched : filter.matchingRow message = some row) :
    ∃ entry, filter.hook.rows[row]? = some entry ∧ entry.mapped ∧ entry.addr = message.addr ∧
      entry.timeStamp < message.timeStamp := by
  obtain ⟨lookup, entry, found, later⟩ := matchingRow_eq_some matched
  obtain ⟨column, same, opened, address⟩ := accounted.held message.addr row lookup
  obtain rfl := Option.some.inj ((lookup_columns found).symm.trans same)
  exact ⟨entry, found, opened, address, later⟩

theorem parseMunmapEvent_of_none (unmatched : filter.matchingRow message = none) :
    filter.parseMunmapEvent message = filter := by
  simp only [parseMunmapEvent, unmatched]

theorem Accounted.step_conserves_iff (accounted : filter.Accounted) (event : MapEvent) :
    (filter.step event).Conserves ↔ filter.Fits event := by
  cases event with
  | mmap message => exact mmap_conserves_iff accounted.total
  | munmap message =>
    cases matched : filter.matchingRow message with
    | none => simp [step, Fits, parseMunmapEvent_of_none matched, matched, accounted.total]
    | some row =>
      obtain ⟨entry, found, opened, -, later⟩ := accounted.munmapped matched
      rw [step, munmap_conserves_iff accounted.total matched found opened later]
      constructor
      · intro same other ended again present
        rw [matched] at again
        obtain rfl := Option.some.inj again
        obtain rfl := Option.mem_unique found present
        exact same
      · exact fun fits => fits row entry matched found

theorem Accounted.step_held (accounted : filter.Accounted) (event : MapEvent) :
    Indexes (filter.step event).view.2.2 (filter.step event).view.1 (·.addr) mapped := by
  cases event with
  | mmap message =>
    rw [step, parseMmapEvent_view, ← columns_length]
    exact @Indexes.insertNew _ _ _ _ _ _ _ accounted.held
      (countedRow .mmapEvent (filter.hook.countMmapSizes + message.size.toInt64) message) rfl
  | munmap message =>
    cases matched : filter.matchingRow message with
    | none =>
      rw [step, parseMunmapEvent_of_none matched]
      exact accounted.held
    | some row =>
      obtain ⟨entry, found, -, address, -⟩ := accounted.munmapped matched
      rw [step, parseMunmapEvent_view matched, ← address]
      exact (accounted.held.erase (lookup_columns found) _).append _

/-- The running total is the memory that is mapped after every event exactly when no mapping overflows it and every
munmap event says the size of the mapping that it ends. -/
theorem conserves_iff_fits (events : List MapEvent) :
    Along step (fun filter event => (filter.step event).Conserves) {} events ↔ Along step Fits {} events := by
  apply along_iff fun filter _ => Accounted filter
  · exact fun filter event _ accounted => accounted.step_conserves_iff event
  · exact fun filter event _ accounted fits => ⟨(accounted.step_conserves_iff event).mpr fits, accounted.step_held event⟩
  · exact ⟨⟨rfl, le_rfl⟩, fun _ _ lookup => by cases lookup⟩

/-- A mapping of 8192 bytes of which 4096 are unmapped: it has ended, and 4096 bytes stay counted. -/
theorem not_conserves_partlyUnmapped :
    ¬ Along step (fun filter event => (filter.step event).Conserves) {}
      [.mmap { timeStamp := 1, ipid := 1, itid := 1, addr := 4096, size := 8192 },
        .munmap { timeStamp := 2, ipid := 1, itid := 1, addr := 4096, size := 4096 }] := by
  intro ⟨_, ⟨total, _⟩, _⟩
  revert total
  decide +kernel

end MmapFilter

end SmartPerf.Hook
