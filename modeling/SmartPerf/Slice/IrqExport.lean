import SmartPerf.Data.Assoc
import SmartPerf.Data.Run
import SmartPerf.Slice.IrqTables

namespace SmartPerf.Slice

open Data IrqFilter

/-! Exports of the interrupt table compared with the filter that never exports. -/

def IrqRecords.rebase (gone : Nat) (record : IrqRecords) : IrqRecords := { record with row := record.row - gone }

/-- The exporting filter follows the one without exports. -/
structure Sim (state : IrqExport) : Prop where
  tables : Parted state.exported state.filter.irqDatas state.whole.irqDatas
  irq : Tracks IrqRecords.row IrqRecords.rebase state.exported.length state.whole.irqDatas.size
    state.filter.irqEventMap state.whole.irqEventMap
  ipi : Tracks IrqRecords.row IrqRecords.rebase state.exported.length state.whole.irqDatas.size
    state.filter.ipiEventMap state.whole.ipiEventMap
  softIrq : Tracks IrqRecords.row IrqRecords.rebase state.exported.length state.whole.irqDatas.size
    state.filter.softIrqEventMap state.whole.softIrqEventMap
  linker : Tracks id (fun gone row => row - gone) state.exported.length state.whole.irqDatas.size
    state.filter.irqDataLinker state.whole.irqDataLinker
  args : state.filter.argsFilter = state.whole.argsFilter

theorem sim_initial : Sim {} where
  tables := Parted.initial
  irq := Tracks.initial
  ipi := Tracks.initial
  softIrq := Tracks.initial
  linker := Tracks.initial
  args := rfl

namespace Sim

variable {filter whole : IrqFilter} {exported : List CallStackRow} {cpu : Nat}

section

variable (sim : Sim ⟨filter, exported, whole⟩)
include sim

theorem eraseLinker (cpu : Nat) :
    Sim ⟨{ filter with irqDataLinker := filter.irqDataLinker.erase cpu }, exported,
      { whole with irqDataLinker := whole.irqDataLinker.erase cpu }⟩ :=
  { sim with linker := sim.linker.erase cpu }

section
variable (timeStamp cpu catalog nameIndex : Nat)

theorem appendEntry : Sim ⟨(filter.appendEntry timeStamp cpu catalog nameIndex).2, exported,
        (whole.appendEntry timeStamp cpu catalog nameIndex).2⟩ ∧
      (filter.appendEntry timeStamp cpu catalog nameIndex).1 =
        (whole.appendEntry timeStamp cpu catalog nameIndex).1.rebase exported.length ∧
      exported.length ≤ (whole.appendEntry timeStamp cpu catalog nameIndex).1.row ∧
      (whole.appendEntry timeStamp cpu catalog nameIndex).1.row <
        (whole.appendEntry timeStamp cpu catalog nameIndex).2.irqDatas.size := by
  have tables := sim.tables.appendInternalSlice
    { startT := timeStamp, durationNs := 0, internalTid := cpu, cat := catalog, name := nameIndex, depth := 0 }
  obtain ⟨gone, -⟩ := sim.tables.size
  obtain ⟨-, liveSize⟩ := tables.size
  have wholeSize := sim.tables.size_append
    { startT := timeStamp, durationNs := 0, internalTid := cpu, cat := catalog, name := nameIndex, depth := 0 }
  have grows := (Nat.lt_of_lt_of_eq (Nat.lt_succ_self _) wholeSize.symm).le
  simp only [IrqFilter.appendEntry, IrqRecords.rebase, liveSize]
  simp only [wholeSize]
  refine ⟨⟨tables, sim.irq.grow grows, sim.ipi.grow grows, sim.softIrq.grow grows, sim.linker.grow grows, sim.args⟩,
    ?_, ?_, ?_⟩
  · congr 1
    omega
  · exact gone
  · omega

theorem irqHandlerEntry : Sim ⟨filter.irqHandlerEntry timeStamp cpu catalog nameIndex, exported,
      whole.irqHandlerEntry timeStamp cpu catalog nameIndex⟩ := by
  obtain ⟨appended, record, inside, bound⟩ := (sim.eraseLinker cpu).appendEntry timeStamp cpu catalog nameIndex
  refine { appended with irq := ?_ }
  simp only [IrqFilter.irqHandlerEntry, record]
  exact appended.irq.insert cpu inside bound

theorem ipiHandlerEntry : Sim ⟨filter.ipiHandlerEntry timeStamp cpu catalog nameIndex, exported,
      whole.ipiHandlerEntry timeStamp cpu catalog nameIndex⟩ := by
  obtain ⟨appended, record, inside, bound⟩ := (sim.eraseLinker cpu).appendEntry timeStamp cpu catalog nameIndex
  refine { appended with ipi := ?_ }
  simp only [IrqFilter.ipiHandlerEntry, record]
  exact appended.ipi.insert cpu inside bound

theorem softIrqEntry : Sim ⟨filter.softIrqEntry timeStamp cpu catalog nameIndex, exported,
      whole.softIrqEntry timeStamp cpu catalog nameIndex⟩ := by
  obtain ⟨appended, record, inside, bound⟩ := sim.appendEntry timeStamp cpu catalog nameIndex
  refine { appended with softIrq := ?_ }
  simp only [IrqFilter.softIrqEntry, record]
  exact appended.softIrq.insert cpu inside bound

end

theorem ofTables {live table : CallStack}
    (tables : Parted exported live table) (same : table.size = whole.irqDatas.size) (argsFilter : ArgsFilter) :
    Sim ⟨{ filter with irqDatas := live, argsFilter }, exported, { whole with irqDatas := table, argsFilter }⟩ where
  tables := tables
  irq := sim.irq.grow same.symm.le
  ipi := sim.ipi.grow same.symm.le
  softIrq := sim.softIrq.grow same.symm.le
  linker := sim.linker.grow same.symm.le
  args := rfl

theorem softIrqExit (timeStamp cpu : Nat) :
    Sim ⟨filter.softIrqExit timeStamp cpu, exported, whole.softIrqExit timeStamp cpu⟩ := by
  unfold IrqFilter.softIrqExit
  have lookup := sim.softIrq.lookup cpu
  cases found : whole.softIrqEventMap.lookup cpu with
  | none =>
    rw [found, Option.map_none] at lookup
    simpa only [lookup] using sim
  | some record =>
    rw [found] at lookup
    obtain ⟨inside, bound⟩ := sim.softIrq.inside cpu record found
    have args : filter.argsFilter = whole.argsFilter := sim.args
    simp only [lookup, args]
    have tables := (sim.tables.setDuration inside bound timeStamp).setArgSetId inside bound
      whole.argsFilter.newArgs.1
    have written := sim.ofTables tables rfl whole.argsFilter.newArgs.2
    exact { written with softIrq := written.softIrq.erase cpu }

theorem irqHandlerExit (timeStamp cpu : Nat) :
    Sim ⟨filter.irqHandlerExit timeStamp cpu, exported, whole.irqHandlerExit timeStamp cpu⟩ := by
  unfold IrqFilter.irqHandlerExit
  have lookup := sim.irq.lookup cpu
  have linkerLookup := sim.linker.lookup cpu
  cases found : whole.irqEventMap.lookup cpu with
  | none =>
    rw [found, Option.map_none] at lookup
    simpa only [lookup] using sim
  | some record =>
    rw [found] at lookup
    obtain ⟨inside, bound⟩ := sim.irq.inside cpu record found
    have args : filter.argsFilter = whole.argsFilter := sim.args
    have ended := (sim.tables.setDuration inside bound timeStamp).setArgSetId inside bound
      whole.argsFilter.newArgs.1
    simp only [lookup, args]
    cases link : whole.irqDataLinker.lookup cpu with
    | none =>
      rw [link] at linkerLookup
      simp only [linkerLookup]
      have written := sim.ofTables (ended.setFlag inside bound 1) rfl whole.argsFilter.newArgs.2
      exact { written with irq := written.irq.erase cpu, linker := written.linker.erase cpu }
    | some linked =>
      rw [link] at linkerLookup
      obtain ⟨linkedInside, linkedBound⟩ := sim.linker.inside cpu linked link
      simp only [linkerLookup]
      have written := sim.ofTables (ended.exchange inside bound linkedInside linkedBound) rfl
        whole.argsFilter.newArgs.2
      exact { written with irq := written.irq.erase cpu, linker := written.linker.erase cpu }

theorem ipiHandlerExit (small : whole.irqDatas.size ≤ 2 ^ 32) (timeStamp cpu : Nat) :
    Sim ⟨filter.ipiHandlerExit timeStamp cpu, exported, whole.ipiHandlerExit timeStamp cpu⟩ := by
  unfold IrqFilter.ipiHandlerExit
  have lookup := sim.ipi.lookup cpu
  have linkerLookup := sim.linker.lookup cpu
  cases found : whole.ipiEventMap.lookup cpu with
  | none =>
    rw [found, Option.map_none] at lookup
    simpa only [lookup] using sim
  | some record =>
    rw [found, Option.map_some] at lookup
    obtain ⟨inside, bound⟩ := sim.ipi.inside cpu record found
    simp only at inside bound
    have tables := (sim.tables.setDuration inside bound timeStamp).setFlag inside bound 1
    have args : filter.argsFilter = whole.argsFilter := sim.args
    have written := sim.ofTables tables rfl whole.argsFilter
    simp only [lookup]
    refine { tables := tables, irq := written.irq, ipi := written.ipi.erase cpu, softIrq := written.softIrq,
             linker := ?_, args := args }
    cases link : whole.irqDataLinker.lookup cpu with
    | none =>
      rw [link] at linkerLookup
      simp only [linkerLookup]
      have narrow : record.row % 2 ^ 32 = record.row := Nat.mod_eq_of_lt (by omega)
      have liveNarrow : (record.rebase exported.length).row % 2 ^ 32 = record.row - exported.length :=
        Nat.mod_eq_of_lt (by simp only [IrqRecords.rebase]; omega)
      rw [narrow, liveNarrow]
      exact written.linker.insert cpu inside bound
    | some linked =>
      rw [link] at linkerLookup
      simp only [linkerLookup]
      exact written.linker

end

end Sim

namespace IrqFilter

variable {filter : IrqFilter}

def Handles (filter : IrqFilter) (record : IrqRecords) : Prop :=
  ∃ cpu, filter.irqEventMap.lookup cpu = some record ∨ filter.softIrqEventMap.lookup cpu = some record ∨
    filter.ipiEventMap.lookup cpu = some record

theorem minIrqRow_le {record : IrqRecords} (handles : filter.Handles record) :
    filter.minIrqRowToBeUpdated ≤ record.row := by
  obtain ⟨cpu, irq | softIrq | ipi⟩ := handles
  · exact (minRow_le_bound _ _).trans ((minRow_le_bound _ _).trans (minRow_le_row _ irq))
  · exact (minRow_le_bound _ _).trans (minRow_le_row _ softIrq)
  · exact minRow_le_row _ ipi

theorem minIrqRow_attained (filter : IrqFilter) :
    filter.minIrqRowToBeUpdated = invalidUint64 ∨
      ∃ record, filter.Handles record ∧ filter.minIrqRowToBeUpdated = record.row := by
  unfold minIrqRowToBeUpdated
  rcases minRow_attained (minRow (minRow invalidUint64 filter.irqEventMap) filter.softIrqEventMap)
    filter.ipiEventMap with same | ⟨cpu, record, found, same⟩
  · rw [same]
    rcases minRow_attained (minRow invalidUint64 filter.irqEventMap) filter.softIrqEventMap with
      same | ⟨cpu, record, found, same⟩
    · rw [same]
      rcases minRow_attained invalidUint64 filter.irqEventMap with same | ⟨cpu, record, found, same⟩
      · exact .inl same
      · exact .inr ⟨record, ⟨cpu, .inl found⟩, same⟩
    · exact .inr ⟨record, ⟨cpu, .inr (.inl found)⟩, same⟩
  · exact .inr ⟨record, ⟨cpu, .inr (.inr found)⟩, same⟩

def readyRows (filter : IrqFilter) : Nat :=
  if filter.minIrqRowToBeUpdated = invalidUint64 then filter.irqDatas.size else filter.minIrqRowToBeUpdated

theorem updateIrqReadySize_none (none : filter.minIrqRowToBeUpdated = invalidUint64) :
    filter.updateIrqReadySize = { filter with irqDatas := filter.irqDatas.updateReadySize filter.readyRows } := by
  rw [updateIrqReadySize, if_pos none, readyRows, if_pos none]

theorem updateIrqReadySize_some (some : filter.minIrqRowToBeUpdated ≠ invalidUint64) :
    filter.updateIrqReadySize = { filter with
      irqDatas := filter.irqDatas.updateReadySize filter.readyRows
      irqEventMap := filter.irqEventMap.mapValues (IrqRecords.rebase filter.readyRows)
      ipiEventMap := filter.ipiEventMap.mapValues (IrqRecords.rebase filter.readyRows)
      softIrqEventMap := filter.softIrqEventMap.mapValues (IrqRecords.rebase filter.readyRows) } := by
  rw [updateIrqReadySize, if_neg some, readyRows, if_neg some]
  rfl

theorem updateIrqReadySize_irqDatas (filter : IrqFilter) :
    filter.updateIrqReadySize.irqDatas = filter.irqDatas.updateReadySize filter.readyRows := by
  by_cases none : filter.minIrqRowToBeUpdated = invalidUint64
  · rw [updateIrqReadySize_none none]
  · rw [updateIrqReadySize_some none]

theorem updateIrqReadySize_linker (filter : IrqFilter) :
    filter.updateIrqReadySize.irqDataLinker = filter.irqDataLinker := by
  by_cases none : filter.minIrqRowToBeUpdated = invalidUint64
  · rw [updateIrqReadySize_none none]
  · rw [updateIrqReadySize_some none]

end IrqFilter

theorem IrqFilter.readyRows_le_size {filter : IrqFilter}
    (handled : ∀ record, filter.Handles record → record.row < filter.irqDatas.size) :
    filter.readyRows ≤ filter.irqDatas.size := by
  unfold IrqFilter.readyRows
  split
  · exact le_rfl
  next some =>
    rcases filter.minIrqRow_attained with none | ⟨record, handles, same⟩
    · exact absurd none some
    · rw [same]
      exact (handled record handles).le

/-- There is no row, or the first one belongs to an interrupt that is being handled. -/
def IrqFilter.Pinned (filter : IrqFilter) : Prop :=
  filter.irqDatas.size = 0 ∨ ∃ record, filter.Handles record ∧ record.row = 0

theorem IrqFilter.readyRows_eq_zero_iff {filter : IrqFilter} (bound : filter.readyRows ≤ filter.irqDatas.size) :
    filter.readyRows = 0 ↔ filter.Pinned := by
  constructor
  · intro zero
    unfold IrqFilter.readyRows at zero
    rcases filter.minIrqRow_attained with none | ⟨record, handles, same⟩
    · rw [if_pos none] at zero
      exact .inl zero
    · split at zero
      · exact .inl zero
      · exact .inr ⟨record, handles, same.symm.trans zero⟩
  · rintro (empty | ⟨record, handles, first⟩)
    · omega
    · have least : filter.minIrqRowToBeUpdated = 0 := by
        have below := IrqFilter.minIrqRow_le handles
        omega
      rw [IrqFilter.readyRows, least, if_neg (by decide)]

theorem IrqExport.ready_eq (state : IrqExport) : state.ready = state.filter.readyRows := by
  rw [IrqExport.ready, IrqFilter.updateIrqReadySize_irqDatas]
  rfl

namespace Sim

variable {filter whole : IrqFilter} {exported : List CallStackRow}

section
variable (sim : Sim ⟨filter, exported, whole⟩)
include sim

theorem handled_lt {record : IrqRecords} (handles : filter.Handles record) : record.row < filter.irqDatas.size := by
  have size : filter.irqDatas.size = whole.irqDatas.size - exported.length := sim.tables.size.2
  have inside : ∀ {cpu} {live full : CpuMap IrqRecords},
      Tracks IrqRecords.row IrqRecords.rebase exported.length whole.irqDatas.size live full →
        live.lookup cpu = some record → record.row < filter.irqDatas.size := by
    intro cpu live full tracks found
    rw [tracks.lookup] at found
    obtain ⟨value, lookup, rfl⟩ := Option.map_eq_some_iff.mp found
    have bounds := tracks.inside cpu value lookup
    simp only [IrqRecords.rebase]
    omega
  obtain ⟨cpu, irq | softIrq | ipi⟩ := handles
  · exact inside sim.irq irq
  · exact inside sim.softIrq softIrq
  · exact inside sim.ipi ipi

theorem readyRows_le : filter.readyRows ≤ filter.irqDatas.size :=
  readyRows_le_size fun _ handles => sim.handled_lt handles

theorem flush (small : whole.irqDatas.size ≤ 2 ^ 32) (linked : 0 < filter.readyRows → filter.irqDataLinker = ∅) :
    Sim (IrqExport.step ⟨filter, exported, whole⟩ .flush) := by
  obtain ⟨tables, length⟩ := sim.tables.clearExportedData sim.readyRows_le
  have size : filter.irqDatas.size = whole.irqDatas.size - exported.length := sim.tables.size.2
  have linker : Tracks id (fun gone row => row - gone) (exported.length + filter.readyRows) whole.irqDatas.size
      filter.irqDataLinker whole.irqDataLinker := by
    rcases Nat.eq_zero_or_pos filter.readyRows with zero | positive
    · rw [zero]
      exact sim.linker
    · exact sim.linker.vacuous (fun cpu => by rw [linked positive]; rfl) _
  have args : filter.argsFilter = whole.argsFilter := sim.args
  have exportedLength : (exported ++ (filter.irqDatas.updateReadySize filter.readyRows).firstRows
      filter.readyRows).length = exported.length + filter.readyRows := by
    rw [List.length_append]
    exact congrArg (exported.length + ·) length
  simp only [IrqExport.step, IrqExport.ready_eq]
  by_cases none : filter.minIrqRowToBeUpdated = invalidUint64
  · have absent : ∀ record, ¬ filter.Handles record := by
      intro record handles
      have least := IrqFilter.minIrqRow_le handles
      have bound := sim.handled_lt handles
      simp only [none, invalidUint64] at least
      omega
    rw [IrqFilter.updateIrqReadySize_none none]
    refine ⟨tables, ?_, ?_, ?_, ?_, args⟩
    · exact sim.irq.vacuous (fun cpu => Option.eq_none_iff_forall_not_mem.mpr fun record found =>
        absent record ⟨cpu, .inl found⟩) _
    · exact sim.ipi.vacuous (fun cpu => Option.eq_none_iff_forall_not_mem.mpr fun record found =>
        absent record ⟨cpu, .inr (.inr found)⟩) _
    · exact sim.softIrq.vacuous (fun cpu => Option.eq_none_iff_forall_not_mem.mpr fun record found =>
        absent record ⟨cpu, .inr (.inl found)⟩) _
    · simpa only [exportedLength] using linker
  · have ready : filter.readyRows = filter.minIrqRowToBeUpdated := if_neg none
    have flushed : ∀ {live full : CpuMap IrqRecords},
        Tracks IrqRecords.row IrqRecords.rebase exported.length whole.irqDatas.size live full →
        (∀ cpu record, live.lookup cpu = some record → filter.Handles record) →
        Tracks IrqRecords.row IrqRecords.rebase (exported.length + filter.readyRows) whole.irqDatas.size
          (live.mapValues (IrqRecords.rebase filter.readyRows)) full := by
      intro live full tracks handled
      refine tracks.flush (fun record => by simp only [IrqRecords.rebase, Nat.sub_sub]) fun cpu record found => ?_
      have lookup := tracks.lookup cpu
      rw [found] at lookup
      have least := IrqFilter.minIrqRow_le (handled cpu _ lookup)
      have inside := (tracks.inside cpu record found).1
      simp only [IrqRecords.rebase] at least
      omega
    rw [IrqFilter.updateIrqReadySize_some none]
    refine ⟨tables, ?_, ?_, ?_, ?_, args⟩
    · simpa only [exportedLength] using flushed sim.irq fun cpu record found => ⟨cpu, .inl found⟩
    · simpa only [exportedLength] using flushed sim.ipi fun cpu record found => ⟨cpu, .inr (.inr found)⟩
    · simpa only [exportedLength] using flushed sim.softIrq fun cpu record found => ⟨cpu, .inr (.inl found)⟩
    · simpa only [exportedLength] using linker

end

end Sim

namespace IrqExport

/-- A remembered row, counted from the first row ever, is the same in both filters. -/
def SameRows {Value : Type} (row : Value → Nat) (gone : Nat) (live whole : CpuMap Value) : Prop :=
  ∀ cpu, (live.lookup cpu).map (fun value => row value + gone) = (whole.lookup cpu).map row

/-- Remembered rows denote what they denote without exports, and no row is lost or
changed by the exports. -/
structure Kept (state : IrqExport) : Prop where
  irq : SameRows IrqRecords.row state.filter.irqDatas.diskTableSize state.filter.irqEventMap state.whole.irqEventMap
  ipi : SameRows IrqRecords.row state.filter.irqDatas.diskTableSize state.filter.ipiEventMap state.whole.ipiEventMap
  softIrq : SameRows IrqRecords.row state.filter.irqDatas.diskTableSize state.filter.softIrqEventMap
    state.whole.softIrqEventMap
  linker : SameRows id state.filter.irqDatas.diskTableSize state.filter.irqDataLinker state.whole.irqDataLinker
  rows : state.exported ++ state.filter.irqDatas.rows = state.whole.irqDatas.rows

end IrqExport

theorem Tracks.sameRows {Value : Type} {row : Value → Nat} {rebase : Nat → Value → Value} {gone size : Nat}
    {live whole : CpuMap Value} (tracks : Tracks row rebase gone size live whole)
    (shifts : ∀ value, row (rebase gone value) = row value - gone) : IrqExport.SameRows row gone live whole := by
  intro cpu
  rw [tracks.lookup cpu]
  cases found : whole.lookup cpu with
  | none => rfl
  | some value =>
    have inside := (tracks.inside cpu value found).1
    simp only [Option.map_some, shifts, Nat.sub_add_cancel inside]

variable {state : IrqExport}

theorem Sim.kept (sim : Sim state) : state.Kept := by
  have disk := sim.tables.disk
  refine ⟨?_, ?_, ?_, ?_, sim.tables.rows_eq⟩ <;> rw [disk]
  · exact sim.irq.sameRows fun _ => rfl
  · exact sim.ipi.sameRows fun _ => rfl
  · exact sim.softIrq.sameRows fun _ => rfl
  · exact sim.linker.sameRows fun _ => rfl

theorem Sim.linked_lost (sim : Sim state) (positive : 0 < state.filter.readyRows) (kept : (state.step .flush).Kept)
    : state.filter.irqDataLinker = ∅ := by
  refine CpuMap.eq_empty_of_lookup fun cpu => ?_
  cases found : state.filter.irqDataLinker.lookup cpu with
  | none => rfl
  | some linked =>
    have lookup := sim.linker.lookup cpu
    rw [found] at lookup
    obtain ⟨row, wholeFound, rebased⟩ := Option.map_eq_some_iff.mp lookup.symm
    have disk := sim.tables.disk
    have same := kept.linker cpu
    simp only [IrqExport.step, IrqFilter.updateIrqReadySize_linker, IrqFilter.updateIrqReadySize_irqDatas, found, wholeFound,
      Option.map_some, Option.some.injEq, CallStack.clearExportedData, CallStack.updateReadySize, id] at same
    omega

def IrqStep.isEntry : IrqStep → Bool
  | .event (.irqHandlerEntry ..) => true
  | .event (.ipiHandlerEntry ..) => true
  | .event (.softIrqEntry ..) => true
  | _ => false

theorem Sim.event (sim : Sim state) (small : state.whole.irqDatas.size ≤ 2 ^ 32) (event : IrqEvent)
    : Sim (state.step (.event event)) := by
  cases event with
  | irqHandlerEntry => exact sim.irqHandlerEntry ..
  | irqHandlerExit => exact sim.irqHandlerExit ..
  | ipiHandlerEntry => exact sim.ipiHandlerEntry ..
  | ipiHandlerExit => exact sim.ipiHandlerExit small ..
  | softIrqEntry => exact sim.softIrqEntry ..
  | softIrqExit => exact sim.softIrqExit ..

theorem Sim.size_step (sim : Sim state) (step : IrqStep) :
    (state.step step).whole.irqDatas.size = state.whole.irqDatas.size + if step.isEntry then 1 else 0 := by
  cases step with
  | flush => rfl
  | event event =>
    cases event with
    | irqHandlerEntry => exact sim.tables.size_append _
    | ipiHandlerEntry => exact sim.tables.size_append _
    | softIrqEntry => exact sim.tables.size_append _
    | irqHandlerExit timeStamp cpu =>
      simp only [IrqExport.step, IrqFilter.insert, IrqFilter.irqHandlerExit]
      cases state.whole.irqEventMap.lookup cpu.toNat with
      | none => rfl
      | some record => cases state.whole.irqDataLinker.lookup cpu.toNat <;> rfl
    | ipiHandlerExit timeStamp cpu =>
      simp only [IrqExport.step, IrqFilter.insert, IrqFilter.ipiHandlerExit]
      cases state.whole.ipiEventMap.lookup cpu.toNat <;> rfl
    | softIrqExit timeStamp cpu =>
      simp only [IrqExport.step, IrqFilter.insert, IrqFilter.softIrqExit]
      cases state.whole.softIrqEventMap.lookup cpu.toNat <;> rfl

def IrqExport.Unlinked (state : IrqExport) (step : IrqStep) : Prop :=
  step = .flush → state.filter.Pinned ∨ state.filter.irqDataLinker = ∅

theorem Sim.unlinked (sim : Sim state) (unlinked : state.Unlinked .flush) (positive : 0 < state.filter.readyRows)
    : state.filter.irqDataLinker = ∅ := by
  rcases unlinked rfl with pinned | empty
  · rw [(readyRows_eq_zero_iff sim.readyRows_le).mpr pinned] at positive
    cases positive
  · exact empty

variable (steps : List IrqStep)

theorem kept_along_iff (few : steps.countP IrqStep.isEntry ≤ 2 ^ 32) :
    Along IrqExport.step (fun state step => (state.step step).Kept) {} steps ↔
      Along IrqExport.step IrqExport.Unlinked {} steps := by
  refine along_iff (fun state steps => Sim state ∧
    state.whole.irqDatas.size + steps.countP IrqStep.isEntry ≤ 2 ^ 32) ?_ ?_ ⟨sim_initial, ?_⟩
  · rintro state step rest ⟨sim, few⟩
    have small : state.whole.irqDatas.size ≤ 2 ^ 32 := by omega
    cases step with
    | event event => exact ⟨fun _ => nofun, fun _ => (sim.event small event).kept⟩
    | flush =>
      refine ⟨fun kept _ => ?_, fun unlinked => (sim.flush small (sim.unlinked unlinked)).kept⟩
      rcases Nat.eq_zero_or_pos state.filter.readyRows with zero | positive
      · exact .inl ((readyRows_eq_zero_iff sim.readyRows_le).mp zero)
      · exact .inr (sim.linked_lost positive kept)
  · rintro state step rest ⟨sim, few⟩ unlinked
    have small : state.whole.irqDatas.size ≤ 2 ^ 32 := by omega
    refine ⟨?_, ?_⟩
    · cases step with
      | event event => exact sim.event small event
      | flush => exact sim.flush small (sim.unlinked unlinked)
    · rw [sim.size_step]
      rw [List.countP_cons] at few
      omega
  · exact (Nat.zero_add _).symm ▸ few

def RowsBelow (size : Nat) (map : CpuMap IrqRecords) : Prop :=
  ∀ cpu record, map.lookup cpu = some record → record.row < size

variable {map : CpuMap IrqRecords}

theorem RowsBelow.insert {size cpu : Nat} {record : IrqRecords} (below : RowsBelow size map)
    (new : record.row < size) : RowsBelow size (map.insert cpu record) := by
  intro other found lookup
  rcases lookup_of_insert lookup with rfl | old
  · exact new
  · exact below other found old

theorem RowsBelow.erase {size : Nat} (below : RowsBelow size map) (cpu : Nat) :
    RowsBelow size (map.erase cpu) :=
  fun other record lookup => below other record (lookup_of_erase lookup)

theorem IrqFilter.handled_iff {filter : IrqFilter} {size : Nat} :
    (∀ record, filter.Handles record → record.row < size) ↔
      RowsBelow size filter.irqEventMap ∧ RowsBelow size filter.softIrqEventMap ∧ RowsBelow size filter.ipiEventMap := by
  constructor
  · intro handled
    exact ⟨fun cpu record found => handled record ⟨cpu, .inl found⟩,
      fun cpu record found => handled record ⟨cpu, .inr (.inl found)⟩,
      fun cpu record found => handled record ⟨cpu, .inr (.inr found)⟩⟩
  · intro ⟨irq, softIrq, ipi⟩ record ⟨cpu, found⟩
    rcases found with found | found | found
    · exact irq cpu record found
    · exact softIrq cpu record found
    · exact ipi cpu record found

/-- The filter before its first export. -/
structure IrqFilter.Valid (filter : IrqFilter) : Prop where
  aligned : filter.irqDatas.Aligned
  ready : filter.irqDatas.readySize = 0
  disk : filter.irqDatas.diskTableSize = 0
  handled : ∀ record, filter.Handles record → record.row < filter.irqDatas.size

namespace IrqFilter.Valid

variable {filter : IrqFilter}

theorem initial : ({} : IrqFilter).Valid where
  aligned := by decide
  ready := rfl
  disk := rfl
  handled := by
    rintro record ⟨cpu, found | found | found⟩ <;> cases found

section
variable (valid : filter.Valid)
include valid

theorem appendEntry (timeStamp cpu catalog nameIndex : Nat) :
    (filter.appendEntry timeStamp cpu catalog nameIndex).2.Valid ∧
      (filter.appendEntry timeStamp cpu catalog nameIndex).1.row <
        (filter.appendEntry timeStamp cpu catalog nameIndex).2.irqDatas.size := by
  obtain ⟨aligned, size⟩ := valid.aligned.appendInternalSlice
    { startT := timeStamp, durationNs := 0, internalTid := cpu, cat := catalog, name := nameIndex, depth := 0 } none
  simp only [IrqFilter.appendEntry]
  refine ⟨⟨aligned, valid.ready, valid.disk, fun record handles => ?_⟩, by omega⟩
  rw [size]
  exact Nat.lt_succ_of_lt (valid.handled record handles)

theorem erased (cpu : Nat) : Valid { filter with irqDataLinker := filter.irqDataLinker.erase cpu } :=
  ⟨valid.aligned, valid.ready, valid.disk, valid.handled⟩

theorem insert (event : IrqEvent) : (filter.insert event).Valid := by
  obtain ⟨irq, softIrq, ipi⟩ := handled_iff.mp valid.handled
  cases event with
  | irqHandlerEntry timeStamp cpu catalog nameIndex =>
    obtain ⟨appended, new⟩ := (valid.erased cpu.toNat).appendEntry timeStamp.toNat cpu.toNat catalog.toNat nameIndex.toNat
    obtain ⟨irq, softIrq, ipi⟩ := handled_iff.mp appended.handled
    exact ⟨appended.aligned, appended.ready, appended.disk, handled_iff.mpr ⟨irq.insert new, softIrq, ipi⟩⟩
  | ipiHandlerEntry timeStamp cpu catalog nameIndex =>
    obtain ⟨appended, new⟩ := (valid.erased cpu.toNat).appendEntry timeStamp.toNat cpu.toNat catalog.toNat nameIndex.toNat
    obtain ⟨irq, softIrq, ipi⟩ := handled_iff.mp appended.handled
    exact ⟨appended.aligned, appended.ready, appended.disk, handled_iff.mpr ⟨irq, softIrq, ipi.insert new⟩⟩
  | softIrqEntry timeStamp cpu catalog nameIndex =>
    obtain ⟨appended, new⟩ := valid.appendEntry timeStamp.toNat cpu.toNat catalog.toNat nameIndex.toNat
    obtain ⟨irq, softIrq, ipi⟩ := handled_iff.mp appended.handled
    exact ⟨appended.aligned, appended.ready, appended.disk, handled_iff.mpr ⟨irq, softIrq.insert new, ipi⟩⟩
  | irqHandlerExit timeStamp cpu =>
    simp only [IrqFilter.insert, IrqFilter.irqHandlerExit]
    cases filter.irqEventMap.lookup cpu.toNat with
    | none => exact valid
    | some record =>
      have ended := (valid.aligned.setDur record.row
        (subUint64 timeStamp.toNat (filter.irqDatas.timeStamps.getD record.row 0))).setArgSetId record.row
          filter.argsFilter.newArgs.1
      cases filter.irqDataLinker.lookup cpu.toNat with
      | none => exact ⟨ended.setFlag _ _, valid.ready, valid.disk, handled_iff.mpr ⟨irq.erase _, softIrq, ipi⟩⟩
      | some linked =>
        exact ⟨(ended.setArgSetId _ _).setDur _ _, valid.ready, valid.disk, handled_iff.mpr ⟨irq.erase _, softIrq, ipi⟩⟩
  | ipiHandlerExit timeStamp cpu =>
    simp only [IrqFilter.insert, IrqFilter.ipiHandlerExit]
    cases filter.ipiEventMap.lookup cpu.toNat with
    | none => exact valid
    | some record =>
      exact ⟨(valid.aligned.setDur _ _).setFlag _ 1, valid.ready, valid.disk,
        handled_iff.mpr ⟨irq, softIrq, ipi.erase _⟩⟩
  | softIrqExit timeStamp cpu =>
    simp only [IrqFilter.insert, IrqFilter.softIrqExit]
    cases filter.softIrqEventMap.lookup cpu.toNat with
    | none => exact valid
    | some record =>
      exact ⟨(valid.aligned.setDur _ _).setArgSetId _ _, valid.ready, valid.disk,
        handled_iff.mpr ⟨irq, softIrq.erase _, ipi⟩⟩

theorem readyRows_le : filter.readyRows ≤ filter.irqDatas.size :=
  readyRows_le_size valid.handled

theorem flush_zero (zero : filter.readyRows = 0) : IrqExport.step ⟨filter, [], filter⟩ .flush = ⟨filter, [], filter⟩ := by
  have table := CallStack.clearExportedData_zero valid.ready
  have maps : { filter.updateIrqReadySize with irqDatas := filter.irqDatas } = filter := by
    by_cases none : filter.minIrqRowToBeUpdated = invalidUint64
    · rw [IrqFilter.updateIrqReadySize_none none]
    · rw [IrqFilter.updateIrqReadySize_some none, zero]
      simp only [CpuMap.mapValues_of_same (fun record : IrqRecords => (rfl : record.rebase 0 = record))]
  simp only [IrqExport.step, IrqExport.ready_eq, IrqFilter.updateIrqReadySize_irqDatas, zero, table, maps]
  rfl

theorem kept : IrqExport.Kept ⟨filter, [], filter⟩ := by
  refine ⟨?_, ?_, ?_, ?_, rfl⟩ <;> intro cpu <;> simp [valid.disk]

end

end IrqFilter.Valid

def IrqExport.TakesNothing (state : IrqExport) (step : IrqStep) : Prop := step = .flush → state.filter.Pinned

theorem IrqFilter.Valid.aligned_flush {filter : IrqFilter} (valid : filter.Valid)
    (aligned : (IrqExport.step ⟨filter, [], filter⟩ .flush).filter.irqDatas.Aligned) : filter.readyRows = 0 := by
  simp only [IrqExport.step, IrqFilter.updateIrqReadySize_irqDatas] at aligned
  have parents := aligned filter.irqDatas.parentIds.length (by simp [CallStack.clearExportedData,
    CallStack.updateReadySize])
  have before : filter.irqDatas.parentIds.length = filter.irqDatas.timeStamps.length := valid.aligned _ (by simp)
  simp only [CallStack.clearExportedData, CallStack.updateReadySize, List.length_drop] at parents
  have bound := valid.readyRows_le
  rw [valid.aligned.size] at bound
  omega

theorem aligned_along_iff :
    Along IrqExport.step
        (fun state step => (state.step step).Kept ∧ (state.step step).filter.irqDatas.Aligned) {} steps ↔
      Along IrqExport.step IrqExport.TakesNothing {} steps := by
  refine along_iff (fun state _ => ∃ filter : IrqFilter, filter.Valid ∧ state = ⟨filter, [], filter⟩) ?_ ?_
    ⟨{}, Valid.initial, rfl⟩
  · rintro _ step rest ⟨filter, valid, rfl⟩
    cases step with
    | event event =>
      have next := valid.insert event
      exact ⟨fun _ => nofun, fun _ => ⟨next.kept, next.aligned⟩⟩
    | flush =>
      refine ⟨fun claimed _ => ?_, fun nothing => ?_⟩
      · exact (readyRows_eq_zero_iff valid.readyRows_le).mp (valid.aligned_flush claimed.2)
      · rw [valid.flush_zero ((readyRows_eq_zero_iff valid.readyRows_le).mpr (nothing rfl))]
        exact ⟨valid.kept, valid.aligned⟩
  · rintro _ step rest ⟨filter, valid, rfl⟩ nothing
    cases step with
    | event event => exact ⟨filter.insert event, valid.insert event, rfl⟩
    | flush =>
      have zero := (readyRows_eq_zero_iff valid.readyRows_le).mpr (nothing rfl)
      exact ⟨filter, valid, valid.flush_zero zero⟩

/-- Exports keep the whole property, aligned columns included, exactly in the runs in
which no export can take a row. What the remembered rows denote and the rows themselves
are kept, in runs of at most `2 ^ 32` rows, exactly if no export can take rows while
a row is linked. -/
theorem irqExport_kept_iff (steps : List IrqStep) :
    (Along IrqExport.step
        (fun state step => (state.step step).Kept ∧ (state.step step).filter.irqDatas.Aligned) {} steps ↔
      Along IrqExport.step IrqExport.TakesNothing {} steps) ∧
    (steps.countP IrqStep.isEntry ≤ 2 ^ 32 → (Along IrqExport.step (fun state step => (state.step step).Kept) {} steps ↔
        Along IrqExport.step IrqExport.Unlinked {} steps)) :=
  ⟨aligned_along_iff steps, kept_along_iff steps⟩

/-- A soft interrupt is handled, exported, and another one begins. -/
def softIrqs : List IrqStep :=
  [.event (.softIrqEntry 1 0 0 0), .flush, .event (.softIrqExit 2 0), .flush, .event (.softIrqEntry 3 0 0 0)]

theorem irqExport_softIrqs_kept :
    Along IrqExport.step (fun state step => (state.step step).Kept) {} softIrqs ∧
      Along IrqExport.step (fun state step => (state.step step).Kept ∧ (state.step step).filter.irqDatas.Aligned) {}
        (softIrqs.take 3) := by
  have unlinked : Along IrqExport.step IrqExport.Unlinked {} softIrqs :=
    ⟨nofun, fun _ => .inr rfl, nofun, fun _ => .inr rfl, nofun, trivial⟩
  have nothing : Along IrqExport.step IrqExport.TakesNothing {} (softIrqs.take 3) :=
    ⟨nofun, fun _ => .inr ⟨⟨1, 0⟩, ⟨0, .inr (.inl rfl)⟩, rfl⟩, nofun, trivial⟩
  exact ⟨((irqExport_kept_iff softIrqs).2 (by decide)).mpr unlinked,
    (irqExport_kept_iff (softIrqs.take 3)).1.mpr nothing⟩

/-- A soft interrupt is handled on cpu 1, and on cpu 0 an inter-processor interrupt
inside an interrupt that is still being handled when the rows are exported. -/
def linkedExport : List IrqStep :=
  [.event (.softIrqEntry 1 1 0 0), .event (.softIrqExit 2 1), .event (.irqHandlerEntry 3 0 0 0),
    .event (.ipiHandlerEntry 4 0 0 0), .event (.ipiHandlerExit 5 0), .flush]

/-- The linked row is still 2, although one row is gone, and the parents of three
rows are left for two rows. -/
theorem irqExport_linkedExport_lost :
    let state := linkedExport.foldl IrqExport.step {}
    (state.filter.irqDataLinker.lookup 0).map (· + state.filter.irqDatas.diskTableSize) ≠
        state.whole.irqDataLinker.lookup 0 ∧
      ¬ state.filter.irqDatas.Aligned := by
  decide

end SmartPerf.Slice
