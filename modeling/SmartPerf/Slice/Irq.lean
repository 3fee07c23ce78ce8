import Mathlib.Data.List.AList
import SmartPerf.Slice.SliceFilter

namespace SmartPerf.Slice

/-! The interrupt half of `SliceFilter`: its own `CallStack` table, the rows of the
interrupts that are being handled, and the export of finished rows. -/

structure IrqRecords where
  ts : Nat
  row : Nat
deriving Repr, DecidableEq

abbrev CpuMap (Value : Type) := AList fun _ : Nat => Value

def CpuMap.mapValues {Value : Type} (change : Value → Value) (map : CpuMap Value) : CpuMap Value where
  entries := map.entries.map fun entry => ⟨entry.1, change entry.2⟩
  nodupKeys := by
    have keys := map.nodupKeys
    rw [List.NodupKeys, List.keys] at keys ⊢
    rwa [List.map_map]

structure IrqFilter where
  irqDatas : CallStack := {}
  irqEventMap : CpuMap IrqRecords := ∅
  ipiEventMap : CpuMap IrqRecords := ∅
  softIrqEventMap : CpuMap IrqRecords := ∅
  -- values are `uint32_t`
  irqDataLinker : CpuMap Nat := ∅
  argsFilter : ArgsFilter := {}

/-- The linked row gets the arguments of the interrupt, which gets its duration. -/
def CallStack.exchange (slices : CallStack) (row linked : Nat) : CallStack :=
  let slices := slices.setArgSetId linked (slices.argSet.getD row 0)
  slices.setDurationEx row (slices.durs.getD linked 0)

namespace IrqFilter

variable (filter : IrqFilter) (timeStamp cpu catalog nameIndex : Nat)

def appendEntry : IrqRecords × IrqFilter :=
  let row : CallStackInternalRow :=
    { startT := timeStamp, durationNs := 0, internalTid := cpu, cat := catalog, name := nameIndex, depth := 0 }
  let slices := filter.irqDatas.appendInternalSlice row none
  ({ ts := timeStamp, row := slices.size - 1 }, { filter with irqDatas := slices })

def irqHandlerEntry : IrqFilter :=
  let filter := { filter with irqDataLinker := filter.irqDataLinker.erase cpu }
  let (record, filter) := filter.appendEntry timeStamp cpu catalog nameIndex
  { filter with irqEventMap := filter.irqEventMap.insert cpu record }

def irqHandlerExit : IrqFilter :=
  match filter.irqEventMap.lookup cpu with
  | none => filter
  | some record =>
    let (argSetId, argsFilter) := filter.argsFilter.newArgs
    let slices := filter.irqDatas.setIrqDurAndArg record.row timeStamp argSetId
    let slices := match filter.irqDataLinker.lookup cpu with
      | some linked => slices.exchange record.row linked
      | none => slices.setFlag record.row 1
    { filter with
      argsFilter
      irqDatas := slices
      irqDataLinker := filter.irqDataLinker.erase cpu
      irqEventMap := filter.irqEventMap.erase cpu }

def ipiHandlerEntry : IrqFilter :=
  let filter := { filter with irqDataLinker := filter.irqDataLinker.erase cpu }
  let (record, filter) := filter.appendEntry timeStamp cpu catalog nameIndex
  { filter with ipiEventMap := filter.ipiEventMap.insert cpu record }

def ipiHandlerExit : IrqFilter :=
  match filter.ipiEventMap.lookup cpu with
  | none => filter
  | some record =>
    -- `emplace` keeps a link that is there
    let linker := match filter.irqDataLinker.lookup cpu with
      | some _ => filter.irqDataLinker
      | none => filter.irqDataLinker.insert cpu (record.row % 2 ^ 32)
    { filter with
      irqDatas := filter.irqDatas.setDurationWithFlag record.row timeStamp
      irqDataLinker := linker
      ipiEventMap := filter.ipiEventMap.erase cpu }

def softIrqEntry : IrqFilter :=
  let (record, filter) := filter.appendEntry timeStamp cpu catalog nameIndex
  { filter with softIrqEventMap := filter.softIrqEventMap.insert cpu record }

def softIrqExit : IrqFilter :=
  match filter.softIrqEventMap.lookup cpu with
  | none => filter
  | some record =>
    let (argSetId, argsFilter) := filter.argsFilter.newArgs
    { filter with
      argsFilter
      irqDatas := filter.irqDatas.setIrqDurAndArg record.row timeStamp argSetId
      softIrqEventMap := filter.softIrqEventMap.erase cpu }

/-- One loop of `UpdateIrqReadySize` over a map. -/
def minRow (bound : Nat) (map : CpuMap IrqRecords) : Nat :=
  map.entries.foldl (fun least entry => if least > entry.2.row then entry.2.row else least) bound

def minIrqRowToBeUpdated : Nat :=
  minRow (minRow (minRow invalidUint64 filter.irqEventMap) filter.softIrqEventMap) filter.ipiEventMap

def updateIrqReadySize : IrqFilter :=
  let irqDatas := filter.irqDatas.updateReadySize filter.irqDatas.size
  let least := filter.minIrqRowToBeUpdated
  if least = invalidUint64 then { filter with irqDatas }
  else
    let irqDatas := irqDatas.updateReadySize least
    let rebase := fun record : IrqRecords => { record with row := record.row - irqDatas.readySize }
    { filter with
      irqDatas
      irqEventMap := filter.irqEventMap.mapValues rebase
      ipiEventMap := filter.ipiEventMap.mapValues rebase
      softIrqEventMap := filter.softIrqEventMap.mapValues rebase }

end IrqFilter

variable (table : CallStack)

def CallStack.row? (index : Nat) : Option CallStackRow := do
  let id ← table.ids[index]?
  let timeStamp ← table.timeStamps[index]?
  let dur ← table.durs[index]?
  let callId ← table.callIds[index]?
  let colorIndex ← table.colorIndexs[index]?
  let parentId ← table.parentIds[index]?
  let cat ← table.cats[index]?
  let name ← table.names[index]?
  let depth ← table.depths[index]?
  let cookie ← table.cookies[index]?
  let chainId ← table.chainIds[index]?
  let spanId ← table.spanIds[index]?
  let parentSpanId ← table.parentSpanIds[index]?
  let flag ← table.flags[index]?
  let argSetId ← table.argSet[index]?
  return { id, timeStamp, dur, callId, colorIndex, parentId, cat, name, depth, cookie, chainId, spanId, parentSpanId,
           flag, argSetId }

def CallStack.firstRows (count : Nat) : List CallStackRow :=
  (List.range count).filterMap table.row?

def CallStack.rows : List CallStackRow := table.firstRows table.size

def CallStack.Aligned : Prop :=
  ∀ length ∈ [table.ids.length, table.durs.length, table.callIds.length, table.colorIndexs.length,
    table.parentIds.length, table.cats.length, table.names.length, table.depths.length, table.cookies.length,
    table.chainIds.length, table.spanIds.length, table.parentSpanIds.length, table.flags.length, table.argSet.length],
    length = table.timeStamps.length

instance (table : CallStack) : Decidable table.Aligned := inferInstanceAs (Decidable (∀ length ∈ _, _))

inductive IrqEvent where
  | irqHandlerEntry (timeStamp : UInt64) (cpu : UInt32) (catalog nameIndex : UInt64)
  | irqHandlerExit (timeStamp : UInt64) (cpu : UInt32)
  | ipiHandlerEntry (timeStamp : UInt64) (cpu : UInt32) (catalog nameIndex : UInt64)
  | ipiHandlerExit (timeStamp : UInt64) (cpu : UInt32)
  | softIrqEntry (timeStamp : UInt64) (cpu : UInt32) (catalog nameIndex : UInt64)
  | softIrqExit (timeStamp : UInt64) (cpu : UInt32)
deriving Repr, DecidableEq

def IrqFilter.insert (filter : IrqFilter) : IrqEvent → IrqFilter
  | .irqHandlerEntry timeStamp cpu catalog nameIndex =>
    filter.irqHandlerEntry timeStamp.toNat cpu.toNat catalog.toNat nameIndex.toNat
  | .irqHandlerExit timeStamp cpu => filter.irqHandlerExit timeStamp.toNat cpu.toNat
  | .ipiHandlerEntry timeStamp cpu catalog nameIndex =>
    filter.ipiHandlerEntry timeStamp.toNat cpu.toNat catalog.toNat nameIndex.toNat
  | .ipiHandlerExit timeStamp cpu => filter.ipiHandlerExit timeStamp.toNat cpu.toNat
  | .softIrqEntry timeStamp cpu catalog nameIndex =>
    filter.softIrqEntry timeStamp.toNat cpu.toNat catalog.toNat nameIndex.toNat
  | .softIrqExit timeStamp cpu => filter.softIrqExit timeStamp.toNat cpu.toNat

/-- A filter whose finished rows are exported in batches, and the same filter
without exports. -/
structure IrqExport where
  filter : IrqFilter := {}
  exported : List CallStackRow := []
  whole : IrqFilter := {}

/-- An event of the filter, or an export. -/
inductive IrqStep where
  | event (event : IrqEvent)
  | flush
deriving Repr, DecidableEq

namespace IrqExport

def ready (state : IrqExport) : Nat := state.filter.updateIrqReadySize.irqDatas.readySize

def step (state : IrqExport) : IrqStep → IrqExport
  | .event event => { state with filter := state.filter.insert event, whole := state.whole.insert event }
  | .flush =>
    let filter := state.filter.updateIrqReadySize
    { state with
      exported := state.exported ++ filter.irqDatas.firstRows state.ready
      filter := { filter with irqDatas := filter.irqDatas.clearExportedData } }

end IrqExport

end SmartPerf.Slice
