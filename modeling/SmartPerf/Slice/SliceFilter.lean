import SmartPerf.Slice.CallStack

namespace SmartPerf.Slice

/-! The nested slices of `SliceFilter`. Threads are the internal ids that the
process filter gives out before these functions are called. A return of `SIZE_MAX`
is `none`. -/

structure SliceData where
  timeStamp : Nat
  duration : Int
  internalTid : Nat
  cat : Nat
  name : Nat
  depth : Nat := 0
  index : Nat := 0
  argSetId : Nat := 0
deriving Repr, DecidableEq

abbrev SlicesStack := List SliceData

structure StackInfo where
  isAsyncEvent : Bool := false
  asyncEventCount : Nat := 0
  asyncEventLastBeginTs : Nat := 0
  sliceStack : SlicesStack := []
deriving Repr, DecidableEq

structure ArgsSet where
  valuesMap : List (Nat × Nat) := []
  argSetId : Nat := 0
  inserted : Bool := false
deriving Repr, DecidableEq

/-- `ArgsFilter`, which numbers the argument sets. -/
structure ArgsFilter where
  count : Nat := 0
deriving Repr, DecidableEq

def ArgsFilter.newArgs (filter : ArgsFilter) : Nat × ArgsFilter :=
  (filter.count % 2 ^ 32, { count := filter.count + 1 })

structure SliceFilter where
  slices : CallStack := {}
  binderStackMap : Nat → Option StackInfo := fun _ => none
  sliceRowToArgsSetId : Nat → Option Nat := fun _ => none
  argsFilter : ArgsFilter := {}
  callEventDisMatchCount : Nat := 0

/-- A `uint64_t` read as an `int64_t`. -/
def toInt64 (value : Nat) : Int := Int.bmod value (2 ^ 64)

/-- The inner loop of `CloseUnMatchedSlice`. It writes to the slice that has an end
and not to the children it removes. -/
def closeChildren (sliceIdx : Nat) (endTs : Int) : Nat → CallStack → SlicesStack → CallStack × SlicesStack
  | 0, slices, stack => (slices, stack)
  | count + 1, slices, stack =>
    let dur := ((endTs - slices.timeStamps.getD sliceIdx 0) % 2 ^ 64).toNat
    closeChildren sliceIdx endTs count (slices.setDur sliceIdx dur) stack.dropLast

/-- The loop of `CloseUnMatchedSlice` over the stack entries below `count`. -/
def closeUnMatchedSliceBelow (ts : Int) : Nat → Bool → CallStack → SlicesStack → CallStack × SlicesStack
  | 0, _, slices, stack => (slices, stack)
  | i + 1, incomplete, slices, stack =>
    match stack[i]? with
    -- the loop never runs ahead of the entries it removes
    | none => closeUnMatchedSliceBelow ts i incomplete slices stack
    | some slice =>
      let sliceIdx := slice.index % 2 ^ 32
      let startTs := toInt64 (slices.timeStamps.getD sliceIdx 0)
      let dur := toInt64 (slices.durs.getD sliceIdx 0)
      let endTs := Int.bmod (startTs + dur) (2 ^ 64)
      if dur = -1 then closeUnMatchedSliceBelow ts i true slices stack
      else if incomplete then
        if ts ≤ endTs then closeUnMatchedSliceBelow ts i incomplete slices stack
        else
          let (slices, stack) := closeChildren sliceIdx endTs (stack.length - 1 - i) slices stack
          closeUnMatchedSliceBelow ts i false slices stack.dropLast
      else if endTs ≤ ts then closeUnMatchedSliceBelow ts i incomplete slices stack.dropLast
      else closeUnMatchedSliceBelow ts i incomplete slices stack

def closeUnMatchedSlice (ts : Nat) (slices : CallStack) (stack : SlicesStack) : CallStack × SlicesStack :=
  closeUnMatchedSliceBelow (toInt64 ts) stack.length false slices stack

def matchingIncompleteSliceIndexBelow (slices : CallStack) (stack : SlicesStack) (category name : Nat) :
    Nat → Option Nat
  | 0 => none
  | i + 1 =>
    match stack[i]? with
    | none => matchingIncompleteSliceIndexBelow slices stack category name i
    | some slice =>
      let sliceIdx := slice.index % 2 ^ 32
      let categoryLast := slices.cats.getD sliceIdx 0
      let nameLast := slices.names.getD sliceIdx 0
      if toInt64 (slices.durs.getD sliceIdx 0) ≠ -1 then
        matchingIncompleteSliceIndexBelow slices stack category name i
      else if category ≠ invalidUint64 ∧ categoryLast ≠ invalidUint64 ∧ category ≠ categoryLast then
        matchingIncompleteSliceIndexBelow slices stack category name i
      else if name ≠ invalidUint64 ∧ nameLast ≠ invalidUint64 ∧ name ≠ nameLast then
        matchingIncompleteSliceIndexBelow slices stack category name i
      else some i

def matchingIncompleteSliceIndex (slices : CallStack) (stack : SlicesStack) (category name : Nat) : Option Nat :=
  matchingIncompleteSliceIndexBelow slices stack category name stack.length

def parentIdOf (slices : CallStack) (stack : SlicesStack) : Nat :=
  match stack.getLast? with
  | none => invalidUint32
  | some slice => slices.ids.getD slice.index 0 % 2 ^ 32

namespace SliceFilter

variable (filter : SliceFilter)

def rememberSliceData (internalTid : Nat) (slice : SliceData) (depth index : Nat) : SliceFilter :=
  let info := (filter.binderStackMap internalTid).getD {}
  { filter with
    binderStackMap := Function.update filter.binderStackMap internalTid
      (some { info with sliceStack := info.sliceStack ++ [{ slice with depth, index }] }) }

/-- The argument set of a new slice, and the arguments with its id. -/
def sliceArgs (args : ArgsSet) (index : Nat) : Nat × ArgsSet × SliceFilter :=
  if args.valuesMap.length = 0 then (invalidUint32, args, filter)
  else if args.inserted then
    (args.argSetId, args, { filter with slices := filter.slices.setArgSetId index args.argSetId })
  else
    let (argSetId, argsFilter) := filter.argsFilter.newArgs
    (argSetId, { args with argSetId, inserted := true },
      { filter with
        argsFilter
        slices := filter.slices.setArgSetId index argSetId
        sliceRowToArgsSetId := Function.update filter.sliceRowToArgsSetId (index % 2 ^ 32) (some argSetId) })

def startSlice (timeStamp : Nat) (args : ArgsSet) (sliceData : SliceData) : Option Nat × ArgsSet × SliceFilter :=
  let internalTid := sliceData.internalTid
  let info := (filter.binderStackMap internalTid).getD {}
  let info := if info.isAsyncEvent then
      { info with
        asyncEventCount := (info.asyncEventCount + 1) % 2 ^ 32
        asyncEventLastBeginTs := timeStamp % 2 ^ 32 }
    else info
  if info.isAsyncEvent ∧ info.sliceStack ≠ [] then
    (none, args, { filter with binderStackMap := Function.update filter.binderStackMap internalTid (some info) })
  else
    let (slices, stack) := closeUnMatchedSlice timeStamp filter.slices info.sliceStack
    let depth := stack.length
    let parentId := parentIdOf slices stack
    let row : CallStackInternalRow :=
      { startT := sliceData.timeStamp, durationNs := (sliceData.duration % 2 ^ 64).toNat,
        internalTid := sliceData.internalTid, cat := sliceData.cat, name := sliceData.name, depth := 0 }
    let slices := slices.appendInternalSlice row (some parentId)
    let index := slices.size - 1
    let filter := { filter with
      slices
      binderStackMap := Function.update filter.binderStackMap internalTid (some { info with sliceStack := stack }) }
    if invalidUint8 ≤ depth then (none, args, filter)
    else
      let filter := { filter with slices := filter.slices.setDepth index depth }
      let (argSetId, args, filter) := filter.sliceArgs args index
      (some index, args, filter.rememberSliceData internalTid { sliceData with argSetId } depth index)

def beginSlice (timeStamp internalTid cat nameIndex : Nat) : Option Nat × SliceFilter :=
  let sliceData : SliceData := { timeStamp, duration := -1, internalTid, cat, name := nameIndex }
  let (index, _, filter) := filter.startSlice timeStamp {} sliceData
  (index, filter)

def handleAsyncEventAndOther (args : ArgsSet) (lastRow : Nat) (stackInfo : StackInfo) : SliceFilter :=
  let number (filter : SliceFilter) : Nat × SliceFilter :=
    let (argSetId, argsFilter) := filter.argsFilter.newArgs
    (argSetId, { filter with
      argsFilter
      slices := filter.slices.setArgSetId lastRow argSetId
      sliceRowToArgsSetId := Function.update filter.sliceRowToArgsSetId (lastRow % 2 ^ 32) (some argSetId) })
  let (argSetId, filter) :=
    if args.valuesMap.length = 0 then (0, filter)
    else match filter.sliceRowToArgsSetId (lastRow % 2 ^ 32) with
      | none => number filter
      | some argSetId => (argSetId, filter)
  if stackInfo.isAsyncEvent ∧ argSetId = 0 then (number filter).2 else filter

variable (timeStamp internalTid category name : Nat)

def completeSlice (args : ArgsSet) : Option Nat × SliceFilter :=
  match filter.binderStackMap internalTid with
  | none => (none, filter)
  | some stackInfo =>
    let (slices, stack) := closeUnMatchedSlice timeStamp filter.slices stackInfo.sliceStack
    let stackInfo := { stackInfo with sliceStack := stack }
    let filter := { filter with
      slices
      binderStackMap := Function.update filter.binderStackMap internalTid (some stackInfo) }
    if stack.length = 0 then
      (none, { filter with callEventDisMatchCount := filter.callEventDisMatchCount + 1 })
    else match matchingIncompleteSliceIndex slices stack category name with
      | none => (none, filter)
      | some stackIdx =>
        let lastRow := (stack[stackIdx]?.map (·.index)).getD 0
        let filter := { filter with slices := slices.setDuration lastRow timeStamp }
        let filter := filter.handleAsyncEventAndOther args lastRow stackInfo
        let stack := if stackIdx = stack.length - 1 then stack.dropLast else stack
        (some lastRow, { filter with
          binderStackMap := Function.update filter.binderStackMap internalTid
            (some { stackInfo with sliceStack := stack }) })

def endSlice : Option Nat × SliceFilter :=
  filter.completeSlice timeStamp internalTid category name {}

end SliceFilter

/-- A begin, or an end that names neither category nor slice. -/
inductive SliceEvent where
  | beginSlice (timeStamp : UInt64) (internalTid : UInt32) (cat nameIndex : UInt64)
  | endSlice (timeStamp : UInt64) (internalTid : UInt32)
deriving Repr, DecidableEq

def SliceEvent.timeStamp : SliceEvent → Nat
  | .beginSlice timeStamp .. => timeStamp.toNat
  | .endSlice timeStamp _ => timeStamp.toNat

def SliceEvent.internalTid : SliceEvent → Nat
  | .beginSlice _ internalTid .. => internalTid.toNat
  | .endSlice _ internalTid => internalTid.toNat

namespace SliceFilter

def insert (filter : SliceFilter) : SliceEvent → SliceFilter
  | .beginSlice timeStamp internalTid cat nameIndex =>
    (filter.beginSlice timeStamp.toNat internalTid.toNat cat.toNat nameIndex.toNat).2
  | .endSlice timeStamp internalTid =>
    (filter.endSlice timeStamp.toNat internalTid.toNat invalidUint64 invalidUint64).2

def run (filter : SliceFilter) (events : List SliceEvent) : SliceFilter := events.foldl insert filter

end SliceFilter

end SmartPerf.Slice
