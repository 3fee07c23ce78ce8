import Mathlib.Data.List.AList
import SmartPerf.Data.Machine

namespace SmartPerf.Hook

open Data

/-! The `NativeHook` table and the allocation events of `NativeHookFilter`. -/

inductive EventType where
  | allocEvent
  | freeEvent
  | mmapEvent
  | munmapEvent
deriving Repr, DecidableEq

structure NativeHookRow where
  callChainId : Nat
  ipid : Nat
  itid : Nat
  eventType : EventType
  timeStamp : Nat
  endTimeStamp : Nat := 0
  duration : Nat := 0
  addr : Nat
  memSize : Int64
  allMemSize : Int64 := 0
  currentSizeDur : Nat := 0
deriving Repr, DecidableEq

structure NativeHook where
  rows : List NativeHookRow := []
  countHeapSizes : Int64 := 0
  countMmapSizes : Int64 := 0
  addrToAllocEventRow : AList (fun _ : Nat => Nat) := ∅
  lastMallocEventRaw : Option Nat := none

namespace NativeHook

variable (hook : NativeHook)

def appendNewNativeHookData (context : NativeHookRow) : NativeHook :=
  match context.eventType with
  | .allocEvent =>
    let countHeapSizes := hook.countHeapSizes + context.memSize
    { hook with countHeapSizes, rows := hook.rows ++ [{ context with allMemSize := countHeapSizes }] }
  | .freeEvent =>
    let countHeapSizes := hook.countHeapSizes - context.memSize
    { hook with countHeapSizes, rows := hook.rows ++ [{ context with allMemSize := countHeapSizes }] }
  | .mmapEvent =>
    let countMmapSizes := hook.countMmapSizes + context.memSize
    { hook with countMmapSizes, rows := hook.rows ++ [{ context with allMemSize := countMmapSizes }] }
  | .munmapEvent =>
    let countMmapSizes := hook.countMmapSizes - context.memSize
    { hook with countMmapSizes, rows := hook.rows ++ [{ context with allMemSize := countMmapSizes }] }

def updateEndTimeStampAndDuration (row endTimeStamp : Nat) : NativeHook :=
  { hook with
    rows := hook.rows.modify row fun entry =>
      { entry with endTimeStamp, duration := subUint64 endTimeStamp entry.timeStamp } }

def updateCurrentSizeDur (row timeStamp : Nat) : NativeHook :=
  { hook with
    rows := hook.rows.modify row fun entry => { entry with currentSizeDur := subUint64 timeStamp entry.timeStamp } }

/-- `MaybeUpdateCurrentSizeDur` for allocations and frees. -/
def maybeUpdateCurrentSizeDur (row timeStamp : Nat) : NativeHook :=
  match hook.lastMallocEventRaw with
  | none => { hook with lastMallocEventRaw := some row }
  | some last => { hook.updateCurrentSizeDur last timeStamp with lastMallocEventRaw := some row }

end NativeHook

/-- What an `AllocEvent` message says, with its thread, process and call chain looked up. -/
structure AllocEvent where
  timeStamp : Nat
  callChainId : Nat := 2 ^ 32 - 1
  ipid : Nat
  itid : Nat
  addr : Nat
  size : UInt64
deriving Repr, DecidableEq

structure FreeEvent where
  timeStamp : Nat
  callChainId : Nat := 2 ^ 32 - 1
  ipid : Nat
  itid : Nat
  addr : Nat
deriving Repr, DecidableEq

inductive HeapEvent where
  | alloc (event : AllocEvent)
  | free (event : FreeEvent)
deriving Repr, DecidableEq

namespace NativeHook

variable (hook : NativeHook) (event : FreeEvent)

def allocRow (event : AllocEvent) : NativeHookRow where
  callChainId := event.callChainId
  ipid := event.ipid
  itid := event.itid
  eventType := .allocEvent
  timeStamp := event.timeStamp
  addr := event.addr
  memSize := event.size.toInt64

def freeRow (freeHeapSize : Int64) : NativeHookRow where
  callChainId := event.callChainId
  ipid := event.ipid
  itid := event.itid
  eventType := .freeEvent
  timeStamp := event.timeStamp
  addr := event.addr
  memSize := freeHeapSize

/-- `unordered_map::insert` keeps the row that an address already has. -/
def insertAddr (addr row : Nat) : NativeHook :=
  match hook.addrToAllocEventRow.lookup addr with
  | none => { hook with addrToAllocEventRow := hook.addrToAllocEventRow.insert addr row }
  | some _ => hook

def parseAllocEvent (event : AllocEvent) : NativeHook :=
  let row := hook.rows.length
  let hook := (hook.appendNewNativeHookData (allocRow event)).insertAddr event.addr row
  if event.size ≠ 0 then hook.maybeUpdateCurrentSizeDur row event.timeStamp else hook

def matchingRow : Option Nat :=
  match hook.addrToAllocEventRow.lookup event.addr with
  | none => none
  | some row =>
    match hook.rows[row]? with
    | none => none
    | some entry => if event.timeStamp > entry.timeStamp then some row else none

def eraseAddr (addr : Nat) : NativeHook :=
  { hook with addrToAllocEventRow := hook.addrToAllocEventRow.erase addr }

def parseFreeEvent : NativeHook :=
  match hook.matchingRow event with
  | none => hook
  | some row =>
    let hook := (hook.eraseAddr event.addr).updateEndTimeStampAndDuration row event.timeStamp
    let freeHeapSize := (hook.rows[row]?.map NativeHookRow.memSize).getD 0
    let freed := hook.rows.length
    let hook := hook.appendNewNativeHookData (freeRow event freeHeapSize)
    if freeHeapSize ≠ 0 then hook.maybeUpdateCurrentSizeDur freed event.timeStamp else hook

def step : HeapEvent → NativeHook
  | .alloc event => hook.parseAllocEvent event
  | .free event => hook.parseFreeEvent event

def run (events : List HeapEvent) : NativeHook := events.foldl step {}

end NativeHook

end SmartPerf.Hook
