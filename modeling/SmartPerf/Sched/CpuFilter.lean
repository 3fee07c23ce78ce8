import Mathlib.Tactic

namespace SmartPerf.Sched

/-! `CpuFilter`: the `thread_state` and `sched_slice` rows of switch and wakeup
events.

The maps of the filter are functions to `Option`.  No binder transaction is
ever opened by these events, so the part of `InsertSwitchEvent` that follows a
transaction never runs; argument sets, thread counters and
`pidToThreadSliceRow_`, which only blocked-reason events read, are left out. -/

def invalidTime : Nat := 2 ^ 64 - 1
def invalidCpu : Nat := 2 ^ 32 - 1
def taskRunnable : Nat := 0
def taskRunning : Nat := 3
def taskInvalid : Nat := 0x8000

/-- A timestamp of an event.  `INVALID_TIME` marks the absence of one. -/
abbrev Timestamp := Fin (2 ^ 64 - 1)

/-- One row of `ThreadStateData`. -/
structure StateRow where
  timeStamp : Nat
  duration : Nat
  cpu : Nat
  itid : Nat
  state : Nat
deriving Repr, DecidableEq

def StateRow.isOpen (row : StateRow) : Bool := row.duration == invalidTime

/-- `UpdateDuration` on one row; the subtraction is unsigned. -/
def StateRow.updateDuration (ts : Nat) (row : StateRow) : StateRow :=
  if row.isOpen then { row with duration := (ts + 2 ^ 64 - row.timeStamp) % 2 ^ 64 } else row

structure SchedSliceRow where
  ts : Nat
  dur : Nat
  cpu : Nat
  internalTid : Nat
  endState : Nat
  priority : Int
deriving Repr, DecidableEq

/-- `SchedSlice::Update` on one row. -/
def SchedSliceRow.update (ts state : Nat) (row : SchedSliceRow) : SchedSliceRow :=
  { row with dur := (ts + 2 ^ 64 - row.ts) % 2 ^ 64, endState := state }

structure TPthread where
  row : Nat
  state : Nat
deriving Repr, DecidableEq

structure CpuFilter where
  rows : List StateRow := []
  schedSlices : List SchedSliceRow := []
  cpuToRowThreadState : Nat → Option Nat := fun _ => none
  cpuToRowSched : Nat → Option Nat := fun _ => none
  internalTidToRowThreadState : Nat → Option TPthread := fun _ => none
  toRunnableTid : Nat → Option Nat := fun _ => none

/-- The state column holds a `DataIndex` that went through a `TableRowId`. -/
def stateColumn (state : Nat) : Nat := ((state : Int).bmod (2 ^ 32) % 2 ^ 64).toNat

namespace CpuFilter

variable (filter : CpuFilter) (hmKernelTraceEnabled : Bool)

def appendThreadState (ts dur cpu itid state : Nat) : CpuFilter :=
  { filter with rows := filter.rows ++ [⟨ts, dur, cpu % 2 ^ 32, itid, stateColumn state⟩] }

def updateDuration (row ts : Nat) : CpuFilter :=
  { filter with rows := filter.rows.modify row (StateRow.updateDuration ts) }

def remberInternalTidInStateTable (uid row state : Nat) : CpuFilter :=
  { filter with
    internalTidToRowThreadState := Function.update filter.internalTidToRowThreadState uid (some ⟨row, state⟩) }

def rowOfInternalTidInStateTable (uid : Nat) : Option Nat :=
  (filter.internalTidToRowThreadState uid).map TPthread.row

def clearInternalTidInStateTable (uid : Nat) : CpuFilter :=
  { filter with internalTidToRowThreadState := Function.update filter.internalTidToRowThreadState uid none }

def stateOfInternalTidInStateTable (uid : Nat) : Nat :=
  match filter.internalTidToRowThreadState uid with
  | some thread => thread.state
  | none => taskInvalid

def updateDurationOf (uid ts : Nat) : CpuFilter :=
  match filter.rowOfInternalTidInStateTable uid with
  | some row => filter.updateDuration row ts
  | none => filter

def eraseToRunnable (internalTid : Nat) : CpuFilter :=
  { filter with toRunnableTid := Function.update filter.toRunnableTid internalTid none }

def beginState (ts cpu itid state : Nat) : CpuFilter :=
  (filter.appendThreadState ts invalidTime cpu itid state).remberInternalTidInStateTable itid
    filter.rows.length state

def checkWakeupEvent (internalTid : Nat) : CpuFilter :=
  match filter.toRunnableTid internalTid with
  | none => filter
  | some wakeup =>
    if filter.stateOfInternalTidInStateTable internalTid = taskRunning then
      filter.eraseToRunnable internalTid
    else
      (((filter.updateDurationOf internalTid wakeup).beginState wakeup invalidCpu internalTid
        taskRunnable).eraseToRunnable internalTid)

/-- `End` writes the open mark to an open row, which leaves it as it is. -/
def endThreadState (row : Nat) : CpuFilter × Bool :=
  match filter.rows[row]? with
  | none => (filter, true)
  | some content =>
    if content.isOpen then
      ({ filter with rows := filter.rows.modify row (fun content => { content with duration := invalidTime }) }, false)
    else (filter, true)

/-- The end of `ProcNextPidSwitchEvent`: only one thread runs on a cpu. -/
def replaceOnCpu (cpu prevPid index : Nat) : CpuFilter :=
  match filter.cpuToRowThreadState cpu with
  | none => { filter with cpuToRowThreadState := Function.update filter.cpuToRowThreadState cpu (some index) }
  | some row =>
    let itid := (filter.rows[row]?.map StateRow.itid).getD 0
    let ended :=
      if itid ≠ prevPid then
        match filter.endThreadState row with
        | (ended, true) => ended
        | (ended, false) => ended.clearInternalTidInStateTable itid
      else filter
    { ended with cpuToRowThreadState := Function.update ended.cpuToRowThreadState cpu (some index) }

def procNextPidSwitchEvent (ts cpu prevPid nextPid : Nat) : CpuFilter :=
  let closed := (filter.checkWakeupEvent nextPid).updateDurationOf nextPid ts
  (closed.beginState ts cpu nextPid taskRunning).replaceOnCpu cpu prevPid closed.rows.length

/-- `isChangeCpu`: the thread left this cpu for another one before. -/
def isChangeCpu (ts cpu : Nat) (last : StateRow) : Bool :=
  decide (cpu ≠ last.cpu) && decide (last.state = taskRunning) &&
    (hmKernelTraceEnabled || decide (ts = last.timeStamp))

def procPrevPidSwitchEvent (filter : CpuFilter) (ts cpu prevPid prevState : Nat) : CpuFilter :=
  match filter.rowOfInternalTidInStateTable prevPid with
  | none => filter.beginState ts invalidCpu prevPid prevState
  | some lastRow =>
    if (filter.rows[lastRow]?.map (isChangeCpu hmKernelTraceEnabled ts cpu)).getD false then filter
    else
      ((filter.checkWakeupEvent prevPid).updateDuration lastRow ts).beginState ts invalidCpu prevPid prevState

/-- The part of `InsertSwitchEvent` that keeps `sched_slice`. -/
def insertSchedSlice (ts cpu prevState nextPid : Nat) (nextPrio : Int) : CpuFilter :=
  let appended := filter.schedSlices ++ [⟨ts, invalidTime, cpu, nextPid, 0, nextPrio⟩]
  { filter with
    schedSlices :=
      match filter.cpuToRowSched cpu with
      | some row => appended.modify row (SchedSliceRow.update ts prevState)
      | none => appended
    cpuToRowSched := Function.update filter.cpuToRowSched cpu (some filter.schedSlices.length) }

def insertSwitchEvent (filter : CpuFilter) (ts cpu prevPid prevState nextPid : Nat) (nextPrio : Int) : CpuFilter :=
  let sliced := filter.insertSchedSlice ts cpu prevState nextPid nextPrio
  let switchedIn := if nextPid ≠ 0 then sliced.procNextPidSwitchEvent ts cpu prevPid nextPid else sliced
  if prevPid ≠ 0 then switchedIn.procPrevPidSwitchEvent hmKernelTraceEnabled ts cpu prevPid prevState
  else switchedIn

def insertWakeupEvent (ts internalTid : Nat) (isWaking : Bool) : CpuFilter :=
  if isWaking = false ∧ filter.toRunnableTid internalTid = none then
    { filter with toRunnableTid := Function.update filter.toRunnableTid internalTid (some ts) }
  else filter

end CpuFilter

/-- A `sched_switch` or a `sched_wakeup` event, with internal thread ids. -/
inductive SchedEvent where
  | switch (ts : Timestamp) (cpu prevPid : UInt32) (prevState : UInt64) (nextPid : UInt32) (nextPrio : Int32)
  | wakeup (ts : Timestamp) (internalTid : UInt32)
deriving Repr, DecidableEq

def SchedEvent.ts : SchedEvent → Nat
  | .switch ts .. => ts.val
  | .wakeup ts _ => ts.val

namespace CpuFilter

variable (hmKernelTraceEnabled : Bool)

def insert (filter : CpuFilter) : SchedEvent → CpuFilter
  | .switch ts cpu prevPid prevState nextPid nextPrio =>
    filter.insertSwitchEvent hmKernelTraceEnabled ts.val cpu.toNat prevPid.toNat prevState.toNat nextPid.toNat
      nextPrio.toInt
  | .wakeup ts internalTid => filter.insertWakeupEvent ts.val internalTid.toNat false

def run (filter : CpuFilter) (events : List SchedEvent) : CpuFilter :=
  events.foldl (insert hmKernelTraceEnabled) filter

end CpuFilter

end SmartPerf.Sched
