import SmartPerf.Data.ListLookup
import SmartPerf.Sched.CpuFilter

namespace SmartPerf.Sched

open List Function

/-! The filter as seen by one thread.

A `Track` holds the rows of one thread in table order, the position of the
remembered one among them, and the pending wakeup.  Every function of the filter
acts on the track of the thread it is called for and on no other; only
`replaceOnCpu` can make a third thread forget its row. -/

def rowsOf (itid : Nat) (rows : List StateRow) : List StateRow :=
  rows.filter (fun row => row.itid == itid)

/-- The place of table row `index` among the rows of `itid`. -/
def position (itid : Nat) (rows : List StateRow) (index : Nat) : Nat :=
  (rowsOf itid (rows.take index)).length

section Rows

variable {rows : List StateRow} {row : StateRow} {itid index : Nat} {change : StateRow → StateRow}

theorem rowsOf_append (itid : Nat) (rows more : List StateRow) :
    rowsOf itid (rows ++ more) = rowsOf itid rows ++ rowsOf itid more :=
  filter_append ..

section
variable (found : rows[index]? = some row)
include found

theorem split_at : rows = rows.take index ++ row :: rows.drop (index + 1) := by
  obtain ⟨inside, rfl⟩ := List.getElem?_eq_some_iff.mp found
  rw [getElem_cons_drop, take_append_drop]

theorem modify_split : rows.modify index change = rows.take index ++ change row :: rows.drop (index + 1) := by
  obtain ⟨inside, rfl⟩ := List.getElem?_eq_some_iff.mp found
  exact modify_eq_take_cons_drop inside

theorem rowsOf_split (own : row.itid = itid) :
    rowsOf itid rows = rowsOf itid (rows.take index) ++ row :: rowsOf itid (rows.drop (index + 1)) := by
  conv_lhs => rw [split_at found]
  simp [rowsOf, own]

theorem rowsOf_get (own : row.itid = itid) : (rowsOf itid rows)[position itid rows index]? = some row := by
  rw [rowsOf_split found own, position]
  simp

end

theorem modify_middle (front back : List StateRow) :
    (front ++ row :: back).modify front.length change = front ++ change row :: back := by
  induction front with
  | nil => rfl
  | cons first front ih => simpa using ih

theorem rowsOf_modify_own (found : rows[index]? = some row) (own : row.itid = itid)
    (keeps : ∀ row, (change row).itid = row.itid) :
    rowsOf itid (rows.modify index change) = (rowsOf itid rows).modify (position itid rows index) change := by
  have changed : (change row).itid = itid := (keeps row).trans own
  rw [modify_split found, rowsOf_split found own, position, modify_middle]
  simp [rowsOf, changed]

theorem rowsOf_modify_other (found : rows[index]? = some row) (other : row.itid ≠ itid)
    (keeps : ∀ row, (change row).itid = row.itid) : rowsOf itid (rows.modify index change) = rowsOf itid rows := by
  have changed : (change row).itid ≠ itid := by rwa [keeps row]
  rw [modify_split found]
  conv_rhs => rw [split_at found]
  simp [rowsOf, changed, other]

theorem rowsOf_map_length (keeps : ∀ row, (change row).itid = row.itid) (itid : Nat) (rows : List StateRow)
    (index : Nat) : (rowsOf itid (rows.modify index change)).length = (rowsOf itid rows).length := by
  cases found : rows[index]? with
  | none => rw [modify_eq_self (List.getElem?_eq_none_iff.mp found)]
  | some row =>
    by_cases own : row.itid = itid
    · rw [rowsOf_modify_own found own keeps, length_modify]
    · rw [rowsOf_modify_other found own keeps]

theorem position_modify (keeps : ∀ row, (change row).itid = row.itid) (itid : Nat) (rows : List StateRow)
    (index place : Nat) : position itid (rows.modify index change) place = position itid rows place := by
  rw [position, position, take_modify]
  exact rowsOf_map_length keeps itid _ index

theorem position_append (itid : Nat) (more : List StateRow) (inside : index ≤ rows.length) :
    position itid (rows ++ more) index = position itid rows index := by
  rw [position, position, take_append_of_le_length inside]

end Rows

/-- Rows keep their place, their thread and their place among the rows of each
thread. -/
def Grows (before after : List StateRow) : Prop :=
  ∀ index row, before[index]? = some row →
    (∃ later, after[index]? = some later ∧ later.itid = row.itid) ∧
      ∀ itid, position itid after index = position itid before index

theorem Grows.refl (rows : List StateRow) : Grows rows rows :=
  fun _ row found => ⟨⟨row, found, rfl⟩, fun _ => rfl⟩

theorem Grows.trans {first second third : List StateRow} (one : Grows first second) (two : Grows second third) :
    Grows first third := by
  intro index row found
  obtain ⟨⟨middle, middleFound, middleItid⟩, middlePlace⟩ := one index row found
  obtain ⟨⟨later, laterFound, laterItid⟩, laterPlace⟩ := two index middle middleFound
  exact ⟨⟨later, laterFound, laterItid.trans middleItid⟩, fun itid => (laterPlace itid).trans (middlePlace itid)⟩

theorem Grows.append (rows more : List StateRow) : Grows rows (rows ++ more) := by
  intro index row found
  have inside := Data.lookup_lt found
  exact ⟨⟨row, by rw [getElem?_append_left inside, found], rfl⟩, fun itid => position_append itid more inside.le⟩

theorem Grows.modify {change : StateRow → StateRow} (keeps : ∀ row, (change row).itid = row.itid)
    (rows : List StateRow) (index : Nat) : Grows rows (rows.modify index change) := by
  intro place row found
  refine ⟨?_, fun itid => position_modify keeps itid rows index place⟩
  by_cases same : index = place
  · exact ⟨change row, by simp [same, found], keeps row⟩
  · exact ⟨row, by simp [same, found], rfl⟩

@[ext]
structure Track where
  rows : List StateRow
  last : Option TPthread
  pending : Option Nat
deriving Repr, DecidableEq

namespace Track

variable (track : Track)

def lastState : Nat :=
  match track.last with
  | some thread => thread.state
  | none => taskInvalid

def closeAt (index ts : Nat) : Track :=
  { track with rows := track.rows.modify index (StateRow.updateDuration ts) }

def closeLast (ts : Nat) : Track :=
  match track.last with
  | some thread => track.closeAt thread.row ts
  | none => track

def append (itid : Nat) (track : Track) (ts cpu state : Nat) : Track :=
  { track with
    rows := track.rows ++ [⟨ts, invalidTime, cpu % 2 ^ 32, itid, stateColumn state⟩]
    last := some ⟨track.rows.length, state⟩ }

def unpend : Track := { track with pending := none }

def check (itid : Nat) (track : Track) : Track :=
  match track.pending with
  | none => track
  | some wakeup =>
    if track.lastState = taskRunning then track.unpend
    else ((track.closeLast wakeup).append itid wakeup invalidCpu taskRunnable).unpend

def switchIn (itid : Nat) (track : Track) (ts cpu : Nat) : Track :=
  ((track.check itid).closeLast ts).append itid ts cpu taskRunning

def changesCpu (hmKernelTraceEnabled : Bool) (track : Track) (ts cpu : Nat) : Bool :=
  match track.last with
  | none => false
  | some thread => (track.rows[thread.row]?.map (CpuFilter.isChangeCpu hmKernelTraceEnabled ts cpu)).getD false

def switchOut (hmKernelTraceEnabled : Bool) (itid : Nat) (track : Track) (ts cpu prevState : Nat) : Track :=
  match track.last with
  | none => track.append itid ts invalidCpu prevState
  | some thread =>
    if track.changesCpu hmKernelTraceEnabled ts cpu then track
    else ((track.check itid).closeAt thread.row ts).append itid ts invalidCpu prevState

def forget : Track := { track with last := none }

def wake (ts : Nat) : Track :=
  if track.pending = none then { track with pending := some ts } else track

end Track

theorem StateRow.updateDuration_itid (ts : Nat) (row : StateRow) : (row.updateDuration ts).itid = row.itid := by
  unfold StateRow.updateDuration
  split <;> rfl

theorem StateRow.updateDuration_of_open {row : StateRow} {ts : Nat} (isOpen : row.isOpen = true)
    (ordered : row.timeStamp ≤ ts) (valid : ts < invalidTime) :
    row.updateDuration ts = { row with duration := ts - row.timeStamp } := by
  have length : (ts + 2 ^ 64 - row.timeStamp) % 2 ^ 64 = ts - row.timeStamp := by
    simp only [invalidTime] at valid
    omega
  rw [StateRow.updateDuration, if_pos isOpen, length]

namespace CpuFilter

variable {filter : CpuFilter} {uid itid ts cpu state : Nat}

def track (filter : CpuFilter) (itid : Nat) : Track where
  rows := rowsOf itid filter.rows
  last := (filter.internalTidToRowThreadState itid).map
    (fun thread => ⟨position itid filter.rows thread.row, thread.state⟩)
  pending := filter.toRunnableTid itid

/-- Remembered rows exist and belong to the thread they are remembered for. -/
structure Valid (filter : CpuFilter) : Prop where
  own : ∀ itid thread, filter.internalTidToRowThreadState itid = some thread →
    ∃ row, filter.rows[thread.row]? = some row ∧ row.itid = itid
  onCpu : ∀ cpu index, filter.cpuToRowThreadState cpu = some index → index < filter.rows.length

theorem Valid.inside (valid : filter.Valid) {thread : TPthread}
    (known : filter.internalTidToRowThreadState itid = some thread) : thread.row < filter.rows.length := by
  obtain ⟨row, found, -⟩ := valid.own itid thread known
  exact Data.lookup_lt found

theorem track_lastState (filter : CpuFilter) (itid : Nat) :
    (filter.track itid).lastState = filter.stateOfInternalTidInStateTable itid := by
  unfold Track.lastState stateOfInternalTidInStateTable track
  cases filter.internalTidToRowThreadState itid <;> rfl

/-- A change for one thread: rows keep their places, and of all tracks only that of the thread changes, as `act`
says. -/
structure ActsOn (itid : Nat) (act : Track → Track) (before after : CpuFilter) : Prop where
  valid : after.Valid
  grows : Grows before.rows after.rows
  cpuToRow : after.cpuToRowThreadState = before.cpuToRowThreadState
  own : after.track itid = act (before.track itid)
  other : ∀ uid, itid ≠ uid → after.track uid = before.track uid

theorem ActsOn.refl (valid : filter.Valid) {act : Track → Track} (still : act (filter.track itid) = filter.track itid) :
    ActsOn itid act filter filter :=
  ⟨valid, Grows.refl _, rfl, still.symm, fun _ _ => rfl⟩

theorem ActsOn.trans {middle after : CpuFilter} {act next : Track → Track} (one : ActsOn itid act filter middle)
    (two : ActsOn itid next middle after) : ActsOn itid (next ∘ act) filter after where
  valid := two.valid
  grows := one.grows.trans two.grows
  cpuToRow := two.cpuToRow.trans one.cpuToRow
  own := by rw [two.own, one.own, comp_apply]
  other := fun uid other => (two.other uid other).trans (one.other uid other)

section Acts

variable (valid : filter.Valid)
include valid

theorem acts_updateDuration {index : Nat} {row : StateRow} (found : filter.rows[index]? = some row)
    (own : row.itid = itid) (ts : Nat) :
    ActsOn itid (·.closeAt (position itid filter.rows index) ts) filter (filter.updateDuration index ts) where
  valid := {
    own := by
      intro uid thread known
      obtain ⟨row, found, own⟩ := valid.own uid thread known
      by_cases same : index = thread.row
      · exact ⟨row.updateDuration ts, by simp [updateDuration, same, found],
          (row.updateDuration_itid ts).trans own⟩
      · exact ⟨row, by simp [updateDuration, same, found], own⟩
    onCpu := by simpa [updateDuration] using valid.onCpu }
  grows := Grows.modify (StateRow.updateDuration_itid ts) filter.rows index
  cpuToRow := rfl
  own := by
    have rows := rowsOf_modify_own found own (StateRow.updateDuration_itid ts)
    have positions := position_modify (StateRow.updateDuration_itid ts) itid filter.rows index
    simp only [track, updateDuration, Track.closeAt, rows, positions]
  other := by
    intro uid other
    have rows := rowsOf_modify_other found (own ▸ other) (StateRow.updateDuration_itid ts)
    have positions := position_modify (StateRow.updateDuration_itid ts) uid filter.rows index
    simp only [track, updateDuration, rows, positions]

theorem acts_updateDurationOf (uid ts : Nat) : ActsOn uid (·.closeLast ts) filter (filter.updateDurationOf uid ts) := by
  unfold updateDurationOf rowOfInternalTidInStateTable
  cases known : filter.internalTidToRowThreadState uid with
  | none => exact .refl valid (by simp [Track.closeLast, track, known])
  | some thread =>
    obtain ⟨row, found, own⟩ := valid.own uid thread known
    have acts := acts_updateDuration valid found own ts
    exact { acts with own := acts.own.trans (by simp [Track.closeLast, track, known]) }

theorem acts_beginState (ts cpu itid state : Nat) :
    ActsOn itid (Track.append itid · ts cpu state) filter (filter.beginState ts cpu itid state) where
  valid := {
    own := by
      intro uid thread known
      simp only [beginState, appendThreadState, remberInternalTidInStateTable] at known ⊢
      by_cases same : uid = itid
      · subst same
        obtain rfl : ⟨filter.rows.length, state⟩ = thread := by simpa using known
        exact ⟨_, getElem?_concat_length, rfl⟩
      · rw [update_of_ne same] at known
        obtain ⟨row, found, own⟩ := valid.own uid thread known
        exact ⟨row, by rw [getElem?_append_left (valid.inside known), found], own⟩
    onCpu := by
      intro cpu index known
      have inside := valid.onCpu cpu index known
      simp only [beginState, appendThreadState, remberInternalTidInStateTable, length_append]
      omega }
  grows := Grows.append filter.rows _
  cpuToRow := rfl
  own := by
    have place : position itid (filter.rows ++ [⟨ts, invalidTime, cpu % 2 ^ 32, itid, stateColumn state⟩])
        filter.rows.length = (rowsOf itid filter.rows).length := by
      rw [position_append itid _ le_rfl, position, take_length]
    simp only [track, beginState, appendThreadState, remberInternalTidInStateTable,
      update_self, Option.map_some, place, rowsOf_append]
    congr 2
    simp [rowsOf]
  other := by
    intro uid other
    have rows : rowsOf uid [⟨ts, invalidTime, cpu % 2 ^ 32, itid, stateColumn state⟩] = [] := by
      simp [rowsOf, other]
    simp only [track, beginState, appendThreadState, remberInternalTidInStateTable,
      update_of_ne other.symm, rowsOf_append, rows, append_nil]
    cases known : filter.internalTidToRowThreadState uid with
    | none => rfl
    | some thread =>
      have inside := (valid.inside known).le
      simp [position_append uid _ inside]

theorem acts_eraseToRunnable (itid : Nat) : ActsOn itid Track.unpend filter (filter.eraseToRunnable itid) where
  valid := ⟨valid.own, valid.onCpu⟩
  grows := Grows.refl _
  cpuToRow := rfl
  own := by simp [track, eraseToRunnable, Track.unpend]
  other := by
    intro uid other
    simp [track, eraseToRunnable, update_of_ne other.symm]

theorem acts_checkWakeupEvent (itid : Nat) : ActsOn itid (Track.check itid) filter (filter.checkWakeupEvent itid) := by
  have pending : (filter.track itid).pending = filter.toRunnableTid itid := rfl
  have state := filter.track_lastState itid
  unfold checkWakeupEvent
  split
  next none => exact .refl valid (by simp [Track.check, pending, none])
  next wakeup some =>
    split
    next running =>
      have acts := acts_eraseToRunnable valid itid
      exact { acts with own := acts.own.trans (by simp [Track.check, pending, some, state, running]) }
    next running =>
      have closed := acts_updateDurationOf valid itid wakeup
      have begun := closed.trans (acts_beginState closed.valid wakeup invalidCpu itid taskRunnable)
      have acts := begun.trans (acts_eraseToRunnable begun.valid itid)
      exact { acts with own := acts.own.trans (by simp [Track.check, pending, some, state, running]) }

end Acts

section OnCpu

theorem endThreadState_fst (filter : CpuFilter) (row : Nat) : (filter.endThreadState row).1 = filter := by
  unfold endThreadState
  split
  · rfl
  next content found =>
    split
    next isOpen =>
      have same : { content with duration := invalidTime } = content := by
        rw [← beq_iff_eq.mp isOpen]
      have unchanged : filter.rows.modify row (fun content => { content with duration := invalidTime }) =
          filter.rows := by
        rw [modify_split found, same, ← split_at found]
      simp only [unchanged]
    · rfl

/-- The thread whose open row on `cpu` a switch-in ends without closing it. -/
def abandoned (filter : CpuFilter) (cpu prevPid : Nat) : Option Nat :=
  match filter.cpuToRowThreadState cpu with
  | none => none
  | some row =>
    match filter.rows[row]? with
    | none => none
    | some content => if content.itid ≠ prevPid ∧ content.isOpen then some content.itid else none

theorem replaceOnCpu_eq (filter : CpuFilter) (cpu prevPid index : Nat) (valid : filter.Valid) :
    filter.replaceOnCpu cpu prevPid index =
      { (match filter.abandoned cpu prevPid with
          | some itid => filter.clearInternalTidInStateTable itid
          | none => filter) with
        cpuToRowThreadState := update filter.cpuToRowThreadState cpu (some index) } := by
  unfold replaceOnCpu abandoned
  cases onCpu : filter.cpuToRowThreadState cpu with
  | none => rfl
  | some row =>
    have inside := valid.onCpu cpu row onCpu
    have found := getElem?_eq_getElem inside
    have ended := filter.endThreadState_fst row
    have closed : (filter.endThreadState row).2 = !filter.rows[row].isOpen := by
      unfold endThreadState
      rw [found]
      cases isOpen : filter.rows[row].isOpen <;> simp [isOpen]
    by_cases other : filter.rows[row].itid ≠ prevPid
    · cases isOpen : filter.rows[row].isOpen with
      | true =>
        have result : filter.endThreadState row = (filter, false) :=
          Prod.ext ended (by rw [closed, isOpen]; rfl)
        simp [found, other, isOpen, result, clearInternalTidInStateTable]
      | false =>
        have result : filter.endThreadState row = (filter, true) :=
          Prod.ext ended (by rw [closed, isOpen]; rfl)
        simp [found, isOpen, result]
    · simp [found, other]

theorem replaceOnCpu_rows (valid : filter.Valid) (cpu prevPid index : Nat) :
    (filter.replaceOnCpu cpu prevPid index).rows = filter.rows ∧
      (filter.replaceOnCpu cpu prevPid index).cpuToRowThreadState =
        update filter.cpuToRowThreadState cpu (some index) := by
  rw [replaceOnCpu_eq filter cpu prevPid index valid]
  cases filter.abandoned cpu prevPid <;> exact ⟨rfl, rfl⟩

theorem valid_replaceOnCpu (valid : filter.Valid) {index : Nat} (inside : index < filter.rows.length)
    (cpu prevPid : Nat) : (filter.replaceOnCpu cpu prevPid index).Valid := by
  rw [replaceOnCpu_eq filter cpu prevPid index valid]
  have onCpu : ∀ other row, update filter.cpuToRowThreadState cpu (some index) other = some row →
      row < filter.rows.length := by
    intro other row known
    by_cases same : other = cpu
    · subst same
      obtain rfl : index = row := by simpa using known
      exact inside
    · rw [update_of_ne same] at known
      exact valid.onCpu other row known
  cases filter.abandoned cpu prevPid with
  | none => exact ⟨valid.own, onCpu⟩
  | some itid =>
    refine ⟨?_, onCpu⟩
    intro uid thread known
    simp only [clearInternalTidInStateTable] at known ⊢
    by_cases same : uid = itid
    · simp [same] at known
    · rw [update_of_ne same] at known
      exact valid.own uid thread known

theorem track_replaceOnCpu (valid : filter.Valid) (cpu prevPid index itid : Nat) :
    (filter.replaceOnCpu cpu prevPid index).track itid =
      if filter.abandoned cpu prevPid = some itid then (filter.track itid).forget else filter.track itid := by
  rw [replaceOnCpu_eq filter cpu prevPid index valid]
  cases filter.abandoned cpu prevPid with
  | none => rfl
  | some other =>
    by_cases same : other = itid
    · subst same
      simp [track, clearInternalTidInStateTable, Track.forget]
    · have different : ¬ some other = some itid := by simpa using same
      rw [if_neg different]
      simp [track, clearInternalTidInStateTable, update_of_ne (Ne.symm same)]

end OnCpu

section SwitchEvents

/-- The filter in the middle of a switch-in, before it looks at the cpu. -/
def switchedIn (filter : CpuFilter) (ts cpu nextPid : Nat) : CpuFilter :=
  ((filter.checkWakeupEvent nextPid).updateDurationOf nextPid ts).beginState ts cpu nextPid taskRunning

theorem acts_switchedIn (valid : filter.Valid) (ts cpu nextPid : Nat) :
    ActsOn nextPid (Track.switchIn nextPid · ts cpu) filter (filter.switchedIn ts cpu nextPid) := by
  have checked := acts_checkWakeupEvent valid nextPid
  have closed := checked.trans (acts_updateDurationOf checked.valid nextPid ts)
  exact closed.trans (acts_beginState closed.valid ts cpu nextPid taskRunning)

theorem valid_procNextPidSwitchEvent (valid : filter.Valid) (ts cpu prevPid nextPid : Nat) :
    (filter.procNextPidSwitchEvent ts cpu prevPid nextPid).Valid :=
  valid_replaceOnCpu (acts_switchedIn valid ts cpu nextPid).valid (by simp [switchedIn, beginState, appendThreadState, remberInternalTidInStateTable]) cpu prevPid

theorem track_procNextPidSwitchEvent (valid : filter.Valid) (ts cpu prevPid nextPid itid : Nat) :
    (filter.procNextPidSwitchEvent ts cpu prevPid nextPid).track itid =
      if (filter.switchedIn ts cpu nextPid).abandoned cpu prevPid = some itid then
        ((filter.switchedIn ts cpu nextPid).track itid).forget else (filter.switchedIn ts cpu nextPid).track itid :=
  track_replaceOnCpu (acts_switchedIn valid ts cpu nextPid).valid cpu prevPid _ itid

theorem procNextPidSwitchEvent_rows (valid : filter.Valid) (ts cpu prevPid nextPid : Nat) :
    (filter.procNextPidSwitchEvent ts cpu prevPid nextPid).rows = (filter.switchedIn ts cpu nextPid).rows :=
  (replaceOnCpu_rows (acts_switchedIn valid ts cpu nextPid).valid cpu prevPid _).1

theorem procNextPidSwitchEvent_cpuToRow (valid : filter.Valid) (ts cpu prevPid nextPid : Nat) :
    (filter.procNextPidSwitchEvent ts cpu prevPid nextPid).cpuToRowThreadState =
      update filter.cpuToRowThreadState cpu
        (some ((filter.checkWakeupEvent nextPid).updateDurationOf nextPid ts).rows.length) := by
  rw [← (acts_switchedIn valid ts cpu nextPid).cpuToRow]
  exact (replaceOnCpu_rows (acts_switchedIn valid ts cpu nextPid).valid cpu prevPid _).2

variable {hmKernel : Bool}

theorem acts_procPrevPidSwitchEvent (valid : filter.Valid) (ts cpu prevPid prevState : Nat) :
    ActsOn prevPid (Track.switchOut hmKernel prevPid · ts cpu prevState) filter
      (filter.procPrevPidSwitchEvent hmKernel ts cpu prevPid prevState) := by
  unfold procPrevPidSwitchEvent rowOfInternalTidInStateTable
  cases known : filter.internalTidToRowThreadState prevPid with
  | none =>
    have acts := acts_beginState valid ts invalidCpu prevPid prevState
    exact { acts with own := acts.own.trans (by simp [Track.switchOut, track, known]) }
  | some thread =>
    obtain ⟨row, found, own⟩ := valid.own prevPid thread known
    have last : (filter.track prevPid).last = some ⟨position prevPid filter.rows thread.row, thread.state⟩ := by
      simp [track, known]
    have seen : (filter.track prevPid).rows[position prevPid filter.rows thread.row]? = some row :=
      rowsOf_get found own
    have changes : (filter.track prevPid).changesCpu hmKernel ts cpu =
        isChangeCpu hmKernel ts cpu row := by
      simp [Track.changesCpu, last, seen]
    simp only [Option.map_some, found, Option.getD_some]
    split
    next moved => exact .refl valid (by simp [Track.switchOut, last, changes, moved])
    next stays =>
      have checked := acts_checkWakeupEvent valid prevPid
      obtain ⟨⟨after, afterFound, afterItid⟩, place⟩ := checked.grows _ row found
      have closed := checked.trans (acts_updateDuration checked.valid afterFound (afterItid.trans own) ts)
      have acts := closed.trans (acts_beginState closed.valid ts invalidCpu prevPid prevState)
      exact { acts with own := acts.own.trans (by simp [Track.switchOut, last, changes, stays, place]) }

end SwitchEvents

section Inserts

variable {hmKernel : Bool}

theorem valid_insertSchedSlice (valid : filter.Valid) (ts cpu prevState nextPid : Nat) (nextPrio : Int) :
    (filter.insertSchedSlice ts cpu prevState nextPid nextPrio).Valid :=
  ⟨valid.own, valid.onCpu⟩

def betweenHalves (filter : CpuFilter) (ts cpu prevPid prevState nextPid : Nat) (nextPrio : Int) : CpuFilter :=
  let sliced := filter.insertSchedSlice ts cpu prevState nextPid nextPrio
  if nextPid ≠ 0 then sliced.procNextPidSwitchEvent ts cpu prevPid nextPid else sliced

variable (valid : filter.Valid) (ts cpu prevPid prevState nextPid : Nat) (nextPrio : Int)
include valid

theorem valid_betweenHalves : (filter.betweenHalves ts cpu prevPid prevState nextPid nextPrio).Valid := by
  have sliced := valid_insertSchedSlice valid ts cpu prevState nextPid nextPrio
  unfold betweenHalves
  split
  · exact valid_procNextPidSwitchEvent sliced ts cpu prevPid nextPid
  · exact sliced

variable (hmKernel) in
theorem acts_secondHalf :
    ActsOn prevPid
      (fun track => if prevPid ≠ 0 then track.switchOut hmKernel prevPid ts cpu prevState else track)
      (filter.betweenHalves ts cpu prevPid prevState nextPid nextPrio)
      (filter.insertSwitchEvent hmKernel ts cpu prevPid prevState nextPid nextPrio) := by
  have between := valid_betweenHalves valid ts cpu prevPid prevState nextPid nextPrio
  change ActsOn _ _ _ (if prevPid ≠ 0 then procPrevPidSwitchEvent hmKernel _ ts cpu prevPid prevState else _)
  split
  · exact acts_procPrevPidSwitchEvent between ts cpu prevPid prevState
  · exact .refl between rfl

theorem valid_insertSwitchEvent :
    (filter.insertSwitchEvent hmKernel ts cpu prevPid prevState nextPid nextPrio).Valid :=
  (acts_secondHalf hmKernel valid ts cpu prevPid prevState nextPid nextPrio).valid

theorem track_insertSwitchEvent (itid : Nat) :
    (filter.insertSwitchEvent hmKernel ts cpu prevPid prevState nextPid nextPrio).track itid =
      let between := (filter.betweenHalves ts cpu prevPid prevState nextPid nextPrio).track itid
      if prevPid ≠ 0 ∧ prevPid = itid then between.switchOut hmKernel itid ts cpu prevState
      else between := by
  have acts := acts_secondHalf hmKernel valid ts cpu prevPid prevState nextPid nextPrio
  by_cases own : prevPid = itid
  · subst own
    rw [acts.own]
    simp
  · rw [acts.other itid own]
    simp [own]

theorem grows_insertSwitchEvent :
    Grows filter.rows
      (filter.insertSwitchEvent hmKernel ts cpu prevPid prevState nextPid nextPrio).rows := by
  have sliced := valid_insertSchedSlice valid ts cpu prevState nextPid nextPrio
  refine Grows.trans ?_ (acts_secondHalf hmKernel valid ts cpu prevPid prevState nextPid nextPrio).grows
  unfold betweenHalves
  split
  · rw [procNextPidSwitchEvent_rows sliced]
    exact (acts_switchedIn sliced ts cpu nextPid).grows
  · exact Grows.refl _

variable {nextPid} in
theorem insertSwitchEvent_onCpu (nonzero : nextPid ≠ 0) :
    ∃ index row,
      (filter.insertSwitchEvent hmKernel ts cpu prevPid prevState nextPid nextPrio).cpuToRowThreadState =
        update filter.cpuToRowThreadState cpu (some index) ∧
      (filter.insertSwitchEvent hmKernel ts cpu prevPid prevState nextPid nextPrio).rows[index]? =
        some row ∧ row.itid = nextPid := by
  have sliced := valid_insertSchedSlice valid ts cpu prevState nextPid nextPrio
  have rows := procNextPidSwitchEvent_rows sliced ts cpu prevPid nextPid
  have onCpu := procNextPidSwitchEvent_cpuToRow sliced ts cpu prevPid nextPid
  have between : filter.betweenHalves ts cpu prevPid prevState nextPid nextPrio =
      (filter.insertSchedSlice ts cpu prevState nextPid nextPrio).procNextPidSwitchEvent ts cpu prevPid nextPid :=
    if_pos nonzero
  have appended : (filter.betweenHalves ts cpu prevPid prevState nextPid nextPrio).rows[
      (((filter.insertSchedSlice ts cpu prevState nextPid nextPrio).checkWakeupEvent nextPid).updateDurationOf
        nextPid ts).rows.length]? = some ⟨ts, invalidTime, cpu % 2 ^ 32, nextPid, stateColumn taskRunning⟩ := by
    rw [between, rows]
    exact getElem?_concat_length
  have acts := acts_secondHalf hmKernel valid ts cpu prevPid prevState nextPid nextPrio
  obtain ⟨⟨row, found, own⟩, -⟩ := acts.grows _ _ appended
  exact ⟨_, row, by rw [acts.cpuToRow, between, onCpu]; rfl, found, own⟩

theorem insertSwitchEvent_cpuToRow_idle :
    (filter.insertSwitchEvent hmKernel ts cpu prevPid prevState 0 nextPrio).cpuToRowThreadState =
      filter.cpuToRowThreadState :=
  (acts_secondHalf hmKernel valid ts cpu prevPid prevState 0 nextPrio).cpuToRow

end Inserts

section Wakeups

theorem valid_insertWakeupEvent (valid : filter.Valid) (ts itid : Nat) (isWaking : Bool) :
    (filter.insertWakeupEvent ts itid isWaking).Valid := by
  unfold insertWakeupEvent
  split
  · exact ⟨valid.own, valid.onCpu⟩
  · exact valid

theorem track_insertWakeupEvent_own (filter : CpuFilter) (ts itid : Nat) :
    (filter.insertWakeupEvent ts itid false).track itid = (filter.track itid).wake ts := by
  by_cases none : filter.toRunnableTid itid = none
  · simp [insertWakeupEvent, Track.wake, track, none]
  · simp [insertWakeupEvent, Track.wake, track, none]

theorem track_insertWakeupEvent_other (filter : CpuFilter) (other : uid ≠ itid) (ts : Nat) (isWaking : Bool) :
    (filter.insertWakeupEvent ts uid isWaking).track itid = filter.track itid := by
  unfold insertWakeupEvent
  split
  · simp [track, update_of_ne other.symm]
  · rfl

theorem insertWakeupEvent_rows (filter : CpuFilter) (ts uid : Nat) (isWaking : Bool) :
    (filter.insertWakeupEvent ts uid isWaking).rows = filter.rows ∧
      (filter.insertWakeupEvent ts uid isWaking).cpuToRowThreadState = filter.cpuToRowThreadState := by
  unfold insertWakeupEvent
  split <;> exact ⟨rfl, rfl⟩

end Wakeups

end CpuFilter

end SmartPerf.Sched
