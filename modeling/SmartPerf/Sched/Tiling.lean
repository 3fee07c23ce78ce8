import SmartPerf.Sched.Track

namespace SmartPerf.Sched

open List Track CpuFilter

/-! The rows of a well-formed run of switches and wakeups.

A `Schedule` is what such a run means: which thread each cpu runs, and for every
thread the intervals it has gone through and the one it is in. -/

/-- The interval a thread is in. -/
inductive Phase where
  | unseen
  | running (since cpu : Nat)
  | out (since state : Nat) (woken : Option Nat)
deriving Repr, DecidableEq

structure History where
  closed : List StateRow := []
  phase : Phase := .unseen
deriving Repr, DecidableEq

namespace History

variable (history : History) (itid : Nat)

def isRunning : Bool :=
  match history.phase with
  | .running .. => true
  | _ => false

def isOut : Bool :=
  match history.phase with
  | .out .. => true
  | _ => false

def switchIn (history : History) (ts cpu : Nat) : History :=
  match history.phase with
  | .out since state none =>
    ⟨history.closed ++ [⟨since, ts - since, invalidCpu, itid, stateColumn state⟩], .running ts cpu⟩
  | .out since state (some woken) =>
    ⟨history.closed ++ [⟨since, woken - since, invalidCpu, itid, stateColumn state⟩,
      ⟨woken, ts - woken, invalidCpu, itid, taskRunnable⟩], .running ts cpu⟩
  | _ => { history with phase := .running ts cpu }

def switchOut (history : History) (ts prevState : Nat) : History :=
  match history.phase with
  | .running since cpu =>
    ⟨history.closed ++ [⟨since, ts - since, cpu, itid, taskRunning⟩], .out ts prevState none⟩
  | _ => history

def wake (ts : Nat) : History :=
  match history.phase with
  | .out since state none => { history with phase := .out since state (some ts) }
  | _ => history

/-- The rows of the thread.  A wakeup is remembered until the next switch-in:
until then the recorded state is the last row. -/
def rows (history : History) : List StateRow :=
  match history.phase with
  | .unseen => history.closed
  | .running since cpu => history.closed ++ [⟨since, invalidTime, cpu, itid, taskRunning⟩]
  | .out since state _ => history.closed ++ [⟨since, invalidTime, invalidCpu, itid, stateColumn state⟩]

/-- The rows of the thread if a wakeup ended the recorded state at once. -/
def rowsWithWakeup (history : History) : List StateRow :=
  match history.phase with
  | .out since state (some woken) =>
    history.closed ++ [⟨since, woken - since, invalidCpu, itid, stateColumn state⟩,
      ⟨woken, invalidTime, invalidCpu, itid, taskRunnable⟩]
  | _ => history.rows itid

end History

structure Schedule where
  now : Nat := 0
  running : Nat → Nat := fun _ => 0
  history : Nat → History := fun _ => {}

namespace Schedule

variable (schedule : Schedule)

def switch (ts cpu prevPid prevState nextPid : Nat) : Schedule where
  now := ts
  running := Function.update schedule.running cpu nextPid
  history := fun itid =>
    if itid = nextPid then (schedule.history itid).switchIn itid ts cpu
    else if itid = prevPid then (schedule.history itid).switchOut itid ts prevState
    else schedule.history itid

def wakeup (ts itid : Nat) : Schedule :=
  { schedule with
    now := ts
    history := fun other => if other = itid then (schedule.history other).wake ts else schedule.history other }

def insert : SchedEvent → Schedule
  | .switch ts cpu prevPid prevState nextPid _ =>
    schedule.switch ts.val cpu.toNat prevPid.toNat prevState.toNat nextPid.toNat
  | .wakeup ts internalTid => schedule.wakeup ts.val internalTid.toNat

/-- The cpu switches away from the thread it runs and to one that runs nowhere;
a wakeup meets a thread that is switched out.  Thread zero is the idle one. -/
def Allows : SchedEvent → Prop
  | .switch ts cpu prevPid _ nextPid _ =>
    schedule.now ≤ ts.val ∧ schedule.running cpu.toNat = prevPid.toNat ∧
      (nextPid.toNat = 0 ∨ (schedule.history nextPid.toNat).isRunning = false)
  | .wakeup ts internalTid =>
    schedule.now ≤ ts.val ∧ (internalTid.toNat = 0 ∨ (schedule.history internalTid.toNat).isOut = true)

instance (schedule : Schedule) (event : SchedEvent) : Decidable (schedule.Allows event) := by
  cases event <;> dsimp only [Allows] <;> infer_instance

def run (events : List SchedEvent) : Schedule := events.foldl insert schedule

def WellFormed : Schedule → List SchedEvent → Prop
  | _, [] => True
  | schedule, event :: rest => schedule.Allows event ∧ (schedule.insert event).WellFormed rest

instance decidableWellFormed : (schedule : Schedule) → (events : List SchedEvent) →
    Decidable (schedule.WellFormed events)
  | _, [] => .isTrue trivial
  | schedule, event :: rest =>
    have := decidableWellFormed (schedule.insert event) rest
    inferInstanceAs (Decidable (schedule.Allows event ∧ (schedule.insert event).WellFormed rest))

end Schedule

/-- A switch records a state other than the one that marks a running thread. -/
def SchedEvent.recordsState : SchedEvent → Prop
  | .switch _ _ _ prevState _ _ => prevState.toNat ≠ taskRunning
  | .wakeup .. => True

instance (event : SchedEvent) : Decidable event.recordsState := by
  cases event <;> dsimp only [SchedEvent.recordsState] <;> infer_instance

/-- The earlier row is closed and ends where the later one starts. -/
def Adjoins (earlier later : StateRow) : Prop :=
  earlier.isOpen = false ∧ earlier.timeStamp + earlier.duration = later.timeStamp

/-- Rows that leave no gap, do not overlap and of which only the last is open. -/
def Tiles (rows : List StateRow) : Prop :=
  rows.IsChain Adjoins ∧ ∀ row ∈ rows.getLast?, row.isOpen = true

section Chains

variable {front : List StateRow} {row : StateRow}

/-- The open row ends at `ts` and another one follows. -/
theorem isChain_close {start ts cpu itid column : Nat} (ordered : start ≤ ts) (valid : ts < invalidTime)
    (chain : (front ++ [StateRow.mk start invalidTime cpu itid column]).IsChain Adjoins) (duration nextCpu next : Nat) :
    ((front ++ [StateRow.mk start (ts - start) cpu itid column]) ++
      [StateRow.mk ts duration nextCpu itid next]).IsChain Adjoins := by
  have closed : StateRow.isOpen ⟨start, ts - start, cpu, itid, column⟩ = false := by
    simp only [StateRow.isOpen, beq_eq_false_iff_ne]
    omega
  simp only [isChain_append, List.IsChain.singleton, head?_cons, getLast?_append, getLast?_singleton,
    Option.some_or, Option.mem_some_iff, forall_eq'] at chain ⊢
  exact ⟨chain, trivial, closed, Nat.add_sub_cancel' ordered⟩

theorem closed_of_isChain (chain : (front ++ [row]).IsChain Adjoins) : ∀ earlier ∈ front, earlier.isOpen = false := by
  induction front with
  | nil => simp
  | cons first rest ih =>
    intro earlier member
    cases rest with
    | nil =>
      obtain rfl : earlier = first := by simpa using member
      exact (isChain_cons_cons.mp chain).1.1
    | cons second rest =>
      obtain ⟨joined, tail⟩ := isChain_cons_cons.mp chain
      rcases mem_cons.mp member with rfl | later
      · exact joined.1
      · exact ih tail earlier later

end Chains

namespace History

variable {itid now ts cpu prevState : Nat} {history : History}

def track (itid : Nat) (history : History) : Track where
  rows := history.rows itid
  last :=
    match history.phase with
    | .unseen => none
    | .running .. => some ⟨history.closed.length, taskRunning⟩
    | .out _ state _ => some ⟨history.closed.length, state⟩
  pending :=
    match history.phase with
    | .out _ _ woken => woken
    | _ => none

/-- The intervals follow each other and none starts after `now`. -/
structure WellTimed (itid now : Nat) (history : History) : Prop where
  chain : (history.rows itid).IsChain Adjoins
  unseen : history.phase = .unseen → history.closed = []
  running : ∀ since cpu, history.phase = .running since cpu → since ≤ now ∧ cpu < 2 ^ 32
  out : ∀ since state woken, history.phase = .out since state woken →
    since ≤ now ∧ state ≠ taskRunning ∧ ∀ wakeup ∈ woken, since ≤ wakeup ∧ wakeup ≤ now

theorem WellTimed.later (timed : history.WellTimed itid now) {after : Nat} (forward : now ≤ after) :
    history.WellTimed itid after where
  chain := timed.chain
  unseen := timed.unseen
  running := by
    intro since cpu phase
    have bounds := timed.running since cpu phase
    omega
  out := by
    intro since state woken phase
    obtain ⟨started, recorded, wakeups⟩ := timed.out since state woken phase
    exact ⟨by omega, recorded, fun wakeup member => ⟨(wakeups wakeup member).1,
      (wakeups wakeup member).2.trans forward⟩⟩

theorem closeLast_concat {start : Nat} (ordered : start ≤ ts) (valid : ts < invalidTime)
    (front : List StateRow) (cpu itid column state : Nat) (pending : Option Nat) :
    closeLast ⟨front ++ [⟨start, invalidTime, cpu, itid, column⟩], some ⟨front.length, state⟩, pending⟩ ts =
      ⟨front ++ [⟨start, ts - start, cpu, itid, column⟩], some ⟨front.length, state⟩, pending⟩ := by
  have closes := StateRow.updateDuration_of_open
    (show StateRow.isOpen ⟨start, invalidTime, cpu, itid, column⟩ = true by simp [StateRow.isOpen]) ordered valid
  simp only [closeLast, closeAt, modify_middle, closes]

theorem stateColumn_running : stateColumn taskRunning = taskRunning := by decide

theorem stateColumn_runnable : stateColumn taskRunnable = taskRunnable := by decide

theorem invalidCpu_narrow : invalidCpu % 2 ^ 32 = invalidCpu := by decide

section Switch

variable (timed : history.WellTimed itid now) (forward : now ≤ ts) (valid : ts < invalidTime)
include timed forward valid

theorem track_switchIn (small : cpu < 2 ^ 32) (idle : history.isRunning = false) :
    (history.track itid).switchIn itid ts cpu = (history.switchIn itid ts cpu).track itid := by
  have narrow : cpu % 2 ^ 32 = cpu := Nat.mod_eq_of_lt small
  obtain ⟨closed, phase⟩ := history
  cases phase with
  | unseen =>
    simp only [Track.switchIn, check, track, closeLast, Track.append, switchIn, rows, narrow, stateColumn_running]
  | running since cpu => simp [isRunning] at idle
  | out since state woken =>
    obtain ⟨started, recorded, wakeups⟩ := timed.out since state woken rfl
    cases woken with
    | none =>
      simp only [Track.switchIn, check, track, rows, closeLast_concat (started.trans forward) valid,
        Track.append, switchIn, narrow, stateColumn_running]
    | some wakeup =>
      obtain ⟨after, before⟩ := wakeups wakeup rfl
      have inTime : wakeup < invalidTime := by omega
      simp only [Track.switchIn, check, track, rows, lastState, if_neg recorded, closeLast_concat after inTime,
        Track.append, unpend, invalidCpu_narrow, stateColumn_runnable]
      rw [closeLast_concat (before.trans forward) valid]
      simp only [narrow, stateColumn_running, switchIn, append_assoc, cons_append, nil_append]

theorem wellTimed_switchIn (small : cpu < 2 ^ 32) (idle : history.isRunning = false) :
    (history.switchIn itid ts cpu).WellTimed itid ts := by
  obtain ⟨closed, phase⟩ := history
  have chain := timed.chain
  cases phase with
  | unseen =>
    obtain rfl : closed = [] := timed.unseen rfl
    exact ⟨List.IsChain.singleton _, nofun, fun _ _ same => by cases same; exact ⟨le_rfl, small⟩, nofun⟩
  | running since cpu => simp [isRunning] at idle
  | out since state woken =>
    obtain ⟨started, recorded, wakeups⟩ := timed.out since state woken rfl
    refine ⟨?_, by cases woken <;> nofun, fun _ _ same => ?_, by cases woken <;> nofun⟩
    · cases woken with
      | none =>
        have joined := isChain_close (started.trans forward) valid chain invalidTime cpu taskRunning
        simpa [switchIn, rows] using joined
      | some wakeup =>
        obtain ⟨after, before⟩ := wakeups wakeup rfl
        have woken := isChain_close after (by omega) chain invalidTime invalidCpu taskRunnable
        have joined := isChain_close (before.trans forward) valid woken invalidTime cpu taskRunning
        simpa [switchIn, rows] using joined
    · cases woken <;> cases same <;> exact ⟨le_rfl, small⟩

theorem track_switchOut {since : Nat} (runs : history.phase = .running since cpu) (hmKernel : Bool) :
    (history.track itid).switchOut hmKernel itid ts cpu prevState =
      (history.switchOut itid ts prevState).track itid := by
  obtain ⟨closed, phase⟩ := history
  cases runs
  obtain ⟨started, small⟩ := timed.running since cpu rfl
  have stays : changesCpu hmKernel (track itid ⟨closed, .running since cpu⟩) ts cpu = false := by
    simp [changesCpu, track, rows, isChangeCpu]
  have unchecked : check itid (track itid ⟨closed, .running since cpu⟩) =
      track itid ⟨closed, .running since cpu⟩ := rfl
  have closes := closeLast_concat (started.trans forward) valid closed cpu itid taskRunning taskRunning none
  simp only [closeLast] at closes
  simp only [Track.switchOut, stays, unchecked]
  simp only [track, rows, Bool.false_eq_true, if_false, closes, Track.append, switchOut, invalidCpu_narrow]

theorem wellTimed_switchOut {since : Nat} (runs : history.phase = .running since cpu)
    (recorded : prevState ≠ taskRunning) : (history.switchOut itid ts prevState).WellTimed itid ts := by
  obtain ⟨closed, phase⟩ := history
  cases runs
  obtain ⟨started, small⟩ := timed.running since cpu rfl
  refine ⟨?_, nofun, nofun, fun _ _ _ same => by cases same; exact ⟨le_rfl, recorded, nofun⟩⟩
  exact isChain_close (started.trans forward) valid timed.chain _ _ _

end Switch

theorem track_wake (isOut : history.isOut = true) : (history.track itid).wake ts = (history.wake ts).track itid := by
  obtain ⟨closed, phase⟩ := history
  cases phase with
  | unseen => simp [History.isOut] at isOut
  | running since cpu => simp [History.isOut] at isOut
  | out since state woken => cases woken <;> rfl

theorem wellTimed_wake (timed : history.WellTimed itid now) (forward : now ≤ ts) (isOut : history.isOut = true) :
    (history.wake ts).WellTimed itid ts := by
  obtain ⟨closed, phase⟩ := history
  cases phase with
  | unseen => simp [History.isOut] at isOut
  | running since cpu => simp [History.isOut] at isOut
  | out since state woken =>
    cases woken with
    | some wakeup => exact timed.later forward
    | none =>
      obtain ⟨started, recorded, -⟩ := timed.out since state none rfl
      refine ⟨timed.chain, nofun, nofun, ?_⟩
      intro _ _ _ same
      cases same
      exact ⟨by omega, recorded, fun wakeup same => by cases same; exact ⟨by omega, le_rfl⟩⟩

end History

namespace History

variable {itid now index ts cpu prevState : Nat} {history : History} {row : StateRow}

section
variable (history : History)

theorem closed_le_switchIn (itid ts cpu : Nat) : history.closed.length ≤ (history.switchIn itid ts cpu).closed.length := by
  obtain ⟨closed, phase⟩ := history
  cases phase with
  | unseen => exact le_rfl
  | running since cpu => exact le_rfl
  | out since state woken => cases woken <;> simp [switchIn]

theorem closed_le_switchOut (itid ts prevState : Nat) :
    history.closed.length ≤ (history.switchOut itid ts prevState).closed.length := by
  obtain ⟨closed, phase⟩ := history
  cases phase <;> simp [switchOut]

theorem closed_wake (ts : Nat) : (history.wake ts).closed = history.closed := by
  obtain ⟨closed, phase⟩ := history
  cases phase with
  | unseen => rfl
  | running since cpu => rfl
  | out since state woken => cases woken <;> rfl

theorem rows_length_le (itid : Nat) : (history.rows itid).length ≤ history.closed.length + 1 := by
  obtain ⟨closed, phase⟩ := history
  cases phase <;> simp [rows]

end

theorem WellTimed.isOpen_false (timed : history.WellTimed itid now) (early : index < history.closed.length)
    (found : (history.rows itid)[index]? = some row) : row.isOpen = false := by
  obtain ⟨closed, phase⟩ := history
  have chain := timed.chain
  have inClosed : ∀ last, (closed ++ [last])[index]? = some row → row ∈ closed := by
    intro last lookup
    rw [getElem?_append_left early] at lookup
    exact mem_of_getElem? lookup
  cases phase with
  | unseen =>
    obtain rfl : closed = [] := timed.unseen rfl
    simp at early
  | running since cpu => exact closed_of_isChain chain row (inClosed _ found)
  | out since state woken => exact closed_of_isChain chain row (inClosed _ found)

end History

/-- The filter holds what the schedule says.  The row remembered for a cpu is
closed unless its thread still runs there. -/
structure Follows (filter : CpuFilter) (schedule : Schedule) : Prop where
  valid : filter.Valid
  tracks : ∀ itid, itid ≠ 0 → filter.track itid = (schedule.history itid).track itid
  timed : ∀ itid, itid ≠ 0 → (schedule.history itid).WellTimed itid schedule.now
  runs : ∀ cpu, schedule.running cpu ≠ 0 →
    ∃ since, (schedule.history (schedule.running cpu)).phase = .running since cpu
  rowOnCpu : ∀ cpu index, filter.cpuToRowThreadState cpu = some index →
    ∃ row, filter.rows[index]? = some row ∧ row.itid ≠ 0 ∧
      (row.itid ≠ schedule.running cpu →
        position row.itid filter.rows index < (schedule.history row.itid).closed.length)

theorem follows_initial : Follows {} {} where
  valid := ⟨nofun, nofun⟩
  tracks := fun _ _ => rfl
  timed := fun _ _ => ⟨List.IsChain.nil, fun _ => rfl, nofun, nofun⟩
  runs := fun _ running => absurd rfl running
  rowOnCpu := nofun

namespace Follows

variable {filter : CpuFilter} {schedule : Schedule} {ts cpu prevPid prevState nextPid : Nat} {nextPrio : Int}

theorem history_switch (schedule : Schedule) (ts cpu prevPid prevState nextPid itid : Nat) :
    (schedule.history itid).closed.length ≤
      ((schedule.switch ts cpu prevPid prevState nextPid).history itid).closed.length := by
  simp only [Schedule.switch]
  split
  · exact History.closed_le_switchIn _ _ _ _
  · split
    · exact History.closed_le_switchOut _ _ _ _
    · exact le_rfl

section

variable (follows : Follows filter schedule) (forward : schedule.now ≤ ts) (valid : ts < invalidTime)
  (small : cpu < 2 ^ 32) (leaves : schedule.running cpu = prevPid)
include follows

theorem rows {itid : Nat} (nonzero : itid ≠ 0) : rowsOf itid filter.rows = (schedule.history itid).rows itid :=
  congrArg Track.rows (follows.tracks itid nonzero)

theorem insertSchedSlice : Follows (filter.insertSchedSlice ts cpu prevState nextPid nextPrio) schedule :=
  ⟨valid_insertSchedSlice follows.valid .., follows.tracks, follows.timed, follows.runs, follows.rowOnCpu⟩

include leaves

include forward valid small in
theorem not_abandoned (idle : (schedule.history nextPid).isRunning = false) :
    (filter.switchedIn ts cpu nextPid).abandoned cpu prevPid = none := by
  unfold abandoned
  rw [(acts_switchedIn follows.valid ts cpu nextPid).cpuToRow]
  cases onCpu : filter.cpuToRowThreadState cpu with
  | none => rfl
  | some index =>
    obtain ⟨row, found, nonzero, earlier⟩ := follows.rowOnCpu cpu index onCpu
    obtain ⟨⟨later, laterFound, laterItid⟩, place⟩ :=
      (acts_switchedIn follows.valid ts cpu nextPid).grows index row found
    simp only [laterFound]
    rw [if_neg]
    rintro ⟨other, isOpen⟩
    rw [laterItid] at other
    have early := earlier (by rw [leaves]; exact other)
    have seen := rowsOf_get laterFound laterItid
    rw [place row.itid] at seen
    have timed := follows.timed row.itid nonzero
    by_cases own : nextPid = row.itid
    · have tracked := (acts_switchedIn follows.valid ts cpu nextPid).own
      rw [own, follows.tracks row.itid nonzero,
        History.track_switchIn timed forward valid small (own ▸ idle)] at tracked
      have rows : rowsOf row.itid (filter.switchedIn ts cpu row.itid).rows =
          ((schedule.history row.itid).switchIn row.itid ts cpu).rows row.itid := congrArg Track.rows tracked
      rw [own, rows] at seen
      have closed := (History.wellTimed_switchIn timed forward valid small (own ▸ idle)).isOpen_false
        (early.trans_le (History.closed_le_switchIn _ _ _ _)) seen
      simp [closed] at isOpen
    · have tracked := (acts_switchedIn follows.valid ts cpu nextPid).other _ own
      rw [follows.tracks row.itid nonzero] at tracked
      have rows : rowsOf row.itid (filter.switchedIn ts cpu nextPid).rows =
          (schedule.history row.itid).rows row.itid := congrArg Track.rows tracked
      rw [rows] at seen
      have closed := timed.isOpen_false early seen
      simp [closed] at isOpen

theorem leaves_running (nonzero : prevPid ≠ 0) : ∃ since, (schedule.history prevPid).phase = .running since cpu := by
  subst leaves
  exact follows.runs cpu nonzero

variable (idle : nextPid = 0 ∨ (schedule.history nextPid).isRunning = false) (hmKernel : Bool)

include idle in
theorem prev_ne_next (nonzero : prevPid ≠ 0) : prevPid ≠ nextPid := by
  rintro rfl
  obtain ⟨since, phase⟩ := follows.leaves_running leaves nonzero
  rcases idle with zero | stopped
  · exact nonzero zero
  · simp [History.isRunning, phase] at stopped

include forward valid small idle in
theorem track_betweenHalves {itid : Nat} (nonzero : itid ≠ 0) :
    (filter.betweenHalves ts cpu prevPid prevState nextPid nextPrio).track itid =
      if itid = nextPid then ((schedule.history itid).switchIn itid ts cpu).track itid
      else (schedule.history itid).track itid := by
  have sliced : Follows (filter.insertSchedSlice ts cpu prevState nextPid nextPrio) schedule :=
    follows.insertSchedSlice
  by_cases zero : nextPid = 0
  · have other : itid ≠ nextPid := by rw [zero]; exact nonzero
    rw [if_neg other]
    simp only [zero]
    exact sliced.tracks itid nonzero
  · have stopped := idle.resolve_left zero
    have kept := sliced.not_abandoned forward valid small leaves stopped
    rw [betweenHalves]
    simp only [ne_eq, zero, not_false_eq_true, if_true]
    rw [track_procNextPidSwitchEvent sliced.valid, kept, if_neg nofun]
    by_cases own : itid = nextPid
    · subst own
      rw [if_pos rfl, (acts_switchedIn sliced.valid ..).own, sliced.tracks itid nonzero,
        History.track_switchIn (follows.timed itid nonzero) forward valid small stopped]
    · rw [if_neg own, (acts_switchedIn sliced.valid ..).other itid (Ne.symm own), sliced.tracks itid nonzero]

theorem rowOnCpu_kept {hmKernel : Bool} {other index : Nat}
    (onCpu : filter.cpuToRowThreadState other = some index) (place : other ≠ cpu ∨ (other = cpu ∧ nextPid = 0)) :
    ∃ row,
      (filter.insertSwitchEvent hmKernel ts cpu prevPid prevState nextPid nextPrio).rows[index]? =
        some row ∧ row.itid ≠ 0 ∧
      (row.itid ≠ (schedule.switch ts cpu prevPid prevState nextPid).running other → position row.itid
            (filter.insertSwitchEvent hmKernel ts cpu prevPid prevState nextPid nextPrio).rows index <
          ((schedule.switch ts cpu prevPid prevState nextPid).history row.itid).closed.length) := by
  obtain ⟨row, found, nonzero, earlier⟩ := follows.rowOnCpu other index onCpu
  obtain ⟨⟨later, laterFound, laterItid⟩, positions⟩ :=
    grows_insertSwitchEvent follows.valid ts cpu prevPid prevState nextPid nextPrio index row found
  refine ⟨later, laterFound, by rw [laterItid]; exact nonzero, fun elsewhere => ?_⟩
  rw [laterItid] at elsewhere ⊢
  rw [positions]
  have longer := history_switch schedule ts cpu prevPid prevState nextPid row.itid
  rcases place with different | ⟨rfl, rfl⟩
  · simp only [Schedule.switch, Function.update_of_ne different] at elsewhere
    exact (earlier elsewhere).trans_le longer
  · by_cases outgoing : row.itid = prevPid
    · -- the thread that leaves the cpu closes one more row
      obtain ⟨since, phase⟩ := follows.leaves_running leaves (outgoing ▸ nonzero)
      have seen := rowsOf_get found rfl
      rw [follows.rows nonzero] at seen
      have inside := Data.lookup_lt seen
      have bound := History.rows_length_le (schedule.history row.itid) row.itid
      have closed : ((schedule.switch ts other prevPid prevState 0).history row.itid).closed.length =
          (schedule.history row.itid).closed.length + 1 := by
        rw [← outgoing] at phase
        simp [Schedule.switch, nonzero, outgoing.symm, History.switchOut, phase]
      omega
    · exact (earlier (by rw [leaves]; exact outgoing)).trans_le longer

include forward valid small idle in
theorem switch (recorded : prevState ≠ taskRunning) :
    Follows (filter.insertSwitchEvent hmKernel ts cpu prevPid prevState nextPid nextPrio)
      (schedule.switch ts cpu prevPid prevState nextPid) where
  valid := valid_insertSwitchEvent follows.valid ..
  tracks := by
    intro itid nonzero
    rw [track_insertSwitchEvent follows.valid]
    simp only [follows.track_betweenHalves forward valid small leaves idle nonzero, Schedule.switch]
    by_cases own : itid = nextPid
    · have other : ¬ (prevPid ≠ 0 ∧ prevPid = itid) := by
        rintro ⟨running, rfl⟩
        exact follows.prev_ne_next leaves idle running own
      simp only [if_pos own, if_neg other]
    · by_cases outgoing : itid = prevPid
      · subst outgoing
        obtain ⟨since, phase⟩ := follows.leaves_running leaves nonzero
        simp only [own, ne_eq, nonzero]
        exact History.track_switchOut (follows.timed itid nonzero) forward valid phase hmKernel
      · have other : ¬ (prevPid ≠ 0 ∧ prevPid = itid) := fun both => outgoing both.2.symm
        simp only [if_neg own, if_neg other, if_neg outgoing]
  timed := by
    intro itid nonzero
    have timed := follows.timed itid nonzero
    simp only [Schedule.switch]
    split
    next own =>
      have stopped := idle.resolve_left (fun zero => nonzero (own.trans zero))
      exact History.wellTimed_switchIn timed forward valid small (own ▸ stopped)
    · split
      next outgoing =>
        subst outgoing
        obtain ⟨since, phase⟩ := follows.leaves_running leaves nonzero
        exact History.wellTimed_switchOut timed forward valid phase recorded
      · exact timed.later forward
  runs := by
    intro other running
    simp only [Schedule.switch] at running ⊢
    by_cases same : other = cpu
    · subst same
      simp only [Function.update_self] at running ⊢
      obtain ⟨closed, phase⟩ := schedule.history nextPid
      cases phase with
      | unseen => exact ⟨ts, rfl⟩
      | running since cpu => exact ⟨ts, rfl⟩
      | out since state woken => cases woken <;> exact ⟨ts, rfl⟩
    · rw [Function.update_of_ne same] at running ⊢
      obtain ⟨since, phase⟩ := follows.runs other running
      have notNext : schedule.running other ≠ nextPid := by
        intro equal
        rcases idle with zero | stopped
        · exact running (equal.trans zero)
        · rw [← equal] at stopped
          simp [History.isRunning, phase] at stopped
      have notPrev : schedule.running other ≠ prevPid := by
        intro equal
        obtain ⟨_, onCpu⟩ := follows.leaves_running leaves (equal ▸ running)
        rw [equal, onCpu] at phase
        injection phase with _ sameCpu
        exact same sameCpu.symm
      exact ⟨since, by rw [if_neg notNext, if_neg notPrev, phase]⟩
  rowOnCpu := by
    intro other index onCpu
    by_cases zero : nextPid = 0
    · subst zero
      rw [insertSwitchEvent_cpuToRow_idle follows.valid] at onCpu
      refine follows.rowOnCpu_kept leaves onCpu ?_
      by_cases same : other = cpu
      · exact .inr ⟨same, rfl⟩
      · exact .inl same
    · obtain ⟨placed, row, cpuToRow, found, own⟩ :=
        insertSwitchEvent_onCpu follows.valid ts cpu prevPid prevState nextPrio zero
      rw [cpuToRow] at onCpu
      by_cases same : other = cpu
      · subst same
        obtain rfl : placed = index := by simpa using onCpu
        refine ⟨row, found, by rw [own]; exact zero, fun elsewhere => ?_⟩
        simp [Schedule.switch, own] at elsewhere
      · rw [Function.update_of_ne same] at onCpu
        exact follows.rowOnCpu_kept leaves onCpu (.inl same)

omit leaves

include forward in
theorem wakeup {itid : Nat} (sleeping : itid = 0 ∨ (schedule.history itid).isOut = true) :
    Follows (filter.insertWakeupEvent ts itid false) (schedule.wakeup ts itid) where
  valid := valid_insertWakeupEvent follows.valid ts itid false
  tracks := by
    intro other nonzero
    simp only [Schedule.wakeup]
    by_cases own : other = itid
    · subst own
      rw [track_insertWakeupEvent_own, follows.tracks other nonzero, if_pos rfl]
      exact History.track_wake (sleeping.resolve_left nonzero)
    · rw [track_insertWakeupEvent_other filter (Ne.symm own), follows.tracks other nonzero, if_neg own]
  timed := by
    intro other nonzero
    simp only [Schedule.wakeup]
    by_cases own : other = itid
    · subst own
      rw [if_pos rfl]
      exact History.wellTimed_wake (follows.timed other nonzero) forward (sleeping.resolve_left nonzero)
    · rw [if_neg own]
      exact (follows.timed other nonzero).later forward
  runs := by
    intro cpu running
    obtain ⟨since, phase⟩ := follows.runs cpu running
    simp only [Schedule.wakeup]
    by_cases own : schedule.running cpu = itid
    · rcases sleeping with zero | isOut
      · exact absurd (own.trans zero) running
      · rw [own] at phase
        simp [History.isOut, phase] at isOut
    · exact ⟨since, by rw [if_neg own, phase]⟩
  rowOnCpu := by
    intro cpu index onCpu
    obtain ⟨rows, cpuToRow⟩ := filter.insertWakeupEvent_rows ts itid false
    rw [cpuToRow] at onCpu
    obtain ⟨row, found, nonzero, earlier⟩ := follows.rowOnCpu cpu index onCpu
    refine ⟨row, by rw [rows, found], nonzero, fun elsewhere => ?_⟩
    have closed : ((schedule.wakeup ts itid).history row.itid).closed = (schedule.history row.itid).closed := by
      simp only [Schedule.wakeup]
      split
      · exact History.closed_wake _ ts
      · rfl
    rw [rows, closed]
    exact earlier elsewhere

theorem insert {event : SchedEvent} (allowed : schedule.Allows event) (recorded : event.recordsState) :
    Follows (filter.insert hmKernel event) (schedule.insert event) := by
  cases event with
  | switch ts cpu prevPid prevState nextPid nextPrio =>
    obtain ⟨forward, leaves, idle⟩ := allowed
    exact follows.switch forward ts.isLt cpu.toNat_lt leaves idle hmKernel recorded
  | wakeup ts internalTid =>
    obtain ⟨forward, sleeping⟩ := allowed
    exact follows.wakeup forward sleeping

theorem run {events : List SchedEvent}
    (wellFormed : schedule.WellFormed events) (recorded : ∀ event ∈ events, event.recordsState) :
    Follows (filter.run hmKernel events) (schedule.run events) := by
  induction events generalizing filter schedule with
  | nil => exact follows
  | cons event rest ih =>
    obtain ⟨allowed, later⟩ := wellFormed
    have next := follows.insert hmKernel allowed (recorded event (by simp))
    exact ih next later (forall_mem_of_forall_mem_cons recorded)

end

end Follows

theorem History.rows_last_open (itid : Nat) (history : History) (empty : history.phase = .unseen → history.closed = []) :
    ∀ row ∈ (history.rows itid).getLast?, row.isOpen = true := by
  obtain ⟨closed, phase⟩ := history
  cases phase with
  | unseen => simp [History.rows, show closed = [] from empty rfl]
  | running since cpu => simp [History.rows, StateRow.isOpen]
  | out since state woken => simp [History.rows, StateRow.isOpen]

/-- After a well-formed run the rows of every thread are its history, and they
tile it: `Running` from switch-in to switch-out, the recorded state from there to
the first wakeup or the next switch-in, `R` from that wakeup to that switch-in.
A wakeup that no switch-in has followed yet leaves the recorded state open. -/
theorem threadStates_tile_history (hmKernelTraceEnabled : Bool) (events : List SchedEvent)
    (wellFormed : ({} : Schedule).WellFormed events) (recorded : ∀ event ∈ events, event.recordsState)
    (itid : Nat) (nonzero : itid ≠ 0) :
    rowsOf itid (CpuFilter.run hmKernelTraceEnabled {} events).rows =
        ((({} : Schedule).run events).history itid).rows itid ∧
      Tiles (rowsOf itid (CpuFilter.run hmKernelTraceEnabled {} events).rows) := by
  have follows := follows_initial.run hmKernelTraceEnabled wellFormed recorded
  have rows := follows.rows nonzero
  have timed := follows.timed itid nonzero
  refine ⟨rows, ?_⟩
  rw [rows]
  exact ⟨timed.chain, History.rows_last_open itid _ timed.unseen⟩

/-- Thread 1 runs from 1 to 2, sleeps, is woken at 3 and runs again at 4. -/
def sleepAndRun : List SchedEvent :=
  [.switch ⟨1, Nat.le_of_ble_eq_true rfl⟩ 0 0 0 1 120, .switch ⟨2, Nat.le_of_ble_eq_true rfl⟩ 0 1 1 0 120,
    .wakeup ⟨3, Nat.le_of_ble_eq_true rfl⟩ 1, .switch ⟨4, Nat.le_of_ble_eq_true rfl⟩ 0 0 0 1 120]

theorem threadStates_tile_sleepAndRun :
    rowsOf 1 (CpuFilter.run false {} sleepAndRun).rows =
        [⟨1, 1, 0, 1, 3⟩, ⟨2, 1, invalidCpu, 1, 1⟩, ⟨3, 1, invalidCpu, 1, 0⟩, ⟨4, invalidTime, 0, 1, 3⟩] ∧
      Tiles (rowsOf 1 (CpuFilter.run false {} sleepAndRun).rows) := by
  have tiles := threadStates_tile_history false sleepAndRun (by decide) (by decide) 1 (by decide)
  exact ⟨tiles.1.trans (by decide +kernel), tiles.2⟩

/-- Before the switch-in at 4, the row of the sleep is still open. -/
theorem threadStates_wakeup_pending :
    ({} : Schedule).WellFormed (sleepAndRun.take 3) ∧
      rowsOf 1 (CpuFilter.run false {} (sleepAndRun.take 3)).rows ≠
        ((({} : Schedule).run (sleepAndRun.take 3)).history 1).rowsWithWakeup 1 := by
  decide

end SmartPerf.Sched
