import SmartPerf.Data.Run
import SmartPerf.Sched.Track

namespace SmartPerf.Sched

open Data List

/-! The rows of an arbitrary sequence of switches and wakeups, in which events
may be missing. -/

/-- The times at which the row says its thread was in its state; an open row has
no end. -/
def StateRow.Covers (row : StateRow) (time : Nat) : Prop :=
  row.timeStamp ≤ time ∧ (row.isOpen = false → time < row.timeStamp + row.duration)

def Apart (left right : StateRow) : Prop := ∀ time, ¬ (left.Covers time ∧ right.Covers time)

/-- Closed rows end by `now` and no two rows of one thread overlap. -/
def Sane (now : Nat) (rows : List StateRow) : Prop :=
  (∀ row ∈ rows, row.isOpen = false → row.timeStamp + row.duration ≤ now) ∧
    ∀ itid, (rowsOf itid rows).Pairwise Apart

namespace Track

variable {track : Track} {now ts cpu itid prevState : Nat} {hmKernel : Bool}

def Sane (now : Nat) (track : Track) : Prop :=
  (∀ row ∈ track.rows, row.isOpen = false → row.timeStamp + row.duration ≤ now) ∧ track.rows.Pairwise Apart

/-- What holds of a track between events besides being sane. -/
structure Sound (now : Nat) (track : Track) : Prop where
  sane : track.Sane now
  starts : ∀ row ∈ track.rows, row.timeStamp ≤ now
  last : ∀ thread, track.last = some thread → ∃ row, track.rows[thread.row]? = some row ∧ row.isOpen = true
  pending : ∀ wakeup, track.pending = some wakeup →
    wakeup ≤ now ∧ ∀ row ∈ track.rows, row.isOpen = false → row.timeStamp + row.duration ≤ wakeup

def OnlyLastOpen (track : Track) : Prop :=
  ∀ index row, track.rows[index]? = some row → row.isOpen = true →
    ∃ thread, track.last = some thread ∧ thread.row = index

/-- What a switch-in needs: no forgotten open row, and no pending wakeup that is
older than the row it would close. -/
def AdmitsIn (track : Track) : Prop :=
  track.OnlyLastOpen ∧
    ∀ wakeup thread row, track.pending = some wakeup → track.last = some thread → thread.state ≠ taskRunning →
      track.rows[thread.row]? = some row → row.timeStamp ≤ wakeup

/-- What a switch-out needs, unless it is skipped: no forgotten open row, and no
pending wakeup of a thread that is remembered as not running. -/
def AdmitsOut (hmKernelTraceEnabled : Bool) (track : Track) (ts cpu : Nat) : Prop :=
  track.changesCpu hmKernelTraceEnabled ts cpu = true ∨
    (track.OnlyLastOpen ∧ (track.pending = none ∨ track.last = none ∨ track.lastState = taskRunning))

theorem Sound.later (sound : track.Sound now) (forward : now ≤ ts) : track.Sound ts where
  sane := ⟨fun row member closed => (sound.sane.1 row member closed).trans forward, sound.sane.2⟩
  starts := fun row member => (sound.starts row member).trans forward
  last := sound.last
  pending := fun wakeup found => ⟨(sound.pending wakeup found).1.trans forward, (sound.pending wakeup found).2⟩

/-- Rows that are all closed by `ts`. -/
def Finished (ts : Nat) (rows : List StateRow) : Prop :=
  (∀ row ∈ rows, row.isOpen = false ∧ row.timeStamp + row.duration ≤ ts) ∧ rows.Pairwise Apart

section Rows

variable {rows : List StateRow} {row : StateRow} {index : Nat}

theorem pairwise_iff_lookup :
    rows.Pairwise Apart ↔ ∀ (first second : Nat) (left right : StateRow), first < second →
      rows[first]? = some left → rows[second]? = some right → Apart left right := by
  rw [pairwise_iff_getElem]
  constructor
  · intro apart first second left right before leftFound rightFound
    obtain ⟨firstInside, rfl⟩ := List.getElem?_eq_some_iff.mp leftFound
    obtain ⟨secondInside, rfl⟩ := List.getElem?_eq_some_iff.mp rightFound
    exact apart first second firstInside secondInside before
  · intro apart first second firstInside secondInside before
    exact apart first second _ _ before (getElem?_eq_getElem firstInside) (getElem?_eq_getElem secondInside)

theorem pairwise_modify {change : StateRow → StateRow} (apart : rows.Pairwise Apart)
    (shrinks : ∀ row, rows[index]? = some row → ∀ time, (change row).Covers time → row.Covers time) :
    (rows.modify index change).Pairwise Apart := by
  have covers : ∀ (place : Nat) (after : StateRow), (rows.modify index change)[place]? = some after →
      ∃ before, rows[place]? = some before ∧ ∀ time, after.Covers time → before.Covers time := by
    intro place after found
    obtain ⟨before, lookup, rfl⟩ := lookup_modify_iff.mp found
    refine ⟨before, lookup, fun time covered => ?_⟩
    by_cases here : index = place
    · rw [if_pos here] at covered
      exact shrinks before (here ▸ lookup) time covered
    · rwa [if_neg here] at covered
  rw [pairwise_iff_lookup] at apart ⊢
  intro first second left right order leftFound rightFound time both
  obtain ⟨leftBefore, leftLookup, leftCovers⟩ := covers first left leftFound
  obtain ⟨rightBefore, rightLookup, rightCovers⟩ := covers second right rightFound
  exact apart first second _ _ order leftLookup rightLookup time
    ⟨leftCovers time both.1, rightCovers time both.2⟩

theorem updateDuration_shrinks (isOpen : row.isOpen = true) (ordered : row.timeStamp ≤ ts)
    (valid : ts < invalidTime) (time : Nat) : (row.updateDuration ts).Covers time → row.Covers time := by
  rw [StateRow.updateDuration_of_open isOpen ordered valid]
  rintro ⟨started, -⟩
  exact ⟨started, fun closed => by simp [closed] at isOpen⟩

theorem updateDuration_ends (isOpen : row.isOpen = true) (ordered : row.timeStamp ≤ ts) (valid : ts < invalidTime) :
    (row.updateDuration ts).isOpen = false ∧
      (row.updateDuration ts).timeStamp + (row.updateDuration ts).duration = ts := by
  rw [StateRow.updateDuration_of_open isOpen ordered valid]
  simp only [StateRow.isOpen, beq_eq_false_iff_ne]
  omega

theorem apart_of_ended {later : StateRow} (closed : row.isOpen = false)
    (ended : row.timeStamp + row.duration ≤ later.timeStamp) : Apart row later := by
  rintro time ⟨⟨-, before⟩, ⟨after, -⟩⟩
  have := before closed
  omega

end Rows

theorem closeLast_finished (only : track.OnlyLastOpen) (apart : track.rows.Pairwise Apart)
    (lastOpen : ∀ thread, track.last = some thread → ∃ row, track.rows[thread.row]? = some row ∧
      row.isOpen = true ∧ row.timeStamp ≤ ts)
    (ended : ∀ row ∈ track.rows, row.isOpen = false → row.timeStamp + row.duration ≤ ts)
    (valid : ts < invalidTime) : Finished ts (track.closeLast ts).rows := by
  unfold closeLast
  cases known : track.last with
  | none =>
    refine ⟨fun row member => ?_, apart⟩
    obtain ⟨index, found⟩ := mem_iff_getElem?.mp member
    cases isOpen : row.isOpen with
    | false => exact ⟨rfl, ended row member isOpen⟩
    | true =>
      obtain ⟨thread, last, -⟩ := only index row found isOpen
      simp [known] at last
  | some thread =>
    obtain ⟨row, found, isOpen, started⟩ := lastOpen thread known
    refine ⟨fun after member => ?_, pairwise_modify apart (fun other lookup => ?_)⟩
    · obtain ⟨index, lookup⟩ := mem_iff_getElem?.mp member
      obtain ⟨before, beforeFound, rfl⟩ := lookup_modify_iff.mp lookup
      by_cases here : thread.row = index
      · subst here
        rw [found] at beforeFound
        cases beforeFound
        rw [if_pos rfl]
        have ends := updateDuration_ends isOpen started valid
        exact ⟨ends.1, ends.2.le⟩
      · rw [if_neg here]
        cases beforeOpen : before.isOpen with
        | false => exact ⟨rfl, ended before (mem_of_getElem? beforeFound) beforeOpen⟩
        | true =>
          obtain ⟨other, last, place⟩ := only index before beforeFound beforeOpen
          obtain rfl : thread = other := Option.mem_unique known last
          exact absurd place here
    · rw [found] at lookup
      cases lookup
      exact updateDuration_shrinks isOpen started valid

theorem append_sound (finished : Finished ts track.rows) (itid cpu state : Nat)
    (pending : ∀ wakeup, track.pending = some wakeup →
      wakeup ≤ ts ∧ ∀ row ∈ track.rows, row.isOpen = false → row.timeStamp + row.duration ≤ wakeup) :
    (track.append itid ts cpu state).Sound ts ∧ (track.append itid ts cpu state).OnlyLastOpen := by
  have isOpen : StateRow.isOpen ⟨ts, invalidTime, cpu % 2 ^ 32, itid, stateColumn state⟩ = true := by
    simp [StateRow.isOpen]
  have old : ∀ row ∈ (track.append itid ts cpu state).rows, row.isOpen = false → row ∈ track.rows := by
    intro row member closed
    rcases mem_append.mp member with earlier | new
    · exact earlier
    · obtain rfl := mem_singleton.mp new
      exact absurd (isOpen.symm.trans closed) (by decide)
  refine ⟨⟨⟨?_, ?_⟩, ?_, ?_, ?_⟩, ?_⟩
  · exact fun row member closed => (finished.1 row (old row member closed)).2
  · refine pairwise_append.mpr ⟨finished.2, pairwise_singleton _ _, ?_⟩
    intro row member later new
    obtain rfl := mem_singleton.mp new
    exact apart_of_ended (finished.1 row member).1 (finished.1 row member).2
  · intro row member
    rcases mem_append.mp member with earlier | new
    · have ended := (finished.1 row earlier).2
      omega
    · obtain rfl := mem_singleton.mp new
      exact le_rfl
  · rintro thread ⟨⟩
    exact ⟨_, getElem?_concat_length, isOpen⟩
  · intro wakeup found
    obtain ⟨before, ended⟩ := pending wakeup found
    exact ⟨before, fun row member closed => ended row (old row member closed) closed⟩
  · intro index row found stillOpen
    refine ⟨_, rfl, ?_⟩
    by_contra elsewhere
    have earlier : row ∈ track.rows := by
      have inside := lookup_lt found
      simp only [append, length_append, length_singleton] at inside
      have before : index < track.rows.length := by
        simp only at elsewhere
        omega
      simp only [append, getElem?_append_left before] at found
      exact mem_of_getElem? found
    simp [(finished.1 row earlier).1] at stillOpen

theorem unpend_sound (sound : track.Sound now) : track.unpend.Sound now :=
  ⟨sound.sane, sound.starts, sound.last, nofun⟩

theorem closeLast_pending (track : Track) (ts : Nat) : (track.closeLast ts).pending = track.pending := by
  unfold closeLast
  split <;> rfl

theorem check_of_pending {wakeup : Nat} (pending : track.pending = some wakeup) (stopped : track.lastState ≠ taskRunning)
    (itid : Nat) : track.check itid = ((track.closeLast wakeup).append itid wakeup invalidCpu taskRunnable).unpend := by
  simp [check, pending, stopped]

theorem check_settled (settled : track.pending = none ∨ track.lastState = taskRunning) (itid : Nat) :
    track.check itid = track.unpend := by
  unfold check
  cases pending : track.pending with
  | none => exact Track.ext rfl rfl pending
  | some wakeup =>
    have running := settled.resolve_left (by simp [pending])
    exact if_pos running

theorem check_cases (track : Track) (itid : Nat) : track.check itid = track.unpend ∨
    ∃ wakeup, track.pending = some wakeup ∧ track.lastState ≠ taskRunning ∧
      track.check itid = ((track.closeLast wakeup).append itid wakeup invalidCpu taskRunnable).unpend := by
  cases pending : track.pending with
  | none => exact .inl (check_settled (.inl pending) itid)
  | some wakeup =>
    by_cases running : track.lastState = taskRunning
    · exact .inl (check_settled (.inr running) itid)
    · exact .inr ⟨wakeup, rfl, running, check_of_pending pending running itid⟩

section
variable (sound : track.Sound now)
include sound

theorem check_sound (admits : track.AdmitsIn) (valid : now < invalidTime) (itid : Nat) :
    (track.check itid).Sound now ∧ (track.check itid).OnlyLastOpen ∧ (track.check itid).pending = none := by
  rcases track.check_cases itid with settled | ⟨wakeup, pending, stopped, checked⟩
  · rw [settled]
    exact ⟨unpend_sound sound, admits.1, rfl⟩
  · rw [checked]
    obtain ⟨before, ended⟩ := sound.pending wakeup pending
    have lastOpen : ∀ thread, track.last = some thread → ∃ row, track.rows[thread.row]? = some row ∧
        row.isOpen = true ∧ row.timeStamp ≤ wakeup := by
      intro thread known
      obtain ⟨row, found, isOpen⟩ := sound.last thread known
      have other : thread.state ≠ taskRunning := by simpa [lastState, known] using stopped
      exact ⟨row, found, isOpen, admits.2 wakeup thread row pending known other found⟩
    have finished := closeLast_finished admits.1 sound.sane.2 lastOpen ended (by omega)
    obtain ⟨appended, only⟩ := append_sound finished itid invalidCpu taskRunnable (fun other found => by
      rw [closeLast_pending, pending] at found
      obtain rfl := Option.some.inj found
      exact ⟨le_rfl, fun row member closed => (finished.1 row member).2⟩)
    exact ⟨(unpend_sound appended).later before, only, rfl⟩

theorem Sound.closeLast_finished (only : track.OnlyLastOpen) (forward : now ≤ ts)
    (valid : ts < invalidTime) : Finished ts (track.closeLast ts).rows := by
  have later := sound.later forward
  refine Track.closeLast_finished only later.sane.2 (fun thread known => ?_) later.sane.1 valid
  obtain ⟨row, found, isOpen⟩ := later.last thread known
  exact ⟨row, found, isOpen, later.starts row (mem_of_getElem? found)⟩

theorem switchIn_sound (admits : track.AdmitsIn) (forward : now ≤ ts) (valid : ts < invalidTime) (itid cpu : Nat) :
    (track.switchIn itid ts cpu).Sound ts ∧ (track.switchIn itid ts cpu).OnlyLastOpen ∧
      (track.switchIn itid ts cpu).pending = none := by
  obtain ⟨checked, only, unpended⟩ := check_sound sound admits (by omega) itid
  have finished := checked.closeLast_finished only forward valid
  have none : ((track.check itid).closeLast ts).pending = none := by rw [closeLast_pending, unpended]
  obtain ⟨appended, last⟩ := append_sound finished itid cpu taskRunning (by rw [none]; exact nofun)
  exact ⟨appended, last, none⟩

theorem switchOut_sound (admits : track.AdmitsOut hmKernel ts cpu)
    (forward : now ≤ ts) (valid : ts < invalidTime) (itid prevState : Nat) :
    (track.switchOut hmKernel itid ts cpu prevState).Sound ts := by
  unfold switchOut
  have later := sound.later forward
  cases known : track.last with
  | none =>
    rcases admits with changes | ⟨only, -⟩
    · simp [changesCpu, known] at changes
    · have finished := later.closeLast_finished only le_rfl valid
      simp only [closeLast, known] at finished
      exact (append_sound finished itid invalidCpu prevState later.pending).1
  | some thread =>
    by_cases changes : track.changesCpu hmKernel ts cpu = true
    · simp only [if_pos changes]
      exact later
    · simp only [if_neg changes]
      obtain ⟨only, settled⟩ := admits.resolve_left changes
      have remains : track.pending = none ∨ track.lastState = taskRunning := by
        rcases settled with none | noLast | running
        · exact .inl none
        · simp [known] at noLast
        · exact .inr running
      have cleared := unpend_sound later
      have finished := cleared.closeLast_finished only le_rfl valid
      have last : track.unpend.last = some thread := known
      simp only [closeLast, last] at finished
      rw [check_settled remains]
      exact (append_sound finished itid invalidCpu prevState fun _ woken => by cases woken).1

theorem forget_sound : track.forget.Sound now :=
  ⟨sound.sane, sound.starts, nofun, sound.pending⟩

theorem wake_sound (forward : now ≤ ts) : (track.wake ts).Sound ts := by
  have later := sound.later forward
  unfold wake
  split
  · refine ⟨later.sane, later.starts, later.last, ?_⟩
    rintro wakeup ⟨⟩
    exact ⟨le_rfl, later.sane.1⟩
  · exact later

end

/-! The other direction: what an event that is not admitted leaves behind. -/

section Refused

variable {index : Nat} {row : StateRow}

/-- An open row that is not the remembered one. -/
structure Forgotten (track : Track) (index : Nat) : Prop where
  opened : ∃ row, track.rows[index]? = some row ∧ row.isOpen = true
  unremembered : ∀ thread, track.last = some thread → thread.row ≠ index

theorem exists_forgotten (refused : ¬ track.OnlyLastOpen) : ∃ index, track.Forgotten index := by
  simp only [OnlyLastOpen, not_forall, not_exists, not_and] at refused
  obtain ⟨index, row, found, isOpen, unremembered⟩ := refused
  exact ⟨index, ⟨row, found, isOpen⟩, unremembered⟩

theorem not_apart_of_two_open {first second : Nat} (different : first ≠ second)
    (firstOpen : ∃ row, track.rows[first]? = some row ∧ row.isOpen = true)
    (secondOpen : ∃ row, track.rows[second]? = some row ∧ row.isOpen = true) : ¬ track.rows.Pairwise Apart := by
  obtain ⟨left, leftFound, leftOpen⟩ := firstOpen
  obtain ⟨right, rightFound, rightOpen⟩ := secondOpen
  have leftCovers : left.Covers (max left.timeStamp right.timeStamp) :=
    ⟨Nat.le_max_left _ _, fun closed => by simp [leftOpen] at closed⟩
  have rightCovers : right.Covers (max left.timeStamp right.timeStamp) :=
    ⟨Nat.le_max_right _ _, fun closed => by simp [rightOpen] at closed⟩
  intro apart
  rw [pairwise_iff_lookup] at apart
  rcases Nat.lt_or_gt_of_ne different with before | after
  · exact apart first second left right before leftFound rightFound _ ⟨leftCovers, rightCovers⟩
  · exact apart second first right left after rightFound leftFound _ ⟨rightCovers, leftCovers⟩

section
variable (forgotten : track.Forgotten index)
include forgotten

theorem Forgotten.closeAt {place : Nat} (elsewhere : place ≠ index) (ts : Nat) :
    (track.closeAt place ts).Forgotten index := by
  obtain ⟨⟨row, found, isOpen⟩, unremembered⟩ := forgotten
  exact ⟨⟨row, by simp [Track.closeAt, elsewhere, found], isOpen⟩, unremembered⟩

theorem Forgotten.closeLast (ts : Nat) : (track.closeLast ts).Forgotten index := by
  unfold Track.closeLast
  cases known : track.last with
  | none => exact forgotten
  | some thread => exact forgotten.closeAt (forgotten.unremembered thread known) ts

theorem Forgotten.append (itid ts cpu state : Nat) : (track.append itid ts cpu state).Forgotten index := by
  obtain ⟨⟨row, found, isOpen⟩, -⟩ := forgotten
  have inside := lookup_lt found
  refine ⟨⟨row, by rw [Track.append, getElem?_append_left inside, found], isOpen⟩, ?_⟩
  rintro thread ⟨⟩
  exact inside.ne'

theorem Forgotten.check (itid : Nat) : (track.check itid).Forgotten index := by
  rcases track.check_cases itid with settled | ⟨wakeup, -, -, checked⟩
  · rw [settled]
    exact ⟨forgotten.opened, forgotten.unremembered⟩
  · have appended := (forgotten.closeLast wakeup).append itid wakeup invalidCpu taskRunnable
    rw [checked]
    exact ⟨appended.opened, appended.unremembered⟩

end

theorem append_last_open (track : Track) (itid ts cpu state : Nat) :
    ∃ row, (track.append itid ts cpu state).rows[track.rows.length]? = some row ∧ row.isOpen = true :=
  ⟨_, getElem?_concat_length, by simp [StateRow.isOpen]⟩

theorem Forgotten.not_apart_append (forgotten : track.Forgotten index) (itid ts cpu state : Nat) :
    ¬ (track.append itid ts cpu state).rows.Pairwise Apart := by
  obtain ⟨row, found, -⟩ := forgotten.opened
  have inside := lookup_lt found
  exact not_apart_of_two_open inside.ne (forgotten.append itid ts cpu state).opened
    (track.append_last_open itid ts cpu state)

theorem Forgotten.switchIn (forgotten : track.Forgotten index) (itid ts cpu : Nat) :
    (track.switchIn itid ts cpu).Forgotten index :=
  ((forgotten.check itid).closeLast ts).append itid ts cpu taskRunning

theorem Forgotten.not_apart_switchOut (forgotten : track.Forgotten index)
    (stays : track.changesCpu hmKernel ts cpu = false) (itid prevState : Nat) :
    ¬ (track.switchOut hmKernel itid ts cpu prevState).rows.Pairwise Apart := by
  unfold Track.switchOut
  cases known : track.last with
  | none => exact forgotten.not_apart_append itid ts invalidCpu prevState
  | some thread =>
    simp only [stays]
    have elsewhere := forgotten.unremembered thread known
    exact ((forgotten.check itid).closeAt elsewhere ts).not_apart_append itid ts invalidCpu prevState

def Overruns (track : Track) : Prop :=
  ∃ (index : Nat) (row : StateRow), track.rows[index]? = some row ∧ row.isOpen = false ∧
    2 ^ 64 ≤ row.timeStamp + row.duration

section

variable (overruns : track.Overruns)
include overruns

theorem Overruns.not_sane (valid : ts < invalidTime) : ¬ track.Sane ts := by
  obtain ⟨index, row, found, closed, late⟩ := overruns
  intro sane
  have ended := sane.1 row (mem_of_getElem? found) closed
  simp only [invalidTime] at valid
  omega

theorem Overruns.closeAt (place ts : Nat) : (track.closeAt place ts).Overruns := by
  obtain ⟨index, row, found, closed, late⟩ := overruns
  refine ⟨index, row, ?_, closed, late⟩
  by_cases same : place = index
  · simp [Track.closeAt, same, found, StateRow.updateDuration, closed]
  · simp [Track.closeAt, same, found]

theorem Overruns.closeLast (ts : Nat) : (track.closeLast ts).Overruns := by
  unfold Track.closeLast
  split
  · exact overruns.closeAt _ ts
  · exact overruns

theorem Overruns.append (itid ts cpu state : Nat) : (track.append itid ts cpu state).Overruns := by
  obtain ⟨index, row, found, closed, late⟩ := overruns
  have inside := lookup_lt found
  exact ⟨index, row, by rw [Track.append, getElem?_append_left inside, found], closed, late⟩

theorem Overruns.check (itid : Nat) : (track.check itid).Overruns := by
  rcases track.check_cases itid with settled | ⟨wakeup, -, -, checked⟩
  · rw [settled]
    exact overruns
  · rw [checked]
    exact (overruns.closeLast wakeup).append itid wakeup invalidCpu taskRunnable

theorem Overruns.switchOut (itid prevState : Nat) :
    (track.switchOut hmKernel itid ts cpu prevState).Overruns := by
  unfold Track.switchOut
  split
  · exact overruns.append itid ts invalidCpu prevState
  · split
    · exact overruns
    · exact ((overruns.check itid).closeAt _ ts).append itid ts invalidCpu prevState

end

theorem stale_close {thread : TPthread} {wakeup : Nat} (known : track.last = some thread)
    (found : track.rows[thread.row]? = some row) (isOpen : row.isOpen = true)
    (stale : wakeup < row.timeStamp) (small : row.timeStamp < 2 ^ 64) (itid cpu state : Nat) :
    ((track.closeLast wakeup).append itid wakeup cpu state).Overruns ∨
      ((track.closeLast wakeup).append itid wakeup cpu state).Forgotten thread.row := by
  have inside := lookup_lt found
  have length : (wakeup + 2 ^ 64 - row.timeStamp) % 2 ^ 64 = wakeup + 2 ^ 64 - row.timeStamp :=
    Nat.mod_eq_of_lt (by omega)
  have changed : row.updateDuration wakeup = { row with duration := wakeup + 2 ^ 64 - row.timeStamp } := by
    rw [StateRow.updateDuration, if_pos isOpen, length]
  have lookup : ((track.closeLast wakeup).append itid wakeup cpu state).rows[thread.row]? =
      some { row with duration := wakeup + 2 ^ 64 - row.timeStamp } := by
    rw [Track.append, getElem?_append_left (by simpa [Track.closeLast, known, Track.closeAt] using inside)]
    simp [Track.closeLast, known, Track.closeAt, found, changed]
  cases stillOpen : StateRow.isOpen { row with duration := wakeup + 2 ^ 64 - row.timeStamp } with
  | false =>
    left
    refine ⟨thread.row, _, lookup, stillOpen, ?_⟩
    simp only
    omega
  | true =>
    right
    refine ⟨⟨_, lookup, stillOpen⟩, ?_⟩
    rintro other ⟨⟩
    simp only [Track.closeLast, known, Track.closeAt, length_modify]
    exact inside.ne'

theorem refused_switchIn (sound : track.Sound now) (small : now < 2 ^ 64) (refused : ¬ track.AdmitsIn)
    (itid ts cpu : Nat) :
    (track.switchIn itid ts cpu).Overruns ∨ ∃ index, (track.switchIn itid ts cpu).Forgotten index := by
  by_cases only : track.OnlyLastOpen
  · simp only [AdmitsIn, only, true_and, not_forall, Nat.not_le] at refused
    obtain ⟨wakeup, thread, row, pending, known, other, found, stale⟩ := refused
    obtain ⟨same, lookup, isOpen⟩ := sound.last thread known
    obtain rfl : row = same := Option.mem_unique found lookup
    have started := sound.starts row (mem_of_getElem? found)
    have notRunning : track.lastState ≠ taskRunning := by simpa [lastState, known] using other
    have checked := check_of_pending pending notRunning itid
    rcases stale_close known found isOpen stale (by omega) itid invalidCpu taskRunnable with late | forgotten
    · have checkedLate : (track.check itid).Overruns := checked ▸ late
      exact .inl ((checkedLate.closeLast ts).append itid ts cpu taskRunning)
    · have checkedForgotten : (track.check itid).Forgotten thread.row :=
        checked ▸ ⟨forgotten.opened, forgotten.unremembered⟩
      exact .inr ⟨_, (checkedForgotten.closeLast ts).append itid ts cpu taskRunning⟩
  · obtain ⟨index, forgotten⟩ := exists_forgotten only
    exact .inr ⟨index, forgotten.switchIn itid ts cpu⟩

theorem Forgotten.not_apart_of_switchIn (forgotten : (track.switchIn itid ts cpu).Forgotten index) :
    ¬ (track.switchIn itid ts cpu).rows.Pairwise Apart :=
  not_apart_of_two_open (forgotten.unremembered _ rfl).symm forgotten.opened
    (append_last_open ((track.check itid).closeLast ts) itid ts cpu taskRunning)

theorem refused_switchIn_switchOut (sound : track.Sound now) (small : now < 2 ^ 64) (valid : ts < invalidTime)
    (refused : ¬ track.AdmitsIn) (prevState : Nat) :
    ¬ ((track.switchIn itid ts cpu).switchOut hmKernel itid ts cpu prevState).Sane ts := by
  rcases refused_switchIn sound small refused itid ts cpu with late | ⟨index, forgotten⟩
  · exact (late.switchOut itid prevState).not_sane valid
  · cases changes : (track.switchIn itid ts cpu).changesCpu hmKernel ts cpu with
    | false => exact fun sane => forgotten.not_apart_switchOut changes itid prevState sane.2
    | true =>
      simp only [Track.switchOut, changes, if_true]
      exact fun sane => forgotten.not_apart_of_switchIn sane.2

theorem refused_switchOut (sound : track.Sound now) (refused : ¬ track.AdmitsOut hmKernel ts cpu)
    (itid prevState : Nat) : ¬ (track.switchOut hmKernel itid ts cpu prevState).rows.Pairwise Apart := by
  simp only [AdmitsOut, not_or, Bool.not_eq_true, not_and] at refused
  obtain ⟨stays, unsettled⟩ := refused
  by_cases only : track.OnlyLastOpen
  · obtain ⟨pending, known, notRunning⟩ := unsettled only
    obtain ⟨wakeup, pending⟩ := Option.ne_none_iff_exists'.mp pending
    obtain ⟨thread, known⟩ := Option.ne_none_iff_exists'.mp known
    obtain ⟨row, found, -⟩ := sound.last thread known
    have inside := lookup_lt found
    -- the row of the wakeup is open, and the row that is closed next is another one
    obtain ⟨runnable, runnableFound, runnableOpen⟩ :=
      (track.closeLast wakeup).append_last_open itid wakeup invalidCpu taskRunnable
    have checked := check_of_pending pending notRunning itid
    have length : (track.closeLast wakeup).rows.length = track.rows.length := by
      simp [Track.closeLast, known, Track.closeAt]
    rw [length] at runnableFound
    have different := inside.ne
    have kept : ((track.check itid).closeAt thread.row ts).rows[track.rows.length]? = some runnable := by
      rw [checked]
      simp [Track.closeAt, Track.unpend, different, runnableFound]
    have longer : ((track.check itid).closeAt thread.row ts).rows.length = track.rows.length + 1 := by
      rw [checked]
      simp [Track.closeAt, Track.unpend, Track.append, length]
    have appended : (((track.check itid).closeAt thread.row ts).append itid ts invalidCpu prevState).rows[
        track.rows.length]? = some runnable := by
      rw [Track.append, getElem?_append_left (by omega), kept]
    have last := ((track.check itid).closeAt thread.row ts).append_last_open itid ts invalidCpu prevState
    rw [longer] at last
    simp only [Track.switchOut, known, stays]
    exact not_apart_of_two_open ((Nat.lt_succ_self _).ne) ⟨runnable, appended, runnableOpen⟩ last
  · obtain ⟨index, forgotten⟩ := exists_forgotten only
    exact forgotten.not_apart_switchOut stays itid prevState

end Refused

end Track

namespace CpuFilter

variable {filter : CpuFilter} {hmKernel : Bool} {now ts cpu prevPid prevState nextPid itid : Nat}
  {nextPrio : Int}

theorem sane_iff_tracks (now : Nat) (filter : CpuFilter) :
    Sane now filter.rows ↔ ∀ itid, (filter.track itid).Sane now := by
  constructor
  · intro sane itid
    exact ⟨fun row member => sane.1 row (mem_filter.mp member).1, sane.2 itid⟩
  · intro sane
    refine ⟨fun row member => ?_, fun itid => (sane itid).2⟩
    exact (sane row.itid).1 row (mem_filter.mpr ⟨member, beq_self_eq_true _⟩)

theorem abandoned_ne (abandons : filter.abandoned cpu prevPid = some itid) : prevPid ≠ itid := by
  unfold abandoned at abandons
  split at abandons
  · cases abandons
  · split at abandons
    · cases abandons
    · split at abandons
      next other =>
        cases abandons
        exact fun same => other.1 same.symm
      · cases abandons

/-- Between the two halves of a switch event a thread has been switched in or
left alone, and may have lost its row unless it is the one to be switched out. -/
theorem track_betweenHalves (valid : filter.Valid) (ts cpu prevPid prevState nextPid : Nat) (nextPrio : Int)
    (itid : Nat) :
    ∃ track, track = (if nextPid ≠ 0 ∧ nextPid = itid then (filter.track itid).switchIn itid ts cpu
        else filter.track itid) ∧
      ((filter.betweenHalves ts cpu prevPid prevState nextPid nextPrio).track itid = track ∨
        ((filter.betweenHalves ts cpu prevPid prevState nextPid nextPrio).track itid = track.forget ∧
          prevPid ≠ itid)) := by
  refine ⟨_, rfl, ?_⟩
  have sliced := valid_insertSchedSlice valid ts cpu prevState nextPid nextPrio
  by_cases idle : nextPid = 0
  · left
    simp only [idle]
    rfl
  · have switched : ((filter.insertSchedSlice ts cpu prevState nextPid nextPrio).switchedIn ts cpu nextPid).track
        itid = if nextPid ≠ 0 ∧ nextPid = itid then (filter.track itid).switchIn itid ts cpu
          else filter.track itid := by
      by_cases own : nextPid = itid
      · subst own
        rw [if_pos ⟨idle, rfl⟩]
        exact (acts_switchedIn sliced ts cpu nextPid).own
      · rw [if_neg (fun both => own both.2)]
        exact (acts_switchedIn sliced ts cpu nextPid).other itid own
    simp only [betweenHalves, ne_eq, idle, not_false_eq_true, if_true]
    rw [track_procNextPidSwitchEvent sliced, switched]
    by_cases abandons : ((filter.insertSchedSlice ts cpu prevState nextPid nextPrio).switchedIn ts cpu
        nextPid).abandoned cpu prevPid = some itid
    · right
      rw [if_pos abandons]
      exact ⟨by simp [idle], abandoned_ne abandons⟩
    · rw [if_neg abandons]
      simp [idle]

def Admits (hmKernelTraceEnabled : Bool) (filter : CpuFilter) : SchedEvent → Prop
  | .switch ts cpu prevPid _ nextPid _ =>
    (nextPid.toNat ≠ 0 → (filter.track nextPid.toNat).AdmitsIn) ∧
      (prevPid.toNat ≠ 0 → prevPid.toNat ≠ nextPid.toNat →
        (filter.track prevPid.toNat).AdmitsOut hmKernelTraceEnabled ts.val cpu.toNat)
  | .wakeup .. => True

structure Sound (now : Nat) (filter : CpuFilter) : Prop where
  valid : filter.Valid
  tracks : ∀ itid, (filter.track itid).Sound now

section
variable (sound : filter.Sound now)
include sound

theorem Sound.insertSwitchEvent (forward : now ≤ ts) (valid : ts < invalidTime)
    (admitsIn : nextPid ≠ 0 → (filter.track nextPid).AdmitsIn)
    (admitsOut : prevPid ≠ 0 → prevPid ≠ nextPid → (filter.track prevPid).AdmitsOut hmKernel ts cpu) :
    (filter.insertSwitchEvent hmKernel ts cpu prevPid prevState nextPid nextPrio).Sound ts where
  valid := valid_insertSwitchEvent sound.valid ..
  tracks := by
    intro itid
    have before := sound.tracks itid
    rw [track_insertSwitchEvent sound.valid]
    obtain ⟨track, shape, between⟩ := track_betweenHalves sound.valid ts cpu prevPid prevState nextPid nextPrio itid
    by_cases entering : nextPid ≠ 0 ∧ nextPid = itid
    · rw [if_pos entering] at shape
      obtain ⟨nonzero, rfl⟩ := entering
      obtain ⟨switched, only, unpended⟩ := Track.switchIn_sound before (admitsIn nonzero) forward valid nextPid cpu
      rw [← shape] at switched only unpended
      by_cases leaving : prevPid ≠ 0 ∧ prevPid = nextPid
      · -- the thread is switched out again by the event that switched it in
        rw [if_pos leaving]
        rcases between with same | ⟨-, other⟩
        · rw [same]
          exact Track.switchOut_sound switched (.inr ⟨only, .inl unpended⟩) le_rfl valid _ _
        · exact absurd leaving.2 other
      · rw [if_neg leaving]
        rcases between with same | ⟨forgets, -⟩
        · exact same ▸ switched
        · exact forgets ▸ Track.forget_sound switched
    · rw [if_neg entering] at shape
      subst shape
      by_cases leaving : prevPid ≠ 0 ∧ prevPid = itid
      · rw [if_pos leaving]
        obtain ⟨nonzero, rfl⟩ := leaving
        rcases between with same | ⟨-, other⟩
        · rw [same]
          have distinct : prevPid ≠ nextPid := fun equal => entering ⟨equal ▸ nonzero, equal.symm⟩
          exact Track.switchOut_sound before (admitsOut nonzero distinct) forward valid _ _
        · exact absurd rfl other
      · rw [if_neg leaving]
        rcases between with same | ⟨forgets, -⟩
        · exact same ▸ before.later forward
        · exact forgets ▸ Track.forget_sound (before.later forward)

theorem Sound.refused (forward : now ≤ ts) (valid : ts < invalidTime) (sane : Sane ts
      (filter.insertSwitchEvent hmKernel ts cpu prevPid prevState nextPid nextPrio).rows) :
    (nextPid ≠ 0 → (filter.track nextPid).AdmitsIn) ∧
      (prevPid ≠ 0 → prevPid ≠ nextPid → (filter.track prevPid).AdmitsOut hmKernel ts cpu) := by
  rw [sane_iff_tracks] at sane
  have small : now < 2 ^ 64 := by
    simp only [invalidTime] at valid
    omega
  constructor
  · intro nonzero
    by_contra refuses
    have after := sane nextPid
    rw [track_insertSwitchEvent sound.valid] at after
    obtain ⟨track, shape, between⟩ :=
      track_betweenHalves sound.valid ts cpu prevPid prevState nextPid nextPrio nextPid
    rw [if_pos ⟨nonzero, rfl⟩] at shape
    subst shape
    have rows : ((filter.betweenHalves ts cpu prevPid prevState nextPid nextPrio).track nextPid).rows =
        ((filter.track nextPid).switchIn nextPid ts cpu).rows := by
      rcases between with same | ⟨forgets, -⟩
      · rw [same]
      · rw [forgets]
        rfl
    by_cases leaving : prevPid ≠ 0 ∧ prevPid = nextPid
    · rw [if_pos leaving] at after
      rcases between with same | ⟨-, other⟩
      · exact Track.refused_switchIn_switchOut (sound.tracks nextPid) small valid refuses prevState (same ▸ after)
      · exact absurd leaving.2 other
    · rw [if_neg leaving, Track.Sane, rows] at after
      rcases Track.refused_switchIn (sound.tracks nextPid) small refuses nextPid ts cpu with late | ⟨index, forgotten⟩
      · exact late.not_sane valid after
      · exact forgotten.not_apart_of_switchIn after.2
  · intro nonzero distinct
    by_contra refuses
    have after := sane prevPid
    rw [track_insertSwitchEvent sound.valid] at after
    obtain ⟨track, shape, between⟩ :=
      track_betweenHalves sound.valid ts cpu prevPid prevState nextPid nextPrio prevPid
    rw [if_neg (fun both => distinct both.2.symm)] at shape
    subst shape
    rcases between with same | ⟨-, other⟩
    · simp only [same, ne_eq, nonzero] at after
      exact Track.refused_switchOut (sound.tracks prevPid) refuses prevPid prevState after.2
    · exact absurd rfl other

theorem Sound.insertWakeupEvent (forward : now ≤ ts) (itid : Nat) :
    (filter.insertWakeupEvent ts itid false).Sound ts where
  valid := valid_insertWakeupEvent sound.valid ts itid false
  tracks := by
    intro other
    by_cases own : itid = other
    · subst own
      rw [track_insertWakeupEvent_own]
      exact Track.wake_sound (sound.tracks itid) forward
    · rw [track_insertWakeupEvent_other filter own]
      exact (sound.tracks other).later forward

theorem Sound.sane : Sane now filter.rows :=
  (sane_iff_tracks now filter).mpr fun itid => (sound.tracks itid).sane

end

theorem sound_initial : ({} : CpuFilter).Sound 0 where
  valid := ⟨nofun, nofun⟩
  tracks := fun itid => by
    have track : ({} : CpuFilter).track itid = { rows := [], last := none, pending := none } := rfl
    rw [track]
    exact ⟨⟨by simp, .nil⟩, by simp, by simp, by simp⟩

/-- After any events the remembered rows exist, those of a thread as its own. -/
theorem valid_run (events : List SchedEvent) : (run hmKernel {} events).Valid := by
  induction events using reverseRecOn with
  | nil => exact sound_initial.valid
  | append_singleton events event ih =>
    rw [run, foldl_append]
    cases event with
    | switch => exact valid_insertSwitchEvent ih ..
    | wakeup => exact valid_insertWakeupEvent ih ..

variable {event : SchedEvent}

theorem Sound.insert (sound : filter.Sound now) (forward : now ≤ event.ts)
    (admits : filter.Admits hmKernel event) :
    (filter.insert hmKernel event).Sound event.ts := by
  cases event with
  | switch ts cpu prevPid prevState nextPid nextPrio =>
    exact sound.insertSwitchEvent forward ts.isLt admits.1 admits.2
  | wakeup ts internalTid => exact sound.insertWakeupEvent forward internalTid.toNat

theorem Sound.sane_insert_iff (sound : filter.Sound now) (forward : now ≤ event.ts) :
    Sane event.ts (filter.insert hmKernel event).rows ↔ filter.Admits hmKernel event := by
  constructor
  · intro sane
    cases event with
    | switch ts cpu prevPid prevState nextPid nextPrio => exact sound.refused forward ts.isLt sane
    | wakeup ts internalTid => trivial
  · exact fun admits => (sound.insert forward admits).sane

theorem Sound.sane_along_iff (sound : filter.Sound now) (events : List SchedEvent)
    (ordered : (now :: events.map SchedEvent.ts).Pairwise (· ≤ ·)) :
    Along (CpuFilter.insert hmKernel)
        (fun before event => Sane event.ts (before.insert hmKernel event).rows) filter events ↔
      Along (CpuFilter.insert hmKernel) (Admits hmKernel) filter events := by
  refine along_iff (fun filter events => ∃ now, filter.Sound now ∧
    (now :: events.map SchedEvent.ts).Pairwise (· ≤ ·)) ?_ ?_ ⟨now, sound, ordered⟩
  · rintro filter event rest ⟨now, sound, ordered⟩
    exact sound.sane_insert_iff ((pairwise_cons.mp ordered).1 event.ts (by simp))
  · rintro filter event rest ⟨now, sound, ordered⟩ admits
    obtain ⟨first, later⟩ := pairwise_cons.mp ordered
    exact ⟨event.ts, sound.insert (first event.ts (by simp)) admits, later⟩

end CpuFilter

/-- In a run with nondecreasing timestamps every event leaves the rows sane
exactly if every event is admitted by the state it meets: a thread that is
switched in has no forgotten open row and no wakeup older than its last row, and a
thread that is switched out has no forgotten open row and no unspent wakeup. -/
theorem threadStates_sane_iff_admitted (hmKernelTraceEnabled : Bool) (events : List SchedEvent)
    (ordered : (events.map SchedEvent.ts).Pairwise (· ≤ ·)) :
    Along (CpuFilter.insert hmKernelTraceEnabled)
        (fun before event => Sane event.ts (before.insert hmKernelTraceEnabled event).rows) {} events ↔
      Along (CpuFilter.insert hmKernelTraceEnabled) (CpuFilter.Admits hmKernelTraceEnabled) {} events :=
  CpuFilter.sound_initial.sane_along_iff events (pairwise_cons.mpr ⟨fun _ _ => Nat.zero_le _, ordered⟩)

def inAndOut : List SchedEvent :=
  [.switch ⟨1, by decide⟩ 0 0 0 1 120, .switch ⟨5, by decide⟩ 0 1 1 0 120]

theorem threadStates_inAndOut_sane :
    Along (CpuFilter.insert false) (fun before event => Sane event.ts (before.insert false event).rows) {} inAndOut := by
  refine (threadStates_sane_iff_admitted false inAndOut (by decide)).mpr ⟨⟨?_, by simp⟩, ⟨by simp, ?_⟩, trivial⟩
  · intro _
    refine ⟨fun index row found => ?_, fun wakeup thread row pending => ?_⟩
    · cases found
    · cases pending
  · intro _ _
    have running : (CpuFilter.insert false {} (.switch ⟨1, by decide⟩ 0 0 0 1 120)).track 1 =
        { rows := [⟨1, invalidTime, 0, 1, 3⟩], last := some ⟨0, taskRunning⟩, pending := none } := by
      decide
    refine .inr ⟨fun index row found _ => ⟨⟨0, taskRunning⟩, ?_, ?_⟩, .inl ?_⟩
    · exact congrArg Track.last running
    · have inside := lookup_lt found
      exact (Nat.lt_one_iff.mp inside).symm
    · exact congrArg Track.pending running

/-- A wakeup of an unknown thread, its switch-out without a switch-in, and then
a switch-in. -/
def wokenBeforeSeen : List SchedEvent :=
  [.wakeup ⟨1, by decide⟩ 1, .switch ⟨5, by decide⟩ 0 1 1 0 120, .switch ⟨9, by decide⟩ 0 0 0 1 120]

/-- The wakeup at 1 closes the row that starts at 5, and its duration wraps. -/
theorem threadStates_wokenBeforeSeen_overrun :
    (wokenBeforeSeen.map SchedEvent.ts).Pairwise (· ≤ ·) ∧
      ∃ row ∈ (CpuFilter.run false {} wokenBeforeSeen).rows, row.isOpen = false ∧ 9 < row.timeStamp + row.duration := by
  refine ⟨by decide, ⟨5, 2 ^ 64 - 4, invalidCpu, 1, 1⟩, ?_, ?_, ?_⟩
  · decide +kernel
  · decide
  · decide

end SmartPerf.Sched
