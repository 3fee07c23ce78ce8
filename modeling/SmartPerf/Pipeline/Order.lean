import SmartPerf.Data.Run
import SmartPerf.Pipeline.Ending

namespace SmartPerf.Pipeline

open Data

/-! What the pipeline does with its input over any interleaving of its parties. -/

variable {Segment Line : Type*}

/-- The segments are passed in the order of the file, each parsed by one thread and passed once;
a segment stays in its slot until it is passed; and when the end is reported, all are passed. -/
structure Sound (config : Config Segment Line) (segments : List Segment) (state : State Segment Line) : Prop where
  in_order : state.filtered.map Passed.line =
    (segments.take state.filtered.length).map fun segment => (config.parserData segment).line
  parsed_once : ∀ entry ∈ state.filtered, ∃ thread, entry.parsedBy = [thread]
  kept : ∀ index, state.filtered.length ≤ index → index < segments.length - state.pending.length →
    (state.dataSegArray (index % config.maxSegArraySize)).seg = segments[index]?
  complete : state.exited = true ∨ state.reader = .done → state.filtered.length = segments.length

/-- If the filter thread ends with this step, it does so over a free slot. -/
def State.ExitsEmpty (state : State Segment Line) (party : Party) : Prop :=
  party = .filter → state.filter = .exitTest → state.toExit = true → state.parserThreadCount = 0 →
    (state.dataSegArray state.filterHead).status = .init

structure Invariant (config : Config Segment Line) (segments : List Segment) (state : State Segment Line) : Prop where
  progress : ∃ pushed claimed passed, Progress config segments state pushed claimed passed
  ending : Ending segments state

section Steps

variable {config : Config Segment Line} {segments : List Segment} {state : State Segment Line}

theorem Invariant.start (config : Config Segment Line) (segments : List Segment) :
    Invariant config segments (State.start segments) :=
  ⟨⟨0, 0, 0, Progress.start config segments⟩, Ending.start segments⟩

theorem Invariant.step (invariant : Invariant config segments state) (party : Party) :
    Invariant config segments (state.step config party) := by
  obtain ⟨⟨pushed, claimed, passed, progress⟩, ending⟩ := invariant
  refine ⟨?_, ending.step party⟩
  cases party with
  | reader =>
    obtain ⟨pushed, progress⟩ := progress.readerStep ending.startFilter_unstarted
    exact ⟨pushed, claimed, passed, progress⟩
  | parser thread =>
    rcases progress.parserStep thread with ⟨_, progress⟩ | ⟨_, progress⟩
    · exact ⟨pushed, claimed + 1, passed, progress⟩
    · exact ⟨pushed, claimed, passed, progress⟩
  | filter => exact ⟨pushed, claimed, _, progress.filterStep⟩

/-- When nothing more is to be read, the slot under the filter head is free exactly if every
segment is passed. -/
theorem Invariant.exit_iff (invariant : Invariant config segments state) (point : state.filter = .exitTest)
    (exits : state.toExit = true) :
    (state.dataSegArray state.filterHead).status = .init ↔ state.filtered.length = segments.length := by
  obtain ⟨⟨pushed, claimed, passed, progress⟩, ending⟩ := invariant
  have slots := progress.slots
  have filters := progress.filters
  have pending := ending.exit_pending exits
  have ahead : state.reader.ahead = 0 := by
    rcases ending.exit_reader exits with point | point <;> rw [point] <;> rfl
  rw [progress.reads.pending_eq, List.drop_eq_nil_iff] at pending
  rw [point] at slots filters
  have length : state.filtered.length = passed := filters.length_eq
  have head : state.filterHead = passed % config.maxSegArraySize := filters.head_eq
  rw [ahead] at slots
  have released_le : passed ≤ claimed := slots.released_le
  have claimed_le : claimed ≤ pushed := slots.claimed_le
  have pushed_le : pushed ≤ segments.length := slots.separated_le
  rw [head]
  constructor
  · intro free
    by_contra short
    by_cases taken : passed < claimed
    · have taken := (slots.taken passed le_rfl taken).2
      simp [DataSegment.Taken, free] at taken
    · have waiting := (slots.waiting passed (by omega) (show passed < pushed by omega)).2.1
      simp [free] at waiting
  · intro all
    have positive := config.maxSegArraySize_pos
    exact slots.free passed (show pushed ≤ passed by omega) (show passed < passed + _ by omega)

theorem Ending.exited_step (ending : Ending segments state) (party : Party)
    (exited : (state.step config party).exited = true) :
    (state.step config party).filtered = state.filtered ∧
      (state.exited = true ∨
        party = .filter ∧ state.filter = .exitTest ∧ state.toExit = true ∧ state.parserThreadCount = 0) := by
  cases party with
  | reader =>
    simp only [State.step, State.readerStep] at exited ⊢
    grind [State.setSlot, State.setStatus]
  | parser thread =>
    simp only [State.step, State.parserStep] at exited ⊢
    split at exited
    · grind [State.getNextSegment, State.setSlot, State.setStatus, State.setParser]
    · unfold State.testToExit at exited ⊢
      split at exited
      next exits =>
        rw [ending.exited_eq exits] at exited
        rw [if_pos exits]
        exact ⟨rfl, .inl exited⟩
      next stays =>
        rw [if_neg stays]
        exact ⟨rfl, .inl exited⟩
    · grind [State.parserData, State.setSlot, State.setParser]
    next found =>
      rw [ending.exited_eq (ending.leaving (List.mem_of_getElem? found))] at exited
      exact ⟨rfl, .inl exited⟩
    · exact ⟨rfl, .inl exited⟩
    · exact ⟨rfl, .inl exited⟩
  | filter =>
    have reported := ending.exited_iff
    simp only [State.step, State.filterStep] at exited ⊢
    grind [State.setSlot, State.setStatus, State.pass]

theorem Invariant.complete_step (invariant : Invariant config segments state) {party : Party}
    (complete : state.exited = true → state.filtered.length = segments.length) (empty : state.ExitsEmpty party) :
    (state.step config party).exited = true → (state.step config party).filtered.length = segments.length := by
  intro exited
  obtain ⟨same, before | ⟨acts, point, exits, none⟩⟩ := invariant.ending.exited_step party exited
  · rw [same]
    exact complete before
  · rw [same]
    exact (invariant.exit_iff point exits).mp (empty acts point exits none)

theorem Invariant.sound (invariant : Invariant config segments state)
    (complete : state.exited = true → state.filtered.length = segments.length) : Sound config segments state := by
  obtain ⟨⟨pushed, claimed, passed, progress⟩, ending⟩ := invariant
  have filters := progress.filters
  have slots := progress.slots
  refine ⟨filters.lines, filters.parsed_once, ?_, ?_⟩
  · intro index lower upper
    have released : state.filter.freed ≤ state.filter.logged := by
      cases state.filter <;> simp [FilterPoint.freed, FilterPoint.logged]
    rw [progress.reads.pending_eq, List.length_drop] at upper
    rw [filters.length_eq] at lower
    by_cases taken : index < claimed
    · exact (slots.taken index (by omega) taken).1
    · exact (slots.waiting index (by omega) (by omega)).1
  · rintro (exited | point)
    · exact complete exited
    · rcases ending.reported point with exited | rfl
      · exact complete exited
      · have lines := congrArg List.length filters.lines
        simpa using lines

end Steps

/-- For every input and every interleaving: all states reached are sound exactly if the filter
thread, whenever it ends, does so over a free slot. -/
theorem sound_along_iff (config : Config Segment Line) (segments : List Segment) (schedule : List Party) :
    Along (State.step config) (fun state party => Sound config segments (state.step config party))
        (State.start segments) schedule ↔
      Along (State.step config) State.ExitsEmpty (State.start segments) schedule := by
  refine along_iff (fun state _ => Invariant config segments state ∧
    (state.exited = true → state.filtered.length = segments.length)) ?_ ?_
    ⟨Invariant.start config segments, by simp [State.start]⟩
  · rintro state party rest ⟨invariant, complete⟩
    constructor
    · intro sound acts point exits none
      subst acts
      have after : state.step config .filter = { state with exited := true, filter := .cleanup } := by
        simp only [State.step, State.filterStep, point, if_pos (show state.toExit = true ∧ _ from ⟨exits, none⟩)]
      rw [after] at sound
      exact (invariant.exit_iff point exits).mpr (sound.complete (.inl rfl))
    · intro empty
      exact (invariant.step party).sound (invariant.complete_step complete empty)
  · rintro state party rest ⟨invariant, complete⟩ empty
    exact ⟨invariant.step party, invariant.complete_step complete empty⟩

end SmartPerf.Pipeline
