import SmartPerf.Pipeline.Progress

namespace SmartPerf.Pipeline

/-! How the pipeline starts its threads and how it comes to its end. -/

variable {Segment Line : Type*}

structure Ending (segments : List Segment) (state : State Segment Line) : Prop where
  exit_pending : state.toExit = true → state.pending = []
  exit_reader : state.toExit = true → state.reader = .wait ∨ state.reader = .done
  exit_started : state.toExit = true → state.filter ≠ .unstarted
  unstarted : state.filter = .unstarted → state.filterThreadStarted = false
  started : state.filterThreadStarted = false → state.filter = .unstarted ∨ state.exited = true
  exited_iff : state.exited = true ↔ state.filter = .cleanup ∨ state.filter = .stopped
  exited_exit : state.exited = true → state.toExit = true
  leaving : ParserPoint.leaving ∈ state.parsers → state.toExit = true
  launched : state.parseThreadStarted = true → state.filter = .unstarted →
    (∃ missing, state.reader = .spawn missing) ∨ state.reader = .startFilter
  begun : state.pending = segments ∨ state.reader = .launch ∨ state.parseThreadStarted = true
  finished : state.reader = .finish ∨ state.reader = .wait ∨ state.reader = .done → state.pending = []
  waits : state.reader = .wait → state.toExit = true
  reported : state.reader = .done → state.exited = true ∨ segments = []

namespace Ending

variable {config : Config Segment Line} {segments : List Segment} {state : State Segment Line}

theorem start (segments : List Segment) : Ending segments (State.start segments : State Segment Line) := by
  constructor <;> simp [State.start]

section

variable (ending : Ending segments state) {before after : ReaderPoint} {slots : Nat → DataSegment Segment Line}
include ending

theorem startFilter_unstarted (flag : state.filterThreadStarted = false)
    (point : state.reader = .startFilter) : state.filter = .unstarted := by
  refine (ending.started flag).resolve_right fun exited => ?_
  have waits := ending.exit_reader (ending.exited_exit exited)
  simp [point] at waits

theorem toExit_eq_false {before : ReaderPoint} (point : state.reader = before)
    (reads : before ≠ .wait ∧ before ≠ .done := by simp) : state.toExit = false := by
  subst point
  cases exits : state.toExit with
  | false => rfl
  | true =>
    rcases ending.exit_reader exits with waits | ended
    · exact absurd waits reads.1
    · exact absurd ended reads.2

theorem filter_started {before : ReaderPoint} (point : state.reader = before)
    (threads : state.parseThreadStarted = true ∨ state.filterThreadStarted = true)
    (elsewhere : (∀ missing, before ≠ .spawn missing) ∧ before ≠ .startFilter := by simp) : state.filter ≠ .unstarted := by
  intro unstarted
  subst point
  rcases threads with parsers | filter
  · rcases ending.launched parsers unstarted with ⟨missing, spawns⟩ | starts
    · exact elsewhere.1 missing spawns
    · exact elsewhere.2 starts
  · rw [ending.unstarted unstarted] at filter
    cases filter

theorem launched_unless (point : state.reader = before)
    (elsewhere : (∀ missing, before ≠ .spawn missing) ∧ before ≠ .startFilter := by simp) :
    state.parseThreadStarted = true → state.filter = .unstarted →
      (∃ missing, after = .spawn missing) ∨ after = .startFilter :=
  fun parsers unstarted => absurd unstarted (ending.filter_started point (.inl parsers) elsewhere)

theorem begun_unless (point : state.reader = before) (elsewhere : before ≠ .launch := by simp) :
    state.pending = segments ∨ after = .launch ∨ state.parseThreadStarted = true := by
  subst point
  rcases ending.begun with pending | launch | threads
  · exact .inl pending
  · exact absurd launch elsewhere
  · exact .inr (.inr threads)

/-- The reader goes on to a point where it does not wait for the end. -/
theorem reader_moves {pending : List Segment} {parsers : List ParserPoint} {threads : Bool}
    {rawDataHead parserThreadCount : Nat} (point : state.reader = before)
    (launched : threads = true → state.filter = .unstarted → (∃ missing, after = .spawn missing) ∨ after = .startFilter)
    (begun : pending = segments ∨ after = .launch ∨ threads = true)
    (finished : after = .finish → pending = [] := by simp) (reads : before ≠ .wait ∧ before ≠ .done := by simp)
    (still : after ≠ .wait ∧ after ≠ .done := by simp)
    (crew : .leaving ∈ parsers → .leaving ∈ state.parsers := by simp [State.setStatus, State.setSlot]) :
    Ending segments { state with
      dataSegArray := slots, rawDataHead, parserThreadCount, pending, parsers, parseThreadStarted := threads, reader := after } := by
  have running : state.toExit ≠ true := by simp [ending.toExit_eq_false point reads]
  refine { ending with
      exit_pending := fun exits => absurd exits running
      exit_reader := fun exits => absurd exits running
      leaving := fun leaves => ending.leaving (crew leaves)
      launched
      begun
      finished := fun ended => ?_
      waits := fun waits => absurd waits still.1
      reported := fun ended => absurd ended still.2 }
  rcases ended with finish | waits | ended
  · exact finished finish
  · exact absurd waits still.1
  · exact absurd ended still.2

theorem reader_startsFilter (point : state.reader = .startFilter) :
    Ending segments { state with filterThreadStarted := true, filter := .load, reader := .load } := by
  have running : state.toExit ≠ true := by simp [ending.toExit_eq_false point]
  refine { ending with
      exit_reader := fun exits => absurd exits running
      exit_started := fun _ started => (nomatch started)
      unstarted := fun started => (nomatch started)
      started := fun flag => (nomatch flag)
      exited_iff := ⟨fun exited => absurd (ending.exited_exit exited) running, fun ended => ?_⟩
      launched := fun _ started => (nomatch started)
      begun := ending.begun_unless point
      finished := fun ended => ?_
      waits := fun waits => (nomatch waits)
      reported := fun ended => (nomatch ended) }
  · rcases ended with impossible | impossible <;> cases impossible
  · rcases ended with impossible | impossible | impossible <;> cases impossible

theorem readerStep : Ending segments (state.readerStep config) := by
  unfold State.readerStep
  split
  · -- no segment is left
    rename_i point empty
    exact ending.reader_moves point (ending.launched_unless point) (ending.begun_unless point) fun _ => empty
  next point _ =>
    split
    · exact ending.reader_moves point (ending.launched_unless point) (ending.begun_unless point)
    · exact ending
  next point _ =>
    exact ending.reader_moves point (ending.launched_unless point) (ending.begun_unless point)
  next point =>
    exact ending.reader_moves point (ending.launched_unless point) (ending.begun_unless point)
  next point =>
    exact ending.reader_moves point (ending.launched_unless point) (.inr (.inl rfl))
  next point =>
    split
    next threads =>
      exact ending.reader_moves point (fun _ _ => .inr rfl) (.inr (.inr threads))
    · exact ending.reader_moves point (fun _ _ => .inl ⟨_, rfl⟩) (.inr (.inr rfl))
  next missing point =>
    exact ending.reader_moves point (fun _ _ => .inl ⟨_, rfl⟩) (ending.begun_unless point)
  next point =>
    exact ending.reader_moves point (fun _ _ => .inr rfl) (ending.begun_unless point)
  next point =>
    split
    next filter =>
      refine ending.reader_moves point (fun _ unstarted => ?_) (ending.begun_unless point)
      rw [ending.unstarted unstarted] at filter
      cases filter
    · exact ending.reader_startsFilter point
  next point =>
    have empty := ending.finished (.inl point)
    split
    next threads =>
      have started := ending.filter_started point threads
      exact { ending with
          exit_pending := fun _ => empty
          exit_reader := fun _ => .inl rfl
          exit_started := fun _ => started
          exited_exit := fun _ => rfl
          leaving := fun _ => rfl
          launched := fun _ unstarted => absurd unstarted started
          begun := ending.begun_unless point
          finished := fun _ => empty
          waits := fun _ => rfl
          reported := fun ended => by cases ended }
    next threads =>
      have nothing : segments = [] := by
        rcases ending.begun with pending | launch | parsers
        · rw [← pending, empty]
        · rw [point] at launch
          cases launch
        · exact absurd (.inl parsers) threads
      exact { ending with
          exit_reader := fun _ => .inr rfl
          launched := fun parsers _ => absurd (.inl parsers) threads
          begun := ending.begun_unless point
          finished := fun _ => empty
          waits := fun waits => by cases waits
          reported := fun _ => .inr nothing }
  next point =>
    split
    next exited =>
      exact { ending with
          exit_reader := fun _ => .inr rfl
          launched := ending.launched_unless point
          begun := ending.begun_unless point
          finished := fun _ => ending.finished (.inr (.inl point))
          waits := fun waits => by cases waits
          reported := fun _ => .inl exited }
    · exact ending
  · exact ending
  · exact ending

theorem exited_eq (exits : state.toExit = true) (other : Bool) :
    (state.exited || (other && !state.filterThreadStarted)) = state.exited := by
  cases flag : state.filterThreadStarted with
  | true => simp
  | false =>
    rcases ending.started flag with unstarted | exited
    · exact absurd unstarted (ending.exit_started exits)
    · simp [exited]

theorem parser_moves {thread : Nat} {point : ParserPoint}
    (leaves : point = .leaving → state.toExit = true := by simp) :
    ParserPoint.leaving ∈ state.parsers.set thread point → state.toExit = true := by
  intro member
  rcases List.mem_or_eq_of_mem_set member with member | here
  · exact ending.leaving member
  · exact leaves here.symm

theorem parserStep (thread : Nat) : Ending segments (state.parserStep config thread) := by
  unfold State.parserStep
  split
  · unfold State.getNextSegment
    split
    · exact ending
    · split
      · exact { ending with leaving := ending.parser_moves }
      · exact { ending with leaving := ending.parser_moves }
  · unfold State.testToExit
    split
    next exits =>
      rw [ending.exited_eq exits]
      exact { ending with leaving := fun _ => exits }
    · exact { ending with leaving := ending.parser_moves }
  · simp only [State.parserData]
    split
    · exact { ending with leaving := ending.parser_moves }
    · exact { ending with leaving := ending.parser_moves }
    · exact { ending with leaving := ending.parser_moves }
    · exact ending
  next found =>
    have exits := ending.leaving (List.mem_of_getElem? found)
    rw [ending.exited_eq exits]
    exact { ending with leaving := fun _ => exits }
  · exact ending
  · exact ending

theorem filter_moves {before after : FilterPoint}
    {filterHead : Nat} {filtered : List (Passed Line)} (point : state.filter = before)
    (runs : before ≠ .unstarted ∧ before ≠ .cleanup ∧ before ≠ .stopped := by simp)
    (still : after ≠ .unstarted ∧ after ≠ .cleanup ∧ after ≠ .stopped := by simp) :
    Ending segments { state with dataSegArray := slots, filterHead, filtered, filter := after } := by
  subst point
  have unfinished : state.exited ≠ true := by
    intro exited
    rcases ending.exited_iff.mp exited with cleanup | stopped
    · exact runs.2.1 cleanup
    · exact runs.2.2 stopped
  refine { ending with
      exit_started := fun _ => still.1
      unstarted := fun unstarted => absurd unstarted still.1
      started := fun flag => ?_
      exited_iff := ?_
      launched := fun _ unstarted => absurd unstarted still.1 }
  · rcases ending.started flag with unstarted | exited
    · exact absurd unstarted runs.1
    · exact .inr exited
  · refine ⟨fun exited => absurd exited unfinished, fun ended => ?_⟩
    rcases ended with cleanup | stopped
    · exact absurd cleanup still.2.1
    · exact absurd stopped still.2.2

theorem filterStep : Ending segments (state.filterStep config) := by
  unfold State.filterStep
  split
  · exact ending
  next point =>
    split
    · exact ending.filter_moves point
    · exact ending.filter_moves point
  next point =>
    split
    · exact ending.filter_moves point
    · exact ending.filter_moves point
  next point =>
    split
    next exits =>
      exact { ending with
          exit_started := fun _ started => (nomatch started)
          unstarted := fun started => (nomatch started)
          started := fun _ => .inr rfl
          exited_iff := ⟨fun _ => .inl rfl, fun _ => rfl⟩
          exited_exit := fun _ => exits.1
          launched := fun _ started => (nomatch started)
          reported := fun _ => .inl rfl }
    · exact ending.filter_moves point
  next point =>
    split
    · exact ending.filter_moves point
    · exact ending.filter_moves point
  next point => exact ending.filter_moves point
  next point => exact ending.filter_moves point
  next point => exact ending.filter_moves point
  next point => exact ending.filter_moves point
  next point =>
    have exited := ending.exited_iff.mpr (.inl point)
    exact { ending with
        exit_started := fun _ started => (nomatch started)
        unstarted := fun started => (nomatch started)
        started := fun _ => .inr exited
        exited_iff := ⟨fun _ => .inr rfl, fun _ => exited⟩
        launched := fun _ started => (nomatch started) }
  · exact ending

theorem step (party : Party) : Ending segments (state.step config party) :=
  match party with
  | .reader => ending.readerStep
  | .parser thread => ending.parserStep thread
  | .filter => ending.filterStep

end

end Ending

end SmartPerf.Pipeline
