import SmartPerf.Pipeline.Ending

namespace SmartPerf.Pipeline

open List

/-! The parser threads: how many there are, which one holds the lock, and when they leave. -/

variable {Segment Line : Type*}

def ParserPoint.alive : ParserPoint → Bool
  | idle => true
  | waiting => true
  | parsing _ => true
  | leaving => false
  | stopped => false

/-- The thread is about to look at `toExit_`, with the lock held. -/
def HoldsLock (parsers : List ParserPoint) (thread : Nat) : Prop := parsers[thread]? = some .waiting

structure Crew (config : Config Segment Line) (state : State Segment Line) : Prop where
  count_eq : state.parserThreadCount = state.parsers.countP ParserPoint.alive
  locked : state.dataSegMux = true → ∃ thread, HoldsLock state.parsers thread
  holder : ∀ thread, HoldsLock state.parsers thread → state.dataSegMux = true
  alone : ∀ thread other, HoldsLock state.parsers thread → HoldsLock state.parsers other → thread = other
  gone : ∀ point ∈ state.parsers, point.alive = false → state.toExit = true
  unlaunched : state.parseThreadStarted = false → state.parsers = []
  spawning : ∀ missing, state.reader = .spawn missing →
    state.parseThreadStarted = true ∧ state.parsers.length + missing = config.parserThreadNum
  launched : state.parseThreadStarted = true → (∀ missing, state.reader ≠ .spawn missing) →
    state.parsers.length = config.parserThreadNum

theorem countP_set_add {Value : Type*} (holds : Value → Bool) {values : List Value} {index : Nat} {before : Value}
    (after : Value) (found : values[index]? = some before) :
    (values.set index after).countP holds + (if holds before then 1 else 0) =
      values.countP holds + (if holds after then 1 else 0) := by
  obtain ⟨inside, rfl⟩ := List.getElem?_eq_some_iff.mp found
  have counted := @boole_getElem_le_countP _ holds _ _ inside
  rw [countP_set inside]
  omega

namespace Crew

variable {config : Config Segment Line} {segments : List Segment} {state : State Segment Line} {parsers : List ParserPoint}

theorem start (config : Config Segment Line) (segments : List Segment) : Crew config (State.start segments) := by
  constructor <;> simp [State.start, HoldsLock]

theorem holdsLock_spawn {thread : Nat} :
    HoldsLock (parsers ++ [.idle]) thread ↔ HoldsLock parsers thread := by
  simp [HoldsLock, Data.lookup_append_iff]

section
variable (crew : Crew config state)
include crew

theorem spawn {missing : Nat} (point : state.reader = .spawn (missing + 1)) : Crew config
    { state with
        parserThreadCount := state.parserThreadCount + 1
        parsers := state.parsers ++ [.idle]
        reader := .spawn missing } := by
  obtain ⟨flag, length⟩ := crew.spawning _ point
  refine ⟨?_, ?_, ?_, ?_, ?_, ?_, ?_, ?_⟩
  · simp [crew.count_eq, ParserPoint.alive]
  · intro locked
    obtain ⟨thread, waits⟩ := crew.locked locked
    exact ⟨thread, holdsLock_spawn.mpr waits⟩
  · intro thread waits
    exact crew.holder thread (holdsLock_spawn.mp waits)
  · intro thread other first second
    exact crew.alone thread other (holdsLock_spawn.mp first) (holdsLock_spawn.mp second)
  · intro parser member away
    rcases mem_append.mp member with member | member
    · exact crew.gone parser member away
    · rw [mem_singleton.mp member] at away
      cases away
  · simp [flag]
  · rintro missing ⟨⟩
    exact ⟨flag, by simp only [length_append, length_singleton]; omega⟩
  · intro _ elsewhere
    exact absurd rfl (elsewhere missing)

theorem reader_moves {slots : Nat → DataSegment Segment Line} {rawDataHead : Nat}
    {pending : List Segment} {filterThreadStarted : Bool} {filter : FilterPoint} {before after : ReaderPoint}
    (point : state.reader = before) (elsewhere : ∀ missing, before ≠ .spawn missing := by simp)
    (still : ∀ missing, after ≠ .spawn missing := by simp) :
    Crew config
      { state with dataSegArray := slots, rawDataHead, pending, filterThreadStarted, filter, reader := after } :=
  { crew with
    spawning := fun missing spawns => absurd spawns (still missing)
    launched := fun flag _ => crew.launched flag (point ▸ elsewhere) }

theorem readerStep : Crew config (state.readerStep config) := by
  unfold State.readerStep
  split
  next point _ => exact crew.reader_moves point
  next point _ =>
    split
    · exact crew.reader_moves point
    · exact crew
  next point _ => exact crew.reader_moves point
  next point => exact crew.reader_moves point
  next point => exact crew.reader_moves point
  next point =>
    split
    · exact crew.reader_moves point
    next unstarted =>
      have nobody := crew.unlaunched (Bool.eq_false_iff.mpr unstarted)
      refine { crew with
          unlaunched := fun flag => (nomatch flag)
          spawning := fun missing spawns => ⟨rfl, ?_⟩
          launched := fun _ elsewhere => absurd rfl (elsewhere _) }
      cases spawns
      simp [nobody]
  next point => exact crew.spawn point
  next point =>
    obtain ⟨flag, length⟩ := crew.spawning _ point
    exact { crew with
        spawning := fun _ spawns => (nomatch spawns)
        launched := fun _ _ => length }
  next point =>
    split
    · exact crew.reader_moves point
    · exact crew.reader_moves point
  next point =>
    split
    · -- the flag that lets the parser threads leave
      exact { crew with
          gone := fun _ _ _ => rfl
          spawning := fun _ spawns => (nomatch spawns)
          launched := fun flag _ => crew.launched flag (by simp [point]) }
    · exact crew.reader_moves point
  next point =>
    split
    · exact crew.reader_moves point
    · exact crew
  · exact crew
  · exact crew

theorem parser_moves {thread : Nat} {before : ParserPoint} (after : ParserPoint)
    (found : state.parsers[thread]? = some before) (away : after.alive = false → state.toExit = true) :
    (∀ point ∈ state.parsers.set thread after, point.alive = false → state.toExit = true) ∧
      (state.parseThreadStarted = false → state.parsers.set thread after = []) ∧
      (∀ missing, state.reader = .spawn missing → state.parseThreadStarted = true ∧
        (state.parsers.set thread after).length + missing = config.parserThreadNum) ∧
      (state.parseThreadStarted = true → (∀ missing, state.reader ≠ .spawn missing) →
        (state.parsers.set thread after).length = config.parserThreadNum) := by
  refine ⟨?_, ?_, ?_, ?_⟩
  · intro point member gone
    rcases mem_or_eq_of_mem_set member with member | here
    · exact crew.gone point member gone
    · exact away (here ▸ gone)
  · intro flag
    simp [crew.unlaunched flag] at found
  · simpa using crew.spawning
  · simpa using crew.launched

end

theorem holdsLock_set {thread other : Nat} {point : ParserPoint}
    (started : thread < parsers.length) :
    HoldsLock (parsers.set thread point) other ↔
      (other = thread ∧ point = .waiting) ∨ (other ≠ thread ∧ HoldsLock parsers other) := by
  by_cases same : thread = other
  · subst same
    simp [HoldsLock, getElem?_set_self started]
  · simp [HoldsLock, getElem?_set_ne same, Ne.symm same]

section

variable (crew : Crew config state) {thread : Nat}
include crew

theorem parser_step {before after : ParserPoint} {ring : Nat → DataSegment Segment Line} {parseHead : Nat}
    {exited : Bool} (found : state.parsers[thread]? = some before)
    (away : after.alive = false → state.toExit = true := by simp [ParserPoint.alive])
    (without : before ≠ .waiting := by simp) (still : after ≠ .waiting := by simp)
    (same : after.alive = before.alive := by rfl) :
    Crew config
      { state with dataSegArray := ring, parsers := state.parsers.set thread after, parseHead, exited } := by
  have started := Data.lookup_lt found
  obtain ⟨gone, unlaunched, spawning, launched⟩ := crew.parser_moves after found away
  have holds : ∀ other, HoldsLock (state.parsers.set thread after) other ↔ HoldsLock state.parsers other := by
    intro other
    rw [holdsLock_set started]
    constructor
    · rintro (⟨_, impossible⟩ | ⟨_, holds⟩)
      · exact absurd impossible still
      · exact holds
    · intro holds
      refine .inr ⟨?_, holds⟩
      rintro rfl
      rw [HoldsLock, found] at holds
      exact without (Option.some.inj holds)
  refine ⟨?_, ?_, ?_, ?_, gone, unlaunched, spawning, launched⟩
  · have counts := countP_set_add ParserPoint.alive after found
    rw [same] at counts
    have count_eq := crew.count_eq
    simp only
    omega
  · intro locked
    obtain ⟨other, waits⟩ := crew.locked locked
    exact ⟨other, (holds other).mpr waits⟩
  · intro other waits
    exact crew.holder other ((holds other).mp waits)
  · intro one two first second
    exact crew.alone one two ((holds one).mp first) ((holds two).mp second)

theorem lock_step (found : state.parsers[thread]? = some .idle) (free : state.dataSegMux = false) :
    Crew config { state.setParser thread .waiting with dataSegMux := true } := by
  have started := Data.lookup_lt found
  obtain ⟨gone, unlaunched, spawning, launched⟩ :=
    crew.parser_moves .waiting found (by simp [ParserPoint.alive])
  have only : ∀ other, HoldsLock (state.parsers.set thread .waiting) other → other = thread := by
    intro other holds
    rcases (holdsLock_set started).mp holds with ⟨here, _⟩ | ⟨_, holds⟩
    · exact here
    · have locked := crew.holder other holds
      simp [free] at locked
  refine ⟨?_, ?_, ?_, ?_, gone, unlaunched, spawning, launched⟩
  · have counts := countP_set_add ParserPoint.alive .waiting found
    have count_eq := crew.count_eq
    simp only [ParserPoint.alive, State.setParser] at counts ⊢
    omega
  · intro _
    exact ⟨thread, (holdsLock_set started).mpr (.inl ⟨rfl, rfl⟩)⟩
  · intro _ _
    rfl
  · intro one two first second
    rw [only one first, only two second]

theorem unlock_step (found : HoldsLock state.parsers thread)
    (after : ParserPoint) (still : after ≠ .waiting) (away : after.alive = false → state.toExit = true)
    (exited : Bool) :
    Crew config
      { state.setParser thread after with
        dataSegMux := false
        parserThreadCount := state.parserThreadCount - (if after.alive then 0 else 1)
        exited } := by
  have started := Data.lookup_lt found
  obtain ⟨gone, unlaunched, spawning, launched⟩ := crew.parser_moves after found away
  have none : ∀ other, ¬ HoldsLock (state.parsers.set thread after) other := by
    intro other holds
    rcases (holdsLock_set started).mp holds with ⟨_, impossible⟩ | ⟨different, holds⟩
    · exact still impossible
    · exact different (crew.alone other thread holds found)
  refine ⟨?_, ?_, ?_, ?_, gone, unlaunched, spawning, launched⟩
  · have counts := countP_set_add ParserPoint.alive after found
    have count_eq := crew.count_eq
    cases after <;> simp [ParserPoint.alive, State.setParser] at counts ⊢ <;> omega
  · intro impossible
    cases impossible
  · intro other holds
    exact absurd holds (none other)
  · intro one two first
    exact absurd first (none one)

theorem parserStep (ending : Ending segments state) (thread : Nat) : Crew config (state.parserStep config thread) := by
  unfold State.parserStep
  split
  next found =>
    unfold State.getNextSegment
    split
    · exact crew
    next free =>
      split
      · exact crew.parser_step found
      · exact crew.lock_step found (by simpa using free)
  next found =>
    unfold State.testToExit
    split
    next exits => exact crew.unlock_step found .leaving (by simp) (fun _ => exits) _
    · exact crew.unlock_step found .idle (by simp) (by simp [ParserPoint.alive]) state.exited
  next head found =>
    simp only [State.parserData]
    split
    · exact crew.parser_step found
    · exact crew.parser_step found
    · exact crew.parser_step found
    · exact crew
  next found =>
    have exits := ending.leaving (mem_of_getElem? found)
    exact crew.parser_step found fun _ => exits
  · exact crew
  · exact crew

theorem filterStep : Crew config (state.filterStep config) := by
  unfold State.filterStep
  split
  all_goals try split
  all_goals exact { crew with }

theorem exists_alive (counted : state.parserThreadCount ≠ 0) :
    ∃ (thread : Nat) (point : ParserPoint), state.parsers[thread]? = some point ∧ point.alive = true := by
  have positive : 0 < state.parsers.countP ParserPoint.alive := by
    rw [← crew.count_eq]
    omega
  obtain ⟨point, member, alive⟩ := countP_pos_iff.mp positive
  obtain ⟨thread, found⟩ := getElem?_of_mem member
  exact ⟨thread, point, found, alive⟩

end

end Crew

end SmartPerf.Pipeline
