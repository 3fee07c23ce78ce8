import SmartPerf.Pipeline.Crew

namespace SmartPerf.Pipeline

open State FilterPoint

/-! A rank of the states of the pipeline: the work that is left, and below it how far the
parties that poll are from seeing what they wait for. -/

variable {Segment Line : Type*} (state : State Segment Line)

def ReaderPoint.work (parserThreadNum : Nat) : ReaderPoint → Nat
  | load => 4
  | store => 3
  | separate => 2
  | advance => 1
  | launch => 4 * parserThreadNum + 8
  | spawn missing => 4 * missing + 6
  | startFilter => 5
  | finish => 3
  | wait => 2
  | done => 0

def FilterPoint.work : FilterPoint → Nat
  | unstarted => 6
  | load => 6
  | reload => 6
  | exitTest => 6
  | skip => 5
  | process => 5
  | advance => 4
  | release _ => 3
  | advanceReleased => 3
  | cleanup => 2
  | stopped => 1

def ParserPoint.parses : ParserPoint → Bool
  | parsing _ => true
  | _ => false

def ParserPoint.leaves : ParserPoint → Bool
  | leaving => true
  | _ => false

def crewWork (parsers : List ParserPoint) : Nat :=
  2 * parsers.countP ParserPoint.alive + parsers.countP ParserPoint.parses + parsers.countP ParserPoint.leaves

def State.work (config : Config Segment Line) (segments : List Segment) (state : State Segment Line)
    (claimed passed : Nat) : Nat :=
  (4 * config.parserThreadNum + 12) * state.pending.length + state.reader.work config.parserThreadNum +
    2 * (segments.length - claimed) + crewWork state.parsers + 8 * (segments.length - passed) + state.filter.work

def FilterPoint.polls : FilterPoint → Bool
  | load => true
  | reload => true
  | exitTest => true
  | _ => false

def FilterPoint.untilParsed : FilterPoint → Nat
  | exitTest => 2
  | load => 1
  | _ => 0

def FilterPoint.untilInvalid : FilterPoint → Nat
  | reload => 2
  | exitTest => 1
  | _ => 0

/-- Steps of the filter thread until it sees that all threads have left. -/
def FilterPoint.untilExit : FilterPoint → Nat
  | load => 2
  | reload => 1
  | _ => 0

def State.distance : Nat :=
  if state.filter.polls = false then 0
  else
    match (state.dataSegArray state.filterHead).status with
    | .parsed => state.filter.untilParsed
    | .invalid => state.filter.untilInvalid
    | .parsing => 0
    | .seprated =>
      if state.toExit ∧ state.parserThreadCount = 0 then state.filter.untilExit
      else if state.dataSegMux then 1 else 0
    | .init =>
      if state.toExit then
        if state.parserThreadCount = 0 then state.filter.untilExit else if state.dataSegMux then 0 else 1
      else 0

theorem State.distance_le : state.distance ≤ 2 := by
  unfold State.distance
  cases state.filter <;> simp only [untilParsed, untilInvalid, untilExit] <;>
    grind

def ParserPoint.work : ParserPoint → Nat
  | idle => 2
  | waiting => 2
  | parsing _ => 3
  | leaving => 1
  | stopped => 0

theorem crewWork_set {parsers : List ParserPoint} {thread : Nat} {before : ParserPoint} (after : ParserPoint)
    (found : parsers[thread]? = some before) :
    crewWork (parsers.set thread after) + before.work = crewWork parsers + after.work := by
  have alive := countP_set_add ParserPoint.alive after found
  have parses := countP_set_add ParserPoint.parses after found
  have leaves := countP_set_add ParserPoint.leaves after found
  unfold crewWork
  cases before <;> cases after <;>
    simp only [ParserPoint.alive, ParserPoint.parses, ParserPoint.leaves, ParserPoint.work, if_true, if_false,
      Bool.false_eq_true] at alive parses leaves ⊢ <;>
    omega

theorem crewWork_spawn (parsers : List ParserPoint) : crewWork (parsers ++ [.idle]) = crewWork parsers + 2 := by
  simp [crewWork, ParserPoint.alive, ParserPoint.parses, ParserPoint.leaves]
  omega

def State.ReaderWaits : Prop :=
  match state.reader, state.pending with
  | .load, _ :: _ => (state.dataSegArray state.rawDataHead).status ≠ .init
  | .store, [] => True
  | .wait, _ => state.exited = false
  | .done, _ => True
  | _, _ => False

section Work

variable {config : Config Segment Line} {segments : List Segment} {state : State Segment Line}
  {pushed claimed passed : Nat}

theorem readerStep_of_waits (waits : state.ReaderWaits) : state.readerStep config = state := by
  unfold ReaderWaits at waits
  unfold State.readerStep
  split at waits
  next point found =>
    simp only [point, found, if_neg waits]
  next point found =>
    simp only [point, found]
  next point =>
    simp [point, waits]
  next point =>
    simp only [point]
  · exact waits.elim

theorem work_readerStep (progress : Progress config segments state pushed claimed passed)
    (ending : Ending segments state) (busy : ¬ state.ReaderWaits) :
    (state.readerStep config).work config segments claimed passed < state.work config segments claimed passed := by
  have more : state.reader = .advance → state.pending ≠ [] := by
    intro point
    have bound := progress.slots.separated_le
    rw [point] at bound
    rw [progress.reads.pending_eq, Ne, List.drop_eq_nil_iff]
    simp only [ReaderPoint.ahead] at bound
    omega
  unfold ReaderWaits at busy
  unfold State.readerStep State.work
  split
  next point found =>
    simp only [point, ReaderPoint.work]
    omega
  next point found =>
    simp only [point, found] at busy
    rw [if_pos (not_not.mp busy)]
    simp only [point, ReaderPoint.work]
    omega
  next point found =>
    simp only [point, setSlot, ReaderPoint.work]
    omega
  next point =>
    simp only [point, setStatus, setSlot, ReaderPoint.work]
    omega
  next point =>
    obtain ⟨segment, rest, found⟩ := List.exists_cons_of_ne_nil (more point)
    simp only [found, List.tail_cons, List.length_cons, ReaderPoint.work, Nat.mul_add_one]
    omega
  next point =>
    split
    · simp only [point, ReaderPoint.work]
      omega
    · simp only [point, ReaderPoint.work]
      omega
  next missing point =>
    simp only [point, ReaderPoint.work, crewWork_spawn]
    omega
  next point =>
    simp only [point, ReaderPoint.work]
    omega
  next point =>
    split
    · simp only [point, ReaderPoint.work]
      omega
    next flag =>
      have unstarted := ending.startFilter_unstarted (by simpa using flag) point
      simp only [point, unstarted, ReaderPoint.work, FilterPoint.work]
      omega
  next point =>
    split
    · simp only [point, ReaderPoint.work]
      omega
    · simp only [point, ReaderPoint.work]
      omega
  next point =>
    simp only [point] at busy
    simp only [busy, if_true, point, ReaderPoint.work]
    omega
  next point found =>
    simp [point, found] at busy
  next point =>
    simp [point] at busy

variable (point : FilterPoint)

theorem work_poll (before : state.filter.polls = true) (after : point.polls = true) :
    ({ state with filter := point } : State Segment Line).work config segments claimed passed =
      state.work config segments claimed passed := by
  have same : point.work = state.filter.work := by
    cases point <;> simp only [FilterPoint.polls, Bool.false_eq_true] at after <;>
      cases shape : state.filter <;> simp [shape, FilterPoint.polls] at before <;> rfl
  simp only [State.work, same]

theorem work_filter (less : point.work < state.filter.work) :
    ({ state with filter := point } : State Segment Line).work config segments claimed passed <
      state.work config segments claimed passed := by
  simp only [State.work]
  omega

end Work

def State.FilterWaits : Prop :=
  (state.dataSegArray state.filterHead).status = .parsing ∨
    ((state.dataSegArray state.filterHead).status = .seprated ∨ (state.dataSegArray state.filterHead).status = .init) ∧
      ¬ (state.toExit = true ∧ state.parserThreadCount = 0)

/-- A step that changes nothing but the point of a party that polls, and the lock. -/
inductive Quiet (state : State Segment Line) : Party → State Segment Line → Prop where
  | readerWaits (waits : state.ReaderWaits) : Quiet state .reader state
  | filterRests (rests : state.filter = .unstarted ∨ state.filter = .stopped) : Quiet state .filter state
  | poll {point : FilterPoint} (before : state.filter.polls = true) (after : point.polls = true)
      (waits : state.FilterWaits) : Quiet state .filter { state with filter := point }
  | parserRests {thread : Nat} (rests : ∀ point : ParserPoint, state.parsers[thread]? = some point →
      point = .stopped ∨ point = .idle ∧ state.dataSegMux = true) : Quiet state (.parser thread) state
  | lock {thread : Nat} (found : state.parsers[thread]? = some .idle) (free : state.dataSegMux = false)
      (unseparated : (state.dataSegArray state.parseHead).status ≠ .seprated)
      (calm : ¬ (state.filter.polls = true ∧ (state.dataSegArray state.filterHead).status = .init ∧
        state.toExit = true)) :
      Quiet state (.parser thread) { state.setParser thread .waiting with dataSegMux := true }
  | unlock {thread : Nat} (found : HoldsLock state.parsers thread) (stays : state.toExit = false)
      (calm : ¬ (state.filter.polls = true ∧ (state.dataSegArray state.filterHead).status = .seprated)) :
      Quiet state (.parser thread) { state.setParser thread .idle with dataSegMux := false }

/-- The state is reachable as far as the invariants tell, and has the rank. -/
structure Ranked (config : Config Segment Line) (segments : List Segment) (rank : Nat) (state : State Segment Line) :
    Prop where
  progress : ∃ pushed claimed passed, Progress config segments state pushed claimed passed ∧
    rank = 3 * state.work config segments claimed passed + state.distance
  ending : Ending segments state
  crew : Crew config state

/-- The rank gets lower, or the step is quiet and the rank stays. -/
def Falls (config : Config Segment Line) (segments : List Segment) (rank : Nat) (state : State Segment Line) (party : Party)
    (after : State Segment Line) : Prop :=
  (∃ lower < rank, Ranked config segments lower after) ∨ Ranked config segments rank after ∧ Quiet state party after

namespace Ranked

variable {config : Config Segment Line} {segments : List Segment} {state : State Segment Line} {rank : Nat}

variable {after : State Segment Line}

theorem lower_of_work {work pushed claimed passed : Nat}
    (progress : Progress config segments after pushed claimed passed) (ending : Ending segments after)
    (crew : Crew config after) (less : after.work config segments claimed passed < work) (distance : Nat) :
    ∃ lower < 3 * work + distance, Ranked config segments lower after := by
  have near := after.distance_le
  exact ⟨_, by omega, ⟨pushed, claimed, passed, progress, rfl⟩, ending, crew⟩

theorem lower_or_quiet {work distance pushed claimed passed : Nat} {party : Party}
    (progress : Progress config segments after pushed claimed passed) (ending : Ending segments after)
    (crew : Crew config after) (same : after.work config segments claimed passed = work)
    (closer : after.distance < distance ∨ after.distance = distance ∧ Quiet state party after) :
    Falls config segments (3 * work + distance) state party after := by
  rcases closer with less | ⟨level, quiet⟩
  · exact .inl ⟨_, by omega, ⟨pushed, claimed, passed, progress, rfl⟩, ending, crew⟩
  · exact .inr ⟨⟨⟨pushed, claimed, passed, progress, by rw [same, level]⟩, ending, crew⟩, quiet⟩

theorem readerStep (ranked : Ranked config segments rank state) :
    Falls config segments rank state .reader (state.readerStep config) := by
  by_cases waits : state.ReaderWaits
  · rw [readerStep_of_waits waits]
    exact .inr ⟨ranked, .readerWaits waits⟩
  obtain ⟨⟨pushed, claimed, passed, progress, rfl⟩, ending, crew⟩ := ranked
  have less := work_readerStep progress ending waits
  obtain ⟨pushed, progress⟩ := progress.readerStep ending.startFilter_unstarted
  exact .inl (lower_of_work progress ending.readerStep (crew.readerStep) less _)

theorem distance_poll (before : state.filter.polls = true) {point : FilterPoint} (after : point.polls = true)
    (parsed : (state.dataSegArray state.filterHead).status = .parsed → point.untilParsed < state.filter.untilParsed)
    (invalid : (state.dataSegArray state.filterHead).status = .invalid → point.untilInvalid < state.filter.untilInvalid)
    (exits : state.toExit = true → state.parserThreadCount = 0 → point.untilExit < state.filter.untilExit) :
    ({ state with filter := point } : State Segment Line).distance < state.distance ∨
      ({ state with filter := point } : State Segment Line).distance = state.distance ∧
        Quiet state .filter { state with filter := point } := by
  by_cases waits : state.FilterWaits
  · refine .inr ⟨?_, .poll before after waits⟩
    simp only [State.distance, before, after]
    rcases waits with parsing | ⟨separated | empty, stays⟩
    · simp only [parsing]
    · simp only [separated, if_neg stays]
    · simp only [empty]
      by_cases exit : state.toExit = true
      · have counted : state.parserThreadCount ≠ 0 := fun none => stays ⟨exit, none⟩
        simp [exit, counted]
      · simp [exit]
  · refine .inl ?_
    simp only [State.distance, before, after]
    cases status : (state.dataSegArray state.filterHead).status with
    | parsed => exact parsed status
    | invalid => exact invalid status
    | parsing => exact absurd (.inl status) waits
    | seprated =>
      have leave := not_not.mp fun stays => waits (.inr ⟨.inl status, stays⟩)
      simp only [leave]
      exact exits leave.1 leave.2
    | init =>
      have leave := not_not.mp fun stays => waits (.inr ⟨.inr status, stays⟩)
      simp only [leave, if_true]
      exact exits leave.1 leave.2

/-- A step of the filter thread takes work away, or the thread polls on or rests. -/
theorem work_filterStep (progress : Progress config segments state pushed claimed passed) :
    (state.filterStep config).work config segments claimed (passed + state.filter.completes) =
        state.work config segments claimed passed ∧
      ((state.filterStep config).distance < state.distance ∨
        (state.filterStep config).distance = state.distance ∧ Quiet state .filter (state.filterStep config)) ∨
    (state.filterStep config).work config segments claimed (passed + state.filter.completes) <
      state.work config segments claimed passed := by
  have slots := progress.slots
  have bound : passed + state.filter.freed ≤ segments.length :=
    le_trans slots.released_le (le_trans slots.claimed_le slots.separated_le)
  cases point : state.filter with
  | unstarted | stopped =>
    have stays : state.filterStep config = state := by simp only [State.filterStep, point]
    rw [stays]
    exact .inl ⟨rfl, .inr ⟨rfl, .filterRests (by simp [point])⟩⟩
  | load =>
    have polls : state.filter.polls = true := by rw [point]; rfl
    simp only [State.filterStep, point]
    split
    next invalid => exact .inr (work_filter .skip (by rw [point]; decide))
    next valid =>
      refine .inl ⟨work_poll .reload polls rfl, distance_poll polls rfl ?_ (fun invalid => absurd invalid valid) ?_⟩
      all_goals
        rw [point]
        intros
        decide
  | reload =>
    have polls : state.filter.polls = true := by rw [point]; rfl
    simp only [State.filterStep, point]
    split
    next parsed => exact .inr (work_filter .process (by rw [point]; decide))
    next unparsed =>
      refine .inl ⟨work_poll .exitTest polls rfl, distance_poll polls rfl (fun parsed => absurd parsed unparsed) ?_ ?_⟩
      all_goals
        rw [point]
        intros
        decide
  | exitTest =>
    have polls : state.filter.polls = true := by rw [point]; rfl
    simp only [State.filterStep, point]
    split
    next leave =>
      refine .inr ?_
      simp only [State.work, point, FilterPoint.work, completes]
      omega
    next stay =>
      refine .inl ⟨work_poll .load polls rfl, distance_poll polls rfl ?_ ?_ fun exits none => absurd ⟨exits, none⟩ stay⟩
      all_goals
        rw [point]
        intros
        decide
  | skip =>
    refine .inr ?_
    simp only [State.filterStep, point]
    split
    all_goals
      simp only [State.work, setStatus, setSlot, State.pass, point, FilterPoint.work, completes]
      omega
  | release head =>
    have sees := progress.filters.sees
    rw [point] at sees slots
    have more := slots.handled sees
    have claimed_le := slots.claimed_le
    have separated_le := slots.separated_le
    refine .inr ?_
    simp only [State.filterStep, State.work, setStatus, setSlot, point, FilterPoint.work, completes, freed] at more ⊢
    omega
  | process | advance | advanceReleased | cleanup =>
    refine .inr ?_
    simp only [State.filterStep, State.work, State.pass, point, FilterPoint.work, completes, freed] at bound ⊢
    omega

theorem filterStep (ranked : Ranked config segments rank state) :
    Falls config segments rank state .filter (state.filterStep config) := by
  obtain ⟨⟨pushed, claimed, passed, progress, rfl⟩, ending, crew⟩ := ranked
  rcases work_filterStep progress with ⟨same, closer⟩ | less
  · exact lower_or_quiet progress.filterStep ending.filterStep crew.filterStep same closer
  · exact .inl (lower_of_work progress.filterStep ending.filterStep crew.filterStep less _)

section
variable {pushed claimed passed : Nat} (progress : Progress config segments state pushed claimed passed)
include progress

theorem polling (polls : state.filter.polls = true) : state.filterHead = passed % config.maxSegArraySize ∧
      Slots config segments state.dataSegArray state.parsers (pushed + state.reader.ahead) claimed passed := by
  have head_eq := progress.filters.head_eq
  have slots := progress.slots
  have unmoved : state.filter.moved = 0 ∧ state.filter.freed = 0 := by
    cases point : state.filter <;> simp [point, FilterPoint.polls] at polls <;> exact ⟨rfl, rfl⟩
  rw [unmoved.1] at head_eq
  rw [unmoved.2] at slots
  exact ⟨head_eq, slots⟩

theorem parseHead_eq_filterHead (polls : state.filter.polls = true)
    (separated : (state.dataSegArray state.filterHead).status = .seprated) : state.parseHead = state.filterHead := by
  obtain ⟨head_eq, slots⟩ := polling progress polls
  have released_le := slots.released_le
  rw [head_eq] at separated
  have unclaimed : ¬ passed < claimed := by
    intro claims
    have taken := (slots.taken passed le_rfl claims).2
    simp [DataSegment.Taken, separated] at taken
  rw [progress.parseHead_eq, head_eq, show claimed = passed by omega]

end

theorem not_claims {thread : Nat} {point : ParserPoint} (found : state.parsers[thread]? = some point) (busy : point ≠ .idle) :
    ¬ state.Claims thread :=
  fun claims => busy (Option.mem_unique found claims.1)

section

variable (ranked : Ranked config segments rank state) {thread : Nat}
include ranked

theorem claim_lower (claims : state.Claims thread) :
    ∃ lower < rank, Ranked config segments lower (state.parserStep config thread) := by
  obtain ⟨⟨pushed, claimed, passed, progress, rfl⟩, ending, crew⟩ := ranked
  obtain ⟨found, free, separated⟩ := claims
  have progress' := ((progress.parserStep thread).resolve_right fun other => other.1 ⟨found, free, separated⟩).2
  refine lower_of_work progress' (ending.parserStep thread) (crew.parserStep ending thread) ?_ _
  have crewWork := crewWork_set (.parsing state.parseHead) found
  rw [progress.parseHead_eq] at separated
  have more := progress.slots.unclaimed separated
  have bound := progress.slots.separated_le
  rw [← progress.parseHead_eq] at separated
  simp only [State.parserStep, found, getNextSegment, free, separated, if_true, if_false, Bool.false_eq_true,
    State.work, setStatus, setSlot, setParser]
  simp only [ParserPoint.work] at crewWork
  omega

theorem lock_lower_or_quiet (found : state.parsers[thread]? = some .idle) (free : state.dataSegMux = false)
    (unseparated : (state.dataSegArray state.parseHead).status ≠ .seprated) :
    Falls config segments rank state (.parser thread) { state.setParser thread .waiting with dataSegMux := true } := by
  obtain ⟨⟨pushed, claimed, passed, progress, rfl⟩, ending, crew⟩ := ranked
  have stays : state.parserStep config thread = { state.setParser thread .waiting with dataSegMux := true } := by
    simp [State.parserStep, found, getNextSegment, free, unseparated]
  have progress' := ((progress.parserStep thread).resolve_left fun claims => unseparated claims.1.2.2).2
  have ending' : Ending segments (state.parserStep config thread) := ending.parserStep thread
  rw [stays] at progress' ending'
  have crewWork := crewWork_set .waiting found
  simp only [ParserPoint.work] at crewWork
  refine lower_or_quiet progress' ending' (crew.lock_step found free) ?_ ?_
  · simp only [State.work, setParser]
    omega
  by_cases eager : state.filter.polls = true ∧ (state.dataSegArray state.filterHead).status = .init ∧
      state.toExit = true
  · obtain ⟨polls, empty, exits⟩ := eager
    have working : state.parserThreadCount ≠ 0 := by
      rw [crew.count_eq]
      exact (List.countP_pos_iff.mpr ⟨_, List.mem_of_getElem? found, rfl⟩).ne'
    simp [State.distance, setParser, polls, empty, exits, working, free]
  · refine .inr ⟨?_, .lock found free unseparated eager⟩
    have elsewhere : state.filter.polls = true → (state.dataSegArray state.filterHead).status ≠ .seprated := by
      intro polls separated
      rw [← parseHead_eq_filterHead progress polls separated] at separated
      exact unseparated separated
    simp only [State.distance, setParser]
    grind

theorem unlock_lower_or_quiet (found : HoldsLock state.parsers thread) (stays : state.toExit = false) :
    Falls config segments rank state (.parser thread) { state.setParser thread .idle with dataSegMux := false } := by
  obtain ⟨⟨pushed, claimed, passed, progress, rfl⟩, ending, crew⟩ := ranked
  have goes : state.parserStep config thread = { state.setParser thread .idle with dataSegMux := false } := by
    rw [HoldsLock] at found
    simp [State.parserStep, found, testToExit, stays]
  have progress' := ((progress.parserStep thread).resolve_left fun claims => not_claims found (by simp) claims.1).2
  have ending' : Ending segments (state.parserStep config thread) := ending.parserStep thread
  have crew' : Crew config (state.parserStep config thread) := crew.parserStep ending thread
  rw [goes] at progress' ending' crew'
  have crewWork := crewWork_set .idle found
  simp only [ParserPoint.work] at crewWork
  have locked := crew.holder thread found
  refine lower_or_quiet progress' ending' crew' ?_ ?_
  · simp only [State.work, setParser]
    omega
  by_cases eager : state.filter.polls = true ∧ (state.dataSegArray state.filterHead).status = .seprated
  · simp [State.distance, setParser, eager.1, eager.2, locked, stays]
  · refine .inr ⟨?_, .unlock found stays eager⟩
    simp only [State.distance, setParser]
    grind

theorem parser_lower {before : ParserPoint} (found : state.parsers[thread]? = some before) (after : ParserPoint)
    (less : after.work < before.work) (busy : before ≠ .idle)
    (goes : (state.parserStep config thread).parsers = state.parsers.set thread after)
    (reader : (state.parserStep config thread).reader = state.reader)
    (pending : (state.parserStep config thread).pending = state.pending)
    (filter : (state.parserStep config thread).filter = state.filter) :
    ∃ lower < rank, Ranked config segments lower (state.parserStep config thread) := by
  obtain ⟨⟨pushed, claimed, passed, progress, rfl⟩, ending, crew⟩ := ranked
  have progress' := ((progress.parserStep thread).resolve_left fun claims => not_claims found busy claims.1).2
  refine lower_of_work progress' (ending.parserStep thread) (crew.parserStep ending thread) ?_ _
  have crewWork := crewWork_set after found
  simp only [State.work, goes, reader, pending, filter]
  omega

theorem parser_rests
    (rests : ∀ point : ParserPoint, state.parsers[thread]? = some point → point = .stopped ∨ point = .idle ∧ state.dataSegMux = true) :
    Falls config segments rank state (.parser thread) (state.parserStep config thread) := by
  have stays : state.parserStep config thread = state := by
    cases found : state.parsers[thread]? with
    | none => simp only [State.parserStep, found]
    | some point =>
      rcases rests point found with rfl | ⟨rfl, locked⟩
      · simp only [State.parserStep, found]
      · simp only [State.parserStep, found, getNextSegment, locked, if_true]
  rw [stays]
  exact .inr ⟨ranked, .parserRests rests⟩

theorem parserStep (thread : Nat) :
    Falls config segments rank state (.parser thread) (state.parserStep config thread) := by
  cases found : state.parsers[thread]? with
  | none => exact ranked.parser_rests (by simp [found])
  | some point =>
    cases point with
    | stopped => exact ranked.parser_rests (by simp [found])
    | idle =>
      cases free : state.dataSegMux with
      | true => exact ranked.parser_rests (by simp [found, free])
      | false =>
        by_cases separated : (state.dataSegArray state.parseHead).status = .seprated
        · exact .inl (claim_lower ranked ⟨found, free, separated⟩)
        · have goes : state.parserStep config thread =
              { state.setParser thread .waiting with dataSegMux := true } := by
            simp [State.parserStep, found, getNextSegment, free, separated]
          rw [goes]
          exact lock_lower_or_quiet ranked found free separated
    | waiting =>
      cases exits : state.toExit with
      | true =>
        refine .inl (parser_lower ranked found .leaving (by decide) (by simp) ?_ ?_ ?_ ?_) <;>
          simp [State.parserStep, found, testToExit, exits, setParser]
      | false =>
        have goes : state.parserStep config thread =
            { state.setParser thread .idle with dataSegMux := false } := by
          simp [State.parserStep, found, testToExit, exits]
        rw [goes]
        exact unlock_lower_or_quiet ranked found exits
    | parsing head =>
      obtain ⟨pushed, claimed, passed, progress, _⟩ := ranked.progress
      obtain ⟨⟨index, lower, upper, rfl⟩, _, _⟩ := progress.slots.threads.parses thread _ found
      have stored := (progress.slots.taken index lower upper).1
      have inside : index < segments.length :=
        lt_of_lt_of_le upper (le_trans progress.slots.claimed_le progress.slots.separated_le)
      rw [List.getElem?_eq_getElem inside] at stored
      refine .inl (parser_lower ranked found .idle (by simp [ParserPoint.work]) (by simp) ?_ ?_ ?_ ?_) <;>
        simp only [State.parserStep, found, parserData, stored, Option.map_some] <;>
        cases config.parserData segments[index] <;> rfl
    | leaving =>
      refine .inl (parser_lower ranked found .stopped (by decide) (by simp) ?_ ?_ ?_ ?_) <;>
        simp [State.parserStep, found, setParser]

theorem step (party : Party) : Falls config segments rank state party (state.step config party) :=
  match party with
  | .reader => ranked.readerStep
  | .parser thread => ranked.parserStep thread
  | .filter => ranked.filterStep

end

end Ranked

end SmartPerf.Pipeline
