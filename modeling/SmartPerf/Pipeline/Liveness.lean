import SmartPerf.Data.Fair
import SmartPerf.Pipeline.Order
import SmartPerf.Pipeline.Ranking

namespace SmartPerf.Pipeline

open Data State

/-! Under a fair schedule the pipeline comes to its end. -/

variable {Segment Line : Type*}

/-- A step of the party brings the pipeline forward. -/
inductive Helpful (state : State Segment Line) : Party → Prop where
  | reader (busy : ¬ state.ReaderWaits) : Helpful state .reader
  | filter (running : state.filter ≠ .unstarted ∧ state.filter ≠ .stopped)
      (busy : state.filter.polls = true → ¬ state.FilterWaits) : Helpful state .filter
  | worker {thread head : Nat} (parses : ParsesAt state.parsers thread head) : Helpful state (.parser thread)
  | claimer {thread : Nat} (claims : state.Claims thread) : Helpful state (.parser thread)
  | holder {thread : Nat} (holds : HoldsLock state.parsers thread)
      (awaited : state.toExit = true ∨
        state.filter.polls = true ∧ (state.dataSegArray state.filterHead).status = .seprated) :
      Helpful state (.parser thread)
  | locker {thread : Nat} (found : state.parsers[thread]? = some .idle) (free : state.dataSegMux = false)
      (awaited : state.filter.polls = true ∧ (state.dataSegArray state.filterHead).status = .init ∧
        state.toExit = true) : Helpful state (.parser thread)

section Helpful

variable {config : Config Segment Line} {segments : List Segment} {state after : State Segment Line} {rank : Nat}
  {party acting : Party}

theorem Helpful.not_quiet (helps : Helpful state party) (quiet : Quiet state party after) : False := by
  cases helps with
  | reader busy => cases quiet with | readerWaits waits => exact busy waits
  | filter running busy =>
    cases quiet with
    | filterRests rests => exact rests.elim running.1 running.2
    | poll before after waits => exact busy before waits
  | worker parses =>
    rw [ParsesAt] at parses
    cases quiet with
    | parserRests rests => rcases rests _ parses with impossible | ⟨impossible, _⟩ <;> cases impossible
    | lock found => simp [parses] at found
    | unlock found => simp [HoldsLock, parses] at found
  | claimer claims =>
    obtain ⟨idle, free, separated⟩ := claims
    cases quiet with
    | parserRests rests =>
      rcases rests _ idle with impossible | ⟨_, locked⟩
      · cases impossible
      · simp [free] at locked
    | lock found free unseparated => exact unseparated separated
    | unlock found => simp [HoldsLock, idle] at found
  | holder holds awaited =>
    rw [HoldsLock] at holds
    cases quiet with
    | parserRests rests => rcases rests _ holds with impossible | ⟨impossible, _⟩ <;> cases impossible
    | lock found => simp [holds] at found
    | unlock found stays calm =>
      rcases awaited with exits | separated
      · simp [stays] at exits
      · exact calm separated
  | locker found free awaited =>
    cases quiet with
    | parserRests rests =>
      rcases rests _ found with impossible | ⟨_, locked⟩
      · cases impossible
      · simp [free] at locked
    | lock _ _ _ calm => exact calm awaited
    | unlock holds => simp [HoldsLock, found] at holds

theorem found_set {parsers : List ParserPoint} {thread other : Nat} {point before : ParserPoint}
    (different : Party.parser other ≠ .parser thread) (found : parsers[thread]? = some point) :
    (parsers.set other before)[thread]? = some point := by
  rw [List.getElem?_set_ne fun same => different (by rw [same])]
  exact found

theorem Helpful.stays (helps : Helpful state party) (crew : Crew config state)
    (quiet : Quiet state acting after) (different : acting ≠ party) : Helpful after party := by
  cases quiet with
  | readerWaits | filterRests | parserRests => exact helps
  | @poll point before now waits =>
    cases helps with
    | reader busy => exact .reader busy
    | filter => exact absurd rfl different
    | worker parses => exact .worker parses
    | claimer claims => exact .claimer claims
    | holder holds awaited => exact .holder holds (awaited.imp_right fun ⟨_, status⟩ => ⟨now, status⟩)
    | locker found free awaited => exact .locker found free ⟨now, awaited.2⟩
  | @lock other found free unseparated calm =>
    cases helps with
    | reader busy => exact .reader busy
    | filter running busy => exact .filter running busy
    | worker parses => exact .worker (found_set different parses)
    | claimer claims => exact absurd claims.2.2 unseparated
    | holder holds awaited =>
      have locked := crew.holder _ holds
      simp [free] at locked
    | locker _ _ awaited => exact absurd awaited calm
  | @unlock other holds stays calm =>
    have locked := crew.holder other holds
    cases helps with
    | reader busy => exact .reader busy
    | filter running busy => exact .filter running busy
    | worker parses => exact .worker (found_set different parses)
    | claimer claims => simp [claims.2.1] at locked
    | holder also awaited => exact absurd (congrArg Party.parser (crew.alone other _ holds also)) different
    | locker _ free _ => simp [free] at locked

theorem Helpful.lowers (ranked : Ranked config segments rank state) (helps : Helpful state party) (acting : Party) :
    (∃ lower < rank, Ranked config segments lower (state.step config acting)) ∨
      acting ≠ party ∧ Ranked config segments rank (state.step config acting) ∧
        Helpful (state.step config acting) party := by
  rcases ranked.step acting with lower | ⟨level, quiet⟩
  · exact .inl lower
  · have different : acting ≠ party := by
      rintro rfl
      exact helps.not_quiet quiet
    exact .inr ⟨different, level, helps.stays ranked.crew quiet different⟩

end Helpful

def Config.parties (config : Config Segment Line) : Set Party :=
  { party | ∀ thread, party = .parser thread → thread < config.parserThreadNum }

section Existence

variable {config : Config Segment Line} {segments : List Segment} {state : State Segment Line} {rank : Nat}

theorem Crew.thread_lt (crew : Crew config state) {thread : Nat} {point : ParserPoint}
    (found : state.parsers[thread]? = some point) : .parser thread ∈ config.parties := by
  have bound := lookup_lt found
  rintro _ ⟨⟩
  cases flag : state.parseThreadStarted with
  | false => simp [crew.unlaunched flag] at found
  | true =>
    by_cases spawning : ∃ missing, state.reader = .spawn missing
    · obtain ⟨missing, point⟩ := spawning
      have length := (crew.spawning missing point).2
      omega
    · have length := crew.launched flag (by simpa using spawning)
      omega

section

variable (ranked : Ranked config segments rank state)
include ranked

theorem Ranked.waits_cases (waits : state.ReaderWaits) (unfinished : state.reader ≠ .done) :
    (state.reader = .load ∧ state.pending ≠ [] ∧ (state.dataSegArray state.rawDataHead).status ≠ .init) ∨
      (state.reader = .wait ∧ state.exited = false) := by
  unfold State.ReaderWaits at waits
  split at waits
  next point found => exact .inl ⟨point, by simp [found], waits⟩
  next point found =>
    obtain ⟨pushed, claimed, passed, progress, _⟩ := ranked.progress
    have more := (progress.reads.room (.inl point)).1
    rw [progress.reads.pending_eq, List.drop_eq_nil_iff] at found
    omega
  next point => exact .inr ⟨point, waits⟩
  next point => exact absurd point unfinished
  · exact waits.elim

theorem Ranked.begun (point : state.reader = .load)
    (more : state.pending ≠ []) (used : (state.dataSegArray state.rawDataHead).status ≠ .init) :
    state.parseThreadStarted = true := by
  obtain ⟨⟨pushed, claimed, passed, progress, _⟩, ending, crew⟩ := ranked
  rcases ending.begun with all | launching | flag
  · have slots := progress.slots
    rw [point] at slots
    rw [progress.reads.pending_eq] at all more
    have zero : pushed = 0 := by
      have length := congrArg List.length all
      rw [List.length_drop] at length
      rw [Ne, List.drop_eq_nil_iff] at more
      omega
    have free := slots.free pushed le_rfl
      (by rw [zero]; have positive := config.maxSegArraySize_pos; omega)
    rw [progress.reads.head_eq] at used
    exact absurd free used
  · simp [point] at launching
  · exact flag

theorem Ranked.filter_runs
    (waits : (state.reader = .load ∧ state.pending ≠ [] ∧ (state.dataSegArray state.rawDataHead).status ≠ .init) ∨
      (state.reader = .wait ∧ state.exited = false)) : state.filter ≠ .unstarted ∧ state.filter ≠ .stopped := by
  have ending := ranked.ending
  rcases waits with ⟨point, more, used⟩ | ⟨point, unreported⟩
  · constructor
    · intro unstarted
      rcases ending.launched (ranked.begun point more used) unstarted with ⟨missing, spawning⟩ | starting
      · simp [point] at spawning
      · simp [point] at starting
    · intro stopped
      have late := ending.exit_reader (ending.exited_exit (ending.exited_iff.mpr (.inr stopped)))
      simp [point] at late
  · refine ⟨ending.exit_started (ending.waits point), ?_⟩
    intro stopped
    simp [ending.exited_iff.mpr (.inr stopped)] at unreported

theorem Ranked.helpful_of_alive {thread : Nat} {point : ParserPoint}
    (found : state.parsers[thread]? = some point) (alive : point.alive = true)
    (awaited : state.filter.polls = true ∧ ((state.dataSegArray state.filterHead).status = .seprated ∨
        (state.dataSegArray state.filterHead).status = .init ∧ state.toExit = true)) :
    ∃ party ∈ config.parties, Helpful state party := by
  obtain ⟨⟨pushed, claimed, passed, progress, _⟩, ending, crew⟩ := ranked
  have holder : ∀ thread, HoldsLock state.parsers thread → ∃ party ∈ config.parties, Helpful state party := by
    intro thread holds
    refine ⟨.parser thread, crew.thread_lt holds, .holder holds ?_⟩
    rcases awaited with ⟨polls, separated | ⟨_, exits⟩⟩
    · exact .inr ⟨polls, separated⟩
    · exact .inl exits
  cases point with
  | idle =>
    cases free : state.dataSegMux with
    | true =>
      obtain ⟨other, holds⟩ := crew.locked free
      exact holder other holds
    | false =>
      refine ⟨.parser thread, crew.thread_lt found, ?_⟩
      rcases awaited with ⟨polls, separated | ⟨empty, exits⟩⟩
      · refine .claimer ⟨found, free, ?_⟩
        rw [Ranked.parseHead_eq_filterHead progress polls separated]
        exact separated
      · exact .locker found free ⟨polls, empty, exits⟩
  | waiting => exact holder thread found
  | parsing head => exact ⟨.parser thread, crew.thread_lt found, .worker found⟩
  | leaving => cases alive
  | stopped => cases alive

theorem Ranked.exists_alive (threads : 0 < config.parserThreadNum)
    (waits : (state.reader = .load ∧ state.pending ≠ [] ∧ (state.dataSegArray state.rawDataHead).status ≠ .init) ∨
      (state.reader = .wait ∧ state.exited = false)) (stays : ¬ (state.toExit = true ∧ state.parserThreadCount = 0)) :
    ∃ (thread : Nat) (point : ParserPoint), state.parsers[thread]? = some point ∧ point.alive = true := by
  have crew := ranked.crew
  cases exits : state.toExit with
  | true => exact crew.exists_alive fun none => stays ⟨exits, none⟩
  | false =>
    rcases waits with ⟨point, more, used⟩ | ⟨point, _⟩
    · have length := crew.launched (ranked.begun point more used) (by simp [point])
      obtain ⟨first, found⟩ : ∃ first, state.parsers[0]? = some first :=
        ⟨_, List.getElem?_eq_getElem (by omega)⟩
      refine ⟨0, first, found, ?_⟩
      by_contra away
      have gone := crew.gone first (List.mem_of_getElem? found) (by simpa using away)
      simp [exits] at gone
    · have exit := ranked.ending.waits point
      simp [exits] at exit

theorem Ranked.empty_free (polls : state.filter.polls = true)
    (point : state.reader = .load) (empty : (state.dataSegArray state.filterHead).status = .init) :
    (state.dataSegArray state.rawDataHead).status = .init := by
  obtain ⟨⟨pushed, claimed, passed, progress, _⟩, ending, crew⟩ := ranked
  obtain ⟨head_eq, slots⟩ := Ranked.polling progress polls
  rw [point] at slots
  have released_le : passed ≤ claimed := slots.released_le
  have claimed_le : claimed ≤ pushed := slots.claimed_le
  rw [head_eq] at empty
  have unclaimed : ¬ passed < claimed := by
    intro claims
    have taken := (slots.taken passed le_rfl claims).2
    simp [DataSegment.Taken, empty] at taken
  have separated : ¬ passed < pushed := by
    intro more
    have waiting := (slots.waiting passed (by omega) more).2.1
    simp [empty] at waiting
  rw [progress.reads.head_eq, show pushed = passed by omega]
  exact empty

theorem Ranked.exists_worker
    (touched : ∀ segment ∈ segments, config.parserData segment ≠ .untouched) (polls : state.filter.polls = true)
    (parsing : (state.dataSegArray state.filterHead).status = .parsing) :
    ∃ thread, ParsesAt state.parsers thread state.filterHead := by
  obtain ⟨⟨pushed, claimed, passed, progress, _⟩, ending, crew⟩ := ranked
  obtain ⟨head_eq, slots⟩ := Ranked.polling progress polls
  have status := parsing
  rw [head_eq] at status
  have positive := config.maxSegArraySize_pos
  have claims : passed < claimed := by
    by_contra unclaimed
    by_cases waits : passed < pushed + state.reader.ahead
    · have separated := (slots.waiting passed (by omega) waits).2.1
      simp [status] at separated
    · have free := slots.free passed (by omega) (by omega)
      simp [status] at free
  obtain ⟨stored, taken⟩ := slots.taken passed le_rfl claims
  rw [DataSegment.Taken, status] at taken
  have fresh : (state.dataSegArray (passed % config.maxSegArraySize)).parsedBy = [] := by
    refine taken.resolve_right fun untouched => ?_
    rw [stored, Option.map_eq_some_iff] at untouched
    obtain ⟨segment, found, verdict⟩ := untouched
    exact touched segment (List.mem_of_getElem? found) verdict
  rw [← head_eq] at fresh
  exact slots.threads.worked _ parsing fresh

theorem Ranked.exists_helpful (threads : 0 < config.parserThreadNum)
    (touched : ∀ segment ∈ segments, config.parserData segment ≠ .untouched) (unfinished : state.reader ≠ .done) :
    ∃ party ∈ config.parties, Helpful state party := by
  by_cases idle : state.ReaderWaits
  · have waits := ranked.waits_cases idle unfinished
    have running := ranked.filter_runs waits
    have filterParty : Party.filter ∈ config.parties := by
      rintro _ ⟨⟩
    by_cases busy : state.filter.polls = true → ¬ state.FilterWaits
    · exact ⟨.filter, filterParty, .filter running busy⟩
    obtain ⟨polls, filterWaits⟩ := Classical.not_imp.mp busy
    rcases not_not.mp filterWaits with parsing | ⟨awaited, stays⟩
    · obtain ⟨thread, parses⟩ := ranked.exists_worker touched polls parsing
      exact ⟨.parser thread, ranked.crew.thread_lt parses, .worker parses⟩
    · obtain ⟨thread, point, found, alive⟩ := ranked.exists_alive threads waits stays
      refine ranked.helpful_of_alive found alive ⟨polls, awaited.imp_right fun empty => ⟨empty, ?_⟩⟩
      rcases waits with ⟨loading, more, used⟩ | ⟨waiting, _⟩
      · exact absurd (ranked.empty_free polls loading empty) used
      · exact ranked.ending.waits waiting
  · exact ⟨.reader, by rintro _ ⟨⟩, .reader idle⟩

end

end Existence

section Runs

variable (config : Config Segment Line) (segments : List Segment) (schedule : Nat → Party)

def runAt : Nat → State Segment Line :=
  trajectory (State.step config) (start segments) schedule

theorem invariant_at (time : Nat) : Invariant config segments (runAt config segments schedule time) :=
  trajectory_invariant (Invariant.start config segments) (fun _ party invariant => invariant.step party) time

variable {config segments schedule}

theorem eventually_done (threads : 0 < config.parserThreadNum)
    (touched : ∀ segment ∈ segments, config.parserData segment ≠ .untouched) (fair : Fair config.parties schedule) :
    ∃ time, (runAt config segments schedule time).reader = .done := by
  have initial : Ranked config segments _ (runAt config segments schedule 0) :=
    ⟨⟨0, 0, 0, Progress.start config segments, rfl⟩, Ending.start segments, Crew.start config segments⟩
  exact fair.eventually (fun rank state party acting ranked helps => helps.lowers ranked acting)
    (fun rank state ranked unfinished => ranked.exists_helpful threads touched unfinished) initial

theorem exited_stays (config : Config Segment Line) {state : State Segment Line} (party : Party) (exited : state.exited = true) :
    (state.step config party).exited = true := by
  cases party with
  | reader =>
    simp only [State.step, readerStep]
    grind [setSlot, setStatus]
  | parser thread =>
    simp only [State.step, parserStep]
    grind [getNextSegment, testToExit, parserData, setSlot, setStatus, setParser]
  | filter =>
    simp only [State.step, filterStep]
    grind [setSlot, setStatus, State.pass]

theorem filtered_stays {time : Nat} (exited : (runAt config segments schedule time).exited = true) (more : Nat) :
    (runAt config segments schedule (time + more)).exited = true ∧
      (runAt config segments schedule (time + more)).filtered = (runAt config segments schedule time).filtered := by
  induction more with
  | zero => exact ⟨exited, rfl⟩
  | succ more ih =>
    have later := exited_stays config (schedule (time + more)) ih.1
    have same := ((invariant_at config segments schedule (time + more)).ending.exited_step _ later).1
    exact ⟨later, same.trans ih.2⟩

theorem complete_at (empty : ∀ time, (runAt config segments schedule time).ExitsEmpty (schedule time)) (time : Nat) :
    (runAt config segments schedule time).exited = true →
      (runAt config segments schedule time).filtered.length = segments.length := by
  induction time with
  | zero => intro exited; cases exited
  | succ time ih => exact (invariant_at config segments schedule time).complete_step ih (empty time)

theorem exits_empty_of_all_passed {time : Nat} (done : (runAt config segments schedule time).reader = .done)
    (all : (runAt config segments schedule time).filtered.length = segments.length) (other : Nat) :
    (runAt config segments schedule other).ExitsEmpty (schedule other) := by
  intro acts point exits none
  have invariant := invariant_at config segments schedule other
  refine (invariant.exit_iff point exits).mpr ?_
  rcases Nat.lt_or_ge other time with before | after
  · -- the exit is reported by this step, so nothing is passed after it
    have reported : (runAt config segments schedule (other + 1)).exited = true := by
      simp only [runAt, trajectory, acts]
      simp only [runAt] at point exits none
      simp [State.step, filterStep, point, exits, none]
    have same := ((invariant.ending).exited_step (schedule other) reported).1
    obtain ⟨more, rfl⟩ := Nat.exists_eq_add_of_le (Nat.succ_le_of_lt before)
    rw [(filtered_stays reported more).2] at all
    rw [← all]
    exact congrArg List.length same.symm
  · obtain ⟨more, rfl⟩ := Nat.exists_eq_add_of_le after
    rcases (invariant_at config segments schedule time).ending.reported done with exited | rfl
    · have later := (filtered_stays exited more).1
      rcases invariant.ending.exited_iff.mp later with cleanup | stopped
      · simp [point] at cleanup
      · simp [point] at stopped
    · obtain ⟨_, _, _, progress⟩ := invariant.progress
      have lines := congrArg List.length progress.filters.lines
      simpa using lines

/-- Under a fair schedule every segment is passed and the end of the file is reached exactly if
no segment is left in work and the filter thread ends over a free slot. -/
theorem all_passed_iff (threads : 0 < config.parserThreadNum) (fair : Fair config.parties schedule) :
    (∃ time, (runAt config segments schedule time).reader = .done ∧
        (runAt config segments schedule time).filtered.length = segments.length) ↔
      (∀ segment ∈ segments, config.parserData segment ≠ .untouched) ∧
        ∀ time, (runAt config segments schedule time).ExitsEmpty (schedule time) := by
  constructor
  · intro ⟨time, done, all⟩
    refine ⟨?_, exits_empty_of_all_passed done all⟩
    obtain ⟨_, _, _, progress⟩ := (invariant_at config segments schedule time).progress
    have touched := progress.filters.touched
    rw [all, List.take_length] at touched
    exact touched
  · intro ⟨touched, empty⟩
    obtain ⟨time, done⟩ := eventually_done threads touched fair
    refine ⟨time, done, ?_⟩
    have sound := (invariant_at config segments schedule time).sound (complete_at empty time)
    exact sound.complete (.inr done)

end Runs

end SmartPerf.Pipeline
