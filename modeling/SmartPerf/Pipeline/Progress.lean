import SmartPerf.Pipeline.Slots

namespace SmartPerf.Pipeline

open State

/-! How far reader, parser threads and filter thread have come, and what each step does to it. -/

variable {Segment Line : Type*} (config : Config Segment Line)

/-- Segments the reader has separated beyond those it has moved its head over. -/
def ReaderPoint.ahead : ReaderPoint → Nat
  | advance => 1
  | _ => 0

def FilterPoint.freed : FilterPoint → Nat
  | advanceReleased => 1
  | _ => 0

def FilterPoint.moved : FilterPoint → Nat
  | release _ => 1
  | _ => 0

/-- The filter thread has passed a segment but not done with its slot. -/
def FilterPoint.logged : FilterPoint → Nat
  | advance => 1
  | release _ => 1
  | advanceReleased => 1
  | _ => 0

def FilterPoint.completes : FilterPoint → Nat
  | release _ => 1
  | advanceReleased => 1
  | _ => 0

/-- What the filter thread knows about the status of the slot it works on. -/
def FilterPoint.Sees (status : ParseStatus) : FilterPoint → Prop
  | skip => status = .invalid
  | process => status = .parsed
  | advance => status = .parsed
  | release _ => status = .parsed ∨ status = .invalid
  | _ => True

def State.Claims (state : State Segment Line) (thread : Nat) : Prop :=
  state.parsers[thread]? = some .idle ∧ state.dataSegMux = false ∧
    (state.dataSegArray state.parseHead).status = .seprated

structure ReaderSide (segments : List Segment) (ring : Nat → DataSegment Segment Line) (pending : List Segment)
    (rawDataHead : Nat) (reader : ReaderPoint) (pushed released : Nat) : Prop where
  pending_eq : pending = segments.drop pushed
  head_eq : rawDataHead = pushed % config.maxSegArraySize
  room : reader = .store ∨ reader = .separate →
    pushed < segments.length ∧ pushed < released + config.maxSegArraySize
  stored : reader = .separate →
    (ring (pushed % config.maxSegArraySize)).seg = segments[pushed]? ∧
      (ring (pushed % config.maxSegArraySize)).parsedBy = []

structure FilterSide (segments : List Segment) (ring : Nat → DataSegment Segment Line) (filterHead : Nat)
    (filter : FilterPoint) (filtered : List (Passed Line)) (passed : Nat) : Prop where
  head_eq : filterHead = (passed + filter.moved) % config.maxSegArraySize
  sees : filter.Sees (ring (passed % config.maxSegArraySize)).status
  releases : ∀ head, filter = .release head → head = passed % config.maxSegArraySize
  length_eq : filtered.length = passed + filter.logged
  lines : filtered.map Passed.line = (segments.take filtered.length).map fun segment => (config.parserData segment).line
  parsed_once : ∀ entry ∈ filtered, ∃ thread, entry.parsedBy = [thread]
  touched : ∀ segment ∈ segments.take filtered.length, config.parserData segment ≠ .untouched

structure Progress (segments : List Segment) (state : State Segment Line) (pushed claimed passed : Nat) : Prop where
  slots : Slots config segments state.dataSegArray state.parsers (pushed + state.reader.ahead) claimed
    (passed + state.filter.freed)
  parseHead_eq : state.parseHead = claimed % config.maxSegArraySize
  reads : ReaderSide config segments state.dataSegArray state.pending state.rawDataHead state.reader pushed
    (passed + state.filter.freed)
  filters : FilterSide config segments state.dataSegArray state.filterHead state.filter state.filtered passed

section Frames

variable {config : Config Segment Line} {segments : List Segment} {ring after : Nat → DataSegment Segment Line}
  {pushed released passed filterHead : Nat} {filter : FilterPoint} {filtered : List (Passed Line)}

theorem ReaderSide.frame {pending : List Segment} {rawDataHead : Nat} {reader : ReaderPoint}
    (side : ReaderSide config segments ring pending rawDataHead reader pushed released)
    {released' : Nat} (order : released ≤ released')
    (same : reader = .separate → after (pushed % config.maxSegArraySize) = ring (pushed % config.maxSegArraySize)) :
    ReaderSide config segments after pending rawDataHead reader pushed released' := by
  refine { side with room := ?_, stored := ?_ }
  · intro point
    obtain ⟨more, room⟩ := side.room point
    exact ⟨more, by omega⟩
  · intro point
    rw [same point]
    exact side.stored point

section
variable (side : FilterSide config segments ring filterHead filter filtered passed)
include side

theorem FilterSide.frame (same : ∀ head, (ring head).status = .parsed ∨ (ring head).status = .invalid →
      (after head).status = (ring head).status) :
    FilterSide config segments after filterHead filter filtered passed := by
  refine { side with sees := ?_ }
  have sees := side.sees
  have kept := same (passed % config.maxSegArraySize)
  cases filter with
  | skip => exact (kept (.inr sees)).trans sees
  | process => exact (kept (.inl sees)).trans sees
  | advance => exact (kept (.inl sees)).trans sees
  | release head => rw [FilterPoint.Sees, kept sees]; exact sees
  | unstarted | load | reload | exitTest | advanceReleased | cleanup | stopped => exact sees

theorem FilterSide.update (head : Nat) (slot : DataSegment Segment Line)
    (unhandled : (ring head).status ≠ .parsed ∧ (ring head).status ≠ .invalid) :
    FilterSide config segments (Function.update ring head slot) filterHead filter filtered passed := by
  refine side.frame fun other handled => ?_
  by_cases same : other = head
  · subst same
    rcases handled with handled | handled
    · exact absurd handled unhandled.1
    · exact absurd handled unhandled.2
  · rw [Function.update_of_ne same]

/-- The filter thread passes the next segment, wherever it goes on then. -/
theorem FilterSide.log (length : filtered.length = passed)
    {segment : Segment} (found : segments[passed]? = some segment) {entry : Passed Line}
    (line_eq : entry.line = (config.parserData segment).line) (once : ∃ thread, entry.parsedBy = [thread])
    (touched : config.parserData segment ≠ .untouched) {next : FilterPoint} {nextHead : Nat}
    (head_eq : nextHead = (passed + next.moved) % config.maxSegArraySize)
    (sees : next.Sees (after (passed % config.maxSegArraySize)).status)
    (releases : ∀ head, next = .release head → head = passed % config.maxSegArraySize) (logged : next.logged = 1) :
    FilterSide config segments after nextHead next (filtered ++ [entry]) passed := by
  have lines := side.lines
  have earlier := side.touched
  have longer : (filtered ++ [entry]).length = passed + 1 := by simp [length]
  rw [length] at lines earlier
  refine ⟨head_eq, sees, releases, by rw [longer, logged], ?_, ?_, ?_⟩
  · simp [longer, List.take_add_one, found, lines, line_eq]
  · intro entry member
    rcases List.mem_append.mp member with member | member
    · exact side.parsed_once entry member
    · rw [List.mem_singleton.mp member]
      exact once
  · intro segment member
    rw [longer, List.take_add_one, found] at member
    rcases List.mem_append.mp member with member | member
    · exact earlier segment member
    · rw [List.mem_singleton.mp member]
      exact touched

end

end Frames

namespace Progress

variable {config : Config Segment Line} {segments : List Segment} {state : State Segment Line}
  {pushed claimed passed : Nat}

theorem start (config : Config Segment Line) (segments : List Segment) :
    Progress config segments (State.start segments) 0 0 0 where
  slots := Slots.start config segments
  parseHead_eq := (Nat.zero_mod _).symm
  reads := ⟨rfl, (Nat.zero_mod _).symm, by simp [State.start], by simp [State.start]⟩
  filters := ⟨(Nat.zero_mod _).symm, trivial, by simp [State.start], rfl, rfl, by simp [State.start],
    by simp [State.start]⟩

section

variable (progress : Progress config segments state pushed claimed passed)
include progress

/-- The reader goes on to a point where it holds no slot. -/
theorem reader_moves {toExit parseThreadStarted : Bool} {before after : ReaderPoint} (point : state.reader = before)
    (ahead : after.ahead = before.ahead := by rfl) (still : after ≠ .store ∧ after ≠ .separate := by simp) :
    Progress config segments { state with toExit, parseThreadStarted, reader := after } pushed claimed passed where
  slots := ahead.symm ▸ point ▸ progress.slots
  parseHead_eq := progress.parseHead_eq
  reads := { progress.reads with
    room := fun either => (either.elim still.1 still.2).elim
    stored := fun separating => absurd separating still.2 }
  filters := progress.filters

theorem load_step (point : state.reader = .load)
    (more : state.pending ≠ []) (free : (state.dataSegArray state.rawDataHead).status = .init) :
    Progress config segments { state with reader := .store } pushed claimed passed := by
  have slots := progress.slots
  rw [point] at slots
  refine ⟨slots, progress.parseHead_eq, { progress.reads with room := fun _ => ⟨?_, ?_⟩, stored := ?_ },
    progress.filters⟩
  · rw [progress.reads.pending_eq] at more
    simpa using more
  · rw [progress.reads.head_eq] at free
    exact slots.room free
  · intro impossible
    cases impossible

theorem store_step (point : state.reader = .store)
    {segment : Segment} {rest : List Segment} (found : state.pending = segment :: rest) :
    Progress config segments
      { state.setSlot state.rawDataHead
          { state.dataSegArray state.rawDataHead with seg := some segment, parsedBy := [] } with
        reader := .separate } pushed claimed passed := by
  obtain ⟨more, room⟩ := progress.reads.room (.inl point)
  have slots := progress.slots
  rw [point] at slots
  have free := slots.free pushed le_rfl room
  have first : segments[pushed]? = some segment := by
    have head := congrArg List.head? (progress.reads.pending_eq.symm.trans found)
    simpa using head
  simp only [setSlot, progress.reads.head_eq]
  refine ⟨slots.store room _, progress.parseHead_eq,
    { progress.reads with room := fun _ => ⟨more, room⟩, stored := fun _ => ?_, head_eq := rfl },
    progress.filters.update _ _ (by simp [free])⟩
  simp [first]

theorem separate_step (point : state.reader = .separate) :
    Progress config segments { state.setStatus state.rawDataHead .seprated with reader := .advance }
      pushed claimed passed := by
  obtain ⟨more, room⟩ := progress.reads.room (.inr point)
  obtain ⟨stored, fresh⟩ := progress.reads.stored point
  have slots := progress.slots
  rw [point] at slots
  have free := slots.free pushed le_rfl room
  simp only [setStatus, setSlot, progress.reads.head_eq]
  refine ⟨slots.separate room more stored fresh, progress.parseHead_eq,
    { progress.reads with room := ?_, stored := ?_, head_eq := rfl }, progress.filters.update _ _ (by simp [free])⟩
  · intro impossible
    cases impossible <;> contradiction
  · intro impossible
    cases impossible

theorem advance_step (point : state.reader = .advance) :
    Progress config segments
      { state with
        rawDataHead := State.next config state.rawDataHead
        pending := state.pending.tail
        reader := .launch } (pushed + 1) claimed passed := by
  have slots := progress.slots
  rw [point] at slots
  refine ⟨slots, progress.parseHead_eq, ⟨?_, ?_, ?_, ?_⟩, progress.filters⟩
  · rw [progress.reads.pending_eq, List.tail_drop]
  · simp [State.next, progress.reads.head_eq]
  · intro impossible
    cases impossible <;> contradiction
  · intro impossible
    cases impossible

theorem startFilter_step (point : state.reader = .startFilter) (unstarted : state.filter = .unstarted) :
    Progress config segments { state with filterThreadStarted := true, filter := .load, reader := .load }
      pushed claimed passed := by
  have moved : Progress config segments { state with reader := .load } pushed claimed passed :=
    progress.reader_moves point
  obtain ⟨slots, _, reads, filters⟩ := moved
  rw [unstarted] at slots reads filters
  exact ⟨slots, progress.parseHead_eq, reads, ⟨filters.head_eq, trivial, by simp, filters.length_eq, filters.lines,
    filters.parsed_once, filters.touched⟩⟩

theorem readerStep
    (unstarted : state.filterThreadStarted = false → state.reader = .startFilter → state.filter = .unstarted) :
    ∃ pushed, Progress config segments (state.readerStep config) pushed claimed passed := by
  unfold State.readerStep
  split
  next point _ => exact ⟨pushed, progress.reader_moves point⟩
  next point found =>
    split
    next free => exact ⟨pushed, progress.load_step point (by simp [found]) free⟩
    · exact ⟨pushed, progress⟩
  next point found => exact ⟨pushed, progress.store_step point found⟩
  next point => exact ⟨pushed, progress.separate_step point⟩
  next point => exact ⟨pushed + 1, progress.advance_step point⟩
  next point =>
    split
    · exact ⟨pushed, progress.reader_moves point⟩
    · exact ⟨pushed, progress.reader_moves point⟩
  next missing point =>
    have moved : Progress config segments { state with reader := .spawn missing } pushed claimed passed :=
      progress.reader_moves point
    exact ⟨pushed, { moved with slots := { moved.slots with threads := moved.slots.threads.spawn } }⟩
  next point => exact ⟨pushed, progress.reader_moves point⟩
  next point =>
    split
    · exact ⟨pushed, progress.reader_moves point⟩
    next flag => exact ⟨pushed, progress.startFilter_step point (unstarted (by simpa using flag) point)⟩
  next point =>
    split
    · exact ⟨pushed, progress.reader_moves point⟩
    · exact ⟨pushed, progress.reader_moves point⟩
  next point =>
    split
    · exact ⟨pushed, progress.reader_moves point⟩
    · exact ⟨pushed, progress⟩
  · exact ⟨pushed, progress⟩
  · exact ⟨pushed, progress⟩

theorem parser_moves {dataSegMux exited : Bool} {parserThreadCount thread : Nat} {before after : ParserPoint}
    (found : state.parsers[thread]? = some before) (idle : ∀ head, before ≠ .parsing head := by simp)
    (stays : ∀ head, after ≠ .parsing head := by simp) :
    Progress config segments { state.setParser thread after with dataSegMux, exited, parserThreadCount }
      pushed claimed passed :=
  { progress with slots := { progress.slots with threads := progress.slots.threads.set found idle stays } }

theorem reads_update (head : Nat) (slot : DataSegment Segment Line) (used : (state.dataSegArray head).status ≠ .init) :
    ReaderSide config segments (Function.update state.dataSegArray head slot) state.pending state.rawDataHead
      state.reader pushed (passed + state.filter.freed) := by
  refine progress.reads.frame le_rfl fun separating => ?_
  refine Function.update_of_ne ?_ _ _
  have slots := progress.slots
  rw [separating] at slots
  have free := slots.free pushed le_rfl (progress.reads.room (.inr separating)).2
  rintro rfl
  exact used free

theorem claim_step {thread : Nat}
    (found : state.parsers[thread]? = some .idle)
    (separated : (state.dataSegArray state.parseHead).status = .seprated) :
    Progress config segments
      { (state.setStatus state.parseHead .parsing).setParser thread (.parsing state.parseHead) with
        parseHead := State.next config state.parseHead } pushed (claimed + 1) passed := by
  have reads := progress.reads_update state.parseHead { state.dataSegArray state.parseHead with status := .parsing }
    (by simp [separated])
  have filters := progress.filters.update state.parseHead
    { state.dataSegArray state.parseHead with status := .parsing } (by simp [separated])
  refine ⟨?_, by simp only [State.next, progress.parseHead_eq, Nat.mod_add_mod], reads, filters⟩
  rw [progress.parseHead_eq] at separated
  simp only [progress.parseHead_eq]
  exact progress.slots.claim found (progress.slots.unclaimed separated)

theorem parserData_step {thread head : Nat}
    (found : state.parsers[thread]? = some (.parsing head)) {slot : DataSegment Segment Line}
    (kept : slot.seg = (state.dataSegArray head).seg) (taken : slot.Taken config) (recorded : slot.parsedBy ≠ []) :
    Progress config segments ((state.setSlot head slot).setParser thread .idle) pushed claimed passed := by
  have working := (progress.slots.threads.parses thread head found).2.1
  exact ⟨progress.slots.parse found kept taken recorded, progress.parseHead_eq,
    progress.reads_update _ _ (by simp [working]), progress.filters.update _ _ (by simp [working])⟩

theorem parserStep (thread : Nat) :
    state.Claims thread ∧ Progress config segments (state.parserStep config thread) pushed (claimed + 1) passed ∨
      ¬ state.Claims thread ∧ Progress config segments (state.parserStep config thread) pushed claimed passed := by
  unfold State.parserStep
  split
  next found =>
    unfold getNextSegment
    split
    next locked => exact .inr ⟨fun claims => by simp [claims.2.1] at locked, progress⟩
    next free =>
      split
      next separated => exact .inl ⟨⟨found, by simpa using free, separated⟩, progress.claim_step found separated⟩
      next unseparated =>
        exact .inr ⟨fun claims => unseparated claims.2.2, progress.parser_moves found⟩
  next found =>
    refine .inr ⟨fun claims => by simp [Claims, found] at claims, ?_⟩
    unfold testToExit
    split
    · exact progress.parser_moves found
    · exact progress.parser_moves found
  next head found =>
    refine .inr ⟨fun claims => by simp [Claims, found] at claims, ?_⟩
    obtain ⟨_, working, fresh⟩ := progress.slots.threads.parses thread head found
    simp only [parserData, fresh]
    split
    next line verdict => exact progress.parserData_step found rfl ⟨⟨thread, rfl⟩, line, verdict, rfl⟩ (by simp)
    next verdict => exact progress.parserData_step found rfl ⟨⟨thread, rfl⟩, verdict⟩ (by simp)
    next verdict =>
      refine progress.parserData_step found rfl ?_ (by simp)
      simp only [working]
      exact .inr verdict
    · exact progress
  next found =>
    exact .inr ⟨fun claims => by simp [Claims, found] at claims, progress.parser_moves found⟩
  next found => exact .inr ⟨fun claims => by simp [Claims, found] at claims, progress⟩
  next found => exact .inr ⟨fun claims => by simp [Claims, found] at claims, progress⟩

theorem oldest (unfreed : state.filter.freed = 0)
    (found : (state.dataSegArray (passed % config.maxSegArraySize)).status = .parsed ∨
      (state.dataSegArray (passed % config.maxSegArraySize)).status = .invalid) :
    (state.dataSegArray (passed % config.maxSegArraySize)).seg = segments[passed]? ∧
      (state.dataSegArray (passed % config.maxSegArraySize)).Taken config := by
  have slots := progress.slots
  rw [unfreed] at slots
  exact slots.taken passed le_rfl (slots.handled found)

theorem oldest_line (unfreed : state.filter.freed = 0) {line : Option Line}
    (found : (state.dataSegArray (passed % config.maxSegArraySize)).status = .invalid ∧ line = none ∨
      (state.dataSegArray (passed % config.maxSegArraySize)).status = .parsed ∧
        line = (state.dataSegArray (passed % config.maxSegArraySize)).bufLine) :
    ∃ segment, segments[passed]? = some segment ∧ line = (config.parserData segment).line ∧
      (∃ thread, (state.dataSegArray (passed % config.maxSegArraySize)).parsedBy = [thread]) ∧
      config.parserData segment ≠ .untouched := by
  rcases found with ⟨invalid, rfl⟩ | ⟨parsed, rfl⟩
  · obtain ⟨stored, taken⟩ := progress.oldest unfreed (.inr invalid)
    rw [DataSegment.Taken, invalid] at taken
    simp only [stored, Option.map_eq_some_iff] at taken
    obtain ⟨once, segment, found, verdict⟩ := taken
    exact ⟨segment, found, by rw [verdict]; rfl, once, by simp [verdict]⟩
  · obtain ⟨stored, taken⟩ := progress.oldest unfreed (.inl parsed)
    rw [DataSegment.Taken, parsed] at taken
    simp only [stored, Option.map_eq_some_iff] at taken
    obtain ⟨once, line, ⟨segment, found, verdict⟩, written⟩ := taken
    exact ⟨segment, found, by rw [verdict]; exact written, once, by simp [verdict]⟩

theorem filter_moves {before after : FilterPoint} (point : state.filter = before)
    (sees : after.Sees (state.dataSegArray (passed % config.maxSegArraySize)).status)
    (same : after.freed = before.freed ∧ after.moved = before.moved ∧ after.logged = before.logged := by decide)
    (releases : ∀ head, after ≠ .release head := by simp) :
    Progress config segments { state with filter := after } pushed claimed passed := by
  subst point
  have slots := progress.slots
  have reads := progress.reads
  have filters := progress.filters
  rw [← same.1] at slots reads
  exact ⟨slots, progress.parseHead_eq, reads, { filters with
    head_eq := by rw [same.2.1]; exact filters.head_eq
    sees := sees
    releases := fun head impossible => absurd impossible (releases head)
    length_eq := by rw [same.2.2]; exact filters.length_eq }⟩

theorem skip_step (point : state.filter = .skip) :
    Progress config segments
      { state.pass none with
        filterHead := State.next config state.filterHead
        filter := .release state.filterHead } pushed claimed passed := by
  have slots := progress.slots
  have reads := progress.reads
  have filters := progress.filters
  rw [point] at slots reads filters
  have head_eq : state.filterHead = passed % config.maxSegArraySize := filters.head_eq
  obtain ⟨segment, found, line, once, touched⟩ := progress.oldest_line (by rw [point]; rfl) (.inl ⟨filters.sees, rfl⟩)
  refine ⟨slots, progress.parseHead_eq, reads, filters.log filters.length_eq found line (by rwa [head_eq]) touched ?_
    (.inr filters.sees) ?_ rfl⟩
  · simp [State.next, head_eq, FilterPoint.moved]
  · rintro head ⟨⟩
    exact head_eq

theorem process_step (point : state.filter = .process) :
    Progress config segments
      { state.pass (state.dataSegArray state.filterHead).bufLine with filter := .advance } pushed claimed passed := by
  have slots := progress.slots
  have reads := progress.reads
  have filters := progress.filters
  rw [point] at slots reads filters
  have head_eq : state.filterHead = passed % config.maxSegArraySize := filters.head_eq
  obtain ⟨segment, found, line, once, touched⟩ := progress.oldest_line (by rw [point]; rfl) (.inr ⟨filters.sees, rfl⟩)
  simp only [State.pass, head_eq]
  exact ⟨slots, progress.parseHead_eq, reads,
    filters.log filters.length_eq found line once touched rfl filters.sees (by simp) rfl⟩

theorem advanceFilter_step (point : state.filter = .advance) :
    Progress config segments
      { state with filterHead := State.next config state.filterHead, filter := .release state.filterHead }
      pushed claimed passed := by
  have slots := progress.slots
  have reads := progress.reads
  have filters := progress.filters
  rw [point] at slots reads filters
  refine ⟨slots, progress.parseHead_eq, reads, { filters with head_eq := ?_, sees := .inl filters.sees, releases := ?_ }⟩
  · simp [State.next, filters.head_eq, FilterPoint.moved]
  · intro head here
    cases here
    exact filters.head_eq

theorem reads_release (unfreed : state.filter.freed = 0)
    (found : (state.dataSegArray (passed % config.maxSegArraySize)).status = .parsed ∨
      (state.dataSegArray (passed % config.maxSegArraySize)).status = .invalid) (slot : DataSegment Segment Line) :
    ReaderSide config segments
      (Function.update state.dataSegArray (passed % config.maxSegArraySize) slot) state.pending state.rawDataHead
      state.reader pushed (passed + 1) := by
  have reads := progress.reads_update (passed % config.maxSegArraySize) slot
    (by rcases found with found | found <;> simp [found])
  exact reads.frame (by omega) fun _ => rfl

theorem release_step {head : Nat} (point : state.filter = .release head) :
    Progress config segments { state.setStatus head .init with filter := .load } pushed claimed (passed + 1) := by
  have slots := progress.slots
  have filters := progress.filters
  have sees := filters.sees
  have reads := progress.reads_release (by rw [point]; rfl) (by rw [point] at sees; exact sees)
    { state.dataSegArray (passed % config.maxSegArraySize) with status := .init }
  rw [point] at slots filters
  have place := filters.releases head rfl
  simp only [place]
  exact ⟨slots.release filters.sees, progress.parseHead_eq, reads,
    ⟨filters.head_eq, trivial, by simp, filters.length_eq, filters.lines, filters.parsed_once, filters.touched⟩⟩

theorem skipReleased_step (point : state.filter = .skip) :
    Progress config segments { (state.pass none).setStatus state.filterHead .init with filter := .advanceReleased }
      pushed claimed passed := by
  have slots := progress.slots
  have filters := progress.filters
  have sees := filters.sees
  have reads := progress.reads_release (by rw [point]; rfl) (by rw [point] at sees; exact .inr sees)
    { state.dataSegArray (passed % config.maxSegArraySize) with status := .init }
  rw [point] at slots filters
  have head_eq : state.filterHead = passed % config.maxSegArraySize := filters.head_eq
  obtain ⟨segment, found, line, once, touched⟩ := progress.oldest_line (by rw [point]; rfl) (.inl ⟨filters.sees, rfl⟩)
  simp only [State.pass, head_eq]
  exact ⟨slots.release (.inr filters.sees), progress.parseHead_eq, reads,
    filters.log filters.length_eq found line once touched rfl trivial (by simp) rfl⟩

theorem advanceReleased_step (point : state.filter = .advanceReleased) :
    Progress config segments { state with filterHead := State.next config state.filterHead, filter := .load }
      pushed claimed (passed + 1) := by
  have slots := progress.slots
  have reads := progress.reads
  have filters := progress.filters
  rw [point] at slots reads filters
  refine ⟨slots, progress.parseHead_eq, reads, ⟨?_, trivial, by simp, filters.length_eq, filters.lines,
    filters.parsed_once, filters.touched⟩⟩
  simp [State.next, filters.head_eq, FilterPoint.moved]

theorem filterStep :
    Progress config segments (state.filterStep config) pushed claimed (passed + state.filter.completes) := by
  have head_eq := progress.filters.head_eq
  unfold State.filterStep
  split
  next point =>
    rw [point]
    exact progress
  next point =>
    rw [point] at head_eq ⊢
    split
    next invalid =>
      rw [head_eq] at invalid
      exact progress.filter_moves point invalid
    · exact progress.filter_moves point trivial
  next point =>
    rw [point] at head_eq ⊢
    split
    next parsed =>
      rw [head_eq] at parsed
      exact progress.filter_moves point parsed
    · exact progress.filter_moves point trivial
  next point =>
    rw [point]
    split
    · have moved : Progress config segments { state with filter := .cleanup } pushed claimed passed :=
        progress.filter_moves point trivial
      exact ⟨moved.slots, moved.parseHead_eq, moved.reads, moved.filters⟩
    · exact progress.filter_moves point trivial
  next point =>
    rw [point]
    split
    · exact progress.skipReleased_step point
    · exact progress.skip_step point
  next point =>
    rw [point]
    exact progress.process_step point
  next point =>
    rw [point]
    exact progress.advanceFilter_step point
  next head point =>
    rw [point]
    exact progress.release_step point
  next point =>
    rw [point]
    exact progress.advanceReleased_step point
  next point =>
    rw [point]
    have moved : Progress config segments { state with filter := .stopped } pushed claimed passed :=
      progress.filter_moves point trivial
    exact ⟨moved.slots, moved.parseHead_eq, moved.reads, moved.filters⟩
  next point =>
    rw [point]
    exact progress

end

end Progress

end SmartPerf.Pipeline
