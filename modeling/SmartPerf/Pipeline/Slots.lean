import SmartPerf.Data.ListLookup
import SmartPerf.Pipeline.Ring

namespace SmartPerf.Pipeline

open Function

/-! The slots of the ring over a run.  Segments are counted from the start of the file: the
slots of the segments from `released` to `separated` are in use, those up to `claimed` are
taken by parser threads, and the segment with number `index` lives in the slot
`index % maxSegArraySize`. -/

variable {Segment Line : Type*} (config : Config Segment Line)

def DataSegment.Taken (slot : DataSegment Segment Line) : Prop :=
  match slot.status with
  | .parsing => slot.parsedBy = [] ∨ slot.seg.map config.parserData = some .untouched
  | .parsed => (∃ thread, slot.parsedBy = [thread]) ∧
      ∃ line, slot.seg.map config.parserData = some (.parsed line) ∧ slot.bufLine = some line
  | .invalid => (∃ thread, slot.parsedBy = [thread]) ∧ slot.seg.map config.parserData = some .invalid
  | .init => False
  | .seprated => False

def ParsesAt (parsers : List ParserPoint) (thread head : Nat) : Prop :=
  parsers[thread]? = some (.parsing head)

/-- Each thread at work has its own slot, and each slot that waits to be parsed has its thread. -/
structure Threads (ring : Nat → DataSegment Segment Line) (parsers : List ParserPoint) (claimed released : Nat)
    : Prop where
  parses : ∀ thread head, ParsesAt parsers thread head →
    (∃ index, released ≤ index ∧ index < claimed ∧ head = index % config.maxSegArraySize) ∧
      (ring head).status = .parsing ∧ (ring head).parsedBy = []
  alone : ∀ thread other head, ParsesAt parsers thread head → ParsesAt parsers other head → thread = other
  worked : ∀ head, (ring head).status = .parsing → (ring head).parsedBy = [] → ∃ thread, ParsesAt parsers thread head

structure Slots (segments : List Segment) (ring : Nat → DataSegment Segment Line) (parsers : List ParserPoint)
    (separated claimed released : Nat) : Prop where
  released_le : released ≤ claimed
  claimed_le : claimed ≤ separated
  separated_le : separated ≤ segments.length
  fits : separated ≤ released + config.maxSegArraySize
  free : ∀ index, separated ≤ index → index < released + config.maxSegArraySize →
    (ring (index % config.maxSegArraySize)).status = .init
  waiting : ∀ index, claimed ≤ index → index < separated →
    (ring (index % config.maxSegArraySize)).seg = segments[index]? ∧
      (ring (index % config.maxSegArraySize)).status = .seprated ∧
      (ring (index % config.maxSegArraySize)).parsedBy = []
  taken : ∀ index, released ≤ index → index < claimed →
    (ring (index % config.maxSegArraySize)).seg = segments[index]? ∧
      (ring (index % config.maxSegArraySize)).Taken config
  threads : Threads config ring parsers claimed released

theorem update_of_window {Value : Type*} {ring : Nat → Value} {value : Value} {base size index other : Nat}
    (lower : base ≤ index) (upper : index < base + size) (otherLower : base ≤ other) (otherUpper : other < base + size)
    (different : index ≠ other) : Function.update ring (other % size) value (index % size) = ring (index % size) := by
  refine update_of_ne (fun same => different ?_) _ _
  exact Nat.mod_injOn_Ico base size (by simpa using ⟨lower, upper⟩) (by simpa using ⟨otherLower, otherUpper⟩) same

theorem parsesAt_set {parsers : List ParserPoint} {thread other head : Nat} {point : ParserPoint}
    (started : thread < parsers.length) :
    ParsesAt (parsers.set thread point) other head ↔
      (other = thread ∧ point = .parsing head) ∨ (other ≠ thread ∧ ParsesAt parsers other head) := by
  by_cases same : thread = other
  · subst same
    simp [ParsesAt, List.getElem?_set_self started]
  · simp [ParsesAt, List.getElem?_set_ne same, Ne.symm same]

namespace Threads

variable {config : Config Segment Line} {ring : Nat → DataSegment Segment Line} {parsers : List ParserPoint}
  {claimed released : Nat}

section
variable (threads : Threads config ring parsers claimed released)
include threads

theorem update {head : Nat}
    {slot : DataSegment Segment Line} (before : (ring head).status ≠ .parsing) (after : slot.status ≠ .parsing) :
    Threads config (Function.update ring head slot) parsers claimed released := by
  refine { threads with parses := ?_, worked := ?_ }
  · intro thread other parses
    obtain ⟨place, status, fresh⟩ := threads.parses thread other parses
    have elsewhere : other ≠ head := by
      intro same
      exact before (same ▸ status)
    rw [update_of_ne elsewhere]
    exact ⟨place, status, fresh⟩
  · intro other status fresh
    by_cases same : other = head
    · subst same
      rw [update_self] at status
      exact absurd status after
    · rw [update_of_ne same] at status fresh
      exact threads.worked other status fresh

theorem congr {others : List ParserPoint}
    (same : ∀ thread head, ParsesAt others thread head ↔ ParsesAt parsers thread head) :
    Threads config ring others claimed released := by
  constructor
  · intro other head parses
    exact threads.parses other head ((same other head).mp parses)
  · intro one two head first second
    exact threads.alone one two head ((same one head).mp first) ((same two head).mp second)
  · intro head status fresh
    obtain ⟨worker, parses⟩ := threads.worked head status fresh
    exact ⟨worker, (same worker head).mpr parses⟩

theorem set {thread : Nat} {before after : ParserPoint}
    (found : parsers[thread]? = some before) (idle : ∀ head, before ≠ .parsing head)
    (stays : ∀ head, after ≠ .parsing head) : Threads config ring (parsers.set thread after) claimed released := by
  have started := Data.lookup_lt found
  refine threads.congr fun other head => ?_
  rw [parsesAt_set started]
  constructor
  · rintro (⟨_, impossible⟩ | ⟨_, parses⟩)
    · exact absurd impossible (stays head)
    · exact parses
  · intro parses
    refine .inr ⟨?_, parses⟩
    rintro rfl
    rw [ParsesAt, found] at parses
    exact idle head (Option.some.inj parses)

theorem spawn : Threads config ring (parsers ++ [.idle]) claimed released := by
  refine threads.congr fun other head => ?_
  simp [ParsesAt, Data.lookup_append_iff]

end

end Threads

namespace Slots

variable {config : Config Segment Line} {segments : List Segment} {ring : Nat → DataSegment Segment Line}
  {parsers : List ParserPoint} {separated claimed released : Nat}

theorem start (config : Config Segment Line) (segments : List Segment) :
    Slots config segments (fun _ => {}) [] 0 0 0 := by
  constructor
  case threads => constructor <;> simp [ParsesAt]
  case free => intro index _ _; rfl
  all_goals simp

section

variable (slots : Slots config segments ring parsers separated claimed released)
include slots

theorem room (found : (ring (separated % config.maxSegArraySize)).status = .init) :
    separated < released + config.maxSegArraySize := by
  by_contra full
  have bound := slots.fits
  have positive := config.maxSegArraySize_pos
  have filled : separated = released + config.maxSegArraySize := by omega
  rw [filled, Nat.add_mod_right] at found
  by_cases claims : released < claimed
  · have taken := (slots.taken released le_rfl claims).2
    simp [DataSegment.Taken, found] at taken
  · have waits := (slots.waiting released (by omega) (by omega)).2.1
    rw [found] at waits
    cases waits

theorem store (room : separated < released + config.maxSegArraySize) (segment : Option Segment) :
    Slots config segments
      (Function.update ring (separated % config.maxSegArraySize)
        { ring (separated % config.maxSegArraySize) with seg := segment, parsedBy := [] })
      parsers separated claimed released := by
  have released_le := slots.released_le
  have claimed_le := slots.claimed_le
  have free := slots.free separated le_rfl room
  have unused : (ring (separated % config.maxSegArraySize)).status ≠ .parsing := by simp [free]
  refine { slots with free := ?_, waiting := ?_, taken := ?_, threads := slots.threads.update unused unused }
  · intro index lower upper
    by_cases same : index = separated
    · subst same
      simpa using free
    · rw [update_of_window (by omega) upper (by omega) room same]
      exact slots.free index lower upper
  · intro index lower upper
    rw [update_of_window (by omega) (by omega) (by omega) room (by omega)]
    exact slots.waiting index lower upper
  · intro index lower upper
    rw [update_of_window lower (by omega) (by omega) room (by omega)]
    exact slots.taken index lower upper

theorem separate (room : separated < released + config.maxSegArraySize) (more : separated < segments.length)
    (stored : (ring (separated % config.maxSegArraySize)).seg = segments[separated]?)
    (fresh : (ring (separated % config.maxSegArraySize)).parsedBy = []) :
    Slots config segments
      (Function.update ring (separated % config.maxSegArraySize)
        { ring (separated % config.maxSegArraySize) with status := .seprated })
      parsers (separated + 1) claimed released := by
  have released_le := slots.released_le
  have claimed_le := slots.claimed_le
  have free := slots.free separated le_rfl room
  refine { slots with claimed_le := by omega, separated_le := more, fits := room, free := ?_, waiting := ?_,
                      taken := ?_, threads := slots.threads.update (by simp [free]) (by simp) }
  · intro index lower upper
    rw [update_of_window (by omega) upper (by omega) room (by omega)]
    exact slots.free index (by omega) upper
  · intro index lower upper
    by_cases same : index = separated
    · subst same
      simpa using ⟨stored, fresh⟩
    · rw [update_of_window (by omega) (by omega) (by omega) room same]
      exact slots.waiting index lower (by omega)
  · intro index lower upper
    rw [update_of_window lower (by omega) (by omega) room (by omega)]
    exact slots.taken index lower upper

theorem unclaimed (found : (ring (claimed % config.maxSegArraySize)).status = .seprated) : claimed < separated := by
  by_contra all
  have claimed_le := slots.claimed_le
  have fits := slots.fits
  have positive := config.maxSegArraySize_pos
  by_cases full : claimed = released + config.maxSegArraySize
  · rw [full, Nat.add_mod_right] at found
    have taken := (slots.taken released le_rfl (by omega)).2
    simp [DataSegment.Taken, found] at taken
  · have free := slots.free claimed (by omega) (by omega)
    rw [found] at free
    cases free

theorem claim {thread : Nat}
    (found : parsers[thread]? = some .idle) (more : claimed < separated) :
    Slots config segments
      (Function.update ring (claimed % config.maxSegArraySize)
        { ring (claimed % config.maxSegArraySize) with status := .parsing })
      (parsers.set thread (.parsing (claimed % config.maxSegArraySize))) separated (claimed + 1) released := by
  have released_le := slots.released_le
  have fits := slots.fits
  have room : claimed < released + config.maxSegArraySize := by omega
  obtain ⟨stored, status, fresh⟩ := slots.waiting claimed le_rfl more
  have started := Data.lookup_lt found
  -- no thread works on a slot that is still separated
  have elsewhere : ∀ other head, ParsesAt parsers other head → head ≠ claimed % config.maxSegArraySize := by
    intro other head parses same
    have working := (slots.threads.parses other head parses).2.1
    rw [same, status] at working
    cases working
  refine { slots with released_le := by omega, claimed_le := more, free := ?_, waiting := ?_, taken := ?_,
                      threads := ⟨?_, ?_, ?_⟩ }
  · intro index lower upper
    rw [update_of_window (by omega) upper (by omega) room (by omega)]
    exact slots.free index lower upper
  · intro index lower upper
    rw [update_of_window (by omega) (by omega) (by omega) room (by omega)]
    exact slots.waiting index (by omega) upper
  · intro index lower upper
    by_cases same : index = claimed
    · subst same
      simpa using ⟨stored, .inl fresh⟩
    · rw [update_of_window lower (by omega) (by omega) room same]
      exact slots.taken index lower (by omega)
  · intro other head parses
    rcases (parsesAt_set started).mp parses with ⟨_, here⟩ | ⟨_, parses⟩
    · cases here
      exact ⟨⟨claimed, released_le, by omega, rfl⟩, by simp, by simpa using fresh⟩
    · obtain ⟨⟨index, lower, upper, place⟩, working⟩ := slots.threads.parses other head parses
      rw [update_of_ne (elsewhere other head parses)]
      exact ⟨⟨index, lower, by omega, place⟩, working⟩
  · intro one two head first second
    rcases (parsesAt_set started).mp first with ⟨rfl, here⟩ | ⟨_, oneParses⟩ <;>
      rcases (parsesAt_set started).mp second with ⟨rfl, also⟩ | ⟨_, twoParses⟩
    · rfl
    · cases here
      exact absurd rfl (elsewhere two _ twoParses)
    · cases also
      exact absurd rfl (elsewhere one _ oneParses)
    · exact slots.threads.alone one two head oneParses twoParses
  · intro head working untouched
    by_cases same : head = claimed % config.maxSegArraySize
    · exact ⟨thread, (parsesAt_set started).mpr (.inl ⟨rfl, by rw [same]⟩)⟩
    · rw [update_of_ne same] at working untouched
      obtain ⟨worker, parses⟩ := slots.threads.worked head working untouched
      refine ⟨worker, (parsesAt_set started).mpr (.inr ⟨?_, parses⟩)⟩
      rintro rfl
      rw [ParsesAt, found] at parses
      cases parses

theorem parse {thread head : Nat}
    {slot : DataSegment Segment Line} (found : ParsesAt parsers thread head) (kept : slot.seg = (ring head).seg)
    (taken : slot.Taken config) (recorded : slot.parsedBy ≠ []) :
    Slots config segments (Function.update ring head slot) (parsers.set thread .idle) separated claimed released := by
  have claimed_le := slots.claimed_le
  have fits := slots.fits
  obtain ⟨⟨place, lower, upper, rfl⟩, working, fresh⟩ := slots.threads.parses thread head found
  have started := Data.lookup_lt found
  have others : ∀ other head, ParsesAt (parsers.set thread .idle) other head →
      ParsesAt parsers other head ∧ head ≠ place % config.maxSegArraySize := by
    intro other head parses
    rcases (parsesAt_set started).mp parses with ⟨_, impossible⟩ | ⟨different, parses⟩
    · cases impossible
    · refine ⟨parses, ?_⟩
      rintro rfl
      exact different (slots.threads.alone other thread _ parses found)
  refine { slots with free := ?_, waiting := ?_, taken := ?_, threads := ⟨?_, ?_, ?_⟩ }
  · intro index after room
    rw [update_of_window (by omega) room lower (by omega) (by omega)]
    exact slots.free index after room
  · intro index after before
    rw [update_of_window (by omega) (by omega) lower (by omega) (by omega)]
    exact slots.waiting index after before
  · intro index after before
    by_cases same : index = place
    · subst same
      rw [update_self, kept]
      exact ⟨(slots.taken index after before).1, taken⟩
    · rw [update_of_window after (by omega) lower (by omega) same]
      exact slots.taken index after before
  · intro other head parses
    obtain ⟨parses, elsewhere⟩ := others other head parses
    rw [update_of_ne elsewhere]
    exact slots.threads.parses other head parses
  · intro one two head first second
    exact slots.threads.alone one two head (others one head first).1 (others two head second).1
  · intro head status untouched
    by_cases same : head = place % config.maxSegArraySize
    · rw [same, update_self] at untouched
      exact absurd untouched recorded
    · rw [update_of_ne same] at status untouched
      obtain ⟨worker, parses⟩ := slots.threads.worked head status untouched
      refine ⟨worker, (parsesAt_set started).mpr (.inr ⟨?_, parses⟩)⟩
      rintro rfl
      rw [ParsesAt, found] at parses
      cases parses
      exact same rfl

section
variable (found : (ring (released % config.maxSegArraySize)).status = .parsed ∨
  (ring (released % config.maxSegArraySize)).status = .invalid)
include found

theorem handled : released < claimed := by
  by_contra none
  have positive := config.maxSegArraySize_pos
  by_cases waits : released < separated
  · have status := (slots.waiting released (by omega) waits).2.1
    simp [status] at found
  · have status := slots.free released (by omega) (by omega)
    simp [status] at found

theorem release : Slots config segments (Function.update ring (released % config.maxSegArraySize)
        { ring (released % config.maxSegArraySize) with status := .init })
      parsers separated claimed (released + 1) := by
  have more := slots.handled found
  have claimed_le := slots.claimed_le
  have fits := slots.fits
  have room : released < released + config.maxSegArraySize := by omega
  have unused : (ring (released % config.maxSegArraySize)).status ≠ .parsing := by
    rcases found with found | found <;> simp [found]
  have threads : Threads config (Function.update ring (released % config.maxSegArraySize)
        { ring (released % config.maxSegArraySize) with status := .init }) parsers claimed released :=
    slots.threads.update unused (by simp)
  refine { slots with released_le := more, fits := by omega, free := ?_, waiting := ?_, taken := ?_,
                      threads := { threads with parses := ?_ } }
  · intro index lower upper
    by_cases same : index = released + config.maxSegArraySize
    · rw [same, Nat.add_mod_right, update_self]
    · rw [update_of_window (by omega) (by omega) le_rfl room (by omega)]
      exact slots.free index lower (by omega)
  · intro index lower upper
    rw [update_of_window (by omega) (by omega) le_rfl room (by omega)]
    exact slots.waiting index lower upper
  · intro index lower upper
    rw [update_of_window (by omega) (by omega) le_rfl room (by omega)]
    exact slots.taken index (by omega) upper
  · intro thread head parses
    obtain ⟨⟨index, lower, upper, place⟩, working⟩ := threads.parses thread head parses
    refine ⟨⟨index, ?_, upper, place⟩, working⟩
    rcases Nat.lt_or_eq_of_le lower with after | same
    · exact after
    · have here := (slots.threads.parses thread head parses).2.1
      rw [place, ← same] at here
      exact absurd here unused

end

end

end Slots

end SmartPerf.Pipeline
