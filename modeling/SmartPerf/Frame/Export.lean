import SmartPerf.Data.Assoc
import SmartPerf.Data.Run
import SmartPerf.Frame.FrameFilter

namespace SmartPerf.Frame

open Data List FrameSliceTable

/-! The rows of the frames across exports. The frame with number `n` owns the logical rows
`2 * n` and `2 * n + 1`. -/

namespace FrameFilter

variable {filter before after : FrameFilter} {frame : Nat}

theorem mem_references : frame ∈ filter.references ↔
    (∃ itid frames, filter.vsyncRenderSlice.lookup itid = some frames ∧ frame ∈ frames) ∨
      ∃ itid frameMap frameNum, filter.dstRenderSlice.lookup itid = some frameMap ∧
        frameMap.lookup frameNum = some frame := by
  simp only [references, mem_append, mem_flatMap, mem_map]
  apply or_congr
  · constructor
    · intro ⟨entry, member, inside⟩
      exact ⟨entry.1, entry.2, AList.mem_lookup_iff.mpr member, inside⟩
    · intro ⟨itid, frames, found, inside⟩
      exact ⟨⟨itid, frames⟩, AList.mem_lookup_iff.mp found, inside⟩
  · constructor
    · intro ⟨entry, member, inner, inside, same⟩
      exact ⟨entry.1, entry.2, inner.1, AList.mem_lookup_iff.mpr member,
        AList.mem_lookup_iff.mpr (by rw [← same]; exact inside)⟩
    · intro ⟨itid, frameMap, frameNum, found, inside⟩
      exact ⟨⟨itid, frameMap⟩, AList.mem_lookup_iff.mp found, ⟨frameNum, frame⟩, AList.mem_lookup_iff.mp inside, rfl⟩

end FrameFilter

def FrameSlice.rows (frame : FrameSlice) : Nat × Nat := (frame.frameSliceRow, frame.frameExpectedSliceRow)

def FrameEvent.keepsRows : FrameEvent → Bool
  | .beginVsync .. => false
  | .flush => false
  | _ => true

/-- The step changes no row of a frame, adds no row and no reference. -/
structure Steady (before after : FrameFilter) : Prop where
  rows : after.frames.map FrameSlice.rows = before.frames.map FrameSlice.rows
  length : after.table.rows.length = before.table.rows.length
  disk : after.table.diskTableSize = before.table.diskTableSize
  references : ∀ frame ∈ after.references, frame ∈ before.references

namespace Steady

variable {filter before middle after : FrameFilter}

theorem refl (filter : FrameFilter) : Steady filter filter := ⟨rfl, rfl, rfl, fun _ inside => inside⟩

theorem trans (first : Steady before middle) (second : Steady middle after) : Steady before after where
  rows := second.rows.trans first.rows
  length := second.length.trans first.length
  disk := second.disk.trans first.disk
  references frame inside := first.references frame (second.references frame inside)

section
variable (steady : Steady before after)
include steady

theorem setFrame (frame : Nat) {change : FrameSlice → FrameSlice}
    (kept : ∀ slice, (change slice).rows = slice.rows) : Steady before (after.setFrame frame change) where
  rows := by
    rw [← steady.rows]
    apply ext_getElem?
    intro index
    simp only [FrameFilter.setFrame, getElem?_map, getElem?_modify]
    cases after.frames[index]? with
    | none => rfl
    | some slice => by_cases same : frame = index <;> simp [same, kept]
  length := steady.length
  disk := steady.disk
  references := steady.references

theorem setRow (row : Nat) (change : FrameSliceRow → FrameSliceRow) :
    Steady before { after with table := after.table.setRow row change } where
  rows := steady.rows
  length := (length_modify ..).trans steady.length
  disk := steady.disk
  references := steady.references

theorem setVsync {itid : Nat} {old frames : List Nat}
    (found : after.vsyncRenderSlice.lookup itid = some old) (fewer : ∀ frame ∈ frames, frame ∈ old) :
    Steady before (after.setVsync itid frames) where
  rows := steady.rows
  length := steady.length
  disk := steady.disk
  references frame inside := by
    apply steady.references
    rw [FrameFilter.mem_references] at inside ⊢
    rcases inside with ⟨other, slices, lookup, member⟩ | inside
    · rcases lookup_of_insert lookup with rfl | lookup
      · exact .inl ⟨itid, old, found, fewer frame member⟩
      · exact .inl ⟨other, slices, lookup, member⟩
    · exact .inr inside

theorem setLists (frameMaps gpuSlices : List (Nat × Nat)) : Steady before { after with frameMaps, gpuSlices } :=
  ⟨steady.rows, steady.length, steady.disk, steady.references⟩

end

end Steady

namespace FrameFilter

variable (filter : FrameFilter)

theorem markRSOnDoCompositionEvent_steady (itid : Nat) : Steady filter (filter.markRSOnDoCompositionEvent itid) := by
  unfold markRSOnDoCompositionEvent
  split
  · exact .refl filter
  · exact (Steady.refl filter).setFrame _ fun _ => rfl

theorem startFrameQueue_steady (ts itid : Nat) : Steady filter (filter.startFrameQueue ts itid) := by
  unfold startFrameQueue
  split
  · exact .refl filter
  · exact (Steady.refl filter).setFrame _ fun _ => rfl

theorem beginRSTransactionData_steady (itid frameNum : Nat) :
    Steady filter (filter.beginRSTransactionData itid frameNum) := by
  unfold beginRSTransactionData
  split
  · exact .refl filter
  next first found =>
    obtain ⟨frames, held, head⟩ := Option.bind_eq_some_iff.mp found
    have marked : Steady filter (filter.setFrame first fun frame => { frame with frameNum }) :=
      (Steady.refl filter).setFrame first fun _ => rfl
    apply marked.trans
    constructor
    · rfl
    · rfl
    · rfl
    · intro frame inside
      rw [mem_references] at inside ⊢
      rcases inside with inside | ⟨other, frameMap, number, lookup, member⟩
      · exact .inl inside
      · rcases lookup_of_insert lookup with rfl | lookup
        · rcases lookup_of_insert member with rfl | member
          · exact .inl ⟨itid, frames, held, mem_of_mem_head? head⟩
          · cases known : (filter.setFrame first fun frame => { frame with frameNum }).dstRenderSlice.lookup itid with
            | none => simp [known] at member
            | some old => exact .inr ⟨itid, old, number, known, by simpa [known] using member⟩
        · exact .inr ⟨other, frameMap, number, lookup, member⟩

theorem appendFrameMap_steady (src dst : Nat) : Steady filter (filter.appendFrameMap src dst) := by
  have listed := (Steady.refl filter).setLists
    (filter.frameMaps ++ [(filter.table.diskTableSize + src, filter.table.diskTableSize + dst)]) filter.gpuSlices
  simp only [appendFrameMap]
  split
  · split
    · exact listed.setRow ..
    · exact listed
  · exact listed

theorem setDst_steady (row dst : Nat) : Steady filter (filter.setDst row dst) := (Steady.refl filter).setRow ..

variable (last : FrameSlice)

theorem linkSource_steady (source : FrameMap) (frame : FrameSlice) :
    Steady filter (filter.linkSource last source frame) := by
  have linked := ((((filter.appendFrameMap_steady frame.frameSliceRow last.frameSliceRow).trans
    (appendFrameMap_steady _ frame.frameExpectedSliceRow last.frameExpectedSliceRow)).trans
    (setDst_steady _ frame.frameSliceRow last.frameSliceRow)).trans
    (setDst_steady _ frame.frameExpectedSliceRow last.frameExpectedSliceRow))
  simp only [linkSource]
  split
  · split
    · exact linked
    next frameMap found =>
      apply linked.trans
      constructor
      · rfl
      · rfl
      · rfl
      · intro reference inside
        rw [mem_references] at inside ⊢
        rcases inside with inside | ⟨other, slices, number, lookup, member⟩
        · exact .inl inside
        · rcases lookup_of_insert lookup with rfl | lookup
          · exact .inr ⟨_, frameMap, number, found, lookup_of_erase member⟩
          · exact .inr ⟨other, slices, number, lookup, member⟩
  · exact linked

theorem linkSources_steady (sources : List FrameMap) (fromSlices fromExpectedSlices : List Nat) :
    Steady filter (linkSources last filter sources fromSlices fromExpectedSlices).1 := by
  induction sources generalizing filter fromSlices fromExpectedSlices with
  | nil => exact .refl filter
  | cons source rest ih =>
    simp only [linkSources]
    split
    · exact ih ..
    · split
      · exact ih ..
      · exact (filter.linkSource_steady last source _).trans (ih ..)

theorem beginProcessCommandUni_steady (itid : Nat) (frames : List FrameMap) :
    Steady filter (filter.beginProcessCommandUni itid frames) := by
  unfold beginProcessCommandUni
  split
  · exact .refl filter
  next last found =>
    have linked := filter.linkSources_steady last frames [] []
    split
    · exact .refl filter
    · dsimp only
      split
      · exact linked
      · exact (linked.setRow last.frameSliceRow _).setRow last.frameExpectedSliceRow _

theorem setEndTime_steady (frame : FrameSlice) (ts : Nat) : Steady filter (filter.setEndTime frame ts) :=
  (Steady.refl filter).setRow ..

theorem endVsyncEvent_steady (ts itid : Nat) : Steady filter (filter.endVsyncEvent ts itid) := by
  unfold endVsyncEvent
  split
  · exact .refl filter
  next slices held =>
    have fewer : ∀ frame ∈ slices.dropLast, frame ∈ slices := fun _ inside => mem_of_mem_dropLast inside
    split
    next last frame found slice =>
      have ended : Steady filter (filter.setFrame last fun frame => { frame with vsyncEnd := true }) :=
        (Steady.refl filter).setFrame last fun _ => rfl
      have timed := ended.trans (setEndTime_steady _ frame ts)
      split
      · split
        · exact (timed.setFrame last fun _ => by rfl).setVsync held fewer
        · exact ended
      · split
        · exact ((timed.setRow ..).setRow ..).setVsync held fewer
        · exact (timed.setFrame last fun _ => by rfl).setVsync held fewer
    · exact .refl filter

theorem endFrameQueue_steady (ts itid : Nat) : Steady filter (filter.endFrameQueue ts itid) := by
  unfold endFrameQueue
  split
  · exact .refl filter
  next slices held =>
    split
    next first frame found slice =>
      have queued := (Steady.refl filter).setLists filter.frameMaps (filter.gpuSlices ++
        [((filter.table.diskTableSize + frame.frameSliceRow) % 2 ^ 32, subUint64 ts frame.frameQueueStartTs)])
      split
      · exact (((queued.setFrame first fun _ => by rfl).setFrame first fun _ => by rfl).trans
          (setEndTime_steady _ frame ts)).setVsync held fun _ inside => mem_of_mem_tail inside
      · exact queued.setFrame first fun _ => by rfl
    · exact .refl filter

theorem step_steady {event : FrameEvent} (keeps : event.keepsRows = true) : Steady filter (filter.step event) := by
  cases event with
  | beginVsync => cases keeps
  | markRSOnDoComposition itid => exact filter.markRSOnDoCompositionEvent_steady itid
  | beginRSTransactionData itid frameNum => exact filter.beginRSTransactionData_steady itid frameNum
  | beginProcessCommandUni itid frames => exact filter.beginProcessCommandUni_steady itid frames
  | endVsync ts itid => exact filter.endVsyncEvent_steady ts itid
  | startFrameQueue ts itid => exact filter.startFrameQueue_steady ts itid
  | endFrameQueue ts itid => exact filter.endFrameQueue_steady ts itid
  | flush => cases keeps

end FrameFilter

/-- Every frame of the list owns its two logical rows. -/
structure Owns (number disk : Nat) (frame : FrameSlice) : Prop where
  actual : frame.frameSliceRow + disk = 2 * number
  expected : frame.frameExpectedSliceRow + disk = 2 * number + 1

/-- Every referenced frame owns its two logical rows, and the table has two rows for each frame. -/
structure Placed (filter : FrameFilter) : Prop where
  size : filter.table.rows.length + filter.table.diskTableSize = 2 * filter.frames.length
  owns : ∀ number ∈ filter.references, ∃ frame, filter.frames[number]? = some frame ∧
    Owns number filter.table.diskTableSize frame

/-- Without exports that holds of every frame there has been. -/
structure AllPlaced (filter : FrameFilter) : Prop where
  disk : filter.table.diskTableSize = 0
  size : filter.table.rows.length = 2 * filter.frames.length
  owns : ∀ number frame, filter.frames[number]? = some frame → Owns number 0 frame

theorem Owns.of_rows {number disk : Nat} {old new : FrameSlice} (owns : Owns number disk old)
    (same : new.rows = old.rows) : Owns number disk new := by
  obtain ⟨actual, expected⟩ := Prod.mk.inj same
  exact ⟨actual ▸ owns.actual, expected ▸ owns.expected⟩

namespace Steady

variable {before after : FrameFilter} (steady : Steady before after)
include steady

theorem frames_length : after.frames.length = before.frames.length := by
  simpa using congrArg List.length steady.rows

theorem frame_rows (number : Nat) :
    after.frames[number]?.map FrameSlice.rows = before.frames[number]?.map FrameSlice.rows := by
  rw [← getElem?_map, ← getElem?_map, steady.rows]

theorem placed (placed : Placed before) : Placed after where
  size := by
    rw [steady.length, steady.disk, steady.frames_length]
    exact placed.size
  owns := by
    intro number inside
    obtain ⟨old, found, owns⟩ := placed.owns number (steady.references number inside)
    have same := steady.frame_rows number
    rw [found, Option.map_some, Option.map_eq_some_iff] at same
    obtain ⟨new, lookup, rows⟩ := same
    rw [steady.disk]
    exact ⟨new, lookup, owns.of_rows rows⟩

theorem allPlaced (placed : AllPlaced before) : AllPlaced after where
  disk := steady.disk.trans placed.disk
  size := by
    rw [steady.length, steady.frames_length]
    exact placed.size
  owns := by
    intro number new lookup
    have same := steady.frame_rows number
    rw [lookup, Option.map_some, eq_comm, Option.map_eq_some_iff] at same
    obtain ⟨old, found, rows⟩ := same
    exact (placed.owns number old found).of_rows rows.symm

end Steady

section Begin

variable {filter : FrameFilter} {number disk ts ipid itid expectStart expectEnd vsyncId callStackSliceId : Nat}

def FrameFilter.newFrame (filter : FrameFilter) (expectEnd : Nat) : FrameSlice where
  expectedEndTs := expectEnd
  frameSliceRow := filter.table.rows.length
  frameExpectedSliceRow := filter.table.rows.length + 1

theorem beginVsync_frames :
    (filter.beginVsyncEvent ts ipid itid expectStart expectEnd vsyncId callStackSliceId).frames =
      filter.frames ++ [filter.newFrame expectEnd] := by
  simp [FrameFilter.beginVsyncEvent, FrameFilter.setVsync, appendFrame, FrameFilter.newFrame]

theorem beginVsync_size :
    (filter.beginVsyncEvent ts ipid itid expectStart expectEnd vsyncId callStackSliceId).table.rows.length =
      filter.table.rows.length + 2 := by
  simp [FrameFilter.beginVsyncEvent, FrameFilter.setVsync, appendFrame]

theorem beginVsync_disk :
    (filter.beginVsyncEvent ts ipid itid expectStart expectEnd vsyncId callStackSliceId).table.diskTableSize =
      filter.table.diskTableSize := rfl

theorem beginVsync_references (inside : number ∈
    (filter.beginVsyncEvent ts ipid itid expectStart expectEnd vsyncId callStackSliceId).references) :
    number = filter.frames.length ∨ number ∈ filter.references := by
  rw [FrameFilter.mem_references] at inside ⊢
  rcases inside with ⟨other, frames, lookup, member⟩ | inside
  · rcases lookup_of_insert lookup with rfl | lookup
    · rcases mem_append.mp member with old | new
      · cases known : filter.vsyncRenderSlice.lookup itid with
        | none => simp [known] at old
        | some frames => exact .inr (.inl ⟨itid, frames, known, by simpa [known] using old⟩)
      · left
        simpa using new
    · exact .inr (.inl ⟨other, frames, lookup, member⟩)
  · exact .inr (.inr inside)

theorem newFrame_owns (size : filter.table.rows.length + disk = 2 * filter.frames.length) :
    Owns filter.frames.length disk (filter.newFrame expectEnd) := by
  constructor
  · exact size
  · simp only [FrameFilter.newFrame]
    omega

theorem beginVsync_placed (placed : Placed filter) :
    Placed (filter.beginVsyncEvent ts ipid itid expectStart expectEnd vsyncId callStackSliceId) where
  size := by
    have size := placed.size
    rw [beginVsync_size, beginVsync_disk, beginVsync_frames, length_append, length_singleton]
    omega
  owns := by
    intro number inside
    rw [beginVsync_frames]
    rcases beginVsync_references inside with rfl | old
    · exact ⟨filter.newFrame expectEnd, by simp, newFrame_owns placed.size⟩
    · obtain ⟨frame, found, owns⟩ := placed.owns number old
      exact ⟨frame, lookup_append_of_lookup found _, owns⟩

theorem beginVsync_allPlaced (placed : AllPlaced filter) :
    AllPlaced (filter.beginVsyncEvent ts ipid itid expectStart expectEnd vsyncId callStackSliceId) where
  disk := placed.disk
  size := by
    have size := placed.size
    rw [beginVsync_size, beginVsync_frames, length_append, length_singleton]
    omega
  owns := by
    intro number frame found
    rw [beginVsync_frames] at found
    rcases lookup_append_iff.mp found with old | ⟨rfl, rfl⟩
    · exact placed.owns number frame old
    · exact newFrame_owns placed.size

end Begin

section Flush

variable {filter : FrameFilter} {number gone least : Nat} {frame : FrameSlice}

theorem rebase_zero (frame : FrameSlice) : FrameFilter.rebase 0 frame = frame := by
  simp [FrameFilter.rebase, FrameFilter.subRow]

variable (frames : List FrameSlice)

variable (references : List Nat)

theorem rebaseAll_zero :
    FrameFilter.rebaseAll 0 frames references = frames := by
  have same : FrameFilter.rebase 0 = id := funext rebase_zero
  simp [FrameFilter.rebaseAll, same]

theorem rebaseAll_length :
    (FrameFilter.rebaseAll gone frames references).length = frames.length := by
  induction references generalizing frames with
  | nil => rfl
  | cons reference rest ih => exact (ih _).trans (length_modify ..)

theorem rebaseAll_of_not_mem {references : List Nat} (outside : number ∉ references) (frames : List FrameSlice) :
    (FrameFilter.rebaseAll gone frames references)[number]? = frames[number]? := by
  induction references generalizing frames with
  | nil => rfl
  | cons reference rest ih =>
    rw [mem_cons, not_or] at outside
    refine (ih outside.2 _).trans ?_
    simp [Ne.symm outside.1]

theorem rebaseAll_of_nodup {references : List Nat} (once : references.Nodup) (inside : number ∈ references)
    (frames : List FrameSlice) :
    (FrameFilter.rebaseAll gone frames references)[number]? = frames[number]?.map (FrameFilter.rebase gone) := by
  induction references generalizing frames with
  | nil => cases inside
  | cons reference rest ih =>
    obtain ⟨fresh, once⟩ := nodup_cons.mp once
    rcases mem_cons.mp inside with rfl | inside
    · refine (rebaseAll_of_not_mem fresh _).trans ?_
      simp
    · refine (ih once inside _).trans ?_
      have other : reference ≠ number := fun same => fresh (same ▸ inside)
      simp [other]

theorem le_row_of_min (found : filter.setMinFrameSliceRow = some least) (inside : number ∈ filter.references)
    (lookup : filter.frames[number]? = some frame) :
    least ≤ frame.frameSliceRow ∧ least ≤ frame.frameExpectedSliceRow := by
  have member : FrameFilter.minRow frame ∈ (filter.references.filterMap (filter.frames[·]?)).map FrameFilter.minRow :=
    mem_map_of_mem (mem_filterMap.mpr ⟨number, inside, lookup⟩)
  exact Nat.le_min.mp ((min?_eq_some_iff.mp found).2 _ member)

theorem min_attained (found : filter.setMinFrameSliceRow = some least) :
    ∃ number ∈ filter.references, ∃ frame, filter.frames[number]? = some frame ∧ FrameFilter.minRow frame = least := by
  obtain ⟨frame, member, same⟩ := mem_map.mp (min?_eq_some_iff.mp found).1
  obtain ⟨number, inside, lookup⟩ := mem_filterMap.mp member
  exact ⟨number, inside, frame, lookup, same⟩

theorem references_eq_nil_of_min (placed : Placed filter) (none : filter.setMinFrameSliceRow = none) :
    filter.references = [] := by
  have empty := map_eq_nil_iff.mp (min?_eq_none_iff.mp none)
  apply eq_nil_iff_forall_not_mem.mpr
  intro number inside
  obtain ⟨frame, found, owns⟩ := placed.owns number inside
  have absent := filterMap_eq_nil_iff.mp empty number inside
  rw [found] at absent
  cases absent

/-- No frame is referenced twice, or the first row left in the table belongs to a frame. -/
def FlushSafe (filter : FrameFilter) : Prop :=
  filter.references.Nodup ∨
    ∃ number ∈ filter.references, ∃ frame, filter.frames[number]? = some frame ∧ frame.frameSliceRow = 0

theorem rebaseAll_of_safe (safe : FlushSafe filter) (found : filter.setMinFrameSliceRow = some least)
    (inside : number ∈ filter.references) :
    (FrameFilter.rebaseAll least filter.frames filter.references)[number]? =
      filter.frames[number]?.map (FrameFilter.rebase least) := by
  rcases safe with once | ⟨first, member, frame, lookup, zero⟩
  · exact rebaseAll_of_nodup once inside filter.frames
  · have lowest := (le_row_of_min found member lookup).1
    have none : least = 0 := by omega
    rw [none, rebaseAll_zero, funext rebase_zero, Option.map_id']

theorem Owns.rebase {disk : Nat} (owns : Owns number disk frame)
    (below : least ≤ frame.frameSliceRow ∧ least ≤ frame.frameExpectedSliceRow) :
    Owns number (disk + least) (FrameFilter.rebase least frame) := by
  obtain ⟨actual, expected⟩ := owns
  constructor <;>
    simp only [FrameFilter.rebase, FrameFilter.subRow, if_pos below.1, if_pos below.2] <;> omega

theorem flush_of_none (found : filter.setMinFrameSliceRow = none) :
    filter.flush =
      { filter with
        table := clearExportedData { filter.table with readySize := filter.table.rows.length } } := by
  have scan : ({ filter with table := { filter.table with readySize := filter.table.rows.length } } :
    FrameFilter).setMinFrameSliceRow = none := found
  simp only [FrameFilter.flush, FrameFilter.updateFrameSliceReadySize, scan]

theorem flush_of_some (found : filter.setMinFrameSliceRow = some least) :
    filter.flush =
      { filter with
        table := clearExportedData { filter.table with readySize := least }
        frames := FrameFilter.rebaseAll least filter.frames filter.references } := by
  have scan : ({ filter with table := { filter.table with readySize := filter.table.rows.length } } :
    FrameFilter).setMinFrameSliceRow = some least := found
  simp only [FrameFilter.flush, FrameFilter.updateFrameSliceReadySize, scan]
  rfl

theorem flush_placed (placed : Placed filter) (safe : FlushSafe filter) : Placed filter.flush := by
  have size := placed.size
  cases found : filter.setMinFrameSliceRow with
  | none =>
    rw [flush_of_none found]
    constructor
    · simp only [clearExportedData, length_drop]
      omega
    · intro number inside
      have old : number ∈ filter.references := inside
      rw [references_eq_nil_of_min placed found] at old
      cases old
  | some least =>
    rw [flush_of_some found]
    constructor
    · obtain ⟨number, inside, frame, lookup, attained⟩ := min_attained found
      obtain ⟨known, same, owns⟩ := placed.owns number inside
      obtain rfl : known = frame := Option.mem_unique same lookup
      have below := (le_row_of_min found inside lookup).1
      have actual := owns.actual
      have bound : number < filter.frames.length := lookup_lt lookup
      simp only [clearExportedData, length_drop, rebaseAll_length]
      omega
    · intro number inside
      have old : number ∈ filter.references := inside
      obtain ⟨frame, lookup, owns⟩ := placed.owns number old
      refine ⟨FrameFilter.rebase least frame, ?_, owns.rebase (le_row_of_min found old lookup)⟩
      exact (rebaseAll_of_safe safe found old).trans (by rw [lookup]; rfl)

end Flush

/-- The filter that exports in batches beside the filter that gets the same events and never exports. -/
structure FrameExport where
  filter : FrameFilter := {}
  whole : FrameFilter := {}

namespace FrameExport

variable (state : FrameExport)

def step : FrameEvent → FrameExport
  | .flush => { state with filter := state.filter.step .flush }
  | event => { filter := state.filter.step event, whole := state.whole.step event }

/-- Every frame that is still referenced has its rows inside the table, and they are the logical rows
that the frame has without exports. -/
def RowsKept : Prop :=
  ∀ number ∈ state.filter.references, ∃ frame whole,
    state.filter.frames[number]? = some frame ∧ state.whole.frames[number]? = some whole ∧
      frame.frameSliceRow < state.filter.table.rows.length ∧
      frame.frameExpectedSliceRow < state.filter.table.rows.length ∧
      frame.frameSliceRow + state.filter.table.diskTableSize = whole.frameSliceRow ∧
      frame.frameExpectedSliceRow + state.filter.table.diskTableSize = whole.frameExpectedSliceRow

def Admitted (event : FrameEvent) : Prop := event = .flush → FlushSafe state.filter

structure Invariant : Prop where
  placed : Placed state.filter
  allPlaced : AllPlaced state.whole
  frames : state.filter.frames.length = state.whole.frames.length

variable {state : FrameExport} {event : FrameEvent}

theorem admitted_of_ne (other : event ≠ .flush) : state.Admitted event := fun same => absurd same other

theorem Invariant.rowsKept (invariant : Invariant state) : state.RowsKept := by
  intro number inside
  obtain ⟨frame, found, owns⟩ := invariant.placed.owns number inside
  have bound : number < state.filter.frames.length := lookup_lt found
  have known : number < state.whole.frames.length := invariant.frames ▸ bound
  have all := invariant.allPlaced.owns number _ (getElem?_eq_getElem known)
  have size := invariant.placed.size
  obtain ⟨actual, expected⟩ := owns
  obtain ⟨wholeActual, wholeExpected⟩ := all
  exact ⟨frame, state.whole.frames[number], found, getElem?_eq_getElem known, by omega, by omega, by omega, by omega⟩

theorem Invariant.steady (invariant : Invariant state) (keeps : event.keepsRows = true) :
    Invariant { filter := state.filter.step event, whole := state.whole.step event } where
  placed := (state.filter.step_steady keeps).placed invariant.placed
  allPlaced := (state.whole.step_steady keeps).allPlaced invariant.allPlaced
  frames := by
    rw [(state.filter.step_steady keeps).frames_length, (state.whole.step_steady keeps).frames_length]
    exact invariant.frames

theorem flush_frames_length (filter : FrameFilter) : filter.flush.frames.length = filter.frames.length := by
  simp only [FrameFilter.flush, FrameFilter.updateFrameSliceReadySize]
  split
  · rfl
  · exact rebaseAll_length ..

theorem Invariant.step (invariant : Invariant state) (admitted : state.Admitted event) :
    Invariant (state.step event) := by
  cases event with
  | flush =>
    exact ⟨flush_placed invariant.placed (admitted rfl), invariant.allPlaced,
      (flush_frames_length state.filter).trans invariant.frames⟩
  | beginVsync ts ipid itid expectStart expectEnd vsyncId callStackSliceId =>
    constructor
    · exact beginVsync_placed invariant.placed
    · exact beginVsync_allPlaced invariant.allPlaced
    · have before := invariant.frames
      simp only [FrameExport.step, FrameFilter.step, beginVsync_frames, length_append, length_singleton]
      omega
  | markRSOnDoComposition itid => exact invariant.steady rfl
  | beginRSTransactionData itid frameNum => exact invariant.steady rfl
  | beginProcessCommandUni itid frames => exact invariant.steady rfl
  | endVsync ts itid => exact invariant.steady rfl
  | startFrameQueue ts itid => exact invariant.steady rfl
  | endFrameQueue ts itid => exact invariant.steady rfl

theorem Invariant.initial : Invariant {} where
  placed := ⟨rfl, fun _ inside => by cases inside⟩
  allPlaced := ⟨rfl, rfl, fun _ _ found => by simp at found⟩
  frames := rfl

/-- In every run whose flushes are all safe, the rows of the referenced frames stay the rows they
have without flushes. -/
theorem frame_rows_kept_of_safe_flushes (events : List FrameEvent) (safe : Along step Admitted {} events) :
    Along step (fun state event => (state.step event).RowsKept) {} events :=
  along_of_invariant Invariant (fun _ _ invariant admitted => invariant.step admitted)
    (fun _ _ invariant admitted => (invariant.step admitted).rowsKept) .initial safe

/-- A frame of an application is dropped, and the next one is flushed before it is a source. -/
def flushBeforeTransaction : List FrameEvent :=
  [.beginVsync 0 1 1 0 16 1 0, .endVsync 8 1, .beginVsync 16 1 1 16 32 2 1, .flush, .beginRSTransactionData 1 7]

theorem frame_rows_kept_flushBeforeTransaction :
    Along step Admitted {} flushBeforeTransaction ∧
      Along step (fun state event => (state.step event).RowsKept) {} flushBeforeTransaction := by
  have safe : Along step Admitted {} flushBeforeTransaction :=
    ⟨admitted_of_ne (by decide), admitted_of_ne (by decide), admitted_of_ne (by decide),
      fun _ => .inl (by decide +kernel), admitted_of_ne (by decide), trivial⟩
  exact ⟨safe, frame_rows_kept_of_safe_flushes flushBeforeTransaction safe⟩

/-- The same events with the flush at the end: the frame is then held by both maps. -/
def flushAfterTransaction : List FrameEvent :=
  [.beginVsync 0 1 1 0 16 1 0, .endVsync 8 1, .beginVsync 16 1 1 16 32 2 1, .beginRSTransactionData 1 7, .flush]

/-- Row 2 is rebased by 2 twice and underflows. -/
theorem frame_rows_lost_flushAfterTransaction :
    ¬ Along step (fun state event => (state.step event).RowsKept) {} flushAfterTransaction ∧
      (flushAfterTransaction.foldl step {}).filter.references = [1, 1] ∧
      (flushAfterTransaction.foldl step {}).filter.frames[1]?.map FrameSlice.rows = some (2 ^ 64 - 2, 2 ^ 64 - 1) ∧
      (flushAfterTransaction.foldl step {}).filter.table.rows.length = 2 := by
  have references : (flushAfterTransaction.foldl step {}).filter.references = [1, 1] := by decide +kernel
  have rows : (flushAfterTransaction.foldl step {}).filter.frames[1]?.map FrameSlice.rows =
    some (2 ^ 64 - 2, 2 ^ 64 - 1) := by decide +kernel
  have length : (flushAfterTransaction.foldl step {}).filter.table.rows.length = 2 := by decide +kernel
  refine ⟨?_, references, rows, length⟩
  intro kept
  have last : (flushAfterTransaction.foldl step {}).RowsKept := kept.2.2.2.2.1
  obtain ⟨frame, whole, found, -, inside, -⟩ := last 1 (by rw [references]; simp)
  rw [found, Option.map_some, Option.some.injEq] at rows
  rw [length, (Prod.mk.inj rows).1] at inside
  omega

end FrameExport

end SmartPerf.Frame
