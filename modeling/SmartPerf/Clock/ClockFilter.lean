import Mathlib.Data.List.AList
import SmartPerf.Data.SortedMap

namespace SmartPerf.Clock

open Data List

/-! `ClockFilter`: the conversion of times between clocks that snapshots have compared. -/

/-- A clock and its time. -/
abbrev SnapShot := (_ : Nat) × UInt64

/-- The entries of a `std::map<uint64_t, int64_t>`. -/
abbrev ConvertClockMap := List (UInt64 × Int64)

def entryTime (entry : UInt64 × Int64) : Nat := entry.1.toNat

/-- `std::map::insert`: an entry with the same time stays. -/
def ConvertClockMap.insert (map : ConvertClockMap) (entry : UInt64 × Int64) : ConvertClockMap :=
  if map.any (entryTime · = entryTime entry) then map else insertByKey entryTime entry map

/-- The maps by the two clocks that the text of the key names. -/
abbrev ClockMaps := AList fun _ : Nat × Nat => ConvertClockMap

structure ClockFilter where
  clockMaps : ClockMaps := ∅
  hasInitSnapShot : Bool := false

/-- `none` stands for reading the end of an empty map; the negation of `INT64_MIN` wraps. -/
def ClockFilter.convert (filter : ClockFilter) (srcClockId : Nat) (srcTs : UInt64) (desClockId : Nat) : Option UInt64 :=
  match filter.clockMaps.lookup (srcClockId, desClockId) with
  | none => some srcTs
  | some map =>
    -- one back from `upper_bound`, unless this is the first entry
    ((lastUpTo entryTime map srcTs.toNat).or map.head?).map fun (_, offset) =>
      if 0 ≤ offset then srcTs + offset.toUInt64 else srcTs - (0 - offset).toUInt64

def addConvertClockMap (clockMaps : ClockMaps) (pair : SnapShot × SnapShot) : ClockMaps :=
  let clockKey := (pair.1.1, pair.2.1)
  let entry := (pair.1.2, (pair.2.2 - pair.1.2).toInt64)
  match clockMaps.lookup clockKey with
  | none => clockMaps.insert clockKey [entry]
  | some map => clockMaps.insert clockKey (map.insert entry)

/-- The pairs that the two loops over a snapshot add, in their order. -/
def comparedPairs : List SnapShot → List (SnapShot × SnapShot)
  | [] => []
  | src :: rest => rest.flatMap (fun des => [(src, des), (des, src)]) ++ comparedPairs rest

/-- The clocks of a snapshot differ. -/
def ClockFilter.addClockSnapshot (filter : ClockFilter) (snapShot : AList fun _ : Nat => UInt64) : ClockFilter where
  clockMaps := (comparedPairs snapShot.entries).foldl addConvertClockMap filter.clockMaps
  hasInitSnapShot := true

def ClockFilter.run (snapShots : List (AList fun _ : Nat => UInt64)) : ClockFilter := snapShots.foldl addClockSnapshot {}

/-- The times of two clocks in a snapshot that has both. -/
def timesOf (srcClockId desClockId : Nat) (snapShot : AList fun _ : Nat => UInt64) : Option (UInt64 × UInt64) :=
  (snapShot.lookup srcClockId).bind fun srcTs => (snapShot.lookup desClockId).map (srcTs, ·)

/-- Snapshots of one or more clocks, in which the time of each clock goes up. -/
structure History where
  snapShots : List (AList fun _ : Nat => UInt64)
  listed : ∀ snapShot ∈ snapShots, snapShot.entries ≠ []
  increasing : ∀ clockId, (snapShots.filterMap (·.lookup clockId)).Pairwise (· < ·)

namespace History

variable (history : History) (srcClockId desClockId : Nat)

def times : List (UInt64 × UInt64) := history.snapShots.filterMap (timesOf srcClockId desClockId)

/-- The latest snapshot of both clocks up to a time, or the first one when there is none. -/
def latest (srcTs : UInt64) : Option (UInt64 × UInt64) :=
  ((history.times srcClockId desClockId).filter (·.1 ≤ srcTs)).getLast?.or (history.times srcClockId desClockId).head?

end History

variable {history : History} {srcClockId desClockId : Nat} {times : UInt64 × UInt64}

variable {snapShot : AList fun _ : Nat => UInt64} (srcTs : UInt64)

theorem timesOf_eq_some_iff :
    timesOf srcClockId desClockId snapShot = some times ↔
      ⟨srcClockId, times.1⟩ ∈ snapShot.entries ∧ ⟨desClockId, times.2⟩ ∈ snapShot.entries := by
  rw [← AList.mem_lookup_iff, ← AList.mem_lookup_iff, timesOf]
  cases snapShot.lookup srcClockId <;> cases snapShot.lookup desClockId <;> simp [Prod.ext_iff]

theorem mem_comparedPairs {clocks : List SnapShot} (distinct : clocks.NodupKeys) {pair : SnapShot × SnapShot} :
    pair ∈ comparedPairs clocks ↔ pair.1 ∈ clocks ∧ pair.2 ∈ clocks ∧ pair.1.1 ≠ pair.2.1 := by
  induction clocks with
  | nil => simp [comparedPairs]
  | cons src rest ih =>
    obtain ⟨absent, distinct⟩ := nodupKeys_cons.mp distinct
    rw [comparedPairs, mem_append]
    grind

def entryOf (times : UInt64 × UInt64) : UInt64 × Int64 := (times.1, (times.2 - times.1).toInt64)

def stored (map : ConvertClockMap) : Option ConvertClockMap := if map = [] then none else some map

theorem getD_stored (map : ConvertClockMap) : (stored map).getD [] = map := by
  rw [stored]
  split
  next empty => exact empty.symm
  · rfl

theorem lookup_addConvertClockMap (clockMaps : ClockMaps) (src des : SnapShot) :
    (addConvertClockMap clockMaps (src, des)).lookup (srcClockId, desClockId) =
      if src.1 = srcClockId ∧ des.1 = desClockId then
        some (((clockMaps.lookup (srcClockId, desClockId)).getD []).insert (entryOf (src.2, des.2)))
      else clockMaps.lookup (srcClockId, desClockId) := by
  rw [addConvertClockMap]
  split_ifs with same
  · rw [← same.1, ← same.2]
    split <;> next found => rw [AList.lookup_insert, found]; rfl
  · have apart : (srcClockId, desClockId) ≠ (src.1, des.1) := by
      rw [Ne, Prod.mk.injEq]
      exact fun both => same ⟨both.1.symm, both.2.symm⟩
    split <;> exact AList.lookup_insert_ne apart

theorem mem_insert {map : ConvertClockMap} {new : UInt64 × Int64} (sorted : SortedBy entryTime map)
    (same : ∀ entry ∈ map, entryTime entry = entryTime new → entry = new) :
    SortedBy entryTime (map.insert new) ∧ ∀ entry, entry ∈ map.insert new ↔ entry ∈ map ∨ entry = new := by
  rw [ConvertClockMap.insert]
  split
  next present =>
    obtain ⟨old, inside, equal⟩ := any_eq_true.mp present
    obtain rfl := same old inside (of_decide_eq_true equal)
    exact ⟨sorted, fun entry => ⟨.inl, fun either => either.elim id (· ▸ inside)⟩⟩
  next absent =>
    refine ⟨sortedBy_insertByKey sorted, fun entry => ?_⟩
    rw [mem_insertByKey sorted, or_comm, and_iff_left_of_imp]
    exact fun inside equal => absent (any_eq_true.mpr ⟨entry, inside, decide_eq_true equal⟩)

/-- The map of two clocks holds their times in the pairs, when no two of these have the same time of the first clock. -/
theorem lookup_foldl {pairs : List (SnapShot × SnapShot)} {all : List (UInt64 × UInt64)}
    (sorted : SortedBy (·.1.toNat) all)
    (listed : ∀ times, (⟨srcClockId, times.1⟩, ⟨desClockId, times.2⟩) ∈ pairs → times ∈ all) :
    ∃ map, (pairs.foldl addConvertClockMap ∅).lookup (srcClockId, desClockId) = stored map ∧ SortedBy entryTime map ∧
      ∀ entry, entry ∈ map ↔ ∃ times, (⟨srcClockId, times.1⟩, ⟨desClockId, times.2⟩) ∈ pairs ∧ entryOf times = entry := by
  induction pairs using List.reverseRecOn with
  | nil => exact ⟨[], rfl, .nil, by simp⟩
  | append_singleton earlier pair ih =>
    obtain ⟨map, found, map_sorted, members⟩ := ih fun times inside => listed times (mem_append_left _ inside)
    obtain ⟨⟨src, srcTs⟩, ⟨des, desTs⟩⟩ := pair
    rw [foldl_append, foldl_cons, foldl_nil, lookup_addConvertClockMap, found, getD_stored]
    split_ifs with same
    · obtain ⟨rfl, rfl⟩ := same
      have unique : ∀ entry ∈ map, entryTime entry = entryTime (entryOf (srcTs, desTs)) → entry = entryOf (srcTs, desTs) := by
        intro entry inside equal
        obtain ⟨times, known, rfl⟩ := (members entry).mp inside
        rw [eq_of_key_eq sorted (listed times (mem_append_left _ known)) (listed (srcTs, desTs) (by simp)) equal]
      obtain ⟨new_sorted, new_members⟩ := mem_insert map_sorted unique
      refine ⟨_, ?_, new_sorted, fun entry => ?_⟩
      · rw [stored, if_neg (ne_nil_of_mem ((new_members _).mpr (.inr rfl)))]
      · grind
    · exact ⟨map, rfl, map_sorted, fun entry => by rw [members]; grind⟩

theorem sorted_times : SortedBy (·.1.toNat) (history.times srcClockId desClockId) := by
  have increasing := pairwise_filterMap.mp (history.increasing srcClockId)
  refine pairwise_filterMap.mpr (increasing.imp fun ordered first inFirst second inSecond => ?_)
  exact ordered _ (AList.mem_lookup_iff.mpr (timesOf_eq_some_iff.mp inFirst).1) _
    (AList.mem_lookup_iff.mpr (timesOf_eq_some_iff.mp inSecond).1)

theorem clockMaps_run (snapShots : List (AList fun _ : Nat => UInt64)) :
    (ClockFilter.run snapShots).clockMaps =
      (snapShots.flatMap fun snapShot => comparedPairs snapShot.entries).foldl addConvertClockMap ∅ := by
  induction snapShots using List.reverseRecOn with
  | nil => rfl
  | append_singleton earlier snapShot ih =>
    rw [flatMap_append, foldl_append, ← ih, flatMap_singleton, ClockFilter.run, foldl_append]
    rfl

theorem lookup_run :
    (ClockFilter.run history.snapShots).clockMaps.lookup (srcClockId, desClockId) =
      if srcClockId = desClockId then none else stored ((history.times srcClockId desClockId).map entryOf) := by
  have compared (times : UInt64 × UInt64) : (⟨srcClockId, times.1⟩, ⟨desClockId, times.2⟩) ∈
      history.snapShots.flatMap (fun snapShot => comparedPairs snapShot.entries) ↔
      times ∈ history.times srcClockId desClockId ∧ srcClockId ≠ desClockId := by
    simp only [mem_flatMap, mem_comparedPairs (AList.nodupKeys _), History.times, mem_filterMap, timesOf_eq_some_iff]
    grind
  obtain ⟨map, found, map_sorted, members⟩ := lookup_foldl sorted_times fun times inside => ((compared times).mp inside).1
  rw [clockMaps_run, found]
  split_ifs with same
  · have empty : map = [] := by
      rw [eq_nil_iff_forall_not_mem]
      intro entry inside
      obtain ⟨times, known, -⟩ := (members entry).mp inside
      exact ((compared times).mp known).2 same
    rw [stored, if_pos empty]
  · have times_sorted : SortedBy entryTime ((history.times srcClockId desClockId).map entryOf) :=
      pairwise_map.mpr sorted_times
    have equal : map = (history.times srcClockId desClockId).map entryOf := by
      refine List.Pairwise.eq_of_mem_iff map_sorted times_sorted fun entry => ?_
      rw [members, mem_map]
      simp only [compared, ne_eq, same, not_false_eq_true, and_true]
    rw [equal]

theorem add_offset (srcTs srcAt desAt : UInt64) :
    (if 0 ≤ (desAt - srcAt).toInt64 then srcTs + (desAt - srcAt).toInt64.toUInt64
      else srcTs - (0 - (desAt - srcAt).toInt64).toUInt64) = srcTs + (desAt - srcAt) := by
  have zero : (0 : Int64).toUInt64 = 0 := rfl
  split
  · rw [UInt64.toUInt64_toInt64]
  · rw [Int64.toUInt64_sub, UInt64.toUInt64_toInt64]
    grind

/-- The time that the comparison of two clocks gives for a time of the first. -/
def shifted : Option (UInt64 × UInt64) → UInt64
  | some (srcAt, desAt) => srcTs + (desAt - srcAt)
  | none => srcTs

theorem latest_eq :
    history.latest srcClockId desClockId srcTs =
      (lastUpTo (·.1.toNat) (history.times srcClockId desClockId) srcTs.toNat).or
        (history.times srcClockId desClockId).head? := by
  rw [lastUpTo, takeWhile_eq_filter sorted_times]
  rfl

theorem shifted_self : shifted srcTs (history.latest srcClockId srcClockId srcTs) = srcTs := by
  cases chosen : history.latest srcClockId srcClockId srcTs with
  | none => rfl
  | some times =>
    have inside : times ∈ history.times srcClockId srcClockId := by
      rcases Option.or_eq_some_iff.mp chosen with last | ⟨-, first⟩
      · exact mem_of_mem_filter (mem_of_getLast? last)
      · exact mem_of_head? first
    obtain ⟨snapShot, -, found⟩ := mem_filterMap.mp inside
    obtain ⟨asSrc, asDes⟩ := timesOf_eq_some_iff.mp found
    rw [← AList.mem_lookup_iff] at asSrc asDes
    have same : times.1 = times.2 := Option.mem_unique asSrc asDes
    rw [shifted]
    grind

theorem convert_eq :
    (ClockFilter.run history.snapShots).convert srcClockId srcTs desClockId =
      some (shifted srcTs (history.latest srcClockId desClockId srcTs)) := by
  rw [ClockFilter.convert, lookup_run]
  by_cases same : srcClockId = desClockId
  · subst same
    rw [if_pos rfl, shifted_self]
  · have last : lastUpTo entryTime ((history.times srcClockId desClockId).map entryOf) srcTs.toNat =
        (lastUpTo (·.1.toNat) (history.times srcClockId desClockId) srcTs.toNat).map entryOf := by
      rw [lastUpTo, takeWhile_map, getLast?_map]
      rfl
    rw [if_neg same, stored]
    split_ifs with empty
    · rw [History.latest, map_eq_nil_iff.mp empty]
      rfl
    · simp only [last, head?_map, ← Option.map_or, ← latest_eq]
      cases chosen : history.latest srcClockId desClockId srcTs with
      | none =>
        have none_first := (Option.or_eq_none_iff.mp chosen).2
        rw [head?_eq_none_iff.mp none_first] at empty
        exact absurd rfl empty
      | some times => exact congrArg some (add_offset srcTs times.1 times.2)

theorem latest_of_mem (inside : times ∈ history.times srcClockId desClockId) :
    history.latest srcClockId desClockId times.1 = some times := by
  have last : lastUpTo (·.1.toNat) (history.times srcClockId desClockId) times.1.toNat = some times :=
    (lastUpTo_eq_some_iff sorted_times).mpr ⟨inside, le_rfl, fun _ _ le => le⟩
  rw [latest_eq, last]
  rfl

theorem latest_single (single : history.snapShots = [snapShot]) (srcTs : UInt64) :
    history.latest srcClockId desClockId srcTs = timesOf srcClockId desClockId snapShot := by
  rw [History.latest, History.times, single]
  cases found : timesOf srcClockId desClockId snapShot with
  | none => simp [found]
  | some times => by_cases before : times.1 ≤ srcTs <;> simp [found, before]

theorem shifted_back (snapShot : AList fun _ : Nat => UInt64) :
    shifted (shifted srcTs (timesOf srcClockId desClockId snapShot)) (timesOf desClockId srcClockId snapShot) = srcTs := by
  rw [timesOf, timesOf]
  cases snapShot.lookup srcClockId with
  | none => cases snapShot.lookup desClockId <;> rfl
  | some srcAt =>
    cases snapShot.lookup desClockId with
    | none => rfl
    | some desAt =>
      simp only [shifted]
      grind

/-- The conversion shifts a time by the difference of the clocks at the latest snapshot up to it, or at the first one, is
exact at the snapshots, and with one snapshot is undone by the way back. -/
theorem convert_shifts (history : History) (srcClockId desClockId : Nat) :
    (∀ srcTs, (ClockFilter.run history.snapShots).convert srcClockId srcTs desClockId =
      some (shifted srcTs (history.latest srcClockId desClockId srcTs))) ∧
    (∀ times ∈ history.times srcClockId desClockId,
      (ClockFilter.run history.snapShots).convert srcClockId times.1 desClockId = some times.2) ∧
    (history.snapShots.length = 1 → ∀ srcTs,
      ((ClockFilter.run history.snapShots).convert srcClockId srcTs desClockId).bind
        (fun desTs => (ClockFilter.run history.snapShots).convert desClockId desTs srcClockId) = some srcTs) := by
  refine ⟨convert_eq, fun times inside => ?_, fun one srcTs => ?_⟩
  · rw [convert_eq, latest_of_mem inside, shifted, Option.some.injEq]
    grind
  · obtain ⟨snapShot, single⟩ := length_eq_one_iff.mp one
    rw [convert_eq, Option.bind_some, convert_eq, latest_single single, latest_single single, shifted_back]

/-- The boot time and the monotonic time at the start of a trace. -/
def sampleHistory : History where
  snapShots := [(AList.insert 4 40 ∅).insert 1 100]
  listed := by decide
  increasing := fun clockId => by
    rw [filterMap_cons]
    split
    · exact .nil
    · exact pairwise_singleton _ _

theorem convert_shifts_sample :
    sampleHistory.snapShots.length = 1 ∧
      ((ClockFilter.run sampleHistory.snapShots).convert 1 150 4).bind
        (fun desTs => (ClockFilter.run sampleHistory.snapShots).convert 4 desTs 1) = some 150 :=
  ⟨rfl, (convert_shifts sampleHistory 1 4).2.2 rfl 150⟩

end SmartPerf.Clock
