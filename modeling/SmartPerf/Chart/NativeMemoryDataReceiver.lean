import Mathlib.Tactic

namespace SmartPerf.Chart

open List

/-! The downsampled memory chart of the native hook. -/

structure NMData where
  startTime : Int
  heapSize : Int
  eventType : Nat
deriving Repr, DecidableEq

structure NativeMemoryChartDataType where
  startTime : Int
  density : Int
  heapSize : Int
  dur : Int := 0
deriving Repr, DecidableEq

/-- The `dataList` is never empty: its last entry stands apart. -/
structure NativeMemoryCacheType where
  maxSize : Int
  minSize : Int
  maxDensity : Int
  minDensity : Int
  earlier : List NativeMemoryChartDataType := []
  last : NativeMemoryChartDataType
deriving Repr, DecidableEq

def NativeMemoryCacheType.dataList (cache : NativeMemoryCacheType) : List NativeMemoryChartDataType :=
  cache.earlier ++ [cache.last]

/-- What an event adds to the number of allocations. -/
def NMData.density (ne : NMData) : Int := if ne.eventType = 0 ∨ ne.eventType = 1 then 1 else -1

def NMData.size (ne : NMData) : Int := if ne.eventType = 0 ∨ ne.eventType = 1 then ne.heapSize else -ne.heapSize

/-- The cache of one key, with the sums of the events that were passed over. -/
structure Receiver where
  tempSize : Int := 0
  tempDensity : Int := 0
  cache : NativeMemoryCacheType

def firstPoint (ne : NMData) : Receiver where
  cache := {
    maxSize := ne.size
    minSize := ne.size
    maxDensity := ne.density
    minDensity := ne.density
    last := { startTime := ne.startTime, density := ne.density, heapSize := ne.size } }

def mergeData (receiver : Receiver) (ne : NMData) (filterLevel : Int) (finish : Bool) : Receiver :=
  let data := receiver.cache
  let last := { data.last with dur := ne.startTime - data.last.startTime }
  if last.dur > filterLevel ∨ finish then
    let item : NativeMemoryChartDataType := {
      startTime := ne.startTime
      density := last.density + receiver.tempDensity + ne.density
      heapSize := last.heapSize + receiver.tempSize + ne.size }
    { cache := {
        maxSize := max item.heapSize data.maxSize
        minSize := min item.heapSize data.minSize
        maxDensity := max item.density data.maxDensity
        minDensity := min item.density data.minDensity
        earlier := data.earlier ++ [last]
        last := item } }
  else
    { tempSize := receiver.tempSize + ne.size
      tempDensity := receiver.tempDensity + ne.density
      cache := { data with last } }

/-- The loop over the events behind the first one. -/
def mergeNormalChartData (filterLevel : Int) : Receiver → List NMData → Receiver
  | receiver, [] => receiver
  | receiver, ne :: rest => mergeNormalChartData filterLevel (mergeData receiver ne filterLevel rest.isEmpty) rest

def normalChartDataHandler (filterLevel totalNS : Int) : List NMData → Option NativeMemoryCacheType
  | [] => none
  | first :: rest =>
    let cache := (mergeNormalChartData filterLevel (firstPoint first) rest).cache
    some { cache with last := { cache.last with dur := totalNS - cache.last.startTime } }

/-- The point that an event would make: its time and the sums of all events up to it. -/
def runningPoints (size density : Int) : List NMData → List (Int × Int × Int)
  | [] => []
  | ne :: rest => (ne.startTime, size + ne.size, density + ne.density) :: runningPoints (size + ne.size) (density + ne.density) rest

def reading (point : NativeMemoryChartDataType) : Int × Int × Int := (point.startTime, point.heapSize, point.density)

/-- The values lie between two of them. -/
def Extremes (least greatest : Int) (values : List Int) : Prop :=
  IsLeast { value | value ∈ values } least ∧ IsGreatest { value | value ∈ values } greatest

/-- Each point lasts to the next one, and the recorded extremes are those of the points. -/
structure NativeMemoryCacheType.Regular (cache : NativeMemoryCacheType) : Prop where
  contiguous : cache.dataList.IsChain fun point next => point.startTime + point.dur = next.startTime
  sizes : Extremes cache.minSize cache.maxSize (cache.dataList.map (·.heapSize))
  densities : Extremes cache.minDensity cache.maxDensity (cache.dataList.map (·.density))

structure IsExact (events : List NMData) (totalNS : Int) (cache : NativeMemoryCacheType) : Prop extends cache.Regular where
  ordered : (cache.dataList.map (·.startTime)).Pairwise (· ≤ ·)
  points : (cache.dataList.map reading).Sublist (runningPoints 0 0 events)
  total : reading cache.last =
    (cache.last.startTime, (events.map NMData.size).sum, (events.map NMData.density).sum)
  ends : cache.last.startTime + cache.last.dur = totalNS

theorem Extremes.push {least greatest : Int} {values : List Int} (extremes : Extremes least greatest values) (value : Int) :
    Extremes (min value least) (max value greatest) (values ++ [value]) := by
  have members : { other | other ∈ values ++ [value] } = insert value { other | other ∈ values } := by
    ext other
    simp [or_comm]
  rw [Extremes, members]
  exact ⟨extremes.1.insert value, extremes.2.insert value⟩

theorem runningPoints_times (size density : Int) (events : List NMData) :
    (runningPoints size density events).map Prod.fst = events.map (·.startTime) := by
  induction events generalizing size density with
  | nil => rfl
  | cons ne rest ih => rw [runningPoints, map_cons, map_cons, ih]

/-- The point that the chart ends with so far may last longer: nothing starts behind it. -/
theorem NativeMemoryCacheType.Regular.stretch {cache : NativeMemoryCacheType} (regular : cache.Regular) (dur : Int) :
    NativeMemoryCacheType.Regular { cache with last := { cache.last with dur } } := by
  obtain ⟨contiguous, sizes, densities⟩ := regular
  rw [dataList, isChain_append] at contiguous
  refine ⟨isChain_append.mpr ⟨contiguous.1, isChain_singleton _, ?_⟩, ?_, ?_⟩
  · simpa using contiguous.2.2
  · simpa [dataList] using sizes
  · simpa [dataList] using densities

/-- What holds between events: `size` and `density` are the sums of the events so far. -/
structure Receiver.Sound (receiver : Receiver) (size density : Int) : Prop where
  size_eq : receiver.cache.last.heapSize + receiver.tempSize = size
  density_eq : receiver.cache.last.density + receiver.tempDensity = density
  regular : receiver.cache.Regular

section Run

variable {receiver : Receiver} {size density : Int}

theorem firstPoint_sound (ne : NMData) : (firstPoint ne).Sound ne.size ne.density where
  size_eq := add_zero _
  density_eq := add_zero _
  regular := by constructor <;> simp [Extremes, firstPoint, NativeMemoryCacheType.dataList]

section
variable (sound : receiver.Sound size density)
include sound

/-- An event makes a point with the sums up to it, or is passed over; the last one is not. -/
theorem Receiver.Sound.mergeData (ne : NMData) (filterLevel : Int) (finish : Bool) :
    (mergeData receiver ne filterLevel finish).Sound (size + ne.size) (density + ne.density) := by
  obtain ⟨rfl, rfl, regular⟩ := sound
  obtain ⟨contiguous, sizes, densities⟩ := regular.stretch (ne.startTime - receiver.cache.last.startTime)
  rw [Chart.mergeData]
  dsimp only
  split
  · refine ⟨add_zero _, add_zero _, ?_, ?_, ?_⟩
    · exact isChain_append.mpr ⟨contiguous, isChain_singleton _, by simp⟩
    · simpa [NativeMemoryCacheType.dataList] using sizes.push _
    · simpa [NativeMemoryCacheType.dataList] using densities.push _
  · exact ⟨(add_assoc ..).symm, (add_assoc ..).symm, contiguous, sizes, densities⟩

theorem Receiver.Sound.points_mergeData (ne : NMData) (filterLevel : Int) (finish : Bool) :
    let next := Chart.mergeData receiver ne filterLevel finish
    finish = false ∧ next.cache.dataList.map reading = receiver.cache.dataList.map reading ∨
      (next.tempSize = 0 ∧ next.tempDensity = 0) ∧ next.cache.dataList.map reading =
        receiver.cache.dataList.map reading ++ [(ne.startTime, size + ne.size, density + ne.density)] := by
  obtain ⟨rfl, rfl, -⟩ := sound
  rw [Chart.mergeData]
  dsimp only
  split
  · right
    simp [NativeMemoryCacheType.dataList, reading]
  next passed =>
    left
    refine ⟨by simpa using fun finished => passed (.inr finished), ?_⟩
    simp [NativeMemoryCacheType.dataList, reading]

theorem Receiver.Sound.run (filterLevel : Int) (events : List NMData)
    (settled : events = [] → receiver.tempSize = 0 ∧ receiver.tempDensity = 0) :
    ∃ last, mergeNormalChartData filterLevel receiver events = last ∧
      last.Sound (size + (events.map NMData.size).sum) (density + (events.map NMData.density).sum) ∧
      (last.tempSize = 0 ∧ last.tempDensity = 0) ∧ ∃ made, made.Sublist (runningPoints size density events) ∧
        last.cache.dataList.map reading = receiver.cache.dataList.map reading ++ made := by
  induction events generalizing receiver size density with
  | nil => exact ⟨receiver, rfl, by simpa using sound, settled rfl, [], Sublist.refl _, (append_nil _).symm⟩
  | cons ne rest ih =>
    have step := sound.points_mergeData ne filterLevel rest.isEmpty
    obtain ⟨last, ran, ends, zero, made, listed, readings⟩ := ih (sound.mergeData ne filterLevel rest.isEmpty) (by
      rintro rfl
      exact (step.resolve_left (by simp)).1)
    rw [map_cons, map_cons, sum_cons, sum_cons, ← add_assoc, ← add_assoc]
    refine ⟨last, ran, ends, zero, ?_⟩
    rw [readings]
    rcases step with ⟨-, same⟩ | ⟨-, pushed⟩
    · exact ⟨made, listed.cons _, by rw [same]⟩
    · exact ⟨_ :: made, listed.cons_cons _, by rw [pushed, append_assoc]; rfl⟩

end

end Run

/-- For every time-sorted list of events and every filter level the chart is exact at its points. -/
theorem normalChartDataHandler_exact (filterLevel totalNS : Int) (first : NMData) (rest : List NMData)
    (sorted : ((first :: rest).map (·.startTime)).Pairwise (· ≤ ·)) :
    ∃ cache, normalChartDataHandler filterLevel totalNS (first :: rest) = some cache ∧
      IsExact (first :: rest) totalNS cache := by
  obtain ⟨last, ran, ⟨size_eq, density_eq, regular⟩, ⟨noSize, noDensity⟩, made, listed, readings⟩ :=
    (firstPoint_sound first).run filterLevel rest fun _ => ⟨rfl, rfl⟩
  have points : (last.cache.dataList.map reading).Sublist (runningPoints 0 0 (first :: rest)) := by
    rw [readings, runningPoints, zero_add, zero_add]
    exact listed.cons_cons _
  refine ⟨_, by rw [normalChartDataHandler, ran], regular.stretch _, ?_, ?_, ?_, ?_⟩
  · rw [← runningPoints_times 0 0] at sorted
    simpa [NativeMemoryCacheType.dataList, reading, Function.comp_def] using sorted.sublist (points.map Prod.fst)
  · simpa [NativeMemoryCacheType.dataList, reading] using points
  · rw [noSize, add_zero] at size_eq
    rw [noDensity, add_zero] at density_eq
    simp [reading, size_eq, density_eq]
  · simp

/-- The second event is passed over and added to the last point. -/
theorem normalChartDataHandler_threeEvents :
    ∃ cache, normalChartDataHandler 10 100 [⟨1, 8, 0⟩, ⟨5, 4, 1⟩, ⟨9, 8, 2⟩] = some cache ∧
      IsExact [⟨1, 8, 0⟩, ⟨5, 4, 1⟩, ⟨9, 8, 2⟩] 100 cache :=
  normalChartDataHandler_exact 10 100 ⟨1, 8, 0⟩ [⟨5, 4, 1⟩, ⟨9, 8, 2⟩] (by decide)

end SmartPerf.Chart
