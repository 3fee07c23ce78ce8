import SmartPerf.Hook.SymbolCache

namespace SmartPerf.Hook

open Data OfflineSymbolizationFilter

/-! The address ranges that maps events leave for a process. -/

structure MapsEvent where
  ipid : Nat
  info : MapsInfo
  ordered : info.start < info.endAddr

def MapsInfo.holds (info : MapsInfo) (ip : Nat) : Bool := info.start ≤ ip ∧ ip < info.endAddr

def OfflineSymbolizationFilter.parseMapsEvents (filter : OfflineSymbolizationFilter) (events : List MapsEvent) :
    OfflineSymbolizationFilter :=
  events.foldl (fun filter event => filter.parseMapsEvent event.ipid event.info) filter

def latestHolding (infos : List MapsInfo) (ip : Nat) : Option MapsInfo := infos.reverse.find? (·.holds ip)

structure Kept (maps infos : List MapsInfo) : Prop where
  sorted : SortedBy MapsInfo.start maps
  ordered : ∀ info ∈ maps, info.start < info.endAddr
  disjoint : ∀ left ∈ maps, ∀ right ∈ maps, left.start < right.start → left.endAddr ≤ right.start
  latest : ∀ info ∈ maps, ∀ ip, info.holds ip → latestHolding infos ip = some info

section

variable {maps infos : List MapsInfo} {info other : MapsInfo} (kept : Kept maps infos)
include kept

/-- Maps that meet the new range are deleted. -/
theorem Kept.apart (ordered : info.start < info.endAddr) (member : other ∈ maps)
    (stays : erased maps info other.start = false) : other.endAddr ≤ info.start ∨ info.endAddr ≤ other.start := by
  by_contra overlap
  obtain ⟨start, found, lowest⟩ : ∃ start, rangeStart maps info.start = some start ∧ start ≤ other.start := by
    rcases Nat.lt_or_ge info.start other.start with beyond | before
    · exact rangeStart_beyond kept.sorted member beyond
    · refine rangeStart_le kept.sorted ((lastUpTo_eq_some_iff kept.sorted).mpr ⟨member, before, ?_⟩) (by omega)
      intro third known reached
      by_contra between
      have ended := kept.disjoint other member third known (by omega)
      omega
  have gone := erased_of_rangeStart ordered kept.sorted found member (by omega) lowest (by intros; omega)
  rw [stays] at gone
  cases gone

theorem Kept.insert (ordered : info.start < info.endAddr) :
    Kept (insertByKey MapsInfo.start info (maps.filter (!erased maps info ·.start))) (infos ++ [info]) := by
  have sorted : SortedBy MapsInfo.start (maps.filter (!erased maps info ·.start)) := kept.sorted.filter _
  have members (other : MapsInfo)
      (member : other ∈ insertByKey MapsInfo.start info (maps.filter (!erased maps info ·.start))) :
      other = info ∨ other ∈ maps ∧ (other.endAddr ≤ info.start ∨ info.endAddr ≤ other.start) := by
    rcases (mem_insertByKey sorted).mp member with rfl | ⟨old, -⟩
    · exact .inl rfl
    · obtain ⟨old, stays⟩ := List.mem_filter.mp old
      exact .inr ⟨old, kept.apart ordered old (by simpa using stays)⟩
  refine ⟨sortedBy_insertByKey sorted, fun other member => ?_, fun left leftMember right rightMember before => ?_,
    fun other member ip held => ?_⟩
  · rcases members other member with rfl | ⟨old, -⟩
    · exact ordered
    · exact kept.ordered other old
  · rcases members left leftMember with rfl | ⟨leftOld, leftApart⟩
    · rcases members right rightMember with rfl | ⟨rightOld, rightApart⟩
      · omega
      · have rightOrdered := kept.ordered right rightOld
        omega
    · rcases members right rightMember with rfl | ⟨rightOld, -⟩
      · omega
      · exact kept.disjoint left leftOld right rightOld before
  · rw [latestHolding, List.reverse_append, List.reverse_singleton, List.singleton_append, List.find?_cons]
    rcases members other member with rfl | ⟨old, apart⟩
    · rw [held]
    · have outside : info.holds ip = false := by
        simp only [MapsInfo.holds, decide_eq_true_eq, decide_eq_false_iff_not] at held ⊢
        omega
      rw [outside]
      exact kept.latest other old ip held

end

/-- The ranges of a process are disjoint; the lookup finds the range that holds the ip, if it belongs to a file,
and that is the one of the latest event that covers the ip. -/
structure MapsExact (maps infos : List MapsInfo) : Prop where
  disjoint : ∀ left ∈ maps, ∀ right ∈ maps, left ≠ right → left.endAddr ≤ right.start ∨ right.endAddr ≤ left.start
  found : ∀ ip info, fillFrameInfo maps ip = some info ↔
    info ∈ maps ∧ info.holds ip ∧ info.filePathId ≠ invalidUint32
  latest : ∀ ip info, fillFrameInfo maps ip = some info → latestHolding infos ip = some info

def infosOf (isSingleProcData : Bool) (events : List MapsEvent) (key : Nat) : List MapsInfo :=
  (events.filter fun event => processKey { isSingleProcData } event.ipid = key).map MapsEvent.info

theorem kept_parseMapsEvents (isSingleProcData : Bool) (events : List MapsEvent) :
    (parseMapsEvents { isSingleProcData } events).isSingleProcData = isSingleProcData ∧
      ∀ key, Kept ((parseMapsEvents { isSingleProcData } events).startAddrToMapsInfo key)
        (infosOf isSingleProcData events key) := by
  induction events using List.reverseRecOn with
  | nil => exact ⟨rfl, fun key => ⟨.nil, nofun, nofun, nofun⟩⟩
  | append_singleton events event ih =>
    obtain ⟨single, kept⟩ := ih
    have next : parseMapsEvents { isSingleProcData } (events ++ [event]) =
        (parseMapsEvents { isSingleProcData } events).parseMapsEvent event.ipid event.info := List.foldl_concat ..
    rw [next]
    generalize parseMapsEvents { isSingleProcData } events = filter at single kept
    have same : filter.processKey event.ipid = processKey { isSingleProcData } event.ipid := by
      simp only [processKey, single]
    simp only [parseMapsEvent_eq, same]
    refine ⟨single, fun key => ?_⟩
    by_cases own : key = processKey { isSingleProcData } event.ipid
    · simpa [own, infosOf] using (kept key).insert event.ordered
    · simpa [own, Ne.symm own, infosOf] using kept key

theorem Kept.exact {maps infos : List MapsInfo} (kept : Kept maps infos) : MapsExact maps infos := by
  have found (ip : Nat) (info : MapsInfo) : fillFrameInfo maps ip = some info ↔
      info ∈ maps ∧ info.holds ip ∧ info.filePathId ≠ invalidUint32 := by
    rw [fillFrameInfo_eq_some_iff kept.sorted]
    simp only [MapsInfo.holds, decide_eq_true_eq]
    constructor
    · rintro ⟨⟨member, started, -⟩, covered, named⟩
      exact ⟨member, ⟨started, covered⟩, named⟩
    · rintro ⟨member, ⟨started, covered⟩, named⟩
      refine ⟨⟨member, started, fun other known reached => ?_⟩, covered, named⟩
      by_contra later
      have ended := kept.disjoint info member other known (by omega)
      omega
  refine ⟨fun left leftMember right rightMember distinct => ?_, found, fun ip info hit => ?_⟩
  · rcases Nat.lt_trichotomy left.start right.start with before | same | after
    · exact .inl (kept.disjoint left leftMember right rightMember before)
    · exact absurd (eq_of_key_eq kept.sorted leftMember rightMember same) distinct
    · exact .inr (kept.disjoint right rightMember left leftMember after)
  · obtain ⟨member, held, -⟩ := (found ip info).mp hit
    exact kept.latest info member ip held

/-- Maps events keep the ranges of every process exact. -/
theorem parseMapsEvents_exact (isSingleProcData : Bool) (events : List MapsEvent) (ipid : Nat) :
    MapsExact ((parseMapsEvents { isSingleProcData } events).startAddrToMapsInfo (processKey { isSingleProcData } ipid))
      (infosOf isSingleProcData events (processKey { isSingleProcData } ipid)) :=
  ((kept_parseMapsEvents isSingleProcData events).2 _).exact

/-- A stored range without a file holds the ip and is not found. -/
theorem fillFrameInfo_withoutFile :
    ∃ info ∈ (parseMapsEvents {} [⟨1, ⟨4096, 8192, 0, invalidUint32⟩, by decide⟩]).startAddrToMapsInfo 0,
      info.holds 5000 = true ∧
        fillFrameInfo
          ((parseMapsEvents {} [⟨1, ⟨4096, 8192, 0, invalidUint32⟩, by decide⟩]).startAddrToMapsInfo 0) 5000 = none := by
  decide

end SmartPerf.Hook
