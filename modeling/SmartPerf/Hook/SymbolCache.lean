import SmartPerf.Data.Run
import SmartPerf.Hook.OfflineSymbolization

namespace SmartPerf.Hook

open Data List

/-! The memoised results against a symbolization without the memo. -/

/-- The filter, beside the last symbol table received for each file of each process. -/
structure SymbolHistory where
  filter : OfflineSymbolizationFilter := {}
  received : Nat → Nat → Option SymbolTable := fun _ _ => none

namespace SymbolHistory

variable (demangle : List UInt8 → List UInt8) (history : SymbolHistory)

def receive (ipid : Nat) (reader : SymbolTable) : Nat → Nat → Option SymbolTable := fun otherIpid filePathId =>
  if otherIpid = history.filter.processKey ipid ∧ filePathId = reader.filePathId then some reader
  else history.received otherIpid filePathId

def step (event : SymbolEvent) : SymbolHistory where
  filter := history.filter.step demangle event
  received :=
    match event with
    | .symbolTable ipid reader => history.receive ipid reader
    | _ => history.received

/-- The same symbolization with nothing memoised and the last tables received. -/
def cacheFree (ipid ip : Nat) : Option FrameInfo :=
  ({ history.filter with
      ipToFrameInfo := fun _ _ => none
      filePathIdToSymbolTable := history.received }.offlineSymbolizationByIp demangle ipid ip).1

/-- A query returns what the symbolization without the memo returns. -/
def Coherent : SymbolEvent → Prop
  | .query ipid ip => (history.filter.offlineSymbolizationByIp demangle ipid ip).1 = history.cacheFree demangle ipid ip
  | _ => True

/-- Maps are not empty. The first table of a file comes before any ip of the file has been
symbolized, and a later table of the file is the same again. -/
def Timely : SymbolEvent → Prop
  | .maps _ info => info.start < info.endAddr
  | .symbolTable ipid reader =>
    match history.filter.filePathIdToSymbolTable (history.filter.processKey ipid) reader.filePathId with
    | none => ∀ ip frameInfo, history.filter.ipToFrameInfo (history.filter.processKey ipid) ip = some frameInfo →
        frameInfo.filePathId ≠ reader.filePathId
    | some table => table = reader
  | .query _ _ => True

end SymbolHistory

/-- What the maps and the tables give for an ip that some maps hold. -/
def frameOf (demangle : List UInt8 → List UInt8) (maps : List MapsInfo) (tables : Nat → Option SymbolTable) (ip : Nat) :
    Option FrameInfo :=
  (OfflineSymbolizationFilter.fillFrameInfo maps ip).map fun info =>
    match tables info.filePathId with
    | none => { ip, filePathId := info.filePathId }
    | some table => calcSymInfo demangle ip info table { ip, filePathId := info.filePathId }

section Frames

variable {demangle : List UInt8 → List UInt8} {filter : OfflineSymbolizationFilter} {ipid ip : Nat}
  {frameInfo : FrameInfo}

variable {maps : List MapsInfo}

theorem frameOf_filePathId {tables : Nat → Option SymbolTable}
    (found : frameOf demangle maps tables ip = some frameInfo) :
    ∃ info, OfflineSymbolizationFilter.fillFrameInfo maps ip = some info ∧ info.filePathId = frameInfo.filePathId := by
  obtain ⟨info, filled, rfl⟩ := Option.map_eq_some_iff.mp found
  refine ⟨info, filled, ?_⟩
  split
  · rfl
  · simp only [calcSymInfo]
    split
    · rfl
    · split
      · rfl
      · split <;> rfl

theorem frameOf_congr {tables other : Nat → Option SymbolTable}
    (found : frameOf demangle maps tables ip = some frameInfo)
    (same : tables frameInfo.filePathId = other frameInfo.filePathId) :
    frameOf demangle maps other ip = some frameInfo := by
  obtain ⟨info, filled, file⟩ := frameOf_filePathId found
  simp only [frameOf, filled, Option.map_some] at found ⊢
  rw [← found, file, same]

theorem fillFrameInfo_eq_some_iff {info : MapsInfo} (sorted : SortedBy MapsInfo.start maps) :
    OfflineSymbolizationFilter.fillFrameInfo maps ip = some info ↔
      (info ∈ maps ∧ info.start ≤ ip ∧ ∀ other ∈ maps, other.start ≤ ip → other.start ≤ info.start) ∧
        ip < info.endAddr ∧ info.filePathId ≠ invalidUint32 := by
  rw [OfflineSymbolizationFilter.fillFrameInfo, Option.filter_eq_some_iff, lastUpTo_eq_some_iff sorted]
  simp

theorem query_of_none (missed : filter.ipToFrameInfo (filter.processKey ipid) ip = none) :
    filter.offlineSymbolizationByIp demangle ipid ip =
      match frameOf demangle (filter.startAddrToMapsInfo (filter.processKey ipid))
        (filter.filePathIdToSymbolTable (filter.processKey ipid)) ip with
      | none => (if ip ≠ 0 then some { ip } else none, filter)
      | some frameInfo => (some frameInfo, filter.insertFrameInfo (filter.processKey ipid) ip frameInfo) := by
  simp only [OfflineSymbolizationFilter.offlineSymbolizationByIp, missed, frameOf]
  cases OfflineSymbolizationFilter.fillFrameInfo (filter.startAddrToMapsInfo (filter.processKey ipid)) ip with
  | none => rfl
  | some info =>
    cases known : filter.filePathIdToSymbolTable (filter.processKey ipid) info.filePathId <;> simp [known]

end Frames

section Ranges

open OfflineSymbolizationFilter

variable {maps : List MapsInfo} {info first holder : MapsInfo} {start startAddr endAddr ip : Nat} {stop : Option Nat}

theorem lt_of_mem_dropWhile (sorted : SortedBy MapsInfo.start maps)
    (inside : info ∈ maps.dropWhile (·.start ≤ endAddr)) : endAddr < info.start := by
  by_contra below
  have taken := (mem_takeWhile_iff sorted).mpr ⟨(dropWhile_sublist _).subset inside, Nat.le_of_not_lt below⟩
  rw [SortedBy, ← takeWhile_append_dropWhile (p := fun info : MapsInfo => info.start ≤ endAddr) (l := maps),
    pairwise_append] at sorted
  exact Nat.lt_irrefl _ (sorted.2.2 info taken info inside)

theorem range_stop (sorted : SortedBy MapsInfo.start maps)
    (range : getNeedUpdateProcessMapsAddrRange maps startAddr endAddr = (some start, some finish)) :
    endAddr < finish ∧ ∃ behind ∈ maps, behind.start = finish := by
  simp only [getNeedUpdateProcessMapsAddrRange] at range
  split at range
  · cases range
  · split at range
    · cases (Prod.mk.inj range).2
    · cases range
    · obtain ⟨found, search, rfl⟩ := Option.map_eq_some_iff.mp (Prod.mk.inj range).2
      have inside := mem_of_find?_eq_some search
      exact ⟨lt_of_mem_dropWhile sorted inside, found, (dropWhile_sublist _).subset inside, rfl⟩

theorem runStart_le {before : List MapsInfo} (earlier : ∀ info ∈ before, info.start ≤ ip) (top : first.start ≤ ip) :
    ((before.reverse.takeWhile (·.filePathId = first.filePathId)).getLast?.getD first).start ≤ ip := by
  cases run : (before.reverse.takeWhile (·.filePathId = first.filePathId)).getLast? with
  | none => exact top
  | some info =>
    have inside := (takeWhile_sublist _).subset (mem_of_getLast? run)
    exact earlier info (mem_reverse.mp inside)

theorem rangeStart_le (sorted : SortedBy MapsInfo.start maps)
    (last : lastUpTo MapsInfo.start maps startAddr = some holder) (holds : startAddr < holder.endAddr) :
    ∃ start, rangeStart maps startAddr = some start ∧ start ≤ holder.start := by
  have place : startItor maps startAddr =
      ((maps.takeWhile (·.start ≤ startAddr)).dropLast, holder :: maps.dropWhile (·.start ≤ startAddr)) := by
    rw [lastUpTo] at last
    simp only [startItor, last, if_neg (Nat.not_le.mpr holds)]
  simp only [rangeStart, place]
  refine ⟨_, rfl, runStart_le (fun info inside => ?_) le_rfl⟩
  exact key_le_getLast (sortedBy_takeWhile sorted _) last (mem_of_mem_dropLast inside)

theorem rangeStart_beyond (sorted : SortedBy MapsInfo.start maps) (inside : holder ∈ maps)
    (beyond : startAddr < holder.start) : ∃ start, rangeStart maps startAddr = some start ∧ start ≤ holder.start := by
  have early (info : MapsInfo) (taken : info ∈ maps.takeWhile (·.start ≤ startAddr)) : info.start ≤ holder.start :=
    ((mem_takeWhile_iff sorted).mp taken).2.trans beyond.le
  have ahead : holder ∈ maps.dropWhile (·.start ≤ startAddr) := by
    rw [← takeWhile_append_dropWhile (p := fun info : MapsInfo => info.start ≤ startAddr) (l := maps)] at inside
    refine (mem_append.mp inside).resolve_left fun taken => ?_
    have reached := ((mem_takeWhile_iff sorted).mp taken).2
    omega
  cases behind : maps.dropWhile (·.start ≤ startAddr) with
  | nil => simp [behind] at ahead
  | cons next rest =>
    have top : next.start ≤ holder.start := by
      have later : SortedBy MapsInfo.start (next :: rest) := behind ▸ sorted.sublist (dropWhile_sublist _)
      rw [behind] at ahead
      rcases mem_cons.mp ahead with rfl | ahead
      · exact le_rfl
      · exact ((pairwise_cons.mp later).1 holder ahead).le
    simp only [rangeStart, startItor, behind]
    cases last : (maps.takeWhile (·.start ≤ startAddr)).getLast? with
    | none => exact ⟨_, rfl, runStart_le early top⟩
    | some info =>
      have known := early info (mem_of_getLast? last)
      by_cases ended : startAddr ≥ info.endAddr
      · simp only [if_pos ended]
        exact ⟨_, rfl, runStart_le early top⟩
      · simp only [if_neg ended]
        exact ⟨_, rfl, runStart_le (fun info inside => early info (mem_of_mem_dropLast inside)) known⟩

theorem range_start (nonempty : startAddr < endAddr) (sorted : SortedBy MapsInfo.start maps)
    (found : rangeStart maps startAddr = some start) (inside : holder ∈ maps) (reached : holder.start ≤ endAddr) :
    ∃ stop, getNeedUpdateProcessMapsAddrRange maps startAddr endAddr = (some start, stop) := by
  have taken : holder ∈ maps.takeWhile (·.start ≤ endAddr) := (mem_takeWhile_iff sorted).mpr ⟨inside, reached⟩
  simp only [getNeedUpdateProcessMapsAddrRange, if_neg (Nat.not_le.mpr nonempty), found]
  cases behind : maps.dropWhile (·.start ≤ endAddr) with
  | nil => exact ⟨none, rfl⟩
  | cons next rest =>
    cases before : (maps.takeWhile (·.start ≤ endAddr)).getLast? with
    | none =>
      rw [getLast?_eq_none_iff] at before
      rw [before] at taken
      cases taken
    | some final => exact ⟨_, rfl⟩

theorem fillFrameInfo_insert (nonempty : info.start < info.endAddr) (sorted : SortedBy MapsInfo.start maps)
    (held : fillFrameInfo maps ip = some holder) {gone : Nat → Bool}
    (outside : gone holder.start = false) (apart : ip < info.start ∨ info.start < holder.start) :
    fillFrameInfo (insertByKey MapsInfo.start info (maps.filter (!gone ·.start))) ip = some holder := by
  have kept : SortedBy MapsInfo.start (maps.filter (!gone ·.start)) := List.Pairwise.filter _ sorted
  obtain ⟨⟨inside, below, greatest⟩, covered, named⟩ := (fillFrameInfo_eq_some_iff sorted).mp held
  rw [fillFrameInfo_eq_some_iff (sortedBy_insertByKey kept)]
  refine ⟨⟨?_, below, ?_⟩, covered, named⟩
  · rw [mem_insertByKey kept]
    exact .inr ⟨mem_filter.mpr ⟨inside, by simp [outside]⟩, by omega⟩
  · intro other member le
    rcases (mem_insertByKey kept).mp member with rfl | ⟨member, -⟩
    · omega
    · exact greatest other (mem_filter.mp member).1 le

/-- The addresses whose results and maps an event of maps deletes. -/
def erased (maps : List MapsInfo) (info : MapsInfo) (address : Nat) : Bool :=
  match getNeedUpdateProcessMapsAddrRange maps info.start info.endAddr with
  | (some start, stop) => some start ≠ stop ∧ inRange start stop address
  | (none, _) => false

theorem erased_iff : erased maps info ip = true ↔
    ∃ start stop, getNeedUpdateProcessMapsAddrRange maps info.start info.endAddr = (some start, stop) ∧
      some start ≠ stop ∧ inRange start stop ip = true := by
  simp only [erased]
  split
  next first last range =>
    simp [range]
  next range =>
    simp [range]

theorem inRange_eq_true : inRange start stop ip = true ↔ start ≤ ip ∧ ∀ finish ∈ stop, ip < finish := by
  simp [inRange, Option.all_eq_true]

theorem erased_of_holder (sorted : SortedBy MapsInfo.start maps) (held : fillFrameInfo maps ip = some holder)
    (gone : erased maps info holder.start = true) : erased maps info ip = true := by
  obtain ⟨⟨inside, below, greatest⟩, -, -⟩ := (fillFrameInfo_eq_some_iff sorted).mp held
  obtain ⟨start, stop, range, conflict, within⟩ := erased_iff.mp gone
  obtain ⟨least, bounded⟩ := inRange_eq_true.mp within
  refine erased_iff.mpr ⟨start, stop, range, conflict, inRange_eq_true.mpr ⟨by omega, ?_⟩⟩
  rintro finish rfl
  obtain ⟨-, behind, known, same⟩ := range_stop sorted range
  have before := bounded finish rfl
  by_contra beyond
  have reached := greatest behind known (by omega)
  omega

theorem erased_of_rangeStart (nonempty : info.start < info.endAddr) (sorted : SortedBy MapsInfo.start maps)
    (found : rangeStart maps info.start = some start) (inside : holder ∈ maps) (reached : holder.start ≤ info.endAddr)
    (lowest : start ≤ ip) (beyond : ∀ behind ∈ maps, info.endAddr < behind.start → ip < behind.start) :
    erased maps info ip = true := by
  obtain ⟨stop, range⟩ := range_start nonempty sorted found inside reached
  have bounded : ∀ finish ∈ stop, ip < finish := by
    rintro finish rfl
    obtain ⟨above, behind, known, rfl⟩ := range_stop sorted range
    exact beyond behind known above
  have conflict : some start ≠ stop := by
    rintro rfl
    have later := bounded start rfl
    omega
  exact erased_iff.mpr ⟨start, stop, range, conflict, inRange_eq_true.mpr ⟨lowest, bounded⟩⟩

/-- The result for an ip at or behind the new start is deleted, unless maps behind the new start
hold the ip. -/
theorem erased_of_overlap (nonempty : info.start < info.endAddr) (sorted : SortedBy MapsInfo.start maps)
    (held : fillFrameInfo maps ip = some holder) (reached : info.start ≤ ip) (before : holder.start ≤ info.start) :
    erased maps info ip = true := by
  obtain ⟨⟨inside, below, greatest⟩, covered, -⟩ := (fillFrameInfo_eq_some_iff sorted).mp held
  have last : lastUpTo MapsInfo.start maps info.start = some holder :=
    (lastUpTo_eq_some_iff sorted).mpr ⟨inside, before, fun other member le => greatest other member (by omega)⟩
  obtain ⟨start, found, lowest⟩ := rangeStart_le sorted last (by omega)
  refine erased_of_rangeStart nonempty sorted found inside (by omega) (by omega) (fun behind known above => ?_)
  by_contra passed
  have atMost := greatest behind known (by omega)
  omega

end Ranges

section Events

open OfflineSymbolizationFilter

variable {demangle : List UInt8 → List UInt8} {filter : OfflineSymbolizationFilter} {ipid ip : Nat} {info : MapsInfo}

theorem parseMapsEvent_eq :
    filter.parseMapsEvent ipid info =
      { filter with
        ipToFrameInfo := fun otherIpid ip =>
          if otherIpid = filter.processKey ipid ∧ erased (filter.startAddrToMapsInfo otherIpid) info ip then none
          else filter.ipToFrameInfo otherIpid ip
        startAddrToMapsInfo := fun otherIpid =>
          if otherIpid = filter.processKey ipid then
            insertByKey MapsInfo.start info ((filter.startAddrToMapsInfo otherIpid).filter
              (!erased (filter.startAddrToMapsInfo otherIpid) info ·.start))
          else filter.startAddrToMapsInfo otherIpid } := by
  rcases range : getNeedUpdateProcessMapsAddrRange (filter.startAddrToMapsInfo (filter.processKey ipid))
    info.start info.endAddr with ⟨first, stop⟩
  cases first with
  | none =>
    simp only [parseMapsEvent, range, insertMapsInfo]
    congr 1 <;> funext otherIpid <;> by_cases same : otherIpid = filter.processKey ipid <;>
      simp [same, erased, range]
  | some start =>
    by_cases conflict : some start = stop
    · subst conflict
      simp only [parseMapsEvent, range, insertMapsInfo, ne_eq, not_true_eq_false, if_false]
      congr 1 <;> funext otherIpid <;> by_cases same : otherIpid = filter.processKey ipid <;>
        simp [same, erased, range]
    · simp only [parseMapsEvent, range, eraseRange, insertMapsInfo, ne_eq, conflict, not_false_eq_true, if_true]
      congr 1 <;> funext otherIpid <;> by_cases same : otherIpid = filter.processKey ipid <;>
        simp [same, erased, range, conflict]

end Events

namespace SymbolHistory

open OfflineSymbolizationFilter

variable {demangle : List UInt8 → List UInt8} {history : SymbolHistory}

/-- The tables in use are the last ones received, and every memoised result is the result anew. -/
structure Current (demangle : List UInt8 → List UInt8) (history : SymbolHistory) : Prop where
  sorted : ∀ ipid, SortedBy MapsInfo.start (history.filter.startAddrToMapsInfo ipid)
  tables : history.filter.filePathIdToSymbolTable = history.received
  memo : ∀ ipid ip frameInfo, history.filter.ipToFrameInfo ipid ip = some frameInfo →
    frameOf demangle (history.filter.startAddrToMapsInfo ipid) (history.received ipid) ip = some frameInfo

section

variable (current : Current demangle history)
include current

theorem Current.coherent (event : SymbolEvent) : history.Coherent demangle event := by
  cases event with
  | maps ipid info => trivial
  | symbolTable ipid reader => trivial
  | query ipid ip =>
    have anew : history.cacheFree demangle ipid ip =
        match frameOf demangle (history.filter.startAddrToMapsInfo (history.filter.processKey ipid))
          (history.received (history.filter.processKey ipid)) ip with
        | none => if ip ≠ 0 then some { ip } else none
        | some frameInfo => some frameInfo := by
      rw [cacheFree, query_of_none rfl]
      simp only [processKey]
      cases frameOf demangle _ _ ip <;> rfl
    rw [Coherent, anew]
    cases memo : history.filter.ipToFrameInfo (history.filter.processKey ipid) ip with
    | some frameInfo =>
      rw [current.memo _ _ _ memo]
      simp only [offlineSymbolizationByIp, memo]
    | none =>
      rw [query_of_none memo, current.tables]
      cases frameOf demangle _ _ ip <;> rfl

theorem Current.query (ipid ip : Nat) : Current demangle (history.step demangle (.query ipid ip)) := by
  have unchanged : (history.filter.offlineSymbolizationByIp demangle ipid ip).2 = history.filter →
      Current demangle (history.step demangle (.query ipid ip)) := by
    intro same
    have step : history.step demangle (.query ipid ip) = history := by
      simp only [SymbolHistory.step, OfflineSymbolizationFilter.step, same]
    rw [step]
    exact current
  cases memo : history.filter.ipToFrameInfo (history.filter.processKey ipid) ip with
  | some frameInfo => exact unchanged (by simp only [offlineSymbolizationByIp, memo])
  | none =>
    cases anew : frameOf demangle (history.filter.startAddrToMapsInfo (history.filter.processKey ipid))
        (history.filter.filePathIdToSymbolTable (history.filter.processKey ipid)) ip with
    | none => exact unchanged (by rw [query_of_none memo, anew])
    | some frameInfo =>
      have stored : (history.filter.offlineSymbolizationByIp demangle ipid ip).2 =
          history.filter.insertFrameInfo (history.filter.processKey ipid) ip frameInfo := by
        rw [query_of_none memo, anew]
      simp only [SymbolHistory.step, OfflineSymbolizationFilter.step, stored]
      refine ⟨current.sorted, current.tables, fun otherIpid otherIp other found => ?_⟩
      simp only [insertFrameInfo] at found ⊢
      split at found
      next here =>
        rw [here.1, here.2, ← current.tables, anew, found]
      · exact current.memo otherIpid otherIp other found

theorem Current.maps (ipid : Nat) {info : MapsInfo}
    (nonempty : info.start < info.endAddr) : Current demangle (history.step demangle (.maps ipid info)) where
  sorted := by
    intro otherIpid
    simp only [SymbolHistory.step, OfflineSymbolizationFilter.step, parseMapsEvent_eq]
    split
    · exact sortedBy_insertByKey (List.Pairwise.filter _ (current.sorted otherIpid))
    · exact current.sorted otherIpid
  tables := by
    simp only [SymbolHistory.step, OfflineSymbolizationFilter.step, parseMapsEvent_eq]
    exact current.tables
  memo := by
    intro otherIpid ip frameInfo found
    simp only [SymbolHistory.step, OfflineSymbolizationFilter.step, parseMapsEvent_eq] at found ⊢
    split at found
    · cases found
    next survives =>
      have before := current.memo otherIpid ip frameInfo found
      split
      next here =>
        have kept : erased (history.filter.startAddrToMapsInfo otherIpid) info ip = false :=
          Bool.eq_false_iff.mpr fun gone => survives ⟨here, gone⟩
        obtain ⟨holder, held, -⟩ := frameOf_filePathId before
        have apart : ip < info.start ∨ info.start < holder.start := by
          by_contra overlap
          have gone := erased_of_overlap nonempty (current.sorted otherIpid) held (by omega) (by omega)
          rw [kept] at gone
          cases gone
        have outside : erased (history.filter.startAddrToMapsInfo otherIpid) info holder.start = false := by
          apply Bool.eq_false_iff.mpr
          intro gone
          rw [erased_of_holder (current.sorted otherIpid) held gone] at kept
          cases kept
        have after := fillFrameInfo_insert nonempty (current.sorted otherIpid) held outside apart
        simp only [frameOf, held, after] at before ⊢
        exact before
      · exact before

theorem Current.symbolTable (ipid : Nat) (reader : SymbolTable) (timely : history.Timely (.symbolTable ipid reader)) :
    Current demangle (history.step demangle (.symbolTable ipid reader)) := by
  simp only [Timely] at timely
  simp only [SymbolHistory.step, OfflineSymbolizationFilter.step, parseSymbolTableEvent, procSymbolTable]
  cases known : history.filter.filePathIdToSymbolTable (history.filter.processKey ipid) reader.filePathId with
  | some table =>
    simp only [known] at timely
    subst timely
    have same : history.receive ipid table = history.received := by
      funext otherIpid filePathId
      simp only [receive]
      split
      next here =>
        rw [here.1, here.2, ← current.tables, known]
      · rfl
    simp only [same]
    refine ⟨current.sorted, current.tables, fun otherIpid ip frameInfo found => ?_⟩
    simp only [deleteFrameInfoWhichNeedsReparse] at found
    split at found
    next here =>
      rw [here]
      exact current.memo _ ip frameInfo (Option.filter_eq_some_iff.mp found).1
    · exact current.memo otherIpid ip frameInfo found
  | none =>
    simp only [known] at timely
    refine ⟨current.sorted, ?_, fun otherIpid ip frameInfo found => ?_⟩
    · funext otherIpid filePathId
      simp only [receive, current.tables]
    · apply frameOf_congr (current.memo otherIpid ip frameInfo found)
      simp only [receive]
      split
      next here => exact absurd here.2 (timely ip frameInfo (here.1 ▸ found))
      · rfl

theorem Current.step {event : SymbolEvent} (timely : history.Timely event) :
    Current demangle (history.step demangle event) := by
  cases event with
  | maps ipid info => exact current.maps ipid timely
  | symbolTable ipid reader => exact current.symbolTable ipid reader timely
  | query ipid ip => exact current.query ipid ip

end

theorem Current.initial (isSingleProcData : Bool) : Current demangle { filter := { isSingleProcData } } where
  sorted := fun _ => List.Pairwise.nil
  tables := rfl
  memo := fun _ _ _ found => by cases found

/-- One page of file 7, with a function of the given name at its start. -/
def pageMaps : MapsInfo := { start := 4096, endAddr := 8192, offset := 0, filePathId := 7 }

def namedTable (name : List UInt8) : SymbolTable where
  filePathId := 7
  textExecVaddr := 16
  textExecVaddrFileOffset := 0
  symEntrySize := 24
  symTable := [{ stName := 0, stInfo := 2, stValue := 16, stSize := 64 }]
  strTable := name

def lateTable : List SymbolEvent :=
  [.maps 1 pageMaps, .query 1 4100, .symbolTable 1 (namedTable [97, 0]), .query 1 4100]

def replacedTable : List SymbolEvent :=
  [.maps 1 pageMaps, .symbolTable 1 (namedTable [97, 0]), .symbolTable 1 (namedTable [98, 0]), .query 1 4100]

end SymbolHistory

end SmartPerf.Hook
