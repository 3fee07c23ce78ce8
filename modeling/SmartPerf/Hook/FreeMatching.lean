import SmartPerf.Data.Run
import SmartPerf.Hook.HeapAccounting

namespace SmartPerf.Hook

open Data NativeHook

/-! Which allocation a free ends. -/

/-- The row is an allocation of the address by the process that no free has ended. -/
def NativeHookRow.openIn (ipid addr : Nat) (row : NativeHookRow) : Prop :=
  row.eventType = .allocEvent ∧ row.endTimeStamp = 0 ∧ row.ipid = ipid ∧ row.addr = addr
deriving Decidable

/-- The most recent allocation of the address by the process that no free has ended. -/
def LatestOpen (rows : List NativeHookRow) (ipid addr row : Nat) : Prop :=
  (∃ entry, rows[row]? = some entry ∧ entry.openIn ipid addr) ∧
    ∀ later entry, row < later → rows[later]? = some entry → ¬ entry.openIn ipid addr

/-- The first allocation of the address since the last free that ended one of its allocations. -/
def firstSinceFree (rows : List NativeHookRow) (addr : Nat) : Option Nat :=
  (rows.map fun row => (row.eventType, row.addr)).zipIdx.foldl (fun first entry =>
    if entry.1.2 = addr then
      match entry.1.1 with
      | .allocEvent => first.or (some entry.2)
      | .freeEvent => none
      | _ => first
    else first) none

section FirstSinceFree

variable {rows : List NativeHookRow} {row : NativeHookRow} {addr : Nat}

theorem firstSinceFree_alloc (kind : row.eventType = .allocEvent) :
    firstSinceFree (rows ++ [row]) addr =
      if row.addr = addr then (firstSinceFree rows addr).or (some rows.length) else firstSinceFree rows addr := by
  simp [firstSinceFree, List.zipIdx_append, kind]

theorem firstSinceFree_free (kind : row.eventType = .freeEvent) :
    firstSinceFree (rows ++ [row]) addr = if row.addr = addr then none else firstSinceFree rows addr := by
  simp [firstSinceFree, List.zipIdx_append, kind]

theorem firstSinceFree_modify (index endTimeStamp : Nat) :
    firstSinceFree (rows.modify index (NativeHookRow.closed endTimeStamp)) addr = firstSinceFree rows addr := by
  have same : (rows.modify index (NativeHookRow.closed endTimeStamp)).map (fun row => (row.eventType, row.addr)) =
      rows.map fun row => (row.eventType, row.addr) := by
    apply List.ext_getElem?
    intro place
    simp only [List.getElem?_map, List.getElem?_modify]
    cases rows[place]? with
    | none => rfl
    | some entry => by_cases here : index = place <;> simp [here, NativeHookRow.closed]
  rw [firstSinceFree, same, firstSinceFree]

end FirstSinceFree

namespace NativeHook

variable {hook : NativeHook} {events : List HeapEvent} {free : FreeEvent} {row : Nat}

/-- The map holds the first allocation since the last free of the address, also when the address
has been allocated again. -/
def Recorded (hook : NativeHook) : Prop :=
  ∀ addr, hook.addrToAllocEventRow.lookup addr = firstSinceFree hook.columns addr

theorem Recorded.parseAllocEvent (recorded : Recorded hook) (alloc : AllocEvent) :
    Recorded (hook.parseAllocEvent alloc) := by
  intro addr
  have before := recorded addr
  rw [parseAllocEvent_columns, firstSinceFree_alloc rfl, parseAllocEvent_addr, insertNew, columns_length, ← before]
  by_cases same : alloc.addr = addr
  · rw [show (hook.allocColumns alloc).addr = alloc.addr from rfl, if_pos same, same]
    cases held : hook.addrToAllocEventRow.lookup addr with
    | none => exact AList.lookup_insert _
    | some first => exact held
  · rw [show (hook.allocColumns alloc).addr = alloc.addr from rfl, if_neg same]
    split
    · exact AList.lookup_insert_ne (Ne.symm same)
    · rfl

theorem Recorded.parseFreeEvent (recorded : Recorded hook) (free : FreeEvent) :
    Recorded (hook.parseFreeEvent free) := by
  cases matched : hook.matchingRow free with
  | none => rwa [parseFreeEvent_of_none matched]
  | some ended =>
    obtain ⟨-, entry, found, -⟩ := matchingRow_eq_some.mp matched
    intro addr
    rw [parseFreeEvent_columns matched found, firstSinceFree_free rfl, firstSinceFree_modify,
      parseFreeEvent_addr matched found, show (hook.freeColumns free entry.memSize).addr = free.addr from rfl]
    by_cases same : free.addr = addr
    · rw [if_pos same, same, AList.lookup_erase]
    · rw [if_neg same, AList.lookup_erase_ne (Ne.symm same)]
      exact recorded addr

theorem Recorded.step (recorded : Recorded hook) (event : HeapEvent) : Recorded (hook.step event) := by
  cases event with
  | alloc event => exact recorded.parseAllocEvent event
  | free event => exact recorded.parseFreeEvent event

/-- A free ends exactly the most recent open allocation of its address by its process. -/
def EndsLatest (hook : NativeHook) : HeapEvent → Prop
  | .alloc _ => True
  | .free event => ∀ row, (¬ hook.Ended row ∧ (hook.step (.free event)).Ended row) ↔
      LatestOpen hook.rows event.ipid event.addr row

/-- The first allocation of the address since its last free, if it is older than the free, is the
most recent open allocation by the process, and the process has no other one. -/
def FirstIsLatest (hook : NativeHook) : HeapEvent → Prop
  | .alloc _ => True
  | .free event => ∀ row,
      (firstSinceFree hook.rows event.addr = some row ∧
        ∃ entry, hook.rows[row]? = some entry ∧ entry.timeStamp < event.timeStamp) ↔
      LatestOpen hook.rows event.ipid event.addr row

theorem newly_ended_iff (accounted : Accounted hook) :
    (¬ hook.Ended row ∧ (hook.step (.free free)).Ended row) ↔ hook.matchingRow free = some row := by
  rw [step_ended_iff]
  constructor
  · intro ⟨unended, either⟩
    exact either.resolve_left unended
  · intro matched
    refine ⟨?_, .inr matched⟩
    have now : row ∈ hook.endings [.free free] := List.mem_append_left _ (Option.mem_toList.mpr matched)
    exact accounted.not_ended_of_mem_endings now

theorem matchingRow_iff_first (recorded : Recorded hook) :
    hook.matchingRow free = some row ↔
      firstSinceFree hook.rows free.addr = some row ∧
        ∃ entry, hook.rows[row]? = some entry ∧ entry.timeStamp < free.timeStamp := by
  rw [matchingRow_eq_some, recorded, firstSinceFree, columns, List.map_map]
  apply and_congr_right
  intro _
  constructor
  · rintro ⟨entry, found, older⟩
    obtain ⟨full, present, rfl⟩ := lookup_of_columns found
    exact ⟨full, present, older⟩
  · rintro ⟨entry, found, older⟩
    exact ⟨entry.withoutSizeDur, lookup_columns found, older⟩

theorem endsLatest_iff (accounted : Accounted hook) (recorded : Recorded hook) (event : HeapEvent) :
    hook.EndsLatest event ↔ hook.FirstIsLatest event := by
  cases event with
  | alloc event => exact Iff.rfl
  | free event => simp only [EndsLatest, FirstIsLatest, newly_ended_iff accounted, matchingRow_iff_first recorded]

/-- The frees of a run end the right rows exactly if at each of them the first allocation of the
address since its last free is the one to end. -/
theorem frees_match_iff_first_is_latest (events : List HeapEvent) :
    Along step EndsLatest {} events ↔ Along step FirstIsLatest {} events := by
  apply along_iff fun hook _ => Accounted hook ∧ Recorded hook
  · intro hook event _ valid
    exact endsLatest_iff valid.1 valid.2 event
  · intro hook event _ valid _
    exact ⟨valid.1.step event, valid.2.step event⟩
  · exact ⟨.initial, fun _ => rfl⟩

/-- After any events a free ends only the first allocation of its address since the last free, by whichever process, if
it is older. -/
theorem free_ends_first (events : List HeapEvent) (free : FreeEvent) (row : Nat) :
    (¬ (run events).Ended row ∧ ((run events).step (.free free)).Ended row) ↔
      firstSinceFree (run events).rows free.addr = some row ∧
        ∃ entry, (run events).rows[row]? = some entry ∧ entry.timeStamp < free.timeStamp := by
  have recorded : Recorded (run events) := by
    induction events using List.reverseRecOn with
    | nil => exact fun _ => rfl
    | append_singleton events event ih =>
      rw [run, List.foldl_append]
      exact ih.step event
  exact (newly_ended_iff (Accounted.initial.foldl events)).trans (matchingRow_iff_first recorded)

theorem EndsLatest.matched (ends : (run events).EndsLatest (.free free)) :
    (run events).matchingRow free = some row ↔ LatestOpen (run events).rows free.ipid free.addr row := by
  have accounted : Accounted (run events) := Accounted.initial.foldl events
  rw [← newly_ended_iff accounted]
  exact ends row

def twoProcesses : List HeapEvent :=
  [.alloc { timeStamp := 1, ipid := 1, itid := 1, addr := 4096, size := 16 },
    .alloc { timeStamp := 2, ipid := 2, itid := 2, addr := 4096, size := 32 },
    .free { timeStamp := 3, ipid := 2, itid := 2, addr := 4096 }]

def lostFree : List HeapEvent :=
  [.alloc { timeStamp := 1, ipid := 1, itid := 1, addr := 4096, size := 16 },
    .alloc { timeStamp := 2, ipid := 1, itid := 1, addr := 4096, size := 32 },
    .free { timeStamp := 3, ipid := 1, itid := 1, addr := 4096 }]

def equalTimes : List HeapEvent :=
  [.alloc { timeStamp := 1, ipid := 1, itid := 1, addr := 4096, size := 16 },
    .free { timeStamp := 1, ipid := 1, itid := 1, addr := 4096 }]

/-- The free of process 2 ends the row of process 1, the free after a lost one ends the older
allocation, and a free at the time of the allocation ends nothing. -/
theorem frees_mismatched :
    ¬ Along step EndsLatest {} twoProcesses ∧ endings {} twoProcesses = [0] ∧
      ¬ Along step EndsLatest {} lostFree ∧ endings {} lostFree = [0] ∧
      ¬ Along step EndsLatest {} equalTimes ∧ endings {} equalTimes = [] := by
  refine ⟨?_, by decide +kernel, ?_, by decide +kernel, ?_, by decide +kernel⟩
  · intro along
    have ends : (run (twoProcesses.take 2)).EndsLatest (.free { timeStamp := 3, ipid := 2, itid := 2, addr := 4096 }) :=
      along.2.2.1
    obtain ⟨⟨entry, found, owned⟩, -⟩ := ends.matched.mp (show _ = some 0 by decide +kernel)
    have other : (run (twoProcesses.take 2)).rows[0]?.map NativeHookRow.ipid = some 1 := by decide +kernel
    rw [found, Option.map_some, owned.2.2.1] at other
    cases other
  · intro along
    have ends : (run (lostFree.take 2)).EndsLatest (.free { timeStamp := 3, ipid := 1, itid := 1, addr := 4096 }) :=
      along.2.2.1
    obtain ⟨-, newest⟩ := ends.matched.mp (show _ = some 0 by decide +kernel)
    exact newest 1 _ (by decide) rfl (by decide +kernel)
  · intro along
    have ends : (run (equalTimes.take 1)).EndsLatest (.free { timeStamp := 1, ipid := 1, itid := 1, addr := 4096 }) :=
      along.2.1
    have unmatched : (run (equalTimes.take 1)).matchingRow { timeStamp := 1, ipid := 1, itid := 1, addr := 4096 } =
      none := by decide +kernel
    have opened : LatestOpen (run (equalTimes.take 1)).rows 1 4096 0 := by
      refine ⟨⟨_, rfl, by decide +kernel⟩, ?_⟩
      intro later entry after found
      have bound := lookup_lt found
      have length : (run (equalTimes.take 1)).rows.length = 1 := by decide +kernel
      omega
    rw [ends.matched.mpr opened] at unmatched
    cases unmatched

end NativeHook

end SmartPerf.Hook
