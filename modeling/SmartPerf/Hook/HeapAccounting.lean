import SmartPerf.Hook.HeapRows

namespace SmartPerf.Hook

open Data List NativeHookRow

/-! The running heap total against the rows of the table. -/

def NativeHookRow.inUse (row : NativeHookRow) : Bool :=
  row.eventType = .allocEvent ∧ row.endTimeStamp = 0

/-- The memory of the allocations in use, in the `int64_t` arithmetic of the column. -/
def heapInUse (rows : List NativeHookRow) : Int64 :=
  ((rows.filter inUse).map memSize).sum

def exactHeapInUse (rows : List NativeHookRow) : Int :=
  ((rows.filter inUse).map fun row => row.memSize.toInt).sum

section Sums

variable {rows : List NativeHookRow} {row : NativeHookRow} {index : Nat} {change : NativeHookRow → NativeHookRow}

theorem heapInUse_cons : heapInUse (row :: rows) = (if row.inUse then row.memSize else 0) + heapInUse rows := by
  by_cases used : row.inUse <;> simp [heapInUse, used]

theorem heapInUse_append_single :
    heapInUse (rows ++ [row]) = heapInUse rows + if row.inUse then row.memSize else 0 := by
  induction rows with
  | nil => by_cases used : row.inUse <;> simp [heapInUse, used]
  | cons first rest ih => rw [cons_append, heapInUse_cons, heapInUse_cons, ih, Int64.add_assoc]

theorem heapInUse_columns (hook : NativeHook) : heapInUse hook.columns = heapInUse hook.rows := by
  rw [NativeHook.columns]
  induction hook.rows with
  | nil => rfl
  | cons first rest ih =>
    rw [map_cons, heapInUse_cons, heapInUse_cons, ih]
    rfl

theorem heapInUse_modify (found : rows[index]? = some row) (used : row.inUse) (ended : ¬ (change row).inUse) :
    heapInUse (rows.modify index change) = heapInUse rows - row.memSize := by
  induction rows generalizing index with
  | nil => simp at found
  | cons first rest ih =>
    cases index with
    | zero =>
      rw [modify_zero_cons, heapInUse_cons, heapInUse_cons]
      grind
    | succ index =>
      rw [modify_succ_cons, heapInUse_cons, heapInUse_cons]
      grind

theorem heapInUse_toInt : (heapInUse rows).toInt = (exactHeapInUse rows).bmod (2 ^ 64) := by
  simp only [heapInUse, exactHeapInUse]
  induction rows.filter inUse with
  | nil => rfl
  | cons first rest ih => simp [ih]

end Sums

namespace NativeHook

/-- The rows that the map holds are allocations in use at their address, and the total is theirs. -/
structure Accounted (hook : NativeHook) : Prop where
  total : hook.countHeapSizes = heapInUse hook.columns
  held : ∀ addr row, hook.addrToAllocEventRow.lookup addr = some row →
    ∃ entry, hook.columns[row]? = some entry ∧ entry.inUse ∧ entry.addr = addr

variable {hook : NativeHook} {alloc : AllocEvent} {free : FreeEvent} {row : Nat} {entry : NativeHookRow}

theorem closed_not_inUse (later : entry.timeStamp < free.timeStamp) : ¬ (entry.closed free.timeStamp).inUse := by
  intro used
  have unended := (of_decide_eq_true used).2
  simp only [closed] at unended
  omega

theorem Accounted.parseAllocEvent (accounted : Accounted hook) : Accounted (hook.parseAllocEvent alloc) where
  total := by
    rw [parseAllocEvent_count, parseAllocEvent_columns, heapInUse_append_single, accounted.total]
    rfl
  held := by
    have held : Indexes hook.addrToAllocEventRow hook.columns (·.addr) inUse := accounted.held
    rw [parseAllocEvent_columns, parseAllocEvent_addr, ← columns_length]
    exact @Indexes.insertNew _ _ _ _ _ _ _ held (hook.allocColumns alloc) rfl

theorem Accounted.parseFreeEvent (accounted : Accounted hook) : Accounted (hook.parseFreeEvent free) := by
  cases matched : hook.matchingRow free with
  | none => rwa [parseFreeEvent_of_none matched]
  | some ended =>
    obtain ⟨lookup, entry, found, later⟩ := matchingRow_eq_some.mp matched
    obtain ⟨known, same, used, address⟩ := accounted.held free.addr ended lookup
    obtain rfl := Option.mem_unique found same
    constructor
    · rw [parseFreeEvent_count matched found, parseFreeEvent_columns matched found, heapInUse_append_single,
        heapInUse_modify found used (closed_not_inUse later), accounted.total]
      exact (Int64.add_zero _).symm
    · have held : Indexes hook.addrToAllocEventRow hook.columns (·.addr) inUse := accounted.held
      rw [parseFreeEvent_columns matched found, parseFreeEvent_addr matched found, ← address]
      exact (held.erase found _).append _

theorem Accounted.step (accounted : Accounted hook) (event : HeapEvent) : Accounted (hook.step event) := by
  cases event with
  | alloc event => exact accounted.parseAllocEvent
  | free event => exact accounted.parseFreeEvent

theorem Accounted.initial : Accounted {} := ⟨rfl, fun _ _ lookup => by cases lookup⟩

theorem Accounted.foldl (accounted : Accounted hook) (events : List HeapEvent) :
    Accounted (events.foldl NativeHook.step hook) := by
  induction events generalizing hook with
  | nil => exact accounted
  | cons event rest ih => exact ih (accounted.step event)

def endedRow (hook : NativeHook) : HeapEvent → Option Nat
  | .alloc _ => none
  | .free event => hook.matchingRow event

def endings : NativeHook → List HeapEvent → List Nat
  | _, [] => []
  | hook, event :: rest => (hook.endedRow event).toList ++ endings (hook.step event) rest

def Ended (hook : NativeHook) (row : Nat) : Prop :=
  ∃ entry, hook.columns[row]? = some entry ∧ entry.endTimeStamp ≠ 0

theorem step_ended_iff (hook : NativeHook) (event : HeapEvent) (row : Nat) :
    (hook.step event).Ended row ↔ hook.Ended row ∨ hook.endedRow event = some row := by
  have append : ∀ {rows : List NativeHookRow} {last : NativeHookRow}, last.endTimeStamp = 0 →
      ((∃ entry, (rows ++ [last])[row]? = some entry ∧ entry.endTimeStamp ≠ 0) ↔
        ∃ entry, rows[row]? = some entry ∧ entry.endTimeStamp ≠ 0) := by
    intro rows last unended
    constructor
    · rintro ⟨entry, found, ended⟩
      rcases lookup_append_iff.mp found with old | ⟨-, rfl⟩
      · exact ⟨entry, old, ended⟩
      · exact absurd unended ended
    · rintro ⟨entry, found, ended⟩
      exact ⟨entry, lookup_append_of_lookup found _, ended⟩
  cases event with
  | alloc event =>
    simp only [Ended, NativeHook.step, parseAllocEvent_columns, endedRow, reduceCtorEq, or_false]
    exact append rfl
  | free event =>
    cases matched : hook.matchingRow event with
    | none =>
      simp [NativeHook.step, parseFreeEvent_of_none matched, endedRow, matched]
    | some ended =>
      obtain ⟨-, entry, found, later⟩ := matchingRow_eq_some.mp matched
      simp only [Ended, NativeHook.step, parseFreeEvent_columns matched found, endedRow, matched, Option.some.injEq]
      rw [append (by rfl)]
      constructor
      · rintro ⟨after, lookup, nonzero⟩
        obtain ⟨before, present, rfl⟩ := lookup_modify_iff.mp lookup
        by_cases same : ended = row
        · exact .inr same
        · rw [if_neg same] at nonzero
          exact .inl ⟨before, present, nonzero⟩
      · intro either
        by_cases same : ended = row
        · subst same
          refine ⟨entry.closed event.timeStamp, lookup_modify_iff.mpr ⟨entry, found, (if_pos rfl).symm⟩, ?_⟩
          simp only [closed]
          omega
        · obtain ⟨before, present, nonzero⟩ := either.resolve_right same
          exact ⟨before, lookup_modify_iff.mpr ⟨before, present, (if_neg same).symm⟩, nonzero⟩

theorem ended_foldl_iff (hook : NativeHook) (events : List HeapEvent) (row : Nat) :
    (events.foldl NativeHook.step hook).Ended row ↔ hook.Ended row ∨ row ∈ hook.endings events := by
  induction events generalizing hook with
  | nil => simp [endings]
  | cons event rest ih =>
    rw [foldl_cons, ih, step_ended_iff, endings, mem_append, Option.mem_toList, or_assoc]

theorem Accounted.not_ended_of_mem_endings (accounted : Accounted hook) {events : List HeapEvent}
    (inside : row ∈ hook.endings events) : ¬ hook.Ended row := by
  induction events generalizing hook with
  | nil => cases inside
  | cons event rest ih =>
    rcases mem_append.mp inside with now | later
    · cases event with
      | alloc event => cases now
      | free event =>
        have matched : hook.matchingRow event = some row := Option.mem_toList.mp now
        obtain ⟨lookup, -⟩ := matchingRow_eq_some.mp matched
        obtain ⟨entry, found, used, -⟩ := accounted.held event.addr row lookup
        intro ⟨other, present, ended⟩
        obtain rfl := Option.mem_unique found present
        simp only [inUse, decide_eq_true_eq] at used
        exact ended used.2
    · have open_ := ih (accounted.step event) later
      rw [step_ended_iff] at open_
      exact fun ended => open_ (.inl ended)

theorem Accounted.endings_nodup (accounted : Accounted hook) (events : List HeapEvent) :
    (hook.endings events).Nodup := by
  induction events generalizing hook with
  | nil => exact nodup_nil
  | cons event rest ih =>
    apply List.Nodup.append
    · cases hook.endedRow event <;> simp
    · exact ih (accounted.step event)
    · intro row now later
      apply (accounted.step event).not_ended_of_mem_endings later
      rw [step_ended_iff]
      exact .inr (Option.mem_toList.mp now)

theorem lastRow_allMemSize (hook : NativeHook) (event : HeapEvent)
    (appended : (hook.step event).rows[hook.rows.length]? = some entry) :
    entry.allMemSize = (hook.step event).countHeapSizes := by
  have column := lookup_columns appended
  rw [← columns_length] at column
  cases event with
  | alloc event =>
    rw [NativeHook.step, parseAllocEvent_columns, getElem?_concat_length] at column
    have same := congrArg allMemSize (Option.some.inj column)
    rw [NativeHook.step, parseAllocEvent_count]
    exact same.symm
  | free event =>
    cases matched : hook.matchingRow event with
    | none =>
      rw [NativeHook.step, parseFreeEvent_of_none matched, getElem?_eq_none le_rfl] at column
      cases column
    | some ended =>
      obtain ⟨-, freed, found, -⟩ := matchingRow_eq_some.mp matched
      rw [NativeHook.step, parseFreeEvent_columns matched found,
        ← length_modify (closed event.timeStamp) hook.columns ended, getElem?_concat_length] at column
      have same := congrArg allMemSize (Option.some.inj column)
      rw [NativeHook.step, parseFreeEvent_count matched found]
      exact same.symm

/-- After every event the running total, which the row of the event also shows, is the memory of the
allocations that no free has ended, and no row is ended twice. -/
theorem heap_accounting_conserves (events : List HeapEvent) (event : HeapEvent) :
    let before := run events
    let after := run (events ++ [event])
    after.countHeapSizes = heapInUse after.rows ∧
      after.countHeapSizes.toInt = (exactHeapInUse after.rows).bmod (2 ^ 64) ∧
      (∀ entry, after.rows[before.rows.length]? = some entry → entry.allMemSize = after.countHeapSizes) ∧
      (∀ row entry, after.rows[row]? = some entry → (entry.endTimeStamp ≠ 0 ↔ row ∈ endings {} (events ++ [event]))) ∧
      (endings {} (events ++ [event])).Nodup := by
  intro before after
  have accounted : Accounted after := Accounted.initial.foldl (events ++ [event])
  have total : after.countHeapSizes = heapInUse after.rows := by rw [accounted.total, heapInUse_columns]
  have last : after = before.step event := by simp [after, before, run]
  refine ⟨total, ?_, ?_, ?_, Accounted.initial.endings_nodup _⟩
  · rw [total, heapInUse_toInt]
  · intro entry appended
    rw [last] at appended ⊢
    exact lastRow_allMemSize before event appended
  · intro row entry found
    have fresh : ¬ Ended {} row := fun ⟨_, nothing, _⟩ => by cases nothing
    have shown : after.Ended row ↔ row ∈ endings {} (events ++ [event]) := by
      rw [show after = (events ++ [event]).foldl NativeHook.step {} from rfl, ended_foldl_iff]
      exact or_iff_right fresh
    rw [← shown]
    constructor
    · exact fun ended => ⟨entry.withoutSizeDur, lookup_columns found, ended⟩
    · intro ⟨other, column, ended⟩
      obtain rfl := Option.some.inj ((lookup_columns found).symm.trans column)
      exact ended

def reusedAddress : List HeapEvent :=
  [.alloc { timeStamp := 1, ipid := 1, itid := 1, addr := 4096, size := 16 },
    .alloc { timeStamp := 2, ipid := 1, itid := 1, addr := 4096, size := 32 }]

theorem heap_accounting_reusedAddress :
    let after := run (reusedAddress ++ [.free { timeStamp := 3, ipid := 1, itid := 1, addr := 4096 }])
    after.countHeapSizes = 32 ∧ ∃ entry, after.rows[2]? = some entry ∧ entry.eventType = .freeEvent ∧
      entry.allMemSize = after.countHeapSizes := by
  have accounted := heap_accounting_conserves reusedAddress
    (.free { timeStamp := 3, ipid := 1, itid := 1, addr := 4096 })
  refine ⟨by decide +kernel, _, rfl, by decide +kernel, accounted.2.2.1 _ rfl⟩

end NativeHook

end SmartPerf.Hook
