import Mathlib.Tactic

namespace SmartPerf.Hdc

open List

/-! The queue between the messages of a device and those that wait for them. `add` makes a promise and its resolver
together; both carry the number under which it made them. -/

/-- `push` puts an entry in front, `pop` takes the last one. -/
abbrev DataMessageQueue := List Nat

structure AsyncQueue (Item : Type) where
  promiseQueue : DataMessageQueue := []
  resolverQueue : DataMessageQueue := []
  made : Nat := 0
  /-- What each promise is resolved with. -/
  resolved : Nat → Option Item := fun _ => none

namespace AsyncQueue

variable {Item : Type} (queue : AsyncQueue Item)

def add : AsyncQueue Item :=
  { queue with
    promiseQueue := queue.made :: queue.promiseQueue
    resolverQueue := queue.made :: queue.resolverQueue
    made := queue.made + 1 }

/-- A promise keeps the first item that it is resolved with. -/
def enqueue (item : Item) : AsyncQueue Item :=
  let queue := if queue.resolverQueue.length = 0 then queue.add else queue
  match queue.resolverQueue.getLast? with
  | some resolve =>
    { queue with
      resolverQueue := queue.resolverQueue.dropLast
      resolved := Function.update queue.resolved resolve (some ((queue.resolved resolve).getD item)) }
  | none => queue

/-- The promise that the call returns, and the queue after it. -/
def dequeue : Nat × AsyncQueue Item :=
  let queue := if queue.promiseQueue.length = 0 then queue.add else queue
  match queue.promiseQueue.getLast? with
  | some promise => (promise, { queue with promiseQueue := queue.promiseQueue.dropLast })
  | none => (queue.made, { queue with made := queue.made + 1 })

inductive Call (Item : Type) where
  | enqueue (item : Item)
  | dequeue
deriving Repr, DecidableEq

def Call.item? : Call Item → Option Item
  | .enqueue item => some item
  | .dequeue => none

/-- One call, on a queue and the promises that it has returned so far. -/
def call (state : AsyncQueue Item × List Nat) : Call Item → AsyncQueue Item × List Nat
  | .enqueue item => (state.1.enqueue item, state.2)
  | .dequeue => (state.1.dequeue.2, state.2 ++ [state.1.dequeue.1])

def run (calls : List (Call Item)) : AsyncQueue Item × List Nat := calls.foldl call ({}, [])

/-- The queue that has returned `taken` promises and received `items`. The promise with number `k` belongs to the `k`-th
item and to the `k`-th `dequeue`. -/
def paired (taken : Nat) (items : List Item) : AsyncQueue Item where
  promiseQueue := (range' taken (items.length - taken)).reverse
  resolverQueue := (range' items.length (taken - items.length)).reverse
  made := max taken items.length
  resolved := (items[·]?)

variable (items : List Item)

theorem update_getElem? (item : Item) :
    Function.update (items[·]?) items.length (some item) = ((items ++ [item])[·]?) := by
  funext index
  rcases Nat.lt_trichotomy index items.length with before | rfl | after
  · rw [Function.update_of_ne before.ne, getElem?_append_left before]
  · rw [Function.update_self, getElem?_concat_length]
  · have beyond : (items ++ [item])[index]? = none := getElem?_eq_none (by simpa using after)
    rw [Function.update_of_ne after.ne', beyond, getElem?_eq_none after.le]

theorem paired_enqueue (taken : Nat) (items : List Item) (item : Item) :
    (paired taken items).enqueue item = paired taken (items ++ [item]) := by
  by_cases full : taken ≤ items.length
  · have count : items.length + 1 - taken = items.length - taken + 1 := by omega
    have next : taken ≤ items.length + 1 := by omega
    simp [enqueue, paired, add, full, next, count, range'_1_concat, update_getElem?]
  · have count : taken - items.length = taken - (items.length + 1) + 1 := by omega
    have less : items.length ≤ taken := by omega
    have next : items.length + 1 ≤ taken := by omega
    simp [enqueue, paired, count, less, next, range'_succ, update_getElem?]

theorem paired_dequeue (taken : Nat) (items : List Item) :
    (paired taken items).dequeue = (taken, paired (taken + 1) items) := by
  by_cases full : items.length ≤ taken
  · have count : taken + 1 - items.length = taken - items.length + 1 := by omega
    have next : items.length ≤ taken + 1 := by omega
    simp [dequeue, paired, add, full, next, count, range'_1_concat]
  · have count : items.length - taken = items.length - (taken + 1) + 1 := by omega
    have less : taken ≤ items.length := by omega
    have next : taken + 1 ≤ items.length := by omega
    simp [dequeue, paired, count, less, next, range'_succ]

theorem run_eq_paired (calls : List (Call Item)) :
    ∃ taken, run calls = (paired taken (calls.filterMap Call.item?), range taken) := by
  induction calls using reverseRecOn with
  | nil => exact ⟨0, rfl⟩
  | append_singleton calls last ih =>
    obtain ⟨taken, before⟩ := ih
    rw [run, foldl_append, foldl_cons, foldl_nil, ← run, before, filterMap_append]
    cases last with
    | enqueue item => exact ⟨taken, congrArg (·, range taken) (paired_enqueue taken _ item)⟩
    | dequeue =>
      have items : [Call.dequeue].filterMap Call.item? = ([] : List Item) := rfl
      refine ⟨taken + 1, ?_⟩
      rw [call, paired_dequeue, range_succ, items, append_nil]

theorem filterMap_getElem? (count : Nat) : (range count).filterMap (items[·]?) = items.take count := by
  induction count with
  | zero => rfl
  | succ count ih =>
    rw [range_succ, filterMap_append, ih, take_add_one]
    cases found : items[count]? <;> simp [found]

/-- A queue after any calls. The `k`-th `dequeue` has returned a promise that is resolved with the `k`-th item once there
is one. The promises that were returned or wait hold each item once, in order, and one of the queues is empty. -/
theorem run_isFifo (calls : List (Call Item)) :
    let (queue, returned) := run calls
    let items := calls.filterMap Call.item?
    (∀ index promise : Nat, returned[index]? = some promise → queue.resolved promise = items[index]?) ∧
    (returned ++ queue.promiseQueue.reverse).Nodup ∧
    (returned ++ queue.promiseQueue.reverse).filterMap queue.resolved = items ∧
    (queue.promiseQueue = [] ∨ queue.resolverQueue = []) := by
  obtain ⟨taken, after⟩ := run_eq_paired calls
  rw [after]
  generalize calls.filterMap Call.item? = items
  have every : range taken ++ (paired taken items).promiseQueue.reverse = range (max taken items.length) := by
    have count : max taken items.length = taken + (items.length - taken) := by omega
    rw [paired, reverse_reverse, count, range_add, range'_eq_map_range]
  dsimp only
  rw [every]
  refine ⟨?_, nodup_range, ?_, ?_⟩
  · intro index promise returned
    obtain ⟨inside, rfl⟩ := List.getElem?_eq_some_iff.mp returned
    rw [getElem_range, paired]
  · exact (filterMap_getElem? items _).trans (take_of_length_le (Nat.le_max_right _ _))
  · rw [paired, reverse_eq_nil_iff, reverse_eq_nil_iff, range'_eq_nil_iff, range'_eq_nil_iff]
    omega

end AsyncQueue

end SmartPerf.Hdc
