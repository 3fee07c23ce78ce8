import SmartPerf.Data.ListLookup
import SmartPerf.Data.StableSort

namespace SmartPerf.Data

open List

/-! Merging queues. Each item belongs to a lane and waits in the queue of its lane; an item may leave when no front of a
queue is smaller and nothing smaller can come any more. -/

variable {Item Key : Type*} [LinearOrder Key]

/-- What is known when some items have left, others wait and others are to come. -/
structure Merging (key : Item → Key) (lane : Item → Nat) (queues : List (List Item)) (out seen future : List Item) :
    Prop where
  lanes : ∀ number, out.filter (fun item => lane item = number) ++ queues.getD number [] =
    seen.filter fun item => lane item = number
  order : InOrder key out
  below : ∀ early ∈ out, ∀ item, item ∈ future ∨ (∃ number, item ∈ queues.getD number []) → key early ≤ key item

variable {key : Item → Key} {lane : Item → Nat} {queues : List (List Item)} {out seen future : List Item} {number : Nat}

def InLaneOrder (key : Item → Key) (lane : Item → Nat) (items : List Item) : Prop :=
  ∀ number, InOrder key (items.filter fun item => lane item = number)

theorem getD_set_queue (rest : List Item) (has_queue : number < queues.length) (other : Nat) :
    (queues.set number rest).getD other [] = if number = other then rest else queues.getD other [] := by
  rw [getD_eq_getElem?_getD, getElem?_set]
  split
  next => rfl
  next => rw [getD_eq_getElem?_getD]

theorem getD_modify_queue (item : Item) (has_queue : number < queues.length) (other : Nat) :
    (queues.modify number (· ++ [item])).getD other [] = queues.getD other [] ++ if number = other then [item] else [] := by
  by_cases here : number = other
  · subst here
    simp [getElem?_eq_getElem has_queue]
  · simp [here]

namespace Merging

theorem start (count : Nat) (items : List Item) : Merging key lane (List.replicate count []) [] [] items where
  lanes number := by
    rw [getD_eq_getElem?_getD, getElem?_replicate]
    split <;> rfl
  order := List.Pairwise.nil
  below _ listed := absurd listed not_mem_nil

theorem mem_seen (merging : Merging key lane queues out seen future) {number : Nat} {item : Item}
    (waits : item ∈ queues.getD number []) : item ∈ seen.filter fun item => lane item = number := by
  rw [← merging.lanes number]
  exact mem_append_right _ waits

theorem queue_inOrder (merging : Merging key lane queues out seen future) (sorted : InLaneOrder key lane (seen ++ future))
    (number : Nat) : InOrder key (queues.getD number []) := by
  have ordered := sorted number
  rw [filter_append, ← merging.lanes number] at ordered
  exact (pairwise_append.mp (pairwise_append.mp ordered).1).2.1

theorem append {item : Item} (merging : Merging key lane queues out seen (item :: future))
    (has_lane : lane item < queues.length) :
    Merging key lane (queues.modify (lane item) (· ++ [item])) out (seen ++ [item]) future where
  lanes number := by
    rw [filter_append, ← merging.lanes number, getD_modify_queue item has_lane]
    simp [filter_singleton]
  order := merging.order
  below early left other is_later := by
    refine merging.below early left other ?_
    rcases is_later with coming | ⟨number, waits⟩
    · exact .inl (mem_cons_of_mem _ coming)
    · rw [getD_modify_queue item has_lane] at waits
      rcases mem_append.mp waits with waiting | added
      · exact .inr ⟨number, waiting⟩
      · split at added
        next => exact .inl (by rw [mem_singleton.mp added]; exact mem_cons_self)
        next => exact absurd added not_mem_nil

theorem take {number : Nat} {item : Item} {rest : List Item} (merging : Merging key lane queues out seen future)
    (sorted : InLaneOrder key lane (seen ++ future)) (front : queues[number]? = some (item :: rest))
    (smallest : ∀ (other : Nat) first others, queues[other]? = some (first :: others) → key item ≤ key first)
    (awaited : ∀ coming ∈ future, ∃ first others, queues[lane coming]? = some (first :: others)) :
    Merging key lane (queues.set number rest) (out ++ [item]) seen future := by
  have has_queue := lookup_lt front
  have front_getD : queues.getD number [] = item :: rest := by rw [getD_eq_getElem?_getD, front, Option.getD_some]
  have item_waits : item ∈ queues.getD number [] := by
    rw [front_getD]
    exact mem_cons_self
  have item_lane : lane item = number := of_decide_eq_true (mem_filter.mp (merging.mem_seen item_waits)).2
  have queue_of : ∀ other waiting, waiting ∈ (queues.set number rest).getD other [] → waiting ∈ queues.getD other [] := by
    intro other waiting waits
    rw [getD_set_queue rest has_queue] at waits
    split at waits
    next same => exact same ▸ front_getD ▸ mem_cons_of_mem _ waits
    next => exact waits
  -- a waiting item is not below the front of its queue, and no front is below the item that leaves
  have below_waiting : ∀ other waiting, waiting ∈ queues.getD other [] → key item ≤ key waiting := by
    intro other waiting waits
    have queue_order := merging.queue_inOrder sorted other
    cases queue : queues[other]? with
    | none => simp [queue] at waits
    | some items =>
      rw [getD_eq_getElem?_getD, queue] at waits queue_order
      cases items with
      | nil => exact absurd waits not_mem_nil
      | cons first others =>
        refine (smallest other first others queue).trans ?_
        rcases mem_cons.mp waits with rfl | later
        · exact le_rfl
        · exact (pairwise_cons.mp queue_order).1 waiting later
  refine ⟨fun other => ?_, ?_, ?_⟩
  · rw [← merging.lanes other, getD_set_queue rest has_queue]
    split
    next same => simp [← same, front, item_lane]
    next apart => simp [item_lane, apart]
  · refine pairwise_append.mpr ⟨merging.order, pairwise_singleton _ _, fun early left other is_item => ?_⟩
    rw [mem_singleton.mp is_item]
    exact merging.below early left item (.inr ⟨number, item_waits⟩)
  · intro early left other is_later
    rcases mem_append.mp left with before | now
    · exact merging.below early before other (is_later.imp_right fun ⟨place, waits⟩ => ⟨place, queue_of place other waits⟩)
    · rw [mem_singleton.mp now]
      rcases is_later with coming | ⟨place, waits⟩
      · obtain ⟨first, others, queue⟩ := awaited other coming
        have waits : first ∈ queues.getD (lane other) [] := by simp [queue]
        have ordered := sorted (lane other)
        rw [filter_append] at ordered
        have across := (pairwise_append.mp ordered).2.2
        exact (below_waiting (lane other) first waits).trans
          (across first (merging.mem_seen waits) other (by simp [coming]))
      · exact below_waiting place other (queue_of place other waits)

end Merging

theorem length_flatten_set {item : Item} {rest : List Item} (front : queues[number]? = some (item :: rest)) :
    (queues.set number rest).flatten.length + 1 = queues.flatten.length := by
  have lengths := @sum_map_modify _ _ _ _ (fun _ => rest) List.length front
  rw [← set_eq_modify, ← length_flatten, ← length_flatten, length_cons] at lengths
  omega

theorem length_flatten_modify (item : Item) (has_queue : number < queues.length) :
    (queues.modify number (· ++ [item])).flatten.length = queues.flatten.length + 1 := by
  have lengths := @sum_map_modify _ _ _ _ (· ++ [item]) List.length (getElem?_eq_getElem has_queue)
  rw [← length_flatten, ← length_flatten, length_append, length_singleton] at lengths
  omega

end SmartPerf.Data
