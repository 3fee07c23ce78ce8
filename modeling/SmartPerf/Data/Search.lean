import SmartPerf.Data.Dominance

namespace SmartPerf.Data

open List

/-! Depth-first searches with an explicit stack. The nodes seen so far are listed as the finished ones
in the order they finished, followed by the stack from its top: finishing a node leaves this list as
it is, and finding a node inserts it, so what comes before what is settled once. -/

variable {Node : Type*}

structure Search (Node : Type*) where
  finished : List Node
  stack : List Node

namespace Search

def seen (search : Search Node) : List Node := search.finished ++ search.stack

inductive Step (edge : Node → Node → Prop) : Search Node → Search Node → Prop
  | find {finished rest : List Node} {top found : Node} : edge top found → found ∉ finished ++ top :: rest →
      Step edge ⟨finished, top :: rest⟩ ⟨finished, found :: top :: rest⟩
  | finish {finished rest : List Node} {top : Node} : (∀ next, edge top next → next ∈ finished ++ top :: rest) →
      Step edge ⟨finished, top :: rest⟩ ⟨finished ++ [top], rest⟩

variable {edge : Node → Node → Prop} {root node next : Node} {search before after : Search Node} {finished rest : List Node}

/-- An edge from a finished node leads to a node before it, or back to a node from which a walk
through nodes before that one leads to the finished node. -/
def Settled (edge : Node → Node → Prop) (seen : List Node) (node next : Node) : Prop :=
  [next, node].Sublist seen ∨
    ∃ walk, IsWalk edge next node walk ∧ ∀ passed ∈ walk, passed = next ∨ [passed, next].Sublist seen

structure Invariant (edge : Node → Node → Prop) (root : Node) (search : Search Node) : Prop where
  nodup : search.seen.Nodup
  last : search.seen.getLast? = some root
  path : search.stack.IsChain fun later earlier => edge earlier later
  parent : ∀ node ∈ search.seen, node ≠ root → ∃ parent, edge parent node ∧ [node, parent].Sublist search.seen
  finished : ∀ node ∈ search.finished, ∀ next, edge node next →
    next ∈ search.seen ∧ Settled edge search.seen node next

theorem Invariant.initial (edge : Node → Node → Prop) (root : Node) : Invariant edge root ⟨[], [root]⟩ where
  nodup := nodup_singleton root
  last := rfl
  path := isChain_singleton root
  parent := by
    intro node inside distinct
    exact absurd (by simpa [seen] using inside) distinct
  finished := fun _ inside => by cases inside

theorem Settled.mono {few many : List Node} (settled : Settled edge few node next) (grows : few.Sublist many) :
    Settled edge many node next := by
  rcases settled with earlier | ⟨walk, isWalk, passed⟩
  · exact .inl (earlier.trans grows)
  · exact .inr ⟨walk, isWalk, fun node inside => (passed node inside).imp_right (·.trans grows)⟩

theorem Invariant.find {top found : Node}
    (invariant : Invariant edge root ⟨finished, top :: rest⟩) (taken : edge top found)
    (fresh : found ∉ finished ++ top :: rest) : Invariant edge root ⟨finished, found :: top :: rest⟩ := by
  have grows : (finished ++ top :: rest).Sublist (finished ++ found :: top :: rest) :=
    (List.Sublist.refl finished).append ((List.Sublist.refl _).cons found)
  have members : ∀ node, node ∈ finished ++ found :: top :: rest ↔ node = found ∨ node ∈ finished ++ top :: rest := by
    simp only [mem_append, mem_cons]
    tauto
  constructor
  · have unique := invariant.nodup
    simp only [seen] at unique ⊢
    rw [nodup_middle, nodup_cons]
    exact ⟨fresh, unique⟩
  · have last := invariant.last
    simp only [seen] at last ⊢
    rw [getLast?_append]
    rwa [getLast?_append] at last
  · exact invariant.path.cons_cons taken
  · intro node inside distinct
    rcases (members node).mp inside with rfl | old
    · refine ⟨top, taken, List.Sublist.trans ?_ (sublist_append_right finished _)⟩
      exact (singleton_sublist.mpr mem_cons_self).cons_cons node
    · obtain ⟨parent, leads, earlier⟩ := invariant.parent node old distinct
      exact ⟨parent, leads, earlier.trans grows⟩
  · intro node inside next leads
    obtain ⟨known, settled⟩ := invariant.finished node inside next leads
    exact ⟨(members next).mpr (.inr known), settled.mono grows⟩

theorem walk_of_stack {above below : List Node} {top bottom : Node}
    (path : (top :: above ++ bottom :: below).IsChain fun later earlier => edge earlier later) :
    IsWalk edge bottom top (top :: above ++ [bottom]).reverse where
  chain := by
    have split : top :: above ++ bottom :: below = (top :: above ++ [bottom]) ++ below := by simp
    rw [split] at path
    rw [isChain_reverse]
    exact path.left_of_append
  first := by simp
  last := by rw [getLast?_reverse, cons_append, head?_cons]

theorem settled_of_top {top : Node}
    (path : (top :: rest).IsChain fun later earlier => edge earlier later) (known : next ∈ finished ++ top :: rest) :
    Settled edge (finished ++ top :: rest) top next := by
  rcases mem_append.mp known with old | onStack
  · have pair : ([next] ++ [top]).Sublist (finished ++ top :: rest) :=
      (singleton_sublist.mpr old).append (singleton_sublist.mpr mem_cons_self)
    exact .inl pair
  · right
    rcases mem_cons.mp onStack with rfl | below
    · refine ⟨[next], ⟨isChain_singleton next, rfl, rfl⟩, fun passed inside => ?_⟩
      exact .inl (mem_singleton.mp inside)
    · obtain ⟨above, deeper, rfl⟩ := append_of_mem below
      refine ⟨_, walk_of_stack path, fun passed inside => ?_⟩
      rw [mem_reverse, mem_append, mem_singleton] at inside
      refine inside.symm.imp id fun higher => ?_
      have pair : ([passed] ++ [next]).Sublist ((top :: above) ++ next :: deeper) :=
        (singleton_sublist.mpr higher).append (singleton_sublist.mpr mem_cons_self)
      exact pair.trans (sublist_append_right finished _)

theorem Invariant.finish {top : Node}
    (invariant : Invariant edge root ⟨finished, top :: rest⟩)
    (explored : ∀ next, edge top next → next ∈ finished ++ top :: rest) :
    Invariant edge root ⟨finished ++ [top], rest⟩ := by
  have same : seen ⟨finished ++ [top], rest⟩ = seen ⟨finished, top :: rest⟩ := by simp [seen]
  constructor
  · rw [same]
    exact invariant.nodup
  · rw [same]
    exact invariant.last
  · exact invariant.path.tail
  · rw [same]
    exact invariant.parent
  · rw [same]
    intro node inside next leads
    rcases mem_append.mp inside with old | now
    · exact invariant.finished node old next leads
    · obtain rfl := mem_singleton.mp now
      have known := explored next leads
      exact ⟨known, settled_of_top invariant.path known⟩

section Completed

variable {order : List Node} (completed : Invariant edge root ⟨order, []⟩)
include completed

theorem mem_order_of_reaches (reached : Relation.ReflTransGen edge root node) : node ∈ order := by
  induction reached with
  | refl => simpa [seen] using mem_of_getLast? completed.last
  | tail _ leads ih => simpa [seen] using (completed.finished _ ih _ leads).1

variable [DecidableEq Node]

theorem idxOf_lt_of_pair (pair : [node, next].Sublist order) : order.idxOf node < order.idxOf next := by
  have unique : order.Nodup := by simpa [seen] using completed.nodup
  clear completed
  induction order with
  | nil => cases pair
  | cons head rest ih =>
    obtain ⟨fresh, unique⟩ := nodup_cons.mp unique
    cases pair with
    | cons _ later =>
      have first : head ≠ node := fun same => fresh (same ▸ later.subset (by simp))
      have second : head ≠ next := fun same => fresh (same ▸ later.subset (by simp))
      rw [idxOf_cons_ne _ first, idxOf_cons_ne _ second]
      exact Nat.succ_lt_succ (ih later unique)
    | cons_cons _ later =>
      have second : node ≠ next := fun same => fresh (same ▸ later.subset (by simp))
      rw [idxOf_cons_self, idxOf_cons_ne _ second]
      exact Nat.succ_pos _

theorem reaches_of_mem_order (inside : node ∈ order) : Relation.ReflTransGen edge root node := by
  induction gap : order.length - order.idxOf node using Nat.strong_induction_on generalizing node with
  | _ gap ih =>
    by_cases atRoot : node = root
    · rw [atRoot]
    · obtain ⟨parent, leads, pair⟩ := completed.parent node (by simpa [seen] using inside) atRoot
      have later := idxOf_lt_of_pair completed (by simpa [seen] using pair)
      have known : parent ∈ order := by simpa [seen] using pair.subset (by simp)
      have bound := idxOf_lt_length_of_mem known
      exact (ih _ (by omega) known rfl).tail leads

theorem descending_of_completed : Descending edge root order.idxOf where
  parent := by
    intro node reached distinct
    have inside := mem_order_of_reaches completed reached
    obtain ⟨parent, leads, pair⟩ := completed.parent node (by simpa [seen] using inside) distinct
    have known : parent ∈ order := by simpa [seen] using pair.subset (by simp)
    exact ⟨parent, reaches_of_mem_order completed known, leads, idxOf_lt_of_pair completed (by simpa [seen] using pair)⟩
  top := by
    intro node reached
    obtain ⟨front, same⟩ := getLast?_eq_some_iff.mp completed.last
    have shape : order = front ++ [root] := by simpa [seen] using same
    have inside := mem_order_of_reaches completed reached
    by_cases atRoot : node = root
    · rw [atRoot]
    · have before : node ∈ front := by simpa [shape, atRoot] using inside
      have pair : ([node] ++ [root]).Sublist order := by
        rw [shape]
        exact (singleton_sublist.mpr before).append (List.Sublist.refl _)
      exact (idxOf_lt_of_pair completed pair).le

end Completed

end Search

end SmartPerf.Data
