import Mathlib.Data.List.Sort
import Mathlib.Tactic

namespace SmartPerf.Data

open List

/-! Stable sorting by a key. A stable sort is told apart from all other arrangements by two facts: the keys do not
decrease, and the items of each key stand in the order in which they came. -/

variable {Item Key : Type*} [LinearOrder Key] (key : Item → Key)

def stableSort (items : List Item) : List Item := items.insertionSort fun left right => key left ≤ key right

def InOrder (items : List Item) : Prop := items.Pairwise fun left right => key left ≤ key right

def SameRanks (left right : List Item) : Prop :=
  ∀ rank, left.filter (fun item => key item = rank) = right.filter fun item => key item = rank

variable {key} {items left right more : List Item}

theorem SameRanks.mem {item : Item} (same : SameRanks key left right) (listed : item ∈ left) : item ∈ right := by
  have ranked : item ∈ left.filter fun other => key other = key item := by simp [listed]
  rw [same (key item)] at ranked
  exact (mem_filter.mp ranked).1

theorem SameRanks.refl (items : List Item) : SameRanks key items items := fun _ => rfl

theorem SameRanks.symm (same : SameRanks key left right) : SameRanks key right left := fun rank => (same rank).symm

theorem SameRanks.trans {others : List Item} (first : SameRanks key left right) (second : SameRanks key right others) :
    SameRanks key left others := fun rank => (first rank).trans (second rank)

theorem SameRanks.append {front back : List Item} (first : SameRanks key left right) (second : SameRanks key front back) :
    SameRanks key (left ++ front) (right ++ back) := by
  intro rank
  rw [filter_append, filter_append, first rank, second rank]

theorem stableSort_perm : (stableSort key items).Perm items := perm_insertionSort _ _

instance total_le : Std.Total fun left right : Item => key left ≤ key right := ⟨fun _ _ => le_total _ _⟩

instance isTrans_le : IsTrans Item fun left right => key left ≤ key right := ⟨fun _ _ _ => le_trans⟩

theorem stableSort_inOrder : InOrder key (stableSort key items) := pairwise_insertionSort _ _

theorem stableSort_sameRanks : SameRanks key (stableSort key items) items := by
  intro rank
  have level : (items.filter fun item => key item = rank).Pairwise fun left right => key left ≤ key right := by
    refine pairwise_of_forall_mem_list fun first in_first second in_second => ?_
    have first_rank := of_decide_eq_true (mem_filter.mp in_first).2
    have second_rank := of_decide_eq_true (mem_filter.mp in_second).2
    rw [first_rank, second_rank]
  have sublist : (items.filter fun item => key item = rank).Sublist (stableSort key items) :=
    sublist_insertionSort level filter_sublist
  have filtered := sublist.filter fun item => key item = rank
  rw [filter_filter] at filtered
  simp only [Bool.and_self] at filtered
  exact (filtered.eq_of_length_le (stableSort_perm.filter _).length_eq.le).symm

theorem InOrder.eq_of_sameRanks (left_order : InOrder key left) (right_order : InOrder key right)
    (same : SameRanks key left right) : left = right := by
  induction left generalizing right with
  | nil =>
    cases right with
    | nil => rfl
    | cons first rest => exact absurd (same.symm.mem mem_cons_self) not_mem_nil
  | cons first rest ih =>
    cases right with
    | nil => exact absurd (same.mem mem_cons_self) not_mem_nil
    | cons other others =>
      obtain ⟨first_le, rest_order⟩ := pairwise_cons.mp left_order
      obtain ⟨other_le, others_order⟩ := pairwise_cons.mp right_order
      have ranks : key first = key other := by
        refine le_antisymm ?_ ?_
        · rcases mem_cons.mp (same.symm.mem mem_cons_self) with rfl | listed
          · exact le_rfl
          · exact first_le other listed
        · rcases mem_cons.mp (same.mem mem_cons_self) with rfl | listed
          · exact le_rfl
          · exact other_le first listed
      have heads := same (key first)
      rw [filter_cons_of_pos (by simp), filter_cons_of_pos (by simp [ranks])] at heads
      obtain ⟨rfl, -⟩ := List.cons.inj heads
      refine congrArg _ (ih rest_order others_order fun rank => ?_)
      have level := same rank
      by_cases here : key first = rank
      · rw [filter_cons_of_pos (by simp [here]), filter_cons_of_pos (by simp [here])] at level
        exact (List.cons.inj level).2
      · rw [filter_cons_of_neg (by simp [here]), filter_cons_of_neg (by simp [here])] at level
        exact level

theorem InOrder.eq_stableSort (order : InOrder key left) (same : SameRanks key left items) : left = stableSort key items :=
  order.eq_of_sameRanks stableSort_inOrder (same.trans stableSort_sameRanks.symm)

theorem SameRanks.filter (same : SameRanks key left right) (keep : Item → Bool) :
    SameRanks key (left.filter keep) (right.filter keep) := by
  intro rank
  rw [filter_comm, same rank, filter_comm]

theorem stableSort_filter (keep : Item → Bool) : (stableSort key items).filter keep = stableSort key (items.filter keep) :=
  InOrder.eq_stableSort (List.Pairwise.filter keep stableSort_inOrder) (stableSort_sameRanks.filter keep)

theorem SameRanks.perm (same : SameRanks key left right) : left.Perm right := by
  have sorted : stableSort key left = stableSort key right :=
    stableSort_inOrder.eq_stableSort (stableSort_sameRanks.trans same)
  exact (stableSort_perm.symm.trans (by rw [sorted])).trans stableSort_perm

end SmartPerf.Data
