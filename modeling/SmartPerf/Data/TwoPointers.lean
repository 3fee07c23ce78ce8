import Mathlib.Data.List.ProdSigma
import Mathlib.Tactic

namespace SmartPerf.Data

open List

/-! Walking through two lists with one pointer in each: the pointer with the smaller key moves, the right one if the keys
are equal, until one list is at its end. -/

variable {Left Right Key : Type*} [LinearOrder Key] {leftKey : Left → Key} {rightKey : Right → Key}

def visits (leftKey : Left → Key) (rightKey : Right → Key) : List Left → List Right → List (Left × Right)
  | [], _ => []
  | _ :: _, [] => []
  | left :: lefts, right :: rights =>
    (left, right) ::
      if leftKey left < rightKey right then visits leftKey rightKey lefts (right :: rights)
      else visits leftKey rightKey (left :: lefts) rights
termination_by lefts rights => lefts.length + rights.length

/-- The items in front of a pair let the pointers come together on it: each is overtaken by the other side in time. -/
structure Meets (leftKey : Left → Key) (rightKey : Right → Key) (before : List Left) (left : Left) (earlier : List Right)
    (right : Right) : Prop where
  lefts : ∀ passed ∈ before, ∃ other ∈ earlier ++ [right], leftKey passed < rightKey other
  rights : ∀ passed ∈ earlier, ∃ other ∈ before ++ [left], rightKey passed ≤ leftKey other

variable {rights : List Right}

variable {lefts : List Left}

theorem Meets.of_visits {left : Left} {right : Right}
    (visited : (left, right) ∈ visits leftKey rightKey lefts rights) :
    ∃ before after earlier later, lefts = before ++ left :: after ∧ rights = earlier ++ right :: later ∧
      Meets leftKey rightKey before left earlier right := by
  fun_induction visits leftKey rightKey lefts rights with
  | case1 rights => cases visited
  | case2 first lefts => cases visited
  | case3 first lefts second rights ih_left ih_right =>
    rcases mem_cons.mp visited with here | later
    · obtain ⟨rfl, rfl⟩ := Prod.mk.inj here
      exact ⟨[], lefts, [], rights, rfl, rfl, ⟨by simp, by simp⟩⟩
    by_cases smaller : leftKey first < rightKey second
    · rw [if_pos smaller] at later
      obtain ⟨before, after, earlier, behind, rfl, whole, meets⟩ := ih_left later
      refine ⟨first :: before, after, earlier, behind, rfl, whole, ⟨?_, ?_⟩⟩
      · intro passed listed
        rcases mem_cons.mp listed with rfl | inside
        · refine ⟨second, ?_, smaller⟩
          cases earlier with
          | nil => rw [(List.cons.inj whole).1]; exact mem_cons_self
          | cons head tail => rw [(List.cons.inj whole).1]; exact mem_cons_self
        · exact meets.lefts passed inside
      · intro passed listed
        obtain ⟨other, inside, order⟩ := meets.rights passed listed
        exact ⟨other, mem_cons_of_mem _ inside, order⟩
    · rw [if_neg smaller] at later
      obtain ⟨before, after, earlier, behind, whole, rfl, meets⟩ := ih_right later
      refine ⟨before, after, second :: earlier, behind, whole, rfl, ⟨?_, ?_⟩⟩
      · intro passed listed
        obtain ⟨other, inside, order⟩ := meets.lefts passed listed
        exact ⟨other, mem_cons_of_mem _ inside, order⟩
      · intro passed listed
        rcases mem_cons.mp listed with rfl | inside
        · refine ⟨first, ?_, not_lt.mp smaller⟩
          cases before with
          | nil => rw [(List.cons.inj whole).1]; exact mem_cons_self
          | cons head tail => rw [(List.cons.inj whole).1]; exact mem_cons_self
        · exact meets.rights passed inside

theorem Meets.visits {before after : List Left} {left : Left} {earlier later : List Right} {right : Right}
    (meets : Meets leftKey rightKey before left earlier right) :
    (left, right) ∈ visits leftKey rightKey (before ++ left :: after) (earlier ++ right :: later) := by
  generalize left_length : before.length + earlier.length = count
  induction count generalizing before earlier with
  | zero =>
    obtain rfl : before = [] := length_eq_zero_iff.mp (by omega)
    obtain rfl : earlier = [] := length_eq_zero_iff.mp (by omega)
    rw [nil_append, nil_append, Data.visits]
    exact mem_cons_self
  | succ count ih =>
    cases before with
    | nil =>
      cases earlier with
      | nil => simp at left_length
      | cons second earlier =>
        -- the first of the other side must go, since nothing on this side may
        obtain ⟨other, is_left, order⟩ := meets.rights second mem_cons_self
        rw [nil_append, mem_singleton] at is_left
        subst is_left
        rw [nil_append, cons_append, Data.visits, if_neg (not_lt.mpr order)]
        refine mem_cons_of_mem _ (@ih [] _ ⟨by simp, ?_⟩ (by simpa using left_length))
        exact forall_mem_of_forall_mem_cons meets.rights
    | cons first before =>
      cases earlier with
      | nil =>
        obtain ⟨other, is_right, order⟩ := meets.lefts first mem_cons_self
        rw [nil_append, mem_singleton] at is_right
        subst is_right
        rw [nil_append, cons_append, Data.visits, if_pos order]
        refine mem_cons_of_mem _ (@ih _ [] ⟨?_, by simp⟩ (by simpa using left_length))
        exact forall_mem_of_forall_mem_cons meets.lefts
      | cons second earlier =>
        rw [cons_append, cons_append, Data.visits]
        by_cases smaller : leftKey first < rightKey second
        · rw [if_pos smaller]
          refine mem_cons_of_mem _ (@ih _ (second :: earlier) ⟨?_, ?_⟩ (by simp at left_length ⊢; omega))
          · exact forall_mem_of_forall_mem_cons meets.lefts
          · -- what the passed item overtook is overtaken again behind it
            obtain ⟨greater, is_left, order⟩ := meets.rights second mem_cons_self
            have behind : greater ∈ before ++ [left] := by
              rcases mem_cons.mp is_left with rfl | inside
              · exact absurd smaller (not_lt.mpr order)
              · exact inside
            intro passed listed
            obtain ⟨other, inside, passed_order⟩ := meets.rights passed listed
            rcases mem_cons.mp inside with rfl | inside
            · exact ⟨greater, behind, (passed_order.trans smaller.le).trans order⟩
            · exact ⟨other, inside, passed_order⟩
        · rw [if_neg smaller]
          refine mem_cons_of_mem _ (@ih (first :: before) _ ⟨?_, ?_⟩ (by simp at left_length ⊢; omega))
          · obtain ⟨greater, is_right, order⟩ := meets.lefts first mem_cons_self
            have behind : greater ∈ earlier ++ [right] := by
              rcases mem_cons.mp is_right with rfl | inside
              · exact absurd order smaller
              · exact inside
            intro passed listed
            obtain ⟨other, inside, passed_order⟩ := meets.lefts passed listed
            rcases mem_cons.mp inside with rfl | inside
            · exact ⟨greater, behind, (passed_order.trans_le (not_lt.mp smaller)).trans order⟩
            · exact ⟨other, inside, passed_order⟩
          · exact forall_mem_of_forall_mem_cons meets.rights

/-- A relation that does not hold for a pair once one of its sides has been passed. -/
structure Overtaken (leftKey : Left → Key) (rightKey : Right → Key) (related : Left → Right → Bool) (lefts : List Left)
    (rights : List Right) : Prop where
  passedLeft : rights.Pairwise fun right later => ∀ left ∈ lefts, leftKey left < rightKey right → related left later = false
  passedRight : lefts.Pairwise fun left later => ∀ right ∈ rights, rightKey right ≤ leftKey left → related later right = false

theorem product_cons_right_perm (lefts : List Left) (right : Right) (rights : List Right) :
    (lefts ×ˢ (right :: rights)).Perm (lefts.map (fun left => (left, right)) ++ lefts ×ˢ rights) := by
  induction lefts with
  | nil => rw [nil_product]; rfl
  | cons left lefts ih =>
    rw [product_cons, product_cons, map_cons, map_cons, cons_append, cons_append]
    refine List.Perm.cons _ ?_
    refine (ih.append_left _).trans ?_
    rw [← append_assoc, ← append_assoc]
    exact perm_append_comm.append_right _

theorem visits_filter_perm {related : Left → Right → Bool}
    (overtaken : Overtaken leftKey rightKey related lefts rights) :
    ((visits leftKey rightKey lefts rights).filter fun pair => related pair.1 pair.2).Perm
      ((lefts ×ˢ rights).filter fun pair => related pair.1 pair.2) := by
  fun_induction visits leftKey rightKey lefts rights with
  | case1 rights => rw [nil_product]
  | case2 first lefts => rw [product_nil]
  | case3 first lefts second rights ih_left ih_right =>
    by_cases smaller : leftKey first < rightKey second
    · have tail : Overtaken leftKey rightKey related lefts (second :: rights) :=
        ⟨overtaken.passedLeft.imp forall_mem_of_forall_mem_cons, (pairwise_cons.mp overtaken.passedRight).2⟩
      have no_more : (rights.map fun right => (first, right)).filter (fun pair => related pair.1 pair.2) = [] := by
        refine filter_eq_nil_iff.mpr fun pair listed => ?_
        obtain ⟨right, inside, rfl⟩ := mem_map.mp listed
        rw [Bool.not_eq_true]
        exact (pairwise_cons.mp overtaken.passedLeft).1 right inside first mem_cons_self smaller
      rw [if_pos smaller, product_cons, map_cons, cons_append, filter_cons, filter_cons, filter_append, no_more]
      split
      · exact (ih_left tail).cons _
      · exact ih_left tail
    · have tail : Overtaken leftKey rightKey related (first :: lefts) rights :=
        ⟨(pairwise_cons.mp overtaken.passedLeft).2, overtaken.passedRight.imp forall_mem_of_forall_mem_cons⟩
      have no_more : (lefts.map fun left => (left, second)).filter (fun pair => related pair.1 pair.2) = [] := by
        refine filter_eq_nil_iff.mpr fun pair listed => ?_
        obtain ⟨left, inside, rfl⟩ := mem_map.mp listed
        rw [Bool.not_eq_true]
        exact (pairwise_cons.mp overtaken.passedRight).1 left inside second mem_cons_self (not_lt.mp smaller)
      refine List.Perm.trans ?_ ((product_cons_right_perm (first :: lefts) second rights).filter _).symm
      rw [if_neg smaller, map_cons, cons_append, filter_cons, filter_cons, filter_append, no_more]
      split
      · exact (ih_right tail).cons _
      · exact ih_right tail

end SmartPerf.Data
