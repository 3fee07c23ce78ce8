import Mathlib.Tactic

namespace SmartPerf.Data

open List

/-! Two lists in the order of their keys are walked together, and what only one of them has is handed
to the operation for that side. -/

variable {α State View : Type*} {key : α → Nat}

def walkBoth (key : α → Nat) (onLeft onRight : State → α → State) : Nat → List α → List α → State → State
  | 0, _, _, state => state
  | _ + 1, [], rights, state => rights.foldl onRight state
  | _ + 1, left :: lefts, [], state => (left :: lefts).foldl onLeft state
  | rounds + 1, left :: lefts, right :: rights, state =>
    if key left < key right then walkBoth key onLeft onRight rounds lefts (right :: rights) (onLeft state left)
    else if key left > key right then walkBoth key onLeft onRight rounds (left :: lefts) rights (onRight state right)
    else walkBoth key onLeft onRight rounds lefts rights state

def onlyIn (key : α → Nat) (items others : List α) : List α :=
  items.filter fun item => decide (key item ∉ others.map key)

theorem onlyIn_nil (items : List α) : onlyIn key items [] = items := by
  simp [onlyIn]

theorem onlyIn_map {β : Type*} (key : α → Nat) (other : β → Nat) (change : α → β) (same : ∀ item, other (change item) = key item)
    (items others : List α) :
    onlyIn other (items.map change) (others.map change) = (onlyIn key items others).map change := by
  simp only [onlyIn, filter_map, map_map, Function.comp_def, same]

variable {left right : α} {lefts rights : List α}

def Ascending (key : α → Nat) (items : List α) : Prop := items.Pairwise fun first second => key first < key second

theorem Ascending.notMem_of_lt {bound : Nat} (ascending : Ascending key (right :: rights)) (less : bound < key right) :
    bound ∉ (right :: rights).map key := by
  intro inside
  obtain ⟨item, member, same⟩ := mem_map.mp inside
  rcases mem_cons.mp member with rfl | later
  · omega
  · have above := rel_of_pairwise_cons ascending later
    omega

theorem onlyIn_drop_right (ascending : Ascending key (left :: lefts)) (less : key right < key left) :
    onlyIn key (left :: lefts) (right :: rights) = onlyIn key (left :: lefts) rights := by
  refine filter_congr fun item inside => ?_
  have distinct : key item ≠ key right := by
    intro same
    exact ascending.notMem_of_lt less (same ▸ mem_map_of_mem inside)
  simp [distinct]

theorem onlyIn_cons_of_eq (ascending : Ascending key (left :: lefts)) (same : key left = key right) :
    onlyIn key (left :: lefts) (right :: rights) = onlyIn key lefts rights := by
  rw [onlyIn, filter_cons_of_neg (by simp [same])]
  refine filter_congr fun item inside => ?_
  have above := rel_of_pairwise_cons ascending inside
  have distinct : key item ≠ key right := by omega
  simp [distinct]

section View

variable (onLeft onRight : State → α → State) (view : State → View) (op : View → α → View)

theorem walkBoth_left (moves : ∀ state item, view (onLeft state item) = op (view state) item)
    (keeps : ∀ state item, view (onRight state item) = view state) {rounds : Nat} (state : State)
    (leftAscending : Ascending key lefts) (rightAscending : Ascending key rights)
    (enough : lefts.length + rights.length < rounds) :
    view (walkBoth key onLeft onRight rounds lefts rights state) = (onlyIn key lefts rights).foldl op (view state) := by
  induction rounds generalizing lefts rights state with
  | zero => omega
  | succ rounds ih =>
    cases lefts with
    | nil =>
      have kept := @foldl_hom _ _ _ view onRight (fun shown _ => shown) rights state fun state item =>
        (keeps state item).symm
      rw [walkBoth, ← kept, foldl_fixed]
      rfl
    | cons left lefts =>
      cases rights with
      | nil =>
        rw [walkBoth, onlyIn_nil]
        exact (foldl_hom view fun state item => (moves state item).symm).symm
      | cons right rights =>
        simp only [length_cons] at enough
        rcases Nat.lt_trichotomy (key left) (key right) with less | same | greater
        · rw [walkBoth, if_pos less, ih _ leftAscending.of_cons rightAscending (by simp only [length_cons]; omega),
            onlyIn, onlyIn, filter_cons, if_pos (decide_eq_true (rightAscending.notMem_of_lt less)), foldl_cons, moves]
        · rw [walkBoth, if_neg (by omega), if_neg (by omega),
            ih _ leftAscending.of_cons rightAscending.of_cons (by omega), onlyIn_cons_of_eq leftAscending same]
        · rw [walkBoth, if_neg (by omega), if_pos greater,
            ih _ leftAscending rightAscending.of_cons (by simp only [length_cons]; omega),
            onlyIn_drop_right leftAscending greater, keeps]

theorem walkBoth_comm {rounds : Nat} (state : State) (enough : lefts.length + rights.length < rounds) :
    walkBoth key onLeft onRight rounds lefts rights state = walkBoth key onRight onLeft rounds rights lefts state := by
  induction rounds generalizing lefts rights state with
  | zero => omega
  | succ rounds ih =>
    cases lefts with
    | nil =>
      cases rights with
      | nil => rfl
      | cons right rights => rfl
    | cons left lefts =>
      cases rights with
      | nil => rfl
      | cons right rights =>
        simp only [length_cons] at enough
        rcases Nat.lt_trichotomy (key left) (key right) with less | same | greater
        · rw [walkBoth, if_pos less, walkBoth, if_neg (by omega), if_pos less]
          exact ih _ (by simp only [length_cons]; omega)
        · rw [walkBoth, if_neg (by omega), if_neg (by omega), walkBoth, if_neg (by omega), if_neg (by omega)]
          exact ih _ (by omega)
        · rw [walkBoth, if_neg (by omega), if_pos greater, walkBoth, if_pos greater]
          exact ih _ (by simp only [length_cons]; omega)

end View

end SmartPerf.Data
