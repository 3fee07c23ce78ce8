import Mathlib.Logic.Relation
import Mathlib.Tactic

namespace SmartPerf.Data

open List Function

/-! Sums over the subtrees of a tree that is given by the parents of its nodes. The nodes are visited
children first, and each one adds what it has collected to its parent. -/

open Relation

variable {Node : Type*} {parent : Node → Node}

/-- Some nodes below are visited, and following their parents leads from one node to the other. -/
def Climbs (parent : Node → Node) (visited : List Node) : Node → Node → Prop :=
  ReflTransGen fun node above => node ∈ visited ∧ above = parent node

variable {visited : List Node} {node low high : Node}

theorem Climbs.eq_of_notMem (climbs : Climbs parent visited low high) (outside : low ∉ visited) : high = low := by
  cases climbs.cases_head with
  | inl same => exact same.symm
  | inr step =>
    obtain ⟨_, ⟨inside, _⟩, _⟩ := step
    exact absurd inside outside

theorem climbs_append (later : parent node ∉ visited ++ [node]) :
    Climbs parent (visited ++ [node]) low high ↔
      Climbs parent visited low high ∨ high = parent node ∧ Climbs parent visited low node := by
  constructor
  · intro climbs
    induction climbs with
    | refl => exact .inl .refl
    | @tail current next _ step ih =>
      obtain ⟨inside, rfl⟩ := step
      rcases ih with before | ⟨same, _⟩
      · rcases mem_append.mp inside with old | now
        · exact .inl (before.tail ⟨old, rfl⟩)
        · obtain rfl := mem_singleton.mp now
          exact .inr ⟨rfl, before⟩
      · exact absurd (same ▸ inside) later
  · intro climbs
    have grows : ∀ {low high}, Climbs parent visited low high → Climbs parent (visited ++ [node]) low high :=
      fun climbs => climbs.lift id fun _ _ step => ⟨mem_append_left _ step.1, step.2⟩
    rcases climbs with before | ⟨rfl, before⟩
    · exact grows before
    · exact (grows before).tail ⟨by simp, rfl⟩

theorem climbs_disjoint (fresh : node ∉ visited) (later : parent node ∉ visited ++ [node])
    (toParent : Climbs parent visited low (parent node)) (toNode : Climbs parent visited low node) : False := by
  have unique : Relator.RightUnique fun node above => node ∈ visited ∧ above = parent node :=
    fun _ _ _ first second => first.2.trans second.2.symm
  have distinct : parent node ≠ node := by
    intro same
    rw [same] at later
    simp at later
  have parentFresh : parent node ∉ visited := fun inside => later (mem_append_left _ inside)
  rcases ReflTransGen.total_of_right_unique unique toParent toNode with down | up
  · exact distinct (Climbs.eq_of_notMem down parentFresh).symm
  · exact distinct (Climbs.eq_of_notMem up fresh)

open Classical in
noncomputable def subtreeSum (nodes : Finset Node) (parent : Node → Node) (sizes : Node → Nat) (visited : List Node)
    (high : Node) : Nat :=
  ∑ low ∈ nodes with Climbs parent visited low high, sizes low

variable (nodes : Finset Node)

variable (sizes : Node → Nat)

theorem subtreeSum_nil (inside : node ∈ nodes) :
    subtreeSum nodes parent sizes [] node = sizes node := by
  classical
  rw [subtreeSum, Finset.sum_eq_single_of_mem node (Finset.mem_filter.mpr ⟨inside, .refl⟩)]
  intro low member distinct
  have climbs := (Finset.mem_filter.mp member).2
  exact absurd (climbs.eq_of_notMem (by simp)).symm distinct

variable [DecidableEq Node]

def pushUp (parent : Node → Node) (sizes : Node → Nat) (node : Node) : Node → Nat :=
  update sizes (parent node) (sizes (parent node) + sizes node)

theorem subtreeSum_append (fresh : node ∉ visited)
    (later : parent node ∉ visited ++ [node]) :
    subtreeSum nodes parent sizes (visited ++ [node]) = pushUp parent (subtreeSum nodes parent sizes visited) node := by
  classical
  funext high
  by_cases above : high = parent node
  · subst above
    rw [pushUp, update_self]
    simp only [subtreeSum, climbs_append later, true_and]
    rw [Finset.filter_or, Finset.sum_union]
    rw [Finset.disjoint_filter]
    exact fun low _ toParent toNode => climbs_disjoint fresh later toParent toNode
  · rw [pushUp]
    simp [subtreeSum, climbs_append later, above]

omit [DecidableEq Node] in
def ParentsLater (parent : Node → Node) (visited : List Node) : Prop :=
  ∀ before node after, visited = before ++ node :: after → parent node ∉ before ++ [node]

theorem pushUp_foldl {sizes : Node → Nat} {collected : Node → Nat}
    (initial : ∀ node ∈ nodes, collected node = sizes node) (unique : visited.Nodup)
    (later : ParentsLater parent visited) (inside : ∀ node ∈ visited, node ∈ nodes ∧ parent node ∈ nodes)
    (member : high ∈ nodes) :
    visited.foldl (pushUp parent) collected high = subtreeSum nodes parent sizes visited high := by
  induction visited using List.reverseRecOn generalizing high with
  | nil => rw [foldl_nil, initial high member, subtreeSum_nil nodes sizes member]
  | append_singleton before node ih =>
    have split := nodup_append.mp unique
    have fresh : node ∉ before := fun known => split.2.2 node known node (mem_singleton_self node) rfl
    have earlier : ParentsLater parent before := by
      intro front current rest shape
      exact later front current (rest ++ [node]) (by simp [shape])
    have known := fun {high} => @ih high split.1 earlier fun other early => inside other (mem_append_left _ early)
    obtain ⟨nodeInside, parentInside⟩ := inside node (by simp)
    rw [foldl_concat, subtreeSum_append nodes sizes fresh (later before node [] rfl)]
    by_cases above : high = parent node
    · subst above
      rw [pushUp, pushUp, update_self, update_self, known parentInside, known nodeInside]
    · rw [pushUp, pushUp, update_of_ne above, update_of_ne above, known member]

end SmartPerf.Data
