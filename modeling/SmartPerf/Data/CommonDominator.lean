import SmartPerf.Data.Dominance

namespace SmartPerf.Data

/-! The lowest common dominator of two nodes, by climbing from both of them along a table of immediate
dominators. The nodes are numbered such that a dominator has a greater number than what it dominates. -/

def intersect (above : Nat → Nat) : Nat → Nat → Nat → Option Nat
  | 0, _, _ => none
  | fuel + 1, left, right =>
    if left = right then some left
    else if left < right then intersect above fuel (above left) right
    else intersect above fuel left (above right)

variable {Node : Type*} {edge : Node → Node → Prop} {root : Node} {name : Nat → Node} {number : Node → Nat} {count : Nat}

/-- The nodes that the root reaches are numbered from below, and the root is the last one. -/
structure Numbering (edge : Node → Node → Prop) (root : Node) (name : Nat → Node) (number : Node → Nat)
    (count : Nat) : Prop where
  descending : Descending edge root number
  reached : ∀ index < count, Relation.ReflTransGen edge root (name index)
  number_name : ∀ index < count, number (name index) = index
  named : ∀ node, Relation.ReflTransGen edge root node → number node < count ∧ name (number node) = node
  last : number root + 1 = count

def Exact (edge : Node → Node → Prop) (root : Node) (name : Nat → Node) (count : Nat) (above : Nat → Nat)
    (index : Nat) : Prop :=
  above index < count ∧ ImmediateDominator edge root (name (above index)) (name index)

namespace Numbering

variable (numbering : Numbering edge root name number count) {above : Nat → Nat}
include numbering

theorem name_root : name (number root) = root := (numbering.named root .refl).2

theorem number_lt {index : Nat} {dominator : Node} (below : index < count)
    (dominates : Dominates edge root dominator (name index)) (distinct : dominator ≠ name index) :
    index < number dominator := by
  have above := numbering.descending.number_lt (numbering.reached index below) dominates distinct
  rwa [numbering.number_name index below] at above

theorem above_gt {index : Nat} (below : index < count) (exact : Exact edge root name count above index) :
    index < above index := by
  obtain ⟨inside, immediate⟩ := exact
  have greater := numbering.number_lt below immediate.dominates immediate.proper
  rwa [numbering.number_name _ inside] at greater

theorem not_dominates {low high : Nat} (ordered : low < high) (below : high < count) :
    ¬ Dominates edge root (name low) (name high) := by
  intro dominates
  have distinct : name low ≠ name high := by
    intro same
    have numbers := congrArg number same
    rw [numbering.number_name low (by omega), numbering.number_name high below] at numbers
    omega
  have greater := numbering.number_lt below dominates distinct
  rw [numbering.number_name low (by omega)] at greater
  omega

theorem common_above {low high : Nat} (ordered : low < high) (below : high < count)
    (exact : Exact edge root name count above low) (dominator : Node) :
    Dominates edge root dominator (name (above low)) ∧ Dominates edge root dominator (name high) ↔
      Dominates edge root dominator (name low) ∧ Dominates edge root dominator (name high) := by
  by_cases same : dominator = name low
  · subst same
    have apart := numbering.not_dominates ordered below
    simp [apart]
  · rw [exact.2.dominates_iff same]

theorem intersect_spec {low : Nat}
    (exact : ∀ index, low ≤ index → index < number root → Exact edge root name count above index) (fuel : Nat)
    {left right : Nat} (leftLow : low ≤ left) (leftBelow : left < count) (rightLow : low ≤ right)
    (rightBelow : right < count) (enough : (count - left) + (count - right) < fuel) :
    ∃ meet, intersect above fuel left right = some meet ∧ low ≤ meet ∧ meet < count ∧
      ∀ dominator, Dominates edge root dominator (name meet) ↔
        Dominates edge root dominator (name left) ∧ Dominates edge root dominator (name right) := by
  induction fuel generalizing left right with
  | zero => omega
  | succ fuel ih =>
    have last := numbering.last
    rcases Nat.lt_trichotomy left right with less | same | greater
    · have climbs := exact left leftLow (by omega)
      have higher := numbering.above_gt leftBelow climbs
      obtain ⟨meet, found, meetLow, meetBelow, common⟩ :=
        ih (show low ≤ above left by omega) climbs.1 rightLow rightBelow (by have := climbs.1; omega)
      refine ⟨meet, ?_, meetLow, meetBelow, fun dominator => ?_⟩
      · rw [intersect, if_neg (by omega), if_pos less, found]
      · rw [common, numbering.common_above less rightBelow climbs]
    · subst same
      exact ⟨left, by rw [intersect, if_pos rfl], leftLow, leftBelow, fun _ => (and_self_iff).symm⟩
    · have climbs := exact right rightLow (by omega)
      have higher := numbering.above_gt rightBelow climbs
      obtain ⟨meet, found, meetLow, meetBelow, common⟩ :=
        ih leftLow leftBelow (show low ≤ above right by omega) climbs.1 (by have := climbs.1; omega)
      refine ⟨meet, ?_, meetLow, meetBelow, fun dominator => ?_⟩
      · rw [intersect, if_neg (by omega), if_neg (by omega), found]
      · rw [common, and_comm, numbering.common_above greater leftBelow climbs, and_comm]

end Numbering

end SmartPerf.Data
