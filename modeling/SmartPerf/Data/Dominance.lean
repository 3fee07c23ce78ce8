import Mathlib.Logic.Relation
import Mathlib.Tactic

namespace SmartPerf.Data

/-! Dominators of a graph with a root. -/

variable {Node : Type*} (edge : Node → Node → Prop) {root : Node}

/-- The nodes of a walk, from its first to its last. -/
structure IsWalk (first last : Node) (walk : List Node) : Prop where
  chain : walk.IsChain edge
  first : walk.head? = some first
  last : walk.getLast? = some last

def Dominates (root dominator node : Node) : Prop :=
  ∀ walk, IsWalk edge root node walk → dominator ∈ walk

/-- A dominator other than the node, which all dominators other than the node dominate. -/
structure ImmediateDominator (root dominator node : Node) : Prop where
  proper : dominator ≠ node
  dominates : Dominates edge root dominator node
  closest : ∀ other, other ≠ node → Dominates edge root other node → Dominates edge root other dominator

variable {edge} {avoided node other dominator : Node}

/-- The root reaches the node without passing `avoided`. -/
inductive Avoiding (edge : Node → Node → Prop) (root avoided : Node) : Node → Prop
  | root : root ≠ avoided → Avoiding edge root avoided root
  | step {node next : Node} : Avoiding edge root avoided node → edge node next → next ≠ avoided →
      Avoiding edge root avoided next

theorem IsWalk.append {first last next : Node} {walk : List Node} (isWalk : IsWalk edge first last walk)
    (step : edge last next) : IsWalk edge first next (walk ++ [next]) where
  chain := by
    refine List.IsChain.append isWalk.chain (List.isChain_singleton next) ?_
    intro end_ atEnd start atStart
    rw [isWalk.last] at atEnd
    obtain rfl := Option.some.inj atEnd
    obtain rfl : next = start := by simpa using atStart
    exact step
  first := by
    cases walk with
    | nil => cases isWalk.first
    | cons head rest => exact isWalk.first
  last := by simp

theorem avoiding_iff_walk : Avoiding edge root avoided node ↔ ∃ walk, IsWalk edge root node walk ∧ avoided ∉ walk := by
  constructor
  · intro avoiding
    induction avoiding with
    | root distinct => exact ⟨[root], ⟨List.isChain_singleton root, rfl, rfl⟩, by simpa using Ne.symm distinct⟩
    | step _ next distinct ih =>
      obtain ⟨walk, isWalk, outside⟩ := ih
      exact ⟨_, isWalk.append next, by simp [outside, Ne.symm distinct]⟩
  · intro ⟨walk, isWalk, outside⟩
    induction walk using List.reverseRecOn generalizing node with
    | nil => cases isWalk.first
    | append_singleton front final ih =>
      obtain rfl : final = node := by simpa using isWalk.last
      rw [List.mem_append, List.mem_singleton, not_or] at outside
      cases last : front.getLast? with
      | none =>
        rw [List.getLast?_eq_none_iff] at last
        subst last
        obtain rfl : final = root := by simpa using isWalk.first
        exact .root (Ne.symm outside.2)
      | some before =>
        have chain := List.isChain_append.mp isWalk.chain
        have first : front.head? = some root := by
          cases front with
          | nil => cases last
          | cons head rest => exact isWalk.first
        exact .step (ih ⟨chain.1, first, last⟩ outside.1) (chain.2.2 before last final rfl) (Ne.symm outside.2)

theorem dominates_iff_not_avoiding : Dominates edge root dominator node ↔ ¬ Avoiding edge root dominator node := by
  rw [avoiding_iff_walk]
  constructor
  · intro dominates ⟨walk, isWalk, outside⟩
    exact outside (dominates walk isWalk)
  · intro unavoidable walk isWalk
    by_contra outside
    exact unavoidable ⟨walk, isWalk, outside⟩

theorem Avoiding.ne (avoiding : Avoiding edge root avoided node) : node ≠ avoided := by
  cases avoiding with
  | root distinct => exact distinct
  | step _ _ distinct => exact distinct

theorem dominates_self (node : Node) : Dominates edge root node node :=
  dominates_iff_not_avoiding.mpr fun avoiding => avoiding.ne rfl

theorem root_dominates (node : Node) : Dominates edge root root node :=
  fun _ isWalk => List.mem_of_mem_head? isWalk.first

theorem eq_root_of_dominates_root (dominates : Dominates edge root dominator root) : dominator = root := by
  by_contra distinct
  exact dominates_iff_not_avoiding.mp dominates (.root (Ne.symm distinct))

theorem Avoiding.passes (avoiding : Avoiding edge root avoided node) (other : Node) :
    Avoiding edge root other node ∨ Avoiding edge root avoided other := by
  induction avoiding with
  | root distinct =>
    by_cases same : root = other
    · exact .inr (same ▸ .root distinct)
    · exact .inl (.root same)
  | @step _ next before taken distinct ih =>
    by_cases same : next = other
    · exact .inr (same ▸ .step before taken distinct)
    · exact ih.imp (fun also => .step also taken same) id

theorem Dominates.trans (first : Dominates edge root dominator other) (second : Dominates edge root other node) :
    Dominates edge root dominator node := by
  rw [dominates_iff_not_avoiding] at *
  intro avoiding
  rcases avoiding.passes other with passed | reached
  · exact second passed
  · exact first reached

theorem Dominates.of_edge (dominates : Dominates edge root dominator node) (distinct : dominator ≠ node)
    (leads : edge other node) : Dominates edge root dominator other := by
  rw [dominates_iff_not_avoiding] at *
  exact fun avoiding => dominates (.step avoiding leads (Ne.symm distinct))

section Descending

/-- Every node but the root is led to by a node with a greater number. -/
structure Descending (edge : Node → Node → Prop) (root : Node) (number : Node → Nat) : Prop where
  parent : ∀ node, Relation.ReflTransGen edge root node → node ≠ root →
    ∃ parent, Relation.ReflTransGen edge root parent ∧ edge parent node ∧ number node < number parent
  top : ∀ node, Relation.ReflTransGen edge root node → number node ≤ number root

variable {number : Node → Nat}

theorem Descending.number_lt (descending : Descending edge root number)
    (reached : Relation.ReflTransGen edge root node) (dominates : Dominates edge root dominator node)
    (distinct : dominator ≠ node) : number node < number dominator := by
  induction gap : number root - number node using Nat.strong_induction_on generalizing node with
  | _ gap ih =>
    by_cases atRoot : node = root
    · subst atRoot
      exact absurd (eq_root_of_dominates_root dominates) distinct
    · obtain ⟨parent, parentReached, leads, above⟩ := descending.parent node reached atRoot
      have below := descending.top parent parentReached
      by_cases same : dominator = parent
      · rwa [same]
      · have higher := ih _ (by omega) parentReached (dominates.of_edge distinct leads) same rfl
        omega

theorem Descending.number_le (descending : Descending edge root number)
    (reached : Relation.ReflTransGen edge root node) (dominates : Dominates edge root dominator node) :
    number node ≤ number dominator := by
  by_cases same : dominator = node
  · rw [same]
  · exact (descending.number_lt reached dominates same).le

theorem Dominates.reached (dominates : Dominates edge root dominator node)
    (reached : Relation.ReflTransGen edge root node) : Relation.ReflTransGen edge root dominator := by
  induction reached with
  | refl =>
    rw [eq_root_of_dominates_root dominates]
  | @tail before after prior leads ih =>
    by_cases same : dominator = after
    · exact same ▸ prior.tail leads
    · exact ih (dominates.of_edge same leads)

theorem ImmediateDominator.unique (descending : Descending edge root number)
    (reached : Relation.ReflTransGen edge root node) (first : ImmediateDominator edge root dominator node)
    (second : ImmediateDominator edge root other node) : dominator = other := by
  by_contra distinct
  have forward := second.closest dominator first.proper first.dominates
  have backward := first.closest other second.proper second.dominates
  have up := descending.number_lt (second.dominates.reached reached) forward distinct
  have down := descending.number_lt (first.dominates.reached reached) backward (Ne.symm distinct)
  omega

theorem ImmediateDominator.dominates_iff (immediate : ImmediateDominator edge root dominator node)
    (distinct : other ≠ node) : Dominates edge root other node ↔ Dominates edge root other dominator :=
  ⟨immediate.closest other distinct, fun dominates => dominates.trans immediate.dominates⟩

/-- What leads to a node from greater numbers has no other common dominators than the node. -/
def Timely (edge : Node → Node → Prop) (root : Node) (number : Node → Nat) : Prop :=
  ∀ node, Relation.ReflTransGen edge root node → node ≠ root → ∀ dominator,
    (∀ before, edge before node → number node < number before → Dominates edge root dominator before) →
      Dominates edge root dominator node

/-- The dominators of `meet` are the common dominators of some nodes that lead to the node, among them
all with greater numbers: then `meet` is the immediate dominator. -/
theorem Timely.immediateDominator (timely : Timely edge root number) (descending : Descending edge root number)
    {meet : Node} (leading : Node → Prop) (reached : Relation.ReflTransGen edge root node) (inner : node ≠ root)
    (sound : ∀ before, leading before → edge before node)
    (complete : ∀ before, edge before node → number node < number before → leading before)
    (common : ∀ other, Dominates edge root other meet ↔ ∀ before, leading before → Dominates edge root other before) :
    ImmediateDominator edge root meet node where
  proper := by
    intro same
    obtain ⟨parent, parentReached, leads, above⟩ := descending.parent node reached inner
    have dominated := (common meet).mp (dominates_self meet) parent (complete parent leads above)
    rw [same] at dominated
    have below := descending.number_le parentReached dominated
    omega
  dominates := by
    apply timely node reached inner
    intro before leads above
    exact (common meet).mp (dominates_self meet) before (complete before leads above)
  closest := by
    intro other different dominates
    rw [common]
    exact fun before leads => dominates.of_edge different (sound before leads)

end Descending

end SmartPerf.Data
