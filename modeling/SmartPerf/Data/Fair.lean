import Mathlib.Tactic

namespace SmartPerf.Data

/-! Infinite runs under a fair schedule. -/

variable {State Party : Type*} {step : State → Party → State} {start : State} {schedule : Nat → Party}

def trajectory (step : State → Party → State) (start : State) (schedule : Nat → Party) : Nat → State
  | 0 => start
  | time + 1 => step (trajectory step start schedule time) (schedule time)

def Fair (parties : Set Party) (schedule : Nat → Party) : Prop :=
  ∀ party ∈ parties, ∀ time, ∃ later, time ≤ later ∧ schedule later = party

theorem trajectory_invariant {invariant : State → Prop} (initial : invariant start)
    (keeps : ∀ state party, invariant state → invariant (step state party)) (time : Nat) :
    invariant (trajectory step start schedule time) := by
  induction time with
  | zero => exact initial
  | succ time ih => exact keeps _ _ ih

section Ranking

variable {ranked : Nat → State → Prop} {helpful : State → Party → Prop}
  (lowers : ∀ rank state party acting, ranked rank state → helpful state party →
    (∃ lower < rank, ranked lower (step state acting)) ∨
      acting ≠ party ∧ ranked rank (step state acting) ∧ helpful (step state acting) party)

include lowers

theorem rank_falls {rank : Nat} {party : Party} (time distance : Nat)
    (initial : ranked rank (trajectory step start schedule time))
    (helps : helpful (trajectory step start schedule time) party) (acts : schedule (time + distance) = party) :
    ∃ lower < rank, ∃ later, ranked lower (trajectory step start schedule later) := by
  induction distance generalizing time with
  | zero =>
    rcases lowers rank _ party (schedule time) initial helps with ⟨lower, less, next⟩ | ⟨different, _⟩
    · exact ⟨lower, less, time + 1, next⟩
    · exact absurd acts different
  | succ distance ih =>
    rcases lowers rank _ party (schedule time) initial helps with ⟨lower, less, next⟩ | ⟨_, next, helps⟩
    · exact ⟨lower, less, time + 1, next⟩
    · refine ih (time + 1) next helps ?_
      rw [← acts]
      congr 1
      omega

/-- A goal is reached under every fair schedule if, outside of it, some party is helpful: each
step lowers the rank, or keeps the rank and the party helpful, and a step of the helpful party
lowers the rank. -/
theorem Fair.eventually {parties : Set Party} (fair : Fair parties schedule) {goal : State → Prop}
    (helped : ∀ rank state, ranked rank state → ¬ goal state → ∃ party ∈ parties, helpful state party)
    {rank time : Nat} (initial : ranked rank (trajectory step start schedule time)) :
    ∃ later, goal (trajectory step start schedule later) := by
  induction rank using Nat.strong_induction_on generalizing time with
  | _ rank ih =>
    by_cases reached : goal (trajectory step start schedule time)
    · exact ⟨time, reached⟩
    obtain ⟨party, member, helps⟩ := helped rank _ initial reached
    obtain ⟨later, after, acts⟩ := fair party member time
    obtain ⟨distance, rfl⟩ := Nat.exists_eq_add_of_le after
    obtain ⟨lower, less, next, ranked⟩ := rank_falls lowers time distance initial helps acts
    exact ih lower less ranked

end Ranking

end SmartPerf.Data
