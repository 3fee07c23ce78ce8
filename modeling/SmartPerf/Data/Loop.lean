import Mathlib.Logic.Function.Iterate
import Mathlib.Tactic

namespace SmartPerf.Data

/-! Loops with a bound on their rounds. -/

variable {State : Type*}

/-- A loop in which each round lowers the rank is over after as many rounds. -/
theorem iterate_done (invariant : State → Prop) (step : State → State) (busy : State → Prop) (rank : State → Nat)
    (keeps : ∀ state, invariant state → invariant (step state))
    (falls : ∀ state, invariant state → busy state → rank (step state) < rank state)
    (rests : ∀ state, ¬ busy state → step state = state) {state : State} (initial : invariant state) {rounds : Nat}
    (enough : rank state ≤ rounds) : invariant (step^[rounds] state) ∧ ¬ busy (step^[rounds] state) := by
  have general : ∀ rounds, invariant (step^[rounds] state) ∧
      (¬ busy (step^[rounds] state) ∨ rank (step^[rounds] state) + rounds ≤ rank state) := by
    intro rounds
    induction rounds with
    | zero => exact ⟨initial, .inr le_rfl⟩
    | succ rounds ih =>
      obtain ⟨kept, progress⟩ := ih
      rw [Function.iterate_succ_apply']
      refine ⟨keeps _ kept, ?_⟩
      by_cases working : busy (step^[rounds] state)
      · have less := falls _ kept working
        have spent := progress.resolve_left (not_not_intro working)
        exact .inr (by omega)
      · rw [rests _ working]
        exact .inl working
  obtain ⟨kept, progress⟩ := general rounds
  refine ⟨kept, fun working => ?_⟩
  have less := falls _ kept working
  have spent := progress.resolve_left (not_not_intro working)
  omega

/-- Marking an item takes its weight from the sum over what is not marked. -/
theorem sum_unmarked_update (marked : Nat → Bool) {item bound : Nat} (below : item < bound) (fresh : marked item = false)
    (weight : Nat → Nat) :
    (∑ other ∈ Finset.range bound, bif Function.update marked item true other then 0 else weight other) + weight item =
      ∑ other ∈ Finset.range bound, bif marked other then 0 else weight other := by
  have member : item ∈ Finset.range bound := Finset.mem_range.mpr below
  rw [← Finset.sum_erase_add _ _ member, ← Finset.sum_erase_add (Finset.range bound) (fun other =>
    bif marked other then 0 else weight other) member]
  simp only [Function.update_self, cond_true, Nat.add_zero, fresh]
  congr 1
  refine Finset.sum_congr rfl fun other inside => ?_
  rw [Function.update_of_ne (Finset.ne_of_mem_erase inside)]

end SmartPerf.Data
