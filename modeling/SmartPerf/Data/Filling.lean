import Mathlib.Tactic

namespace SmartPerf.Data

open List

/-! A buffer to which amounts are added and that is emptied as soon as it holds at least a limit. -/

variable {limit : Nat}

def heldAfter (limit : Nat) : Nat → List Nat → Nat
  | held, [] => held
  | held, amount :: rest => heldAfter limit (if limit ≤ held + amount then 0 else held + amount) rest

/-- The amounts reach the limit, and they do so with the last one. -/
structure Fills (limit : Nat) (amounts : List Nat) : Prop where
  reached : limit ≤ amounts.sum
  before : amounts.dropLast.sum < limit

/-- The amounts are cut into runs that each fill the buffer. -/
inductive FillsUp (limit : Nat) : List Nat → Prop
  | nil : FillsUp limit []
  | append {run rest : List Nat} (fills : Fills limit run) (others : FillsUp limit rest) : FillsUp limit (run ++ rest)

section
variable (positive : 0 < limit) {amount : Nat} {rest : List Nat}
include positive

theorem Fills.singleton (reached : limit ≤ amount) : Fills limit [amount] :=
  ⟨by rwa [sum_singleton], positive⟩

theorem FillsUp.exists_run (fills : FillsUp limit (amount :: rest)) :
    ∃ run others, rest = run ++ others ∧ Fills limit (amount :: run) ∧ FillsUp limit others := by
  generalize whole : amount :: rest = amounts at fills
  cases fills with
  | nil => cases whole
  | @append run others first more =>
    cases run with
    | nil => exact absurd first.reached (not_le.mpr positive)
    | cons head tail =>
      obtain ⟨rfl, rfl⟩ := List.cons.inj whole
      exact ⟨tail, others, rfl, first, more⟩

theorem fillsUp_cons_of_le (reached : limit ≤ amount) :
    FillsUp limit (amount :: rest) ↔ FillsUp limit rest := by
  refine ⟨fun fills => ?_, fun fills => .append (.singleton positive reached) fills⟩
  obtain ⟨run, others, rfl, first, more⟩ := fills.exists_run positive
  cases run with
  | nil => exact more
  | cons next tail =>
    have before := first.before
    rw [dropLast_cons_of_ne_nil (cons_ne_nil _ _), sum_cons] at before
    omega

theorem fillsUp_cons_cons_of_lt {amount next : Nat} (below : amount < limit) :
    FillsUp limit (amount :: next :: rest) ↔ FillsUp limit ((amount + next) :: rest) := by
  have joined : ∀ run : List Nat, Fills limit (amount :: next :: run) ↔ Fills limit ((amount + next) :: run) := by
    intro run
    cases run with
    | nil => exact ⟨fun fills => ⟨by simpa using fills.reached, positive⟩, fun fills => ⟨by simpa using fills.reached, by simpa⟩⟩
    | cons head tail =>
      constructor
      · intro fills
        exact ⟨by simpa [add_assoc] using fills.reached, by simpa [add_assoc] using fills.before⟩
      · intro fills
        exact ⟨by simpa [add_assoc] using fills.reached, by simpa [add_assoc] using fills.before⟩
  constructor
  · intro fills
    obtain ⟨run, others, whole, first, more⟩ := fills.exists_run positive
    cases run with
    | nil =>
      have reached := first.reached
      rw [sum_singleton] at reached
      omega
    | cons head tail =>
      obtain ⟨rfl, rfl⟩ := List.cons.inj whole
      exact .append ((joined tail).mp first) more
  · intro fills
    obtain ⟨run, others, rfl, first, more⟩ := fills.exists_run positive
    exact .append ((joined run).mpr first) more

theorem heldAfter_eq_zero_iff (held amount : Nat) (rest : List Nat)
    (some_amounts : ∀ added ∈ amount :: rest, 0 < added) :
    heldAfter limit held (amount :: rest) = 0 ↔ FillsUp limit ((held + amount) :: rest) := by
  have some_amount := some_amounts amount mem_cons_self
  induction rest generalizing held amount with
  | nil =>
    rw [heldAfter, heldAfter]
    split
    next reached => exact ⟨fun _ => .append (.singleton positive reached) .nil, fun _ => rfl⟩
    next below =>
      refine ⟨fun empty => by omega, fun fills => ?_⟩
      obtain ⟨run, others, whole, first, -⟩ := fills.exists_run positive
      obtain ⟨rfl, rfl⟩ := append_eq_nil_iff.mp whole.symm
      exact absurd first.reached (by simpa using below)
  | cons next rest ih =>
    have some_rest : ∀ added ∈ next :: rest, 0 < added := forall_mem_of_forall_mem_cons some_amounts
    rw [heldAfter]
    by_cases reached : limit ≤ held + amount
    · rw [if_pos reached, fillsUp_cons_of_le positive reached]
      have emptied := ih 0 next some_rest (some_rest next mem_cons_self)
      rwa [Nat.zero_add] at emptied
    · rw [if_neg reached, fillsUp_cons_cons_of_lt positive (not_le.mp reached)]
      exact ih (held + amount) next some_rest (some_rest next mem_cons_self)

end

end SmartPerf.Data
