import Mathlib.Tactic

namespace SmartPerf.Data

/-! Input that arrives in pieces. -/

variable {State Item : Type*}

def feedAll (deliver : State → List Item → Option State) : State → List (List Item) → Option State
  | state, [] => some state
  | state, piece :: rest => (deliver state piece).bind fun state => feedAll deliver state rest

theorem feedAll_invariant {deliver : State → List Item → Option State} {Holds : State → List (List Item) → Prop}
    (step : ∀ state piece rest, Holds state (piece :: rest) → ∃ next, deliver state piece = some next ∧ Holds next rest)
    {state : State} {pieces : List (List Item)} (start : Holds state pieces) :
    ∃ last, feedAll deliver state pieces = some last ∧ Holds last [] := by
  induction pieces generalizing state with
  | nil => exact ⟨state, rfl, start⟩
  | cons piece rest ih =>
    obtain ⟨next, delivered, holds⟩ := step state piece rest start
    obtain ⟨last, result, final⟩ := ih holds
    refine ⟨last, ?_, final⟩
    rw [feedAll, delivered]
    exact result

theorem arrived_cons {buffer future front rest : List Item} (arrived : buffer ++ future = front ++ rest)
    (long : front.length ≤ buffer.length) : ∃ left, buffer = front ++ left ∧ left ++ future = rest := by
  refine ⟨buffer.drop front.length, ?_, ?_⟩
  · have taken : (buffer ++ future).take front.length = front := by rw [arrived, List.take_left]
    rw [List.take_append_of_le_length long] at taken
    nth_rewrite 1 [← List.take_append_drop front.length buffer]
    rw [taken]
  · rw [← List.drop_append_of_le_length long, arrived, List.drop_left]

theorem future_ne_nil {buffer future awaited : List Item} (arrived : buffer ++ future = awaited)
    (short : buffer.length < awaited.length) : future ≠ [] := by
  intro none
  rw [none, List.append_nil] at arrived
  rw [arrived] at short
  exact lt_irrefl _ short

end SmartPerf.Data
