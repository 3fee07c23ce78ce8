import Mathlib.Tactic

namespace SmartPerf.Data

/-! Runs of a step function over a list of events. -/

variable {State Event : Type*} {step : State → Event → State} {events : List Event}

/-- A property of the state and the event holds at every step of the run. -/
def Along (step : State → Event → State) (holds : State → Event → Prop) : State → List Event → Prop
  | _, [] => True
  | state, event :: rest => holds state event ∧ Along step holds (step state event) rest

/-- Two properties that agree wherever the invariant holds, one of which keeps the
invariant, hold along the same runs. -/
theorem along_iff {claimed admitted : State → Event → Prop} (invariant : State → List Event → Prop)
    (agree : ∀ state event rest, invariant state (event :: rest) → (claimed state event ↔ admitted state event))
    (keeps : ∀ state event rest, invariant state (event :: rest) → admitted state event →
      invariant (step state event) rest) {state : State} (initial : invariant state events) :
    Along step claimed state events ↔ Along step admitted state events := by
  induction events generalizing state with
  | nil => exact Iff.rfl
  | cons event rest ih =>
    simp only [Along, agree state event rest initial]
    exact and_congr_right fun admits => ih (keeps state event rest initial admits)

/-- What an admitted step from an invariant state has holds along every run of admitted steps, if they
keep the invariant. -/
theorem along_of_invariant {admitted claimed : State → Event → Prop} (invariant : State → Prop)
    (keeps : ∀ state event, invariant state → admitted state event → invariant (step state event))
    (entails : ∀ state event, invariant state → admitted state event → claimed state event)
    {state : State} (initial : invariant state) (admits : Along step admitted state events) :
    Along step claimed state events := by
  induction events generalizing state with
  | nil => trivial
  | cons event rest ih =>
    exact ⟨entails state event initial admits.1, ih (keeps state event initial admits.1) admits.2⟩

end SmartPerf.Data
