import Mathlib.Tactic

/-!
# Reachable states of a transition system
-/

namespace Transition

variable {State Event : Type} (step : State → Event → Option State) (start : State → Prop)
  (allowed : State → Event → Prop)

/-- The states reached from a start state by allowed events. -/
inductive Reached : State → Prop
  | start {state : State} : start state → Reached state
  | step {state state' : State} (event : Event) : Reached state → allowed state event →
      step state event = some state' → Reached state'

variable {step start allowed}

theorem Reached.invariant {Inv : State → Prop} (initially : ∀ state, start state → Inv state)
    (keeps : ∀ state event state', Inv state → allowed state event →
      step state event = some state' → Inv state')
    {state : State} (reached : Reached step start allowed state) : Inv state := by
  induction reached with
  | start started => exact initially _ started
  | step event _ okay taken inv => exact keeps _ event _ inv okay taken

variable (step allowed)

/-- A run through the given events, which ends at the first that is not allowed. -/
def runAllowed [∀ state event, Decidable (allowed state event)] : State → List Event → Option State
  | state, [] => some state
  | state, event :: rest =>
    if allowed state event then (step state event).bind fun state => runAllowed state rest
    else none

variable {step allowed}

theorem Reached.of_run [∀ state event, Decidable (allowed state event)] {state state' : State}
    (reached : Reached step start allowed state) {events : List Event}
    (run : runAllowed step allowed state events = some state') :
    Reached step start allowed state' := by
  induction events generalizing state with
  | nil => exact Option.some.inj run ▸ reached
  | cons event rest ih =>
    rw [runAllowed] at run
    split at run
    · obtain ⟨_, taken, run⟩ := Option.bind_eq_some_iff.mp run
      exact ih (reached.step event ‹_› taken) run
    · cases run

/-- Steps taken in turn: their results, and the state they lead to. -/
def inTurn {σ α ρ : Type} (step : α → σ → ρ × σ) : List α → σ → List ρ × σ
  | [], state => ([], state)
  | first :: rest, state =>
    let later := inTurn step rest (step first state).2
    ((step first state).1 :: later.1, later.2)

end Transition
