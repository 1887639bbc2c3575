import Godis.Program.Prog

/-!
# Operations that may break off

A program can also be run where an operation itself may not return.  It then ends there, in the
state the operation left.
-/

namespace Program

/-- What one operation answers, if it does, and does to the state. -/
abbrev Breaker {Op : Type} (Answer : Op → Type) (Stop σ : Type) :=
  (op : Op) → σ → Except Stop (Answer op) × σ

namespace Prog

variable {Op : Type} {Answer : Op → Type} {Stop α β σ τ : Type}

def perform (handle : Breaker Answer Stop σ) : Prog Answer Stop α → σ → Except Stop α × σ
  | .pure value, state => (.ok value, state)
  | .call op next, state =>
    andThen (handle op state) fun answer => (next answer).perform handle
  | .stop reason, state => (.error reason, state)

variable {Inv : σ → Prop} {ended : Except Stop α × σ} {rest : α → σ → Except Stop β × σ}
  {reason : Stop}

theorem andThen_preserves (holds : Inv ended.2)
    (keeps : ∀ value state, Inv state → Inv (rest value state).2) :
    Inv (andThen ended rest).2 := by
  obtain ⟨outcome, state⟩ := ended
  cases outcome with
  | ok value => exact keeps value state holds
  | error reason => exact holds

theorem andThen_fst_error (failed : ended.1 = .error reason) :
    (andThen ended rest).1 = .error reason := by
  obtain ⟨_, _⟩ := ended
  cases failed
  rfl

theorem andThen_fst_error_iff (goesOn : ∀ value state, ∃ last, (rest value state).1 = .ok last) :
    (andThen ended rest).1 = .error reason ↔ ended.1 = .error reason := by
  obtain ⟨outcome, state⟩ := ended
  cases outcome with
  | ok value =>
    obtain ⟨_, ok⟩ := goesOn value state
    rw [Prog.andThen_ok, ok]
    refine iff_of_false (fun failed => ?_) fun failed => ?_
    · cases failed
    · cases failed
  | error _ =>
    rw [andThen_error, Except.error.injEq, Except.error.injEq]

theorem andThen_eq_ok {value : β} {after : σ} (ok : andThen ended rest = (.ok value, after)) :
    ∃ first state, ended = (.ok first, state) ∧ rest first state = (.ok value, after) := by
  obtain ⟨outcome, state⟩ := ended
  cases outcome with
  | ok first => exact ⟨first, state, rfl, ok⟩
  | error reason => cases ok

@[simp]
theorem perform_bind (handle : Breaker Answer Stop σ) (program : Prog Answer Stop α)
    (rest : α → Prog Answer Stop β) (state : σ) :
    (program >>= rest).perform handle state =
      andThen (program.perform handle state) fun value => (rest value).perform handle := by
  change (program.bind rest).perform handle state = _
  induction program generalizing state with
  | pure value => rfl
  | call op next ih =>
    simp only [Prog.bind, perform]
    generalize handle op state = answered
    obtain ⟨outcome, after⟩ := answered
    cases outcome with
    | ok answer => exact ih answer after
    | error reason => rfl
  | stop reason => rfl

theorem perform_preserves {handle : Breaker Answer Stop σ}
    (keeps : ∀ op state, Inv state → Inv (handle op state).2) (program : Prog Answer Stop α)
    {state : σ} (holds : Inv state) :
    Inv (program.perform handle state).2 := by
  induction program generalizing state with
  | pure value | stop reason => exact holds
  | call op next ih =>
    exact andThen_preserves (keeps op state holds) fun answer _ => ih answer

end Prog

end Program

