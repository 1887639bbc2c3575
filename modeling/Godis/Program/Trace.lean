import Godis.Program.Prog

/-!
# What a run emits

Every operation may emit something; a run emits what its operations do, one after the other.
-/

namespace Program.Prog

variable {Op Op' : Type} {Answer : Op → Type} {Answer' : Op' → Type} {Stop α β σ ε : Type}

def trace (handle : Handler Answer σ) (emits : Op → σ → List ε) :
    Prog Answer Stop α → σ → List ε
  | .pure _, _ => []
  | .call op next, state =>
    emits op state ++ (next (handle op state).1).trace handle emits (handle op state).2
  | .stop _, _ => []

def following (ended : Except Stop α × σ) (rest : α → σ → List ε) : List ε :=
  match ended.1 with
  | .ok value => rest value ended.2
  | .error _ => []

variable {state : σ}

variable (ended : Except Stop α × σ)

theorem following_nil :
    following ended (fun _ _ => ([] : List ε)) = [] := by
  obtain ⟨outcome, _⟩ := ended
  cases outcome with
  | ok value => rfl
  | error reason => rfl

theorem flatMap_following (rest : α → σ → List β) (each : β → List ε) :
    (following ended rest).flatMap each =
      following ended fun value state => (rest value state).flatMap each := by
  obtain ⟨outcome, _⟩ := ended
  cases outcome with
  | ok value => rfl
  | error reason => rfl

variable {handle : Handler Answer σ} {emits : Op → σ → List ε}

theorem trace_bind {program : Prog Answer Stop α} (rest : α → Prog Answer Stop β) :
    (program >>= rest).trace handle emits state =
      program.trace handle emits state ++
        following (program.run handle state) fun value => (rest value).trace handle emits := by
  change (program.bind rest).trace handle emits state = _
  induction program generalizing state with
  | pure value => rfl
  | call op next ih =>
    simp only [Prog.bind, trace, run, List.append_assoc]
    rw [ih]
  | stop reason => rfl

variable {program : Prog Answer Stop α} {rest : α → Prog Answer Stop β}

theorem Uses.trace_nil {Silent : Op → Prop} (silent : ∀ op state, Silent op → emits op state = [])
    (uses : program.Uses Silent) (state : σ) :
    program.trace handle emits state = [] := by
  induction program generalizing state with
  | pure value => rfl
  | call op next ih =>
    rw [trace, silent op state uses.1]
    exact ih _ (uses.2 _) _
  | stop reason => rfl

theorem trace_bind_of_nil {state : σ} (silent : program.trace handle emits state = []) :
    (program >>= rest).trace handle emits state =
      following (program.run handle state) fun value => (rest value).trace handle emits := by
  rw [trace_bind, silent, List.nil_append]

theorem trace_bind_of_rest_nil (silent : ∀ value later, (rest value).trace handle emits later = []) :
    (program >>= rest).trace handle emits state = program.trace handle emits state := by
  have nothing : (fun value => (rest value).trace handle emits) = fun _ _ => [] :=
    funext fun value => funext (silent value)
  rw [trace_bind, nothing, following_nil, List.append_nil]

end Program.Prog

