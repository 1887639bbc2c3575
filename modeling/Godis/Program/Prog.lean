import Mathlib.Tactic

/-!
# Programs over a store

A program asks an interface for operations, goes on with their answers and ends with a value,
or breaks off.  The interface is given meaning by a handler, and one program can be run against
several handlers: what holds of a handler's single operations holds of every program.
-/

namespace Program

inductive Prog {Op : Type} (Answer : Op → Type) (Stop : Type) (α : Type) where
  | pure (value : α)
  | call (op : Op) (next : Answer op → Prog Answer Stop α)
  | stop (reason : Stop)

/-- What one operation answers and does to the state. -/
abbrev Handler {Op : Type} (Answer : Op → Type) (σ : Type) :=
  (op : Op) → σ → Answer op × σ

namespace Prog

variable {Op Op' : Type} {Answer : Op → Type} {Answer' : Op' → Type}
variable {Stop α β σ τ : Type}

protected def bind : Prog Answer Stop α → (α → Prog Answer Stop β) → Prog Answer Stop β
  | .pure value, rest => rest value
  | .call op next, rest => .call op fun answer => (next answer).bind rest
  | .stop reason, _ => .stop reason

instance : Monad (Prog Answer Stop) where
  pure := .pure
  bind := Prog.bind

theorem bind_pure_eq (program : Prog Answer Stop α) :
    program.bind .pure = program := by
  induction program with
  | pure value => rfl
  | call op next ih =>
    simp only [Prog.bind, call.injEq, heq_eq_eq, true_and]
    exact funext ih
  | stop reason => rfl

theorem bind_bind_eq {γ : Type} (program : Prog Answer Stop α) (rest : α → Prog Answer Stop β)
    (last : β → Prog Answer Stop γ) :
    (program.bind rest).bind last = program.bind fun value => (rest value).bind last := by
  induction program with
  | pure value => rfl
  | call op next ih =>
    simp only [Prog.bind, call.injEq, heq_eq_eq, true_and]
    exact funext ih
  | stop reason => rfl

instance : LawfulMonad (Prog Answer Stop) :=
  LawfulMonad.mk' _ bind_pure_eq (fun _ _ => rfl) bind_bind_eq

def ask (op : Op) : Prog Answer Stop (Answer op) :=
  .call op .pure

def translate (send : Op → Op') (receive : ∀ op, Answer' (send op) → Answer op) :
    Prog Answer Stop α → Prog Answer' Stop α
  | .pure value => .pure value
  | .call op next => .call (send op) fun answer =>
    (next (receive op answer)).translate send receive
  | .stop reason => .stop reason

/-- Run a program: how it ends, and the state it leaves. -/
def run (handle : Handler Answer σ) : Prog Answer Stop α → σ → Except Stop α × σ
  | .pure value, state => (.ok value, state)
  | .call op next, state => (next (handle op state).1).run handle (handle op state).2
  | .stop reason, state => (.error reason, state)

def andThen (ended : Except Stop α × σ) (rest : α → σ → Except Stop β × σ) :
    Except Stop β × σ :=
  match ended.1 with
  | .ok value => rest value ended.2
  | .error reason => (.error reason, ended.2)

@[simp]
theorem andThen_ok (value : α) (state : σ) (rest : α → σ → Except Stop β × σ) :
    andThen (.ok value, state) rest = rest value state :=
  rfl

@[simp]
theorem andThen_error (reason : Stop) (state : σ) (rest : α → σ → Except Stop β × σ) :
    andThen (.error reason, state) rest = (.error reason, state) :=
  rfl

@[simp]
theorem run_bind (handle : Handler Answer σ) (program : Prog Answer Stop α)
    (rest : α → Prog Answer Stop β) (state : σ) :
    (program >>= rest).run handle state =
      andThen (program.run handle state) fun value => (rest value).run handle := by
  induction program generalizing state with
  | pure value => rfl
  | call op next ih => exact ih (handle op state).1 (handle op state).2
  | stop reason => rfl

theorem run_translate (handle : Handler Answer' σ) (send : Op → Op')
    (receive : ∀ op, Answer' (send op) → Answer op) (program : Prog Answer Stop α) (state : σ) :
    (program.translate send receive).run handle state =
      program.run (fun op s => (receive op (handle (send op) s).1, (handle (send op) s).2))
        state := by
  induction program generalizing state with
  | pure value => rfl
  | call op next ih => exact ih _ _
  | stop reason => rfl

theorem translate_bind (send : Op → Op') (receive : ∀ op, Answer' (send op) → Answer op)
    (program : Prog Answer Stop α) (rest : α → Prog Answer Stop β) :
    (program >>= rest).translate send receive =
      program.translate send receive >>= fun value => (rest value).translate send receive := by
  change (program.bind rest).translate send receive = (program.translate send receive).bind _
  induction program with
  | pure value => rfl
  | call op next ih =>
    simp only [Prog.bind, translate, call.injEq, heq_eq_eq, true_and]
    exact funext fun answer => ih (receive op answer)
  | stop reason => rfl

def Uses (Allowed : Op → Prop) : Prog Answer Stop α → Prop
  | .pure _ => True
  | .call op next => Allowed op ∧ ∀ answer, (next answer).Uses Allowed
  | .stop _ => True

section Uses

variable {Allowed : Op → Prop}

@[simp]
theorem uses_ask {op : Op} : (ask op : Prog Answer Stop (Answer op)).Uses Allowed ↔ Allowed op :=
  and_iff_left fun _ => trivial

variable {program : Prog Answer Stop α} {handle : Handler Answer σ} {state : σ}

theorem Uses.bind {rest : α → Prog Answer Stop β} (first : program.Uses Allowed)
    (later : ∀ value, (rest value).Uses Allowed) :
    (program >>= rest).Uses Allowed := by
  induction program with
  | pure value => exact later value
  | call op next ih => exact ⟨first.1, fun answer => ih answer (first.2 answer)⟩
  | stop reason => trivial

theorem Uses.translate {Allowed' : Op' → Prop} {send : Op → Op'}
    {receive : ∀ op, Answer' (send op) → Answer op} (sent : ∀ op, Allowed op → Allowed' (send op))
    (uses : program.Uses Allowed) :
    (program.translate send receive).Uses Allowed' := by
  induction program with
  | pure value | stop reason => trivial
  | call op next ih => exact ⟨sent op uses.1, fun answer => ih _ (uses.2 _)⟩

theorem Uses.all (always : ∀ op, Allowed op) :
    program.Uses Allowed := by
  induction program with
  | pure value | stop reason => trivial
  | call op next ih => exact ⟨always op, ih⟩

theorem Uses.of_sent {Allowed' : Op' → Prop} {send : Op → Op'}
    {receive : ∀ op, Answer' (send op) → Answer op} (sent : ∀ op, Allowed' (send op)) :
    (program.translate send receive).Uses Allowed' :=
  Uses.translate (fun op _ => sent op) (Uses.all fun _ => trivial)

/-- Two handlers whose operations answer alike on related states run a program alike. -/
theorem Uses.run_related {handle' : Handler Answer τ} (Related : σ → τ → Prop)
    (alike : ∀ op state state', Allowed op → Related state state' →
      (handle op state).1 = (handle' op state').1 ∧
        Related (handle op state).2 (handle' op state').2) (uses : program.Uses Allowed)
    {state' : τ} (related : Related state state') :
    (program.run handle state).1 = (program.run handle' state').1 ∧
      Related (program.run handle state).2 (program.run handle' state').2 := by
  induction program generalizing state state' with
  | pure value | stop reason => exact ⟨rfl, related⟩
  | call op next ih =>
    obtain ⟨sameAnswer, stillRelated⟩ := alike op state state' uses.1 related
    simp only [run]
    rw [sameAnswer]
    exact ih _ (uses.2 _) stillRelated

theorem Uses.run_preserves (Inv : σ → Prop)
    (keeps : ∀ op state, Allowed op → Inv state → Inv (handle op state).2)
    (uses : program.Uses Allowed) (holds : Inv state) :
    Inv (program.run handle state).2 := by
  induction program generalizing state with
  | pure value | stop reason => exact holds
  | call op next ih => exact ih _ (uses.2 _) (keeps op state uses.1 holds)

theorem Uses.mono {Allowed' : Op → Prop} (uses : program.Uses Allowed)
    (weaker : ∀ op, Allowed op → Allowed' op) :
    program.Uses Allowed' := by
  induction program with
  | pure value | stop reason => trivial
  | call op next ih => exact ⟨weaker op uses.1, fun answer => ih answer (uses.2 answer)⟩

end Uses

section Rules

variable {handle : Handler Answer σ} {state : σ} {handle' : Handler Answer τ} {state' : τ}

theorem run_related (Related : σ → τ → Prop) (alike : ∀ op state state', Related state state' →
      (handle op state).1 = (handle' op state').1 ∧
        Related (handle op state).2 (handle' op state').2) (program : Prog Answer Stop α)
    (related : Related state state') :
    (program.run handle state).1 = (program.run handle' state').1 ∧
      Related (program.run handle state).2 (program.run handle' state').2 := by
  have all : program.Uses fun _ => True := .all fun _ => trivial
  exact all.run_related Related (fun op state state' _ => alike op state state') related

theorem run_translate_related {handle : Handler Answer' σ} {send : Op → Op'}
    {receive : ∀ op, Answer' (send op) → Answer op} (Related : σ → τ → Prop)
    (alike : ∀ op state state', Related state state' →
      receive op (handle (send op) state).1 = (handle' op state').1 ∧
        Related (handle (send op) state).2 (handle' op state').2) (program : Prog Answer Stop α)
    (related : Related state state') :
    ((program.translate send receive).run handle state).1 = (program.run handle' state').1 ∧
      Related ((program.translate send receive).run handle state).2
        (program.run handle' state').2 := by
  rw [run_translate]
  exact run_related Related alike program related

end Rules

def Ends (Good : Except Stop α → Prop) : Prog Answer Stop α → Prop
  | .pure value => Good (.ok value)
  | .call _ next => ∀ answer, (next answer).Ends Good
  | .stop reason => Good (.error reason)

section Ends

variable {Good : Except Stop β → Prop}

variable {program : Prog Answer Stop β}

theorem Ends.run (ends : program.Ends Good) (handle : Handler Answer σ) (state : σ) :
    Good (program.run handle state).1 := by
  induction program generalizing state with
  | pure value | stop reason => exact ends
  | call op next ih => exact ih _ (ends _) _

theorem Ends.bind {program : Prog Answer Stop α} {rest : α → Prog Answer Stop β}
    (first : program.Ends fun ended => ∃ value, ended = .ok value)
    (later : ∀ value, (rest value).Ends Good) : (program >>= rest).Ends Good := by
  induction program with
  | pure value => exact later value
  | call op next ih => exact fun answer => ih answer (first answer)
  | stop reason =>
    obtain ⟨_, impossible⟩ := first
    cases impossible

theorem Ends.translate {send : Op → Op'} {receive : ∀ op, Answer' (send op) → Answer op}
    (ends : program.Ends Good) :
    (program.translate send receive).Ends Good := by
  induction program with
  | pure value | stop reason => exact ends
  | call op next ih => exact fun answer => ih _ (ends _)

end Ends

def Yields (Good : α → Prop) : Prog Answer Stop α → Prop
  | .pure value => Good value
  | .call _ next => ∀ answer, (next answer).Yields Good
  | .stop _ => True

section Yields

variable {Good : β → Prop}

variable {program : Prog Answer Stop β}

theorem Yields.run (yields : program.Yields Good) {handle : Handler Answer σ} {state after : σ}
    {value : β} (ended : program.run handle state = (.ok value, after)) : Good value := by
  induction program generalizing state with
  | pure returned =>
    cases ended
    exact yields
  | call op next ih => exact ih _ (yields _) ended
  | stop reason => cases ended

theorem Yields.bind {First : α → Prop} {program : Prog Answer Stop α} {rest : α → Prog Answer Stop β}
    (first : program.Yields First) (later : ∀ value, First value → (rest value).Yields Good) :
    (program >>= rest).Yields Good := by
  induction program with
  | pure value => exact later value first
  | call op next ih => exact fun answer => ih answer (first answer)
  | stop reason => trivial

theorem yields_any {program : Prog Answer Stop α} : program.Yields fun _ => True := by
  induction program with
  | pure value | stop reason => trivial
  | call op next ih => exact fun answer => ih answer

theorem Yields.translate {send : Op → Op'} {receive : ∀ op, Answer' (send op) → Answer op}
    (yields : program.Yields Good) :
    (program.translate send receive).Yields Good := by
  induction program with
  | pure value => exact yields
  | call op next ih => exact fun answer => ih _ (yields _)
  | stop reason => trivial

end Yields

/-- The program keeps to quiet operations until it comes to one from which the rest of it is as
given. -/
def Until (Quiet : Op → Prop) (Then : (op : Op) → (Answer op → Prog Answer Stop α) → Prop) :
    Prog Answer Stop α → Prop
  | .pure _ => True
  | .call op next => Quiet op ∧ (∀ answer, (next answer).Until Quiet Then) ∨ Then op next
  | .stop _ => True

section Until

variable {Quiet : Op → Prop}

variable {program : Prog Answer Stop α} {rest : α → Prog Answer Stop β} {handle : Handler Answer σ}
  {state : σ} {Release : Op → Prop}

theorem Uses.until {Then : (op : Op) → (Answer op → Prog Answer Stop α) → Prop}
    (uses : program.Uses Quiet) : program.Until Quiet Then := by
  induction program with
  | pure value | stop reason => trivial
  | call op next ih => exact .inl ⟨uses.1, fun answer => ih answer (uses.2 answer)⟩

theorem Uses.until_bind {Then : (op : Op) → (Answer op → Prog Answer Stop β) → Prop}
    (uses : program.Uses Quiet) (later : ∀ value, (rest value).Until Quiet Then) :
    (program >>= rest).Until Quiet Then := by
  induction program with
  | pure value => exact later value
  | call op next ih => exact .inl ⟨uses.1, fun answer => ih answer (uses.2 answer)⟩
  | stop reason => trivial

theorem Until.translate {Quiet' : Op' → Prop}
    {Then : (op : Op) → (Answer op → Prog Answer Stop α) → Prop}
    {Then' : (op : Op') → (Answer' op → Prog Answer' Stop α) → Prop} {send : Op → Op'}
    {receive : ∀ op, Answer' (send op) → Answer op} (sent : ∀ op, Quiet op → Quiet' (send op))
    (released : ∀ op next, Then op next →
      Then' (send op) fun answer => (next (receive op answer)).translate send receive)
    (until_ : program.Until Quiet Then) :
    (program.translate send receive).Until Quiet' Then' := by
  induction program with
  | pure value | stop reason => trivial
  | call op next ih =>
    rcases until_ with ⟨quiet, later⟩ | release
    · exact .inl ⟨sent op quiet, fun answer => ih _ (later _)⟩
    · exact .inr (released op next release)

/-- A program that ends well once it has done anything: either it ends well, or what the quiet
operations keep still holds. -/
theorem Until.run_ends {Good : Except Stop α → Prop} (Inv : σ → Prop)
    (keeps : ∀ op state, Quiet op → Inv state → Inv (handle op state).2)
    (until_ : program.Until Quiet fun _ next => ∀ answer, (next answer).Ends Good)
    (holds : Inv state) :
    Good (program.run handle state).1 ∨ Inv (program.run handle state).2 := by
  induction program generalizing state with
  | pure value | stop reason => exact .inr holds
  | call op next ih =>
    rcases until_ with ⟨quiet, later⟩ | ends
    · exact ih _ (later _) (keeps op state quiet holds)
    · exact .inl ((ends _).run handle _)

theorem Until.bind (first : program.Until Quiet fun op _ => Release op)
    (later : ∀ value, (rest value).Until Quiet fun op _ => Release op) :
    (program >>= rest).Until Quiet fun op _ => Release op := by
  induction program with
  | pure value => exact later value
  | call op next ih =>
    rcases first with ⟨quiet, following⟩ | release
    · exact .inl ⟨quiet, fun answer => ih answer (following answer)⟩
    · exact .inr release
  | stop reason => trivial

/-- `run_related` where the states are related in one way first, and in another from the release
on. -/
theorem Until.run_related {handle' : Handler Answer τ} (Before After : σ → τ → Prop)
    (quiet : ∀ op state state', Quiet op → Before state state' →
      (handle op state).1 = (handle' op state').1 ∧
        Before (handle op state).2 (handle' op state').2)
    (release : ∀ op state state', Release op → Before state state' →
      (handle op state).1 = (handle' op state').1 ∧
        After (handle op state).2 (handle' op state').2)
    (after : ∀ op state state', After state state' →
      (handle op state).1 = (handle' op state').1 ∧
        After (handle op state).2 (handle' op state').2)
    (until_ : program.Until Quiet fun op _ => Release op) {state' : τ}
    (related : Before state state') :
    (program.run handle state).1 = (program.run handle' state').1 ∧
      (Before (program.run handle state).2 (program.run handle' state').2 ∨
        After (program.run handle state).2 (program.run handle' state').2) := by
  induction program generalizing state state' with
  | pure value | stop reason => exact ⟨rfl, .inl related⟩
  | call op next ih =>
    simp only [run]
    rcases until_ with ⟨isQuiet, later⟩ | isRelease
    · obtain ⟨sameAnswer, stillRelated⟩ := quiet op state state' isQuiet related
      rw [sameAnswer]
      exact ih _ (later _) stillRelated
    · obtain ⟨sameAnswer, nowRelated⟩ := release op state state' isRelease related
      rw [sameAnswer]
      obtain ⟨sameEnd, relatedEnd⟩ := Prog.run_related After after (next _) nowRelated
      exact ⟨sameEnd, .inr relatedEnd⟩

end Until

def Settled (program : Prog Answer Stop α) : Prop :=
  (∃ value, program = pure value) ∨ ∃ reason, program = .stop reason

section Settled

@[simp]
theorem settled_pure {value : α} : (pure value : Prog Answer Stop α).Settled :=
  .inl ⟨value, rfl⟩

@[simp]
theorem settled_stop (reason : Stop) : (.stop reason : Prog Answer Stop α).Settled :=
  .inr ⟨reason, rfl⟩

variable {program : Prog Answer Stop α}

theorem Settled.bind {rest : α → Prog Answer Stop β} (first : program.Settled)
    (later : ∀ value, (rest value).Settled) :
    (program >>= rest).Settled := by
  rcases first with ⟨value, rfl⟩ | ⟨reason, rfl⟩
  · exact later value
  · exact settled_stop reason

theorem Settled.until {Quiet : Op → Prop}
    {Then : (op : Op) → (Answer op → Prog Answer Stop α) → Prop} (settled : program.Settled) :
    program.Until Quiet Then := by
  rcases settled with ⟨_, rfl⟩ | ⟨_, rfl⟩
  · trivial
  · trivial

end Settled

end Prog


end Program

