import Godis.Transition.Reached
import Mathlib.Logic.Function.Basic

/-!
# The pool of connections (`lib/pool/pool.go`)

Each goroutine is in one call of `Get` or `Put` at a time.  A step is what it does between two
changes of the mutex, one operation on `idles`, or a call of the factory.
-/

namespace Godis

open Transition

namespace Pool

inductive GetError
  | closed
  | factory (text : String)

/-- Where a goroutine is; a request for an object is named by the goroutine that waits for it. -/
inductive Phase (α : Type)
  | returned (result : Option (Except GetError α))
  | checking
  | trying
  | deciding
  | creating
  | failed (text : String)
  | waiting
  | received (item : α)
  | putting (item : α)
  | destroying (item : α)

variable {α : Type}

def Phase.inProgress : Phase α → Bool
  | .returned _ => false
  | .waiting => false
  | _ => true

def Phase.canCall : Phase α → Bool
  | .returned _ => true
  | _ => false

end Pool

open Pool

structure Pool (α : Type) where
  maxIdle : UInt64
  maxActive : UInt64
  idles : List α
  waitingReqs : List Nat
  activeCount : UInt64
  closed : Bool
  phases : Nat → Phase α

namespace Pool

variable {α : Type}

def new (maxIdle maxActive : UInt64) : Pool α :=
  ⟨maxIdle, maxActive, [], [], 0, false, fun _ => .returned none⟩

def enter (pool : Pool α) (id : Nat) (phase : Phase α) : Pool α :=
  { pool with phases := Function.update pool.phases id phase }

def decideOnNoIdle (pool : Pool α) (id : Nat) : Pool α :=
  if pool.activeCount ≥ pool.maxActive then
    { pool.enter id .waiting with waitingReqs := pool.waitingReqs ++ [id] }
  else { pool.enter id .creating with activeCount := pool.activeCount + 1 }

def returnItem (pool : Pool α) (id : Nat) (item : α) : Pool α :=
  if pool.closed then pool.enter id (.returned none)
  else match pool.waitingReqs with
    | req :: rest =>
      { (pool.enter id (.returned none)).enter req (.received item) with waitingReqs := rest }
    | [] =>
      if pool.idles.length < pool.maxIdle.toNat then
        { pool.enter id (.returned none) with idles := pool.idles ++ [item] }
      else pool.enter id (.destroying item)

def advance (pool : Pool α) (id : Nat) : Option (Pool α) :=
  match pool.phases id with
  | .checking =>
    some (pool.enter id (if pool.closed then .returned (some (.error .closed)) else .trying))
  | .trying =>
    match pool.idles with
    | item :: rest => some { pool.enter id (.returned (some (.ok item))) with idles := rest }
    | [] => some (pool.enter id .deciding)
  | .deciding => some (pool.decideOnNoIdle id)
  | .failed text =>
    some { pool.enter id (.returned (some (.error (.factory text)))) with
      activeCount := pool.activeCount - 1 }
  | .received item => some (pool.enter id (.returned (some (.ok item))))
  | .putting item => some (pool.returnItem id item)
  | .destroying _ =>
    some { pool.enter id (.returned none) with activeCount := pool.activeCount - 1 }
  | _ => none

inductive Event (α : Type)
  | get (id : Nat)
  | put (id : Nat) (item : α)
  | advance (id : Nat)
  | made (id : Nat) (result : Except String α)

def step (pool : Pool α) : Event α → Option (Pool α)
  | .get id => if (pool.phases id).canCall then some (pool.enter id .checking) else none
  | .put id item => if (pool.phases id).canCall then some (pool.enter id (.putting item)) else none
  | .advance id => pool.advance id
  | .made id result =>
    match pool.phases id, result with
    | .creating, .ok item => some (pool.enter id (.returned (some (.ok item))))
    | .creating, .error text => some (pool.enter id (.failed text))
    | _, _ => none

/-- No request waits while an object is idle, or while one could be made and nobody is about to
return or to make one. -/
def NoLostWakeUp (pool : Pool α) : Prop :=
  pool.waitingReqs ≠ [] → pool.idles = [] ∧
    ((∀ id, (pool.phases id).inProgress = false) → pool.maxActive ≤ pool.activeCount)

/-- A goroutine decides to wait only while nothing is idle, and gives its place back, after the
factory failed or an object too many came back, only while nobody waits. -/
def careful (pool : Pool α) : Event α → Bool
  | .advance id =>
    match pool.phases id with
    | .deciding => pool.activeCount < pool.maxActive || pool.idles.isEmpty
    | .failed _ => pool.waitingReqs.isEmpty
    | .destroying _ => pool.waitingReqs.isEmpty
    | _ => true
  | _ => true

def Served (pool : Pool α) : Prop :=
  pool.waitingReqs ≠ [] → pool.idles = [] ∧ pool.maxActive ≤ pool.activeCount

variable {pool pool' : Pool α} {id : Nat} {item : α}

theorem Served.enter (served : pool.Served) (phase : Phase α) : (pool.enter id phase).Served :=
  served

theorem Served.decideOnNoIdle (served : pool.Served)
    (empty : pool.activeCount < pool.maxActive ∨ pool.idles = []) :
    (pool.decideOnNoIdle id).Served := by
  unfold Pool.decideOnNoIdle
  split
  · rename_i enough
    intro _
    exact ⟨empty.resolve_left (UInt64.not_lt.mpr enough), enough⟩
  · rename_i less
    intro waits
    exact absurd (served waits).2 less

theorem Served.returnItem (served : pool.Served) : (pool.returnItem id item).Served := by
  unfold Pool.returnItem
  split
  · exact served
  · split
    · rename_i req rest waits
      intro _
      exact served (by simp [waits])
    · rename_i none_
      split
      · intro waits
        exact absurd none_ waits
      · exact served

theorem Served.advance (served : pool.Served) (okay : pool.careful (.advance id) = true)
    (taken : pool.advance id = some pool') : pool'.Served := by
  unfold Pool.advance at taken
  unfold careful at okay
  cases phase : pool.phases id with
  | checking | received =>
    simp only [phase, Option.some.injEq] at taken
    subst taken
    exact served.enter _
  | trying =>
    simp only [phase] at taken
    cases idle : pool.idles with
    | nil =>
      simp only [idle, Option.some.injEq] at taken
      subst taken
      exact served.enter _
    | cons item rest =>
      simp only [idle, Option.some.injEq] at taken
      subst taken
      intro waits
      have none_ := (served waits).1
      rw [idle] at none_
      cases none_
  | deciding =>
    simp only [phase, Option.some.injEq] at taken okay
    subst taken
    exact served.decideOnNoIdle (by simpa using okay)
  | failed | destroying =>
    simp only [phase, Option.some.injEq] at taken okay
    subst taken
    exact fun waits => absurd (List.isEmpty_iff.mp okay) waits
  | putting item =>
    simp only [phase, Option.some.injEq] at taken
    subst taken
    exact served.returnItem
  | returned | creating | waiting => simp only [phase, reduceCtorEq] at taken

theorem Served.step {event : Event α} (served : pool.Served) (okay : pool.careful event = true)
    (taken : pool.step event = some pool') : pool'.Served := by
  cases event with
  | get id | put id =>
    simp only [Pool.step, Option.ite_none_right_eq_some, Option.some.injEq] at taken
    obtain ⟨-, rfl⟩ := taken
    exact served.enter _
  | advance id => exact served.advance okay taken
  | made id result =>
    simp only [Pool.step] at taken
    split at taken
    · cases taken
      exact served.enter _
    · cases taken
      exact served.enter _
    · cases taken

/-- In every careful run no wake-up is lost. -/
theorem no_lost_wake_up (maxIdle maxActive : UInt64) (pool : Pool α)
    (reached : Reached step (· = new maxIdle maxActive) (fun pool event => pool.careful event = true)
      pool) : pool.NoLostWakeUp := by
  have served : pool.Served := by
    refine reached.invariant ?_ fun pool event pool' => Served.step
    rintro _ rfl waits
    exact absurd rfl waits
  intro waits
  exact ⟨(served waits).1, fun _ => (served waits).2⟩

theorem no_lost_wake_up_second_get :
    ∃ pool : Pool Unit, pool.waitingReqs = [1] ∧ pool.NoLostWakeUp := by
  have run : ∃ pool : Pool Unit, runAllowed step (fun pool event => pool.careful event = true)
      (new 1 1) [.get 0, .advance 0, .advance 0, .advance 0, .made 0 (.ok ()), .get 1, .advance 1,
        .advance 1, .advance 1] = some pool ∧ pool.waitingReqs = [1] := ⟨_, rfl, rfl⟩
  obtain ⟨pool, run, waits⟩ := run
  exact ⟨pool, waits, no_lost_wake_up 1 1 pool (.of_run (.start rfl) run)⟩

/-- Goroutine 1 finds nothing idle; the object comes back before it decides to wait for one. -/
theorem waits_with_idle_object :
    ∃ pool : Pool Unit, [.get 0, .advance 0, .advance 0, .advance 0, .made 0 (.ok ()), .get 1,
        .advance 1, .advance 1, .put 0 (), .advance 0, .advance 1].foldlM step (new 1 1) = some pool ∧
      pool.waitingReqs = [1] ∧ pool.idles = [()] ∧ ∀ id, (pool.phases id).inProgress = false := by
  refine ⟨_, rfl, rfl, rfl, fun id => ?_⟩
  rcases id with _ | _ | - <;> rfl

end Pool

end Godis
