import Godis.Database.Normal

/-!
# Transactions (`database/transaction.go`)

The commands of a queue are executed one after the other, each after the lines that undo it have
been computed.  At the first error reply the undo lines are executed, the last command's first.  A
panic leaves everything as it is.
-/

namespace Godis.Database

open Golang Program

variable {F : Type} [Float64 F]

/-- What executions in turn meet: the times, random choices and so on. -/
abbrev Moments (F : Type) := Nat → Env F

def getUndoLogs (env : Env F) (line : Line) (space : Space F) : Except Stop (List Line) × Space F :=
  match line with
  | [] => (.error .panic, space)
  | name :: args =>
    match Name.ofText (toLower (str name)) with
    | none => (.ok [], space)
    | some found =>
      match (command (F := F) found).undo with
      | none => (.ok [], space)
      | some undo => (lookup (undo args)).run (dbHandle env) space

/-- How the loop over a queue ends: with the replies, or with the undo lines so far, those of the
last command first. -/
inductive QueueEnd where
  | executed (results : List Reply)
  | aborted (undo : List (List Line))

def execQueue (moments : Moments F) : Nat → List Line → List Reply → List (List Line) → Space F →
    Except Stop QueueEnd × Space F
  | _, [], results, _, space => (.ok (.executed results), space)
  | moment, line :: rest, results, undo, space =>
    Prog.andThen (getUndoLogs (moments moment) line space) fun undoLines space =>
      Prog.andThen ((exec line).run (dbHandle (moments (moment + 1))) space) fun reply space =>
        if reply.isError then (.ok (.aborted undo), space)
        else execQueue moments (moment + 2) rest (results ++ [reply]) (undoLines :: undo) space

/-- The loop over undo lines, whose replies do not matter. -/
def execUndo (moments : Moments F) : Nat → List Line → Space F → Except Stop Unit × Space F
  | _, [], space => (.ok (), space)
  | moment, line :: rest, space =>
    Prog.andThen ((exec line).run (dbHandle (moments moment)) space) fun _ space =>
      execUndo moments (moment + 1) rest space

def execAbort : Reply :=
  .err "EXECABORT Transaction discarded because of previous errors."

/-- The keys that the commands of a queue write; a command that is not there, or has no prepare
function, makes the caller panic. -/
def queueWrites : List Line → Option (List Key)
  | [] => some []
  | [] :: _ => none
  | (name :: args) :: rest => do
    let found ← Name.ofText (toLower (str name))
    let prepare ← (command (F := F) found).prepare
    return (prepare args).1 ++ (← queueWrites rest)

abbrev Watching := Finmap fun _ : Key => Nat

def isWatchingChanged (space : Space F) (watching : Watching) : Bool :=
  !decide (∀ key ∈ watching.keys, watching.lookup key = some (space.slots key).version)

def execMulti (moments : Moments F) (watching : Watching) (lines : List Line) (space : Space F) :
    Except Stop Reply × Space F :=
  match queueWrites (F := F) lines with
  | none => (.error .panic, space)
  | some writeKeys =>
    if isWatchingChanged space watching then (.ok .emptyMultiBulk, space)
    else
      Prog.andThen (execQueue moments 0 lines [] [] space) fun ended space =>
        match ended with
        | .executed results => (.ok (.multiRaw results), space.addVersion writeKeys)
        | .aborted undo =>
          Prog.andThen (execUndo moments (2 * lines.length) undo.flatten space) fun _ space =>
            (.ok execAbort, space)

end Godis.Database
