import Godis.Database.SlotRun
import Godis.Database.Table

/-!
# Normal commands (`DB.execNormalCommand` of `database/database.go`)

One command at a time, as a server executes them: the versions of the keys it writes go up, then
its executor runs.  A panic is recovered by the server and leaves what the executor did so far.
-/

namespace Godis.Database

open Golang Program

def SlotEvent.line : SlotEvent → Option Line
  | .note _ => none
  | .logged line => some line

def Event.line : Event → Option Line
  | .note _ _ => none
  | .logged line => some line

theorem line_at {key : Key} (event : SlotEvent) : (event.at key).line = event.line := by
  cases event with
  | note callback => rfl
  | logged line => rfl

def SlotState.lines {F : Type} (state : SlotState F) : List Line :=
  state.events.filterMap SlotEvent.line

namespace Space

variable {F : Type}

def logged (space : Space F) : List Line :=
  space.events.filterMap Event.line

variable (space : Space F)

@[simp]
theorem write_logged (key : Key) (state : SlotState F) :
    (space.write key state).logged = space.logged ++ state.lines := by
  have same : (Event.line ∘ fun event : SlotEvent => event.at key) = SlotEvent.line :=
    funext fun event => line_at event
  rw [logged, write_events, List.filterMap_append, List.filterMap_map, same]
  rfl

theorem log_logged (line : Line) :
    ({ space with events := space.events ++ [.logged line] } : Space F).logged =
      space.logged ++ [line] := by
  simp only [logged, List.filterMap_append]
  rfl

/-- One round of `DB.addVersion`; a version is a `uint32`. -/
def bumpVersion (space : Space F) (key : Key) : Space F where
  slots := Function.update space.slots key
    { space.slots key with version := ((space.slots key).version + 1) % 2 ^ 32 }
  keys := space.keys
  mem_keys other := by
    rw [space.mem_keys, Function.update_apply]
    split
    · rename_i same
      rw [same]
    · rfl
  events := space.events

def addVersion (space : Space F) (keys : List Key) : Space F :=
  keys.foldl bumpVersion space

theorem bumpVersion_slot (key other : Key) :
    ((space.bumpVersion key).slots other).value = (space.slots other).value ∧
      ((space.bumpVersion key).slots other).deadline = (space.slots other).deadline := by
  simp only [bumpVersion, Function.update_apply]
  split
  · rename_i same
    rw [same]
    exact ⟨rfl, rfl⟩
  · exact ⟨rfl, rfl⟩

/-- Versions apart, `addVersion` changes nothing. -/
theorem addVersion_slot (keys : List Key) (other : Key) :
    ((space.addVersion keys).slots other).value = (space.slots other).value ∧
      ((space.addVersion keys).slots other).deadline = (space.slots other).deadline := by
  induction keys generalizing space with
  | nil => exact ⟨rfl, rfl⟩
  | cons key rest ih =>
    obtain ⟨value, deadline⟩ := ih (space.bumpVersion key)
    obtain ⟨sameValue, sameDeadline⟩ := space.bumpVersion_slot key other
    exact ⟨value.trans sameValue, deadline.trans sameDeadline⟩

@[simp]
theorem addVersion_events {keys : List Key} : (space.addVersion keys).events = space.events := by
  induction keys generalizing space with
  | nil => rfl
  | cons key rest ih => exact ih (space.bumpVersion key)

end Space

section Execution

variable {F : Type} [Float64 F]

/-- A command without a prepare function is called through nil. -/
def execNormalCommand (env : Env F) (line : Line) (space : Space F) :
    Except Stop Reply × Space F :=
  match line with
  | [] => (.error .panic, space)
  | name :: args =>
    match Name.ofText (toLower (str name)) with
    | none => (.ok (.unknownCommand (toLower (str name))), space)
    | some found =>
      if validateArity (command (F := F) found).arity (name :: args) then
        match (command (F := F) found).prepare with
        | none => (.error .panic, space)
        | some prepare =>
          ((command found).executor.run (execWithLock (lineSize (name :: args))) args).run
            (dbHandle env) (space.addVersion (prepare args).1)
      else (.ok (.argNumErr (toLower (str name))), space)

/-- A command line with what its execution meets: the time, random choices and so on. -/
structure Call (F : Type) where
  env : Env F
  line : Line

def Call.exec (call : Call F) (space : Space F) : Space F :=
  (execNormalCommand call.env call.line space).2

def runCalls (space : Space F) (calls : List (Call F)) : Space F :=
  calls.foldl (fun space call => call.exec space) space

end Execution

end Godis.Database
