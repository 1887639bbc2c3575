import Godis.Cluster.Slots
import Godis.Database.Undo

/-!
# Migrating slots: the source node (`cluster/core/migration.go`)

The node that gives slots away dumps the keys of each slot (`execExport`), then, with the mutexes of
the slots held, the keys that were inserted or deleted meanwhile (`execFinishExport`).  `dropSlot`
deletes the keys of a slot under its mutex.
-/

namespace Godis.Cluster

open Golang Program Database Raft

variable {F : Type} [Float64 F] {getSlot : Key → Option Nat}

/-- What a migration meets: the order in which it goes through a set of keys, and clock and random
choices when it comes to a key. -/
structure Course (F : Type) where
  sets : Env F
  keys : Key → Env F

structure Sending (F : Type) (getSlot : Key → Option Nat) where
  host : Host F getSlot
  sent : List Line

namespace SlotsManager

def startExporting (manager : SlotsManager getSlot) (index : Nat) : Option (SlotsManager getSlot) :=
  if (manager.statusOf index).state = .hosting then
    some (manager.set index
      ⟨.exporting (manager.statusOf index).keys ∅, (manager.statusOf index).keys⟩ fun key names => by
        refine manager.slot_of_statusOf (.inl ?_)
        rcases names with inside | inside | inside
        · exact inside
        · exact inside
        · cases inside)
  else none

def finishExporting (manager : SlotsManager getSlot) (index : Nat) : SlotsManager getSlot :=
  manager.set index ⟨.hosting, (manager.statusOf index).keys⟩ fun key names => by
    refine manager.slot_of_statusOf (.inl ?_)
    rcases names with inside | inside | inside
    · exact inside
    · cases inside
    · cases inside

theorem finishExporting_statusOf (manager : SlotsManager getSlot) (index other : Nat) :
    (manager.finishExporting index).statusOf other =
      if other = index then ⟨.hosting, (manager.statusOf index).keys⟩
      else manager.statusOf other :=
  manager.set_statusOf index _ _ other

def withTask (manager : SlotsManager getSlot) (task : MigratingTask) : SlotsManager getSlot :=
  { manager with importingTask := some task }

end SlotsManager

namespace Host

def withManager (host : Host F getSlot) (manager : SlotsManager getSlot) : Host F getSlot :=
  { host with slotsManager := manager }

/-! ## Export -/

def withExpire (key : Key) (cmd : Line) : Option Int → List Line
  | none => [cmd]
  | some deadline => [cmd, makeExpireCmd key deadline]

def dumpEntity (key : Key) : Option (Value F) → SlotReader F (List Line)
  | none => return []
  | some entity => do
    let cmd ← entityToCmd key entity
    return withExpire key cmd (← expireTime)

def dumpKey (key : Key) : SlotReader F (List Line) := do
  dumpEntity key (← getEntity)

def dumpData (held : List Nat) (course : Course F) : List Key → Sending F getSlot →
    Except Stop Unit × Sending F getSlot
  | [], sending => (.ok (), sending)
  | key :: rest, sending =>
    let ended := sending.host.perform held (course.keys key) 0 (lookAt key (dumpKey key))
    Prog.andThen (ended.1, { sending with host := ended.2 }) fun lines sending =>
      dumpData held course rest { sending with sent := sending.sent ++ lines }

def exportSlots (course : Course F) : List Nat → Sending F getSlot →
    Except Stop Reply × Sending F getSlot
  | [], sending => (.ok .ok, sending)
  | index :: rest, sending =>
    match sending.host.slotsManager.startExporting index with
    | none => (.ok (.err "slot host is not hosting"), sending)
    | some manager =>
      Prog.andThen (dumpData [] course
        (course.sets.order (manager.statusOf index).state.exportSnapshot)
        { sending with host := sending.host.withManager manager }) fun _ sending =>
          exportSlots course rest sending

/-- `execExport`.  `polled` is the task the state machine has when it is asked the last time; the
`OK` written to the connection is the reply. -/
def execExport (course : Course F) (polled : Option MigratingTask) (line : Line)
    (host : Host F getSlot) : Except Stop Reply × Sending F getSlot :=
  if line.length ≠ 2 then (.ok (.argNumErr (lit "cluster.migration.export")), ⟨host, []⟩)
  else
    match polled with
    | none => (.ok (.err "ERR get migrating task timeout"), ⟨host, []⟩)
    | some task =>
      if host.slotsManager.importingTask.isSome then
        (.ok (.err "ERR another migrating task in progress"), ⟨host, []⟩)
      else
        exportSlots course task.slots ⟨host.withManager (host.slotsManager.withTask task), []⟩

/-! ## The end of a migration -/

/-- The loop of `execFinishExport`, which keeps the mutexes it has taken.  A mutex that is taken
again makes it wait for ever. -/
def finishSlots (course : Course F) : List Nat → List Nat → Sending F getSlot →
    Except Stop Unit × Sending F getSlot
  | _, [], sending => (.ok (), sending)
  | locked, index :: rest, sending =>
    if index ∈ locked then (.error .blocked, sending)
    else
      Prog.andThen (dumpData (index :: locked) course
        (course.sets.order (sending.host.slotsManager.statusOf index).state.dirtyKeys) sending)
        fun _ sending =>
          finishSlots course (index :: locked) rest { sending with
            host := sending.host.withManager (sending.host.slotsManager.finishExporting index) }

/-- The reply of `execFinishExport`, and the slots a new goroutine goes on to drop. -/
structure Finished where
  reply : Reply
  dropping : List Nat

/-- How `execFinishExport` takes the answer to the change of route: no leader, or its reply. -/
def Finished.ofLeader (task : MigratingTask) : Except Str Reply → Finished
  | .error text => ⟨.error text, []⟩
  | .ok (.status _) => ⟨.ok, []⟩
  | .ok _ => ⟨.ok, task.slots⟩

def execFinishExport (course : Course F) (polled : Option MigratingTask) (leader : Except Str Reply)
    (line : Line) (host : Host F getSlot) : Except Stop Finished × Sending F getSlot :=
  if line.length ≠ 2 then (.ok ⟨.argNumErr (lit "cluster.migration.export"), []⟩, ⟨host, []⟩)
  else
    match polled with
    | none => (.ok ⟨.err "ERR get migrating task timeout", []⟩, ⟨host, []⟩)
    | some task =>
      Prog.andThen (finishSlots course [] task.slots ⟨host, []⟩) fun _ sending =>
        (.ok (.ofLeader task leader), sending)

def dropKeys (held : List Nat) (course : Course F) : List Key → Host F getSlot →
    Except Stop Unit × Host F getSlot
  | [], host => (.ok (), host)
  | key :: rest, host =>
    Prog.andThen (host.localExec held (course.keys key) (toCmdLineOfStr "del" [key]))
      fun _ host => dropKeys held course rest host

def dropSlot (course : Course F) (index : Nat) (host : Host F getSlot) :
    Except Stop Unit × Host F getSlot :=
  match host.slotsManager.slots index with
  | none => (.ok (), host)
  | some status =>
    Prog.andThen (dropKeys [index] course (course.sets.order status.keys) host) fun _ host =>
      (.ok (), host.withManager (host.slotsManager.delete index))

end Host

end Godis.Cluster
