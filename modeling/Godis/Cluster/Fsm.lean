import Godis.Golang.Slice
import Godis.Golang.Sort
import Godis.Golang.Str
import Mathlib.Data.Finmap

/-!
# The raft state machine (`cluster/raft/fsm.go`, `cluster/raft/fsm_utils.go`)

The slot lists of `Node2Slot` are slices over a heap of arrays: a failover passes
the list of the old master to `removeSlots`, which shrinks that list while
ranging over it.  `grow` is the capacity `append` picks for a new array, given
the old capacity and the needed one.
-/

namespace Godis.Raft

open Golang

structure MigratingTask where
  id : Str
  srcNode : Str
  targetNode : Str
  slots : List Nat
  deriving DecidableEq

structure InitTask where
  leader : Str
  slotCount : Int
  deriving DecidableEq

structure FailoverTask where
  id : Str
  oldMasterId : Str
  newMasterId : Str
  deriving DecidableEq

structure JoinTask where
  nodeId : Str
  master : Str
  deriving DecidableEq

structure MasterSlave where
  masterId : Str
  slaves : List Str
  deriving DecidableEq

structure FSM where
  heap : Heap Nat
  node2Slot : Finmap fun _ : Str => Slice
  slot2Node : Finmap fun _ : Nat => Str
  migratings : Finmap fun _ : Str => MigratingTask
  masterSlaves : Finmap fun _ : Str => MasterSlave
  slaveMasters : Finmap fun _ : Str => Str
  failovers : Finmap fun _ : Str => FailoverTask

namespace FSM

def empty : FSM := ⟨⟨[]⟩, ∅, ∅, ∅, ∅, ∅, ∅⟩

def slotsOf (fsm : FSM) (id : Str) : Slice := (fsm.node2Slot.lookup id).getD .nil

def indexed (fsm : FSM) (id : Str) : List Nat := fsm.heap.view (fsm.slotsOf id)

/-- `sort.Search(len(slots), func(i int) bool { return slots[i] >= slotId })` -/
def searchSlot (slots : List Nat) (slotId : Nat) : Nat :=
  search slots.length fun i => decide (slots.getD i 0 ≥ slotId)

variable (grow : Nat → Nat → Nat)

/-- `fsm.Node2Slot[id] = append(fsm.Node2Slot[id][:index], vals...)` -/
def spliceSlots (fsm : FSM) (id : Str) (index : Nat) (vals : List Nat) : FSM :=
  let slots := fsm.slotsOf id
  let (heap, slots) := fsm.heap.append slots index vals
    (grow (fsm.heap.cells slots.ptr).length (index + vals.length))
  { fsm with heap := heap, node2Slot := fsm.node2Slot.insert id slots }

def addSlot (nodeID : Str) (fsm : FSM) (slotId : Nat) : FSM :=
  let slots := fsm.indexed nodeID
  let index := searchSlot slots slotId
  let fsm :=
    if slots[index]? = some slotId then fsm
    else fsm.spliceSlots grow nodeID index (slotId :: slots.drop index)
  { fsm with slot2Node := fsm.slot2Node.insert slotId nodeID }

/-- The inner loop of `removeSlots`, with fuel for the length of the list. -/
def removeFound (nodeID : Str) (index slotId : Nat) : Nat → FSM → FSM
  | 0, fsm => fsm
  | fuel + 1, fsm =>
    if (fsm.indexed nodeID)[index]? = some slotId then
      removeFound nodeID index slotId fuel
        (fsm.spliceSlots grow nodeID index ((fsm.indexed nodeID).drop (index + 1)))
    else fsm

def removeSlot (nodeID : Str) (fsm : FSM) (slotId : Nat) : FSM :=
  let slots := fsm.indexed nodeID
  let fsm := removeFound grow nodeID (searchSlot slots slotId) slotId slots.length fsm
  if (fsm.slot2Node.lookup slotId).getD [] = nodeID then
    { fsm with slot2Node := fsm.slot2Node.erase slotId }
  else fsm

/-- `for _, slotId := range slots`: the length is fixed at the start, the elements
are read from the array as the loop comes to them. -/
def rangeLoop (slots : Slice) (body : FSM → Nat → FSM) : Nat → Nat → FSM → FSM
  | 0, _, fsm => fsm
  | count + 1, i, fsm =>
    rangeLoop slots body count (i + 1) (body fsm ((fsm.heap.cells slots.ptr).getD i 0))

def forRange (slots : Slice) (body : FSM → Nat → FSM) (fsm : FSM) : FSM :=
  rangeLoop slots body slots.len 0 fsm

def addSlots (fsm : FSM) (nodeID : Str) (slots : Slice) : FSM :=
  forRange slots (addSlot grow nodeID) fsm

def removeSlots (fsm : FSM) (nodeID : Str) (slots : Slice) : FSM :=
  forRange slots (removeSlot grow nodeID) fsm

/-- `none` where the code dereferences a nil `MasterSlave`. -/
def failover (fsm : FSM) (oldMasterId newMasterId : Str) : Option FSM := do
  let oldMaster ← fsm.masterSlaves.lookup oldMasterId
  let newSlaves := oldMaster.slaves.filter (· ≠ newMasterId)
  let slaveMasters := newSlaves.foldl (fun masters slave => masters.insert slave newMasterId)
    fsm.slaveMasters
  let slaveMasters := (slaveMasters.insert oldMasterId newMasterId).erase newMasterId
  let masterSlaves := (fsm.masterSlaves.erase oldMasterId).insert newMasterId
    ⟨newMasterId, newSlaves ++ [oldMasterId]⟩
  some { fsm with masterSlaves := masterSlaves, slaveMasters := slaveMasters }

/-- The state is unchanged where the code returns an error. -/
def addNode (fsm : FSM) (id masterId : Str) : FSM :=
  if masterId = [] then
    { fsm with masterSlaves := fsm.masterSlaves.insert id ⟨id, []⟩ }
  else
    match fsm.masterSlaves.lookup masterId with
    | none => fsm
    | some master =>
      let slaves := if id ∈ master.slaves then master.slaves else master.slaves ++ [id]
      { fsm with
        masterSlaves := fsm.masterSlaves.insert masterId { master with slaves := slaves }
        slaveMasters := fsm.slaveMasters.insert id masterId }

end FSM

inductive LogEntry
  | startMigrate (task : MigratingTask)
  | finishMigrate (task : MigratingTask)
  | seedStart (task : InitTask)
  | finishFailover (task : FailoverTask)
  | join (task : JoinTask)

namespace FSM

def assignSlots (fsm : FSM) (leader : Str) (slots : List Nat) : FSM :=
  let (heap, slice) := fsm.heap.alloc slots
  { fsm with
    heap := heap
    slot2Node := slots.foldl (fun owners slot => owners.insert slot leader) fsm.slot2Node
    node2Slot := fsm.node2Slot.insert leader slice }

variable (grow : Nat → Nat → Nat)

/-- `none` where the code panics. -/
def apply (fsm : FSM) : LogEntry → Option FSM
  | .startMigrate task =>
    some { fsm with migratings := fsm.migratings.insert task.id task }
  | .finishMigrate task =>
    let (heap, slots) := fsm.heap.alloc task.slots
    let fsm := { fsm with heap := heap, migratings := fsm.migratings.erase task.id }
    let fsm := fsm.addSlots grow task.targetNode slots
    some (fsm.removeSlots grow task.srcNode slots)
  | .seedStart task =>
    if task.slotCount < 0 then none
    else
      let slots := (List.range task.slotCount.toNat).map (· % 2 ^ 32)
      some ((fsm.assignSlots task.leader slots).addNode task.leader [])
  | .finishFailover task => do
    let fsm ← fsm.failover task.oldMasterId task.newMasterId
    let slots := fsm.slotsOf task.oldMasterId
    let fsm := fsm.addSlots grow task.newMasterId slots
    let fsm := fsm.removeSlots grow task.oldMasterId slots
    some { fsm with failovers := fsm.failovers.erase task.id }
  | .join task => some (fsm.addNode task.nodeId task.master)

def applyAll (fsm : FSM) : List LogEntry → Option FSM
  | [] => some fsm
  | entry :: rest => do
    let fsm ← fsm.apply grow entry
    applyAll fsm rest

end FSM

end Godis.Raft
