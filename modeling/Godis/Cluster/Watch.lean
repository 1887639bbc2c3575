import Godis.Cluster.MasterSlaves
import Godis.Cluster.Snapshot

/-!
# Following failovers (`cluster/raft/raft.go`)

`setupWatch` stores the function that compares `SlaveMasters[self]` with
`currentMaster` in `watcher.watch`.  The state machine would call it through
`FSM.changed`, but `StartNode` leaves that field nil and nothing sets it later.
-/

namespace Godis.Raft

open Golang
open Option (bind_eq_bind some.inj)

def FSM.getMaster (fsm : FSM) (id : Str) : Str := (fsm.slaveMasters.lookup id).getD []

/-- A node.  `changed` says whether `FSM.changed` is `watcher.watch` or nil, and `calls`
are the arguments `onFailover` has been called with. -/
structure RaftNode where
  self : Str
  fsm : FSM
  changed : Bool
  currentMaster : Str
  onFailover : Bool
  calls : List Str

inductive Update
  | apply (entry : LogEntry)
  | restore (snapshot : FSMSnapshot) (slots : List Nat) (masters : List Str)

namespace RaftNode

def startNode (self : Str) : RaftNode := ⟨self, .empty, false, [], false, []⟩

def setOnFailover (node : RaftNode) : RaftNode :=
  { node with currentMaster := node.fsm.getMaster node.self, onFailover := true }

def watch (node : RaftNode) : RaftNode :=
  let newMaster := node.fsm.getMaster node.self
  if newMaster ≠ node.currentMaster then
    { node with
      currentMaster := newMaster
      calls := if node.onFailover then node.calls ++ [newMaster] else node.calls }
  else node

/-- `if fsm.changed != nil { fsm.changed(fsm) }` -/
def notify (node : RaftNode) : RaftNode := if node.changed then node.watch else node

variable (grow : Nat → Nat → Nat)

/-- `none` where `Apply` panics. -/
def step (node : RaftNode) : Update → Option RaftNode
  | .apply entry => do
    let fsm ← node.fsm.apply grow entry
    some { node with fsm := fsm }.notify
  | .restore snapshot slots masters =>
    some { node with fsm := node.fsm.restore grow snapshot slots masters }.notify

def run (node : RaftNode) : List Update → Option RaftNode
  | [] => some node
  | update :: rest => do
    let node ← node.step grow update
    node.run rest

/-- After every update `onFailover` has been called if the master of the node has
changed, and `currentMaster` is the master. -/
def Follows (node : RaftNode) : List Update → Prop
  | [] => True
  | update :: rest => ∀ node', node.step grow update = some node' →
      (node'.fsm.getMaster node.self ≠ node.fsm.getMaster node.self →
        node'.calls = node.calls ++ [node'.fsm.getMaster node.self]) ∧
      node'.currentMaster = node'.fsm.getMaster node.self ∧ node'.Follows rest

/-- The update does not concern the master of the node: another node joins or takes
over from another master, or the snapshot names the same master. -/
def Spares (node : RaftNode) : Update → Prop
  | .apply (.join task) =>
    task.nodeId = node.self → task.master ≠ [] → task.master ∈ node.fsm.masterSlaves →
      node.fsm.getMaster node.self = task.master
  | .apply (.finishFailover task) =>
    ∀ oldMaster, node.fsm.masterSlaves.lookup task.oldMasterId = some oldMaster →
      if node.self = task.newMasterId then node.fsm.getMaster node.self = []
      else node.self = task.oldMasterId ∨ node.self ∈ oldMaster.slaves →
        node.fsm.getMaster node.self = task.newMasterId
  | .apply _ => True
  | .restore snapshot _ masters =>
    ∀ master, FSM.lastMaster snapshot.masterSlaves masters node.self = some master →
      node.fsm.getMaster node.self = master

def SparesAll (node : RaftNode) : List Update → Prop
  | [] => True
  | update :: rest => node.Spares update ∧
      ∀ node', node.step grow update = some node' → node'.SparesAll rest

variable {node node' : RaftNode}

variable {self : Str}

theorem spares_join {fsm : FSM} (task : JoinTask) :
    (fsm.addNode task.nodeId task.master).getMaster self = fsm.getMaster self ↔
      (task.nodeId = self → task.master ≠ [] → task.master ∈ fsm.masterSlaves →
        fsm.getMaster self = task.master) := by
  rw [FSM.addNode]
  split
  · next none => simp [FSM.getMaster, none]
  · next given =>
      split
      · next unknown =>
          have absent := Finmap.lookup_eq_none.mp unknown
          simp [absent]
      · next master known =>
          have present := Finmap.mem_of_lookup_eq_some known
          rw [FSM.getMaster]
          rcases eq_or_ne task.nodeId self with rfl | other
          · simp [given, present, eq_comm]
          · rw [Finmap.lookup_insert_of_ne _ other.symm]
            simp [other, FSM.getMaster]

variable {oldMaster : MasterSlave} {fsm fsm' : FSM} {update : Update}

theorem spares_failover {oldMasterId newMasterId : Str} :
    ((redirect fsm.slaveMasters oldMaster oldMasterId newMasterId).lookup self).getD [] =
        fsm.getMaster self ↔
      if self = newMasterId then fsm.getMaster self = []
      else self = oldMasterId ∨ self ∈ oldMaster.slaves → fsm.getMaster self = newMasterId := by
  rw [lookup_redirect]
  split
  · exact eq_comm
  · split
    · next concerned => simp [concerned, eq_comm]
    · next aside => simp [aside, FSM.getMaster]

theorem spares_finishFailover {task : FailoverTask}
    (applied : fsm.apply grow (.finishFailover task) = some fsm')
    (known : fsm.masterSlaves.lookup task.oldMasterId = some oldMaster) :
    fsm'.slaveMasters = redirect fsm.slaveMasters oldMaster task.oldMasterId task.newMasterId := by
  rw [FSM.apply, FSM.failover_eq known] at applied
  obtain rfl := some.inj applied
  exact (FSM.removeSlots_beside grow _ _ _).slaveMasters.trans
    (FSM.addSlots_beside grow _ _ _).slaveMasters

theorem apply_slaveMasters {task : MigratingTask}
    (applied : fsm.apply grow (.finishMigrate task) = some fsm') :
    fsm'.slaveMasters = fsm.slaveMasters := by
  obtain rfl := some.inj applied
  exact (FSM.removeSlots_beside grow _ _ _).slaveMasters.trans
    (FSM.addSlots_beside grow _ _ _).slaveMasters

theorem spares_apply (node : RaftNode) {entry : LogEntry}
    (applied : node.fsm.apply grow entry = some fsm') :
    fsm'.getMaster node.self = node.fsm.getMaster node.self ↔ node.Spares (.apply entry) := by
  cases entry with
  | startMigrate task =>
    obtain rfl := some.inj applied
    simp [Spares, FSM.getMaster]
  | finishMigrate task =>
    simp [Spares, FSM.getMaster, apply_slaveMasters grow applied]
  | seedStart task =>
    rw [FSM.apply] at applied
    split at applied
    · cases applied
    · obtain rfl := some.inj applied
      simp [Spares, FSM.getMaster, FSM.addNode, FSM.assignSlots]
  | finishFailover task =>
    cases known : node.fsm.masterSlaves.lookup task.oldMasterId with
    | none =>
      rw [FSM.apply, FSM.failover, known] at applied
      cases applied
    | some oldMaster =>
      rw [FSM.getMaster, spares_finishFailover grow applied known, spares_failover]
      simp [Spares, known]
  | join task =>
    obtain rfl := some.inj applied
    exact spares_join task

theorem spares_restore (former : FSM) (self : Str) (snapshot : FSMSnapshot) (slots : List Nat)
    (masters : List Str) :
    (former.restore grow snapshot slots masters).getMaster self = former.getMaster self ↔
      ∀ master, FSM.lastMaster snapshot.masterSlaves masters self = some master →
        former.getMaster self = master := by
  obtain ⟨-, -, -, -, slaveMasters, -⟩ := FSM.restore_tables grow { FSM.empty with
    slot2Node := snapshot.slot2Node
    migratings := snapshot.migratings
    masterSlaves := snapshot.masterSlaves } former slots masters
  have restored : (former.restore grow snapshot slots masters).slaveMasters.lookup self =
    (FSM.lastMaster snapshot.masterSlaves masters self).or (former.slaveMasters.lookup self) :=
    slaveMasters self
  rw [FSM.getMaster, restored]
  cases FSM.lastMaster snapshot.masterSlaves masters self with
  | none => simp [FSM.getMaster]
  | some master => simp [eq_comm]

theorem notify_of_unset (unset : node.changed = false) : { node with fsm := fsm }.notify = { node with fsm := fsm } := by
  simp [notify, unset]

/-- A step changes the state machine only, and the master of the node stays exactly if
the update spares it. -/
theorem step_of_unset (unset : node.changed = false) (stepped : node.step grow update = some node') :
    ∃ fsm, node' = { node with fsm := fsm } ∧
      (fsm.getMaster node.self = node.fsm.getMaster node.self ↔ node.Spares update) := by
  cases update with
  | apply entry =>
    rw [step, bind_eq_bind, Option.bind_eq_some_iff] at stepped
    obtain ⟨fsm, applied, same⟩ := stepped
    rw [notify_of_unset unset] at same
    exact ⟨fsm, (some.inj same).symm, node.spares_apply grow applied⟩
  | restore snapshot slots masters =>
    rw [step, notify_of_unset unset] at stepped
    exact ⟨_, (some.inj stepped).symm,
      spares_restore grow node.fsm node.self snapshot slots masters⟩

theorem spares_of_panic (panics : node.step grow update = none) :
    node.Spares update := by
  cases update with
  | restore snapshot slots masters => cases panics
  | apply entry =>
    cases entry with
    | finishFailover task =>
      intro oldMaster known
      rw [step, FSM.apply, FSM.failover_eq known] at panics
      cases panics
    | join task => cases panics
    | _ => trivial

theorem follows_iff_spares (unset : node.changed = false)
    (current : node.currentMaster = node.fsm.getMaster node.self) (updates : List Update) :
    node.Follows grow updates ↔ node.SparesAll grow updates := by
  induction updates generalizing node with
  | nil => exact Iff.rfl
  | cons update rest ih =>
    rw [Follows, SparesAll]
    cases stepped : node.step grow update with
    | none => simp [spares_of_panic grow stepped]
    | some next =>
      obtain ⟨fsm, rfl, spares⟩ := step_of_unset grow unset stepped
      have unset' : { node with fsm := fsm }.changed = false := unset
      have later (same : fsm.getMaster node.self = node.fsm.getMaster node.self) :=
        ih unset' (current.trans same.symm)
      rw [← spares]
      constructor
      · intro follows
        obtain ⟨-, kept, rest⟩ := follows _ rfl
        have same : fsm.getMaster node.self = node.fsm.getMaster node.self :=
          kept.symm.trans current
        refine ⟨same, ?_⟩
        intro node' next
        cases next
        exact (later same).mp rest
      · rintro ⟨same, rest⟩ _ next
        cases next
        exact ⟨fun changed => absurd same changed, current.trans same.symm,
          (later same).mpr (rest _ rfl)⟩

theorem run_unset (unset : node.changed = false) {updates : List Update}
    (ran : node.run grow updates = some node') : node'.changed = false := by
  induction updates generalizing node with
  | nil =>
    cases ran
    exact unset
  | cons update rest ih =>
    rw [run, bind_eq_bind, Option.bind_eq_some_iff] at ran
    obtain ⟨_, stepped, ran⟩ := ran
    obtain ⟨fsm, rfl, -⟩ := step_of_unset grow unset stepped
    have unset' : { node with fsm := fsm }.changed = false := unset
    exact ih unset' ran

/-- From the call of `SetOnFailover` on, whenever that is, a node follows its master
through a run exactly if no update of the run changes its master. -/
theorem follows_iff (self : Str) {before : List Update}
    (started : (startNode self).run grow before = some node) (updates : List Update) :
    node.setOnFailover.Follows grow updates ↔ node.setOnFailover.SparesAll grow updates := by
  have fresh : (startNode self).changed = false := rfl
  have ran := run_unset grow fresh started
  have unset : node.setOnFailover.changed = false := ran
  exact follows_iff_spares grow unset rfl updates

/-- Nodes `b` and `c` are slaves of `a`; `c` takes over. -/
theorem failover_is_not_followed :
    ∃ node node', (startNode [98]).run (fun _ need => need)
        [.apply (.seedStart ⟨[97], 1⟩), .apply (.join ⟨[98], [97]⟩), .apply (.join ⟨[99], [97]⟩)] =
          some node ∧
      node.setOnFailover.step (fun _ need => need) (.apply (.finishFailover ⟨[49], [97], [99]⟩)) =
        some node' ∧
      node'.fsm.getMaster [98] = [99] ∧ node'.currentMaster = [97] ∧ node'.calls = [] :=
  ⟨_, _, rfl, rfl, by decide, by decide, rfl⟩

theorem join_is_followed :
    ∃ node, (startNode [98]).run (fun _ need => need)
        [.apply (.seedStart ⟨[97], 1⟩), .apply (.join ⟨[98], [97]⟩)] = some node ∧
      node.setOnFailover.SparesAll (fun _ need => need) [.apply (.join ⟨[99], [97]⟩)] ∧
      node.setOnFailover.Follows (fun _ need => need) [.apply (.join ⟨[99], [97]⟩)] := by
  have started : (startNode [98]).run (fun _ need => need)
    [.apply (.seedStart ⟨[97], 1⟩), .apply (.join ⟨[98], [97]⟩)] = some _ := rfl
  refine ⟨_, started, ?_⟩
  have spares := follows_iff (fun _ need => need) [98] started [.apply (.join ⟨[99], [97]⟩)]
  refine ⟨?_, spares.mpr ?_⟩
  all_goals
    refine ⟨fun same => ?_, fun _ _ => trivial⟩
    cases same

end RaftNode

end Godis.Raft
