import Godis.Cluster.Routing
import Godis.Cluster.Twins

/-!
# Snapshots of the raft state machine (`Snapshot`, `Restore`)

`Restore` rebuilds `Node2Slot` and `SlaveMasters` while ranging over maps, and
does not empty `SlaveMasters` first.  The restored state machine has the tables
of the original one, and keeps them under every further log entry, exactly where
the order of the slots, the former content and the original indexes allow it.
-/

namespace Godis.Raft

open Golang List

structure FSMSnapshot where
  slot2Node : Finmap fun _ : Nat => Str
  migratings : Finmap fun _ : Str => MigratingTask
  masterSlaves : Finmap fun _ : Str => MasterSlave

namespace FSM

def snapshot (fsm : FSM) : FSMSnapshot := ⟨fsm.slot2Node, fsm.migratings, fsm.masterSlaves⟩

variable (grow : Nat → Nat → Nat)

/-- `fsm.Node2Slot[node] = append(fsm.Node2Slot[node], slot)` -/
def restoreSlot (slot2Node : Finmap fun _ : Nat => Str) (fsm : FSM) (slot : Nat) : FSM :=
  match slot2Node.lookup slot with
  | none => fsm
  | some node => fsm.spliceSlots grow node (fsm.slotsOf node).len [slot]

/-- `for _, slave := range slaves.Slaves { fsm.SlaveMasters[slave] = master }` -/
def restoreMaster (masterSlaves : Finmap fun _ : Str => MasterSlave)
    (slaveMasters : Finmap fun _ : Str => Str) (master : Str) : Finmap fun _ : Str => Str :=
  match masterSlaves.lookup master with
  | none => slaveMasters
  | some entry => entry.slaves.foldl (fun masters slave => masters.insert slave master) slaveMasters

/-- `Restore` into `fsm`; `slots` and `masters` are the orders of the two maps. -/
def restore (fsm : FSM) (snapshot : FSMSnapshot) (slots : List Nat) (masters : List Str) : FSM :=
  let fsm := { fsm with
    slot2Node := snapshot.slot2Node
    migratings := snapshot.migratings
    masterSlaves := snapshot.masterSlaves
    node2Slot := ∅ }
  let fsm := slots.foldl (restoreSlot grow snapshot.slot2Node) fsm
  { fsm with slaveMasters := masters.foldl (restoreMaster snapshot.masterSlaves) fsm.slaveMasters }

def slotsAt (slot2Node : Finmap fun _ : Nat => Str) (slots : List Nat) (id : Str) : List Nat :=
  slots.filter fun slot => slot2Node.lookup slot = some id

def lastMaster (masterSlaves : Finmap fun _ : Str => MasterSlave) (masters : List Str)
    (slave : Str) : Option Str :=
  (masters.filter fun master => (masterSlaves.lookup master).any fun entry =>
    decide (slave ∈ entry.slaves)).getLast?

structure SameTables (first second : FSM) : Prop where
  slot2Node : second.slot2Node = first.slot2Node
  migratings : second.migratings = first.migratings
  masterSlaves : second.masterSlaves = first.masterSlaves
  slaveMasters : second.slaveMasters = first.slaveMasters
  node2Slot : ∀ id, second.indexed id = first.indexed id

/-- The restored state machine is as good as the original one. -/
structure Replaces (fsm restored : FSM) : Prop where
  tables : SameTables fsm restored
  ascending : ∀ id, (restored.indexed id).Pairwise (· < ·)
  later : ∀ entries, Option.Rel SameTables (fsm.applyAll grow entries) (restored.applyAll grow entries)

/-- The slots of each node come in ascending order, the slot lists of the original are
ascending and exact, each slave points to the master that comes last with it, and the
former content points as the original does where no master has the slave. -/
structure Restorable (fsm former : FSM) (slots : List Nat) (masters : List Str) : Prop where
  order : ∀ id, (slotsAt fsm.slot2Node slots id).Pairwise (· < ·)
  ascending : ∀ id, (fsm.indexed id).Pairwise (· < ·)
  exact_index : ∀ id slot, slot ∈ fsm.indexed id ↔ fsm.slot2Node.lookup slot = some id
  listed : ∀ slave master, lastMaster fsm.masterSlaves masters slave = some master →
    fsm.slaveMasters.lookup slave = some master
  former : ∀ slave, lastMaster fsm.masterSlaves masters slave = none →
    former.slaveMasters.lookup slave = fsm.slaveMasters.lookup slave

/-! ## What `Restore` does -/

variable {fsm : FSM}

theorem restoreSlot_indexed (separate : fsm.Separate) (slot2Node : Finmap fun _ : Nat => Str)
    (slot : Nat) :
    (restoreSlot grow slot2Node fsm slot).Separate ∧
      ∀ id, (restoreSlot grow slot2Node fsm slot).indexed id =
        fsm.indexed id ++ slotsAt slot2Node [slot] id := by
  rw [restoreSlot]
  cases owner : slot2Node.lookup slot with
  | none => simp [separate, slotsAt, owner]
  | some node =>
    have length_eq : (fsm.indexed node).length = (fsm.slotsOf node).len :=
      Heap.view_length (separate.valid node)
    obtain ⟨edits, list⟩ := spliceSlots_spec grow separate node length_eq.ge [slot]
    refine ⟨edits.separate, ?_⟩
    intro id
    rcases eq_or_ne id node with rfl | differs
    · rw [list, ← length_eq]
      simp [slotsAt, owner]
    · rw [edits.others id differs]
      simp [slotsAt, owner, differs.symm]

theorem restoreSlots_indexed (separate : fsm.Separate) (slot2Node : Finmap fun _ : Nat => Str)
    (slots : List Nat) :
    (slots.foldl (restoreSlot grow slot2Node) fsm).Separate ∧
      ∀ id, (slots.foldl (restoreSlot grow slot2Node) fsm).indexed id =
        fsm.indexed id ++ slotsAt slot2Node slots id := by
  induction slots generalizing fsm with
  | nil => simp [separate, slotsAt]
  | cons slot rest ih =>
    obtain ⟨separate', list⟩ := restoreSlot_indexed grow separate slot2Node slot
    obtain ⟨separate'', lists⟩ := ih separate'
    refine ⟨separate'', fun id => ?_⟩
    rw [foldl_cons, lists, list, append_assoc, slotsAt, slotsAt, slotsAt,
      ← List.filter_append, List.singleton_append]

theorem restoreSlots_beside (slot2Node : Finmap fun _ : Nat => Str) (slots : List Nat) (fsm : FSM) :
    Beside fsm (slots.foldl (restoreSlot grow slot2Node) fsm) ∧
      (slots.foldl (restoreSlot grow slot2Node) fsm).slot2Node = fsm.slot2Node := by
  induction slots generalizing fsm with
  | nil => exact ⟨⟨rfl, rfl, rfl, rfl⟩, rfl⟩
  | cons slot rest ih =>
    have once : Beside fsm (restoreSlot grow slot2Node fsm slot) ∧
        (restoreSlot grow slot2Node fsm slot).slot2Node = fsm.slot2Node := by
      rw [restoreSlot]
      split <;> exact ⟨⟨rfl, rfl, rfl, rfl⟩, rfl⟩
    obtain ⟨beside, owners⟩ := ih (restoreSlot grow slot2Node fsm slot)
    exact ⟨once.1.trans beside, owners.trans once.2⟩

variable (masterSlaves : Finmap fun _ : Str => MasterSlave)

theorem lastMaster_concat (rest : List Str) (master slave : Str) :
    lastMaster masterSlaves (rest ++ [master]) slave =
      if (masterSlaves.lookup master).any fun entry => decide (slave ∈ entry.slaves) then some master
      else lastMaster masterSlaves rest slave := by
  rw [lastMaster, List.filter_append, List.filter_singleton, Bool.cond_eq_ite]
  split_ifs
  · rw [List.getLast?_concat]
  · rw [append_nil, lastMaster]

theorem restoreMasters_lookup {masters : List Str} (slaveMasters : Finmap fun _ : Str => Str)
    {slave : Str} :
    (masters.foldl (restoreMaster masterSlaves) slaveMasters).lookup slave =
      (lastMaster masterSlaves masters slave).or (slaveMasters.lookup slave) := by
  induction masters using List.reverseRecOn with
  | nil => rfl
  | append_singleton rest master ih =>
    rw [List.foldl_append, foldl_cons, List.foldl_nil, restoreMaster, lastMaster_concat]
    cases masterSlaves.lookup master with
    | none => simp [ih]
    | some entry =>
      rw [lookup_foldl_insert, ih]
      by_cases listed : slave ∈ entry.slaves <;> simp [listed]

variable {fsm former : FSM} {slots : List Nat} {masters : List Str}

theorem separate_empty (lists : fsm.node2Slot = ∅) : fsm.Separate := by
  have none (id : Str) : fsm.slotsOf id = .nil := by
    rw [slotsOf, lists]
    rfl
  constructor
  · intro id
    rw [none]
    exact Heap.valid_nil
  · intro first second _
    rw [none, none]
    exact Slice.apart_nil

theorem restore_tables (fsm former : FSM) (slots : List Nat) (masters : List Str) :
    (former.restore grow fsm.snapshot slots masters).Separate ∧
      (former.restore grow fsm.snapshot slots masters).slot2Node = fsm.slot2Node ∧
      (former.restore grow fsm.snapshot slots masters).migratings = fsm.migratings ∧
      (former.restore grow fsm.snapshot slots masters).masterSlaves = fsm.masterSlaves ∧
      (∀ slave, (former.restore grow fsm.snapshot slots masters).slaveMasters.lookup slave =
        (lastMaster fsm.masterSlaves masters slave).or (former.slaveMasters.lookup slave)) ∧
      ∀ id, (former.restore grow fsm.snapshot slots masters).indexed id =
        slotsAt fsm.slot2Node slots id := by
  have emptied : Separate { former with
      slot2Node := fsm.slot2Node, migratings := fsm.migratings,
      masterSlaves := fsm.masterSlaves, node2Slot := ∅ } := separate_empty rfl
  obtain ⟨separate, lists⟩ := restoreSlots_indexed grow emptied fsm.slot2Node slots
  obtain ⟨beside, owners⟩ := restoreSlots_beside grow fsm.slot2Node slots { former with
      slot2Node := fsm.slot2Node, migratings := fsm.migratings,
      masterSlaves := fsm.masterSlaves, node2Slot := ∅ }
  refine ⟨⟨separate.valid, separate.apart⟩, owners, beside.migratings, beside.masterSlaves, ?_, ?_⟩
  · intro slave
    refine (restoreMasters_lookup fsm.masterSlaves _).trans ?_
    exact congrArg (fun table => (lastMaster fsm.masterSlaves masters slave).or (table.lookup slave))
      beside.slaveMasters
  · intro id
    exact lists id

theorem eq_of_ascending {first second : List Nat} (ascending : first.Pairwise (· < ·))
    (ascending' : second.Pairwise (· < ·)) (same : ∀ slot, slot ∈ first ↔ slot ∈ second) :
    first = second :=
  ((List.perm_ext_iff_of_nodup ascending.nodup ascending'.nodup).mpr same).eq_of_pairwise
    (fun _ _ _ _ lt lt' => absurd lt (Nat.lt_asymm lt')) ascending ascending'

theorem mem_slotsAt (ranges : Ranges fsm.slot2Node slots) {id : Str} {slot : Nat} :
    slot ∈ slotsAt fsm.slot2Node slots id ↔ fsm.slot2Node.lookup slot = some id := by
  rw [slotsAt, mem_filter, decide_eq_true_eq, ranges.mem]
  exact and_iff_right_of_imp Finmap.mem_of_lookup_eq_some

theorem Twins.sameTables {first second : FSM} (twins : Twins first second) :
    SameTables first second :=
  ⟨twins.owners, twins.migratings, twins.masterSlaves, twins.slaveMasters, twins.lists⟩

theorem Restorable.twins (separate : fsm.Separate) (ranges : Ranges fsm.slot2Node slots)
    (restorable : Restorable fsm former slots masters) :
    Twins fsm (former.restore grow fsm.snapshot slots masters) := by
  obtain ⟨separate', owners, migratings, masterSlaves, slaveMasters, lists⟩ :=
    restore_tables grow fsm former slots masters
  refine ⟨owners, migratings, masterSlaves, ?_, separate, separate', ?_, ?_⟩
  · refine Finmap.ext_lookup fun slave => ?_
    rw [slaveMasters]
    cases last : lastMaster fsm.masterSlaves masters slave with
    | none => exact restorable.former slave last
    | some master => exact (restorable.listed slave master last).symm
  · intro id
    rw [lists]
    refine eq_of_ascending (restorable.order id) (restorable.ascending id) fun slot => ?_
    rw [mem_slotsAt ranges, restorable.exact_index]
  · exact fun id => .inl (restorable.ascending id)

/-- For every state that log entries lead to, every order of the two maps and every
former content, the restored state machine replaces the original one exactly if the
orders, the former content and the original indexes allow it. -/
theorem restore_replaces_iff {entries : List LogEntry} (reached : empty.applyAll grow entries = some fsm)
    (slotRange : Ranges fsm.slot2Node slots) (former : FSM) (masters : List Str) :
    Replaces grow fsm (former.restore grow fsm.snapshot slots masters) ↔
      Restorable fsm former slots masters := by
  have separate := Twins.separate_applyAll grow (separate_empty rfl) reached
  constructor
  · intro replaces
    obtain ⟨-, -, -, -, slaveMasters, lists⟩ := restore_tables grow fsm former slots masters
    have same (id : Str) : slotsAt fsm.slot2Node slots id = fsm.indexed id :=
      (lists id).symm.trans (replaces.tables.node2Slot id)
    have ascending (id : Str) : (slotsAt fsm.slot2Node slots id).Pairwise (· < ·) :=
      lists id ▸ replaces.ascending id
    rw [replaces.tables.slaveMasters] at slaveMasters
    refine ⟨ascending, fun id => same id ▸ ascending id, ?_, ?_, ?_⟩
    · intro id slot
      rw [← same, mem_slotsAt slotRange]
    · intro slave master last
      rw [slaveMasters, last]
      rfl
    · intro slave last
      rw [slaveMasters, last]
      rfl
  · intro restorable
    have twins := restorable.twins grow separate slotRange
    refine ⟨twins.sameTables, ?_, ?_⟩
    · intro id
      rw [twins.lists]
      exact restorable.ascending id
    · intro entries
      have applied := twins.applyAll grow entries
      generalize fsm.applyAll grow entries = result at *
      generalize (former.restore grow fsm.snapshot slots masters).applyAll grow entries = result' at *
      cases applied with
      | none => exact .none
      | some twins => exact .some twins.sameTables

theorem restore_in_order_replaces :
    ∃ fsm, empty.applyAll (fun _ need => need) [.seedStart ⟨[97], 2⟩] = some fsm ∧
      Ranges fsm.slot2Node [0, 1] ∧
      Replaces (fun _ need => need) fsm (empty.restore (fun _ need => need) fsm.snapshot [0, 1] [[97]]) := by
  have seeded : empty.apply (fun _ need => need) (.seedStart ⟨[97], (2 : Nat)⟩) = some _ := rfl
  have inv := seedStart_inv (fun _ need => need) [97] (by decide) seeded
  have reached : empty.applyAll (fun _ need => need) [.seedStart ⟨[97], 2⟩] = some _ := rfl
  have range : Ranges (Finmap.insert 1 [97] (Finmap.insert 0 [97] (∅ : Finmap fun _ : Nat => Str)))
      [0, 1] := ⟨by decide, by simp [or_comm, Finmap.notMem_empty]⟩
  refine ⟨_, reached, range, (restore_replaces_iff _ reached range _ _).mpr ?_⟩
  refine ⟨?_, inv.routed.ascending, inv.routed.exact_index, ?_, ?_⟩
  · intro id
    have ascending : [0, 1].Pairwise (· < ·) := by decide
    exact ascending.sublist List.filter_sublist
  · intro slave master last
    cases last
  · intro slave _
    rfl

/-- Slots 1 and 0 of node `a` come in this order: slot 0 stays in the restored list when
it is moved to `b`.  A follower in which `b` is a slave of `a` restores a state in which
`b` has taken over: `a` stays the master of `b`. -/
theorem restore_diverges :
    (∃ fsm moved moved', empty.applyAll (fun _ need => need) [.seedStart ⟨[97], 2⟩] = some fsm ∧
      Ranges fsm.slot2Node [1, 0] ∧
      fsm.apply (fun _ need => need) (.finishMigrate ⟨[49], [97], [98], [0]⟩) = some moved ∧
      (empty.restore (fun _ need => need) fsm.snapshot [1, 0] [[97]]).apply (fun _ need => need)
        (.finishMigrate ⟨[49], [97], [98], [0]⟩) = some moved' ∧
      moved.indexed [97] = [1] ∧ moved'.indexed [97] = [1, 0]) ∧
    ∃ former fsm, empty.applyAll (fun _ need => need) [.seedStart ⟨[97], 0⟩, .join ⟨[98], [97]⟩] =
        some former ∧
      former.apply (fun _ need => need) (.finishFailover ⟨[49], [97], [98]⟩) = some fsm ∧
      fsm.slaveMasters.lookup [98] = none ∧
      (former.restore (fun _ need => need) fsm.snapshot [] [[98]]).slaveMasters.lookup [98] =
        some [97] := by
  have range : Ranges (Finmap.insert 1 [97] (Finmap.insert 0 [97] (∅ : Finmap fun _ : Nat => Str)))
      [1, 0] := ⟨by decide, by simp [Finmap.notMem_empty]⟩
  exact ⟨⟨_, _, _, rfl, range, rfl, rfl, by decide, by decide⟩, _, _, rfl, rfl, by decide, by decide⟩

end FSM

end Godis.Raft
