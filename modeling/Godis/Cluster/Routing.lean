import Godis.Cluster.FsmInv
import Godis.Cluster.Rebalance
import Godis.Transition.Reached

/-!
# The slot routing invariant along the raft log

A step keeps the two slot indexes in agreement when a migration finishes for
slots that are still with its source or already with its target, and when the
master that fails over has at most two slots.
-/

namespace Godis.Raft.FSM

open Golang List
open Option (bind_eq_bind some.inj some_inj)

variable (grow : Nat → Nat → Nat)

/-- The log entries that may follow the seed start in a given state. -/
inductive Enabled (fsm : FSM) : LogEntry → Prop
  | startMigrate (taskId : Nat → Str) (order : List MasterSlave) (task : MigratingTask) :
      RangeOrder fsm.masterSlaves order → task ∈ makeRebalancePlan fsm taskId order →
      Enabled fsm (.startMigrate task)
  | finishMigrate (task : MigratingTask) : fsm.migratings.lookup task.id = some task →
      Enabled fsm (.finishMigrate task)
  | finishFailover (task : FailoverTask) (oldMaster : MasterSlave) :
      fsm.masterSlaves.lookup task.oldMasterId = some oldMaster →
      task.newMasterId ∈ oldMaster.slaves → Enabled fsm (.finishFailover task)
  | join (task : JoinTask) : Enabled fsm (.join task)

/-- The condition under which a step keeps the slot indexes in agreement. -/
def Orderly (fsm : FSM) : LogEntry → Prop
  | .finishMigrate task =>
    ∀ slot ∈ task.slots, ∀ owner, fsm.slot2Node.lookup slot = some owner →
      owner = task.srcNode ∨ owner = task.targetNode
  | .finishFailover task =>
    fsm.indexed task.oldMasterId = [] ∨
      task.newMasterId ≠ task.oldMasterId ∧ (fsm.indexed task.oldMasterId).length ≤ 2
  | _ => True

/-- The state of a run: the slot indexes agree and no task stays on one node. -/
structure RoutingInv (n : Nat) (fsm : FSM) : Prop where
  separate : fsm.Separate
  routed : fsm.Routed n
  moves : ∀ id task, fsm.migratings.lookup id = some task → task.srcNode ≠ task.targetNode

variable {fsm fsm' : FSM} {n : Nat} {task : MigratingTask} {new old : Str}

theorem Routed.ordered (routed : fsm.Routed n) (separate : fsm.Separate) (id : Str) :
    Ordered id fsm := ⟨separate, routed.ascending id⟩

/-! ## Migration -/

theorem moveSlots_spec (separate : fsm.Separate)
    (ascending : ∀ id, (fsm.indexed id).Pairwise (· < ·)) {slots : Slice}
    (valid : fsm.heap.Valid slots) (apart : ∀ id, slots.Apart (fsm.slotsOf id)) {src target : Str}
    (moves : src ≠ target) (fsm' : FSM)
    (moved : (fsm.addSlots grow target slots).removeSlots grow src slots = fsm') :
    fsm'.Separate ∧ (∀ id, (fsm'.indexed id).Pairwise (· < ·)) ∧
      (∀ id slot, slot ∈ fsm'.indexed id ↔
        id = target ∧ slot ∈ fsm.heap.view slots ∨
        slot ∈ fsm.indexed id ∧ (id = src → slot ∉ fsm.heap.view slots)) ∧
      ∀ slot, fsm'.slot2Node.lookup slot =
        if slot ∈ fsm.heap.view slots then some target else fsm.slot2Node.lookup slot := by
  obtain ⟨edits₁, ordered₁, members₁, owners₁⟩ :=
    addSlots_spec grow ⟨separate, ascending target⟩ valid (apart target)
  obtain ⟨kept₁, -⟩ := edits₁.keeps slots valid (apart target)
  generalize fsm.addSlots grow target slots = fsm₁ at *
  have ascending₁ : (fsm₁.indexed src).Pairwise (· < ·) := edits₁.others src moves ▸ ascending src
  have apart₁ : slots.Apart (fsm₁.slotsOf src) := edits₁.slices src moves ▸ apart src
  obtain ⟨edits₂, ordered₂, members₂, owners₂⟩ :=
    removeSlots_spec grow ⟨edits₁.separate, ascending₁⟩ kept₁.valid apart₁
  rw [moved] at edits₂ ordered₂ members₂ owners₂
  rw [kept₁.view_eq] at members₂ owners₂
  refine ⟨edits₂.separate, ?_, ?_, ?_⟩
  · intro id
    by_cases at_src : id = src
    · exact at_src ▸ ordered₂.2
    · rw [edits₂.others id at_src]
      by_cases at_target : id = target
      · exact at_target ▸ ordered₁.2
      · exact edits₁.others id at_target ▸ ascending id
  · intro id slot
    by_cases at_src : id = src
    · subst at_src
      rw [members₂, edits₁.others _ moves]
      simp only [moves, false_and, false_or, forall_const]
      exact and_comm
    · rw [edits₂.others id at_src]
      by_cases at_target : id = target
      · subst at_target
        rw [members₁]
        simp [at_src]
      · rw [edits₁.others id at_target]
        simp [at_src, at_target]
  · intro slot
    rw [owners₂, owners₁]
    by_cases listed : slot ∈ fsm.heap.view slots
    · simp [listed, moves.symm]
    · simp [listed]

theorem finishMigrate_spec (separate : fsm.Separate) (routed : fsm.Routed n)
    (moves : task.srcNode ≠ task.targetNode) :
    ∃ fsm', fsm.apply grow (.finishMigrate task) = some fsm' ∧ fsm'.Separate ∧
      (∀ id, (fsm'.indexed id).Pairwise (· < ·)) ∧
      (∀ id slot, slot ∈ fsm'.indexed id ↔
        id = task.targetNode ∧ slot ∈ task.slots ∨
        slot ∈ fsm.indexed id ∧ (id = task.srcNode → slot ∉ task.slots)) ∧
      ∀ slot, fsm'.slot2Node.lookup slot =
        if slot ∈ task.slots then some task.targetNode else fsm.slot2Node.lookup slot := by
  have kept := fun id => Heap.keeps_alloc (separate.valid id) task.slots
  have separate' : Separate { fsm with
      heap := (fsm.heap.alloc task.slots).1, migratings := fsm.migratings.erase task.id } :=
    ⟨fun id => (kept id).1.valid, separate.apart⟩
  have indexed_eq : ∀ id, ({ fsm with
      heap := (fsm.heap.alloc task.slots).1, migratings := fsm.migratings.erase task.id } :
        FSM).indexed id = fsm.indexed id := fun id => (kept id).1.view_eq
  have moved := moveSlots_spec grow separate' (fun id => indexed_eq id ▸ routed.ascending id)
    (Heap.valid_alloc_fresh fsm.heap task.slots) (fun id => (kept id).2.symm) moves _ rfl
  simp only [Heap.view_alloc_fresh, indexed_eq] at moved
  exact ⟨_, rfl, moved⟩

theorem finishMigrate_routed (separate : fsm.Separate) (routed : fsm.Routed n)
    (moves : task.srcNode ≠ task.targetNode)
    (step : fsm.apply grow (.finishMigrate task) = some fsm') :
    fsm'.Routed n ↔ fsm.Orderly (.finishMigrate task) := by
  obtain ⟨_, eq, -, ascending, members, owners⟩ := finishMigrate_spec grow separate routed moves
  obtain rfl := some.inj (eq.symm.trans step)
  have index_old := routed.exact_index
  constructor
  · intro routed' slot listed owner owned
    by_contra elsewhere
    rw [not_or] at elsewhere
    have stale := (members owner slot).mpr
      (.inr ⟨(index_old owner slot).mpr owned, fun same => absurd same elsewhere.1⟩)
    have now := (routed'.exact_index owner slot).mp stale
    rw [owners, if_pos listed] at now
    exact elsewhere.2 (some.inj now).symm
  · intro orderly
    refine ⟨?_, ascending, ?_⟩
    · intro slot bound
      rw [owners]
      split
      · exact ⟨_, rfl⟩
      · exact routed.owned slot bound
    · intro id slot
      rw [members, owners, index_old]
      by_cases listed : slot ∈ task.slots
      · have owner_cases := orderly slot listed id
        simp only [listed, and_true, not_true_eq_false, imp_false, if_true, some_inj]
        constructor
        · rintro (at_target | ⟨owned, not_src⟩)
          · exact at_target.symm
          · exact ((owner_cases owned).resolve_left not_src).symm
        · intro at_target
          exact .inl at_target.symm
      · simp [listed]

/-! ## Failover -/

theorem removeFound_slot2Node (id : Str) (index slotId fuel : Nat) (fsm : FSM) :
    (removeFound grow id index slotId fuel fsm).slot2Node = fsm.slot2Node := by
  induction fuel generalizing fsm with
  | zero => rfl
  | succ fuel ih =>
    rw [removeFound]
    split
    · exact ih _
    · rfl

theorem removeSlots_owner (id : Str) (slots : Slice) (fsm : FSM) {slot : Nat} {owner : Str}
    (owned : (fsm.removeSlots grow id slots).slot2Node.lookup slot = some owner) :
    fsm.slot2Node.lookup slot = some owner := by
  rw [removeSlots, forRange] at owned
  generalize slots.len = count at owned
  generalize 0 = i at owned
  induction count generalizing i fsm with
  | zero => exact owned
  | succ count ih =>
    have before := ih _ _ owned
    rw [removeSlot] at before
    split at before
    · rw [removeFound_slot2Node] at before
      by_cases same : slot = (fsm.heap.cells slots.ptr).getD i 0
      · rw [← same, Finmap.lookup_erase] at before
        cases before
      · rwa [Finmap.lookup_erase_ne same] at before
    · rwa [removeFound_slot2Node] at before

/-- Handing the slots of one node over to another keeps the slot indexes in agreement
exactly when there are at most two of them. -/
theorem handOver_routed (separate : fsm.Separate) (routed : fsm.Routed n) (moves : new ≠ old)
    (handed : (fsm.addSlots grow new (fsm.slotsOf old)).removeSlots grow old (fsm.slotsOf old) =
      fsm') :
    fsm'.Separate ∧ fsm'.Routed n ↔ (fsm.indexed old).length ≤ 2 := by
  obtain ⟨edits₁, ordered₁, members₁, owners₁⟩ :=
    addSlots_spec grow (routed.ordered separate new) (separate.valid old)
      (separate.apart old new moves.symm)
  rw [show fsm.heap.view (fsm.slotsOf old) = fsm.indexed old from rfl] at members₁ owners₁
  have indexed₁ := edits₁.others old moves.symm
  have slots₁ := edits₁.slices old moves.symm
  generalize fsm.addSlots grow new (fsm.slotsOf old) = fsm₁ at *
  rw [← slots₁] at handed
  have old_ordered : Ordered old fsm₁ := ⟨edits₁.separate, indexed₁ ▸ routed.ascending old⟩
  constructor
  · rintro ⟨-, routed'⟩
    by_contra many
    obtain ⟨a, b, c, _, slots⟩ : ∃ a b c rest, fsm₁.indexed old = a :: b :: c :: rest := by
      rw [indexed₁]
      match slots : fsm.indexed old with
      | [] | [_] | [_, _] => simp [slots] at many
      | a :: b :: c :: rest => exact ⟨a, b, c, rest, rfl⟩
    have kept := removeSlots_own_keeps grow old_ordered slots
    rw [handed] at kept
    have owned := (routed'.exact_index old b).mp kept
    rw [← handed] at owned
    have owned₁ := removeSlots_owner grow old _ _ owned
    rw [owners₁, if_pos (by simp [← indexed₁, slots])] at owned₁
    exact moves (some.inj owned₁)
  · intro few
    obtain ⟨edits₂, emptied, owners₂⟩ := removeSlots_own grow old_ordered (indexed₁ ▸ few)
    rw [handed] at edits₂ emptied owners₂
    have owners : ∀ slot, fsm'.slot2Node.lookup slot =
        if slot ∈ fsm.indexed old then some new else fsm.slot2Node.lookup slot := by
      intro slot
      rw [owners₂, owners₁, indexed₁]
      by_cases listed : slot ∈ fsm.indexed old
      · simp [listed, moves]
      · simp [listed]
    refine ⟨edits₂.separate, ?_, ?_, ?_⟩
    · intro slot bound
      rw [owners]
      split
      · exact ⟨new, rfl⟩
      · exact routed.owned slot bound
    · intro id
      by_cases at_old : id = old
      · rw [at_old, emptied]
        exact .nil
      · rw [edits₂.others id at_old]
        by_cases at_new : id = new
        · exact at_new ▸ ordered₁.2
        · exact edits₁.others id at_new ▸ routed.ascending id
    · intro id slot
      have index_old := routed.exact_index
      have members : slot ∈ fsm'.indexed id ↔
          id = new ∧ slot ∈ fsm.indexed old ∨ id ≠ old ∧ slot ∈ fsm.indexed id := by
        by_cases at_old : id = old
        · subst at_old
          simp [emptied, moves.symm]
        · rw [edits₂.others id at_old]
          by_cases at_new : id = new
          · subst at_new
            simp [members₁, at_old]
          · simp [edits₁.others id at_new, at_old, at_new]
      rw [members, owners, index_old id]
      by_cases listed : slot ∈ fsm.indexed old
      · have owned := (index_old old slot).mp listed
        simp only [listed, owned, and_true, if_true, some_inj]
        constructor
        · rintro (at_new | ⟨not_old, at_old⟩)
          · exact at_new.symm
          · exact absurd at_old.symm not_old
        · intro at_new
          exact .inl at_new.symm
      · simp only [listed, and_false, false_or, if_false, and_iff_right_iff_imp]
        rintro owned rfl
        exact listed ((index_old id slot).mpr owned)

theorem Separate.congr (separate : fsm.Separate) (heap : fsm'.heap = fsm.heap)
    (lists : fsm'.node2Slot = fsm.node2Slot) : fsm'.Separate := by
  have slotsOf_eq : fsm'.slotsOf = fsm.slotsOf := funext fun id => by rw [slotsOf, lists, slotsOf]
  constructor
  · rw [heap, slotsOf_eq]
    exact separate.valid
  · rw [slotsOf_eq]
    exact separate.apart

theorem Routed.congr (routed : fsm.Routed n) (heap : fsm'.heap = fsm.heap)
    (lists : fsm'.node2Slot = fsm.node2Slot) (owners : fsm'.slot2Node = fsm.slot2Node) :
    fsm'.Routed n := by
  have indexed_eq : fsm'.indexed = fsm.indexed :=
    funext fun id => by rw [indexed, slotsOf, heap, lists, indexed, slotsOf]
  constructor
  · rw [owners]
    exact routed.owned
  · rw [indexed_eq]
    exact routed.ascending
  · rw [indexed_eq, owners]
    exact routed.exact_index

/-! ## Steps and runs -/

theorem addNode_fields {id masterId : Str} :
    (fsm.addNode id masterId).heap = fsm.heap ∧
      (fsm.addNode id masterId).node2Slot = fsm.node2Slot ∧
      (fsm.addNode id masterId).slot2Node = fsm.slot2Node ∧
      (fsm.addNode id masterId).migratings = fsm.migratings := by
  rw [addNode]
  split
  · exact ⟨rfl, rfl, rfl, rfl⟩
  · split <;> exact ⟨rfl, rfl, rfl, rfl⟩

theorem RoutingInv.congr (inv : RoutingInv n fsm) (heap : fsm'.heap = fsm.heap)
    (lists : fsm'.node2Slot = fsm.node2Slot) (owners : fsm'.slot2Node = fsm.slot2Node)
    (tasks : fsm'.migratings = fsm.migratings) :
    RoutingInv n fsm' :=
  ⟨inv.separate.congr heap lists, inv.routed.congr heap lists owners, tasks ▸ inv.moves⟩

theorem handOver_inv (inv : RoutingInv n fsm)
    (few : fsm.indexed old = [] ∨ new ≠ old ∧ (fsm.indexed old).length ≤ 2) :
    RoutingInv n
      ((fsm.addSlots grow new (fsm.slotsOf old)).removeSlots grow old (fsm.slotsOf old)) := by
  rcases few with none | ⟨moves, few⟩
  · have length_eq : (fsm.indexed old).length = (fsm.slotsOf old).len :=
      Heap.view_length (inv.separate.valid old)
    rw [none] at length_eq
    rw [addSlots, forRange, removeSlots, forRange, ← length_eq]
    exact inv
  · obtain ⟨separate, routed⟩ :=
      (handOver_routed grow inv.separate inv.routed moves rfl).mpr few
    refine ⟨separate, routed, ?_⟩
    rw [(removeSlots_beside grow _ _ _).migratings, (addSlots_beside grow _ _ _).migratings]
    exact inv.moves

theorem failover_fields (failed : fsm.failover old new = some fsm') :
    fsm'.heap = fsm.heap ∧ fsm'.node2Slot = fsm.node2Slot ∧ fsm'.slot2Node = fsm.slot2Node ∧
      fsm'.migratings = fsm.migratings := by
  simp only [failover, bind_eq_bind, Option.bind_eq_some_iff] at failed
  obtain ⟨_, -, eq⟩ := failed
  obtain rfl := some.inj eq
  exact ⟨rfl, rfl, rfl, rfl⟩

theorem finishFailover_inv (inv : RoutingInv n fsm) {task : FailoverTask}
    (orderly : fsm.Orderly (.finishFailover task))
    (step : fsm.apply grow (.finishFailover task) = some fsm') : RoutingInv n fsm' := by
  simp only [apply, bind_eq_bind, Option.bind_eq_some_iff] at step
  obtain ⟨fsm₀, failed, eq⟩ := step
  obtain ⟨heap, lists, owners, migratings⟩ := failover_fields failed
  have indexed_eq : fsm₀.indexed task.oldMasterId = fsm.indexed task.oldMasterId := by
    rw [indexed, slotsOf, heap, lists, indexed, slotsOf]
  rw [Orderly, ← indexed_eq] at orderly
  have inv' := handOver_inv grow (inv.congr heap lists owners migratings) orderly
  exact some.inj eq ▸ inv'.congr rfl rfl rfl rfl

theorem step_inv {entry : LogEntry} (inv : RoutingInv n fsm) (enabled : fsm.Enabled entry)
    (orderly : fsm.Orderly entry) (step : fsm.apply grow entry = some fsm') :
    RoutingInv n fsm' := by
  cases enabled with
  | startMigrate taskId order task range planned =>
    obtain rfl := some.inj step
    refine ⟨inv.separate.congr rfl rfl, inv.routed.congr rfl rfl rfl, ?_⟩
    intro id other found
    by_cases same : id = task.id
    · subst same
      rw [Finmap.lookup_insert] at found
      exact some.inj found ▸ plan_src_ne_target fsm taskId order planned
    · rw [Finmap.lookup_insert_of_ne _ same] at found
      exact inv.moves id other found
  | finishMigrate task running =>
    have moves := inv.moves task.id task running
    obtain ⟨_, eq, separate, -⟩ := finishMigrate_spec grow inv.separate inv.routed moves
    obtain rfl := some.inj (eq.symm.trans step)
    refine ⟨separate, (finishMigrate_routed grow inv.separate inv.routed moves step).mpr orderly, ?_⟩
    obtain rfl := some.inj step
    intro id other found
    rw [(removeSlots_beside grow _ _ _).migratings,
      (addSlots_beside grow _ _ _).migratings] at found
    by_cases same : id = task.id
    · subst same
      rw [Finmap.lookup_erase] at found
      cases found
    · rw [Finmap.lookup_erase_ne same] at found
      exact inv.moves id other found
  | finishFailover task oldMaster master slave => exact finishFailover_inv grow inv orderly step
  | join task =>
    obtain rfl := some.inj step
    obtain ⟨heap, lists, owners, migratings⟩ := addNode_fields
    exact inv.congr heap lists owners migratings

theorem assignSlots_inv {leader : Str} :
    RoutingInv n (empty.assignSlots leader (List.range n)) := by
  have slotsOf_eq : ∀ id, (empty.assignSlots leader (List.range n)).slotsOf id =
      if id = leader then (empty.heap.alloc (List.range n)).2 else .nil := by
    intro id
    exact slotsOf_insert empty leader _ (empty.heap.alloc (List.range n)).1 id
  have indexed_eq : ∀ id, (empty.assignSlots leader (List.range n)).indexed id =
      if id = leader then List.range n else [] := by
    intro id
    rw [indexed, slotsOf_eq]
    split
    · exact Heap.view_alloc_fresh
    · rfl
  have owners_eq : ∀ slot, (empty.assignSlots leader (List.range n)).slot2Node.lookup slot =
      if slot ∈ List.range n then some leader else none :=
    fun slot => lookup_foldl_insert leader (List.range n) ∅ slot
  refine ⟨⟨?_, ?_⟩, ⟨?_, ?_, ?_⟩, ?_⟩
  · intro id
    rw [slotsOf_eq]
    split
    · exact Heap.valid_alloc_fresh _ _
    · exact Heap.valid_nil
  · intro first second differ
    rw [slotsOf_eq, slotsOf_eq]
    by_cases at_leader : first = leader
    · rw [if_neg (fun same : second = leader => differ (at_leader.trans same.symm))]
      exact Slice.apart_nil
    · rw [if_neg at_leader]
      exact (Slice.apart_nil).symm
  · intro slot bound
    exact ⟨leader, by rw [owners_eq, if_pos (List.mem_range.mpr bound)]⟩
  · intro id
    rw [indexed_eq]
    split
    · exact List.pairwise_lt_range
    · exact .nil
  · intro id slot
    rw [indexed_eq, owners_eq]
    by_cases at_leader : id = leader
    · subst at_leader
      simp
    · simp [at_leader, Ne.symm at_leader]
  · intro id task found
    simp [assignSlots, empty] at found

theorem seedStart_inv (leader : Str) (small : n ≤ 2 ^ 32)
    (seeded : empty.apply grow (.seedStart ⟨leader, n⟩) = some fsm) : RoutingInv n fsm := by
  have slots_eq : (List.range n).map (· % 2 ^ 32) = List.range n := by
    conv_rhs => rw [← map_id (List.range n)]
    apply map_congr_left
    intro slot mem
    exact Nat.mod_eq_of_lt (Nat.lt_of_lt_of_le (List.mem_range.mp mem) small)
  have nonneg : ¬ ((n : Int) < 0) := by omega
  simp only [apply, nonneg, if_false, Int.toNat_natCast, slots_eq] at seeded
  obtain ⟨heap, lists, owners, migratings⟩ := addNode_fields
  exact some.inj seeded ▸ (assignSlots_inv).congr heap lists owners migratings

def Seeded (n : Nat) (fsm : FSM) : Prop :=
  n ≤ 2 ^ 32 ∧ ∃ leader, empty.apply grow (.seedStart ⟨leader, n⟩) = some fsm

abbrev Reached (n : Nat) : FSM → Prop :=
  Transition.Reached (apply grow) (Seeded grow n) fun fsm entry => fsm.Enabled entry ∧ fsm.Orderly entry

/-- In every run whose steps are orderly, every slot has an owner and the slot list of
every node is the ascending list of exactly the slots it owns, in every state. -/
theorem routing_of_orderly_runs {n : Nat} {fsm : FSM} (reached : Reached grow n fsm) :
    (∀ slot < n, ∃ id, fsm.slot2Node.lookup slot = some id) ∧
      ∀ id, (fsm.indexed id).Pairwise (· < ·) ∧
        ∀ slot, slot ∈ fsm.indexed id ↔ fsm.slot2Node.lookup slot = some id := by
  have inv : RoutingInv n fsm := by
    refine reached.invariant ?_ ?_
    · rintro _ ⟨small, leader, seeded⟩
      exact seedStart_inv grow leader small seeded
    · rintro _ _ _ inv ⟨enabled, orderly⟩ step
      exact step_inv grow inv enabled orderly step
  exact ⟨inv.routed.owned, fun id => ⟨inv.routed.ascending id, inv.routed.exact_index id⟩⟩

/-- Node `a` is seeded with three slots, `b` joins as its slave and takes over: `a`
still lists slot 1 afterwards, which belongs to `b`. -/
theorem failover_leaves_stale_slot :
    ∃ seeded joined failed, empty.apply (fun _ need => need) (.seedStart ⟨[97], 3⟩) = some seeded ∧
      seeded.Enabled (.join ⟨[98], [97]⟩) ∧
      seeded.apply (fun _ need => need) (.join ⟨[98], [97]⟩) = some joined ∧
      joined.Enabled (.finishFailover ⟨[49], [97], [98]⟩) ∧
      joined.apply (fun _ need => need) (.finishFailover ⟨[49], [97], [98]⟩) = some failed ∧
      1 ∈ failed.indexed [97] ∧ failed.slot2Node.lookup 1 = some [98] := by
  refine ⟨_, _, _, rfl, .join _, rfl, .finishFailover _ ⟨[97], [[98]]⟩ (by decide) (by decide), rfl, ?_, ?_⟩
  · decide
  · decide

theorem two_slots_fail_over :
    ∃ fsm, Reached (fun _ need => need) 2 fsm ∧ fsm.slot2Node.lookup 1 = some [98] ∧
      (∀ slot < 2, ∃ id, fsm.slot2Node.lookup slot = some id) ∧
      ∀ id, (fsm.indexed id).Pairwise (· < ·) ∧
        ∀ slot, slot ∈ fsm.indexed id ↔ fsm.slot2Node.lookup slot = some id := by
  have seeded : Reached (fun _ need => need) 2 _ := .start ⟨by decide, [97], rfl⟩
  have joined : Reached (fun _ need => need) 2 _ :=
    .step (.join ⟨[98], [97]⟩) seeded ⟨.join _, trivial⟩ rfl
  have failed : Reached (fun _ need => need) 2 _ :=
    .step (.finishFailover ⟨[49], [97], [98]⟩) joined
      ⟨.finishFailover _ ⟨[97], [[98]]⟩ (by decide) (by decide), .inr ⟨by decide, by decide⟩⟩ rfl
  exact ⟨_, failed, by decide, routing_of_orderly_runs _ failed⟩

end Godis.Raft.FSM
