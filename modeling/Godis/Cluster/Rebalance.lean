import Godis.Cluster.Fsm

/-!
# Rebalancing (`makeRebalancePlan` of `cluster/core/node_manager.go`)

Go ranges over a map in any order, so the masters come in a given order, and the
task ids are random strings, given by a function.
-/

namespace Godis.Raft

open Golang List

def slotCount : Nat := 1024

/-- `int(math.Ceil(float64(SlotCount) / float64(masters)))` -/
def avgSlot (masters : Nat) : Nat := (slotCount + masters - 1) / masters

variable (fsm : FSM) (avg : Nat) (taskId : Nat → Str)

def exports (nodeId : Str) : Bool := ((fsm.indexed nodeId).length : Int) > avg + 1

def imports (nodeId : Str) : Bool := ((fsm.indexed nodeId).length : Int) < (avg : Int) - 1

/-- The loop of `makeRebalancePlan` over the nodes still to export and to import. -/
def planLoop : Nat → List Str → List Str → List Nat → List MigratingTask
  | fuel + 1, exportNode :: exporting, importNode :: importing, exportSlots =>
    let exportSlots :=
      if exportSlots.length = 0 then
        (fsm.indexed exportNode).take ((fsm.indexed exportNode).length - avg)
      else exportSlots
    let requirements := avg - (fsm.indexed importNode).length
    if requirements ≤ exportSlots.length then
      ⟨taskId fuel, exportNode, importNode, exportSlots.take requirements⟩ ::
        planLoop fuel (exportNode :: exporting) importing (exportSlots.drop requirements)
    else
      ⟨taskId fuel, exportNode, importNode, exportSlots⟩ ::
        planLoop fuel exporting (importNode :: importing) []
  | _, _, _, _ => []

/-- A range loop over the map may meet its values in this order. -/
def RangeOrder (masterSlaves : Finmap fun _ : Str => MasterSlave) (order : List MasterSlave) : Prop :=
  ∃ keys : List Str, keys.Nodup ∧ (∀ id, id ∈ keys ↔ id ∈ masterSlaves) ∧
    keys.map masterSlaves.lookup = order.map some

/-- `order` lists the values of `fsm.MasterSlaves` as the range loop meets them. -/
def makeRebalancePlan (order : List MasterSlave) : List MigratingTask :=
  let avg := avgSlot order.length
  let exportingNodes := (order.map (·.masterId)).filter (exports fsm avg)
  let importingNodes := (order.map (·.masterId)).filter (imports fsm avg)
  planLoop fsm avg taskId (exportingNodes.length + importingNodes.length)
    exportingNodes importingNodes []

variable {task : MigratingTask}

theorem planLoop_nodes (fuel : Nat) (exporting importing : List Str) (exportSlots : List Nat)
    (planned : task ∈ planLoop fsm avg taskId fuel exporting importing exportSlots) :
    task.srcNode ∈ exporting ∧ task.targetNode ∈ importing := by
  induction fuel generalizing exporting importing exportSlots with
  | zero => simp [planLoop] at planned
  | succ fuel ih =>
    match exporting, importing with
    | [], _ => simp [planLoop] at planned
    | _ :: _, [] => simp [planLoop] at planned
    | exportNode :: exporting, importNode :: importing =>
      simp only [planLoop] at planned
      generalize (if exportSlots.length = 0 then _ else exportSlots) = slots at planned
      split at planned
      · rcases mem_cons.mp planned with rfl | later
        · exact ⟨mem_cons_self, mem_cons_self⟩
        · obtain ⟨src, target⟩ := ih _ _ _ later
          exact ⟨src, mem_cons_of_mem _ target⟩
      · rcases mem_cons.mp planned with rfl | later
        · exact ⟨mem_cons_self, mem_cons_self⟩
        · obtain ⟨src, target⟩ := ih _ _ _ later
          exact ⟨mem_cons_of_mem _ src, target⟩

theorem plan_src_ne_target (order : List MasterSlave)
    (planned : task ∈ makeRebalancePlan fsm taskId order) : task.srcNode ≠ task.targetNode := by
  obtain ⟨src, target⟩ := planLoop_nodes fsm _ taskId _ _ _ _ planned
  have above := (mem_filter.mp src).2
  have below := (mem_filter.mp target).2
  intro same
  rw [same] at above
  simp only [exports, imports, decide_eq_true_eq] at above below
  omega

end Godis.Raft
