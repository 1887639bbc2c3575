import Godis.Cluster.FsmInv

/-!
# The relation between masters and slaves along the raft log

`MasterSlaves` lists the slaves of each master and `SlaveMasters` points back.
Joining nodes and failovers keep the two maps inverse to each other, and a node
that has joined stays in one of them.
-/

namespace Godis.Raft

open Golang List
open Option (some.inj)

variable {masterSlaves : Finmap fun _ : Str => MasterSlave} {slaveMasters : Finmap fun _ : Str => Str}

/-- The two maps are inverse to each other, and no node is master and slave. -/
structure Linked (masterSlaves : Finmap fun _ : Str => MasterSlave)
    (slaveMasters : Finmap fun _ : Str => Str) : Prop where
  inverse : ∀ slave master, slaveMasters.lookup slave = some master ↔
    ∃ entry, masterSlaves.lookup master = some entry ∧ slave ∈ entry.slaves
  once : ∀ master entry, masterSlaves.lookup master = some entry → entry.slaves.Nodup
  apart : ∀ id, id ∈ masterSlaves → id ∉ slaveMasters
  named : ∀ master entry, masterSlaves.lookup master = some entry → entry.masterId = master

theorem linked_empty : Linked ∅ ∅ where
  inverse := by simp
  once := by simp
  apart id member := absurd member Finmap.notMem_empty
  named := by simp

variable {id : Str}

theorem Linked.addMaster (linked : Linked masterSlaves slaveMasters) (fresh : id ∉ masterSlaves)
    (alone : id ∉ slaveMasters) :
    Linked (masterSlaves.insert id ⟨id, []⟩) slaveMasters where
  inverse slave master := by
    rw [linked.inverse]
    rcases eq_or_ne master id with rfl | other
    · simp [Finmap.lookup_eq_none.mpr fresh]
    · rw [Finmap.lookup_insert_of_ne _ other]
  once master entry found := by
    rcases eq_or_ne master id with rfl | other
    · rw [Finmap.lookup_insert] at found
      cases found
      exact List.nodup_nil
    · exact linked.once master entry (Finmap.lookup_insert_of_ne _ other ▸ found)
  apart other member := by
    rcases Finmap.mem_insert.mp member with rfl | member
    · exact alone
    · exact linked.apart other member
  named master entry found := by
    rcases eq_or_ne master id with rfl | other
    · rw [Finmap.lookup_insert] at found
      cases found
      rfl
    · exact linked.named master entry (Finmap.lookup_insert_of_ne _ other ▸ found)

theorem Linked.addSlave (linked : Linked masterSlaves slaveMasters) {masterId : Str}
    {master : MasterSlave} (known : masterSlaves.lookup masterId = some master)
    (fresh : id ∉ masterSlaves) (alone : id ∉ slaveMasters) :
    id ∉ master.slaves ∧
    Linked (masterSlaves.insert masterId { master with slaves := master.slaves ++ [id] })
      (slaveMasters.insert id masterId) := by
  have nowhere : ∀ other entry, masterSlaves.lookup other = some entry → id ∉ entry.slaves := by
    intro other entry found listed
    have points := (linked.inverse id other).mpr ⟨entry, found, listed⟩
    rw [Finmap.lookup_eq_none.mpr alone] at points
    cases points
  refine ⟨nowhere masterId master known, ?_⟩
  constructor
  · intro slave other
    rcases eq_or_ne other masterId with rfl | otherMaster
    · rcases eq_or_ne slave id with rfl | otherSlave
      · simp
      · simp [Finmap.lookup_insert_of_ne _ otherSlave, linked.inverse, known, otherSlave]
    · rw [Finmap.lookup_insert_of_ne _ otherMaster]
      rcases eq_or_ne slave id with rfl | otherSlave
      · simp only [Finmap.lookup_insert, Option.some.injEq]
        constructor
        · intro same
          exact absurd same.symm otherMaster
        · rintro ⟨entry, found, listed⟩
          exact absurd listed (nowhere other entry found)
      · rw [Finmap.lookup_insert_of_ne _ otherSlave]
        exact linked.inverse slave other
  · intro other entry found
    rcases eq_or_ne other masterId with rfl | otherMaster
    · rw [Finmap.lookup_insert] at found
      cases found
      rw [List.nodup_append_comm]
      exact nodup_cons.mpr ⟨nowhere _ master known, linked.once _ master known⟩
    · exact linked.once other entry (Finmap.lookup_insert_of_ne _ otherMaster ▸ found)
  · intro other member
    have masters : other ∈ masterSlaves := by
      rcases Finmap.mem_insert.mp member with rfl | member
      · exact Finmap.mem_of_lookup_eq_some known
      · exact member
    rw [Finmap.mem_insert, not_or]
    refine ⟨?_, linked.apart other masters⟩
    rintro rfl
    exact fresh masters
  · intro other entry found
    rcases eq_or_ne other masterId with rfl | otherMaster
    · rw [Finmap.lookup_insert] at found
      cases found
      exact linked.named _ master known
    · exact linked.named other entry (Finmap.lookup_insert_of_ne _ otherMaster ▸ found)

/-! ## Failover -/

def redirect (slaveMasters : Finmap fun _ : Str => Str) (oldMaster : MasterSlave)
    (oldMasterId newMasterId : Str) : Finmap fun _ : Str => Str :=
  (((oldMaster.slaves.filter (· ≠ newMasterId)).foldl
    (fun masters slave => masters.insert slave newMasterId) slaveMasters).insert
      oldMasterId newMasterId).erase newMasterId

def promote (masterSlaves : Finmap fun _ : Str => MasterSlave) (oldMaster : MasterSlave)
    (oldMasterId newMasterId : Str) : Finmap fun _ : Str => MasterSlave :=
  (masterSlaves.erase oldMasterId).insert newMasterId
    ⟨newMasterId, oldMaster.slaves.filter (· ≠ newMasterId) ++ [oldMasterId]⟩

variable {oldMaster : MasterSlave} {oldMasterId newMasterId : Str}

theorem lookup_redirect (oldMaster : MasterSlave) {slave : Str} :
    (redirect slaveMasters oldMaster oldMasterId newMasterId).lookup slave =
      if slave = newMasterId then none
      else if slave = oldMasterId ∨ slave ∈ oldMaster.slaves then some newMasterId
      else slaveMasters.lookup slave := by
  rw [redirect]
  rcases eq_or_ne slave newMasterId with rfl | notNew
  · rw [if_pos rfl, Finmap.lookup_erase]
  · rw [if_neg notNew, Finmap.lookup_erase_ne notNew]
    rcases eq_or_ne slave oldMasterId with rfl | notOld
    · rw [if_pos (.inl rfl), Finmap.lookup_insert]
    · rw [Finmap.lookup_insert_of_ne _ notOld, lookup_foldl_insert]
      simp [notNew, notOld]

theorem lookup_promote (differ : newMasterId ≠ oldMasterId) {master : Str} :
    (promote masterSlaves oldMaster oldMasterId newMasterId).lookup master =
      if master = newMasterId then
        some ⟨newMasterId, oldMaster.slaves.filter (· ≠ newMasterId) ++ [oldMasterId]⟩
      else if master = oldMasterId then none
      else masterSlaves.lookup master := by
  rw [promote]
  rcases eq_or_ne master newMasterId with rfl | notNew
  · rw [if_pos rfl, Finmap.lookup_insert]
  · rw [if_neg notNew, Finmap.lookup_insert_of_ne _ notNew]
    rcases eq_or_ne master oldMasterId with rfl | notOld
    · rw [if_pos rfl, Finmap.lookup_erase]
    · rw [if_neg notOld, Finmap.lookup_erase_ne notOld]

theorem Linked.failover (linked : Linked masterSlaves slaveMasters)
    (known : masterSlaves.lookup oldMasterId = some oldMaster)
    (slave : newMasterId ∈ oldMaster.slaves) :
    Linked (promote masterSlaves oldMaster oldMasterId newMasterId)
      (redirect slaveMasters oldMaster oldMasterId newMasterId) := by
  have pointed : slaveMasters.lookup newMasterId = some oldMasterId :=
    (linked.inverse newMasterId oldMasterId).mpr ⟨oldMaster, known, slave⟩
  have unpointed : slaveMasters.lookup oldMasterId = none :=
    Finmap.lookup_eq_none.mpr (linked.apart oldMasterId (Finmap.mem_of_lookup_eq_some known))
  have noMaster : masterSlaves.lookup newMasterId = none := by
    refine Finmap.lookup_eq_none.mpr fun member => ?_
    exact linked.apart newMasterId member (Finmap.mem_of_lookup_eq_some pointed)
  have differ : newMasterId ≠ oldMasterId := by
    rintro rfl
    rw [pointed] at unpointed
    cases unpointed
  have listed : ∀ other, other ∈ oldMaster.slaves ↔ slaveMasters.lookup other = some oldMasterId := by
    intro other
    rw [linked.inverse other oldMasterId, known]
    simp
  have unlisted : oldMasterId ∉ oldMaster.slaves := by
    rw [listed, unpointed]
    simp
  have notPointed : ∀ other, slaveMasters.lookup other ≠ some newMasterId := by
    intro other points
    obtain ⟨_, found, -⟩ := (linked.inverse other newMasterId).mp points
    rw [noMaster] at found
    cases found
  constructor
  · intro other master
    rw [lookup_redirect, lookup_promote differ]
    rcases eq_or_ne master newMasterId with rfl | notNew
    · rcases eq_or_ne other master with rfl | notMaster
      · simp [differ]
      · simp [notMaster, notPointed, or_comm, imp_iff_or_not]
    · rw [if_neg notNew]
      rcases eq_or_ne master oldMasterId with rfl | notOld
      · simp only [if_pos, reduceCtorEq, false_and, exists_false, iff_false]
        intro points
        split_ifs at points with isNew redirected
        · cases points
          exact notNew rfl
        · exact redirected (.inr ((listed other).mpr points))
      · rw [if_neg notOld, ← linked.inverse]
        rcases eq_or_ne other newMasterId with rfl | notNewSlave
        · simp [pointed, notOld.symm]
        · rw [if_neg notNewSlave]
          split_ifs with redirected
          · rcases redirected with rfl | redirected
            · simp [unpointed, notNew.symm]
            · simp [(listed other).mp redirected, notNew.symm, notOld.symm]
          · rfl
  · intro master entry found
    rw [lookup_promote differ] at found
    split_ifs at found with isNew isOld
    · cases found
      rw [List.nodup_append_comm]
      refine nodup_cons.mpr ⟨?_, (linked.once oldMasterId oldMaster known).filter _⟩
      exact fun member => unlisted (List.mem_of_mem_filter member)
    · exact linked.once master entry found
  · intro id member points
    rw [← Finmap.lookup_isSome, lookup_promote differ] at member
    rw [← Finmap.lookup_isSome, lookup_redirect] at points
    have back (old : id ∈ slaveMasters) : (masterSlaves.lookup id).isSome = false := by
      rw [← Bool.not_eq_true, Finmap.lookup_isSome]
      exact fun master => linked.apart id master old
    split_ifs at member points with isNew isOld redirected redirected
    · cases points
    · cases member
    · cases member
    · have old := (listed id).mp (redirected.resolve_left isOld)
      rw [back (Finmap.mem_of_lookup_eq_some old)] at member
      cases member
    · rw [back (Finmap.lookup_isSome.mp points)] at member
      cases member
  · intro master entry found
    rw [lookup_promote differ] at found
    split_ifs at found with isNew isOld
    · cases found
      exact isNew.symm
    · exact linked.named master entry found

/-! ## Runs -/

namespace FSM

def Related (fsm : FSM) (id : Str) : Prop := id ∈ fsm.masterSlaves ∨ id ∈ fsm.slaveMasters

/-- A node joins that is not in the relation, or a master hands over to one of its slaves. -/
def Eligible (fsm : FSM) : LogEntry → Prop
  | .join task => ¬ fsm.Related task.nodeId
  | .finishFailover task => ∃ oldMaster,
      fsm.masterSlaves.lookup task.oldMasterId = some oldMaster ∧
        task.newMasterId ∈ oldMaster.slaves
  | _ => False

variable (grow : Nat → Nat → Nat)

def EligibleAll (fsm : FSM) : List LogEntry → Prop
  | [] => True
  | entry :: rest =>
    fsm.Eligible entry ∧ ∀ fsm', fsm.apply grow entry = some fsm' → fsm'.EligibleAll rest

variable {fsm : FSM} {oldMaster : MasterSlave} {oldMasterId id newMasterId : Str}

theorem failover_eq (known : fsm.masterSlaves.lookup oldMasterId = some oldMaster) :
    fsm.failover oldMasterId newMasterId = some { fsm with
      masterSlaves := promote fsm.masterSlaves oldMaster oldMasterId newMasterId
      slaveMasters := redirect fsm.slaveMasters oldMaster oldMasterId newMasterId } := by
  rw [failover, known]
  rfl

structure Succeeds (fsm fsm' : FSM) : Prop where
  linked : Linked fsm'.masterSlaves fsm'.slaveMasters
  stays : ∀ id, fsm.Related id → fsm'.Related id

variable (linked : Linked fsm.masterSlaves fsm.slaveMasters)

include linked in
theorem join_succeeds (fresh : ¬ fsm.Related id) {masterId : Str} : Succeeds fsm (fsm.addNode id masterId) := by
  obtain ⟨noMaster, noSlave⟩ := not_or.mp fresh
  rw [addNode]
  split
  · refine ⟨linked.addMaster noMaster noSlave, ?_⟩
    rintro _ (master | slave)
    · exact .inl (Finmap.mem_insert.mpr (.inr master))
    · exact .inr slave
  · split
    · exact ⟨linked, fun _ related => related⟩
    · next master known =>
        obtain ⟨absent, added⟩ := linked.addSlave known noMaster noSlave
        rw [if_neg absent]
        refine ⟨added, ?_⟩
        rintro _ (master | slave)
        · exact .inl (Finmap.mem_insert.mpr (.inr master))
        · exact .inr (Finmap.mem_insert.mpr (.inr slave))

theorem mem_redirect (slaveMasters : Finmap fun _ : Str => Str) (oldMaster : MasterSlave)
    (notNew : id ≠ newMasterId) (old : id = oldMasterId ∨ id ∈ slaveMasters) :
    id ∈ redirect slaveMasters oldMaster oldMasterId newMasterId := by
  rw [← Finmap.lookup_isSome, lookup_redirect, if_neg notNew]
  split
  · rfl
  · next other =>
      obtain ⟨notOld, -⟩ := not_or.mp other
      exact Finmap.lookup_isSome.mpr (old.resolve_left notOld)

include linked in
theorem failover_succeeds (known : fsm.masterSlaves.lookup oldMasterId = some oldMaster)
    (slave : newMasterId ∈ oldMaster.slaves) :
    ∃ fsm', fsm.failover oldMasterId newMasterId = some fsm' ∧ Succeeds fsm fsm' := by
  refine ⟨_, failover_eq known, linked.failover known slave, ?_⟩
  intro id related
  rcases eq_or_ne id newMasterId with rfl | notNew
  · exact .inl (Finmap.mem_insert.mpr (.inl rfl))
  · rcases related with master | slave
    · rcases eq_or_ne id oldMasterId with rfl | notOld
      · exact .inr (mem_redirect _ _ notNew (.inl rfl))
      · exact .inl (Finmap.mem_insert.mpr (.inr (Finmap.mem_erase.mpr ⟨notOld, master⟩)))
    · exact .inr (mem_redirect _ _ notNew (.inr slave))

theorem Succeeds.beside {fsm' fsm'' : FSM} (succeeds : Succeeds fsm fsm')
    (beside : Beside fsm' fsm'') : Succeeds fsm fsm'' := by
  obtain ⟨linked, stays⟩ := succeeds
  unfold Related at stays
  rw [← beside.masterSlaves, ← beside.slaveMasters] at linked stays
  exact ⟨linked, stays⟩

include linked in
theorem step_succeeds {entry : LogEntry} (eligible : fsm.Eligible entry) :
    ∃ fsm', fsm.apply grow entry = some fsm' ∧ Succeeds fsm fsm' := by
  cases entry with
  | join task => exact ⟨_, rfl, join_succeeds linked eligible⟩
  | finishFailover task =>
    obtain ⟨_, known, slave⟩ := eligible
    obtain ⟨fsm₁, failed, succeeds⟩ := failover_succeeds linked known slave
    refine ⟨_, by rw [apply, failed]; rfl, ?_⟩
    have moved := (addSlots_beside grow fsm₁ task.newMasterId (fsm₁.slotsOf task.oldMasterId)).trans
      (removeSlots_beside grow _ task.oldMasterId (fsm₁.slotsOf task.oldMasterId))
    obtain ⟨linked', stays⟩ := succeeds.beside moved
    exact ⟨linked', stays⟩
  | _ => cases eligible

include linked in
theorem run_succeeds {entries : List LogEntry} (eligible : fsm.EligibleAll grow entries) :
    ∃ fsm', fsm.applyAll grow entries = some fsm' ∧ Succeeds fsm fsm' := by
  induction entries generalizing fsm with
  | nil => exact ⟨fsm, rfl, linked, fun _ related => related⟩
  | cons entry rest ih =>
    obtain ⟨first, later⟩ := eligible
    obtain ⟨fsm₁, applied, succeeds⟩ := step_succeeds grow linked first
    obtain ⟨fsm₂, applied', succeeds'⟩ := ih succeeds.linked (later fsm₁ applied)
    refine ⟨fsm₂, by rw [applyAll, applied]; exact applied', succeeds'.linked, ?_⟩
    exact fun id related => succeeds'.stays id (succeeds.stays id related)

theorem seedStart_linked {task : InitTask} (seeded : empty.apply grow (.seedStart task) = some fsm) :
    Linked fsm.masterSlaves fsm.slaveMasters := by
  rw [apply] at seeded
  split at seeded
  · cases seeded
  · obtain rfl := some.inj seeded
    exact linked_empty.addMaster Finmap.notMem_empty Finmap.notMem_empty

theorem eligibleAll_append {first later : List LogEntry}
    (eligible : fsm.EligibleAll grow (first ++ later)) :
    fsm.EligibleAll grow first ∧ ∀ fsm', fsm.applyAll grow first = some fsm' →
      fsm'.EligibleAll grow later ∧ fsm.applyAll grow (first ++ later) = fsm'.applyAll grow later := by
  induction first generalizing fsm with
  | nil =>
    refine ⟨trivial, ?_⟩
    intro fsm' same
    cases same
    exact ⟨eligible, rfl⟩
  | cons entry rest ih =>
    obtain ⟨now, afterwards⟩ := eligible
    refine ⟨⟨now, fun fsm₁ applied => (ih (afterwards fsm₁ applied)).1⟩, ?_⟩
    intro fsm' run
    rw [applyAll, Option.bind_eq_bind, Option.bind_eq_some_iff] at run
    obtain ⟨fsm₁, applied, run⟩ := run
    obtain ⟨eligible', same⟩ := (ih (afterwards fsm₁ applied)).2 fsm' run
    refine ⟨eligible', ?_⟩
    rw [cons_append, applyAll, applied]
    exact same

/-- From the seed start on, joins of new nodes and failovers to a slave never fail;
after each of them the two maps are inverse to each other, and every node that was
in the relation at any time before is still in it. -/
theorem relation_of_runs (task : InitTask) {seeded : FSM}
    (started : empty.apply grow (.seedStart task) = some seeded) (first later : List LogEntry)
    (eligible : seeded.EligibleAll grow (first ++ later)) :
    ∃ before after, seeded.applyAll grow first = some before ∧
      seeded.applyAll grow (first ++ later) = some after ∧
      Linked before.masterSlaves before.slaveMasters ∧
      Linked after.masterSlaves after.slaveMasters ∧
      (∀ id, seeded.Related id → before.Related id) ∧ ∀ id, before.Related id → after.Related id := by
  obtain ⟨now, after⟩ := eligibleAll_append grow eligible
  obtain ⟨before, run, succeeds⟩ := run_succeeds grow (seedStart_linked grow started) now
  obtain ⟨rest, same⟩ := after before run
  obtain ⟨last, run', succeeds'⟩ := run_succeeds grow succeeds.linked rest
  exact ⟨before, last, run, same.trans run', succeeds.linked, succeeds'.linked, succeeds.stays,
    succeeds'.stays⟩

theorem relation_of_failover_and_back :
    ∃ seeded before after, empty.apply (fun _ need => need) (.seedStart ⟨[97], 1⟩) = some seeded ∧
      seeded.applyAll (fun _ need => need) [.join ⟨[98], [97]⟩, .finishFailover ⟨[49], [97], [98]⟩] =
        some before ∧
      seeded.applyAll (fun _ need => need) [.join ⟨[98], [97]⟩, .finishFailover ⟨[49], [97], [98]⟩,
        .finishFailover ⟨[50], [98], [97]⟩] = some after ∧
      Linked before.masterSlaves before.slaveMasters ∧
      Linked after.masterSlaves after.slaveMasters ∧
      before.slaveMasters.lookup [97] = some [98] ∧ after.slaveMasters.lookup [98] = some [97] := by
  obtain ⟨before, after, run, run', linked, linked', -, -⟩ :=
    relation_of_runs (fun _ need => need) ⟨[97], 1⟩ rfl
      [.join ⟨[98], [97]⟩, .finishFailover ⟨[49], [97], [98]⟩]
      [.finishFailover ⟨[50], [98], [97]⟩] (by
        refine ⟨?_, fun _ joined => ?_⟩
        · rintro (master | slave)
          · revert master
            decide
          · revert slave
            decide
        · obtain rfl := some.inj joined
          refine ⟨⟨⟨[97], [[98]]⟩, by decide, by decide⟩, fun _ failed => ?_⟩
          obtain rfl := some.inj failed
          refine ⟨⟨⟨[98], [[97]]⟩, by decide, by decide⟩, fun _ _ => trivial⟩)
  refine ⟨_, before, after, rfl, run, run', linked, linked', ?_, ?_⟩
  · obtain rfl := some.inj run
    decide
  · obtain rfl := some.inj run'
    decide

end FSM

end Godis.Raft
