import Godis.Cluster.Fsm
import Godis.Golang.Map

/-!
# The two slot indexes of the raft state machine

`Routed` is the agreement of `Node2Slot` and `Slot2Node`.  It rests on `Separate`:
the slot lists of two nodes never share an array, so that editing one of them
leaves the others alone.
-/

namespace Godis.Raft.FSM

open Golang List

/-- The slot lists are within allocated arrays, and no two share one. -/
structure Separate (fsm : FSM) : Prop where
  valid : ∀ id, fsm.heap.Valid (fsm.slotsOf id)
  apart : ∀ first second, first ≠ second → (fsm.slotsOf first).Apart (fsm.slotsOf second)

/-- Every slot below `n` has an owner, and the slot list of a node ascends strictly
and holds exactly the slots the node owns. -/
structure Routed (n : Nat) (fsm : FSM) : Prop where
  owned : ∀ slot < n, ∃ id, fsm.slot2Node.lookup slot = some id
  ascending : ∀ id, (fsm.indexed id).Pairwise (· < ·)
  exact_index : ∀ id slot, slot ∈ fsm.indexed id ↔ fsm.slot2Node.lookup slot = some id

variable (grow : Nat → Nat → Nat)

theorem slotsOf_insert (fsm : FSM) (id : Str) (slots : Slice) (heap : Heap Nat) (other : Str) :
    ({ fsm with heap := heap, node2Slot := fsm.node2Slot.insert id slots } : FSM).slotsOf other =
      if other = id then slots else fsm.slotsOf other := by
  by_cases same : other = id
  · subst same
    simp [slotsOf]
  · simp [slotsOf, Finmap.lookup_insert_of_ne _ same, same]

/-! ## What is not about slots -/

structure Beside (fsm fsm' : FSM) : Prop where
  migratings : fsm'.migratings = fsm.migratings
  masterSlaves : fsm'.masterSlaves = fsm.masterSlaves
  slaveMasters : fsm'.slaveMasters = fsm.slaveMasters
  failovers : fsm'.failovers = fsm.failovers

variable {fsm fsm' fsm'' : FSM} {body : FSM → Nat → FSM} {id : Str} {index slotId kept n : Nat}
  {slots : Slice} {rest : List Nat}

theorem Beside.trans (first : Beside fsm fsm') (second : Beside fsm' fsm'') :
    Beside fsm fsm'' :=
  ⟨second.migratings.trans first.migratings, second.masterSlaves.trans first.masterSlaves,
    second.slaveMasters.trans first.slaveMasters, second.failovers.trans first.failovers⟩

theorem forRange_beside (beside : ∀ fsm slotId, Beside fsm (body fsm slotId)) (slots : Slice)
    (fsm : FSM) :
    Beside fsm (forRange slots body fsm) := by
  rw [forRange]
  generalize slots.len = count
  generalize 0 = i
  induction count generalizing i fsm with
  | zero => exact ⟨rfl, rfl, rfl, rfl⟩
  | succ count ih => exact (beside fsm _).trans (ih _ (i + 1))

theorem addSlots_beside (fsm : FSM) (id : Str) (slots : Slice) :
    Beside fsm (fsm.addSlots grow id slots) := by
  refine forRange_beside (fun fsm slotId => ?_) slots fsm
  rw [addSlot]
  split <;> exact ⟨rfl, rfl, rfl, rfl⟩

theorem removeFound_beside (id : Str) (index slotId fuel : Nat) (fsm : FSM) :
    Beside fsm (removeFound grow id index slotId fuel fsm) := by
  induction fuel generalizing fsm with
  | zero => exact ⟨rfl, rfl, rfl, rfl⟩
  | succ fuel ih =>
    rw [removeFound]
    split
    · have spliced : Beside fsm
          (fsm.spliceSlots grow id index ((fsm.indexed id).drop (index + 1))) :=
        ⟨rfl, rfl, rfl, rfl⟩
      exact spliced.trans (ih _)
    · exact ⟨rfl, rfl, rfl, rfl⟩

theorem removeSlots_beside (fsm : FSM) (id : Str) (slots : Slice) :
    Beside fsm (fsm.removeSlots grow id slots) := by
  refine forRange_beside (fun fsm slotId => ?_) slots fsm
  have found := removeFound_beside grow id (searchSlot (fsm.indexed id) slotId) slotId
    (fsm.indexed id).length fsm
  rw [removeSlot]
  split
  · exact found.trans ⟨rfl, rfl, rfl, rfl⟩
  · exact found

/-! ## Editing one slot list -/

structure Edits (id : Str) (fsm fsm' : FSM) : Prop where
  separate : fsm'.Separate
  slices : ∀ other, other ≠ id → fsm'.slotsOf other = fsm.slotsOf other
  others : ∀ other, other ≠ id → fsm'.indexed other = fsm.indexed other
  keeps : ∀ slice, fsm.heap.Valid slice → slice.Apart (fsm.slotsOf id) →
    Heap.Keeps fsm.heap fsm'.heap slice ∧ slice.Apart (fsm'.slotsOf id)

theorem Edits.refl (separate : fsm.Separate) : Edits id fsm fsm :=
  ⟨separate, fun _ _ => rfl, fun _ _ => rfl, fun _ valid apart => ⟨⟨rfl, valid⟩, apart⟩⟩

theorem Edits.trans (first : Edits id fsm fsm') (second : Edits id fsm' fsm'') :
    Edits id fsm fsm'' := by
  refine ⟨second.separate, ?_, ?_, ?_⟩
  · intro other differs
    rw [second.slices other differs, first.slices other differs]
  · intro other differs
    rw [second.others other differs, first.others other differs]
  · intro slice valid apart
    obtain ⟨kept, apart'⟩ := first.keeps slice valid apart
    obtain ⟨kept', apart''⟩ := second.keeps slice kept.valid apart'
    exact ⟨⟨kept'.view_eq.trans kept.view_eq, kept'.valid⟩, apart''⟩

theorem Edits.with_owners (edits : Edits id fsm fsm') (owners : Finmap fun _ : Nat => Str) :
    Edits id fsm { fsm' with slot2Node := owners } :=
  ⟨⟨edits.separate.valid, edits.separate.apart⟩, edits.slices, edits.others, edits.keeps⟩

theorem spliceSlots_spec (separate : fsm.Separate) (id : Str)
    (within : index ≤ (fsm.indexed id).length) (vals : List Nat) :
    Edits id fsm (fsm.spliceSlots grow id index vals) ∧
      (fsm.spliceSlots grow id index vals).indexed id = (fsm.indexed id).take index ++ vals := by
  rw [indexed, Heap.view_length (separate.valid id)] at within
  have appended := Heap.append_spec (separate.valid id) within vals
    (grow (fsm.heap.cells (fsm.slotsOf id).ptr).length (index + vals.length))
  have keeps : ∀ slice, fsm.heap.Valid slice → slice.Apart (fsm.slotsOf id) → _ ∧ _ :=
    fun _ => Heap.append_keeps index vals
      (grow (fsm.heap.cells (fsm.slotsOf id).ptr).length (index + vals.length))
  simp only [spliceSlots]
  generalize fsm.heap.append _ _ _ _ = result at appended keeps
  obtain ⟨heap', slots'⟩ := result
  obtain ⟨valid', view'⟩ := appended
  have keeps_other : ∀ other, other ≠ id → Heap.Keeps fsm.heap heap' (fsm.slotsOf other) ∧
      (fsm.slotsOf other).Apart slots' :=
    fun other differs => keeps (fsm.slotsOf other) (separate.valid other)
      (separate.apart other id differs)
  refine ⟨⟨⟨?_, ?_⟩, ?_, ?_, ?_⟩, ?_⟩
  · intro other
    rw [slotsOf_insert]
    split
    · exact valid'
    · exact (keeps_other other ‹_›).1.valid
  · intro first second differ
    rw [slotsOf_insert, slotsOf_insert]
    split
    · rw [if_neg (by rintro rfl; exact differ ‹_›)]
      subst first
      exact (keeps_other second differ.symm).2.symm
    · split
      · exact (keeps_other first ‹_›).2
      · exact separate.apart first second differ
  · intro other differs
    rw [slotsOf_insert, if_neg differs]
  · intro other differs
    rw [indexed, slotsOf_insert, if_neg differs]
    exact (keeps_other other differs).1.view_eq
  · intro slice slice_valid apart
    rw [slotsOf_insert, if_pos rfl]
    exact keeps slice slice_valid apart
  · rw [indexed, slotsOf_insert, if_pos rfl]
    exact view'

/-! ## One slot -/

theorem found_iff {slots : List Nat} (ascending : slots.Pairwise (· < ·)) (slotId : Nat) :
    slots[searchSlot slots slotId]? = some slotId ↔ slotId ∈ slots := by
  obtain ⟨-, below, above⟩ := search_ascending ascending
  constructor
  · exact List.mem_of_getElem?
  · intro mem
    rw [← take_append_drop (searchSlot slots slotId) slots, mem_append] at mem
    rcases mem with mem | mem
    · exact absurd (below slotId mem) (Nat.lt_irrefl _)
    · have first := List.head?_drop (i := searchSlot slots slotId) (l := slots)
      rw [← first]
      cases rest : slots.drop (searchSlot slots slotId) with
      | nil =>
        rw [rest] at mem
        cases mem
      | cons head tail =>
        have sorted := ascending.sublist (drop_sublist (searchSlot slots slotId) slots)
        have least := above head (by
          show head ∈ slots.drop (searchSlot slots slotId)
          rw [rest]
          exact mem_cons_self)
        rw [rest] at mem sorted
        rcases mem_cons.mp mem with rfl | later
        · rfl
        · have := List.rel_of_pairwise_cons sorted later
          omega

theorem insert_ascending {slots : List Nat} (ascending : slots.Pairwise (· < ·))
    (fresh : slotId ∉ slots) :
    (slots.take (searchSlot slots slotId) ++ slotId :: slots.drop (searchSlot slots slotId)).Pairwise
      (· < ·) := by
  obtain ⟨-, below, above⟩ := search_ascending ascending
  have larger : ∀ x ∈ slots.drop (searchSlot slots slotId), slotId < x := by
    intro x mem
    refine Nat.lt_of_le_of_ne (above x mem) ?_
    rintro rfl
    exact fresh (List.mem_of_mem_drop mem)
  rw [List.pairwise_append, List.pairwise_cons]
  refine ⟨ascending.sublist (List.take_sublist _ _),
    ⟨larger, ascending.sublist (drop_sublist _ _)⟩, ?_⟩
  intro x small y mem
  have before := below x small
  rcases mem_cons.mp mem with rfl | later
  · exact before
  · exact Nat.lt_trans before (larger y later)

theorem addSlot_present (ascending : (fsm.indexed id).Pairwise (· < ·))
    (present : slotId ∈ fsm.indexed id) :
    addSlot grow id fsm slotId = { fsm with slot2Node := fsm.slot2Node.insert slotId id } := by
  rw [addSlot, if_pos ((found_iff ascending slotId).mpr present)]

theorem addSlot_spec (separate : fsm.Separate) (ascending : (fsm.indexed id).Pairwise (· < ·))
    (slotId : Nat) :
    Edits id fsm (addSlot grow id fsm slotId) ∧
      ((addSlot grow id fsm slotId).indexed id).Pairwise (· < ·) ∧
      (∀ slot, slot ∈ (addSlot grow id fsm slotId).indexed id ↔
        slot = slotId ∨ slot ∈ fsm.indexed id) ∧
      (addSlot grow id fsm slotId).slot2Node = fsm.slot2Node.insert slotId id := by
  have upper : searchSlot (fsm.indexed id) slotId ≤ (fsm.indexed id).length :=
    (search_ascending ascending).1
  by_cases present : slotId ∈ fsm.indexed id
  · rw [addSlot_present grow ascending present]
    refine ⟨(Edits.refl separate).with_owners _, ascending, ?_, rfl⟩
    intro slot
    constructor
    · exact Or.inr
    · rintro (rfl | mem)
      · exact present
      · exact mem
  · obtain ⟨edits, eq⟩ := spliceSlots_spec grow separate id upper
      (slotId :: (fsm.indexed id).drop (searchSlot (fsm.indexed id) slotId))
    rw [addSlot, if_neg (fun found => present ((found_iff ascending slotId).mp found))]
    refine ⟨edits.with_owners _, ?_, ?_, rfl⟩
    · exact eq ▸ insert_ascending ascending present
    · intro slot
      refine (iff_of_eq (congrArg (slot ∈ ·) eq)).trans ?_
      conv_rhs =>
        rw [← take_append_drop (searchSlot (fsm.indexed id) slotId) (fsm.indexed id)]
      simp only [mem_append, mem_cons]
      tauto

theorem removeFound_spec (separate : fsm.Separate) (ascending : (fsm.indexed id).Pairwise (· < ·))
    (present : slotId ∈ fsm.indexed id) :
    removeFound grow id (searchSlot (fsm.indexed id) slotId) slotId (fsm.indexed id).length fsm =
      fsm.spliceSlots grow id (searchSlot (fsm.indexed id) slotId)
        ((fsm.indexed id).drop (searchSlot (fsm.indexed id) slotId + 1)) := by
  have found := (found_iff ascending slotId).mpr present
  have upper : searchSlot (fsm.indexed id) slotId ≤ (fsm.indexed id).length :=
    (search_ascending ascending).1
  generalize searchSlot (fsm.indexed id) slotId = index at *
  obtain ⟨fuel, length_eq⟩ : ∃ fuel, (fsm.indexed id).length = fuel + 1 :=
    ⟨(fsm.indexed id).length - 1, by have := List.length_pos_of_mem present; omega⟩
  rw [length_eq, removeFound, if_pos found]
  have eq := (spliceSlots_spec grow separate id upper ((fsm.indexed id).drop (index + 1))).2
  obtain ⟨inside, _⟩ := List.getElem?_eq_some_iff.mp found
  cases fuel with
  | zero => rfl
  | succ fuel =>
    rw [removeFound, if_neg]
    intro again
    rw [eq, List.getElem?_append_right (by simp), List.length_take_of_le upper, Nat.sub_self,
      List.getElem?_drop] at again
    obtain ⟨inside', here'⟩ := List.getElem?_eq_some_iff.mp again
    have := List.pairwise_iff_getElem.mp ascending index (index + 1) inside inside' (by omega)
    simp only [Nat.add_zero] at here'
    omega

theorem remove_ascending {slots : List Nat} (ascending : slots.Pairwise (· < ·))
    (found : slots[index]? = some slotId) :
    (slots.take index ++ slots.drop (index + 1)).Pairwise (· < ·) ∧
      ∀ slot, slot ∈ slots.take index ++ slots.drop (index + 1) ↔ slot ≠ slotId ∧ slot ∈ slots := by
  obtain ⟨inside, here⟩ := List.getElem?_eq_some_iff.mp found
  have cut : slots = slots.take index ++ slotId :: slots.drop (index + 1) := by
    rw [← here, ← List.drop_eq_getElem_cons inside, take_append_drop]
  generalize slots.take index = before at *
  generalize slots.drop (index + 1) = after at *
  subst cut
  simp only [List.pairwise_append, List.pairwise_cons, mem_cons, mem_append] at ascending ⊢
  obtain ⟨before_asc, ⟨larger, after_asc⟩, ordered⟩ := ascending
  refine ⟨⟨before_asc, after_asc, fun x small y large => ordered x small y (.inr large)⟩, ?_⟩
  intro slot
  constructor
  · rintro (small | large)
    · exact ⟨Nat.ne_of_lt (ordered slot small slotId (.inl rfl)), .inl small⟩
    · exact ⟨(Nat.ne_of_lt (larger slot large)).symm, .inr (.inr large)⟩
  · rintro ⟨differs, small | rfl | large⟩
    · exact .inl small
    · exact absurd rfl differs
    · exact .inr large

theorem removeFound_absent (ascending : (fsm.indexed id).Pairwise (· < ·))
    (absent : slotId ∉ fsm.indexed id) :
    removeFound grow id (searchSlot (fsm.indexed id) slotId) slotId (fsm.indexed id).length fsm =
      fsm := by
  cases (fsm.indexed id).length with
  | zero => rfl
  | succ fuel =>
    rw [removeFound, if_neg (fun here => absent ((found_iff ascending slotId).mp here))]

theorem removeFound_edits (separate : fsm.Separate) (ascending : (fsm.indexed id).Pairwise (· < ·))
    (slotId : Nat) :
    ∃ fsm', removeFound grow id (searchSlot (fsm.indexed id) slotId) slotId
        (fsm.indexed id).length fsm = fsm' ∧ Edits id fsm fsm' ∧
      (fsm'.indexed id).Pairwise (· < ·) ∧ fsm'.slot2Node = fsm.slot2Node ∧
      ∀ slot, slot ∈ fsm'.indexed id ↔ slot ≠ slotId ∧ slot ∈ fsm.indexed id := by
  have found := found_iff ascending slotId
  by_cases present : slotId ∈ fsm.indexed id
  · have upper : searchSlot (fsm.indexed id) slotId ≤ (fsm.indexed id).length :=
      (search_ascending ascending).1
    obtain ⟨edits, eq⟩ := spliceSlots_spec grow separate id upper
      ((fsm.indexed id).drop (searchSlot (fsm.indexed id) slotId + 1))
    obtain ⟨ascending', members⟩ := remove_ascending ascending (found.mpr present)
    rw [← eq] at ascending' members
    exact ⟨_, removeFound_spec grow separate ascending present, edits, ascending', rfl, members⟩
  · refine ⟨fsm, removeFound_absent grow ascending present, .refl separate, ascending, rfl, ?_⟩
    intro slot
    constructor
    · intro mem
      exact ⟨fun same => present (same ▸ mem), mem⟩
    · exact And.right

theorem removeSlot_spec (separate : fsm.Separate) (ascending : (fsm.indexed id).Pairwise (· < ·))
    (slotId : Nat) :
    Edits id fsm (removeSlot grow id fsm slotId) ∧
      ((removeSlot grow id fsm slotId).indexed id).Pairwise (· < ·) ∧
      (∀ slot, slot ∈ (removeSlot grow id fsm slotId).indexed id ↔
        slot ≠ slotId ∧ slot ∈ fsm.indexed id) ∧
      ∀ slot, (removeSlot grow id fsm slotId).slot2Node.lookup slot =
        if slot = slotId ∧ fsm.slot2Node.lookup slot = some id then none
        else fsm.slot2Node.lookup slot := by
  obtain ⟨fsm', eq, edits, ascending', owners, members⟩ :=
    removeFound_edits grow separate ascending slotId
  simp only [removeSlot, eq]
  by_cases mine : (fsm'.slot2Node.lookup slotId).getD [] = id
  · rw [if_pos mine]
    refine ⟨edits.with_owners _, ascending', members, ?_⟩
    intro slot
    by_cases same : slot = slotId
    · subst same
      simp only [Finmap.lookup_erase, true_and]
      split
      · rfl
      · cases owner : fsm.slot2Node.lookup slot with
        | none => rfl
        | some holder => simp_all
    · simp [Finmap.lookup_erase_ne same, same, owners]
  · rw [if_neg mine]
    refine ⟨edits, ascending', members, ?_⟩
    intro slot
    rw [owners] at mine ⊢
    rw [if_neg]
    rintro ⟨rfl, owner⟩
    rw [owner] at mine
    exact mine rfl

/-! ## Loops over a list that nothing edits -/

def Ordered (id : Str) (fsm : FSM) : Prop :=
  fsm.Separate ∧ (fsm.indexed id).Pairwise (· < ·)

theorem rangeLoop_eq_foldl (step : ∀ fsm slotId, Ordered id fsm → Edits id fsm (body fsm slotId) ∧
      Ordered id (body fsm slotId)) (slots : Slice) (elems : List Nat) (count i : Nat) (fsm : FSM)
    (ordered : Ordered id fsm) (valid : fsm.heap.Valid slots) (apart : slots.Apart (fsm.slotsOf id))
    (view_eq : fsm.heap.view slots = elems) (remaining : i + count = elems.length) :
    rangeLoop slots body count i fsm = (elems.drop i).foldl body fsm := by
  induction count generalizing i fsm with
  | zero => rw [rangeLoop, List.drop_eq_nil_of_le (by omega), List.foldl_nil]
  | succ count ih =>
    have inside : i < elems.length := by omega
    have read : (fsm.heap.cells slots.ptr).getD i 0 = elems[i] := by
      have bound := Heap.view_length valid
      rw [view_eq] at bound
      have fits := valid.fits
      simp only [← view_eq, Heap.view, List.getElem_take]
      rw [List.getD_eq_getElem _ _ (by omega)]
    obtain ⟨edits, ordered'⟩ := step fsm elems[i] ordered
    obtain ⟨kept, apart'⟩ := edits.keeps slots valid apart
    rw [rangeLoop, read, List.drop_eq_getElem_cons inside]
    exact ih (i + 1) _ ordered' kept.valid apart' (kept.view_eq.trans view_eq) (by omega)

theorem forRange_eq_foldl (step : ∀ fsm slotId, Ordered id fsm → Edits id fsm (body fsm slotId) ∧
      Ordered id (body fsm slotId)) (ordered : Ordered id fsm) (valid : fsm.heap.Valid slots)
    (apart : slots.Apart (fsm.slotsOf id)) :
    forRange slots body fsm = (fsm.heap.view slots).foldl body fsm := by
  have length_eq := Heap.view_length valid
  exact rangeLoop_eq_foldl step slots (fsm.heap.view slots) slots.len 0 fsm ordered valid apart rfl
    (by omega)

theorem addSlots_spec (ordered : Ordered id fsm) (valid : fsm.heap.Valid slots)
    (apart : slots.Apart (fsm.slotsOf id)) :
    Edits id fsm (fsm.addSlots grow id slots) ∧ Ordered id (fsm.addSlots grow id slots) ∧
      (∀ slot, slot ∈ (fsm.addSlots grow id slots).indexed id ↔
        slot ∈ fsm.heap.view slots ∨ slot ∈ fsm.indexed id) ∧
      ∀ slot, (fsm.addSlots grow id slots).slot2Node.lookup slot =
        if slot ∈ fsm.heap.view slots then some id else fsm.slot2Node.lookup slot := by
  have step : ∀ fsm slotId, Ordered id fsm → Edits id fsm (addSlot grow id fsm slotId) ∧
      Ordered id (addSlot grow id fsm slotId) := by
    intro fsm slotId ordered
    obtain ⟨edits, ascending, -⟩ := addSlot_spec grow ordered.1 ordered.2 slotId
    exact ⟨edits, edits.separate, ascending⟩
  rw [addSlots, forRange_eq_foldl step ordered valid apart]
  generalize fsm.heap.view slots = elems
  clear valid apart
  induction elems generalizing fsm with
  | nil => exact ⟨.refl ordered.1, ordered, by simp, by simp⟩
  | cons slotId rest ih =>
    obtain ⟨edits, ascending, members, owners⟩ := addSlot_spec grow ordered.1 ordered.2 slotId
    obtain ⟨edits', ordered', members', owners'⟩ := ih ⟨edits.separate, ascending⟩
    refine ⟨edits.trans edits', ordered', ?_, ?_⟩
    · intro slot
      rw [foldl_cons, members', members, mem_cons]
      tauto
    · intro slot
      rw [foldl_cons, owners', owners]
      by_cases later : slot ∈ rest
      · simp [later]
      · by_cases same : slot = slotId
        · subst same
          simp [later]
        · simp [later, same, Finmap.lookup_insert_of_ne _ same]

theorem removeSlots_spec (ordered : Ordered id fsm) (valid : fsm.heap.Valid slots)
    (apart : slots.Apart (fsm.slotsOf id)) :
    Edits id fsm (fsm.removeSlots grow id slots) ∧ Ordered id (fsm.removeSlots grow id slots) ∧
      (∀ slot, slot ∈ (fsm.removeSlots grow id slots).indexed id ↔
        slot ∉ fsm.heap.view slots ∧ slot ∈ fsm.indexed id) ∧
      ∀ slot, (fsm.removeSlots grow id slots).slot2Node.lookup slot =
        if slot ∈ fsm.heap.view slots ∧ fsm.slot2Node.lookup slot = some id then none
        else fsm.slot2Node.lookup slot := by
  have step : ∀ fsm slotId, Ordered id fsm → Edits id fsm (removeSlot grow id fsm slotId) ∧
      Ordered id (removeSlot grow id fsm slotId) := by
    intro fsm slotId ordered
    obtain ⟨edits, ascending, -⟩ := removeSlot_spec grow ordered.1 ordered.2 slotId
    exact ⟨edits, edits.separate, ascending⟩
  rw [removeSlots, forRange_eq_foldl step ordered valid apart]
  generalize fsm.heap.view slots = elems
  clear valid apart
  induction elems generalizing fsm with
  | nil => exact ⟨.refl ordered.1, ordered, by simp, by simp⟩
  | cons slotId rest ih =>
    obtain ⟨edits, ascending, members, owners⟩ := removeSlot_spec grow ordered.1 ordered.2 slotId
    obtain ⟨edits', ordered', members', owners'⟩ := ih ⟨edits.separate, ascending⟩
    refine ⟨edits.trans edits', ordered', ?_, ?_⟩
    · intro slot
      rw [foldl_cons, members', members, mem_cons]
      tauto
    · intro slot
      rw [foldl_cons, owners', owners]
      by_cases same : slot = slotId
      · subst same
        by_cases owner : fsm.slot2Node.lookup slot = some id
        · simp [owner]
        · simp [owner]
      · simp [same]

/-! ## Shrinking the list that is ranged over -/

theorem removeSlot_lists (id : Str) (fsm : FSM) (slotId : Nat) :
    (removeSlot grow id fsm slotId).heap =
        (removeFound grow id (searchSlot (fsm.indexed id) slotId) slotId
          (fsm.indexed id).length fsm).heap ∧
      (removeSlot grow id fsm slotId).slotsOf =
        (removeFound grow id (searchSlot (fsm.indexed id) slotId) slotId
          (fsm.indexed id).length fsm).slotsOf := by
  rw [removeSlot]
  split <;> exact ⟨rfl, rfl⟩

theorem removeSlot_cells (separate : fsm.Separate) (ascending : (fsm.indexed id).Pairwise (· < ·))
    (present : slotId ∈ fsm.indexed id) :
    (removeSlot grow id fsm slotId).slotsOf id =
        ⟨(fsm.slotsOf id).ptr, (fsm.slotsOf id).len - 1⟩ ∧
      (removeSlot grow id fsm slotId).heap.cells (fsm.slotsOf id).ptr =
        (fsm.heap.cells (fsm.slotsOf id).ptr).take (searchSlot (fsm.indexed id) slotId) ++
          (fsm.indexed id).drop (searchSlot (fsm.indexed id) slotId + 1) ++
          (fsm.heap.cells (fsm.slotsOf id).ptr).drop ((fsm.slotsOf id).len - 1) := by
  have found := (found_iff ascending slotId).mpr present
  have valid := separate.valid id
  have length_eq : (fsm.indexed id).length = (fsm.slotsOf id).len := Heap.view_length valid
  obtain ⟨_, -⟩ := List.getElem?_eq_some_iff.mp found
  obtain ⟨_, at_ptr⟩ : ∃ ptr, (fsm.slotsOf id).ptr = some ptr := by
    cases at_ptr : (fsm.slotsOf id).ptr with
    | none =>
      rw [indexed, Heap.view, at_ptr] at present
      simp [Heap.cells] at present
    | some ptr => exact ⟨ptr, rfl⟩
  have count : searchSlot (fsm.indexed id) slotId +
      ((fsm.indexed id).drop (searchSlot (fsm.indexed id) slotId + 1)).length =
        (fsm.slotsOf id).len - 1 := by
    rw [length_drop]
    omega
  have room := Nat.le_trans (Nat.sub_le _ 1) valid.fits
  rw [← count] at room
  obtain ⟨slice_eq, cells_eq⟩ := Heap.append_in_place valid at_ptr room
  obtain ⟨heap_eq, lists_eq⟩ := removeSlot_lists grow id fsm slotId
  rw [heap_eq, lists_eq, removeFound_spec grow separate ascending present]
  constructor
  · rw [spliceSlots, slotsOf_insert, if_pos rfl, slice_eq, count]
  · rw [← count]
    exact cells_eq

theorem searchSlot_head (ascending : (slotId :: rest).Pairwise (· < ·)) :
    searchSlot (slotId :: rest) slotId = 0 := by
  obtain ⟨-, below, -⟩ := search_ascending ascending
  cases index : searchSlot (slotId :: rest) slotId with
  | zero => rfl
  | succ index' =>
    refine absurd (below slotId ?_) (Nat.lt_irrefl _)
    show slotId ∈ (slotId :: rest).take (searchSlot (slotId :: rest) slotId)
    rw [index]
    exact mem_cons_self

theorem read_own (separate : fsm.Separate) {i : Nat} (inside : i < (fsm.indexed id).length) :
    (fsm.heap.cells (fsm.slotsOf id).ptr).getD i 0 = (fsm.indexed id)[i] := by
  have length_eq : (fsm.indexed id).length = (fsm.slotsOf id).len :=
    Heap.view_length (separate.valid id)
  have fits := (separate.valid id).fits
  simp only [indexed, Heap.view, List.getElem_take]
  rw [List.getD_eq_getElem _ _ (by omega)]

theorem removeSlots_own (ordered : Ordered id fsm) (few : (fsm.indexed id).length ≤ 2) :
    Edits id fsm (fsm.removeSlots grow id (fsm.slotsOf id)) ∧
      (fsm.removeSlots grow id (fsm.slotsOf id)).indexed id = [] ∧
      ∀ slot, (fsm.removeSlots grow id (fsm.slotsOf id)).slot2Node.lookup slot =
        if slot ∈ fsm.indexed id ∧ fsm.slot2Node.lookup slot = some id then none
        else fsm.slot2Node.lookup slot := by
  obtain ⟨separate, ascending⟩ := ordered
  have length_eq : (fsm.indexed id).length = (fsm.slotsOf id).len :=
    Heap.view_length (separate.valid id)
  have read : ∀ i, (inside : i < (fsm.indexed id).length) → _ :=
    fun _ inside => read_own separate inside
  rw [removeSlots, forRange, ← length_eq]
  match slots : fsm.indexed id with
  | [] => exact ⟨.refl separate, slots, by simp [rangeLoop]⟩
  | [a] =>
    obtain ⟨edits, -, members, owners⟩ := removeSlot_spec grow separate ascending a
    simp only [slots] at read members
    simp only [List.length_singleton, rangeLoop, read 0 (by simp), List.getElem_cons_zero]
    refine ⟨edits, List.eq_nil_iff_forall_not_mem.mpr ?_, ?_⟩
    · intro slot mem
      have here := (members slot).mp mem
      exact here.1 (mem_singleton.mp here.2)
    · simpa using owners
  | [a, b] =>
    have present : a ∈ fsm.indexed id := by simp [slots]
    obtain ⟨edits, ascending', members, owners⟩ := removeSlot_spec grow separate ascending a
    obtain ⟨-, cells_eq⟩ := removeSlot_cells grow separate ascending present
    simp only [slots] at read members length_eq ascending cells_eq
    have second := read 1 (by simp)
    rw [searchSlot_head ascending, ← length_eq] at cells_eq
    have moved : ((removeSlot grow id fsm a).heap.cells (fsm.slotsOf id).ptr).getD 1 0 = b := by
      rw [cells_eq]
      simpa [getD_eq_getElem?_getD] using second
    obtain ⟨edits', -, members', owners'⟩ := removeSlot_spec grow edits.separate ascending' b
    simp only [length_cons, length_nil, rangeLoop, read 0 (by simp), moved,
      List.getElem_cons_zero]
    refine ⟨edits.trans edits', List.eq_nil_iff_forall_not_mem.mpr ?_, ?_⟩
    · intro slot mem
      obtain ⟨notB, mem'⟩ := (members' slot).mp mem
      obtain ⟨notA, here⟩ := (members slot).mp mem'
      rcases mem_pair.mp here with rfl | rfl
      · exact notA rfl
      · exact notB rfl
    · intro slot
      rw [owners', owners]
      by_cases first : slot = a
      · subst first
        by_cases owner : fsm.slot2Node.lookup slot = some id <;> simp [owner]
      · simp [first]
  | a :: b :: c :: rest =>
    rw [slots] at few
    simp at few

/-- The second slot of the list has come to the front while the loop has moved on. -/
structure Stuck (id : Str) (ptr : Option Nat) (kept n : Nat) (fsm : FSM) : Prop where
  separate : fsm.Separate
  ascending : (fsm.indexed id).Pairwise (· < ·)
  at_ptr : (fsm.slotsOf id).ptr = ptr
  front : (fsm.indexed id)[0]? = some kept
  larger : ∀ i, 1 ≤ i → i < n → kept < (fsm.heap.cells ptr).getD i 0

theorem shifted_getD {cells slots : List Nat} (inside : index < slots.length)
    (fits : slots.length ≤ cells.length) (i : Nat) :
    (cells.take index ++ slots.drop (index + 1) ++ cells.drop (slots.length - 1)).getD i 0 =
      if index ≤ i ∧ i < slots.length - 1 then slots.getD (i + 1) 0 else cells.getD i 0 := by
  have taken : (cells.take index).length = index := List.length_take_of_le (by omega)
  have dropped : (slots.drop (index + 1)).length = slots.length - (index + 1) := length_drop
  simp only [getD_eq_getElem?_getD, List.getElem?_append, length_append, taken, dropped,
    List.getElem?_drop]
  by_cases before : i < index
  · rw [if_pos (by omega), if_pos before, if_neg (by omega), List.getElem?_take_of_lt before]
  · by_cases moved : i < slots.length - 1
    · rw [if_pos (by omega), if_neg before, if_pos ⟨by omega, moved⟩]
      congr 2
      omega
    · rw [if_neg (by omega), if_neg (by omega)]
      congr 2
      omega

theorem Stuck.removeSlot {ptr : Option Nat} (stuck : Stuck id ptr kept n fsm)
    (other : kept < slotId) :
    Stuck id ptr kept n (removeSlot grow id fsm slotId) := by
  obtain ⟨separate, ascending, at_ptr, front, larger⟩ := stuck
  obtain ⟨edits, ascending', -⟩ := removeSlot_spec grow separate ascending slotId
  by_cases present : slotId ∈ fsm.indexed id
  · obtain ⟨slice_eq, cells_eq⟩ := removeSlot_cells grow separate ascending present
    have found := (found_iff ascending slotId).mpr present
    have length_eq : (fsm.indexed id).length = (fsm.slotsOf id).len :=
      Heap.view_length (separate.valid id)
    have fits := (separate.valid id).fits
    generalize searchSlot (fsm.indexed id) slotId = index at *
    obtain ⟨inside, _⟩ := List.getElem?_eq_some_iff.mp found
    obtain ⟨some_elem, front_eq⟩ := List.getElem?_eq_some_iff.mp front
    have later : 0 < index := by
      rcases Nat.eq_zero_or_pos index with rfl | later
      · omega
      · exact later
    rw [at_ptr] at slice_eq cells_eq fits
    rw [← length_eq] at slice_eq cells_eq fits
    have shifted := shifted_getD inside fits
    rw [← cells_eq] at shifted
    have zero := read_own separate some_elem
    rw [at_ptr, front_eq] at zero
    refine ⟨edits.separate, ascending', by rw [slice_eq], ?_, ?_⟩
    · have length_eq' : ((FSM.removeSlot grow id fsm slotId).indexed id).length = _ :=
        Heap.view_length (edits.separate.valid id)
      rw [slice_eq] at length_eq'
      have some_elem' : 0 < ((FSM.removeSlot grow id fsm slotId).indexed id).length := by
        rw [length_eq']
        show 0 < (fsm.indexed id).length - 1
        omega
      have zero' := read_own edits.separate some_elem'
      rw [slice_eq, shifted, if_neg (by omega), zero] at zero'
      rw [getElem?_eq_getElem some_elem', zero']
    · intro i low high
      rw [shifted]
      split
      · have next := List.pairwise_iff_getElem.mp ascending 0 (i + 1) some_elem (by omega) (by omega)
        rw [List.getD_eq_getElem _ _ (by omega)]
        omega
      · exact larger i low high
  · obtain ⟨heap_eq, lists_eq⟩ := removeSlot_lists grow id fsm slotId
    rw [removeFound_absent grow ascending present] at heap_eq lists_eq
    refine ⟨edits.separate, ascending', by rw [lists_eq, at_ptr], ?_, ?_⟩
    · rw [indexed, heap_eq, lists_eq]
      exact front
    · rw [heap_eq]
      exact larger

theorem Stuck.rangeLoop (count i : Nat) (stuck : Stuck id slots.ptr kept n fsm) (later : 1 ≤ i)
    (bound : i + count ≤ n) :
    Stuck id slots.ptr kept n (rangeLoop slots (FSM.removeSlot grow id) count i fsm) := by
  induction count generalizing i fsm with
  | zero => exact stuck
  | succ count ih =>
    refine ih (i + 1) (stuck.removeSlot grow (stuck.larger i later (by omega))) ?_ ?_
    · omega
    · omega

theorem removeSlots_own_keeps (ordered : Ordered id fsm) {a b c : Nat}
    (slots : fsm.indexed id = a :: b :: c :: rest) :
    b ∈ (fsm.removeSlots grow id (fsm.slotsOf id)).indexed id := by
  obtain ⟨separate, ascending⟩ := ordered
  have length_eq : (fsm.indexed id).length = (fsm.slotsOf id).len :=
    Heap.view_length (separate.valid id)
  have fits := (separate.valid id).fits
  have present : a ∈ fsm.indexed id := by simp [slots]
  have first : (fsm.heap.cells (fsm.slotsOf id).ptr).getD 0 0 = a := by
    rw [read_own separate (by simp [slots])]
    simp [slots]
  obtain ⟨edits, ascending', _, -⟩ := removeSlot_spec grow separate ascending a
  obtain ⟨slice_eq, cells_eq⟩ := removeSlot_cells grow separate ascending present
  obtain ⟨count, three⟩ : ∃ count, (fsm.slotsOf id).len = count + 3 :=
    ⟨rest.length, by rw [← length_eq, slots]; rfl⟩
  have inside : 1 < (fsm.indexed id).length := by omega
  have second : (fsm.indexed id)[1] = b := by simp [slots]
  have start : searchSlot (fsm.indexed id) a = 0 := by
    rw [slots] at ascending ⊢
    exact searchSlot_head ascending
  rw [start, ← length_eq] at cells_eq
  have shifted := shifted_getD (by omega : 0 < (fsm.indexed id).length) (length_eq.trans_le fits)
  rw [← cells_eq] at shifted
  have stuck : Stuck id (fsm.slotsOf id).ptr b (count + 3) (removeSlot grow id fsm a) := by
    refine ⟨edits.separate, ascending', by rw [slice_eq], ?_, ?_⟩
    · have length_eq' : ((removeSlot grow id fsm a).indexed id).length = _ :=
        Heap.view_length (edits.separate.valid id)
      rw [slice_eq, three] at length_eq'
      have zero := read_own edits.separate (Nat.lt_of_lt_of_eq (Nat.zero_lt_succ _) length_eq'.symm)
      rw [slice_eq, shifted, if_pos (by omega), List.getD_eq_getElem _ _ inside] at zero
      rw [getElem?_eq_getElem (Nat.lt_of_lt_of_eq (Nat.zero_lt_succ _) length_eq'.symm), ← zero,
        second]
    · intro i low high
      have larger : ∀ j, 1 < j → (bound : j < (fsm.indexed id).length) → b < (fsm.indexed id)[j] := by
        intro j after bound
        rw [← second]
        exact List.pairwise_iff_getElem.mp ascending 1 j inside bound after
      rw [shifted]
      split
      · rw [List.getD_eq_getElem _ _ (by omega)]
        exact larger (i + 1) (by omega) (by omega)
      · rw [read_own separate (by omega)]
        exact larger i (by omega) (by omega)
  have kept := (stuck.rangeLoop grow (count + 2) 1 (by omega) (by omega)).front
  rw [removeSlots, forRange, three, rangeLoop, first]
  exact List.mem_of_getElem? kept

end Godis.Raft.FSM
