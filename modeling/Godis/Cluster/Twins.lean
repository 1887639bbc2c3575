import Godis.Cluster.FsmInv

/-!
# Two state machines with the same tables

The slot lists of two state machines may lie in different arrays.  As long as a
list ascends, or its array has the same cells in both, every log entry has the
same effect on both; this includes the failover, which shrinks a list while
ranging over it.
-/

namespace Godis.Raft.FSM

open Golang List

variable (grow : Nat → Nat → Nat)

def cellsOf (fsm : FSM) (id : Str) : List Nat := fsm.heap.cells (fsm.slotsOf id).ptr

/-- The same tables, with slot lists in arrays of their own. -/
structure Twins (first second : FSM) : Prop where
  owners : second.slot2Node = first.slot2Node
  migratings : second.migratings = first.migratings
  masterSlaves : second.masterSlaves = first.masterSlaves
  slaveMasters : second.slaveMasters = first.slaveMasters
  separate : first.Separate
  separate' : second.Separate
  lists : ∀ id, second.indexed id = first.indexed id
  shapes : ∀ id, (first.indexed id).Pairwise (· < ·) ∨ second.cellsOf id = first.cellsOf id

variable {first second : FSM}

theorem Edits.cellsOf {fsm fsm' : FSM} {id : Str} (separate : fsm.Separate) (edits : Edits id fsm fsm')
    {other : Str} (differs : other ≠ id)
    (untouched : ∀ ptr, (∀ p, ptr = some p → p < fsm.heap.arrays.length) →
      ptr ≠ (fsm.slotsOf id).ptr ∨ ptr = none → fsm'.heap.cells ptr = fsm.heap.cells ptr) :
    fsm'.cellsOf other = fsm.cellsOf other := by
  rw [FSM.cellsOf, edits.slices other differs]
  refine untouched _ (separate.valid other).allocated ?_
  cases at_ptr : (fsm.slotsOf other).ptr with
  | none => exact .inr rfl
  | some ptr => exact .inl fun same => separate.apart other id differs ptr at_ptr same.symm

theorem spliceSlots_untouched (fsm : FSM) (id : Str) (index : Nat) (vals : List Nat)
    {ptr : Option Nat} (allocated : ∀ p, ptr = some p → p < fsm.heap.arrays.length)
    (ne : ptr ≠ (fsm.slotsOf id).ptr ∨ ptr = none) :
    (fsm.spliceSlots grow id index vals).heap.cells ptr = fsm.heap.cells ptr :=
  Heap.cells_append_ne allocated ne

theorem spliceSlots_cellsOf {fsm : FSM} (separate : fsm.Separate) (id : Str) (index : Nat)
    (vals : List Nat) :
    (fsm.spliceSlots grow id index vals).cellsOf id =
      Heap.spliced (fsm.cellsOf id) index vals (grow (fsm.cellsOf id).length (index + vals.length)) := by
  rw [cellsOf, spliceSlots, slotsOf_insert, if_pos rfl]
  exact Heap.cells_append (separate.valid id)

theorem spliceSlots_ptr (fsm : FSM) (id : Str) (index : Nat) (vals : List Nat) :
    ((fsm.spliceSlots grow id index vals).slotsOf id).ptr =
      if index + vals.length ≤ (fsm.cellsOf id).length then (fsm.slotsOf id).ptr
      else some fsm.heap.arrays.length := by
  rw [spliceSlots, slotsOf_insert, if_pos rfl]
  exact Heap.append_ptr

namespace Twins

theorem splice (twins : Twins first second) (id : Str) {index : Nat}
    (within : index ≤ (first.indexed id).length) (vals : List Nat)
    (ascends : (first.indexed id).Pairwise (· < ·) →
      ((first.indexed id).take index ++ vals).Pairwise (· < ·)) :
    Twins (first.spliceSlots grow id index vals) (second.spliceSlots grow id index vals) := by
  have within' : index ≤ (second.indexed id).length := by rwa [twins.lists]
  obtain ⟨edits, list⟩ := spliceSlots_spec grow twins.separate id within vals
  obtain ⟨edits', list'⟩ := spliceSlots_spec grow twins.separate' id within' vals
  refine ⟨twins.owners, twins.migratings, twins.masterSlaves, twins.slaveMasters, edits.separate,
    edits'.separate, ?_, ?_⟩
  · intro other
    rcases eq_or_ne other id with rfl | differs
    · rw [list, list', twins.lists]
    · rw [edits.others other differs, edits'.others other differs, twins.lists]
  · intro other
    rcases eq_or_ne other id with rfl | differs
    · rw [list, spliceSlots_cellsOf grow twins.separate, spliceSlots_cellsOf grow twins.separate']
      exact (twins.shapes other).imp ascends fun same => by rw [same]
    · rw [edits.others other differs,
        edits.cellsOf twins.separate differs fun _ => spliceSlots_untouched grow first id index vals,
        edits'.cellsOf twins.separate' differs
          fun _ => spliceSlots_untouched grow second id index vals]
      exact twins.shapes other

theorem assign (twins : Twins first second) (owners : Finmap fun _ : Nat => Str) :
    Twins { first with slot2Node := owners } { second with slot2Node := owners } :=
  ⟨rfl, twins.migratings, twins.masterSlaves, twins.slaveMasters,
    ⟨twins.separate.valid, twins.separate.apart⟩, ⟨twins.separate'.valid, twins.separate'.apart⟩,
    twins.lists, twins.shapes⟩

end Twins

/-! ## One slot -/

structure Editable (Rel : FSM → FSM → Prop) : Prop where
  twins : ∀ first second, Rel first second → Twins first second
  assign : ∀ first second owners, Rel first second →
    Rel { first with slot2Node := owners } { second with slot2Node := owners }

def Inserts (id : Str) (Rel : FSM → FSM → Prop) : Prop :=
  ∀ first second slotId, Rel first second →
    (first.indexed id)[searchSlot (first.indexed id) slotId]? ≠ some slotId →
    Rel (first.spliceSlots grow id (searchSlot (first.indexed id) slotId)
        (slotId :: (first.indexed id).drop (searchSlot (first.indexed id) slotId)))
      (second.spliceSlots grow id (searchSlot (first.indexed id) slotId)
        (slotId :: (first.indexed id).drop (searchSlot (first.indexed id) slotId)))

def Deletes (id : Str) (Rel : FSM → FSM → Prop) : Prop :=
  ∀ first second index, Rel first second → index < (first.indexed id).length →
    Rel (first.spliceSlots grow id index ((first.indexed id).drop (index + 1)))
      (second.spliceSlots grow id index ((first.indexed id).drop (index + 1)))

section Slots

variable {grow} {id : Str} {Rel : FSM → FSM → Prop}

theorem Editable.addSlot (editable : Editable Rel) (inserts : Inserts grow id Rel)
    (rel : Rel first second) (slotId : Nat) :
    Rel (addSlot grow id first slotId) (addSlot grow id second slotId) := by
  have twins := editable.twins first second rel
  rw [FSM.addSlot, FSM.addSlot, twins.lists]
  split
  · rw [twins.owners]
    exact editable.assign _ _ _ rel
  · next absent =>
      have spliced := inserts first second slotId rel absent
      rw [(editable.twins _ _ spliced).owners]
      exact editable.assign _ _ _ spliced

theorem Editable.removeFound (editable : Editable Rel) (deletes : Deletes grow id Rel)
    (rel : Rel first second) (index slotId fuel : Nat) :
    Rel (removeFound grow id index slotId fuel first) (removeFound grow id index slotId fuel second) := by
  induction fuel generalizing first second with
  | zero => exact rel
  | succ fuel ih =>
    have twins := editable.twins first second rel
    rw [FSM.removeFound, FSM.removeFound, twins.lists]
    split
    · next found => exact ih (deletes first second index rel (List.getElem?_eq_some_iff.mp found).1)
    · exact rel

theorem Editable.removeSlot (editable : Editable Rel) (deletes : Deletes grow id Rel)
    (rel : Rel first second) (slotId : Nat) :
    Rel (removeSlot grow id first slotId) (removeSlot grow id second slotId) := by
  have twins := editable.twins first second rel
  have found := editable.removeFound deletes rel (searchSlot (first.indexed id) slotId) slotId
    (first.indexed id).length
  rw [FSM.removeSlot, FSM.removeSlot, twins.lists, (editable.twins _ _ found).owners]
  split
  · exact editable.assign _ _ _ found
  · exact found

end Slots

theorem searchSlot_le {slots : List Nat} {slotId : Nat} : searchSlot slots slotId ≤ slots.length :=
  search_le _

theorem Twins.insert (twins : Twins first second) {id : Str} {slotId : Nat}
    (absent : (first.indexed id)[searchSlot (first.indexed id) slotId]? ≠ some slotId) :
    Twins (first.spliceSlots grow id (searchSlot (first.indexed id) slotId)
        (slotId :: (first.indexed id).drop (searchSlot (first.indexed id) slotId)))
      (second.spliceSlots grow id (searchSlot (first.indexed id) slotId)
        (slotId :: (first.indexed id).drop (searchSlot (first.indexed id) slotId))) := by
  refine twins.splice grow id searchSlot_le _ fun ascending => ?_
  exact insert_ascending ascending fun present => absent ((found_iff ascending slotId).mpr present)

theorem Twins.delete (twins : Twins first second) {id : Str} {index : Nat}
    (inside : index < (first.indexed id).length) :
    Twins (first.spliceSlots grow id index ((first.indexed id).drop (index + 1)))
      (second.spliceSlots grow id index ((first.indexed id).drop (index + 1))) := by
  refine twins.splice grow id inside.le _ fun ascending => ?_
  rw [← List.eraseIdx_eq_take_drop_succ]
  exact ascending.sublist (List.eraseIdx_sublist _ _)

/-! ## Loops -/

def read (fsm : FSM) (slots : Slice) (i : Nat) : Nat := (fsm.heap.cells slots.ptr).getD i 0

theorem rangeLoop_rel {Rel : FSM → FSM → Prop} {slots slots' : Slice} {body : FSM → Nat → FSM}
    {n : Nat} (reads : ∀ first second, Rel first second → ∀ i < n, second.read slots' i = first.read slots i)
    (step : ∀ first second, Rel first second → ∀ i < n,
      Rel (body first (first.read slots i)) (body second (first.read slots i)))
    (rel : Rel first second) (count i : Nat) (bound : i + count ≤ n) :
    Rel (rangeLoop slots body count i first) (rangeLoop slots' body count i second) := by
  induction count generalizing i first second with
  | zero => exact rel
  | succ count ih =>
    have inside : i < n := by omega
    have stepped := step first second rel i inside
    rw [rangeLoop, rangeLoop]
    have same : (second.heap.cells slots'.ptr).getD i 0 = first.read slots i :=
      reads first second rel i inside
    rw [same]
    exact ih stepped (i + 1) (by omega)

theorem forRange_rel {Rel : FSM → FSM → Prop} {slots slots' : Slice} {body : FSM → Nat → FSM}
    (len : slots'.len = slots.len)
    (reads : ∀ first second, Rel first second → ∀ i < slots.len,
      second.read slots' i = first.read slots i)
    (step : ∀ first second, Rel first second → ∀ i < slots.len,
      Rel (body first (first.read slots i)) (body second (first.read slots i)))
    (rel : Rel first second) : Rel (forRange slots body first) (forRange slots' body second) := by
  rw [forRange, forRange, len]
  exact rangeLoop_rel reads step rel slots.len 0 (by omega)

structure Edited (id : Str) (start start' first second : FSM) : Prop where
  twins : Twins first second
  edits : Edits id start first
  edits' : Edits id start' second

/-- The array of the list of `id` has the same cells in both, and so has the one the
loop reads; it is the array of the list in both or in neither. -/
structure ReadsCells (id : Str) (slots slots' : Slice) (first second : FSM) : Prop where
  twins : Twins first second
  own : second.cellsOf id = first.cellsOf id
  cells : second.heap.cells slots'.ptr = first.heap.cells slots.ptr
  allocated : ∀ p, slots.ptr = some p → p < first.heap.arrays.length
  allocated' : ∀ p, slots'.ptr = some p → p < second.heap.arrays.length
  place : slots.ptr = (first.slotsOf id).ptr ↔ slots'.ptr = (second.slotsOf id).ptr

structure ReadsOwn (id : Str) (slots slots' : Slice) (n : Nat) (first second : FSM) : Prop where
  twins : Twins first second
  place : (first.slotsOf id).ptr = slots.ptr
  place' : (second.slotsOf id).ptr = slots'.ptr
  shrunk : (first.indexed id).length ≤ n
  fits : n ≤ (first.cellsOf id).length
  fits' : n ≤ (second.cellsOf id).length
  front : (second.cellsOf id).take n = (first.cellsOf id).take n

section Relations

variable {grow} {id : Str} {slots slots' : Slice} {n : Nat} {start start' : FSM}

theorem Edited.editable : Editable (Edited id start start') where
  twins _ _ rel := rel.twins
  assign _ _ owners rel :=
    ⟨rel.twins.assign owners, rel.edits.with_owners owners, rel.edits'.with_owners owners⟩

theorem Edited.splice (rel : Edited id start start' first second) {index : Nat}
    (within : index ≤ (first.indexed id).length) {vals : List Nat}
    (twins : Twins (first.spliceSlots grow id index vals) (second.spliceSlots grow id index vals)) :
    Edited id start start' (first.spliceSlots grow id index vals)
      (second.spliceSlots grow id index vals) := by
  have within' : index ≤ (second.indexed id).length := by rwa [rel.twins.lists]
  exact ⟨twins, rel.edits.trans (spliceSlots_spec grow rel.twins.separate id within vals).1,
    rel.edits'.trans (spliceSlots_spec grow rel.twins.separate' id within' vals).1⟩

theorem Edited.inserts : Inserts grow id (Edited id start start') :=
  fun _ _ _ rel absent => rel.splice searchSlot_le (rel.twins.insert grow absent)

theorem Edited.deletes : Deletes grow id (Edited id start start') :=
  fun _ _ _ rel inside => rel.splice inside.le (rel.twins.delete grow inside)

theorem ReadsCells.editable : Editable (ReadsCells id slots slots') where
  twins _ _ rel := rel.twins
  assign _ _ owners rel :=
    ⟨rel.twins.assign owners, rel.own, rel.cells, rel.allocated, rel.allocated', rel.place⟩

theorem ReadsCells.splice (rel : ReadsCells id slots slots' first second) {index : Nat}
    {vals : List Nat}
    (twins : Twins (first.spliceSlots grow id index vals) (second.spliceSlots grow id index vals)) :
    ReadsCells id slots slots' (first.spliceSlots grow id index vals)
      (second.spliceSlots grow id index vals) := by
  have own : (second.spliceSlots grow id index vals).cellsOf id =
      (first.spliceSlots grow id index vals).cellsOf id := by
    rw [spliceSlots_cellsOf grow rel.twins.separate, spliceSlots_cellsOf grow rel.twins.separate',
      rel.own]
  have ptr := spliceSlots_ptr grow first id index vals
  have ptr' := spliceSlots_ptr grow second id index vals
  rw [rel.own] at ptr'
  refine ⟨twins, own, ?_, ?_, ?_, ?_⟩
  · by_cases room : index + vals.length ≤ (first.cellsOf id).length
    · rw [if_pos room] at ptr ptr'
      by_cases here : slots.ptr = (first.slotsOf id).ptr
      · rw [here, rel.place.mp here, ← ptr, ← ptr']
        exact own
      · rw [spliceSlots_untouched grow first id index vals rel.allocated (.inl here),
          spliceSlots_untouched grow second id index vals rel.allocated'
            (.inl fun there => here (rel.place.mpr there)), rel.cells]
    · have kept : (first.spliceSlots grow id index vals).heap.cells slots.ptr = _ :=
        Heap.cells_append_full rel.allocated room
      rw [← rel.own] at room
      have kept' : (second.spliceSlots grow id index vals).heap.cells slots'.ptr = _ :=
        Heap.cells_append_full rel.allocated' room
      rw [kept, kept', rel.cells]
  · exact fun p at_ptr => (rel.allocated p at_ptr).trans_le (Heap.append_length_le)
  · exact fun p at_ptr => (rel.allocated' p at_ptr).trans_le (Heap.append_length_le)
  · rw [ptr, ptr']
    split
    · exact rel.place
    · constructor
      · intro fresh
        exact absurd (rel.allocated _ fresh) (Nat.lt_irrefl _)
      · intro fresh
        exact absurd (rel.allocated' _ fresh) (Nat.lt_irrefl _)

theorem ReadsCells.inserts : Inserts grow id (ReadsCells id slots slots') :=
  fun _ _ _ rel absent => rel.splice (rel.twins.insert grow absent)

theorem ReadsCells.deletes : Deletes grow id (ReadsCells id slots slots') :=
  fun _ _ _ rel inside => rel.splice (rel.twins.delete grow inside)

theorem ReadsCells.read (rel : ReadsCells id slots slots' first second) (i : Nat) :
    second.read slots' i = first.read slots i := by
  rw [FSM.read, FSM.read, rel.cells]

theorem ReadsOwn.editable : Editable (ReadsOwn id slots slots' n) where
  twins _ _ rel := rel.twins
  assign _ _ owners rel :=
    ⟨rel.twins.assign owners, rel.place, rel.place', rel.shrunk, rel.fits, rel.fits', rel.front⟩

theorem delete_in_place (grow : Nat → Nat → Nat) {fsm : FSM} (separate : fsm.Separate) {index : Nat}
    (inside : index < (fsm.indexed id).length) :
    ((fsm.spliceSlots grow id index ((fsm.indexed id).drop (index + 1))).slotsOf id).ptr =
        (fsm.slotsOf id).ptr ∧
      (fsm.spliceSlots grow id index ((fsm.indexed id).drop (index + 1))).cellsOf id =
        (fsm.cellsOf id).take index ++ (fsm.indexed id).drop (index + 1) ++
          (fsm.cellsOf id).drop ((fsm.indexed id).length - 1) := by
  have fits := (separate.valid id).fits
  rw [← Heap.view_length (separate.valid id)] at fits
  have count : index + ((fsm.indexed id).drop (index + 1)).length = (fsm.indexed id).length - 1 := by
    rw [length_drop]
    omega
  have room : index + ((fsm.indexed id).drop (index + 1)).length ≤ (fsm.cellsOf id).length := by
    rw [count]
    exact (Nat.sub_le _ 1).trans fits
  rw [spliceSlots_ptr, if_pos room, spliceSlots_cellsOf grow separate, Heap.spliced, if_pos room, count]
  exact ⟨rfl, rfl⟩

theorem length_cells_delete {cells slots : List Nat} {index : Nat} (inside : index < slots.length)
    (fits : slots.length ≤ cells.length) :
    (cells.take index ++ slots.drop (index + 1) ++ cells.drop (slots.length - 1)).length =
      cells.length := by
  simp only [length_append, length_take, length_drop]
  omega

theorem take_cells_delete {cells slots : List Nat} {index : Nat} (inside : index < slots.length)
    (fits : slots.length ≤ n) (within : n ≤ cells.length) :
    (cells.take index ++ slots.drop (index + 1) ++ cells.drop (slots.length - 1)).take n =
      (cells.take n).take index ++ slots.drop (index + 1) ++ (cells.take n).drop (slots.length - 1) := by
  have head : (cells.take index ++ slots.drop (index + 1)).length = slots.length - 1 := by
    simp only [length_append, length_take, length_drop]
    omega
  rw [List.take_append, head, List.take_of_length_le (by omega), List.take_take,
    Nat.min_eq_left (by omega), ← List.drop_take]

theorem ReadsOwn.deletes : Deletes grow id (ReadsOwn id slots slots' n) := by
  intro first second index rel inside
  have lists := rel.twins.lists id
  have inside' : index < (second.indexed id).length := by rwa [lists]
  obtain ⟨place, cells⟩ := delete_in_place grow rel.twins.separate inside
  obtain ⟨place', cells'⟩ := delete_in_place grow rel.twins.separate' inside'
  rw [lists] at place' cells'
  have spliced := (spliceSlots_spec grow rel.twins.separate id inside.le
    ((first.indexed id).drop (index + 1))).2
  have shrunk := rel.shrunk
  refine ⟨rel.twins.delete grow inside, place.trans rel.place, place'.trans rel.place', ?_, ?_, ?_, ?_⟩
  · rw [spliced, ← List.eraseIdx_eq_take_drop_succ]
    exact (List.length_eraseIdx_le _ _).trans shrunk
  · rw [cells, length_cells_delete inside (shrunk.trans rel.fits)]
    exact rel.fits
  · rw [cells', length_cells_delete inside (shrunk.trans rel.fits')]
    exact rel.fits'
  · rw [cells, cells', take_cells_delete inside shrunk rel.fits,
      take_cells_delete inside shrunk rel.fits', rel.front]

theorem ReadsOwn.read (rel : ReadsOwn id slots slots' n first second) {i : Nat} (inside : i < n) :
    second.read slots' i = first.read slots i := by
  have of_front {cells : List Nat} : cells.getD i 0 = (cells.take n).getD i 0 := by
    rw [getD_eq_getElem?_getD, getD_eq_getElem?_getD, List.getElem?_take_of_lt inside]
  have front := rel.front
  rw [cellsOf, cellsOf, rel.place, rel.place'] at front
  rw [FSM.read, FSM.read, of_front, front, ← of_front]

end Relations

/-! ## Loops over the slots of a log entry -/

structure Apart (id : Str) (slots slots' : Slice) (first second : FSM) : Prop where
  valid : first.heap.Valid slots
  valid' : second.heap.Valid slots'
  apart : slots.Apart (first.slotsOf id)
  apart' : slots'.Apart (second.slotsOf id)
  view : second.heap.view slots' = first.heap.view slots

section Loops

variable {id : Str} {slots slots' : Slice}

theorem read_of_view {fsm : FSM} {slice : Slice} {i : Nat} (inside : i < slice.len) :
    fsm.read slice i = (fsm.heap.view slice).getD i 0 := by
  rw [read, Heap.view, getD_eq_getElem?_getD, getD_eq_getElem?_getD,
    List.getElem?_take_of_lt inside]

variable (apart : Apart id slots slots' first second)
include apart

theorem Apart.len : slots'.len = slots.len := by
  rw [← Heap.view_length apart.valid, ← Heap.view_length apart.valid', apart.view]

theorem Apart.read {first' second' : FSM} (rel : Edited id first second first' second') {i : Nat}
    (inside : i < slots.len) : second'.read slots' i = first'.read slots i := by
  obtain ⟨kept, -⟩ := rel.edits.keeps slots apart.valid apart.apart
  obtain ⟨kept', -⟩ := rel.edits'.keeps slots' apart.valid' apart.apart'
  rw [read_of_view inside, read_of_view (apart.len ▸ inside), kept.view_eq, kept'.view_eq, apart.view]

theorem Apart.addSlots (twins : Twins first second) :
    Edited id first second (first.addSlots grow id slots) (second.addSlots grow id slots') :=
  forRange_rel apart.len (fun _ _ rel _ inside => apart.read rel inside)
    (fun _ _ rel _ _ => Edited.editable.addSlot Edited.inserts rel _)
    ⟨twins, .refl twins.separate, .refl twins.separate'⟩

theorem Apart.removeSlots (twins : Twins first second) :
    Edited id first second (first.removeSlots grow id slots) (second.removeSlots grow id slots') :=
  forRange_rel apart.len (fun _ _ rel _ inside => apart.read rel inside)
    (fun _ _ rel _ _ => Edited.editable.removeSlot Edited.deletes rel _)
    ⟨twins, .refl twins.separate, .refl twins.separate'⟩

omit apart

theorem ReadsCells.addSlots (rel : ReadsCells id slots slots' first second)
    (len : slots'.len = slots.len) :
    ReadsCells id slots slots' (first.addSlots grow id slots) (second.addSlots grow id slots') :=
  forRange_rel len (fun _ _ rel i _ => rel.read i)
    (fun _ _ rel _ _ => ReadsCells.editable.addSlot ReadsCells.inserts rel _) rel

theorem ReadsCells.removeSlots (rel : ReadsCells id slots slots' first second)
    (len : slots'.len = slots.len) :
    ReadsCells id slots slots' (first.removeSlots grow id slots)
      (second.removeSlots grow id slots') :=
  forRange_rel len (fun _ _ rel i _ => rel.read i)
    (fun _ _ rel _ _ => ReadsCells.editable.removeSlot ReadsCells.deletes rel _) rel

theorem ReadsOwn.removeSlots (rel : ReadsOwn id slots slots' slots.len first second)
    (len : slots'.len = slots.len) :
    ReadsOwn id slots slots' slots.len (first.removeSlots grow id slots)
      (second.removeSlots grow id slots') :=
  forRange_rel len (fun _ _ rel _ inside => rel.read inside)
    (fun _ _ rel _ _ => ReadsOwn.editable.removeSlot ReadsOwn.deletes rel _) rel

/-- The slots of an ascending list are in it already. -/
structure Ascends (id : Str) (slots slots' : Slice) (first second : FSM) : Prop where
  twins : Twins first second
  place : first.slotsOf id = slots
  place' : second.slotsOf id = slots'
  ascending : (first.indexed id).Pairwise (· < ·)

theorem Ascends.read (rel : Ascends id slots slots' first second) {i : Nat} (inside : i < slots.len) :
    first.read slots i ∈ first.indexed id ∧ second.read slots' i = first.read slots i := by
  have length_eq : (first.indexed id).length = slots.len :=
    rel.place ▸ Heap.view_length (rel.twins.separate.valid id)
  have lists := rel.twins.lists id
  have own := read_own rel.twins.separate (length_eq.symm ▸ inside)
  have own' := read_own rel.twins.separate' (lists ▸ length_eq.symm ▸ inside)
  rw [rel.place] at own
  rw [rel.place'] at own'
  rw [FSM.read, FSM.read, own, own']
  refine ⟨List.getElem_mem _, ?_⟩
  simp only [lists]

theorem Ascends.addSlots (rel : Ascends id slots slots' first second) (len : slots'.len = slots.len) :
    Ascends id slots slots' (first.addSlots grow id slots) (second.addSlots grow id slots') := by
  refine forRange_rel len (fun _ _ rel _ inside => (rel.read inside).2) ?_ rel
  intro first second rel i inside
  have present := (rel.read inside).1
  have ascending := rel.ascending
  rw [addSlot_present grow ascending present]
  rw [← rel.twins.lists id] at ascending present
  rw [addSlot_present grow ascending present, rel.twins.owners]
  exact ⟨rel.twins.assign _, rel.place, rel.place', rel.ascending⟩

end Loops

/-! ## Log entries -/

namespace Separate

variable {fsm : FSM} (separate : fsm.Separate) (slots : List Nat)
include separate

theorem alloc : Separate { fsm with heap := (fsm.heap.alloc slots).1 } :=
  ⟨fun id => (Heap.keeps_alloc (separate.valid id) slots).1.valid, separate.apart⟩

theorem alloc_indexed (id : Str) :
    FSM.indexed { fsm with heap := (fsm.heap.alloc slots).1 } id = fsm.indexed id :=
  (Heap.keeps_alloc (separate.valid id) slots).1.view_eq

theorem alloc_cellsOf (id : Str) :
    FSM.cellsOf { fsm with heap := (fsm.heap.alloc slots).1 } id = fsm.cellsOf id := by
  show (fsm.heap.alloc slots).1.cells (fsm.slotsOf id).ptr = fsm.heap.cells (fsm.slotsOf id).ptr
  cases at_ptr : (fsm.slotsOf id).ptr with
  | none => rfl
  | some ptr => exact Heap.cells_alloc ((separate.valid id).allocated ptr at_ptr)

end Separate

variable {leader : Str}

theorem slotsOf_assignSlots {fsm : FSM} {slots : List Nat} {id : Str} :
    (fsm.assignSlots leader slots).slotsOf id =
      if id = leader then (fsm.heap.alloc slots).2 else fsm.slotsOf id :=
  slotsOf_insert fsm leader _ (fsm.heap.alloc slots).1 id

theorem Separate.assignSlots {fsm : FSM} (separate : fsm.Separate) (leader : Str) (slots : List Nat) :
    (fsm.assignSlots leader slots).Separate := by
  have kept (id : Str) := Heap.keeps_alloc (separate.valid id) slots
  constructor
  · intro id
    rw [slotsOf_assignSlots]
    split
    · exact Heap.valid_alloc_fresh fsm.heap slots
    · exact (kept id).1.valid
  · intro one other differ
    rw [slotsOf_assignSlots, slotsOf_assignSlots]
    split
    · next at_leader =>
        rw [if_neg (fun same : other = leader => differ (at_leader.trans same.symm))]
        exact (kept other).2.symm
    · split
      · exact (kept one).2
      · exact separate.apart one other differ

theorem assignSlots_lists {fsm : FSM} (separate : fsm.Separate) {slots : List Nat} {id : Str} :
    (fsm.assignSlots leader slots).indexed id = (if id = leader then slots else fsm.indexed id) ∧
      (fsm.assignSlots leader slots).cellsOf id = if id = leader then slots else fsm.cellsOf id := by
  rw [indexed, cellsOf, slotsOf_assignSlots]
  split
  · exact ⟨Heap.view_alloc_fresh, Heap.cells_alloc_fresh⟩
  · exact ⟨separate.alloc_indexed slots id, separate.alloc_cellsOf slots id⟩

namespace Twins

variable (twins : Twins first second)
include twins

theorem len (id : Str) : (second.slotsOf id).len = (first.slotsOf id).len := by
  rw [← Heap.view_length (twins.separate.valid id), ← Heap.view_length (twins.separate'.valid id)]
  exact congrArg List.length (twins.lists id)

theorem readsOwn (id : Str) :
    ReadsOwn id (first.slotsOf id) (second.slotsOf id) (first.slotsOf id).len first second := by
  have length_eq : (first.indexed id).length = (first.slotsOf id).len :=
    Heap.view_length (twins.separate.valid id)
  refine ⟨twins, rfl, rfl, length_eq.le, (twins.separate.valid id).fits, ?_, ?_⟩
  · rw [← twins.len]
    exact (twins.separate'.valid id).fits
  · have lists := twins.lists id
    rw [indexed, Heap.view, twins.len] at lists
    exact lists

theorem handOver (old new : Str) :
    Twins ((first.addSlots grow new (first.slotsOf old)).removeSlots grow old (first.slotsOf old))
      ((second.addSlots grow new (second.slotsOf old)).removeSlots grow old (second.slotsOf old)) := by
  have len := twins.len old
  rcases eq_or_ne new old with rfl | differ
  · rcases twins.shapes new with ascending | cells
    · have added := Ascends.addSlots grow ⟨twins, rfl, rfl, ascending⟩ len
      have removed := added.twins.readsOwn new
      rw [added.place, added.place'] at removed
      exact (removed.removeSlots grow len).twins
    · have reads : ReadsCells new (first.slotsOf new) (second.slotsOf new) first second :=
        ⟨twins, cells, cells, (twins.separate.valid new).allocated,
          (twins.separate'.valid new).allocated, by simp⟩
      exact ((reads.addSlots grow len).removeSlots grow len).twins
  · have apart : Apart new (first.slotsOf old) (second.slotsOf old) first second :=
      ⟨twins.separate.valid old, twins.separate'.valid old, twins.separate.apart old new differ.symm,
        twins.separate'.apart old new differ.symm, twins.lists old⟩
    have added := apart.addSlots grow twins
    have removed := added.twins.readsOwn old
    rw [added.edits.slices old differ.symm, added.edits'.slices old differ.symm] at removed
    exact (removed.removeSlots grow len).twins

theorem alloc (slots : List Nat) : Twins { first with heap := (first.heap.alloc slots).1 }
      { second with heap := (second.heap.alloc slots).1 } := by
  refine ⟨twins.owners, twins.migratings, twins.masterSlaves, twins.slaveMasters,
    twins.separate.alloc slots, twins.separate'.alloc slots, ?_, ?_⟩
  · intro id
    rw [twins.separate.alloc_indexed, twins.separate'.alloc_indexed]
    exact twins.lists id
  · intro id
    rw [twins.separate.alloc_indexed, twins.separate.alloc_cellsOf, twins.separate'.alloc_cellsOf]
    exact twins.shapes id

theorem moveSlots (slots : List Nat) (target src : Str) : Twins (({ first with heap := (first.heap.alloc slots).1 }.addSlots grow target
        (first.heap.alloc slots).2).removeSlots grow src (first.heap.alloc slots).2)
      (({ second with heap := (second.heap.alloc slots).1 }.addSlots grow target
        (second.heap.alloc slots).2).removeSlots grow src (second.heap.alloc slots).2) := by
  have twins₀ := twins.alloc slots
  have apart (id : Str) : Apart id (first.heap.alloc slots).2 (second.heap.alloc slots).2
      { first with heap := (first.heap.alloc slots).1 }
      { second with heap := (second.heap.alloc slots).1 } := by
    refine ⟨Heap.valid_alloc_fresh _ _, Heap.valid_alloc_fresh _ _, ?_, ?_, ?_⟩
    · exact (Heap.keeps_alloc (twins.separate.valid id) slots).2.symm
    · exact (Heap.keeps_alloc (twins.separate'.valid id) slots).2.symm
    · exact (Heap.view_alloc_fresh).trans (Heap.view_alloc_fresh).symm
  have added := (apart target).addSlots grow twins₀
  generalize { first with heap := (first.heap.alloc slots).1 } = start at *
  generalize { second with heap := (second.heap.alloc slots).1 } = start' at *
  generalize (first.heap.alloc slots).2 = slice at *
  generalize (second.heap.alloc slots).2 = slice' at *
  obtain ⟨kept, away⟩ := added.edits.keeps slice (apart target).valid (apart target).apart
  obtain ⟨kept', away'⟩ := added.edits'.keeps slice' (apart target).valid' (apart target).apart'
  have view := kept'.view_eq.trans ((apart target).view.trans kept.view_eq.symm)
  have apart' : Apart src slice slice' (start.addSlots grow target slice)
      (start'.addSlots grow target slice') := by
    rcases eq_or_ne src target with rfl | differ
    · exact ⟨kept.valid, kept'.valid, away, away', view⟩
    · refine ⟨kept.valid, kept'.valid, ?_, ?_, view⟩
      · rw [added.edits.slices src differ]
        exact (apart src).apart
      · rw [added.edits'.slices src differ]
        exact (apart src).apart'
  exact (apart'.removeSlots grow added.twins).twins

theorem seedStart (leader : Str) (slots : List Nat) :
    Twins (first.assignSlots leader slots) (second.assignSlots leader slots) := by
  refine ⟨?_, twins.migratings, twins.masterSlaves, twins.slaveMasters,
    twins.separate.assignSlots leader slots, twins.separate'.assignSlots leader slots, ?_, ?_⟩
  · rw [FSM.assignSlots, FSM.assignSlots, twins.owners]
  · intro id
    rw [(assignSlots_lists twins.separate).1,
      (assignSlots_lists twins.separate').1, twins.lists]
  · intro id
    obtain ⟨list, cells⟩ := assignSlots_lists twins.separate
    rw [list, cells, (assignSlots_lists twins.separate').2]
    split
    · exact .inr rfl
    · exact twins.shapes id

theorem retable {first' second' : FSM} (heap : first'.heap = first.heap)
    (heap' : second'.heap = second.heap) (lists : first'.node2Slot = first.node2Slot)
    (lists' : second'.node2Slot = second.node2Slot) (owners : second'.slot2Node = first'.slot2Node)
    (migratings : second'.migratings = first'.migratings)
    (masterSlaves : second'.masterSlaves = first'.masterSlaves)
    (slaveMasters : second'.slaveMasters = first'.slaveMasters) : Twins first' second' := by
  have slotsOf_eq : first'.slotsOf = first.slotsOf := funext fun id => by rw [slotsOf, lists, slotsOf]
  have slotsOf_eq' : second'.slotsOf = second.slotsOf :=
    funext fun id => by rw [slotsOf, lists', slotsOf]
  refine ⟨owners, migratings, masterSlaves, slaveMasters, ⟨?_, ?_⟩, ⟨?_, ?_⟩, ?_, ?_⟩
  · rw [heap, slotsOf_eq]
    exact twins.separate.valid
  · rw [slotsOf_eq]
    exact twins.separate.apart
  · rw [heap', slotsOf_eq']
    exact twins.separate'.valid
  · rw [slotsOf_eq']
    exact twins.separate'.apart
  · intro id
    rw [indexed, indexed, heap, heap', slotsOf_eq, slotsOf_eq']
    exact twins.lists id
  · intro id
    rw [indexed, cellsOf, cellsOf, heap, heap', slotsOf_eq, slotsOf_eq']
    exact twins.shapes id

theorem addNode (id masterId : Str) :
    Twins (first.addNode id masterId) (second.addNode id masterId) := by
  rw [FSM.addNode, FSM.addNode, twins.masterSlaves, twins.slaveMasters]
  split
  · exact twins.retable rfl rfl rfl rfl twins.owners twins.migratings rfl rfl
  · split
    · exact twins
    · exact twins.retable rfl rfl rfl rfl twins.owners twins.migratings rfl rfl

theorem failover (old new : Str) :
    Option.Rel Twins (first.failover old new) (second.failover old new) := by
  rw [FSM.failover, FSM.failover, twins.masterSlaves, twins.slaveMasters]
  cases first.masterSlaves.lookup old with
  | none => exact .none
  | some oldMaster =>
    exact .some (twins.retable rfl rfl rfl rfl twins.owners twins.migratings rfl rfl)

theorem apply (entry : LogEntry) :
    Option.Rel Twins (first.apply grow entry) (second.apply grow entry) := by
  cases entry with
  | startMigrate task =>
    refine .some (twins.retable rfl rfl rfl rfl twins.owners ?_ twins.masterSlaves twins.slaveMasters)
    rw [twins.migratings]
  | finishMigrate task =>
    have done : Twins { first with migratings := first.migratings.erase task.id }
        { second with migratings := second.migratings.erase task.id } := by
      refine twins.retable rfl rfl rfl rfl twins.owners ?_ twins.masterSlaves twins.slaveMasters
      rw [twins.migratings]
    exact .some (done.moveSlots grow task.slots task.targetNode task.srcNode)
  | seedStart task =>
    rw [FSM.apply, FSM.apply]
    split
    · exact .none
    · exact .some ((twins.seedStart task.leader _).addNode task.leader [])
  | finishFailover task =>
    have failed := twins.failover task.oldMasterId task.newMasterId
    rw [FSM.apply, FSM.apply]
    generalize first.failover task.oldMasterId task.newMasterId = result at *
    generalize second.failover task.oldMasterId task.newMasterId = result' at *
    cases failed with
    | none => exact .none
    | some failed =>
      have moved := failed.handOver grow task.oldMasterId task.newMasterId
      exact .some (moved.retable rfl rfl rfl rfl moved.owners moved.migratings moved.masterSlaves
        moved.slaveMasters)
  | join task => exact .some (twins.addNode task.nodeId task.master)

theorem applyAll (entries : List LogEntry) :
    Option.Rel Twins (first.applyAll grow entries) (second.applyAll grow entries) := by
  induction entries generalizing first second with
  | nil => exact .some twins
  | cons entry rest ih =>
    have applied := twins.apply grow entry
    rw [FSM.applyAll, FSM.applyAll]
    generalize first.apply grow entry = result at *
    generalize second.apply grow entry = result' at *
    cases applied with
    | none => exact .none
    | some applied => exact ih applied

omit twins

theorem refl {fsm : FSM} (separate : fsm.Separate) : Twins fsm fsm :=
  ⟨rfl, rfl, rfl, rfl, separate, separate, fun _ => rfl, fun _ => .inr rfl⟩

theorem separate_applyAll {fsm fsm' : FSM} (separate : fsm.Separate) {entries : List LogEntry}
    (applied : fsm.applyAll grow entries = some fsm') : fsm'.Separate := by
  have twins := (Twins.refl separate).applyAll grow entries
  rw [applied] at twins
  cases twins with
  | some twins => exact twins.separate

end Twins

end Godis.Raft.FSM
