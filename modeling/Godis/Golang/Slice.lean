import Mathlib.Data.List.Basic
import Mathlib.Tactic

/-!
# Slices over a heap of arrays

Slices that start at the first cell of their array: cutting one at an index and
appending to it writes into the array while its capacity lasts, so that other
slices of the same array see the change, and otherwise moves to a new array.
-/

namespace Golang

/-- The arrays allocated so far; a pointer is a position in this list. -/
structure Heap (α : Type) where
  arrays : List (List α)

/-- A slice; the nil slice has no array. -/
structure Slice where
  ptr : Option Nat
  len : Nat

namespace Slice

def nil : Slice := ⟨none, 0⟩

def Apart (first second : Slice) : Prop :=
  ∀ ptr, first.ptr = some ptr → second.ptr ≠ some ptr

theorem Apart.symm {first second : Slice} (apart : first.Apart second) : second.Apart first :=
  fun ptr there here => apart ptr here there

theorem apart_nil {other : Slice} : other.Apart nil := by
  intro ptr _ eq
  cases eq

end Slice

namespace Heap

variable {α : Type}

def cells (heap : Heap α) : Option Nat → List α
  | none => []
  | some ptr => heap.arrays.getD ptr []

def view (heap : Heap α) (slice : Slice) : List α := (heap.cells slice.ptr).take slice.len

def alloc (heap : Heap α) (vals : List α) : Heap α × Slice :=
  (⟨heap.arrays ++ [vals]⟩, ⟨some heap.arrays.length, vals.length⟩)

def write (heap : Heap α) (ptr : Option Nat) (vals : List α) : Heap α :=
  match ptr with
  | none => heap
  | some ptr => ⟨heap.arrays.set ptr vals⟩

/-- `append(slice[:index], vals...)`, where `vals` has been read before anything is
written; a new array has `grown` cells if that is enough. -/
def append [Inhabited α] (heap : Heap α) (slice : Slice) (index : Nat) (vals : List α)
    (grown : Nat) : Heap α × Slice :=
  let cells := heap.cells slice.ptr
  let len := index + vals.length
  if len ≤ cells.length then
    (heap.write slice.ptr (cells.take index ++ vals ++ cells.drop len), ⟨slice.ptr, len⟩)
  else
    let (heap, fresh) :=
      heap.alloc (cells.take index ++ vals ++ List.replicate (grown - len) default)
    (heap, ⟨fresh.ptr, len⟩)

structure Valid (heap : Heap α) (slice : Slice) : Prop where
  fits : slice.len ≤ (heap.cells slice.ptr).length
  allocated : ∀ ptr, slice.ptr = some ptr → ptr < heap.arrays.length

theorem valid_nil {heap : Heap α} : heap.Valid .nil :=
  ⟨Nat.zero_le _, fun _ eq => nomatch eq⟩

variable {heap : Heap α} {slice : Slice} {ptr : Option Nat} {index : Nat} {vals : List α}

theorem view_length (valid : heap.Valid slice) :
    (heap.view slice).length = slice.len := by
  rw [view, List.length_take, Nat.min_eq_left valid.fits]

theorem cells_alloc {ptr : Nat} (old : ptr < heap.arrays.length) :
    (heap.alloc vals).1.cells (some ptr) = heap.cells (some ptr) := by
  simp [alloc, cells, List.getD_eq_getElem?_getD, List.getElem?_append_left old]

theorem cells_write_ne (heap : Heap α) {other : Option Nat} (vals : List α)
    (ne : ∀ p, other = some p → ptr ≠ some p) :
    (heap.write ptr vals).cells other = heap.cells other := by
  cases other with
  | none => rfl
  | some other =>
    cases ptr with
    | none => rfl
    | some ptr =>
      have differ : ptr ≠ other := fun eq => ne other rfl (congrArg some eq)
      simp [write, cells, List.getD_eq_getElem?_getD, List.getElem?_set_ne differ]

theorem cells_write {ptr : Nat} (allocated : ptr < heap.arrays.length) :
    (heap.write (some ptr) vals).cells (some ptr) = vals := by
  simp [write, cells, List.getD_eq_getElem?_getD, allocated]

theorem write_length : (heap.write ptr vals).arrays.length = heap.arrays.length := by
  cases ptr <;> simp [write]

/-! ## Allocation -/

theorem cells_alloc_fresh : (heap.alloc vals).1.cells (heap.alloc vals).2.ptr = vals := by
  simp [alloc, cells, List.getD_eq_getElem?_getD]

theorem view_alloc_fresh : (heap.alloc vals).1.view (heap.alloc vals).2 = vals := by
  rw [view, cells_alloc_fresh]
  exact List.take_length

theorem valid_alloc_fresh (heap : Heap α) (vals : List α) :
    (heap.alloc vals).1.Valid (heap.alloc vals).2 := by
  constructor
  · rw [cells_alloc_fresh]
    exact Nat.le_refl _
  · intro ptr eq
    obtain rfl := Option.some.inj eq
    simp [alloc]

/-- What an operation leaves alone: a slice keeps its elements and stays within an
allocated array. -/
structure Keeps (heap heap' : Heap α) (slice : Slice) : Prop where
  view_eq : heap'.view slice = heap.view slice
  valid : heap'.Valid slice

theorem keeps_alloc (valid : heap.Valid slice) (vals : List α) :
    Keeps heap (heap.alloc vals).1 slice ∧ slice.Apart (heap.alloc vals).2 := by
  have same : (heap.alloc vals).1.cells slice.ptr = heap.cells slice.ptr := by
    cases eq : slice.ptr with
    | none => rfl
    | some ptr => exact cells_alloc (valid.allocated ptr eq)
  refine ⟨⟨?_, ⟨?_, ?_⟩⟩, ?_⟩
  · rw [view, view, same]
  · rw [same]
    exact valid.fits
  · intro ptr eq
    have := valid.allocated ptr eq
    simp only [alloc, List.length_append]
    omega
  · intro ptr eq fresh
    have := valid.allocated ptr eq
    obtain rfl := Option.some.inj fresh
    omega

/-! ## Appending -/

section Append

variable [Inhabited α] {heap : Heap α} {slice : Slice} (valid : heap.Valid slice) {index : Nat}
  (within : index ≤ slice.len) (vals : List α) (grown : Nat)
include valid within

theorem append_spec :
    (heap.append slice index vals grown).1.Valid (heap.append slice index vals grown).2 ∧
      (heap.append slice index vals grown).1.view (heap.append slice index vals grown).2 =
        (heap.view slice).take index ++ vals := by
  have fits := valid.fits
  have taken : ((heap.cells slice.ptr).take index).length = index :=
    List.length_take_of_le (by omega)
  have kept : (heap.view slice).take index = (heap.cells slice.ptr).take index := by
    rw [view, List.take_take, Nat.min_eq_left within]
  have written : ∀ rest : List α,
      ((heap.cells slice.ptr).take index ++ vals ++ rest).take (index + vals.length) =
        (heap.cells slice.ptr).take index ++ vals := by
    intro rest
    exact List.take_left' (by rw [List.length_append, taken])
  rw [kept]
  simp only [append]
  by_cases room : index + vals.length ≤ (heap.cells slice.ptr).length
  · rw [if_pos room]
    cases eq : slice.ptr with
    | none =>
      rw [eq, cells, List.length_nil, Nat.le_zero] at room
      obtain ⟨rfl, noVals⟩ := Nat.add_eq_zero_iff.mp room
      obtain rfl := List.length_eq_zero_iff.mp noVals
      exact ⟨⟨Nat.le_refl _, fun _ eq => nomatch eq⟩, rfl⟩
    | some ptr =>
      have allocated := valid.allocated ptr eq
      rw [eq] at room taken written
      constructor
      · constructor
        · rw [cells_write allocated]
          simp only [List.length_append, taken]
          omega
        · intro other same
          obtain rfl := Option.some.inj same
          rw [write_length]
          exact allocated
      · rw [view, cells_write allocated, written]
  · rw [if_neg room]
    have fresh := valid_alloc_fresh heap ((heap.cells slice.ptr).take index ++ vals ++
      List.replicate (grown - (index + vals.length)) default)
    constructor
    · refine ⟨Nat.le_trans ?_ fresh.fits, fresh.allocated⟩
      simp only [alloc, List.length_append, taken]
      omega
    · rw [view, cells_alloc_fresh, written]

end Append

theorem append_in_place [Inhabited α] {ptr : Nat} (valid : heap.Valid slice)
    (at_ptr : slice.ptr = some ptr) {grown : Nat}
    (room : index + vals.length ≤ (heap.cells slice.ptr).length) :
    (heap.append slice index vals grown).2 = ⟨slice.ptr, index + vals.length⟩ ∧
      (heap.append slice index vals grown).1.cells slice.ptr =
        (heap.cells slice.ptr).take index ++ vals ++
          (heap.cells slice.ptr).drop (index + vals.length) := by
  simp only [append, if_pos room, true_and]
  rw [at_ptr, cells_write (valid.allocated ptr at_ptr)]

def spliced [Inhabited α] (cells : List α) (index : Nat) (vals : List α) (grown : Nat) : List α :=
  cells.take index ++ vals ++
    if index + vals.length ≤ cells.length then cells.drop (index + vals.length)
    else List.replicate (grown - (index + vals.length)) default

theorem cells_append [Inhabited α] (valid : heap.Valid slice) {grown : Nat} :
    (heap.append slice index vals grown).1.cells (heap.append slice index vals grown).2.ptr =
      spliced (heap.cells slice.ptr) index vals grown := by
  simp only [append, spliced]
  by_cases room : index + vals.length ≤ (heap.cells slice.ptr).length
  · rw [if_pos room, if_pos room]
    cases eq : slice.ptr with
    | none =>
      rw [eq, cells, List.length_nil, Nat.le_zero] at room
      obtain ⟨rfl, noVals⟩ := Nat.add_eq_zero_iff.mp room
      obtain rfl := List.length_eq_zero_iff.mp noVals
      rfl
    | some ptr => exact cells_write (valid.allocated ptr eq)
  · rw [if_neg room, if_neg room]
    exact cells_alloc_fresh

theorem append_ptr [Inhabited α] {grown : Nat} :
    (heap.append slice index vals grown).2.ptr =
      if index + vals.length ≤ (heap.cells slice.ptr).length then slice.ptr
      else some heap.arrays.length := by
  simp only [append]
  split <;> rfl

theorem cells_append_ne [Inhabited α] {grown : Nat}
    (allocated : ∀ p, ptr = some p → p < heap.arrays.length) (ne : ptr ≠ slice.ptr ∨ ptr = none) :
    (heap.append slice index vals grown).1.cells ptr = heap.cells ptr := by
  cases ptr with
  | none => rfl
  | some ptr =>
    have other : slice.ptr ≠ some ptr := fun same => by
      rcases ne with ne | ne
      · exact ne same.symm
      · cases ne
    simp only [append]
    split
    · refine cells_write_ne heap _ ?_
      intro p same
      cases same
      exact other
    · exact cells_alloc (allocated ptr rfl)

theorem cells_append_full [Inhabited α] {grown : Nat}
    (allocated : ∀ p, ptr = some p → p < heap.arrays.length)
    (full : ¬ index + vals.length ≤ (heap.cells slice.ptr).length) :
    (heap.append slice index vals grown).1.cells ptr = heap.cells ptr := by
  simp only [append, if_neg full]
  cases ptr with
  | none => rfl
  | some ptr => exact cells_alloc (allocated ptr rfl)

theorem append_length_le [Inhabited α] {grown : Nat} :
    heap.arrays.length ≤ (heap.append slice index vals grown).1.arrays.length := by
  simp only [append]
  split
  · rw [write_length]
  · simp [alloc]

theorem append_keeps [Inhabited α] {other : Slice} (index : Nat) (vals : List α) (grown : Nat)
    (other_valid : heap.Valid other) (apart : other.Apart slice) :
    Keeps heap (heap.append slice index vals grown).1 other ∧
      other.Apart (heap.append slice index vals grown).2 := by
  simp only [append]
  by_cases room : index + vals.length ≤ (heap.cells slice.ptr).length
  · rw [if_pos room]
    have same := cells_write_ne heap
      ((heap.cells slice.ptr).take index ++ vals ++ (heap.cells slice.ptr).drop (index + vals.length))
      apart
    refine ⟨⟨?_, ⟨?_, ?_⟩⟩, apart⟩
    · rw [view, view, same]
    · rw [same]
      exact other_valid.fits
    · rw [write_length]
      exact other_valid.allocated
  · rw [if_neg room]
    exact keeps_alloc other_valid _

end Heap

end Golang

