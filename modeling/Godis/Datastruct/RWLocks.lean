import Godis.Golang.Str

/-!
# The locks of the shards (`RWLocks` and `RWUnLocks` of `datastruct/dict/concurrent.go`)

A key is locked through the mutex of its shard.  The mutexes are locked in the order of their
indices and unlocked in the opposite order.
-/

namespace Godis.Dict

open Golang List
open Function (update_of_ne update_self)

structure RWMutex where
  writing : Bool
  readers : Nat
  deriving DecidableEq

namespace RWMutex

def unlocked : RWMutex :=
  ⟨false, 0⟩

/-- `Lock`; without a result it waits. -/
def lock (mutex : RWMutex) : Option RWMutex :=
  if mutex = unlocked then some ⟨true, 0⟩ else none

/-- `RLock`; without a result it waits. -/
def rLock (mutex : RWMutex) : Option RWMutex :=
  if mutex.writing then none else some { mutex with readers := mutex.readers + 1 }

/-- `Unlock`; without a result the process is aborted. -/
def unlock (mutex : RWMutex) : Option RWMutex :=
  if mutex.writing then some { mutex with writing := false } else none

/-- `RUnlock`; without a result the process is aborted. -/
def rUnlock (mutex : RWMutex) : Option RWMutex :=
  match mutex.readers with
  | 0 => none
  | readers + 1 => some { mutex with readers := readers }

end RWMutex

abbrev Shards := Nat → RWMutex

section Loops

variable (writes : Finset Nat)

def lockIndex (shards : Shards) (index : Nat) : Option Shards :=
  (if index ∈ writes then (shards index).lock else (shards index).rLock).map
    (Function.update shards index)

def unlockIndex (shards : Shards) (index : Nat) : Option Shards :=
  (if index ∈ writes then (shards index).unlock else (shards index).rUnlock).map
    (Function.update shards index)

def Ready (shards : Shards) (index : Nat) : Prop :=
  if index ∈ writes then shards index = .unlocked else (shards index).writing = false

instance decidableReady (shards : Shards) (index : Nat) : Decidable (Ready writes shards index) :=
  inferInstanceAs (Decidable (ite _ _ _))

def lockedOne (index : Nat) (mutex : RWMutex) : RWMutex :=
  if index ∈ writes then ⟨true, 0⟩ else ⟨mutex.writing, mutex.readers + 1⟩

def locked (indices : List Nat) (shards : Shards) : Shards := fun index =>
  if index ∈ indices then lockedOne writes index (shards index) else shards index

theorem lockIndex_eq {shards : Shards} {index : Nat} :
    lockIndex writes shards index =
      if Ready writes shards index then
        some (Function.update shards index (lockedOne writes index (shards index)))
      else none := by
  unfold lockIndex Ready lockedOne
  by_cases exclusive : index ∈ writes
  · simp only [exclusive, if_true, RWMutex.lock]
    split
    · rfl
    · rfl
  · simp only [exclusive, if_false, RWMutex.rLock]
    cases (shards index).writing with
    | true => rfl
    | false => rfl

variable {index : Nat} {shards after : Shards} {indices : List Nat}

theorem ready_update_iff {other : Nat} (different : other ≠ index) (mutex : RWMutex) :
    Ready writes (Function.update shards index mutex) other ↔ Ready writes shards other := by
  unfold Ready
  rw [update_of_ne different]

/-- The loop of `RWLocks` over distinct indices comes to its end exactly if every mutex can be
locked. -/
theorem foldlM_lockIndex (distinct : indices.Nodup) (shards : Shards) :
    indices.foldlM (lockIndex writes) shards =
      if ∀ index ∈ indices, Ready writes shards index then some (locked writes indices shards)
      else none := by
  induction indices generalizing shards with
  | nil =>
    have same : locked writes [] shards = shards := funext fun _ => rfl
    simp [same]
  | cons first rest ih =>
    obtain ⟨notIn, distinctRest⟩ := nodup_cons.mp distinct
    rw [List.foldlM_cons, lockIndex_eq]
    by_cases ready : Ready writes shards first
    · rw [if_pos ready]
      have others : (∀ index ∈ rest, Ready writes (Function.update shards first
          (lockedOne writes first (shards first))) index) ↔
            ∀ index ∈ first :: rest, Ready writes shards index := by
        rw [forall_mem_cons, and_iff_right ready]
        refine forall₂_congr fun index member => ready_update_iff writes ?_ _
        rintro rfl
        exact notIn member
      have both : locked writes rest (Function.update shards first
          (lockedOne writes first (shards first))) = locked writes (first :: rest) shards := by
        funext index
        by_cases isFirst : index = first
        · subst isFirst
          simp only [locked, notIn, if_false, update_self, mem_cons_self, if_true]
        · simp only [locked, mem_cons, isFirst, false_or, update_of_ne isFirst]
      change rest.foldlM (lockIndex writes) _ = _
      rw [ih distinctRest, both]
      simp only [others]
    · rw [if_neg ready, if_neg fun all => ready (all first mem_cons_self)]
      rfl

theorem unlockIndex_of_locked (ready : Ready writes shards index)
    (isLocked : after index = lockedOne writes index (shards index)) :
    unlockIndex writes after index = some (Function.update after index (shards index)) := by
  unfold Ready at ready
  unfold lockedOne at isLocked
  unfold unlockIndex
  rw [isLocked]
  by_cases exclusive : index ∈ writes
  · simp only [exclusive, if_true] at ready ⊢
    rw [ready]
    rfl
  · simp only [exclusive, if_false] at ready ⊢
    rfl

theorem foldlM_unlockIndex (distinct : indices.Nodup)
    (ready : ∀ index ∈ indices, Ready writes shards index)
    (areLocked : after = locked writes indices shards) :
    indices.foldlM (unlockIndex writes) after = some shards := by
  induction indices generalizing after with
  | nil =>
    subst areLocked
    rfl
  | cons first rest ih =>
    obtain ⟨notIn, distinctRest⟩ := nodup_cons.mp distinct
    obtain ⟨readyFirst, readyRest⟩ := forall_mem_cons.mp ready
    have isLocked : after first = lockedOne writes first (shards first) := by
      rw [areLocked, locked, if_pos mem_cons_self]
    rw [List.foldlM_cons, unlockIndex_of_locked writes readyFirst isLocked]
    refine ih distinctRest readyRest (funext fun index => ?_)
    by_cases isFirst : index = first
    · subst isFirst
      rw [update_self, locked, if_neg notIn]
    · rw [update_of_ne isFirst, areLocked]
      simp only [locked, mem_cons, isFirst, false_or]

end Loops

section Keys

variable (spread : Str → Nat)

/-- `toLockIndices`, in ascending order. -/
def toLockIndices (keys : List Str) : List Nat :=
  sorted (keys.map spread).toFinset

theorem nodup_toLockIndices (keys : List Str) : (toLockIndices spread keys).Nodup :=
  nodup_sorted _

theorem mem_toLockIndices {keys : List Str} {index : Nat} :
    index ∈ toLockIndices spread keys ↔ ∃ key ∈ keys, spread key = index := by
  simp [toLockIndices, mem_sorted]

def writeIndexSet (writeKeys : List Str) : Finset Nat :=
  (writeKeys.map spread).toFinset

/-- `RWLocks`; without a result it waits. -/
def rwLocks (shards : Shards) (writeKeys readKeys : List Str) : Option Shards :=
  (toLockIndices spread (writeKeys ++ readKeys)).foldlM
    (lockIndex (writeIndexSet spread writeKeys)) shards

/-- `RWUnLocks`; without a result the process is aborted. -/
def rwUnLocks (shards : Shards) (writeKeys readKeys : List Str) : Option Shards :=
  (toLockIndices spread (writeKeys ++ readKeys)).reverse.foldlM
    (unlockIndex (writeIndexSet spread writeKeys)) shards

variable {spread}

theorem rwLocks_eq {shards : Shards} {writeKeys readKeys : List Str} :
    rwLocks spread shards writeKeys readKeys =
      if ∀ index ∈ toLockIndices spread (writeKeys ++ readKeys),
          Ready (writeIndexSet spread writeKeys) shards index then
        some (locked (writeIndexSet spread writeKeys)
          (toLockIndices spread (writeKeys ++ readKeys)) shards)
      else none :=
  foldlM_lockIndex _ (nodup_toLockIndices spread _) shards

variable {after shards : Shards} {readKeys writeKeys : List Str} {key : Str}

theorem rwUnLocks_of_rwLocks (taken : rwLocks spread shards writeKeys readKeys = some after) :
    rwUnLocks spread after writeKeys readKeys = some shards := by
  rw [rwLocks_eq] at taken
  split at taken
  · rename_i ready
    have distinct := List.nodup_reverse.mpr (nodup_toLockIndices spread (writeKeys ++ readKeys))
    refine foldlM_unlockIndex _ distinct (fun index member => ready index (mem_reverse.mp member))
      ?_
    rw [← Option.some.inj taken]
    funext index
    simp only [locked, mem_reverse]
  · cases taken

theorem rwLocks_of_unlocked (free : ∀ key ∈ writeKeys ++ readKeys, shards (spread key) = .unlocked) :
    ∃ after, rwLocks spread shards writeKeys readKeys = some after := by
  rw [rwLocks_eq, if_pos]
  · exact ⟨_, rfl⟩
  · intro index member
    obtain ⟨key, isKey, rfl⟩ := (mem_toLockIndices spread).mp member
    unfold Ready
    rw [free key isKey]
    split
    · rfl
    · rfl

theorem rwLocks_twice (taken : rwLocks spread shards writeKeys readKeys = some after)
    (member : key ∈ writeKeys) :
    rwLocks spread after writeKeys readKeys = none := by
  have index : spread key ∈ toLockIndices spread (writeKeys ++ readKeys) :=
    (mem_toLockIndices spread).mpr ⟨key, mem_append_left _ member, rfl⟩
  have exclusive : spread key ∈ writeIndexSet spread writeKeys :=
    mem_toFinset.mpr (mem_map_of_mem member)
  rw [rwLocks_eq] at taken ⊢
  split at taken
  · refine if_neg fun ready => ?_
    have free := ready (spread key) index
    rw [Ready, if_pos exclusive, ← Option.some.inj taken, locked, if_pos index, lockedOne,
      if_pos exclusive] at free
    cases free
  · cases taken

theorem rwUnLocks_of_unlocked
    (free : ∀ key ∈ writeKeys ++ readKeys, shards (spread key) = .unlocked)
    (member : key ∈ writeKeys ++ readKeys) :
    rwUnLocks spread shards writeKeys readKeys = none := by
  have some_ : (toLockIndices spread (writeKeys ++ readKeys)).reverse ≠ [] := by
    intro empty
    have index := (mem_toLockIndices spread).mpr ⟨key, member, rfl⟩
    rw [List.reverse_eq_nil_iff.mp empty] at index
    cases index
  rw [rwUnLocks]
  obtain ⟨first, _, isCons⟩ := List.exists_cons_of_ne_nil some_
  have inside : first ∈ (toLockIndices spread (writeKeys ++ readKeys)).reverse :=
    isCons ▸ mem_cons_self
  obtain ⟨other, isKey, isFirst⟩ := (mem_toLockIndices spread).mp (mem_reverse.mp inside)
  have stuck : unlockIndex (writeIndexSet spread writeKeys) shards first = none := by
    rw [unlockIndex, ← isFirst, free other isKey]
    split
    · rfl
    · rfl
  rw [isCons, List.foldlM_cons, stuck]
  rfl

theorem rwLocks_readers {others : List Str} (taken : rwLocks spread shards [] readKeys = some after)
    (inside : ∀ key ∈ others, key ∈ readKeys) :
    ∃ further, rwLocks spread after [] others = some further := by
  rw [rwLocks_eq] at taken
  split at taken
  · rename_i ready
    rw [rwLocks_eq, if_pos]
    · exact ⟨_, rfl⟩
    · intro index member
      obtain ⟨key, isKey, isIndex⟩ := (mem_toLockIndices spread).mp member
      have indexed : index ∈ toLockIndices spread ([] ++ readKeys) :=
        (mem_toLockIndices spread).mpr ⟨key, inside key isKey, isIndex⟩
      have free := ready index indexed
      rw [Ready] at free ⊢
      rw [← Option.some.inj taken, locked, if_pos indexed]
      exact free
  · cases taken

end Keys

end Godis.Dict
