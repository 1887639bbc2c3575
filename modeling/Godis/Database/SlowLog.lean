import Godis.Database.Value

/-!
# The slow log (`database/slowlog.go`)
-/

namespace Godis.Database

open Golang

structure SlowLogEntry where
  id : Nat
  timestamp : Int
  duration : Int
  command : Line
  peerId : Str

structure SlowLogger where
  entries : List (Option SlowLogEntry)
  count : Nat
  nextIdx : Nat
  maxEntries : Nat
  threshold : Int
  nextID : Nat

namespace SlowLogger

def new (maxEntries : Nat) (threshold : Int) : SlowLogger :=
  ⟨List.replicate maxEntries none, 0, 0, maxEntries, threshold, 1⟩

/-- `micros` is the time since `start`. -/
def record (sl : SlowLogger) (start micros : Int) (args : Line) (client : Str) : SlowLogger :=
  if sl.entries.length = 0 then sl
  else if micros < sl.threshold then sl
  else
    { sl with
      nextID := sl.nextID + 1
      entries := sl.entries.set sl.nextIdx (some ⟨sl.nextID, start, micros, args, client⟩)
      nextIdx := (sl.nextIdx + 1) % sl.maxEntries
      count := if sl.count < sl.maxEntries then sl.count + 1 else sl.count }

def getEntries (sl : SlowLogger) (count : Int) : List (Option SlowLogEntry) :=
  if count ≤ 0 ∨ sl.count = 0 then []
  else
    let count := if sl.count < count then sl.count else count.toNat
    let startIdx := (sl.nextIdx + sl.maxEntries - 1) % sl.maxEntries
    (List.range count).map fun i =>
      sl.entries.getD ((startIdx + sl.maxEntries - i) % sl.maxEntries) none

def len (sl : SlowLogger) : Nat :=
  sl.count

def reset (sl : SlowLogger) : SlowLogger :=
  { sl with
    entries := List.replicate sl.maxEntries none
    count := 0
    nextIdx := 0
    nextID := 1 }

inductive Call
  | record (start micros : Int) (args : Line) (client : Str)
  | reset

def call (sl : SlowLogger) : Call → SlowLogger
  | .record start micros args client => sl.record start micros args client
  | .reset => sl.reset

/-- The entries recorded since the last reset, the newest first. -/
def recorded (threshold : Int) (calls : List Call) : List SlowLogEntry :=
  calls.foldl (fun entries call =>
    match call with
    | .record start micros args client =>
      if threshold ≤ micros then ⟨entries.length + 1, start, micros, args, client⟩ :: entries
      else entries
    | .reset => []) []

/-- The i-th newest entry is i cells before the last one written. -/
structure Holds (m : Nat) (threshold : Int) (sl : SlowLogger) (newest : List SlowLogEntry) :
    Prop where
  isMax : sl.maxEntries = m
  isThreshold : sl.threshold = threshold
  length : sl.entries.length = m
  next : sl.nextIdx = newest.length % m
  count : sl.count = min m newest.length
  nextID : sl.nextID = newest.length + 1
  cells : ∀ i (inside : i < newest.length), i < m →
    sl.entries.getD ((newest.length - 1 - i) % m) none = some newest[i]

variable {m : Nat} {threshold : Int} {sl : SlowLogger} {newest : List SlowLogEntry}

theorem Holds.empty (sl : SlowLogger) (isMax : sl.maxEntries = m)
    (isThreshold : sl.threshold = threshold) : Holds m threshold sl.reset [] :=
  ⟨isMax, isThreshold, by simp [reset, isMax], by simp [reset], by simp [reset], rfl, by simp⟩

theorem mod_ne {first second : Nat} (less : first < second) (near : second < first + m) :
    first % m ≠ second % m := by
  intro same
  have divides : m ∣ second - first := (Nat.modEq_iff_dvd' less.le).mp same
  have := Nat.le_of_dvd (by omega) divides
  omega

theorem Holds.record (positive : 0 < m) (holds : Holds m threshold sl newest)
    {start micros : Int} (args : Line) (client : Str) (slow : threshold ≤ micros) :
    Holds m threshold (sl.record start micros args client)
      (⟨newest.length + 1, start, micros, args, client⟩ :: newest) := by
  have some_ : ¬ sl.entries.length = 0 := by
    rw [holds.length]
    omega
  have notFast : ¬ micros < sl.threshold := by
    rw [holds.isThreshold]
    omega
  have low : newest.length % m < m := Nat.mod_lt _ positive
  rw [SlowLogger.record, if_neg some_, if_neg notFast]
  refine ⟨holds.isMax, holds.isThreshold, ?_, ?_, ?_, ?_, fun i inside near => ?_⟩
  · rw [List.length_set, holds.length]
  · rw [holds.next, holds.isMax, Nat.mod_add_mod, List.length_cons]
  · change (if sl.count < sl.maxEntries then sl.count + 1 else sl.count) = _
    rw [holds.count, holds.isMax, List.length_cons]
    split <;> omega
  · exact congrArg (· + 1) holds.nextID
  · rw [holds.next, holds.nextID, List.getD_eq_getElem?_getD, List.getElem?_set, List.length_cons]
    cases i with
    | zero =>
      simp [holds.length, low]
    | succ i =>
      rw [List.length_cons] at inside
      have cell := holds.cells i (by omega) (by omega)
      have other : newest.length % m ≠ (newest.length + 1 - 1 - (i + 1)) % m :=
        (mod_ne (by omega) (by omega)).symm
      rw [if_neg other, ← List.getD_eq_getElem?_getD, List.getElem_cons_succ, ← cell]
      congr 2
      omega

theorem Holds.run (positive : 0 < m) (calls : List Call) :
    Holds m threshold (calls.foldl call (new m threshold)) (recorded threshold calls) := by
  unfold recorded
  induction calls using List.reverseRecOn with
  | nil => exact Holds.empty (new m threshold) rfl rfl
  | append_singleton calls last ih =>
    rw [List.foldl_append, List.foldl_append]
    cases last with
    | reset => exact Holds.empty _ ih.isMax ih.isThreshold
    | record start micros args client =>
      simp only [List.foldl_cons, List.foldl_nil, call]
      split
      · exact ih.record positive args client ‹_›
      · have fast : micros < (calls.foldl call (new m threshold)).threshold := by
          rw [ih.isThreshold]
          omega
        have same : (calls.foldl call (new m threshold)).record start micros args client =
            calls.foldl call (new m threshold) := by
          rw [SlowLogger.record, if_pos fast, ite_self]
        rw [same]
        exact ih

theorem ids_recorded (calls : List Call) :
    (recorded threshold calls).map SlowLogEntry.id =
      (List.range' 1 (recorded threshold calls).length).reverse := by
  unfold recorded
  induction calls using List.reverseRecOn with
  | nil => rfl
  | append_singleton calls last ih =>
    rw [List.foldl_append]
    cases last with
    | reset => rfl
    | record start micros args client =>
      simp only [List.foldl_cons, List.foldl_nil]
      split
      · rw [List.map_cons, ih, List.length_cons, List.range'_1_concat, List.reverse_append, Nat.add_comm]
        rfl
      · exact ih

theorem back_mod {k i : Nat} (inside : i < k) (near : i < m) :
    ((k % m + m - 1) % m + m - i) % m = (k - 1 - i) % m := by
  have turn : ∀ back start : Nat, back ≤ m → ((start + back) % m + m - back) % m = start % m := by
    intro back start few
    rw [Nat.add_sub_assoc few, Nat.mod_add_mod, Nat.add_assoc, Nat.add_sub_cancel' few, Nat.add_mod_right]
  have first := turn 1 (k - 1) (by omega)
  have second := turn i (k - 1 - i) near.le
  rw [Nat.sub_add_cancel (by omega)] at first second
  rw [first, second]

/-- The slow log shows the newest entries first, as many as it is asked for and has kept. -/
theorem shows_newest (m : Nat) (positive : 0 < m) (threshold : Int) (calls : List Call) :
    let sl := calls.foldl call (new m threshold)
    let newest := recorded threshold calls
    (∀ n : Nat, sl.getEntries n = (newest.take (min n m)).map some) ∧
      sl.len = min m newest.length ∧
      newest.map SlowLogEntry.id = (List.range' 1 newest.length).reverse := by
  intro sl newest
  have holds : Holds m threshold sl newest := Holds.run positive calls
  refine ⟨fun n => ?_, holds.count, ids_recorded calls⟩
  unfold getEntries
  split
  · rename_i none_
    have few : min n m = 0 ∨ newest = [] := by
      rw [holds.count] at none_
      rcases none_ with _ | zero
      · omega
      · rcases Nat.min_eq_zero_iff.mp zero with _ | zero
        · omega
        · exact .inr (List.eq_nil_of_length_eq_zero zero)
    rcases few with few | few <;> simp [few]
  · have counts : (if (sl.count : Int) < n then sl.count else (n : Int).toNat) =
        min (min n m) newest.length := by
      rw [holds.count]
      split <;> omega
    simp only [counts]
    refine List.ext_getElem (by simp) fun i inside _ => ?_
    simp only [List.length_map, List.length_range] at inside
    rw [List.getElem_map, List.getElem_map, List.getElem_range, List.getElem_take, holds.isMax,
      holds.next, back_mod (by omega) (by omega)]
    exact holds.cells i (by omega) (by omega)

/-- A log for two entries that three slow commands and a fast one went through. -/
theorem shows_newest_of_three : ∃ sl : SlowLogger,
    (sl.getEntries 10).map (Option.map SlowLogEntry.id) = [some 3, some 2] := by
  let calls : List Call := [.record 0 50 [] [], .record 1 9 [] [], .record 2 60 [] [], .record 3 70 [] []]
  exact ⟨calls.foldl call (new 2 10), congrArg (List.map (Option.map SlowLogEntry.id))
    ((shows_newest 2 (by decide) 10 calls).1 10)⟩

end SlowLogger

end Godis.Database
