import Godis.Golang.Str
import Mathlib.Data.Finset.Card
import Mathlib.Tactic

/-!
# Cursor iteration (`DictScan` of `datastruct/dict/concurrent.go`, `lib/wildcard`)

A `for range` loop visits the keys of a shard in any order, in each call in another one.
-/

namespace Godis.Dict

open Golang

/-! ## Patterns -/

/-- What the characters of a pattern become in a regular expression. -/
def replaceMap (ch : UInt8) : Str :=
  if ch ∈ lit "+)$." ∨ ch = 123 ∨ ch = 125 ∨ ch = 124 then [92, ch]
  else if ch = 42 then lit ".*"
  else if ch = 63 then lit "."
  else [ch]

/-- The loop of `CompilePattern`; `before` holds the characters before, the last one first. -/
def regexSource : Str → Str → Option Str
  | _, [] => some []
  | _, [92] => none
  | before, 92 :: next :: rest => (regexSource (next :: 92 :: before) rest).map ([92, next] ++ ·)
  | before, ch :: rest =>
    let text :=
      if ch = 94 then
        if before.head? = some 91 ∧ before.tail.head? ≠ some 92 then lit "^" else [92, 94]
      else replaceMap ch
    (regexSource (ch :: before) rest).map (text ++ ·)

/-- `CompilePattern`, given what `regexp.Compile` makes of an expression. -/
def compilePattern (regexp : Str → Option (Str → Bool)) (src : Str) : Option (Str → Bool) := do
  regexp (lit "^" ++ (← regexSource [] src) ++ lit "$")

/-! ## Shards -/

/-- The table of a `ConcurrentDict`: how many shards there are, and the shard of a key. -/
structure Sharding where
  shardCount : Nat
  spread : Str → Nat
  spread_lt : ∀ key, spread key < shardCount

def fnv32 (key : Str) : UInt32 :=
  key.foldl (fun hash byte => (hash * 16777619) ^^^ byte.toUInt32) 2166136261

namespace Sharding

/-- `spread` in a table of the size. -/
def ofSize (tableSize : Nat) (positive : 0 < tableSize) : Sharding where
  shardCount := tableSize
  spread key := (tableSize - 1) &&& (fnv32 key).toNat
  spread_lt _ := Nat.lt_of_le_of_lt Nat.and_le_left (Nat.sub_lt positive Nat.one_pos)

def dataDict : Sharding :=
  ofSize (2 ^ 16) (by decide)

variable (table : Sharding)

def all : List Nat :=
  List.range table.shardCount

def shard (keys : Finset Str) (index : Nat) : Finset Str :=
  keys.filter fun key => table.spread key = index

def shards (keys : Finset Str) : List (Finset Str) :=
  table.all.map (table.shard keys)

variable {table} {keys : Finset Str}

variable (table keys) in
theorem disjoint_shards : (table.shards keys).Pairwise Disjoint := by
  refine List.Pairwise.map _ (fun first second different => ?_) List.nodup_range
  refine Finset.disjoint_left.mpr fun key here there => different ?_
  exact (Finset.mem_filter.mp here).2.symm.trans (Finset.mem_filter.mp there).2

theorem mem_shards {key : Str} : (∃ shard ∈ table.shards keys, key ∈ shard) ↔ key ∈ keys := by
  constructor
  · rintro ⟨_, member, inside⟩
    obtain ⟨_, -, rfl⟩ := List.mem_map.mp member
    exact (Finset.mem_filter.mp inside).1
  · intro inside
    exact ⟨_, List.mem_map_of_mem (List.mem_range.mpr (table.spread_lt key)),
      Finset.mem_filter.mpr ⟨inside, rfl⟩⟩

end Sharding

/-! ## Scanning -/

def Visits : List (Finset Str) → List (List Str) → Prop :=
  List.Forall₂ fun shard visit => visit.Nodup ∧ visit.toFinset = shard

def scanShards (isMatch : Str → Bool) (count : Int) (cursor : Nat) :
    Nat → List (List Str) → List Str → List Str × Int
  | _, [], result => (result, 0)
  | index, visit :: rest, result =>
    if count < result.length + visit.length ∧ cursor < index then (result, index)
    else scanShards isMatch count cursor (index + 1) rest (result ++ visit.filter isMatch)

/-- The keys of the shards in an order in which the loops may visit them. -/
def Sharding.visits (table : Sharding) (order : Finset Str → List Str) (keys : Finset Str) :
    List (List Str) :=
  (table.shards keys).map order

/-- `none` for a panic. -/
def dictScan (compile : Str → Option (Str → Bool)) (size : Int) (visits : List (List Str))
    (cursor count : Int) (pattern : Str) : Option (List Str × Int) :=
  if pattern = lit "*" ∧ size ≤ count then some (visits.flatten, 0)
  else
    match compile pattern with
    | none => some ([], -1)
    | some isMatch =>
      if cursor < 0 then none
      else some (scanShards (fun key => pattern = lit "*" || isMatch key) count cursor.toNat
        cursor.toNat (visits.drop cursor.toNat) [])

/-- The shards whose mutex `DictScan` takes.  That of the next cursor is locked to count its keys. -/
def Sharding.scanned (table : Sharding) (compile : Str → Option (Str → Bool))
    (order : Finset Str → List Str) (keys : Finset Str) (cursor count : Int) (pattern : Str) : List Nat :=
  if pattern = lit "*" ∧ (keys.card : Int) ≤ count then table.all
  else
    match dictScan compile keys.card (table.visits order keys) cursor count pattern with
    | some (_, 0) => table.all.drop cursor.toNat
    | some (_, .ofNat next) => (table.all.take (next + 1)).drop cursor.toNat
    | _ => []

/-- Calls with the cursors returned, until one returns 0; `none` if `fuel` calls are too few. -/
def scanAll (compile : Str → Option (Str → Bool)) (size : Int) (visits : Nat → List (List Str))
    (count : Int) (pattern : Str) : Nat → Nat → Int → Option (List Str)
  | 0, _, _ => none
  | fuel + 1, call, cursor => do
    let (keys, next) ← dictScan compile size (visits call) cursor count pattern
    if next = 0 then some keys
    else (scanAll compile size visits count pattern fuel (call + 1) next).map (keys ++ ·)

variable {isMatch : Str → Bool} {shards shards' : List (Finset Str)} {keys keys' : List Str}

def Lists (isMatch : Str → Bool) (shards : List (Finset Str)) (keys : List Str) : Prop :=
  keys.Nodup ∧ ∀ key, key ∈ keys ↔ isMatch key = true ∧ ∃ shard ∈ shards, key ∈ shard

theorem Lists.append (first : Lists isMatch shards keys) (second : Lists isMatch shards' keys')
    (disjoint : (shards ++ shards').Pairwise Disjoint) :
    Lists isMatch (shards ++ shards') (keys ++ keys') := by
  refine ⟨first.1.append second.1 fun key here there => ?_, fun key => ?_⟩
  · obtain ⟨-, shard, member, inside⟩ := (first.2 key).mp here
    obtain ⟨-, shard', member', inside'⟩ := (second.2 key).mp there
    exact Finset.disjoint_left.mp ((List.pairwise_append.mp disjoint).2.2 shard member shard' member')
      inside inside'
  · rw [List.mem_append, first.2, second.2]
    simp only [List.mem_append, or_and_right, exists_or, and_or_left]

theorem lists_visits (isMatch : Str → Bool) {visits : List (List Str)} (visited : Visits shards visits)
    (disjoint : shards.Pairwise Disjoint) :
    Lists isMatch shards (visits.flatMap fun visit => visit.filter isMatch) := by
  induction visited with
  | nil => simp [Lists]
  | @cons shard visit shards visits here later ih =>
    obtain ⟨nodup, rfl⟩ := here
    have one : Lists isMatch [visit.toFinset] (visit.filter isMatch) :=
      ⟨nodup.filter _, fun key => by simp [and_comm]⟩
    exact one.append (ih disjoint.of_cons) disjoint

theorem scanShards_spec (isMatch : Str → Bool) (count : Int) (cursor index : Nat)
    (rest : List (List Str)) (result : List Str) :
    ∃ n ≤ rest.length, (index = cursor → rest ≠ [] → 0 < n) ∧
      scanShards isMatch count cursor index rest result =
        (result ++ (rest.take n).flatMap fun visit => visit.filter isMatch,
          if n = rest.length then 0 else ↑(index + n)) := by
  induction rest generalizing index result with
  | nil => exact ⟨0, le_rfl, fun _ some_ => absurd rfl some_, by simp [scanShards]⟩
  | cons visit rest ih =>
    rw [scanShards]
    split
    · exact ⟨0, Nat.zero_le _, fun same => by omega, by simp⟩
    · obtain ⟨n, le, -, scanned⟩ := ih (index + 1) (result ++ visit.filter isMatch)
      refine ⟨n + 1, Nat.succ_le_succ le, fun _ _ => Nat.succ_pos n, scanned.trans ?_⟩
      simp [Nat.add_right_comm, Nat.add_assoc]

section Complete

variable {compile : Str → Option (Str → Bool)} {visits : Nat → List (List Str)} {pattern : Str}
  {table : Sharding} {keys : Finset Str} (visited : ∀ call, Visits (table.shards keys) (visits call))
  (compiles : compile pattern = some isMatch) (count : Int)

include visited compiles

theorem scanAll_spec (long : ¬ (pattern = lit "*" ∧ (keys.card : Int) ≤ count))
    (fuel call cursor : Nat) (enough : table.shardCount - cursor < fuel)
    (inside : cursor = 0 ∨ cursor < table.shardCount) :
    ∃ found, scanAll compile keys.card visits count pattern fuel call cursor = some found ∧
      Lists (fun key => pattern = lit "*" || isMatch key) ((table.shards keys).drop cursor) found := by
  induction fuel generalizing call cursor with
  | zero => omega
  | succ fuel ih =>
    obtain ⟨n, le, grows, scanned⟩ := scanShards_spec (fun key => pattern = lit "*" || isMatch key)
      count cursor cursor ((visits call).drop cursor) []
    have length : table.shardCount = (visits call).length := by
      rw [← (visited call).length_eq, Sharding.shards, List.length_map, Sharding.all, List.length_range]
    have disjoint := (table.disjoint_shards keys).sublist (List.drop_sublist cursor _)
    have here := lists_visits (fun key => pattern = lit "*" || isMatch key)
      (List.forall₂_take n (List.forall₂_drop cursor (visited call)))
      (disjoint.sublist (List.take_sublist n _))
    rw [List.length_drop, ← length] at le scanned
    rw [← List.length_pos_iff, List.length_drop] at grows
    rw [scanAll, dictScan, if_neg long, compiles]
    dsimp only
    rw [if_neg (by omega), Int.toNat_natCast, scanned]
    by_cases all : n = table.shardCount - cursor
    · rw [List.take_of_length_le (by rw [List.length_drop, all, length, (visited call).length_eq])] at here
      exact ⟨_, by simp [all], here⟩
    · obtain ⟨_, later, lists⟩ := ih (call + 1) (cursor + n) (by omega) (by omega)
      rw [← List.drop_drop] at lists
      have both := here.append lists (by rwa [List.take_append_drop])
      rw [List.take_append_drop] at both
      refine ⟨_, ?_, both⟩
      have more : ((cursor + n : Nat) : Int) ≠ 0 := by omega
      simp only [if_neg all, Option.bind_eq_bind, Option.bind_some, if_neg more, later]
      rfl

/-- With a pattern that compiles, the iteration ends, and finds every matching key once. -/
theorem scan_complete :
    ∃ found, scanAll compile keys.card visits count pattern (table.shardCount + 1) 0 0 = some found ∧
      found.Nodup ∧ ∀ key, key ∈ found ↔ (pattern = lit "*" || isMatch key) = true ∧ key ∈ keys := by
  suffices ∃ found, scanAll compile keys.card visits count pattern (table.shardCount + 1) 0 0 =
      some found ∧ Lists (fun key => pattern = lit "*" || isMatch key) (table.shards keys) found by
    obtain ⟨found, scanned, nodup, mem⟩ := this
    exact ⟨found, scanned, nodup, fun key => (mem key).trans (and_congr_right' Sharding.mem_shards)⟩
  by_cases short : pattern = lit "*" ∧ (keys.card : Int) ≤ count
  · have every := lists_visits (fun key => pattern = lit "*" || isMatch key) (visited 0)
      (table.disjoint_shards keys)
    refine ⟨_, ?_, every⟩
    simp [scanAll, dictScan, short, List.flatMap_id']
  · exact scanAll_spec visited compiles count short (table.shardCount + 1) 0 0 (by omega) (.inl rfl)

end Complete

theorem visits_order {order : Finset Str → List Str} (nodup : ∀ keys, (order keys).Nodup)
    (mem : ∀ keys key, key ∈ order keys ↔ key ∈ keys) (table : Sharding) (keys : Finset Str) :
    Visits (table.shards keys) (table.visits order keys) := by
  refine List.forall₂_map_right_iff.mpr (List.forall₂_same.mpr fun shard _ => ⟨nodup shard, ?_⟩)
  ext key
  rw [List.mem_toFinset, mem]

/-- Two keys in 16 shards. -/
theorem scan_complete_two :
    let table := Sharding.ofSize 16 (by decide)
    ∃ found, scanAll (compilePattern fun _ => some fun _ => true) 2
      (fun _ => table.visits sorted {[97], [98]}) 1 (lit "?") 17 0 0 = some found ∧ found.Nodup ∧
        ∀ key, key ∈ found ↔ (lit "?" = lit "*" || true) = true ∧ key ∈ ({[97], [98]} : Finset Str) :=
  scan_complete (fun _ => visits_order nodup_sorted (fun _ _ => mem_sorted) (.ofSize 16 (by decide))
    {[97], [98]}) rfl 1

theorem scanAll_uncompiled {compile : Str → Option (Str → Bool)} {pattern : Str}
    (refused : compile pattern = none) (special : pattern ≠ lit "*") (size : Int)
    (visits : Nat → List (List Str)) (count : Int) (fuel call : Nat) (cursor : Int) :
    scanAll compile size visits count pattern fuel call cursor = none := by
  induction fuel generalizing call cursor with
  | zero => rfl
  | succ fuel ih => simp [scanAll, dictScan, special, refused, ih]

/-- A pattern that ends in an escape does not compile: the cursor is -1, and stays so. -/
theorem scan_never_ends :
    ¬ ∃ fuel found, scanAll (compilePattern fun _ => some fun _ => true) 2
      (fun _ => (Sharding.ofSize 16 (by decide)).visits sorted {[97], [98]}) 1 [92] fuel 0 0 =
        some found := by
  rintro ⟨fuel, found, ended⟩
  rw [scanAll_uncompiled rfl (by decide)] at ended
  cases ended

end Godis.Dict
