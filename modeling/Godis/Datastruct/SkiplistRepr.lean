import Godis.Datastruct.SkiplistHeap
import Godis.Datastruct.SkiplistPath

/-!
# Insertion and removal on the represented list

Level by level, the writes of `insert` put a new entry into the list behind the position
found by the search, and those of `removeNode` take the entry at that position out.
-/

namespace Godis.Skiplist

variable {M S : Type}

/-! ## One level -/

section OneLevel

variable {links links' : Nat → Option Level} {i : Nat} {passed rest : List (Entry M S)}
  {entry : Entry M S} {found : Nat × Int}

variable {after before first second entries : List (Entry M S)}

theorem LastAbove.cases_of_split {first : Entry M S} (last : LastAbove i passed found)
    (split : passed = before ++ first :: after) (tall : i < first.height)
    (distinct : (passed.map (·.ptr)).Nodup) :
    (found = (first.ptr, (before.length : Int)) ∧ ∀ other ∈ after, other.height ≤ i) ∨
      (first.ptr ≠ found.1 ∧ (next i after).isSome) := by
  obtain ⟨_, _, _, rfl, tall', short, rfl⟩ := last
  rcases split_append_cons split with ⟨mid, rfl, rfl⟩ | ⟨rfl, rfl, rfl⟩ | ⟨_, rfl, rfl⟩
  · refine Or.inr ⟨?_, ?_⟩
    · intro same
      simp [List.nodup_append, same] at distinct
    · rw [next_append]
      cases next i mid with
      | none => simp [next, tall']
      | some target => rfl
  · exact Or.inl ⟨rfl, short⟩
  · have low := short first (by simp)
    omega

theorem LastAbove.mem (last : LastAbove i passed found) : found.1 ∈ passed.map (·.ptr) := by
  obtain ⟨_, -, _, rfl, _, _, rfl⟩ := last
  simp

theorem next_append_of_isSome {third : List (Entry M S)} (stops : (next i first).isSome) :
    next i (first ++ second) = next i (first ++ third) := by
  obtain ⟨_, target_eq⟩ := Option.isSome_iff_exists.mp stops
  rw [next_append, next_append, target_eq]

theorem next_append_of_low (short : ∀ other ∈ first, other.height ≤ i) :
    next i (first ++ second) = (next i second).map fun (e, d) => (e, d + first.length) := by
  rw [next_append, next_eq_none_iff.mpr short]

theorem LevelChain.last_link (chain : LevelChain links i (passed ++ rest))
    (last : LastAbove i passed found) :
    ∃ (level : Level) (gap : Nat), found.2 + gap + 1 = passed.length ∧
      links found.1 = some level ∧ level.forward = (next i rest).map (·.1.ptr) ∧
      ∀ target distance, next i rest = some (target, distance) → level.span = distance + gap := by
  obtain ⟨before, first, mid, rfl, tall, short, rfl⟩ := last
  obtain ⟨level, level_eq, forward_eq, span_eq⟩ :=
    chain before first (mid ++ rest) (by simp) tall
  rw [next_append_of_low short] at forward_eq span_eq
  rw [Option.map_map] at forward_eq
  refine ⟨level, mid.length, ?_, level_eq, forward_eq, ?_⟩
  · simp only [List.length_append, List.length_cons]
    push_cast
    ring
  · intro target distance target_eq
    exact_mod_cast span_eq target (distance + mid.length) (by simp [target_eq])

/-- Only the last entry above `i` reaches what follows `passed`, so the other links stay. -/
theorem LevelChain.replace {rest' : List (Entry M S)} {gap : Nat}
    (chain : LevelChain links i (passed ++ rest)) (last : LastAbove i passed found)
    (distinct : (passed.map (·.ptr)).Nodup)
    (kept : ∀ other ∈ passed, other.ptr ≠ found.1 → links' other.ptr = links other.ptr)
    (position : found.2 + gap + 1 = passed.length)
    (changed : Linked links' found.1 ((next i rest').map fun (e, d) => (e, d + gap)))
    (tail : LevelChain links' i rest') : LevelChain links' i (passed ++ rest') := by
  intro before first after split tall
  rcases split_append split with ⟨mid, split', rfl⟩ | ⟨mid, _, split'⟩
  · rcases last.cases_of_split split' tall distinct with ⟨rfl, short⟩ | ⟨apart, stops⟩
    · have gap_eq : gap = mid.length := by
        rw [split', List.length_append, List.length_cons] at position
        omega
      rw [next_append_of_low short, ← gap_eq]
      exact changed
    · rw [next_append_of_isSome stops]
      obtain ⟨level, level_eq, target⟩ :=
        chain before first (mid ++ rest) (by simp [split']) tall
      exact ⟨level, (kept first (by simp [split']) apart).trans level_eq, target⟩
  · exact tail mid first after split' tall

theorem LevelChain.congr (chain : LevelChain links i entries)
    (same : ∀ entry ∈ entries, links' entry.ptr = links entry.ptr) :
    LevelChain links' i entries := by
  intro before first after split tall
  obtain ⟨level, level_eq, target⟩ := chain before first after split tall
  exact ⟨level, (same first (by simp [split])).trans level_eq, target⟩

theorem LevelChain.drop (chain : LevelChain links i (before ++ after)) :
    LevelChain links i after := by
  intro low first high split tall
  exact chain (before ++ low) first high (by simp [split]) tall

theorem LevelChain.cons (first : i < entry.height → Linked links entry.ptr (next i entries))
    (chain : LevelChain links i entries) : LevelChain links i (entry :: entries) := by
  intro before other after split tall
  cases before with
  | nil =>
    obtain ⟨rfl, rfl⟩ := List.cons.inj split
    exact first tall
  | cons head before =>
    obtain ⟨rfl, rfl⟩ := List.cons.inj split
    exact chain before other after rfl tall

section Distinct

variable (distinct : ((passed ++ entry :: rest).map (·.ptr)).Nodup)

include distinct

theorem passed_distinct : (passed.map (·.ptr)).Nodup := by
  rw [List.map_append] at distinct
  exact distinct.of_append_left

variable {other : Entry M S}

theorem entry_apart (mem : other ∈ passed ++ rest) : other.ptr ≠ entry.ptr := by
  intro same
  simp only [List.map_append, List.map_cons, List.nodup_append, List.nodup_cons,
    List.mem_map, List.mem_cons, not_exists, not_and] at distinct
  rcases List.mem_append.mp mem with mem | mem
  · exact distinct.2.2 other.ptr ⟨other, mem, rfl⟩ entry.ptr (Or.inl rfl) same
  · exact distinct.2.1.1 other mem same

theorem rest_apart (last : LastAbove i passed found) (mem : other ∈ rest) :
    other.ptr ≠ found.1 := by
  intro same
  obtain ⟨final, mem', ptr_eq⟩ := List.mem_map.mp last.mem
  simp only [List.map_append, List.map_cons, List.nodup_append, List.mem_map, List.mem_cons]
    at distinct
  exact distinct.2.2 found.1 ⟨final, mem', ptr_eq⟩ other.ptr (Or.inr ⟨other, mem, rfl⟩) same.symm

theorem entry_apart_found (last : LastAbove i passed found) : found.1 ≠ entry.ptr := by
  obtain ⟨_, mem, ptr_eq⟩ := List.mem_map.mp last.mem
  rw [← ptr_eq]
  exact entry_apart distinct (List.mem_append_left rest mem)

theorem LevelChain.insert (chain : LevelChain links i (passed ++ rest))
    (last : LastAbove i passed found) (tall : i < entry.height)
    (inserted : Inserted entry.ptr (passed.length - 1) found links links') :
    LevelChain links' i (passed ++ entry :: rest) := by
  obtain ⟨level, level_eq, own_eq, found_eq, kept⟩ := inserted
  obtain ⟨_, _, position, level_eq', forward_eq, span_eq⟩ := chain.last_link last
  obtain rfl := Option.some.inj (level_eq.symm.trans level_eq')
  refine chain.replace last (passed_distinct distinct) ?_ position ?_ ?_
  · intro other mem apart
    exact kept other.ptr apart (entry_apart distinct (List.mem_append_left rest mem))
  · refine ⟨_, found_eq, by simp [next, tall], ?_⟩
    intro target distance target_eq
    simp only [next, tall, if_true, Option.map_some, Option.some.injEq, Prod.mk.injEq] at target_eq
    push_cast
    omega
  · refine .cons (fun _ => ⟨_, own_eq, forward_eq, ?_⟩) (chain.drop.congr ?_)
    · intro target distance target_eq
      have span := span_eq target distance target_eq
      show level.span - (passed.length - 1 - found.2) = distance
      omega
    · intro other mem
      exact kept other.ptr (rest_apart distinct last mem)
        (entry_apart distinct (List.mem_append_right passed mem))

theorem LevelChain.widen (chain : LevelChain links i (passed ++ rest))
    (last : LastAbove i passed found) (low : entry.height ≤ i)
    (widened : Widened found links links') : LevelChain links' i (passed ++ entry :: rest) := by
  obtain ⟨_, level_eq, found_eq, kept⟩ := widened
  obtain ⟨_, _, position, level_eq', forward_eq, span_eq⟩ := chain.last_link last
  obtain rfl := Option.some.inj (level_eq.symm.trans level_eq')
  have skip : next i (entry :: rest) = (next i rest).map fun (e, d) => (e, d + 1) := by
    rw [next, if_neg (Nat.not_lt.mpr low)]
  refine chain.replace last (passed_distinct distinct) (fun other _ => kept other.ptr) position ?_ ?_
  · refine ⟨_, found_eq, ?_, ?_⟩
    · rw [skip, Option.map_map, Option.map_map]
      exact forward_eq
    · intro target distance target_eq
      rw [skip, Option.map_map] at target_eq
      obtain ⟨⟨target', distance'⟩, next_eq, pair⟩ := Option.map_eq_some_iff.mp target_eq
      obtain ⟨rfl, rfl⟩ := Prod.mk.inj pair
      rw [span_eq target' distance' next_eq]
      push_cast
      ring
  · refine .cons (fun tall => absurd tall (Nat.not_lt.mpr low)) (chain.drop.congr ?_)
    intro other mem
    exact kept other.ptr (rest_apart distinct last mem)

theorem next_ne_low (low : ¬ i < entry.height) :
    (next i (entry :: rest)).map (·.1.ptr) ≠ some entry.ptr := by
  intro points
  rw [next, if_neg low, Option.map_map] at points
  obtain ⟨⟨target, _⟩, next_eq, ptr_eq⟩ := Option.map_eq_some_iff.mp points
  obtain ⟨_, _, split, _⟩ := next_eq_some next_eq
  have mem : target ∈ passed ++ rest := by
    simp [split]
  exact entry_apart distinct mem ptr_eq

theorem LevelChain.unlink (chain : LevelChain links i (passed ++ entry :: rest))
    (last : LastAbove i passed found) (unlinked : Unlinked entry.ptr found links links') :
    LevelChain links' i (passed ++ rest) := by
  obtain ⟨level, level_eq, pointing, away, kept⟩ := unlinked
  obtain ⟨_, _, position, level_eq', forward_eq, span_eq⟩ := chain.last_link last
  obtain rfl := Option.some.inj (level_eq.symm.trans level_eq')
  have chain' : LevelChain links i ([entry] ++ rest) := chain.drop
  refine chain.replace last (passed_distinct distinct) (fun other _ => kept other.ptr) position ?_
    (chain'.drop.congr fun other mem => kept other.ptr (rest_apart distinct last mem))
  by_cases tall : i < entry.height
  · have next_eq : next i (entry :: rest) = some (entry, 1) := by
      rw [next, if_pos tall]
    obtain ⟨_, own_eq, found_eq⟩ := pointing (by rw [forward_eq, next_eq]; rfl)
    obtain ⟨_, own_eq', forward_eq', span_eq'⟩ := chain passed entry rest rfl tall
    obtain rfl := Option.some.inj (own_eq.symm.trans own_eq')
    refine ⟨_, found_eq, ?_, ?_⟩
    · rw [Option.map_map]
      exact forward_eq'
    · intro target distance target_eq
      obtain ⟨⟨target', distance'⟩, next_eq', pair⟩ := Option.map_eq_some_iff.mp target_eq
      obtain ⟨rfl, rfl⟩ := Prod.mk.inj pair
      rw [span_eq entry 1 next_eq, span_eq' target' distance' next_eq']
      push_cast
      ring
  · have skip : next i (entry :: rest) = (next i rest).map fun (e, d) => (e, d + 1) := by
      rw [next, if_neg tall]
    have misses : level.forward ≠ some entry.ptr := by
      rw [forward_eq]
      exact next_ne_low distinct tall
    rw [skip, Option.map_map] at forward_eq
    rw [skip] at span_eq
    refine ⟨_, away misses, ?_, ?_⟩
    · rw [Option.map_map]
      exact forward_eq
    · intro target distance target_eq
      obtain ⟨⟨target', distance'⟩, next_eq', pair⟩ := Option.map_eq_some_iff.mp target_eq
      obtain ⟨rfl, rfl⟩ := Prod.mk.inj pair
      rw [span_eq target' (distance' + 1) (by simp [next_eq'])]
      push_cast
      ring

end Distinct

end OneLevel

/-! ## The whole list -/

def Mirrored (backward : Nat → Option (Option Nat)) (entries : List (Entry M S)) : Prop :=
  ∀ before entry after, entries = before ++ entry :: after →
    backward entry.ptr = some (before.getLast?.map (·.ptr))

section Mirror

variable {backward backward' : Nat → Option (Option Nat)} {passed rest : List (Entry M S)}
  {entry : Entry M S}

theorem getLast?_append_cons_ne_nil {α : Type} {first second : List α} {item : α} (ne : second ≠ []) : (first ++ item :: second).getLast? = (first ++ second).getLast? := by
  rw [List.getLast?_append_of_ne_nil _ ne, List.getLast?_append_of_ne_nil _ (by simp),
    List.getLast?_cons_of_ne_nil ne]

theorem Mirrored.insert (mirrored : Mirrored backward (passed ++ rest))
    (own : backward' entry.ptr = some (passed.getLast?.map (·.ptr)))
    (first : ∀ next after, rest = next :: after → backward' next.ptr = some (some entry.ptr))
    (kept : ∀ other ∈ passed ++ rest.tail, backward' other.ptr = backward other.ptr) :
    Mirrored backward' (passed ++ entry :: rest) := by
  intro before other after split
  rcases split_append_cons split with ⟨mid, rfl, rfl⟩ | ⟨rfl, rfl, rfl⟩ | ⟨mid, rfl, rfl⟩
  · rw [kept other (by simp)]
    exact mirrored before other (mid ++ rest) (by simp)
  · exact own
  · cases mid with
    | nil => simpa using first other after rfl
    | cons next mid =>
      rw [kept other (by simp), getLast?_append_cons_ne_nil (by simp)]
      exact mirrored (passed ++ next :: mid) other after (by simp)

theorem Mirrored.remove (mirrored : Mirrored backward (passed ++ entry :: rest))
    (first : ∀ next after, rest = next :: after →
      backward' next.ptr = some (passed.getLast?.map (·.ptr)))
    (kept : ∀ other ∈ passed ++ rest.tail, backward' other.ptr = backward other.ptr) :
    Mirrored backward' (passed ++ rest) := by
  intro before other after split
  rcases split_append split with ⟨mid, rfl, rfl⟩ | ⟨mid, rfl, rfl⟩
  · rw [kept other (by simp)]
    exact mirrored before other (mid ++ entry :: rest) (by simp)
  · cases mid with
    | nil => simpa using first other after rfl
    | cons next mid =>
      rw [kept other (by simp), ← getLast?_append_cons_ne_nil (by simp)]
      exact mirrored (passed ++ entry :: next :: mid) other after (by simp)

end Mirror

def top (header : Element M S) : Entry M S :=
  ⟨0, maxLevel, header⟩

/-- The skip list holds the entries, in this order. -/
structure Repr (header : Element M S) (sl : Skiplist M S) (entries : List (Entry M S)) : Prop where
  chained : Chained sl (top header :: entries)
  distinct : ((top header :: entries).map (·.ptr)).Nodup
  backward : Mirrored sl.backwardAt entries
  tail : sl.tail = entries.getLast?.map (·.ptr)
  length : sl.length = entries.length
  heights : ∀ entry ∈ entries, 0 < entry.height ∧ entry.height ≤ sl.level
  level : 0 < sl.level ∧ sl.level ≤ maxLevel

theorem makeSkiplist_repr [Inhabited M] [Inhabited S] :
    Repr ⟨default, default⟩ (makeSkiplist (M := M) (S := S)) [] where
  chained := by
    refine ⟨?_, ?_, ?_⟩
    · intro entry mem
      rw [List.mem_singleton.mp mem]
      rfl
    · intro entry mem
      rw [List.mem_singleton.mp mem]
      rfl
    · intro i
      refine .cons (fun tall => ⟨⟨none, 0⟩, ?_, rfl, by simp [next]⟩) (by simp [LevelChain])
      have below : i < maxLevel := tall
      simp [levelAt, makeSkiplist, makeNode, top, below]
  distinct := by simp
  backward := by simp [Mirrored]
  tail := rfl
  length := rfl
  heights := by simp
  level := by simp [makeSkiplist, maxLevel]

theorem Repr.entries_lt {header : Element M S} {sl : Skiplist M S} {entries : List (Entry M S)}
    (repr : Repr header sl entries) : entries.length < sl.nodes.length := by
  have allocated : (top header :: entries).map (·.ptr) ⊆ List.range sl.nodes.length := by
    intro ptr mem
    obtain ⟨entry, mem', rfl⟩ := List.mem_map.mp mem
    obtain ⟨_, node_eq, _⟩ := Option.map_eq_some_iff.mp (repr.chained.height entry mem')
    exact List.mem_range.mpr (List.getElem?_eq_some_iff.mp node_eq).1
  have bound := (List.subperm_of_subset repr.distinct allocated).length_le
  simpa using bound

end Godis.Skiplist
