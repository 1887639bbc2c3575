import Godis.Datastruct.Skiplist

/-!
# What a skip list represents

A list of entries, the nodes of level 0 in order, determines every link: on level `i`
a node points to the next entry higher than `i`.  The search loops are described by
where they cut this list.
-/

namespace Godis.Skiplist

variable {M S : Type}

structure Entry (M S : Type) where
  ptr : Nat
  height : Nat
  elem : Element M S

def next (i : Nat) : List (Entry M S) → Option (Entry M S × Nat)
  | [] => none
  | entry :: rest =>
    if i < entry.height then some (entry, 1) else (next i rest).map fun (e, d) => (e, d + 1)

/-- On one level, given by the links of its nodes, node `ptr` points to the given entry. -/
def Linked (links : Nat → Option Level) (ptr : Nat) (target : Option (Entry M S × Nat)) : Prop :=
  ∃ level, links ptr = some level ∧ level.forward = target.map (·.1.ptr) ∧
    ∀ entry distance, target = some (entry, distance) → level.span = distance

def LevelChain (links : Nat → Option Level) (i : Nat) (entries : List (Entry M S)) : Prop :=
  ∀ before entry after, entries = before ++ entry :: after → i < entry.height →
    Linked links entry.ptr (next i after)

/-- The heap holds the entries: heights and elements, and the links of each level. -/
structure Chained (sl : Skiplist M S) (entries : List (Entry M S)) : Prop where
  height : ∀ entry ∈ entries, sl.heightAt entry.ptr = some entry.height
  elem : ∀ entry ∈ entries, sl.elemAt entry.ptr = some entry.elem
  links : ∀ i, LevelChain (sl.levelAt · i) i entries

variable {entries : List (Entry M S)} {entry : Entry M S} {i : Nat}

theorem Chained.link {sl : Skiplist M S} {before after : List (Entry M S)}
    (chained : Chained sl entries) (split : entries = before ++ entry :: after)
    (tall : i < entry.height) :
    ∃ level, sl.levelAt entry.ptr i = some level ∧
      level.forward = (next i after).map (·.1.ptr) ∧
      ∀ target distance, next i after = some (target, distance) → level.span = distance :=
  chained.links i before entry after split tall

/-! ## Cuts -/

section Cuts

variable {α : Type} {first second before after : List α} {item other : α}

theorem split_append (split : first ++ second = before ++ item :: after) :
    (∃ mid, first = before ++ item :: mid ∧ after = mid ++ second) ∨
      ∃ mid, before = first ++ mid ∧ second = mid ++ item :: after := by
  rcases List.append_eq_append_iff.mp split with ⟨cut, rfl, eq⟩ | ⟨cut, rfl, eq⟩
  · exact Or.inr ⟨cut, rfl, eq⟩
  · cases cut with
    | nil => exact Or.inr ⟨[], by simp, by simpa using eq.symm⟩
    | cons head cut =>
      obtain ⟨rfl, rfl⟩ := List.cons.inj eq
      exact Or.inl ⟨cut, rfl, rfl⟩

theorem split_append_cons (split : first ++ other :: second = before ++ item :: after) :
    (∃ mid, first = before ++ item :: mid ∧ after = mid ++ other :: second) ∨
      (before = first ∧ item = other ∧ after = second) ∨
      ∃ mid, before = first ++ other :: mid ∧ second = mid ++ item :: after := by
  rcases split_append split with left | ⟨cut, rfl, eq⟩
  · exact Or.inl left
  · cases cut with
    | nil =>
      obtain ⟨rfl, rfl⟩ := List.cons.inj eq
      exact Or.inr (Or.inl ⟨by simp, rfl, rfl⟩)
    | cons head cut =>
      obtain ⟨rfl, rfl⟩ := List.cons.inj eq
      exact Or.inr (Or.inr ⟨cut, rfl, rfl⟩)

end Cuts

theorem next_append {first second : List (Entry M S)} :
    next i (first ++ second) = match next i first with
      | some target => some target
      | none => (next i second).map fun (e, d) => (e, d + first.length) := by
  induction first with
  | nil => simp [next]
  | cons entry rest ih =>
    rw [List.cons_append, next, next]
    by_cases tall : i < entry.height
    · rw [if_pos tall, if_pos tall]
    · rw [if_neg tall, if_neg tall, ih]
      cases next i rest with
      | some target => rfl
      | none =>
        cases next i second with
        | some target => simp [Nat.add_assoc]
        | none => rfl

theorem next_eq_none_iff :
    next i entries = none ↔ ∀ entry ∈ entries, entry.height ≤ i := by
  induction entries with
  | nil => simp [next]
  | cons entry rest ih =>
    rw [next]
    by_cases tall : i < entry.height
    · simp [tall]
    · simp [tall, ih, Nat.le_of_not_lt tall]

theorem next_eq_some {target : Entry M S} {distance : Nat}
    (found : next i entries = some (target, distance)) :
    ∃ low after, entries = low ++ target :: after ∧ distance = low.length + 1 ∧
      i < target.height ∧ ∀ entry ∈ low, entry.height ≤ i := by
  induction entries generalizing distance with
  | nil => cases found
  | cons entry rest ih =>
    rw [next] at found
    by_cases tall : i < entry.height
    · rw [if_pos tall] at found
      obtain ⟨rfl, rfl⟩ := Prod.mk.inj (Option.some.inj found)
      exact ⟨[], rest, rfl, rfl, tall, by simp⟩
    · rw [if_neg tall] at found
      obtain ⟨⟨_, d⟩, eq, pair⟩ := Option.map_eq_some_iff.mp found
      obtain ⟨rfl, rfl⟩ := Prod.mk.inj pair
      obtain ⟨low, after, split, length_eq, tall', short⟩ := ih eq
      refine ⟨entry :: low, after, by simp [split], by simp [length_eq], tall', ?_⟩
      intro other mem
      rcases List.mem_cons.mp mem with rfl | mem
      · exact Nat.le_of_not_lt tall
      · exact short other mem

theorem next_split {low high : List (Entry M S)} (short : ∀ other ∈ low, other.height ≤ i)
    (tall : i < entry.height) :
    next i (low ++ entry :: high) = some (entry, low.length + 1) := by
  rw [next_append, next_eq_none_iff.mpr short, next, if_pos tall]
  simp [Nat.add_comm]

/-- `found` is the last entry of `passed` higher than `i`, at position `rank`. -/
def LastAbove (i : Nat) (passed : List (Entry M S)) (found : Nat × Int) : Prop :=
  ∃ before entry after, passed = before ++ entry :: after ∧ i < entry.height ∧
    (∀ other ∈ after, other.height ≤ i) ∧ found = (entry.ptr, (before.length : Int))

/-! ## The search loops -/

section Search

variable (goOn : Int → Element M S → Bool)

/-- The search went on at every entry of `mid` of height `n` or more; `start` entries
come before `mid`. -/
def Accepted (n start : Nat) (mid : List (Entry M S)) : Prop :=
  ∀ low entry high, mid = low ++ entry :: high → n ≤ entry.height →
    goOn (start + low.length : Nat) entry.elem = true

def Blocked (i start : Nat) (rest : List (Entry M S)) : Prop :=
  ∀ low entry high, rest = low ++ entry :: high → i < entry.height →
    (∀ other ∈ low, other.height ≤ i) → goOn (start + low.length : Nat) entry.elem = false

variable {goOn}

variable {n start i : Nat} {mid rest entries : List (Entry M S)} {sl : Skiplist M S}

theorem Accepted.append {first second : List (Entry M S)} (accepted : Accepted goOn n start first)
    (accepted' : Accepted goOn n (start + first.length) second) :
    Accepted goOn n start (first ++ second) := by
  intro low entry high split tall
  rcases split_append split with ⟨mid, split', _⟩ | ⟨mid, rfl, split'⟩
  · exact accepted low entry mid split' tall
  · have goes := accepted' mid entry high split' tall
    rwa [Nat.add_assoc, ← List.length_append] at goes

theorem Accepted.of_low (low : ∀ entry ∈ mid, entry.height < n) : Accepted goOn n start mid := by
  intro before entry after split tall
  have short := low entry (by simp [split])
  omega

theorem Accepted.singleton {entry : Entry M S} (goes : goOn start entry.elem = true) :
    Accepted goOn n start [entry] := by
  intro low other high split _
  cases low with
  | nil =>
    obtain ⟨rfl, _⟩ := List.cons.inj split
    exact goes
  | cons first low => simp at split

theorem Blocked.low (blocked : Blocked goOn i start (mid ++ rest))
    (accepted : Accepted goOn n start mid) (below : n ≤ i) : ∀ entry ∈ mid, entry.height ≤ i := by
  cases target : next i mid with
  | none => exact next_eq_none_iff.mp target
  | some found =>
    obtain ⟨low, after, split, _, tall, short⟩ := next_eq_some target
    have goes := accepted low found.1 after split (by omega)
    have stops := blocked low found.1 (after ++ rest) (by simp [split]) tall short
    rw [goes] at stops
    cases stops

theorem Blocked.skip (blocked : Blocked goOn i start (mid ++ rest))
    (low : ∀ entry ∈ mid, entry.height ≤ i) :
    Blocked goOn i (start + mid.length) rest := by
  intro before entry after split tall short
  have stops := blocked (mid ++ before) entry after (by simp [split]) tall (by
    intro other mem
    rcases List.mem_append.mp mem with mem | mem
    · exact low other mem
    · exact short other mem)
  rwa [List.length_append, ← Nat.add_assoc] at stops

theorem traverse_spec (goOn : Int → Element M S → Bool) (chained : Chained sl entries) (fuel : Nat)
    (before : List (Entry M S)) (entry : Entry M S) (rest : List (Entry M S))
    (split : entries = before ++ entry :: rest) (tall : i < entry.height)
    (enough : rest.length < fuel) :
    ∃ mid rest' before' entry', rest = mid ++ rest' ∧
      before ++ entry :: mid = before' ++ [entry'] ∧ i < entry'.height ∧
      sl.traverse goOn i fuel entry.ptr before.length = some (entry'.ptr, (before'.length : Int)) ∧
      Accepted goOn (i + 1) (before.length + 1) mid ∧
      Blocked goOn i (before.length + 1 + mid.length) rest' := by
  induction fuel generalizing before entry rest with
  | zero => omega
  | succ fuel ih =>
    obtain ⟨level, level_eq, forward_eq, span_eq⟩ := chained.link split tall
    rw [traverse, level_eq]
    simp only [Option.bind_eq_bind, Option.bind_some]
    cases target : next i rest with
    | none =>
      rw [target] at forward_eq
      simp only [forward_eq, Option.map_none]
      refine ⟨[], rest, before, entry, rfl, rfl, tall, rfl, .of_low (by simp), ?_⟩
      intro low other high eq tall'
      have short := next_eq_none_iff.mp target other (by simp [eq])
      omega
    | some found =>
      obtain ⟨found, distance⟩ := found
      obtain ⟨low, after, cut, distance_eq, tall', short⟩ := next_eq_some target
      have elem_eq : sl.elemAt found.ptr = some found.elem :=
        chained.elem found (by simp [split, cut])
      have span := span_eq found distance target
      have rank_eq : (before.length : Int) + level.span =
          ((before ++ entry :: low).length : Nat) := by
        simp only [span, distance_eq, List.length_append, List.length_cons]
        push_cast
        ring
      have start_eq : (before ++ entry :: low).length = before.length + 1 + low.length := by
        omega
      rw [target] at forward_eq
      simp only [forward_eq, Option.map_some, elem_eq, Option.bind_some, rank_eq]
      cases goes : goOn ((before ++ entry :: low).length : Nat) found.elem with
      | false =>
        refine ⟨[], rest, before, entry, rfl, rfl, tall, rfl, .of_low (by simp), ?_⟩
        intro low' other high eq tall'' short'
        rw [eq, next_split short' tall''] at target
        obtain ⟨rfl, rfl⟩ := Prod.mk.inj (Option.some.inj target)
        have same : low'.length = low.length := Nat.succ.inj distance_eq
        rw [start_eq] at goes
        rw [List.length_nil, same, goes]
      | true =>
        obtain ⟨mid, rest', before', entry', split', last, top, eq, accepted, blocked⟩ :=
          ih (before ++ entry :: low) found after (by simp [split, cut]) tall'
            (by simp [cut] at enough; omega)
        refine ⟨low ++ found :: mid, rest', before', entry', by simp [cut, split'],
          by simpa using last, top, by simpa using eq, ?_, ?_⟩
        · rw [start_eq] at goes accepted
          have short' : ∀ other ∈ low, other.height < i + 1 := by
            intro other mem
            exact Nat.lt_succ_of_le (short other mem)
          have tail : Accepted goOn (i + 1) (before.length + 1 + low.length) ([found] ++ mid) :=
            (Accepted.singleton goes).append accepted
          exact (Accepted.of_low short').append tail
        · simpa [Nat.add_assoc, Nat.add_comm, Nat.add_left_comm] using blocked

theorem LastAbove.skip {passed : List (Entry M S)} {found : Nat × Int}
    (last : LastAbove i passed found) (low : ∀ entry ∈ mid, entry.height ≤ i) :
    LastAbove i (passed ++ mid) found := by
  obtain ⟨before, entry, after, rfl, tall, short, rfl⟩ := last
  refine ⟨before, entry, after ++ mid, by simp, tall, ?_, rfl⟩
  intro other mem
  rcases List.mem_append.mp mem with mem | mem
  · exact short other mem
  · exact low other mem

/-- Where the outer loop ends: `mid` has been passed, and every level has stopped at its
last entry before `rest`. -/
structure Stopped (goOn : Int → Element M S → Bool) (n : Nat) (passed mid rest : List (Entry M S))
    (update : List (Nat × Int)) : Prop where
  length : update.length = n
  last : ∀ i found, update[i]? = some found → LastAbove i (passed ++ mid) found
  blocked : ∀ i < n, Blocked goOn i (passed.length + mid.length) rest
  accepted : Accepted goOn n passed.length mid
  goes : ∀ low entry, mid = low ++ [entry] → goOn (passed.length + low.length : Nat) entry.elem = true

theorem descend_spec (goOn : Int → Element M S → Bool) (chained : Chained sl entries) (n : Nat)
    (before : List (Entry M S)) (entry : Entry M S) (rest : List (Entry M S))
    (split : entries = before ++ entry :: rest) (tall : n ≤ entry.height)
    (enough : rest.length < sl.nodes.length) :
    ∃ mid rest' update, rest = mid ++ rest' ∧
      sl.descend goOn n entry.ptr before.length = some update ∧
      Stopped goOn n (before ++ [entry]) mid rest' update := by
  induction n generalizing before entry rest with
  | zero =>
    refine ⟨[], rest, [], rfl, rfl, rfl, by simp, by simp, .of_low (by simp), ?_⟩
    intro low other eq
    simp at eq
  | succ n ih =>
    obtain ⟨mid, rest₁, before', entry', rfl, last, top, eq, accepted, blocked⟩ :=
      traverse_spec goOn chained sl.nodes.length before entry rest split tall enough
    have passed_eq : before ++ [entry] ++ mid = before' ++ [entry'] := by simpa using last
    obtain ⟨mid', rest', update, rfl, eq', stopped⟩ :=
      ih before' entry' rest₁ (by rw [split]; simpa using congrArg (· ++ rest₁) passed_eq)
        (Nat.le_of_lt top) (by simp at enough ⊢; omega)
    have length_eq : (before' ++ [entry']).length = before.length + 1 + mid.length := by
      rw [← passed_eq]
      simp only [List.length_append, List.length_singleton]
    have accepted' := stopped.accepted
    have goes' := stopped.goes
    rw [length_eq] at accepted' goes'
    have low := blocked.low accepted' (Nat.le_refl n)
    refine ⟨mid ++ mid', rest', update ++ [(entry'.ptr, (before'.length : Int))], by simp, ?_, ?_⟩
    · rw [descend, eq]
      simp only [Option.bind_eq_bind, Option.bind_some, eq']
    · refine ⟨by simp [stopped.length], ?_, ?_, ?_, ?_⟩
      · intro i found at_i
        rw [← List.append_assoc, passed_eq]
        by_cases below : i < update.length
        · rw [List.getElem?_append_left below] at at_i
          exact stopped.last i found at_i
        · rw [List.getElem?_append_right (Nat.le_of_not_lt below),
            List.getElem?_singleton] at at_i
          split at at_i
          · have top_level : i = n := by
              rw [← stopped.length]
              omega
            cases at_i
            subst top_level
            exact LastAbove.skip ⟨before', entry', [], rfl, top, by simp, rfl⟩ low
          · cases at_i
      · intro i below
        have where_eq : (before ++ [entry]).length + (mid ++ mid').length =
            before.length + 1 + mid.length + mid'.length := by
          simp only [List.length_append, List.length_singleton]
          omega
        rw [where_eq]
        by_cases top_level : i = n
        · subst top_level
          exact blocked.skip low
        · have blocked' := stopped.blocked i (by omega)
          rwa [length_eq] at blocked'
      · rw [List.length_append]
        exact accepted.append (.of_low fun other mem => Nat.lt_succ_of_le (low other mem))
      · intro before₂ other eq₂
        rw [List.length_append]
        rcases List.eq_nil_or_concat mid' with rfl | ⟨init, final, rfl⟩
        · rw [List.append_nil] at eq₂
          subst eq₂
          have same : entry' = other := by
            rw [← List.append_assoc] at passed_eq
            exact (List.cons.inj (List.append_inj' passed_eq rfl).2).1.symm
          exact accepted before₂ other [] rfl (same ▸ top)
        · rw [List.concat_eq_append] at eq₂ goes'
          rw [← List.append_assoc] at eq₂
          obtain ⟨rfl, final_eq⟩ := List.append_inj' eq₂ rfl
          obtain ⟨rfl, _⟩ := List.cons.inj final_eq
          have goes := goes' init final rfl
          rwa [Nat.add_assoc, ← List.length_append] at goes

end Search

end Godis.Skiplist
