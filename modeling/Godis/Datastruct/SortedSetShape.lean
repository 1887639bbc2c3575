import Godis.Datastruct.SortedSetInv

/-!
# The shape of the heap behind a sorted set

Read off the heap by following pointers, without reference to the entries: what the
nodes of each level are, where the spans and the backward pointers lead, and what the
dictionary holds.
-/

namespace Godis.SortedSet

open Skiplist

variable {M S : Type}

/-- Following level `i` from a pointer visits the given nodes and ends at nil. -/
inductive Follows (sl : Skiplist M S) (i : Nat) : Option Nat → List Nat → Prop where
  | nil : Follows sl i none []
  | cons {ptr : Nat} {level : Level} {rest : List Nat} :
      sl.levelAt ptr i = some level → Follows sl i level.forward rest →
      Follows sl i (some ptr) (ptr :: rest)

/-- `nodes` gives the nodes of each level, without the header, and `elems` the elements
of level 0. -/
structure Shape [LinearOrder M] [LinearOrder S] (set : SortedSet M S) (nodes : Nat → List Nat)
    (elems : List (Element M S)) : Prop where
  levels : ∀ i < maxLevel, ∃ level, set.skiplist.levelAt 0 i = some level ∧
    Follows set.skiplist i level.forward (nodes i)
  elements : (nodes 0).map set.skiplist.elemAt = elems.map some
  increasing : elems.Pairwise fun first second => first.less second = true
  distinct : (0 :: nodes 0).Nodup
  sublist : ∀ i, nodes (i + 1) =
    (nodes i).filter fun ptr => i + 1 < (set.skiplist.heightAt ptr).getD 0
  spans : ∀ i < maxLevel, ∀ ptr ∈ 0 :: nodes i, ∀ level next,
    set.skiplist.levelAt ptr i = some level → level.forward = some next →
      ((0 :: nodes 0).idxOf ptr : Int) + level.span = (0 :: nodes 0).idxOf next
  backward : ∀ k ptr, (nodes 0)[k]? = some ptr →
    set.skiplist.backwardAt ptr = some (if k = 0 then none else (nodes 0)[k - 1]?)
  tail : set.skiplist.tail = (nodes 0).getLast?
  length : set.skiplist.length = (nodes 0).length
  upper : ∀ i, set.skiplist.level ≤ i → nodes i = []
  dict : ∀ member element, set.dict.lookup member = some element ↔
    element.member = member ∧ element ∈ elems
  members : (elems.map (·.member)).Nodup

variable {header : Element M S} {sl : Skiplist M S} {entries : List (Entry M S)}

def above (entries : List (Entry M S)) (i : Nat) : List Nat :=
  (entries.filter fun entry => i < entry.height).map (·.ptr)

variable {i : Nat} {after : List (Entry M S)} {entry : Entry M S}

theorem above_eq_nil (none_above : next i entries = none) : above entries i = [] := by
  have low := next_eq_none_iff.mp none_above
  unfold above
  rw [List.map_eq_nil_iff, List.filter_eq_nil_iff]
  intro entry mem
  simpa using low entry mem

theorem above_split {low : List (Entry M S)} (short : ∀ other ∈ low, other.height ≤ i)
    (tall : i < entry.height) :
    above (low ++ entry :: after) i = entry.ptr :: above after i := by
  have none_low : low.filter (fun other => i < other.height) = [] := by
    rw [List.filter_eq_nil_iff]
    intro other mem
    simpa using short other mem
  unfold above
  rw [List.filter_append, none_low, List.nil_append, List.filter_cons_of_pos (by simpa using tall),
    List.map_cons]

theorem follows_above (chained : Chained sl entries) {n : Nat} :
    ∀ (before : List (Entry M S)) (entry : Entry M S) (after : List (Entry M S)),
      after.length ≤ n → entries = before ++ entry :: after → i < entry.height →
      ∃ level, sl.levelAt entry.ptr i = some level ∧ Follows sl i level.forward (above after i) := by
  induction n with
  | zero =>
    intro before entry after short split tall
    obtain ⟨level, level_eq, forward_eq, _⟩ := chained.link split tall
    obtain rfl := List.length_eq_zero_iff.mp (Nat.le_zero.mp short)
    refine ⟨level, level_eq, ?_⟩
    rw [forward_eq]
    exact .nil
  | succ n ih =>
    intro before entry after short split tall
    obtain ⟨level, level_eq, forward_eq, _⟩ := chained.link split tall
    refine ⟨level, level_eq, ?_⟩
    rw [forward_eq]
    cases target : next i after with
    | none =>
      rw [above_eq_nil target]
      exact .nil
    | some found =>
      obtain ⟨low, after', cut, _, tall', low_short⟩ := next_eq_some target
      rw [cut, above_split low_short tall']
      obtain ⟨_, level_eq', follows⟩ := ih (before ++ entry :: low) found.1 after'
        (by simp [cut] at short; omega) (by simp [split, cut]) tall'
      exact .cons level_eq' follows

theorem idxOf_split {before : List (Entry M S)}
    (distinct : ((before ++ entry :: after).map (·.ptr)).Nodup) :
    ((before ++ entry :: after).map (·.ptr)).idxOf entry.ptr = before.length := by
  rw [List.map_append, List.map_cons] at distinct ⊢
  have absent : entry.ptr ∉ before.map (·.ptr) := by
    intro mem
    exact (List.nodup_append.mp distinct).2.2 entry.ptr mem entry.ptr (by simp) rfl
  rw [List.idxOf_append_of_notMem absent, List.idxOf_cons_self, List.length_map, Nat.add_zero]

section Shape

variable (repr : Repr header sl entries)

include repr

theorem above_zero : above entries 0 = entries.map (·.ptr) := by
  unfold above
  rw [List.filter_eq_self.mpr]
  intro entry mem
  simpa using (repr.heights entry mem).1

theorem above_succ (i : Nat) :
    above entries (i + 1) =
      (above entries i).filter fun ptr => i + 1 < (sl.heightAt ptr).getD 0 := by
  unfold above
  rw [List.filter_map, List.filter_filter]
  congr 1
  refine List.filter_congr ?_
  intro entry mem
  have height_eq := repr.chained.height entry (List.mem_cons_of_mem _ mem)
  simp only [Function.comp_apply, height_eq, Option.getD_some]
  by_cases tall : i + 1 < entry.height
  · simp [tall, Nat.lt_of_succ_lt tall]
  · simp [tall]

variable {ptr : Nat}

theorem spans_of_repr {i : Nat} {next : Nat} {level : Level} (mem : ptr ∈ 0 :: above entries i)
    (inside : i < maxLevel) (level_eq : sl.levelAt ptr i = some level)
    (forward_eq : level.forward = some next) :
    ((0 :: above entries 0).idxOf ptr : Int) + level.span = (0 :: above entries 0).idxOf next := by
  have path_eq : 0 :: above entries 0 = (top header :: entries).map (·.ptr) := by
    rw [above_zero repr]
    rfl
  obtain ⟨entry, entry_mem, tall, rfl⟩ : ∃ entry ∈ top header :: entries, i < entry.height ∧
      entry.ptr = ptr := by
    rcases List.mem_cons.mp mem with rfl | mem
    · exact ⟨top header, by simp, inside, rfl⟩
    · obtain ⟨entry, mem', rfl⟩ := List.mem_map.mp mem
      rw [List.mem_filter] at mem'
      exact ⟨entry, by simp [mem'.1], by simpa using mem'.2, rfl⟩
  obtain ⟨before, _, split⟩ := List.append_of_mem entry_mem
  obtain ⟨_, level_eq', forward_eq', span_eq⟩ := repr.chained.link split tall
  obtain rfl := Option.some.inj (level_eq.symm.trans level_eq')
  rw [forward_eq] at forward_eq'
  obtain ⟨⟨target, distance⟩, next_eq, rfl⟩ := Option.map_eq_some_iff.mp forward_eq'.symm
  obtain ⟨low, after', cut, distance_eq, _⟩ := next_eq_some next_eq
  have distinct := repr.distinct
  have split' : top header :: entries = (before ++ entry :: low) ++ target :: after' := by
    simp [split, cut]
  rw [path_eq, span_eq target distance next_eq]
  have first := idxOf_split (split ▸ distinct)
  have second := idxOf_split (split' ▸ distinct)
  rw [← split] at first
  rw [← split'] at second
  rw [first, second, distance_eq, List.length_append, List.length_cons]
  push_cast
  ring

theorem backward_of_repr {k : Nat} (at_k : (above entries 0)[k]? = some ptr) :
    sl.backwardAt ptr = some (if k = 0 then none else (above entries 0)[k - 1]?) := by
  rw [above_zero repr, List.getElem?_map] at at_k
  obtain ⟨_, entry_eq, rfl⟩ := Option.map_eq_some_iff.mp at_k
  obtain ⟨below, rfl⟩ := List.getElem?_eq_some_iff.mp entry_eq
  have split : entries = entries.take k ++ entries[k] :: entries.drop (k + 1) := by
    simp
  rw [repr.backward _ _ _ split, above_zero repr]
  cases k with
  | zero => simp
  | succ k =>
    have below' : k < entries.length := Nat.lt_of_succ_lt below
    simp [List.getLast?_take, List.getElem?_eq_getElem below']

end Shape

theorem Holds.shape [LinearOrder M] [LinearOrder S] [Inhabited M] [Inhabited S]
    {set : SortedSet M S} (holds : Holds set entries) :
    Shape set (above entries) (entries.map (·.elem)) := by
  have repr := holds.repr
  refine ⟨?_, ?_, ?_, ?_, above_succ repr, ?_, ?_, ?_, ?_, ?_, ?_, ?_⟩
  · intro i inside
    exact follows_above repr.chained [] (top ⟨default, default⟩) entries
      (Nat.le_refl _) rfl inside
  · rw [above_zero repr, List.map_map, List.map_map]
    refine List.map_congr_left fun entry mem => ?_
    exact repr.chained.elem entry (List.mem_cons_of_mem _ mem)
  · exact List.pairwise_map.mpr holds.increasing
  · rw [above_zero repr]
    exact repr.distinct
  · intro i inside ptr mem level next level_eq forward_eq
    exact spans_of_repr repr mem inside level_eq forward_eq
  · intro k ptr at_k
    exact backward_of_repr repr at_k
  · rw [above_zero repr, List.getLast?_map]
    exact repr.tail
  · rw [above_zero repr, List.length_map]
    exact repr.length
  · intro i bound
    refine above_eq_nil (next_eq_none_iff.mpr ?_)
    intro entry mem
    exact (repr.heights entry mem).2.trans bound
  · intro member element
    rw [holds.exact member element, List.mem_map]
  · rw [List.map_map]
    refine List.pairwise_map.mpr (holds.increasing.imp_of_mem ?_)
    intro first second mem mem' below same
    rw [holds.exact.elem_eq mem mem' same] at below
    exact Element.less_irrefl second.elem below

/-- Every sequence of operations from an empty set keeps the skip list in shape. -/
theorem shape_of_every_run [LinearOrder M] [LinearOrder S] [Inhabited M] [Inhabited S]
    (ops : List (Op M S)) :
    ∃ set nodes elems, (make : SortedSet M S).run ops = some set ∧ Shape set nodes elems := by
  obtain ⟨set, _, run_eq, holds⟩ := run_holds ops make_holds
  exact ⟨set, _, _, run_eq, holds.shape⟩

end Godis.SortedSet
