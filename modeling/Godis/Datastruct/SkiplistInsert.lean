import Godis.Datastruct.SkiplistRepr

/-!
# The search and insertion

The search cuts the represented list in two; `insert` puts the new entry at the cut.
-/

namespace Godis.Skiplist

variable {M S : Type} {header : Element M S} {sl : Skiplist M S}

/-! ## The search -/

/-- `update` holds, for each of the `levels`, the last node of the header and `passed`
that is higher. -/
structure Predecessors (header : Element M S) (levels : Nat) (passed : List (Entry M S))
    (update : List (Nat × Int)) : Prop where
  length : update.length = levels
  last : ∀ i found, update[i]? = some found → LastAbove i (top header :: passed) found

variable {entries passed rest : List (Entry M S)} {levels i height : Nat}
  {update : List (Nat × Int)} {entry : Entry M S}

theorem search_spec (goOn : Int → Element M S → Bool) (repr : Repr header sl entries) :
    ∃ passed rest update, entries = passed ++ rest ∧ sl.search goOn = some update ∧
      Predecessors header sl.level passed update ∧
      (∀ low entry, passed = low ++ [entry] → goOn (1 + low.length : Nat) entry.elem = true) ∧
      ∀ entry after, rest = entry :: after → goOn (1 + passed.length : Nat) entry.elem = false := by
  obtain ⟨passed, rest, update, split, run, stopped⟩ :=
    descend_spec goOn repr.chained sl.level [] (top header) entries rfl repr.level.2
      repr.entries_lt
  refine ⟨passed, rest, update, split, run, ⟨stopped.length, ?_⟩, ?_, ?_⟩
  · intro i found at_i
    simpa using stopped.last i found at_i
  · intro low entry eq
    simpa using stopped.goes low entry eq
  · intro entry after eq
    have tall := (repr.heights entry (by simp [split, eq])).1
    have stops := stopped.blocked 0 repr.level.1 [] entry after (by simpa using eq) tall (by simp)
    simpa using stops

theorem Predecessors.first (predecessors : Predecessors header levels passed update)
    (some_level : 0 < levels) (heights : ∀ entry ∈ passed, 0 < entry.height) :
    update.head? = some ((passed.getLast?.map (·.ptr)).getD 0, (passed.length : Int)) := by
  obtain ⟨found, _, rfl⟩ := List.exists_cons_of_length_pos (predecessors.length ▸ some_level)
  obtain ⟨before, _, after, split, _, short, rfl⟩ := predecessors.last 0 found rfl
  have none_after : after = [] := by
    cases after with
    | nil => rfl
    | cons other after =>
      have low := short other (by simp)
      have mem : other ∈ passed := by
        cases before with
        | nil | cons head before => simp_all
      have high := heights other mem
      omega
  subst none_after
  rcases List.eq_nil_or_concat passed with rfl | ⟨_, _, rfl⟩
  · cases before with
    | nil =>
      obtain ⟨rfl, _⟩ := List.cons.inj split
      rfl
    | cons head before => simp at split
  · rw [List.concat_eq_append, ← List.cons_append] at split
    obtain ⟨rfl, last_eq⟩ := List.append_inj' split rfl
    obtain ⟨rfl, _⟩ := List.cons.inj last_eq
    simp

theorem Predecessors.present {found : Nat × Int}
    (predecessors : Predecessors header levels passed update)
    (chained : Chained sl (top header :: (passed ++ rest))) (at_i : update[i]? = some found) :
    (sl.levelAt found.1 i).isSome := by
  have chain : LevelChain (sl.levelAt · i) i (top header :: passed ++ rest) := chained.links i
  obtain ⟨level, _, _, level_eq, _⟩ := chain.last_link (predecessors.last i found at_i)
  exact Option.isSome_iff_exists.mpr ⟨level, level_eq⟩

/-! ## Allocation -/

def alloc (sl : Skiplist M S) (height : Nat) (elem : Element M S) : Skiplist M S :=
  { sl with nodes := sl.nodes ++ [makeNode height elem] }

section Alloc

variable {height ptr : Nat} {elem : Element M S}

theorem nodes_alloc_other (other : ptr ≠ sl.nodes.length) :
    (sl.alloc height elem).nodes[ptr]? = sl.nodes[ptr]? := by
  unfold alloc
  by_cases below : ptr < sl.nodes.length
  · exact List.getElem?_append_left below
  · have above : sl.nodes.length + 1 ≤ ptr := by
      omega
    rw [List.getElem?_eq_none (by simpa using above), List.getElem?_eq_none (by omega)]

theorem levelAt_alloc_other (other : ptr ≠ sl.nodes.length) :
    (sl.alloc height elem).levelAt ptr i = sl.levelAt ptr i := by
  rw [levelAt, nodes_alloc_other other, levelAt]

theorem nodes_alloc_self :
    (sl.alloc height elem).nodes[sl.nodes.length]? = some (makeNode height elem) := by
  simp [alloc]

theorem levelAt_alloc_self {i : Nat} (below : i < height) :
    (sl.alloc height elem).levelAt sl.nodes.length i = some ⟨none, 0⟩ := by
  rw [levelAt, nodes_alloc_self]
  simp [makeNode, below]

variable {entries : List (Entry M S)}

theorem Chained.allocated {entry : Entry M S} (chained : Chained sl entries) (mem : entry ∈ entries) :
    entry.ptr < sl.nodes.length := by
  obtain ⟨_, node_eq, _⟩ := Option.map_eq_some_iff.mp (chained.height entry mem)
  exact (List.getElem?_eq_some_iff.mp node_eq).1

theorem Chained.alloc (chained : Chained sl entries) :
    Chained (sl.alloc height elem) entries := by
  have other {entry : Entry M S} (mem : entry ∈ entries) : entry.ptr ≠ sl.nodes.length :=
    Nat.ne_of_lt (chained.allocated mem)
  refine ⟨?_, ?_, ?_⟩
  · intro entry mem
    rw [heightAt, nodes_alloc_other (other mem)]
    exact chained.height entry mem
  · intro entry mem
    rw [elemAt, nodes_alloc_other (other mem)]
    exact chained.elem entry mem
  · intro i
    exact (chained.links i).congr fun entry mem => levelAt_alloc_other (other mem)

end Alloc

/-! ## The links of a new node -/

theorem LevelChain.above {links : Nat → Option Level} {entries' : List (Entry M S)}
    (chain : LevelChain links i (entry :: entries)) (low : ∀ other ∈ entries, other.height ≤ i)
    (low' : ∀ other ∈ entries', other.height ≤ i) :
    LevelChain links i (entry :: entries') := by
  refine .cons (fun tall => ?_) ?_
  · have linked := chain [] entry entries rfl tall
    rwa [next_eq_none_iff.mpr low, ← next_eq_none_iff.mpr low'] at linked
  · intro before other after split tall
    have := low' other (by simp [split])
    omega

theorem getElem?_take_eq_some {α : Type} {items : List α} {n k : Nat} {item : α}
    (at_k : (items.take n)[k]? = some item) : k < n ∧ items[k]? = some item := by
  rw [List.getElem?_take] at at_k
  by_cases below : k < n
  · rw [if_pos below] at at_k
    exact ⟨below, at_k⟩
  · rw [if_neg below] at at_k
    cases at_k

theorem distinct_middle {before after : List (Entry M S)}
    (distinct : ((before ++ after).map (·.ptr)).Nodup)
    (fresh : ∀ other ∈ before ++ after, other.ptr ≠ entry.ptr) :
    ((before ++ entry :: after).map (·.ptr)).Nodup := by
  rw [(List.perm_middle.map _).nodup_iff, List.map_cons, List.nodup_cons]
  refine ⟨fun mem => ?_, distinct⟩
  obtain ⟨other, mem, same⟩ := List.mem_map.mp mem
  exact fresh other mem same

theorem link_levels (elem : Element M S) (repr : Repr header sl (passed ++ rest))
    (predecessors : Predecessors header sl.level passed update) (bound : height ≤ sl.level) :
    ∃ sl₁ sl₂, linkLevels sl.nodes.length passed.length 0 (update.take height)
        (sl.alloc height elem) = some sl₁ ∧
      widenLevels height (update.drop height) sl₁ = some sl₂ ∧
      SameNodes (sl.alloc height elem) sl₂ ∧
      ∀ i, LevelChain (sl₂.levelAt · i) i
        (top header :: (passed ++ ⟨sl.nodes.length, height, elem⟩ :: rest)) := by
  set entry : Entry M S := ⟨sl.nodes.length, height, elem⟩ with entry_eq
  have chained : Chained (sl.alloc height elem) (top header :: (passed ++ rest)) :=
    repr.chained.alloc
  have fresh : ∀ other ∈ top header :: (passed ++ rest), other.ptr ≠ sl.nodes.length :=
    fun other mem => Nat.ne_of_lt (repr.chained.allocated mem)
  have found_fresh {i : Nat} {found : Nat × Int} (at_i : update[i]? = some found) :
      found.1 ≠ sl.nodes.length := by
    obtain ⟨other, mem, ptr_eq⟩ := List.mem_map.mp (predecessors.last i found at_i).mem
    rw [← ptr_eq]
    refine fresh other ?_
    exact List.mem_append_left rest mem
  obtain ⟨sl₁, run₁, pass₁⟩ := linkLevels_spec
    (update.take height) 0 (sl.alloc height elem) (by
      intro k item at_k
      obtain ⟨below, at_k⟩ := getElem?_take_eq_some at_k
      rw [Nat.zero_add]
      exact ⟨found_fresh at_k, predecessors.present chained at_k, by
        rw [levelAt_alloc_self below]; rfl⟩)
  have levels₁ {i : Nat} (above : height ≤ i) :
      (sl₁.levelAt · i) = ((sl.alloc height elem).levelAt · i) := by
    refine funext fun ptr => pass₁.outside ptr i (Or.inr ?_)
    rw [Nat.zero_add]
    exact (List.length_take_le height update).trans above
  obtain ⟨sl₂, run₂, pass₂⟩ := widenLevels_spec (update.drop height) height sl₁ (by
    intro k item at_k
    rw [List.getElem?_drop] at at_k
    rw [congrFun (levels₁ (Nat.le_add_right height k)) item.1]
    exact predecessors.present chained at_k)
  refine ⟨sl₁, sl₂, run₁, run₂, pass₁.nodes.trans pass₂.nodes, ?_⟩
  intro i
  have chain : LevelChain ((sl.alloc height elem).levelAt · i) i (top header :: passed ++ rest) :=
    chained.links i
  have distinct : ((top header :: passed ++ entry :: rest).map (·.ptr)).Nodup :=
    distinct_middle repr.distinct fresh
  by_cases inside : i < sl.level
  · obtain ⟨found, at_i⟩ : ∃ found, update[i]? = some found :=
      ⟨_, List.getElem?_eq_getElem (predecessors.length ▸ inside)⟩
    have last := predecessors.last i found at_i
    by_cases tall : i < height
    · have same : (sl₂.levelAt · i) = (sl₁.levelAt · i) :=
        funext fun ptr => pass₂.outside ptr i (Or.inl tall)
      have inserted := pass₁.inside i found (by rw [List.getElem?_take, if_pos tall, at_i])
      rw [same]
      refine chain.insert distinct last tall ?_
      simpa [entry_eq] using inserted
    · have above := Nat.le_of_not_lt tall
      have widened := pass₂.inside (i - height) found (by
        rw [List.getElem?_drop, Nat.add_sub_cancel' above, at_i])
      rw [Nat.add_sub_cancel' above, levels₁ above] at widened
      exact chain.widen distinct last above widened
  · have above : sl.level ≤ i := Nat.le_of_not_lt inside
    have same : (sl₂.levelAt · i) = ((sl.alloc height elem).levelAt · i) := by
      rw [← levels₁ (bound.trans above)]
      refine funext fun ptr => pass₂.outside ptr i (Or.inr ?_)
      rw [List.length_drop, predecessors.length]
      omega
    have low : ∀ other ∈ passed ++ rest, other.height ≤ i :=
      fun other mem => (repr.heights other mem).2.trans above
    rw [same]
    refine (chained.links i).above low ?_
    intro other mem
    rcases List.mem_cons.mp (List.perm_middle.mem_iff.mp mem) with rfl | mem
    · exact bound.trans above
    · exact low other mem

/-! ## The whole insertion -/

theorem setPredecessor_spec (sl : Skiplist M S) (rest : List (Entry M S))
    (predecessor : Option Nat)
    (heads : ∀ entry after, rest = entry :: after → (sl.backwardAt entry.ptr).isSome) :
    let sl' := sl.setPredecessor (rest.head?.map (·.ptr)) predecessor
    (∀ entry after, rest = entry :: after → sl'.backwardAt entry.ptr = some predecessor) ∧
      (∀ ptr, (∀ entry after, rest = entry :: after → ptr ≠ entry.ptr) →
        sl'.backwardAt ptr = sl.backwardAt ptr) ∧
      sl'.tail = (if rest = [] then predecessor else sl.tail) := by
  cases rest with
  | nil => simp [setPredecessor, backwardAt]
  | cons entry after =>
    refine ⟨?_, ?_, rfl⟩
    · intro other after' eq
      obtain ⟨rfl, rfl⟩ := List.cons.inj eq
      obtain ⟨_, old_eq⟩ := Option.isSome_iff_exists.mp (heads entry after rfl)
      exact backwardAt_setBackward_self old_eq
    · intro ptr other
      exact backwardAt_setBackward_other (other entry after rfl)

theorem Chained.congr {sl' : Skiplist M S} (chained : Chained sl entries) (same : SameLinks sl sl') :
    Chained sl' entries := by
  refine ⟨?_, ?_, ?_⟩
  · intro entry mem
    rw [same.height]
    exact chained.height entry mem
  · intro entry mem
    rw [same.elem]
    exact chained.elem entry mem
  · intro i
    exact (chained.links i).congr fun entry _ => same.levels entry.ptr i

theorem next_zero (heights : ∀ entry ∈ entries, 0 < entry.height) :
    (next 0 entries).map (·.1.ptr) = entries.head?.map (·.ptr) := by
  cases entries with
  | nil => rfl
  | cons entry rest => simp [next, heights entry (by simp)]

theorem Repr.ptr_ne_zero (repr : Repr header sl entries) (mem : entry ∈ entries) :
    entry.ptr ≠ 0 := by
  have apart := (List.nodup_cons.mp repr.distinct).1
  intro zero
  exact apart (List.mem_map.mpr ⟨entry, mem, zero⟩)

theorem Repr.predecessor (repr : Repr header sl (passed ++ rest)) :
    (if (passed.getLast?.map (·.ptr)).getD 0 = 0 then none
      else some ((passed.getLast?.map (·.ptr)).getD 0)) = passed.getLast?.map (·.ptr) := by
  cases last : passed.getLast? with
  | none => rfl
  | some entry =>
    have mem := List.mem_append_left rest (List.mem_of_getLast? last)
    simp [repr.ptr_ne_zero mem]

theorem Chained.link_levels {sl₂ : Skiplist M S} {elem : Element M S}
    (chained : Chained sl (top header :: (passed ++ rest)))
    (same : SameNodes (sl.alloc height elem) sl₂) (chains : ∀ i, LevelChain (sl₂.levelAt · i) i
      (top header :: (passed ++ ⟨sl.nodes.length, height, elem⟩ :: rest))) :
    Chained sl₂ (top header :: (passed ++ ⟨sl.nodes.length, height, elem⟩ :: rest)) := by
  have cases_of_mem {entry : Entry M S}
      (mem : entry ∈ top header :: (passed ++ ⟨sl.nodes.length, height, elem⟩ :: rest)) :
      entry = ⟨sl.nodes.length, height, elem⟩ ∨ entry ∈ top header :: (passed ++ rest) := by
    simp only [List.mem_cons, List.mem_append] at mem ⊢
    tauto
  refine ⟨?_, ?_, chains⟩
  · intro entry mem
    rw [same.height]
    rcases cases_of_mem mem with rfl | mem
    · rw [heightAt, nodes_alloc_self]
      simp [makeNode]
    · exact chained.alloc.height entry mem
  · intro entry mem
    rw [same.elem]
    rcases cases_of_mem mem with rfl | mem
    · rw [elemAt, nodes_alloc_self]
      rfl
    · exact chained.alloc.elem entry mem

theorem link_spec (elem : Element M S) (repr : Repr header sl (passed ++ rest))
    (predecessors : Predecessors header sl.level passed update) (positive : 0 < height)
    (bound : height ≤ sl.level) :
    ∃ sl', sl.link update height elem = some sl' ∧
      Repr header sl' (passed ++ ⟨sl.nodes.length, height, elem⟩ :: rest) := by
  obtain ⟨_, sl₂, run₁, run₂, same, chains⟩ := link_levels elem repr predecessors bound
  have heights : ∀ entry ∈ passed ++ rest, 0 < entry.height :=
    fun entry mem => (repr.heights entry mem).1
  have head := predecessors.first repr.level.1 fun entry mem =>
    heights entry (List.mem_append_left rest mem)
  have allocated : ∀ entry ∈ passed ++ rest, entry.ptr ≠ sl.nodes.length :=
    fun entry mem => Nat.ne_of_lt (repr.chained.allocated (List.mem_cons_of_mem _ mem))
  set entry : Entry M S := ⟨sl.nodes.length, height, elem⟩ with entry_eq
  have links₃ : SameLinks sl₂ (sl₂.setBackward entry.ptr (passed.getLast?.map (·.ptr))) := .setBackward ..
  set sl₃ := sl₂.setBackward entry.ptr (passed.getLast?.map (·.ptr)) with sl₃_eq
  have chained₃ := (repr.chained.link_levels same chains).congr links₃
  have links₄ : SameLinks sl₃ (sl₃.setPredecessor (rest.head?.map (·.ptr)) (some entry.ptr)) :=
    .setPredecessor ..
  set sl₄ := sl₃.setPredecessor (rest.head?.map (·.ptr)) (some entry.ptr) with sl₄_eq
  have split : top header :: (passed ++ entry :: rest) = (top header :: passed) ++ entry :: rest := rfl
  obtain ⟨_, own_eq, forward_eq, _⟩ := chained₃.link split positive
  rw [next_zero fun other mem => heights other (List.mem_append_right passed mem)] at forward_eq
  have level_eq : sl₄.level = sl.level := links₄.level.trans (links₃.level.trans same.level)
  have length_eq : sl₄.length = sl.length := links₄.length.trans (links₃.length.trans same.length)
  have old_backward : ∀ other ∈ passed ++ rest, sl₃.backwardAt other.ptr = sl.backwardAt other.ptr := by
    intro other mem
    rw [backwardAt_setBackward_other (allocated other mem), same.backward, backwardAt,
      nodes_alloc_other (allocated other mem), backwardAt]
  obtain ⟨successor, kept, tail_eq⟩ :=
    setPredecessor_spec sl₃ rest (some entry.ptr) (by
      intro other after eq
      rw [old_backward other (by simp [eq]), repr.backward passed other after (by rw [eq])]
      rfl)
  refine ⟨{ sl₄ with length := sl₄.length + 1 }, ?_, ?_⟩
  · simp only [link, head, Option.bind_eq_bind, Option.bind_some]
    change (linkLevels _ _ 0 _ (sl.alloc height elem)).bind _ = _
    rw [run₁, Option.bind_some, run₂, Option.bind_some, repr.predecessor]
    rw [own_eq, Option.bind_some, forward_eq]
  · have chained₄ := chained₃.congr links₄
    have fresh : ∀ other ∈ top header :: passed ++ rest, other.ptr ≠ entry.ptr :=
      fun other mem => Nat.ne_of_lt (repr.chained.allocated mem)
    refine ⟨⟨chained₄.height, chained₄.elem, chained₄.links⟩,
      distinct_middle repr.distinct fresh, ?_, ?_, ?_, ?_, ?_⟩
    · refine Mirrored.insert repr.backward ?_ successor ?_
      · change sl₄.backwardAt entry.ptr = _
        rw [kept entry.ptr fun next after eq same => allocated next (by simp [eq]) same.symm]
        have unset : sl₂.backwardAt entry.ptr = some none := by
          rw [same.backward, backwardAt, nodes_alloc_self]
          rfl
        exact backwardAt_setBackward_self unset
      · intro other mem
        change sl₄.backwardAt other.ptr = _
        rw [kept other.ptr ?_, old_backward other ?_]
        · rcases List.mem_append.mp mem with mem | mem
          · exact List.mem_append_left rest mem
          · exact List.mem_append_right passed (List.mem_of_mem_tail mem)
        · intro next after eq
          subst eq
          exact entry_apart (List.nodup_cons.mp repr.distinct).2 mem
    · rw [tail_eq]
      cases rest with
      | nil => simp
      | cons next after =>
        rw [getLast?_append_cons_ne_nil (by simp)]
        exact same.tail.trans repr.tail
    · rw [length_eq, repr.length]
      simp only [List.length_append, List.length_cons]
      push_cast
      ring
    · rw [level_eq]
      intro other mem
      rcases List.mem_cons.mp (List.perm_middle.mem_iff.mp mem) with rfl | mem
      · exact ⟨positive, bound⟩
      · exact repr.heights other mem
    · rw [level_eq]
      exact repr.level

theorem extendLevels_repr {level : Nat} (repr : Repr header sl entries) (bound : level ≤ maxLevel) :
    Repr header { sl.extendLevels (level - sl.level) sl.level with level := max sl.level level }
      entries := by
  obtain ⟨same, forward, levels⟩ := extendLevels_spec sl sl.level
  refine ⟨⟨?_, ?_, ?_⟩, repr.distinct, ?_, same.tail.trans repr.tail,
    same.length.trans repr.length, ?_, ?_⟩
  · intro entry mem
    exact (same.height entry.ptr).trans (repr.chained.height entry mem)
  · intro entry mem
    exact (same.elem entry.ptr).trans (repr.chained.elem entry mem)
  · intro i
    by_cases below : i < sl.level
    · exact (repr.chained.links i).congr fun entry _ => levels entry.ptr i (Or.inr below)
    · have low : ∀ entry ∈ entries, entry.height ≤ i :=
        fun entry mem => (repr.heights entry mem).2.trans (Nat.le_of_not_lt below)
      have no_next : next i entries = none := next_eq_none_iff.mpr low
      refine .cons (fun tall => ?_) ?_
      · have split : top header :: entries = [] ++ top header :: entries := rfl
        obtain ⟨_, old_eq, forward_eq, _⟩ := repr.chained.link split tall
        have forward' := forward (top header).ptr i
        rw [old_eq] at forward'
        obtain ⟨new, new_eq, forward_new⟩ := Option.map_eq_some_iff.mp forward'.symm
        refine ⟨new, new_eq, forward_new.trans forward_eq, ?_⟩
        intro target distance target_eq
        rw [no_next] at target_eq
        cases target_eq
      · intro before entry after split tall
        have := low entry (by simp [split])
        omega
  · intro before entry after split
    exact (same.backward entry.ptr).trans (repr.backward before entry after split)
  · intro entry mem
    exact ⟨(repr.heights entry mem).1, (repr.heights entry mem).2.trans (Nat.le_max_left ..)⟩
  · exact ⟨Nat.lt_of_lt_of_le repr.level.1 (Nat.le_max_left ..), Nat.max_le.mpr ⟨repr.level.2, bound⟩⟩

theorem Predecessors.extend (predecessors : Predecessors header levels passed update)
    (heights : ∀ entry ∈ passed, entry.height ≤ levels) (bound : height ≤ maxLevel) :
    Predecessors header (max levels height) passed
      (update ++ List.replicate (height - levels) (0, 0)) := by
  refine ⟨?_, ?_⟩
  · rw [List.length_append, List.length_replicate, predecessors.length]
    omega
  · intro i found at_i
    by_cases below : i < update.length
    · rw [List.getElem?_append_left below] at at_i
      exact predecessors.last i found at_i
    · rw [List.getElem?_append_right (Nat.le_of_not_lt below), List.getElem?_replicate] at at_i
      rw [predecessors.length] at at_i below
      split at at_i
      · cases at_i
        have tall : i < (top header).height := by
          show i < maxLevel
          omega
        exact ⟨[], top header, passed, rfl, tall,
          fun entry mem => (heights entry mem).trans (Nat.le_of_not_lt below), rfl⟩
      · cases at_i

theorem insert_spec [LinearOrder M] [LinearOrder S] (member : M) (score : S)
    (repr : Repr header sl entries) (positive : 0 < height) (bound : height ≤ maxLevel) :
    ∃ sl' passed rest ptr, entries = passed ++ rest ∧ sl.insert member score height = some sl' ∧
      Repr header sl' (passed ++ ⟨ptr, height, ⟨member, score⟩⟩ :: rest) ∧
      (∀ low entry, passed = low ++ [entry] → entry.elem.less ⟨member, score⟩ = true) ∧
      ∀ entry after, rest = entry :: after → entry.elem.less ⟨member, score⟩ = false := by
  obtain ⟨passed, rest, _, rfl, run, predecessors, goes, stops⟩ :=
    search_spec (fun _ next => next.less ⟨member, score⟩) repr
  have heights : ∀ entry ∈ passed, entry.height ≤ sl.level :=
    fun entry mem => (repr.heights entry (List.mem_append_left rest mem)).2
  obtain ⟨sl', run', repr'⟩ := link_spec ⟨member, score⟩ (extendLevels_repr repr bound)
    (predecessors.extend heights bound) positive (Nat.le_max_right ..)
  refine ⟨sl', passed, rest, _, rfl, ?_, repr', goes, stops⟩
  simp only [insert, run, Option.bind_eq_bind, Option.bind_some]
  exact run'

end Godis.Skiplist
