import Godis.Datastruct.SkiplistInsert

/-!
# Removal

`removeNode` takes the entry behind the position found out of the represented list.  The
predecessors stay those of the next entry, which is what the range removals rely on.
-/

namespace Godis.Skiplist

variable {M S : Type} {header : Element M S} {sl : Skiplist M S}

variable {entry : Entry M S} {levels : Nat} {passed rest entries : List (Entry M S)}
  {update : List (Nat × Int)}

theorem unlink_levels (repr : Repr header sl (passed ++ entry :: rest))
    (predecessors : Predecessors header levels passed update) (enough : sl.level ≤ levels) :
    ∃ sl', unlinkLevels entry.ptr 0 (update.take sl.level) sl = some sl' ∧ SameNodes sl sl' ∧
      (∀ i, sl'.levelAt entry.ptr i = sl.levelAt entry.ptr i) ∧
      ∀ i, LevelChain (sl'.levelAt · i) i (top header :: (passed ++ rest)) := by
  have chains (i : Nat) : LevelChain (sl.levelAt · i) i (top header :: passed ++ entry :: rest) :=
    repr.chained.links i
  have distinct : ((top header :: passed ++ entry :: rest).map (·.ptr)).Nodup := repr.distinct
  obtain ⟨sl', run, pass⟩ := unlinkLevels_spec (update.take sl.level) 0 sl (by
    intro k item at_k
    obtain ⟨_, at_k⟩ := getElem?_take_eq_some at_k
    rw [Nat.zero_add]
    obtain ⟨level, _, _, level_eq, forward_eq, _⟩ :=
      (chains k).last_link (predecessors.last k item at_k)
    refine ⟨level, level_eq, ?_⟩
    intro points
    have tall : k < entry.height := by
      by_contra low
      exact next_ne_low distinct low (forward_eq.symm.trans points)
    obtain ⟨own, own_eq, _⟩ := chains k (top header :: passed) entry rest rfl tall
    exact Option.isSome_iff_exists.mpr ⟨own, own_eq⟩)
  have length_eq : (update.take sl.level).length = sl.level := by
    rw [List.length_take, predecessors.length]
    exact Nat.min_eq_left enough
  have unlinked {i : Nat} (below : i < sl.level) : ∃ found, LastAbove i (top header :: passed) found ∧
      Unlinked entry.ptr found (sl.levelAt · i) (sl'.levelAt · i) := by
    obtain ⟨found, at_i⟩ : ∃ found, (update.take sl.level)[i]? = some found :=
      ⟨_, List.getElem?_eq_getElem (length_eq.symm ▸ below)⟩
    have written := pass.inside i found at_i
    rw [Nat.zero_add] at written
    exact ⟨found, predecessors.last i found (getElem?_take_eq_some at_i).2, written⟩
  have outside {i : Nat} (above : ¬ i < sl.level) (ptr : Nat) : sl'.levelAt ptr i = sl.levelAt ptr i := by
    refine pass.outside ptr i (Or.inr ?_)
    omega
  refine ⟨sl', run, pass.nodes, ?_, ?_⟩
  · intro i
    by_cases below : i < sl.level
    · obtain ⟨_, last, _, _, _, _, kept⟩ := unlinked below
      exact kept entry.ptr (entry_apart_found distinct last).symm
    · exact outside below entry.ptr
  · intro i
    by_cases below : i < sl.level
    · obtain ⟨_, last, written⟩ := unlinked below
      exact (chains i).unlink distinct last written
    · have low : ∀ other ∈ passed ++ entry :: rest, other.height ≤ i :=
        fun other mem => (repr.heights other mem).2.trans (Nat.le_of_not_lt below)
      have chain := (repr.chained.links i).above low fun other mem =>
        low other (List.perm_middle.mem_iff.mpr (List.mem_cons_of_mem entry mem))
      exact chain.congr fun other _ => outside below other.ptr

theorem shrinkLevel_spec (chained : Chained sl (top header :: entries)) {level : Nat}
    (bound : level ≤ maxLevel) (heights : ∀ entry ∈ entries, entry.height ≤ level)
    (positive : 0 < level) :
    ∃ level', sl.shrinkLevel level = some level' ∧ 0 < level' ∧ level' ≤ level ∧
      ∀ entry ∈ entries, entry.height ≤ level' := by
  induction level with
  | zero => omega
  | succ level ih =>
    cases level with
    | zero => exact ⟨1, rfl, Nat.one_pos, Nat.le_refl 1, heights⟩
    | succ level =>
      have split : top header :: entries = [] ++ top header :: entries := rfl
      have tall : level + 1 < (top header).height := bound
      obtain ⟨link, link_eq, forward_eq, _⟩ := chained.link split tall
      have link_eq' : sl.levelAt 0 (level + 1) = some link := link_eq
      simp only [shrinkLevel, link_eq', Option.bind_eq_bind, Option.bind_some]
      by_cases empty : link.forward = none
      · rw [empty] at forward_eq
        have low := next_eq_none_iff.mp (Option.map_eq_none_iff.mp forward_eq.symm)
        obtain ⟨level', run, positive', below, heights'⟩ :=
          ih (Nat.le_of_succ_le bound) low (Nat.succ_pos level)
        exact ⟨level', by rw [if_pos empty, run], positive', Nat.le_succ_of_le below, heights'⟩
      · exact ⟨level + 2, by rw [if_neg empty], positive, Nat.le_refl _, heights⟩

theorem removeNode_spec (repr : Repr header sl (passed ++ entry :: rest))
    (predecessors : Predecessors header levels passed update) (enough : sl.level ≤ levels) :
    ∃ sl', sl.removeNode entry.ptr update = some sl' ∧ sl'.level ≤ sl.level ∧
      Repr header sl' (passed ++ rest) := by
  obtain ⟨sl₁, run, same, own_kept, chains⟩ := unlink_levels repr predecessors enough
  have mem_old {other : Entry M S} (mem : other ∈ passed ++ rest) : other ∈ passed ++ entry :: rest :=
    List.perm_middle.mem_iff.mpr (List.mem_cons_of_mem entry mem)
  have mem_path {other : Entry M S} (mem : other ∈ top header :: (passed ++ rest)) :
      other ∈ top header :: (passed ++ entry :: rest) := by
    rcases List.mem_cons.mp mem with rfl | mem
    · exact List.mem_cons_self
    · exact List.mem_cons_of_mem _ (mem_old mem)
  have heights : ∀ other ∈ passed ++ rest, 0 < other.height :=
    fun other mem => (repr.heights other (mem_old mem)).1
  have split : top header :: (passed ++ entry :: rest) = (top header :: passed) ++ entry :: rest := rfl
  obtain ⟨_, own_eq, forward_eq, _⟩ :=
    repr.chained.link split (repr.heights entry (by simp)).1
  rw [← own_kept] at own_eq
  rw [next_zero fun other mem => heights other (List.mem_append_right passed mem)] at forward_eq
  have backward_eq : sl₁.backwardAt entry.ptr = some (passed.getLast?.map (·.ptr)) :=
    (same.backward entry.ptr).trans (repr.backward passed entry rest rfl)
  have links : SameLinks sl₁
    (sl₁.setPredecessor (rest.head?.map (·.ptr)) (passed.getLast?.map (·.ptr))) := .setPredecessor ..
  obtain ⟨successor, kept, tail_eq⟩ :=
    setPredecessor_spec sl₁ rest (passed.getLast?.map (·.ptr)) (by
      intro other after eq
      rw [same.backward, repr.backward (passed ++ [entry]) other after (by simp [eq])]
      rfl)
  set sl₂ := sl₁.setPredecessor (rest.head?.map (·.ptr)) (passed.getLast?.map (·.ptr)) with sl₂_eq
  have chained₁ : Chained sl₁ (top header :: (passed ++ rest)) := by
    refine ⟨?_, ?_, chains⟩
    · intro other mem
      exact (same.height other.ptr).trans (repr.chained.height other (mem_path mem))
    · intro other mem
      exact (same.elem other.ptr).trans (repr.chained.elem other (mem_path mem))
  have level_eq : sl₂.level = sl.level := links.level.trans same.level
  have length_eq : sl₂.length = sl.length := links.length.trans same.length
  have chained₂ := chained₁.congr links
  obtain ⟨level, shrink, positive, below, low⟩ :=
    shrinkLevel_spec chained₂ (level_eq ▸ repr.level.2)
      (fun other mem => level_eq ▸ (repr.heights other (mem_old mem)).2) (level_eq ▸ repr.level.1)
  refine ⟨{ sl₂ with level := level, length := sl₂.length - 1 }, ?_, level_eq ▸ below, ?_⟩
  · simp only [removeNode, run, Option.bind_eq_bind, Option.bind_some, own_eq, backward_eq, forward_eq]
    rw [shrink, Option.bind_some]
  · refine ⟨⟨chained₂.height, chained₂.elem, chained₂.links⟩, ?_, ?_, ?_, ?_, ?_, ?_⟩
    · have shorter : List.Sublist (top header :: (passed ++ rest))
          (top header :: (passed ++ entry :: rest)) :=
        ((List.sublist_cons_self entry rest).append_left passed).cons_cons _
      exact repr.distinct.sublist (shorter.map _)
    · refine repr.backward.remove successor ?_
      intro other mem
      change sl₂.backwardAt other.ptr = _
      rw [kept other.ptr ?_, same.backward]
      intro next after eq
      subst eq
      have distinct' : ((passed ++ [entry] ++ next :: after).map (·.ptr)).Nodup := by
        simpa using (List.nodup_cons.mp repr.distinct).2
      refine entry_apart distinct' ?_
      rcases List.mem_append.mp mem with mem | mem
      · simp [mem]
      · exact List.mem_append_right _ mem
    · rw [tail_eq]
      cases rest with
      | nil => simp
      | cons next after =>
        rw [← getLast?_append_cons_ne_nil (by simp)]
        exact same.tail.trans repr.tail
    · rw [length_eq, repr.length]
      simp only [List.length_append, List.length_cons]
      push_cast
      ring
    · exact fun other mem => ⟨heights other mem, low other mem⟩
    · exact ⟨positive, below.trans (level_eq ▸ repr.level.2)⟩

/-! ## The removing operations -/

theorem Predecessors.successor (predecessors : Predecessors header sl.level passed update)
    (repr : Repr header sl (passed ++ rest)) :
    ∃ ptr level, update.head? = some (ptr, (passed.length : Int)) ∧
      sl.levelAt ptr 0 = some level ∧ level.forward = rest.head?.map (·.ptr) := by
  have heights : ∀ entry ∈ passed ++ rest, 0 < entry.height :=
    fun entry mem => (repr.heights entry mem).1
  have head := predecessors.first repr.level.1 fun entry mem =>
    heights entry (List.mem_append_left rest mem)
  have last := predecessors.last 0 _ (List.head?_eq_getElem? ▸ head)
  have chain : LevelChain (sl.levelAt · 0) 0 (top header :: passed ++ rest) := repr.chained.links 0
  obtain ⟨level, _, _, level_eq, forward_eq, _⟩ := chain.last_link last
  rw [next_zero fun entry mem => heights entry (List.mem_append_right passed mem)] at forward_eq
  exact ⟨_, level, head, level_eq, forward_eq⟩

theorem remove_spec [LinearOrder M] [LinearOrder S] (member : M) (score : S)
    (repr : Repr header sl entries) :
    ∃ passed rest, entries = passed ++ rest ∧
      (∀ low entry, passed = low ++ [entry] → entry.elem.less ⟨member, score⟩ = true) ∧
      (∀ entry after, rest = entry :: after → entry.elem.less ⟨member, score⟩ = false) ∧
      ((∃ sl' entry after, rest = entry :: after ∧ entry.elem = ⟨member, score⟩ ∧
          sl.remove member score = some (true, sl') ∧ Repr header sl' (passed ++ after)) ∨
        ((∀ entry after, rest = entry :: after → entry.elem ≠ ⟨member, score⟩) ∧
          sl.remove member score = some (false, sl))) := by
  obtain ⟨passed, rest, _, rfl, run, predecessors, goes, stops⟩ :=
    search_spec (fun _ next => next.less ⟨member, score⟩) repr
  refine ⟨passed, rest, rfl, goes, stops, ?_⟩
  obtain ⟨_, _, head, level_eq, forward_eq⟩ := predecessors.successor repr
  cases rest with
  | nil =>
    simp [remove, run, head, level_eq, forward_eq]
  | cons entry after =>
    have elem_eq : sl.elemAt entry.ptr = some entry.elem := repr.chained.elem entry (by simp)
    have same_iff : entry.elem.score = score ∧ entry.elem.member = member ↔
        entry.elem = ⟨member, score⟩ := by
      cases entry.elem
      simp [and_comm]
    by_cases same : entry.elem = ⟨member, score⟩
    · obtain ⟨sl', run', _, repr'⟩ := removeNode_spec repr predecessors (Nat.le_refl _)
      refine Or.inl ⟨sl', entry, after, rfl, same, ?_, repr'⟩
      simp [remove, run, head, level_eq, forward_eq, elem_eq, same, run']
    · refine Or.inr ⟨?_, ?_⟩
      · intro other after' eq
        rw [← (List.cons.inj eq).1]
        exact same
      · simp [remove, run, head, level_eq, forward_eq, elem_eq, same_iff, same]

def InRange (inRange : Nat → Element M S → Bool) (removed : Nat) (gone : List (Entry M S)) : Prop :=
  ∀ low entry high, gone = low ++ entry :: high → inRange (removed + low.length) entry.elem = true

theorem InRange.cons {inRange : Nat → Element M S → Bool} {removed : Nat} {gone : List (Entry M S)}
    (first : inRange removed entry.elem = true) (rest : InRange inRange (removed + 1) gone) :
    InRange inRange removed (entry :: gone) := by
  intro low other high eq
  cases low with
  | nil =>
    obtain ⟨rfl, _⟩ := List.cons.inj eq
    exact first
  | cons head low =>
    obtain ⟨rfl, rfl⟩ := List.cons.inj eq
    have inside := rest low other high rfl
    rwa [Nat.add_assoc, Nat.add_comm 1] at inside

theorem removeWhile_spec (inRange : Nat → Element M S → Bool) {limit : Int}
    (predecessors : Predecessors header levels passed update) {fuel : Nat} :
    ∀ (removed : Nat) (rest : List (Entry M S)) (sl : Skiplist M S),
      Repr header sl (passed ++ rest) → sl.level ≤ levels → rest.length < fuel →
      ∃ gone rest' sl', rest = gone ++ rest' ∧
        removeWhile update inRange limit fuel (rest.head?.map (·.ptr)) removed sl =
          some (gone.map (·.elem), sl') ∧
        Repr header sl' (passed ++ rest') ∧
        InRange inRange removed gone ∧
        ((∀ entry after, rest' = entry :: after →
            inRange (removed + gone.length) entry.elem = false) ∨
          0 < limit ∧ (removed + gone.length : Int) = limit ∧ gone ≠ []) := by
  induction fuel with
  | zero =>
    omega
  | succ fuel ih =>
    intro removed rest sl repr bound enough
    cases rest with
    | nil => exact ⟨[], [], sl, rfl, rfl, repr, by simp [InRange], Or.inl (by simp)⟩
    | cons entry after =>
      have elem_eq : sl.elemAt entry.ptr = some entry.elem := repr.chained.elem entry (by simp)
      simp only [List.head?_cons, Option.map_some, removeWhile, elem_eq, Option.bind_eq_bind,
        Option.bind_some]
      cases goes : inRange removed entry.elem with
      | false =>
        refine ⟨[], entry :: after, sl, rfl, by simp, repr, by simp [InRange], Or.inl ?_⟩
        intro other after' eq
        rw [← (List.cons.inj eq).1]
        exact goes
      | true =>
        have split : top header :: (passed ++ entry :: after) =
          (top header :: passed) ++ entry :: after := rfl
        obtain ⟨_, level_eq, forward_eq, _⟩ :=
          repr.chained.link split (repr.heights entry (by simp)).1
        rw [next_zero fun other mem => (repr.heights other (by simp [mem])).1] at forward_eq
        obtain ⟨sl₁, run₁, below, repr₁⟩ := removeNode_spec repr predecessors bound
        simp only [if_true, level_eq, run₁, Option.bind_some]
        by_cases full : limit > 0 ∧ (removed + 1 : Int) = limit
        · rw [if_pos full]
          exact ⟨[entry], after, sl₁, rfl, rfl, repr₁, .cons goes (by simp [InRange]),
            Or.inr ⟨full.1, by simpa using full.2, by simp⟩⟩
        · rw [if_neg full, forward_eq]
          obtain ⟨gone, rest', sl', split', run', repr', inside, stop⟩ :=
            ih (removed + 1) after sl₁ repr₁ (below.trans bound) (by simpa using enough)
          have count_eq : removed + (entry :: gone).length = removed + 1 + gone.length := by
            rw [List.length_cons]
            omega
          refine ⟨entry :: gone, rest', sl', by rw [split']; rfl, ?_, repr', .cons goes inside, ?_⟩
          · rw [run']
            rfl
          · rcases stop with stop | ⟨positive, _, _⟩
            · refine Or.inl ?_
              rw [count_eq]
              exact stop
            · exact Or.inr ⟨positive, by omega, by simp⟩

theorem removeFrom_spec (inRange : Nat → Element M S → Bool) (limit : Int)
    (predecessors : Predecessors header sl.level passed update)
    (repr : Repr header sl (passed ++ rest)) :
    ∃ gone rest' sl', rest = gone ++ rest' ∧
      sl.removeFrom update inRange limit = some (gone.map (·.elem), sl') ∧
      Repr header sl' (passed ++ rest') ∧ InRange inRange 0 gone ∧
      ((∀ entry after, rest' = entry :: after → inRange gone.length entry.elem = false) ∨
        0 < limit ∧ (gone.length : Int) = limit ∧ gone ≠ []) := by
  obtain ⟨_, _, head, level_eq, forward_eq⟩ := predecessors.successor repr
  have enough : rest.length < sl.nodes.length + 1 := by
    have bound := repr.entries_lt
    rw [List.length_append] at bound
    omega
  obtain ⟨gone, rest', sl', split, run, repr', inside, stop⟩ :=
    removeWhile_spec inRange predecessors 0 rest sl repr (Nat.le_refl _)
      enough
  refine ⟨gone, rest', sl', split, ?_, repr', inside, by simpa using stop⟩
  simp only [removeFrom, head, Option.bind_eq_bind, Option.bind_some, level_eq, forward_eq]
  exact run

end Godis.Skiplist
