import Godis.Datastruct.Skiplist

/-!
# What the update loops of the skip list write

Each of the loops over `update` changes, on every level it visits, the link of one
predecessor (and, on insertion, of the new node).  Everything else on the heap stays.
-/

namespace Godis.Skiplist

variable {M S : Type} {sl sl' : Skiplist M S}

section Access

variable {ptr i : Nat} {level old : Level}

theorem levelAt_setLevel_self (present : sl.levelAt ptr i = some old) :
    (sl.setLevel ptr i level).levelAt ptr i = some level := by
  unfold levelAt at present ⊢
  obtain ⟨_, node_eq, level_eq⟩ := Option.bind_eq_some_iff.mp present
  have below := (List.getElem?_eq_some_iff.mp level_eq).1
  simp [setLevel, node_eq, below]

variable {ptr' : Nat} {backward : Option Nat}

theorem levelAt_setLevel_other {i' : Nat} (other : ptr' ≠ ptr ∨ i' ≠ i) :
    (sl.setLevel ptr i level).levelAt ptr' i' = sl.levelAt ptr' i' := by
  unfold levelAt
  by_cases same : ptr = ptr'
  · subst same
    have apart : i ≠ i' := by
      rcases other with other | other
      · exact absurd rfl other
      · exact other.symm
    cases node_eq : sl.nodes[ptr]? with
    | none => simp [setLevel, node_eq]
    | some node => simp [setLevel, node_eq, List.getElem?_set_ne apart]
  · simp [setLevel, same]

theorem forward_setLevel {i' : Nat} (same : level.forward = (sl.levelAt ptr i).bind (·.forward)) :
    ((sl.setLevel ptr i level).levelAt ptr' i').map (·.forward) =
      (sl.levelAt ptr' i').map (·.forward) := by
  by_cases here : ptr' = ptr ∧ i' = i
  · obtain ⟨rfl, rfl⟩ := here
    cases level_eq : sl.levelAt ptr' i' with
    | none =>
      unfold levelAt at level_eq ⊢
      cases node_eq : sl.nodes[ptr']? with
      | none => simp [setLevel, node_eq]
      | some node =>
        rw [node_eq] at level_eq
        simp [setLevel, node_eq, List.getElem?_eq_none_iff.mp level_eq]
    | some old =>
      rw [level_eq, Option.bind_some] at same
      rw [levelAt_setLevel_self level_eq, Option.map_some, Option.map_some, same]
  · rw [levelAt_setLevel_other (not_and_or.mp here)]

theorem levelAt_setBackward :
    (sl.setBackward ptr backward).levelAt ptr' i = sl.levelAt ptr' i := by
  unfold levelAt
  cases node_eq : sl.nodes[ptr']? with
  | none => simp [setBackward, List.getElem?_modify, node_eq]
  | some node =>
    by_cases same : ptr = ptr' <;> simp [setBackward, node_eq, same]

theorem backwardAt_setBackward_self {old : Option Nat} (present : sl.backwardAt ptr = some old) :
    (sl.setBackward ptr backward).backwardAt ptr = some backward := by
  unfold backwardAt at present ⊢
  obtain ⟨_, node_eq, _⟩ := Option.map_eq_some_iff.mp present
  simp [setBackward, node_eq]

theorem backwardAt_setBackward_other (other : ptr' ≠ ptr) :
    (sl.setBackward ptr backward).backwardAt ptr' = sl.backwardAt ptr' := by
  unfold backwardAt
  simp [setBackward, other.symm]

end Access

structure SameNodes (sl sl' : Skiplist M S) : Prop where
  count : sl'.nodes.length = sl.nodes.length
  elem : ∀ ptr, sl'.elemAt ptr = sl.elemAt ptr
  height : ∀ ptr, sl'.heightAt ptr = sl.heightAt ptr
  backward : ∀ ptr, sl'.backwardAt ptr = sl.backwardAt ptr
  tail : sl'.tail = sl.tail
  length : sl'.length = sl.length
  level : sl'.level = sl.level

namespace SameNodes

theorem refl (sl : Skiplist M S) : SameNodes sl sl :=
  ⟨rfl, fun _ => rfl, fun _ => rfl, fun _ => rfl, rfl, rfl, rfl⟩

theorem trans {sl'' : Skiplist M S} (first : SameNodes sl sl') (second : SameNodes sl' sl'') :
    SameNodes sl sl'' where
  count := second.count.trans first.count
  elem ptr := (second.elem ptr).trans (first.elem ptr)
  height ptr := (second.height ptr).trans (first.height ptr)
  backward ptr := (second.backward ptr).trans (first.backward ptr)
  tail := second.tail.trans first.tail
  length := second.length.trans first.length
  level := second.level.trans first.level

theorem setLevel (sl : Skiplist M S) (ptr i : Nat) (level : Level) :
    SameNodes sl (sl.setLevel ptr i level) := by
  have field {α : Type} (f : Node M S → α)
      (blind : ∀ node : Node M S, ∀ levels : List Level, levels.length = node.level.length →
        f { node with level := levels } = f node) (ptr' : Nat) :
      (sl.setLevel ptr i level).nodes[ptr']?.map f = sl.nodes[ptr']?.map f := by
    cases node_eq : sl.nodes[ptr']? with
    | none => simp [Skiplist.setLevel, List.getElem?_modify, node_eq]
    | some node =>
      by_cases same : ptr = ptr'
      · simp [Skiplist.setLevel, node_eq, same,
          blind node (node.level.set i level) (List.length_set ..)]
      · simp [Skiplist.setLevel, node_eq, same]
  exact ⟨List.length_modify .., field (·.elem) (fun _ _ _ => rfl),
    field (·.level.length) (fun _ _ same => same), field (·.backward) (fun _ _ _ => rfl),
    rfl, rfl, rfl⟩

end SameNodes

structure SameLinks (sl sl' : Skiplist M S) : Prop where
  count : sl'.nodes.length = sl.nodes.length
  elem : ∀ ptr, sl'.elemAt ptr = sl.elemAt ptr
  height : ∀ ptr, sl'.heightAt ptr = sl.heightAt ptr
  levels : ∀ ptr i, sl'.levelAt ptr i = sl.levelAt ptr i
  length : sl'.length = sl.length
  level : sl'.level = sl.level

namespace SameLinks

theorem setBackward (sl : Skiplist M S) (ptr : Nat) (backward : Option Nat) :
    SameLinks sl (sl.setBackward ptr backward) := by
  have field {α : Type} (f : Node M S → α)
      (blind : ∀ node : Node M S, f { node with backward := backward } = f node) (ptr' : Nat) :
      (sl.setBackward ptr backward).nodes[ptr']?.map f = sl.nodes[ptr']?.map f := by
    cases node_eq : sl.nodes[ptr']? with
    | none => simp [Skiplist.setBackward, List.getElem?_modify, node_eq]
    | some node =>
      by_cases same : ptr = ptr' <;> simp [Skiplist.setBackward, node_eq, same, blind]
  exact ⟨List.length_modify .., field (·.elem) (fun _ => rfl), field (·.level.length) (fun _ => rfl),
    fun _ _ => levelAt_setBackward, rfl, rfl⟩

theorem setPredecessor (sl : Skiplist M S) (successor predecessor : Option Nat) :
    SameLinks sl (sl.setPredecessor successor predecessor) := by
  cases successor with
  | none => exact ⟨rfl, fun _ => rfl, fun _ => rfl, fun _ _ => rfl, rfl, rfl⟩
  | some next => exact setBackward sl next predecessor

end SameLinks

/-! ## One pass over the levels -/

/-- A pass over the levels from `i` on, one for each item of `update`: the links of a
level before and after are related by `Written`, and the other levels stay. -/
structure Pass (sl sl' : Skiplist M S) (i : Nat) (update : List (Nat × Int))
    (Written : Nat × Int → (Nat → Option Level) → (Nat → Option Level) → Prop) : Prop where
  nodes : SameNodes sl sl'
  outside : ∀ ptr j, j < i ∨ i + update.length ≤ j → sl'.levelAt ptr j = sl.levelAt ptr j
  inside : ∀ k item, update[k]? = some item →
    Written item (sl.levelAt · (i + k)) (sl'.levelAt · (i + k))

section Passes

variable {i : Nat} {update : List (Nat × Int)}
  {Written : Nat × Int → (Nat → Option Level) → (Nat → Option Level) → Prop}

theorem Pass.nil : Pass sl sl i [] Written :=
  ⟨.refl sl, fun _ _ _ => rfl, by simp⟩

theorem Pass.cons {mid : Skiplist M S} {item : Nat × Int} (nodes : SameNodes sl mid)
    (others : ∀ ptr j, j ≠ i → mid.levelAt ptr j = sl.levelAt ptr j)
    (first : Written item (sl.levelAt · i) (mid.levelAt · i))
    (rest : Pass mid sl' (i + 1) update Written) : Pass sl sl' i (item :: update) Written := by
  refine ⟨nodes.trans rest.nodes, ?_, ?_⟩
  · intro ptr j away
    rw [List.length_cons] at away
    rw [rest.outside ptr j (by omega), others ptr j (by omega)]
  · intro k other at_k
    cases k with
    | zero =>
      have same : (sl'.levelAt · i) = (mid.levelAt · i) :=
        funext fun ptr => rest.outside ptr i (Or.inl (Nat.lt_succ_self i))
      cases at_k
      simpa only [Nat.add_zero, same] using first
    | succ k =>
      have same : (mid.levelAt · (i + 1 + k)) = (sl.levelAt · (i + 1 + k)) :=
        funext fun ptr => others ptr (i + 1 + k) (by omega)
      have written := rest.inside k other at_k
      rw [same] at written
      rwa [Nat.add_right_comm i 1 k] at written

end Passes

def Inserted (node : Nat) (rank : Int) (item : Nat × Int) (before after : Nat → Option Level) :
    Prop :=
  ∃ level, before item.1 = some level ∧
    after node = some ⟨level.forward, level.span - (rank - item.2)⟩ ∧
    after item.1 = some ⟨some node, rank - item.2 + 1⟩ ∧
    ∀ ptr, ptr ≠ item.1 → ptr ≠ node → after ptr = before ptr

def Widened (item : Nat × Int) (before after : Nat → Option Level) : Prop :=
  ∃ level, before item.1 = some level ∧
    after item.1 = some { level with span := level.span + 1 } ∧
    ∀ ptr, ptr ≠ item.1 → after ptr = before ptr

def Unlinked (node : Nat) (item : Nat × Int) (before after : Nat → Option Level) : Prop :=
  ∃ level, before item.1 = some level ∧
    (level.forward = some node → ∃ own, before node = some own ∧
      after item.1 = some ⟨own.forward, level.span + (own.span - 1)⟩) ∧
    (level.forward ≠ some node → after item.1 = some { level with span := level.span - 1 }) ∧
    ∀ ptr, ptr ≠ item.1 → after ptr = before ptr

def linkLevel (sl : Skiplist M S) (node : Nat) (rank : Int) (i : Nat) (item : Nat × Int)
    (level : Level) : Skiplist M S :=
  (sl.setLevel node i ⟨level.forward, level.span - (rank - item.2)⟩).setLevel item.1 i
    ⟨some node, rank - item.2 + 1⟩

theorem Inserted.linkLevel {node : Nat} {rank : Int} {i : Nat} {item : Nat × Int}
    {level own : Level} (apart : item.1 ≠ node) (level_eq : sl.levelAt item.1 i = some level)
    (own_eq : sl.levelAt node i = some own) :
    Inserted node rank item (sl.levelAt · i)
      ((sl.linkLevel node rank i item level).levelAt · i) := by
  refine ⟨level, level_eq, ?_, ?_, ?_⟩
  · exact (levelAt_setLevel_other (Or.inl apart.symm)).trans (levelAt_setLevel_self own_eq)
  · exact levelAt_setLevel_self ((levelAt_setLevel_other (Or.inl apart)).trans level_eq)
  · intro ptr ne_item ne_node
    exact (levelAt_setLevel_other (Or.inl ne_item)).trans
      (levelAt_setLevel_other (Or.inl ne_node))

variable {node : Nat}

variable (update : List (Nat × Int))

theorem linkLevels_spec {rank : Int} :
    ∀ (i : Nat) (sl : Skiplist M S),
      (∀ k item, update[k]? = some item → item.1 ≠ node ∧ (sl.levelAt item.1 (i + k)).isSome ∧
        (sl.levelAt node (i + k)).isSome) →
      ∃ sl', linkLevels node rank i update sl = some sl' ∧
        Pass sl sl' i update (Inserted node rank) := by
  induction update with
  | nil =>
    intro i sl _
    exact ⟨sl, rfl, .nil⟩
  | cons item rest ih =>
    intro i sl present
    obtain ⟨apart, has, has'⟩ := present 0 item rfl
    obtain ⟨level, level_eq⟩ := Option.isSome_iff_exists.mp has
    obtain ⟨_, own_eq⟩ := Option.isSome_iff_exists.mp has'
    rw [Nat.add_zero] at level_eq own_eq
    have others : ∀ ptr j, j ≠ i →
        (sl.linkLevel node rank i item level).levelAt ptr j = sl.levelAt ptr j := by
      intro ptr j away
      rw [linkLevel, levelAt_setLevel_other (Or.inr away), levelAt_setLevel_other (Or.inr away)]
    obtain ⟨sl', run, pass⟩ := ih (i + 1) (sl.linkLevel node rank i item level) (by
      intro k other at_k
      rw [others _ _ (by omega), others _ _ (by omega), Nat.add_right_comm i 1 k]
      exact present (k + 1) other at_k)
    refine ⟨sl', ?_, ?_⟩
    · simp only [linkLevels, level_eq, own_eq, Option.bind_eq_bind, Option.bind_some]
      exact run
    · exact .cons ((SameNodes.setLevel ..).trans (SameNodes.setLevel ..)) others
        (.linkLevel apart level_eq own_eq) pass

theorem widenLevels_spec :
    ∀ (i : Nat) (sl : Skiplist M S),
      (∀ k item, update[k]? = some item → (sl.levelAt item.1 (i + k)).isSome) →
      ∃ sl', widenLevels i update sl = some sl' ∧ Pass sl sl' i update Widened := by
  induction update with
  | nil =>
    intro i sl _
    exact ⟨sl, rfl, .nil⟩
  | cons item rest ih =>
    intro i sl present
    obtain ⟨level, level_eq⟩ := Option.isSome_iff_exists.mp (present 0 item rfl)
    rw [Nat.add_zero] at level_eq
    have others : ∀ ptr j, j ≠ i →
        (sl.setLevel item.1 i { level with span := level.span + 1 }).levelAt ptr j =
          sl.levelAt ptr j :=
      fun ptr j away => levelAt_setLevel_other (Or.inr away)
    obtain ⟨sl', run, pass⟩ :=
      ih (i + 1) (sl.setLevel item.1 i { level with span := level.span + 1 }) (by
        intro k other at_k
        rw [others _ _ (by omega), Nat.add_right_comm i 1 k]
        exact present (k + 1) other at_k)
    refine ⟨sl', ?_, .cons (SameNodes.setLevel ..) others ?_ pass⟩
    · simp only [widenLevels, level_eq, Option.bind_eq_bind, Option.bind_some]
      exact run
    · exact ⟨level, level_eq, levelAt_setLevel_self level_eq,
        fun ptr ne => levelAt_setLevel_other (Or.inl ne)⟩

theorem unlinkLevels_spec :
    ∀ (i : Nat) (sl : Skiplist M S),
      (∀ k item, update[k]? = some item → ∃ level, sl.levelAt item.1 (i + k) = some level ∧
        (level.forward = some node → (sl.levelAt node (i + k)).isSome)) →
      ∃ sl', unlinkLevels node i update sl = some sl' ∧ Pass sl sl' i update (Unlinked node) := by
  induction update with
  | nil =>
    intro i sl _
    exact ⟨sl, rfl, .nil⟩
  | cons item rest ih =>
    intro i sl present
    obtain ⟨level, level_eq, has⟩ := present 0 item rfl
    rw [Nat.add_zero] at level_eq has
    have step (new : Level) : ∃ sl', unlinkLevels node (i + 1) rest (sl.setLevel item.1 i new) =
        some sl' ∧ Pass (sl.setLevel item.1 i new) sl' (i + 1) rest (Unlinked node) := by
      refine ih (i + 1) _ ?_
      intro k other at_k
      rw [levelAt_setLevel_other (Or.inr (by omega)), levelAt_setLevel_other (Or.inr (by omega)),
        Nat.add_right_comm i 1 k]
      exact present (k + 1) other at_k
    by_cases points : level.forward = some node
    · obtain ⟨own, own_eq⟩ := Option.isSome_iff_exists.mp (has points)
      obtain ⟨sl', run, pass⟩ := step ⟨own.forward, level.span + (own.span - 1)⟩
      refine ⟨sl', ?_, .cons (SameNodes.setLevel ..)
        (fun ptr j away => levelAt_setLevel_other (Or.inr away)) ?_ pass⟩
      · simp only [unlinkLevels, level_eq, own_eq, Option.bind_eq_bind, Option.bind_some,
          points, if_true]
        exact run
      · exact ⟨level, level_eq, fun _ => ⟨own, own_eq, levelAt_setLevel_self level_eq⟩,
          fun away => absurd points away, fun ptr ne => levelAt_setLevel_other (Or.inl ne)⟩
    · obtain ⟨sl', run, pass⟩ := step { level with span := level.span - 1 }
      refine ⟨sl', ?_, .cons (SameNodes.setLevel ..)
        (fun ptr j away => levelAt_setLevel_other (Or.inr away)) ?_ pass⟩
      · simp only [unlinkLevels, level_eq, Option.bind_eq_bind, Option.bind_some, points, if_false]
        exact run
      · exact ⟨level, level_eq, fun pointing => absurd pointing points,
          fun _ => levelAt_setLevel_self level_eq, fun ptr ne => levelAt_setLevel_other (Or.inl ne)⟩

/-! ## The other updates -/

theorem extendLevels_spec {count : Nat} : ∀ (sl : Skiplist M S) (i : Nat),
    SameNodes sl (sl.extendLevels count i) ∧
      (∀ ptr j, (sl.levelAt ptr j).map (·.forward) =
        ((sl.extendLevels count i).levelAt ptr j).map (·.forward)) ∧
      ∀ ptr j, ptr ≠ 0 ∨ j < i → (sl.extendLevels count i).levelAt ptr j = sl.levelAt ptr j := by
  induction count with
  | zero =>
    intro sl i
    exact ⟨.refl sl, fun _ _ => rfl, fun _ _ _ => rfl⟩
  | succ count ih =>
    intro sl i
    obtain ⟨nodes, forward, rest⟩ :=
      ih (sl.setLevel 0 i ⟨(sl.levelAt 0 i).bind (·.forward), sl.length⟩) (i + 1)
    rw [extendLevels]
    refine ⟨(SameNodes.setLevel ..).trans nodes, ?_, ?_⟩
    · intro ptr j
      rw [← forward]
      exact (forward_setLevel rfl).symm
    · intro ptr j away
      rw [rest ptr j (by omega), levelAt_setLevel_other (by omega)]

end Godis.Skiplist


