import Godis.Aof.SelfLogging
import Godis.Database.Filled

/-!
# Commands for one key that may leave an empty collection

`LTRIM`, `SPOP`, `ZREM`, `ZPOPMIN` and the three `ZREMRANGE` commands change the collection in place
and forget to remove a key that has lost its last element.
-/

namespace Godis.Database

open Golang Program List

variable {F α β : Type}

theorem run_getOrInit_cases {env : Env F} {slot : Slot F} {view : Value F → Option α}
    {make : α → Value F} {initial : α} :
    (∃ reply state, (getOrInit view make initial).run (slotHandle env) ⟨slot, []⟩ =
        (.ok (.error reply), state) ∧ state.slot = (Look.exec env.now slot .getEntity).slot) ∨
      ∃ data state, (getOrInit view make initial).run (slotHandle env) ⟨slot, []⟩ =
        (.ok (.ok data), state) := by
  rw [getOrInit, Prog.run_bind, run_getAs_seen]
  cases (slot.seen env.now).map Prod.fst with
  | none => exact .inr ⟨initial, _, rfl⟩
  | some held =>
    simp only [viewed]
    cases view held with
    | none => exact .inl ⟨_, _, rfl, rfl⟩
    | some data => exact .inr ⟨data, _, rfl⟩

section Emptying

variable {env : Env F}

variable {state : SlotState F} {slot : Slot F} {removed elements : List (Element Str F)}
  {scores : Scores F}

theorem filled_mutate {old value : Value F} {rest : Unit → SlotProg F α}
    (present : state.slot.value = some old)
    (quiet : ∀ state, ((rest ()).run (slotHandle env) state).2.slot = state.slot)
    (some_ : value.isEmptyCollection = false) :
    ((mutate value >>= rest).run (slotHandle env) state).2.slot.Filled := by
  obtain ⟨⟨_, _, _⟩, _⟩ := state
  cases present
  rw [Prog.run_bind, run_mutate, Prog.andThen_ok, quiet]
  exact Slot.filled_of_some rfl some_

theorem filled_getAs (filled : slot.Filled) {view : Value F → Option α} {make : α → Value F}
    (views : ∀ {held data}, view held = some data ↔ held = make data)
    {next : Except Reply (Option α) → SlotProg F β}
    (refused : ∀ reply, Keeps env (next (.error reply))) (absent : Keeps env (next (.ok none)))
    (present : ∀ data deadline state, slot.seen env.now = some (make data, deadline) →
      state.slot.Filled → state.slot.value = some (make data) →
        ((next (.ok (some data))).run (slotHandle env) state).2.slot.Filled) :
    ((look (getAs view) >>= next).run (slotHandle env) ⟨slot, []⟩).2.slot.Filled := by
  rw [Prog.run_bind, run_getAs_seen]
  have looked := filled.look env.now .getEntity
  cases there : slot.seen env.now with
  | none => exact absent _ looked
  | some entry =>
    obtain ⟨held, deadline⟩ := entry
    simp only [Option.map_some, viewed]
    cases isData : view held with
    | none => exact refused _ _ looked
    | some data =>
      obtain ⟨live, isValue, _⟩ := Slot.live_of_seen there
      obtain rfl := views.mp isData
      refine present data deadline _ there looked ?_
      rw [(exec_live live .getEntity).1]
      exact isValue

def fromEnd (index : Int) (size : Nat) : Int :=
  if index < 0 then index + size else index

variable [Float64 F]

/-- A command for one key leaves an empty collection there, as far as can be told from its arguments
and from what can be seen at the key. -/
def LeavesEmpty (env : Env F) (seen : Option (Value F × Option Int)) : Name → List Bytes → Prop
  | .ltrim, [_, rawStart, rawEnd] =>
    ∃ elements deadline, seen = some (.list elements, deadline) ∧
      ∃ start stop, parseInt (str rawStart) = .ok start ∧ parseInt (str rawEnd) = .ok stop ∧
        ¬ ∃ i : Nat, i < elements.length ∧ fromEnd start elements.length ≤ i ∧
          i ≤ fromEnd stop elements.length
  | .spop, args =>
    ∃ members deadline, seen = some (.set members, deadline) ∧
      ∃ count, spopCount args = some count ∧ (members.card : Int) ≤ count
  | .zrem, _ :: names =>
    ∃ scores deadline, seen = some (.zset scores, deadline) ∧
      ∀ member ∈ scores.keys, member ∈ names.map str
  | .zpopmin, _ :: more =>
    ∃ scores deadline, seen = some (.zset scores, deadline) ∧
      ∃ count, (more.head?.elim (.ok 1) fun rawCount => parseInt (str rawCount)) = .ok count ∧
        (count ≤ 0 ∨ (scores.keys.card : Int) ≤ count)
  | .zremrangebyscore, [_, rawMin, rawMax] =>
    ∃ scores deadline, seen = some (.zset scores, deadline) ∧
      ∃ min max, (parseScoreBorder (str rawMin) : SlotReader F _) = pure (.ok min) ∧
        (parseScoreBorder (str rawMax) : SlotReader F _) = pure (.ok max) ∧
          (∀ lowest, (ranked scores).head? = some lowest → min.less lowest = true) ∧
            ∀ element ∈ ranked scores, max.greater element = true
  | .zremrangebyrank, [_, rawStart, rawStop] =>
    ∃ scores deadline, seen = some (.zset scores, deadline) ∧
      ∃ start stop, parseInt (str rawStart) = .ok start ∧ parseInt (str rawStop) = .ok stop ∧
        sliceBounds start stop scores.keys.card = some (0, scores.keys.card)
  | .zremrangebylex, [_, rawMin, rawMax] =>
    ∃ scores deadline, seen = some (.zset scores, deadline) ∧
      ∃ min max, (parseLexBorder (str rawMin) : SlotReader F _) = pure (.ok min) ∧
        (parseLexBorder (str rawMax) : SlotReader F _) = pure (.ok max) ∧
          env.seek (ranked scores) (fun element => !min.less element) = 0 ∧
            ∀ element ∈ ranked scores, max.greater element = true
  | _, _ => False

variable {key rawStart rawMin rawMax : Bytes} {more : List Bytes} (filled : slot.Filled)

include filled

theorem filled_execLTrim {rawEnd : Bytes}
    (fine : ¬ LeavesEmpty env (slot.seen env.now) .ltrim [key, rawStart, rawEnd]) :
    ((execLTrim [key, rawStart, rawEnd]).run (slotHandle env) ⟨slot, []⟩).2.slot.Filled := by
  unfold execLTrim
  dsimp only
  cases isStart : parseInt (str rawStart) with
  | error error => exact filled
  | ok start =>
    cases isStop : parseInt (str rawEnd) with
    | error error => exact filled
    | ok stop =>
      refine filled_getAs filled Value.asList_eq_some (fun _ => keeps_pure) keeps_pure
        fun elements deadline state there _ present => filled_mutate present (fun _ => rfl) ?_
      have left : ∃ i : Nat, i < elements.length ∧ fromEnd start elements.length ≤ i ∧
          i ≤ fromEnd stop elements.length := by
        by_contra none_
        exact fine ⟨elements, deadline, there, start, stop, isStart, isStop, none_⟩
      rw [Value.isEmptyCollection, isEmpty_eq_false_iff, ← length_pos_iff, length_take, length_drop]
      simp only [fromEnd] at left
      omega

omit [Float64 F] filled in
theorem quiet_log {fewer : Prop} [Decidable fewer] (line : Line) (reply : Reply)
    (state : SlotState F) :
    ((do
      if fewer then addAof line
      return reply : SlotProg F Reply).run (slotHandle env) state).2.slot = state.slot := by
  split
  · rfl
  · rfl

omit [Float64 F] filled in
theorem card_popped {members : Finset Str} {count : Nat} :
    ((env.pick members count).foldl (fun members member => members.erase member) members).card =
      members.card - count := by
  have popped : (env.pick members count).toFinset ⊆ members := fun member chosen =>
    env.pick_subset members count member (mem_toFinset.mp chosen)
  have erased := eraseAll_eq_sdiff members id (env.pick members count)
  rw [map_id] at erased
  refine (congrArg Finset.card erased).trans ?_
  rw [Finset.card_sdiff_of_subset popped, List.toFinset_card_of_nodup (env.pick_nodup _ _),
    env.pick_length]
  omega

omit [Float64 F] filled in
theorem filled_sPop {args : List Bytes} {members : Finset Str} {count : Int}
    (present : state.slot.value = some (.set members)) (positive : 0 < count)
    (more : count < members.card) :
    ((sPop args members count).run (slotHandle env) state).2.slot.Filled := by
  refine filled_mutate present (quiet_log _ _) ?_
  change decide (((env.pick members (min count members.card).toNat).foldl
    (fun members member => members.erase member) members).card = 0) = false
  rw [decide_eq_false_iff_not, card_popped]
  omega

theorem filled_execSPop {args : List Bytes}
    (fine : ¬ LeavesEmpty env (slot.seen env.now) .spop args) :
    ((execSPop args).run (slotHandle env) ⟨slot, []⟩).2.slot.Filled := by
  unfold execSPop
  split
  · exact filled
  · rename_i fits
    refine filled_getAs filled Value.asSet_eq_some (fun _ => keeps_pure) keeps_pure
      fun members deadline state there filled' present => ?_
    have fewer : ∀ count, spopCount args = some count → count < members.card := fun count isCount =>
      not_le.mp fun all => fine ⟨members, deadline, there, count, isCount, all⟩
    rcases args with _ | ⟨_, _ | ⟨rawCount, _ | ⟨_, _⟩⟩⟩
    · exact absurd (by simp) fits
    · exact filled_sPop present Int.one_pos (fewer 1 rfl)
    · dsimp only [spopCount] at fewer ⊢
      cases isCount : parseInt (str rawCount) with
      | error error => exact filled'
      | ok count =>
        dsimp only
        split
        · exact filled'
        · rename_i positive
          refine filled_sPop present (not_le.mp positive) (fewer count ?_)
          rw [isCount]
          exact if_neg positive
    · exact absurd (by simp) fits

theorem filled_execZRem {names : List Bytes}
    (fine : ¬ LeavesEmpty env (slot.seen env.now) .zrem (key :: names)) :
    ((execZRem (key :: names)).run (slotHandle env) ⟨slot, []⟩).2.slot.Filled := by
  refine filled_getAs filled Value.asSortedSet_eq_some (fun _ => keeps_pure) keeps_pure
    fun scores deadline state there _ present => filled_mutate present (quiet_log _ _) ?_
  rw [Value.isEmptyCollection, keys_eraseAll]
  have left : ¬ ∀ member ∈ scores.keys, member ∈ names.map str :=
    fun all => fine ⟨scores, deadline, there, all⟩
  simpa [Finset.subset_iff] using left

omit filled

theorem ranked_members :
    (ranked scores).map Element.member =
      (sorted (scores.keys.image fun member =>
        toLex ((scores.lookup member).getD Float64.zero, member))).map fun entry =>
          (ofLex entry).2 := by
  rw [ranked, map_map]
  rfl

theorem nodup_ranked : ((ranked scores).map Element.member).Nodup := by
  rw [ranked_members]
  refine (nodup_sorted _).map_on fun first isFirst second isSecond same => ?_
  obtain ⟨member, _, rfl⟩ := Finset.mem_image.mp (mem_sorted.mp isFirst)
  obtain ⟨other, _, rfl⟩ := Finset.mem_image.mp (mem_sorted.mp isSecond)
  have same : member = other := same
  rw [same]

theorem toFinset_ranked : ((ranked scores).map Element.member).toFinset = scores.keys := by
  ext -
  rw [mem_toFinset, ranked_members, mem_map]
  constructor
  · rintro ⟨_, inside, rfl⟩
    obtain ⟨_, isMember, rfl⟩ := Finset.mem_image.mp (mem_sorted.mp inside)
    exact isMember
  · exact fun isMember => ⟨_, mem_sorted.mpr (Finset.mem_image_of_mem _ isMember), rfl⟩

theorem length_ranked : (ranked scores).length = scores.keys.card := by
  rw [← toFinset_ranked, List.toFinset_card_of_nodup nodup_ranked, length_map]

theorem card_without (some_ : removed.Sublist (ranked scores)) :
    (without scores removed).keys.card = scores.keys.card - removed.length := by
  have members := some_.map Element.member
  have inside : (removed.map Element.member).toFinset ⊆ scores.keys := by
    rw [← toFinset_ranked]
    exact fun member isMember => mem_toFinset.mpr (members.subset (mem_toFinset.mp isMember))
  rw [without, keys_eraseAll, Finset.card_sdiff_of_subset inside,
    List.toFinset_card_of_nodup (members.nodup nodup_ranked), length_map]

theorem filled_without (some_ : removed.Sublist (ranked scores))
    (fewer : removed.length < (ranked scores).length) :
    (Value.zset (without scores removed)).isEmptyCollection = false := by
  rw [length_ranked] at fewer
  rw [Value.isEmptyCollection, decide_eq_false_iff_not, card_without some_]
  omega

omit [Float64 F] in
theorem sliceBounds_le {start stop : Int} {size first last : Nat}
    (bounds : sliceBounds start stop size = some (first, last)) : first ≤ last ∧ last ≤ size := by
  unfold sliceBounds at bounds
  grind

include filled

theorem filled_execZPopMin (fine : ¬ LeavesEmpty env (slot.seen env.now) .zpopmin (key :: more)) :
    ((execZPopMin (key :: more)).run (slotHandle env) ⟨slot, []⟩).2.slot.Filled := by
  unfold execZPopMin
  dsimp only
  cases isCount : more.head?.elim (.ok 1) fun rawCount => parseInt (str rawCount) with
  | error error => exact filled
  | ok count =>
    refine filled_getAs filled Value.asSortedSet_eq_some (fun _ => keeps_pure) keeps_pure
      fun scores deadline state there _ present => filled_mutate present (quiet_log _ _) ?_
    have fewer : ¬ (count ≤ 0 ∨ (scores.keys.card : Int) ≤ count) :=
      fun all => fine ⟨scores, deadline, there, count, isCount, all⟩
    rw [popMin, if_pos (by omega)]
    refine filled_without (List.take_sublist _ _) ?_
    rw [length_take, length_ranked]
    omega

theorem filled_execZRemRangeByRank {rawStop : Bytes}
    (fine : ¬ LeavesEmpty env (slot.seen env.now) .zremrangebyrank [key, rawStart, rawStop]) :
    ((execZRemRangeByRank [key, rawStart, rawStop]).run (slotHandle env) ⟨slot, []⟩).2.slot.Filled := by
  unfold execZRemRangeByRank
  dsimp only
  cases isStart : parseInt (str rawStart) with
  | error error => exact filled
  | ok start =>
    cases isStop : parseInt (str rawStop) with
    | error error => exact filled
    | ok stop =>
      refine filled_getAs filled Value.asSortedSet_eq_some (fun _ => keeps_pure) keeps_pure
        fun scores deadline state there filled' present => ?_
      dsimp only
      cases bounds : sliceBounds start stop scores.keys.card with
      | none => exact filled'
      | some range =>
        obtain ⟨first, last⟩ := range
        have within := sliceBounds_le bounds
        have notAll : ¬ (first = 0 ∧ last = scores.keys.card) := by
          rintro ⟨rfl, rfl⟩
          exact fine ⟨scores, deadline, there, start, stop, isStart, isStop, bounds⟩
        refine filled_mutate present (quiet_log _ _)
          (filled_without ((List.take_sublist _ _).trans (drop_sublist _ _)) ?_)
        have some_ := filled' _ present
        rw [Value.isEmptyCollection, decide_eq_false_iff_not] at some_
        rw [length_take, length_drop, length_ranked]
        omega

omit [Float64 F] filled in
theorem removed_lt (some_ : elements ≠ []) {passed : Nat} {inside : Element Str F → Bool}
    (notAll : ¬ (passed = 0 ∧ ∀ element ∈ elements, inside element = true)) :
    ((elements.drop passed).takeWhile inside).length < elements.length := by
  have fewer := (List.takeWhile_sublist inside (l := elements.drop passed)).length_le
  rw [length_drop] at fewer
  have positive := length_pos_iff.mpr some_
  by_contra same
  have none_ : passed = 0 := by omega
  subst none_
  rw [List.drop_zero] at same fewer
  refine notAll ⟨rfl, List.takeWhile_eq_self_iff.mp ?_⟩
  exact (List.takeWhile_sublist inside).eq_of_length (by omega)

omit filled in
theorem filled_inRange (filled : state.slot.Filled) (present : state.slot.value = some (.zset scores))
    {passed : Nat} {inside : Element Str F → Bool}
    (notAll : ¬ (passed = 0 ∧ ∀ element ∈ ranked scores, inside element = true)) :
    (Value.zset (without scores (((ranked scores).drop passed).takeWhile inside))).isEmptyCollection =
      false := by
  have some_ := filled _ present
  rw [Value.isEmptyCollection, decide_eq_false_iff_not] at some_
  refine filled_without ((List.takeWhile_sublist inside).trans (drop_sublist _ _))
    (removed_lt ?_ notAll)
  rwa [← length_pos_iff, length_ranked, Nat.pos_iff_ne_zero]

theorem filled_execZRemRangeByScore
    (fine : ¬ LeavesEmpty env (slot.seen env.now) .zremrangebyscore [key, rawMin, rawMax]) :
    ((execZRemRangeByScore [key, rawMin, rawMax]).run (slotHandle env) ⟨slot, []⟩).2.slot.Filled := by
  unfold execZRemRangeByScore
  dsimp only
  rcases parseScoreBorder_eq (F := F) (str rawMin) with ⟨_, is⟩ | ⟨_, is⟩ | ⟨min, isMin⟩
  · rw [is]
    exact filled
  · rw [is]
    exact filled
  · rw [isMin]
    rcases parseScoreBorder_eq (F := F) (str rawMax) with ⟨_, is⟩ | ⟨_, is⟩ | ⟨max, isMax⟩
    · rw [is]
      exact filled
    · rw [is]
      exact filled
    · rw [isMax]
      refine filled_getAs filled Value.asSortedSet_eq_some (fun _ => keeps_pure) keeps_pure
        fun scores deadline state there filled' present => ?_
      refine filled_mutate present (quiet_log _ _) (filled_inRange filled' present ?_)
      rintro ⟨nonePassed, all⟩
      refine fine ⟨scores, deadline, there, _, _, isMin, isMax, fun lowest isLowest => ?_, all⟩
      obtain ⟨rest, isRanked⟩ := List.head?_eq_some_iff.mp isLowest
      rw [isRanked] at nonePassed
      by_contra notLess
      simp [notLess] at nonePassed

theorem filled_execZRemRangeByLex
    (fine : ¬ LeavesEmpty env (slot.seen env.now) .zremrangebylex [key, rawMin, rawMax]) :
    ((execZRemRangeByLex [key, rawMin, rawMax]).run (slotHandle env) ⟨slot, []⟩).2.slot.Filled := by
  refine filled_getAs filled Value.asSortedSet_eq_some (fun _ => keeps_pure) keeps_pure
    fun scores deadline state there filled' present => ?_
  rcases parseLexBorder_eq (F := F) (str rawMin) with ⟨_, is⟩ | ⟨_, is⟩ | ⟨min, isMin⟩
  · rw [is]
    exact filled'
  · rw [is]
    exact filled'
  · rw [isMin]
    rcases parseLexBorder_eq (F := F) (str rawMax) with ⟨_, is⟩ | ⟨_, is⟩ | ⟨max, isMax⟩
    · rw [is]
      exact filled'
    · rw [is]
      exact filled'
    · rw [isMax]
      refine filled_mutate present (fun _ => rfl) ?_
      exact filled_inRange filled' present fun all =>
        fine ⟨scores, deadline, there, _, _, isMin, isMax, all⟩

end Emptying

end Godis.Database
