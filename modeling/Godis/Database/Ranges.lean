import Godis.Database.Emptying

/-!
# Ranges of indexes

`LRANGE`, `LTRIM` and `GETRANGE` compute the bounds of a range each in its own way.
-/

namespace Godis.Database

open Golang Program List
open Prog (andThen_ok run_bind)

variable {F α : Type}

/-- The elements at the indexes from `start` to `stop`; negative ones count from the end. -/
def within (elements : List α) (start stop : Int) : List α :=
  let first := max (fromEnd start elements.length) 0
  let last := min (fromEnd stop elements.length) (elements.length - 1)
  (elements.drop first.toNat).take (last + 1 - first).toNat

theorem within_eq {elements : List α} {start stop : Int} :
    within elements start stop = (elements.drop (fromEnd start elements.length).toNat).take
      ((fromEnd stop elements.length + 1).toNat - (fromEnd start elements.length).toNat) := by
  have skips : (max (fromEnd start elements.length) 0).toNat =
      (fromEnd start elements.length).toNat := by omega
  dsimp only [within]
  rw [skips, List.take_eq_take_iff, length_drop]
  omega

variable {size : Nat}

theorem sliceBounds_eq {start stop : Int} :
    sliceBounds start stop size = if (size : Int) ≤ start then none else
      some ((fromEnd start size).toNat,
        max (fromEnd start size).toNat (min (fromEnd stop size + 1) size).toNat) := by
  unfold sliceBounds fromEnd
  grind

theorem convertRange_eq {start stop : Int} :
    convertRange start stop size =
      if start < -size ∨ size ≤ start ∨ stop < -size ∨
        min (fromEnd stop size + 1) size < fromEnd start size then none
      else some ((fromEnd start size).toNat, (min (fromEnd stop size + 1) size).toNat) := by
  unfold convertRange fromEnd
  grind

theorem slice_convertRange {bytes : Str} {start stop : Int} :
    ((convertRange start stop bytes.length).map fun bounds =>
        (bytes.drop bounds.1).take (bounds.2 - bounds.1)).getD [] =
      if start < -bytes.length then [] else within bytes start stop := by
  rw [within_eq, convertRange_eq]
  by_cases early : start < -bytes.length
  · rw [if_pos (.inl early), if_pos early]
    rfl
  · split
    · change [] = _
      rw [eq_comm, List.take_eq_nil_iff, List.drop_eq_nil_iff]
      unfold fromEnd at *
      split_ifs at * <;> omega
    · change (bytes.drop _).take _ = _
      rw [List.take_eq_take_iff, length_drop]
      omega

/-! ## The commands -/

def Reply.elements : Reply → Option (List Bytes)
  | .multiBulk args => some args
  | .emptyMultiBulk => some []
  | _ => none

def Reply.bytes : Reply → Option Str
  | .bulk arg => some (str arg)
  | .nullBulk => some []
  | _ => none

def replyOf (env : Env F) (slot : Slot F) (program : SlotReader F Reply) : Except Stop Reply :=
  ((look program).run (slotHandle env) ⟨slot, []⟩).1

section Commands

variable {env : Env F} {slot other : Slot F} {elements : List Bytes} {bytes : Str}
  {rawStart rawStop : Bytes} {start stop : Int} (key : Bytes)
  (isStart : parseInt (str rawStart) = .ok start) (isStop : parseInt (str rawStop) = .ok stop)
  (live : slot.Live env.now)

include isStart isStop live

theorem replyOf_execLRange (isList : slot.value = some (.list elements)) :
    (elements = [] ∧ start < 0 ∧
      replyOf env slot (execLRange [key, rawStart, rawStop]) = .error .panic) ∨
    (elements ≠ [] ∨ 0 ≤ start) ∧ ∃ reply, reply.elements = some (within elements start stop) ∧
      replyOf env slot (execLRange [key, rawStart, rawStop]) = .ok reply := by
  unfold replyOf
  rw [execLRange, isStart, isStop]
  rw [getAsList, look_bind, run_bind, run_getAs live [] Value.asList, andThen_ok, isList]
  simp only [viewed, Value.asList, within_eq, sliceBounds_eq]
  by_cases behind : (elements.length : Int) ≤ start
  · have nothing : elements.drop (fromEnd start elements.length).toNat = [] := by
      rw [List.drop_eq_nil_iff, fromEnd]
      split <;> omega
    rw [if_pos behind, nothing]
    exact .inr ⟨.inr (by omega), .emptyMultiBulk, by simp [Reply.elements], rfl⟩
  · rw [if_neg behind]
    dsimp only [listRange]
    by_cases bad : elements = [] ∧ start < 0
    · rw [if_pos (.inl (by simp [bad.1]))]
      exact .inl ⟨bad.1, bad.2, rfl⟩
    · have filled : elements ≠ [] ∨ 0 ≤ start := by
        rwa [not_and_or, not_lt] at bad
      have inside : (fromEnd start elements.length).toNat < elements.length := by
        rw [← length_pos_iff] at filled
        unfold fromEnd
        split <;> omega
      rw [if_neg (by omega)]
      refine .inr ⟨filled, .multiBulk _, congrArg some ?_, rfl⟩
      rw [List.take_eq_take_iff, length_drop]
      omega

theorem run_execLTrim (isList : slot.value = some (.list elements)) :
    ∃ events, (execLTrim [key, rawStart, rawStop]).run (slotHandle env) ⟨slot, []⟩ =
      (.ok .ok, ⟨slot.withValue (.list (within elements start stop)), events⟩) := by
  have trimmed : ((elements.drop (fromEnd start elements.length).toNat).take
      ((elements.drop (fromEnd start elements.length).toNat).length -
        (elements.length - fromEnd stop elements.length - 1).toNat)) =
          within elements start stop := by
    rw [within_eq, List.take_eq_take_iff, length_drop]
    omega
  rw [execLTrim, isStart, isStop]
  rw [getAsList, run_bind, run_getAs live, andThen_ok, isList]
  simp only [viewed, Value.asList, ← trimmed]
  rw [run_bind, run_mutate, isList]
  exact ⟨_, rfl⟩

theorem replyOf_execGetRange (isString : slot.value = some (.string (some bytes))) :
    ∃ reply, replyOf env slot (execGetRange [key, rawStart, rawStop]) = .ok reply ∧
      reply.bytes = some (if start < -bytes.length then [] else within bytes start stop) := by
  have seen : slot.seen env.now = some (.string (some bytes), slot.deadline) := by
    rw [Slot.seen_of_live live, isString]
    rfl
  unfold replyOf
  rw [execGetRange, isStart, isStop]
  rw [look_bind, run_bind, run_getAsString, andThen_ok, seen, ← slice_convertRange]
  dsimp only [stringSeen]
  cases convertRange start stop bytes.length with
  | none => exact ⟨.nullBulk, rfl, rfl⟩
  | some bounds => exact ⟨.bulk _, rfl, rfl⟩

/-- `LTRIM` keeps what `LRANGE` shows, and both go by the indexes, unless `LRANGE` panics. -/
theorem ltrim_keeps_lrange_iff (isList : slot.value = some (.list elements)) :
    (∃ reply, replyOf env slot (execLRange [key, rawStart, rawStop]) = .ok reply ∧
        reply.elements = some (within elements start stop)) ∧
      (∃ events, (execLTrim [key, rawStart, rawStop]).run (slotHandle env) ⟨slot, []⟩ =
        (.ok .ok, ⟨slot.withValue (.list (within elements start stop)), events⟩)) ↔
      elements ≠ [] ∨ 0 ≤ start := by
  rw [and_iff_left (run_execLTrim key isStart isStop live isList)]
  rcases replyOf_execLRange key isStart isStop live isList with
    ⟨empty, _, panics⟩ | ⟨filled, reply, shown, replied⟩
  · rw [panics]
    refine iff_of_false ?_ ?_
    · rintro ⟨_, impossible, -⟩
      cases impossible
    · rintro (filled | _)
      · exact filled empty
      · omega
  · exact iff_of_true ⟨reply, replied, shown⟩ filled

omit isStart isStop live in
theorem within_map {β : Type} (f : α → β) {elements : List α} :
    within (elements.map f) start stop = (within elements start stop).map f := by
  rw [within_eq, within_eq, length_map, List.map_take, List.map_drop]

/-- `GETRANGE` shows what `LRANGE` shows of the list of the bytes, unless the first index is before
the beginning and the last one is not. -/
theorem getrange_like_lrange_iff (filled : bytes ≠ []) (live' : other.Live env.now)
    (isString : slot.value = some (.string (some bytes)))
    (isList : other.value = some (.list (bytes.map fun byte => some [byte]))) :
    (∃ told shown elements, replyOf env slot (execGetRange [key, rawStart, rawStop]) = .ok told ∧
      replyOf env other (execLRange [key, rawStart, rawStop]) = .ok shown ∧
      shown.elements = some elements ∧ told.bytes = some (elements.flatMap str)) ↔
      -bytes.length ≤ start ∨ stop < -bytes.length := by
  obtain ⟨told, got, isTold⟩ := replyOf_execGetRange key isStart isStop live isString
  rcases replyOf_execLRange key isStart isStop live' isList with
    ⟨empty, -⟩ | ⟨-, shown, isShown, ranged⟩
  · exact absurd (map_eq_nil_iff.mp empty) filled
  · have joined : (within (bytes.map fun byte => some [byte]) start stop).flatMap str =
        within bytes start stop := by
      rw [within_map, List.flatMap_map]
      exact List.flatMap_singleton' _
    rw [got, ranged]
    refine ⟨?_, fun inside => ⟨told, shown, _, rfl, rfl, isShown, ?_⟩⟩
    · rintro ⟨_, _, _, same, same', isElements, isBytes⟩
      cases same
      cases same'
      obtain rfl := Option.some.inj (isShown.symm.trans isElements)
      rw [joined, isTold, Option.some.injEq] at isBytes
      by_contra outside
      rw [not_or, not_le] at outside
      rw [if_pos outside.1, within_eq, eq_comm, List.take_eq_nil_iff, List.drop_eq_nil_iff] at isBytes
      have positive := length_pos_iff.mpr filled
      unfold fromEnd at isBytes
      split_ifs at isBytes <;> omega
    · rw [joined, isTold, Option.some.injEq]
      split
      · rw [within_eq, eq_comm, List.take_eq_nil_iff]
        unfold fromEnd
        split_ifs <;> omega
      · rfl

end Commands

def slotOf (value : Value Digit) : Slot Digit := ⟨some value, none, 0⟩

theorem ltrim_keeps_last :
    (∃ reply, replyOf (Env.plain 0) (slotOf (.list [some [97], some [98]]))
        (execLRange [none, some (lit "-1"), some (lit "7")]) = .ok reply ∧
      reply.elements = some (within [some [97], some [98]] (-1) 7)) ∧
    ∃ events, (execLTrim [none, some (lit "-1"), some (lit "7")]).run (slotHandle (Env.plain 0))
      ⟨slotOf (.list [some [97], some [98]]), []⟩ =
        (.ok .ok, ⟨slotOf (.list (within [some [97], some [98]] (-1) 7)), events⟩) :=
  (ltrim_keeps_lrange_iff none rfl rfl (Slot.live_of_none rfl) rfl).mpr (.inl (cons_ne_nil _ _))

/-- `LTRIM` leaves an empty list, and `LRANGE` panics there. -/
theorem lrange_panics_after_ltrim :
    (∃ events, (execLTrim [none, some (lit "1"), some (lit "0")]).run (slotHandle (Env.plain 0))
      ⟨slotOf (.list [some [97]]), []⟩ = (.ok .ok, ⟨slotOf (.list []), events⟩)) ∧
    replyOf (Env.plain 0) (slotOf (.list [])) (execLRange [none, some (lit "-1"), some (lit "-1")]) =
      .error .panic :=
  ⟨⟨_, rfl⟩, rfl⟩

theorem getrange_like_lrange_last :
    ∃ told shown elements, replyOf (Env.plain 0) (slotOf (.string (some [97, 98])))
        (execGetRange [none, some (lit "-1"), some (lit "7")]) = .ok told ∧
      replyOf (Env.plain 0) (slotOf (.list [some [97], some [98]]))
        (execLRange [none, some (lit "-1"), some (lit "7")]) = .ok shown ∧
      shown.elements = some elements ∧ told.bytes = some (elements.flatMap str) :=
  (getrange_like_lrange_iff none rfl rfl (Slot.live_of_none rfl) (cons_ne_nil _ _)
    (Slot.live_of_none rfl) rfl rfl).mpr (.inl (by decide))

/-- From index -2 of one byte `GETRANGE` shows nothing and `LRANGE` the byte. -/
theorem getrange_before_beginning :
    replyOf (Env.plain 0) (slotOf (.string (some [97])))
        (execGetRange [none, some (lit "-2"), some (lit "0")]) = .ok .nullBulk ∧
      replyOf (Env.plain 0) (slotOf (.list [some [97]]))
        (execLRange [none, some (lit "-2"), some (lit "0")]) = .ok (.multiBulk [some [97]]) :=
  ⟨rfl, rfl⟩

end Godis.Database
