import Godis.Database.Dump
import Godis.Database.Transaction

/-!
# Executing undo lines, the last one first

The lines of `rollbackGivenKeys` remove a key and then recreate it.  `execRollback` executes them
from the last one to the first, so that the key is recreated and then removed.
-/

namespace Godis.Database

open Golang Program List
open Prog (andThen_ok run_bind)

variable {F α : Type}

section Ends

variable (env : Env F) (slot : Slot F)

theorem getOrInit_ends (view : Value F → Option α) (make : α → Value F) (initial : α)
    {next : Except Reply α → SlotProg F Reply}
    (refused : ∀ reply state, ∃ told after,
      (next (.error reply)).run (slotHandle env) state = (.ok told, after))
    (fine : ∀ data state, ∃ told after,
      (next (.ok data)).run (slotHandle env) state = (.ok told, after)) :
    ∃ reply after, (getOrInit view make initial >>= next).run (slotHandle env) ⟨slot, []⟩ =
      (.ok reply, after) := by
  rw [run_bind]
  rcases run_getOrInit_cases with
    ⟨reply, state, run, -⟩ | ⟨data, state, run⟩
  · rw [run]
    exact refused reply state
  · rw [run]
    exact fine data state

variable {key : Bytes}

theorem execRPush_ends {values : List Bytes} :
    ∃ reply after, (execRPush (key :: values)).run (slotHandle env) ⟨slot, []⟩ =
      (.ok reply, after) :=
  getOrInit_ends env slot Value.asList .list [] (fun _ _ => ⟨_, _, rfl⟩) fun _ _ => ⟨_, _, rfl⟩

theorem execSAdd_ends {added : List Bytes} :
    ∃ reply after, (execSAdd (key :: added)).run (slotHandle env) ⟨slot, []⟩ = (.ok reply, after) :=
  getOrInit_ends env slot Value.asSet .set ∅ (fun _ _ => ⟨_, _, rfl⟩) fun _ _ => ⟨_, _, rfl⟩

theorem execHMSet_ends {more : List Bytes} :
    ∃ reply after, (execHMSet (key :: more)).run (slotHandle env) ⟨slot, []⟩ = (.ok reply, after) := by
  rw [execHMSet]
  split
  · exact ⟨_, _, rfl⟩
  · exact getOrInit_ends env slot Value.asDict .hash ∅ (fun _ _ => ⟨_, _, rfl⟩)
      fun _ _ => ⟨_, _, rfl⟩

theorem execZAdd_ends [Float64 F] {elements : List (Element Str F)} :
    ∃ reply after, (execZAdd (key :: elements.flatMap fun element =>
      [some (Float64.format element.score), some element.member])).run (slotHandle env) ⟨slot, []⟩ =
        (.ok reply, after) := by
  rw [execZAdd, pairs_flatMap, parseEach_format]
  split
  · exact ⟨_, _, rfl⟩
  · exact getOrInit_ends env slot Value.asSortedSet .zset ∅ (fun _ _ => ⟨_, _, rfl⟩)
      fun _ _ => ⟨_, _, rfl⟩

theorem execPersist_ends (args : List Bytes) :
    ∃ reply after, (execPersist args).run (slotHandle env) ⟨slot, []⟩ = (.ok reply, after) := by
  rw [execPersist, run_bind, run_getEntity]
  cases slot.seen env.now with
  | none => exact ⟨_, _, rfl⟩
  | some entry =>
    generalize (Look.exec env.now slot .getEntity).slot = opened
    obtain ⟨_, deadline, _⟩ := opened
    cases deadline with
    | none | some deadline => exact ⟨_, _, rfl⟩

theorem execPExpireAt_ends (key : Key) (deadline : Int) :
    ∃ reply after, (execPExpireAt [some key, some (formatInt (unixMillis deadline))]).run
      (slotHandle env) ⟨slot, []⟩ = (.ok reply, after) := by
  rcases run_execPExpireAt env key deadline slot with ⟨-, reply, -⟩ | ⟨-, reply, -⟩
  · exact ⟨_, _, Prod.ext reply rfl⟩
  · exact ⟨_, _, Prod.ext reply rfl⟩

end Ends

/-! ## The lines of a key -/

section Lines

variable [Float64 F] (env dumping : Env F) (key : Key) (space : Space F)

def EndsAt (line : Line) : Prop :=
  ∃ reply after, (exec line).run (dbHandle env) space = (.ok reply, after) ∧
    ∀ other, other ≠ key → after.slots other = space.slots other

theorem endsAt_changeKey (name : Name) {word : Bytes} {more : List Bytes}
    {body : List Bytes → SlotProg F Reply} (found : commandOf (word :: some key :: more) = some name)
    (executes : (command (F := F) name).executor = .changeKey body)
    (ends : ∀ slot, ∃ reply after,
      (body (some key :: more)).run (slotHandle env) ⟨slot, []⟩ = (.ok reply, after)) :
    EndsAt env key space (word :: some key :: more) := by
  by_cases counted : validateArity (command (F := F) name).arity (word :: some key :: more) = true
  · obtain ⟨reply, after, run⟩ := ends (space.slots key)
    have executed := run_exec_changeKey env space name found executes counted
    have here : (body (some key :: more)).run (slotHandle env) (space.read (str (some key))) =
        (.ok reply, after) := run
    rw [here] at executed
    exact ⟨_, _, executed, fun other different => Space.write_slots_ne _ _ different⟩
  · have isName : Name.ofText (toLower (str word)) = some name := found
    rw [EndsAt, exec, execWithLock, isName]
    dsimp only
    rw [if_neg counted]
    exact ⟨_, _, rfl, fun _ _ => rfl⟩

theorem endsAt_dumpLine (value : Value F) : EndsAt env key space (dumpLine dumping key value) := by
  cases value with
  | string bytes =>
    refine endsAt_changeKey env key space .set rfl rfl fun slot => ?_
    have options : setOptions [] .upsert 0 = .ok (.upsert, 0) := rfl
    exact ⟨_, _, Prod.ext (run_execSet_upsert options).1 rfl⟩
  | list elements =>
    exact endsAt_changeKey env key space .rpush rfl rfl fun slot => execRPush_ends _ _
  | set members =>
    exact endsAt_changeKey env key space .sadd rfl rfl fun slot => execSAdd_ends _ _
  | hash fields =>
    exact endsAt_changeKey env key space .hmset rfl rfl fun slot => execHMSet_ends _ _
  | zset scores =>
    rw [dumpLine_zset]
    exact endsAt_changeKey env key space .zadd rfl rfl fun slot => execZAdd_ends _ _

theorem endsAt_ttlLine (deadline : Option Int) : EndsAt env key space (ttlLine key deadline) := by
  cases deadline with
  | none =>
    exact endsAt_changeKey env key space .persist rfl rfl fun slot => execPersist_ends env slot _
  | some deadline =>
    exact endsAt_changeKey env key space .pexpireat rfl rfl fun slot =>
      execPExpireAt_ends env slot key deadline

omit [Float64 F] in
theorem Slot.removeIfPresent_value (slot : Slot F) : slot.removeIfPresent.value = none := by
  rw [removeIfPresent]
  split
  · rfl
  · rename_i absent
    exact Option.not_isSome_iff_eq_none.mp absent

theorem run_exec_del_one :
    ∃ reply after, (exec (toCmdLineOfStr "DEL" [key])).run (dbHandle env) space = (.ok reply, after) ∧
      after.slots key = (space.slots key).removeIfPresent ∧
      ∀ other, other ≠ key → after.slots other = space.slots other := by
  have named : toLower (str (some (lit "DEL"))) = lit "del" := rfl
  obtain ⟨after, run, slots⟩ := run_exec_del env named (cons_ne_nil (some key) []) space
  have keys : [some key].map str = [key] := rfl
  rw [keys] at slots
  refine ⟨_, after, run, ?_, fun other different => ?_⟩
  · rw [slots, delSlot, if_pos (mem_singleton.mpr rfl)]
  · rw [slots, delSlot, if_neg fun member => different (mem_singleton.mp member)]

theorem execUndo_undoLines (moment : Nat) (was : Option (Value F × Option Int)) :
    ∃ after, execUndo (fun _ => env) moment (undoLines dumping key was).reverse space =
        (.ok (), after) ∧
      (after.slots key).value = none ∧ ∀ other, other ≠ key → after.slots other = space.slots other := by
  cases was with
  | none =>
    obtain ⟨_, after, run, gone, others⟩ := run_exec_del_one env key space
    refine ⟨after, ?_, gone ▸ Slot.removeIfPresent_value _, others⟩
    change execUndo (fun _ => env) moment [toCmdLineOfStr "DEL" [key]] space = _
    rw [execUndo, run]
    rfl
  | some entry =>
    obtain ⟨value, deadline⟩ := entry
    obtain ⟨_, timed, ttl, ttlOthers⟩ := endsAt_ttlLine env key space deadline
    obtain ⟨_, loaded, dump, dumpOthers⟩ := endsAt_dumpLine env dumping key timed value
    obtain ⟨_, after, run, gone, others⟩ := run_exec_del_one env key loaded
    refine ⟨after, ?_, gone ▸ Slot.removeIfPresent_value _, fun other different => ?_⟩
    · change execUndo (fun _ => env) moment
        [ttlLine key deadline, dumpLine dumping key value, toCmdLineOfStr "DEL" [key]] space = _
      rw [execUndo, ttl, andThen_ok, execUndo, dump, andThen_ok, execUndo, run]
      rfl
    · rw [others other different, dumpOthers other different, ttlOthers other different]

theorem execUndo_append {moments : Moments F} {moment : Nat} {first second : List Line} :
    execUndo moments moment (first ++ second) space =
      Prog.andThen (execUndo moments moment first space) fun _ reached =>
        execUndo moments (moment + first.length) second reached := by
  induction first generalizing moment space with
  | nil => rfl
  | cons line rest ih =>
    rw [cons_append, execUndo, execUndo]
    generalize (exec line).run (dbHandle (moments moment)) space = ended
    obtain ⟨- | -, _⟩ := ended
    · rfl
    · rw [andThen_ok, andThen_ok, ih, length_cons, Nat.add_right_comm,
        Nat.add_assoc]

theorem execUndo_keys (moment : Nat) (keys : List Key)
    (was : Key → Option (Value F × Option Int)) :
    ∃ after, execUndo (fun _ => env) moment
        (keys.flatMap fun key => undoLines dumping key (was key)).reverse space = (.ok (), after) ∧
      (∀ key ∈ keys, (after.slots key).value = none) ∧
      ∀ key ∉ keys, after.slots key = space.slots key := by
  induction keys generalizing moment space with
  | nil => exact ⟨space, rfl, by simp, fun _ _ => rfl⟩
  | cons first rest ih =>
    obtain ⟨reached, later, gone, others⟩ := ih space moment
    obtain ⟨after, run, goneFirst, othersFirst⟩ := execUndo_undoLines env dumping first reached
      (moment + (rest.flatMap fun key => undoLines dumping key (was key)).reverse.length)
      (was first)
    refine ⟨after, ?_, fun key member => ?_, fun key outside => ?_⟩
    · rw [flatMap_cons, List.reverse_append, execUndo_append, later, andThen_ok, run]
    · by_cases isFirst : key = first
      · rw [isFirst, goneFirst]
      · rw [othersFirst key isFirst]
        exact gone key ((mem_cons.mp member).resolve_left isFirst)
    · obtain ⟨notFirst, notRest⟩ := not_or.mp (fun member => outside (mem_cons.mpr member))
      rw [othersFirst key notFirst, others key notRest]

end Lines

end Godis.Database
