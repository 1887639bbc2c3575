import Godis.Database.Expired
import Godis.Database.Transaction

/-!
# Watched keys

No operation of a command changes a version, so the versions that `EXEC` compares count how often a
key has been declared as written.
-/

namespace Godis.Database

open Golang Program

variable {F : Type} [Float64 F]

section Versions

omit [Float64 F]

theorem Space.version_act {α : Type} (space : Space F) {target : Key} {effect : Effect F α}
    (kept : effect.slot.version = (space.slots target).version) (key : Key) :
    ((space.act target effect).2.slots key).version = (space.slots key).version := by
  simp only [Space.act, Space.write_slots]
  grind

theorem Space.version_removeIfPresent (space : Space F) (target key : Key) :
    ((space.removeIfPresent target).slots key).version = (space.slots key).version := by
  unfold Space.removeIfPresent
  split
  · exact space.version_act rfl key
  · rfl

theorem Slot.version_putEntity (slot : Slot F) (value : Value F) :
    (slot.putEntity value).slot.version = slot.version := by
  unfold Slot.putEntity
  split <;> rfl

/-- No operation of a command changes a version. -/
theorem version_handle (env : Env F) (op : DbOp F) (space : Space F) (key : Key) :
    ((dbHandle env op space).2.slots key).version = (space.slots key).version := by
  cases op with
  | look target method =>
    refine space.version_act ?_ key
    cases method <;> grind [Look.exec, Slot.remove]
  | change target method =>
    refine space.version_act ?_ key
    cases method with
    | put value => exact Slot.version_putEntity _ value
    | extend bytes => exact Slot.version_putEntity _ (.string bytes)
    | _ => grind [Change.exec, Slot.remove]
  | move source dest =>
    simp only [dbHandle, Space.move]
    split
    · rfl
    · exact (Space.version_act _ rfl key).trans (Space.version_act _ (Slot.version_putEntity _ _) key)
  | replace source dest =>
    simp only [dbHandle, Space.replace]
    split
    · rfl
    · refine (Space.version_act _ (Slot.version_putEntity _ _) key).trans ?_
      rw [Space.version_removeIfPresent, Space.version_removeIfPresent]
  | log line | survey question | ask question => rfl

theorem Space.version_addVersion {space : Space F} (keys : List Key) {key : Key}
    (small : (space.slots key).version < 2 ^ 32) :
    ((space.addVersion keys).slots key).version =
      ((space.slots key).version + keys.count key) % 2 ^ 32 := by
  induction keys generalizing space with
  | nil => exact (Nat.mod_eq_of_lt small).symm
  | cons first rest ih =>
    by_cases isFirst : key = first
    · subst isFirst
      have bumped : ((space.bumpVersion key).slots key).version = ((space.slots key).version + 1) % 2 ^ 32 := by
        simp [Space.bumpVersion]
      refine (ih (bumped ▸ Nat.mod_lt _ (by decide))).trans ?_
      rw [bumped, Nat.mod_add_mod, List.count_cons_self, Nat.add_assoc, Nat.add_comm 1]
    · have kept : (space.bumpVersion first).slots key = space.slots key := Function.update_of_ne isFirst _ _
      refine (ih (kept ▸ small)).trans ?_
      rw [kept, List.count_cons_of_ne (Ne.symm isFirst)]

end Versions

variable (F) in
/-- The keys whose versions `execNormalCommand` counts up for a line. -/
def bumpedKeys (line : Line) : List Key :=
  match commandOf line with
  | none => []
  | some name =>
    if validateArity (command (F := F) name).arity line then
      ((command (F := F) name).prepare.map fun prepare => (prepare line.tail).1).getD []
    else []

theorem version_execNormalCommand (env : Env F) (line : Line) {space : Space F} {key : Key}
    (small : (space.slots key).version < 2 ^ 32) :
    ((execNormalCommand env line space).2.slots key).version =
      ((space.slots key).version + (bumpedKeys F line).count key) % 2 ^ 32 := by
  have idle := (Nat.mod_eq_of_lt small).symm
  cases line with
  | nil => exact idle
  | cons head args =>
    simp only [execNormalCommand, bumpedKeys, commandOf]
    cases Name.ofText (toLower (str head)) with
    | none => exact idle
    | some name =>
      dsimp only
      cases validateArity (command (F := F) name).arity (head :: args) with
      | false => exact idle
      | true =>
        cases (command (F := F) name).prepare with
        | none => exact idle
        | some prepare =>
          have any : ((command name).executor.run (execWithLock (lineSize (head :: args))) args :
            DbProg F Reply).Uses fun _ => True := .all fun _ => trivial
          refine (any.run_preserves (fun after : Space F => (after.slots key).version = _)
            (fun op after _ same => (version_handle env op after key).trans same) rfl).trans ?_
          exact Space.version_addVersion _ small

theorem version_history (history : List (Call F)) {space : Space F} {key : Key}
    (small : (space.slots key).version < 2 ^ 32) :
    ((runCalls space history).slots key).version =
      ((space.slots key).version + (history.flatMap fun call => bumpedKeys F call.line).count key) %
        2 ^ 32 := by
  induction history generalizing space with
  | nil => exact (Nat.mod_eq_of_lt small).symm
  | cons call rest ih =>
    have here := version_execNormalCommand call.env call.line small
    have next : ((call.exec space).slots key).version < 2 ^ 32 := here ▸ Nat.mod_lt _ (by decide)
    rw [runCalls, List.foldl_cons, ← runCalls, ih next, Call.exec, here, Nat.mod_add_mod, List.flatMap_cons, List.count_append, Nat.add_assoc]

/-- `EXEC` takes watched keys as changed exactly if commands have declared since to write one of them,
and not a multiple of 2 ^ 32 times. -/
theorem isWatchingChanged_iff_declared (history : List (Call F)) {space : Space F} (watching : Watching)
    (taken : ∀ key ∈ watching.keys, watching.lookup key = some (space.slots key).version)
    (small : ∀ key, (space.slots key).version < 2 ^ 32) :
    isWatchingChanged (runCalls space history) watching = true ↔
      ∃ key ∈ watching.keys, ¬ 2 ^ 32 ∣ (history.flatMap fun call => bumpedKeys F call.line).count key := by
  rw [isWatchingChanged, Bool.not_eq_true', decide_eq_false_iff_not, not_forall]
  refine exists_congr fun key => ?_
  rw [Classical.not_imp]
  refine and_congr_right fun watched => not_congr ?_
  have bound := small key
  rw [taken key watched, version_history history bound, Option.some.injEq]
  omega

/-- A command that fails counts as well. -/
theorem watched_key_changed_by_failure :
    isWatchingChanged (runCalls oneString [⟨Env.plain 0, [some (lit "INCR"), some (lit "k")]⟩])
      (Finmap.singleton (lit "k") 0) = true := by
  refine (isWatchingChanged_iff_declared _ _ (fun key watched => ?_) fun key => ?_).mpr
    ⟨lit "k", Finset.mem_singleton_self _, by decide⟩
  · rw [Finset.mem_singleton.mp watched]
    rfl
  · rw [oneString, Space.write_slots]
    split <;> exact Nat.two_pow_pos 32

end Godis.Database
