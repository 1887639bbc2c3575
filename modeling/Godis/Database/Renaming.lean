import Godis.Database.WriteSets

/-!
# What `RENAME` and `RENAMENX` leave (`execRename` and `execRenameNx` of `database/keys.go`)
-/

namespace Godis.Database

open Golang Program
open Prog (andThen_ok run_bind)

variable {F : Type}

theorem putEntity_slot {slot : Slot F} {value : Value F} :
    (slot.putEntity value).slot = slot.withValue value := by
  unfold Slot.putEntity
  split
  · rfl
  · rfl

namespace Space

def withDeadline (space : Space F) (key : Key) (deadline : Option Int) : Space F :=
  space.write key ⟨(space.slots key).withDeadline deadline, []⟩

def moveDeadline (space : Space F) (source dest : Key) : Option Int → Space F
  | none => space
  | some deadline =>
    ((space.withDeadline source none).withDeadline dest none).withDeadline dest (some deadline)

def noteLine (space : Space F) (line : Line) : Space F :=
  { space with events := space.events ++ [.logged line] }

variable {key other : Key} {deadline : Option Int}

theorem withDeadline_slots {space : Space F} :
    (space.withDeadline key deadline).slots other =
      if other = key then (space.slots key).withDeadline deadline else space.slots other :=
  write_slots _ _ _ _

theorem withDeadline_value {space : Space F} :
    ((space.withDeadline key deadline).slots other).value = (space.slots other).value := by
  rw [withDeadline_slots]
  split
  · rename_i same
    rw [same]
    rfl
  · rfl

theorem moveDeadline_value {space : Space F} {source dest : Key} :
    ((space.moveDeadline source dest deadline).slots other).value = (space.slots other).value := by
  cases deadline with
  | none => rfl
  | some deadline =>
    exact (withDeadline_value).trans
      ((withDeadline_value).trans withDeadline_value)

variable {dest source : Key} {value : Value F}

variable (space : Space F)

theorem moveDeadline_slots (different : source ≠ dest) (deadline : Int) (other : Key) :
    (space.moveDeadline source dest (some deadline)).slots other =
      if other = dest then (space.slots dest).withDeadline (some deadline)
      else if other = source then (space.slots source).withDeadline none
      else space.slots other := by
  simp only [moveDeadline, withDeadline_slots, if_true, if_neg (Ne.symm different)]
  split
  · rfl
  · rfl

theorem move_source (source dest : Key) (there : (space.slots source).value = some value) :
    ((space.move source dest).slots source).value = none := by
  unfold move
  rw [there]
  exact congrArg Slot.value (write_slots_self _)

theorem move_slots (different : source ≠ dest) (there : (space.slots source).value = some value)
    (other : Key) :
    (space.move source dest).slots other =
      if other = source then (space.slots source).remove
      else if other = dest then (space.slots dest).withValue value
      else space.slots other := by
  have placed : (space.act dest ((space.slots dest).putEntity value)).2.slots source =
      space.slots source := act_slots_ne _ _ different
  unfold move
  rw [there]
  dsimp only
  rw [placed]
  refine (write_slots _ _ _ _).trans (if_congr Iff.rfl rfl ?_)
  rw [← putEntity_slot]
  exact write_slots _ _ _ _

theorem removeIfPresent_value (key : Key) :
    ((space.removeIfPresent key).slots key).value = none := by
  unfold removeIfPresent
  split
  · exact congrArg Slot.value (write_slots_self _)
  · rename_i absent
    exact Option.not_isSome_iff_eq_none.mp absent

theorem replace_source {space : Space F} (different : source ≠ dest)
    (there : (space.slots source).value = some value) :
    ((space.replace source dest).slots source).value = none := by
  unfold replace
  rw [there]
  rw [act_slots_ne _ _ different, removeIfPresent_slots_ne different]
  exact space.removeIfPresent_value source

end Space

section Runs

variable (env : Env F) (space : Space F)

theorem run_lookAt_getEntity (key : Key) :
    (lookAt key getEntity).run (dbHandle env) space =
      (.ok ((space.seen env.now key).map Prod.fst),
        (dbHandle env (.look key .getEntity) space).2) :=
  Prod.ext (congrArg Except.ok ((space.slots key).answer_getEntity_seen env.now)) rfl

variable {env space} {source dest : Bytes} {value : Value F} {deadline : Option Int}

variable {key : Key}

theorem look_of_seen (there : space.seen env.now key = some (value, deadline)) :
    (dbHandle env (.look key .getEntity) space).2 = space := by
  have looked := run_lookAt (Slot.live_of_seen there).1 (getEntity (F := F))
  exact congrArg Prod.snd looked

theorem run_lookAt_expireTime (there : space.seen env.now key = some (value, deadline)) :
    (lookAt key expireTime).run (dbHandle env) space = (.ok deadline, space) := by
  obtain ⟨live, _, isDeadline⟩ := Slot.live_of_seen there
  rw [run_lookAt live]
  exact Prod.ext (congrArg Except.ok isDeadline) rfl

theorem run_execRename_absent (absent : space.seen env.now (str source) = none) :
    (execRename [source, dest]).run (dbHandle env) space =
      (.ok (.err "no such key"), (dbHandle env (.look (str source) .getEntity) space).2) := by
  rw [execRename, run_bind, run_lookAt_getEntity, absent]
  rfl

theorem run_execRename (there : space.seen env.now (str source) = some (value, deadline)) :
    (execRename [source, dest]).run (dbHandle env) space =
      (.ok .ok, (((space.move (str source) (str dest)).moveDeadline (str source) (str dest)
        deadline).noteLine (toCmdLine "rename" [source, dest]))) := by
  rw [execRename, run_bind, run_lookAt_getEntity, look_of_seen there, there]
  simp only [Option.map_some, andThen_ok]
  rw [run_bind, run_lookAt_expireTime there]
  cases deadline with
  | none => rfl
  | some deadline => rfl

theorem run_execRenameNx_taken {more : List Bytes} (taken : space.seen env.now (str dest) ≠ none) :
    (execRenameNx (source :: dest :: more)).run (dbHandle env) space = (.ok (.int 0), space) := by
  obtain ⟨⟨_, _⟩, there⟩ := Option.ne_none_iff_exists'.mp taken
  rw [execRenameNx, run_bind, run_lookAt_getEntity, look_of_seen there, there]
  rfl

variable (more : List Bytes)

theorem run_execRenameNx_absent (free : space.seen env.now (str dest) = none)
    (absent : space.seen env.now (str source) = none) :
    (execRenameNx (source :: dest :: more)).run (dbHandle env) space =
      (.ok (.err "no such key"), (dbHandle env (.look (str source) .getEntity)
        (dbHandle env (.look (str dest) .getEntity) space).2).2) := by
  have still := seen_of_look env (.look (str dest) .getEntity) space trivial (str source)
  rw [execRenameNx, run_bind, run_lookAt_getEntity, free]
  simp only [Option.map_none, andThen_ok]
  rw [run_bind, run_lookAt_getEntity, still, absent]
  rfl

theorem run_execRenameNx (free : space.seen env.now (str dest) = none)
    (there : space.seen env.now (str source) = some (value, deadline)) :
    (execRenameNx (source :: dest :: more)).run (dbHandle env) space =
      (.ok (.int 1), ((((dbHandle env (.look (str dest) .getEntity) space).2.replace
        (str source) (str dest)).moveDeadline (str source) (str dest) deadline).noteLine
          (toCmdLine "renamenx" (source :: dest :: more)))) := by
  have still := seen_of_look env (.look (str dest) .getEntity) space trivial (str source)
  rw [execRenameNx, run_bind, run_lookAt_getEntity, free]
  simp only [Option.map_none, andThen_ok]
  rw [run_bind, run_lookAt_getEntity, look_of_seen (still.trans there), still, there]
  simp only [Option.map_some, andThen_ok]
  rw [run_bind, run_lookAt_expireTime (still.trans there)]
  cases deadline with
  | none => rfl
  | some deadline => rfl

theorem seen_execRename_source (there : space.seen env.now (str source) ≠ none) :
    ((execRename [source, dest]).run (dbHandle env) space).2.seen env.now (str source) = none := by
  obtain ⟨⟨_, _⟩, there⟩ := Option.ne_none_iff_exists'.mp there
  rw [run_execRename there]
  refine Slot.seen_of_none ((Space.moveDeadline_value).trans ?_)
  exact space.move_source _ _ (Slot.live_of_seen there).2.1

theorem seen_execRenameNx_source
    (free : space.seen env.now (str dest) = none)
    (there : space.seen env.now (str source) ≠ none) :
    ((execRenameNx (source :: dest :: more)).run (dbHandle env) space).2.seen env.now
      (str source) = none := by
  have different : str source ≠ str dest := fun same => there (same ▸ free)
  obtain ⟨⟨_, _⟩, there⟩ := Option.ne_none_iff_exists'.mp there
  have still := seen_of_look env (.look (str dest) .getEntity) space trivial (str source)
  rw [run_execRenameNx more free there]
  refine Slot.seen_of_none ((Space.moveDeadline_value).trans ?_)
  exact Space.replace_source different (Slot.live_of_seen (still.trans there)).2.1

theorem same_execRename_iff :
    space.Same env.now ((execRename [source, dest]).run (dbHandle env) space).2 ↔
      space.seen env.now (str source) = none := by
  constructor
  · intro same
    by_contra there
    exact there ((same (str source)).symm.trans (seen_execRename_source there))
  · intro absent key
    rw [run_execRename_absent absent]
    exact seen_of_look env (.look (str source) .getEntity) _ trivial key

theorem same_execRenameNx_iff :
    space.Same env.now ((execRenameNx (source :: dest :: more)).run (dbHandle env) space).2 ↔
      space.seen env.now (str source) = none ∨ space.seen env.now (str dest) ≠ none := by
  constructor
  · intro same
    by_contra neither
    obtain ⟨there, taken⟩ := not_or.mp neither
    exact there ((same (str source)).symm.trans
      (seen_execRenameNx_source more (not_not.mp taken) there))
  · intro idle key
    by_cases free : space.seen env.now (str dest) = none
    · rw [run_execRenameNx_absent more free (idle.resolve_right (not_not.mpr free))]
      exact (seen_of_look env (.look (str source) .getEntity) _ trivial key).trans
        (seen_of_look env (.look (str dest) .getEntity) _ trivial key)
    · rw [run_execRenameNx_taken free]

end Runs

end Godis.Database
