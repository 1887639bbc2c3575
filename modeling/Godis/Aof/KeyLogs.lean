import Godis.Aof.DeadlineLogs

/-!
# What the commands for several keys log

`MSET` and `RENAME` put values without asking for the deadlines the keys have; `MSETNX`,
`RENAMENX` and `DEL` clear the keys first.
-/

namespace Godis.Database

open Golang Program List

variable {F : Type}

/-! ## Keys that were only looked at -/

def Looked (now : Int) (before after : Space F) : Prop :=
  ∀ key, after.slots key = before.slots key ∨
    after.slots key = (Look.exec now (before.slots key) .getEntity).slot

theorem look_look {now : Int} {slot : Slot F} :
    (Look.exec now (Look.exec now slot .getEntity).slot .getEntity).slot =
      (Look.exec now slot .getEntity).slot := by
  cases isValue : slot.value with
  | none => simp only [Look.exec, isValue]
  | some value =>
    by_cases expired : slot.expired now = true
    · simp only [Look.exec, isValue, if_pos expired]
      rfl
    · simp only [Look.exec, isValue, if_neg expired]

theorem look_slots {env : Env F} {key other : Key} {space : Space F} :
    (dbHandle env (.look key .getEntity) space).2.slots other =
      if other = key then (Look.exec env.now (space.slots key) .getEntity).slot
      else space.slots other :=
  Space.write_slots _ _ _ _

theorem Looked.look {env : Env F} {before after : Space F} (looked : Looked env.now before after)
    (key : Key) : Looked env.now before (dbHandle env (.look key .getEntity) after).2 := by
  intro other
  rw [look_slots]
  split
  · rename_i same
    subst same
    rcases looked other with same | same
    · exact .inr (by rw [same])
    · exact .inr (by rw [same, look_look])
  · exact looked other

theorem Looked.trans {now : Int} {first second third : Space F} (looked : Looked now first second)
    (looked' : Looked now second third) : Looked now first third := by
  intro key
  rcases looked key with same | same
  · rw [← same]
    exact looked' key
  · rcases looked' key with same' | same'
    · exact .inr (same'.trans same)
    · exact .inr (by rw [same', same, look_look])

section Follows

variable [Float64 F]

/-- The keys a replay may still hold: those it may hold already, and those that have expired. -/
def staleThen (now : Int) (before : Space F) (stale : Key → Prop) (key : Key) : Prop :=
  stale key ∨ (before.slots key).expired now = true

/-- What a command logs makes of the databases that track the one before it databases that track
the one behind it. -/
def Follows (now : Int) (before after : Space F) (stale stale' : Key → Prop) : Prop :=
  ∃ lines, after.logged = before.logged ++ lines ∧
    Carries now lines (TracksAll before stale) (TracksAll after stale')

variable {env : Env F} {stale stale' : Key → Prop} {before after : Space F}

theorem follows_looked (positive : 0 < env.now) (looked : Looked env.now before after)
    (unlogged : after.logged = before.logged) :
    Follows env.now before after stale (staleThen env.now before stale) := by
  refine ⟨[], unlogged.trans (append_nil _).symm, ?_⟩
  refine (carries_nil (stable_tracksAll stale)).mono fun now copy from_ tracks key => ?_
  rcases looked key with same | same
  · rw [same]
    exact (tracks key).mono fun _ isStale => .inl isStale
  · rw [same]
    exact tracks_looked (tracks key) positive from_

theorem follows_onKey {key : Key} {program : SlotProg F Reply}
    (reproduced : Reproduced env.now key (stale key) (before.slots key)
      (program.run (slotHandle env) ⟨before.slots key, []⟩).2) :
    Follows env.now before ((onKey key program).run (dbHandle env) before).2 stale
      (staleThen env.now before stale) := by
  rw [run_onKey]
  refine ⟨_, Space.write_logged _ _ _, ?_⟩
  intro now copy replay from_ tracks timely isLines
  have around := reproduced before stale now copy replay from_
    ⟨fun other _ => tracks other, tracks key⟩ timely isLines
  intro other
  rw [Space.write_slots]
  split
  · rename_i same
    subst same
    exact around.2
  · rename_i different
    exact (around.1 other different).mono fun _ isStale => .inl isStale

def DbEnacts (line : Line) (program : DbProg F Reply) : Prop :=
  ∀ (call : Call F) (copy : Space F), call.line = line → ∃ written,
    call.exec copy = (program.run (dbHandle call.env) (copy.addVersion written)).2

theorem enacts_changeKeys {name : Name} {word : Bytes} {args : List Bytes}
    {body : List Bytes → DbProg F Reply} {prepare : List Bytes → List Key × List Key}
    (found : commandOf (word :: args) = some name)
    (executes : (command (F := F) name).executor = .changeKeys body)
    (prepared : (command (F := F) name).prepare = some prepare)
    (counted : validateArity (command (F := F) name).arity (word :: args) = true) :
    DbEnacts (word :: args) (body args) := by
  rintro ⟨env, _⟩ copy isLine
  cases isLine
  refine ⟨(prepare args).1, ?_⟩
  unfold Call.exec
  rw [execNormalCommand_eq env copy found prepared counted, executes]
  rfl

theorem follows_one {line : Line} {program : DbProg F Reply}
    (logged : after.logged = before.logged ++ [line]) (enacts : DbEnacts line program)
    (does : ∀ (env' : Env F) (copy : Space F), env.now ≤ env'.now →
      TracksAll before stale env'.now copy →
        TracksAll after stale' env'.now (program.run (dbHandle env') copy).2) :
    Follows env.now before after stale stale' := by
  refine ⟨[line], logged, .one (stable_tracksAll _) (stable_tracksAll _) ?_⟩
  intro call copy from_ isLine tracks
  obtain ⟨written, executed⟩ := enacts call copy isLine
  rw [executed]
  refine does call.env _ from_ fun key => ?_
  obtain ⟨value, deadline⟩ := copy.addVersion_slot written key
  exact (tracks key).congr rfl rfl value deadline

end Follows

/-! ## `DEL` and `GETDEL` -/

section Deleting

variable {env : Env F}

theorem Slot.removeIfPresent_of_kept {slot : Slot F}
    (kept : slot.value = none → slot.deadline = none) :
    ∃ version, slot.removeIfPresent = ⟨none, none, version⟩ := by
  obtain ⟨value, _, version⟩ := slot
  cases value with
  | none =>
    cases kept rfl
    exact ⟨version, rfl⟩
  | some value => exact ⟨version, rfl⟩

theorem tracks_absent {now : Int} {stale : Prop} {version version' : Nat} :
    Tracks now stale (⟨none, none, version⟩ : Slot F) ⟨none, none, version'⟩ :=
  .gone .absent fun present => absurd rfl present

variable [Float64 F] {stale : Key → Prop}

theorem follows_execDel {word : Bytes} {args : List Bytes}
    (counted : validateArity (command (F := F) .del).arity (word :: args) = true) {before : Space F} :
    Follows env.now before ((execDel args).run (dbHandle env) before).2 stale fun key =>
      staleThen env.now before stale key ∧
        ¬ (key ∈ args.map str ∧ ∃ other ∈ args.map str, (before.slots other).value ≠ none) := by
  obtain ⟨after, ended, logged, slots⟩ := run_execDel
  rw [ended]
  split at logged
  · have enacts : DbEnacts (toCmdLine "del" args) (execDel args : DbProg F Reply) :=
      enacts_changeKeys rfl rfl rfl counted
    refine follows_one logged enacts fun env' copy _ tracks key => ?_
    obtain ⟨_, ended', _, slots'⟩ := run_execDel
    rw [ended', slots key, slots' key, delSlot, delSlot]
    by_cases member : key ∈ args.map str
    · obtain ⟨_, isLive⟩ := Slot.removeIfPresent_of_kept (tracks key).kept
      obtain ⟨_, isCopy⟩ := Slot.removeIfPresent_of_kept (tracks key).kept_copy
      rw [if_pos member, if_pos member, isLive, isCopy]
      exact tracks_absent
    · rw [if_neg member, if_neg member]
      exact (tracks key).mono fun _ isStale => ⟨.inl isStale, fun deleted => member deleted.1⟩
  · rename_i empty
    have none_ : ∀ key ∈ args.map str, (before.slots key).value = none := by
      intro key member
      by_contra present
      refine empty ⟨key, Finset.mem_filter.mpr ⟨mem_toFinset.mpr member, ?_⟩⟩
      exact Option.isSome_iff_ne_none.mpr present
    refine ⟨[], logged.trans (append_nil _).symm, ?_⟩
    refine (carries_nil (stable_tracksAll stale)).mono fun now copy from_ tracks key => ?_
    have same : after.slots key = before.slots key := by
      rw [slots key, delSlot]
      split
      · rename_i member
        rw [Slot.removeIfPresent, none_ key member]
        rfl
      · rfl
    rw [same]
    refine (tracks key).mono fun _ isStale => ⟨.inl isStale, ?_⟩
    rintro ⟨_, other, member, present⟩
    exact present (none_ other member)

def delOne (key : Bytes) : SlotProg F Reply := do
  match ← look peek with
  | none => return .int 0
  | some _ =>
    remove
    addAof (toCmdLine "del" [key])
    return .int 1

variable {key : Bytes}

omit [Float64 F] in
theorem execDel_one : (execDel [key] : DbProg F Reply) = onKey (str key) (delOne key) := by
  refine congrArg (Prog.call _) (funext fun found => ?_)
  cases found with
  | none => rfl
  | some value => rfl

theorem enacts_del : Enacts (toCmdLine "del" [key]) (str key) (delOne key : SlotProg F Reply) := by
  intro call copy isLine
  have enacts : DbEnacts (toCmdLine "del" [key]) (execDel [key] : DbProg F Reply) :=
    enacts_changeKeys rfl rfl rfl rfl
  obtain ⟨written, executed⟩ := enacts call copy isLine
  refine ⟨written, executed.trans ?_⟩
  rw [execDel_one, run_onKey]

omit [Float64 F] in
theorem run_delOne {slot : Slot F} :
    ((delOne key).run (slotHandle env) ⟨slot, []⟩).2.slot = slot.removeIfPresent := by
  obtain ⟨value, -, _⟩ := slot
  cases value with
  | none => rfl
  | some value => rfl

theorem reproduced_execGetDel {isStale : Prop} {before : Slot F} (positive : 0 < env.now) :
    Reproduced env.now (str key) isStale before
      ((execGetDel [key]).run (slotHandle env) ⟨before, []⟩).2 := by
  rw [execGetDel, Prog.run_bind, run_getAsString]
  rcases stringSeen (before.seen env.now) with - | _ | -
  · exact reproduced_looked positive (notes_lines _ _) rfl
  · exact reproduced_looked positive (notes_lines _ _) rfl
  · obtain ⟨-, -, lines⟩ := run_after_notes
    refine reproduced_one lines enacts_del fun env' copy _ tracks => ?_
    obtain ⟨_, isCopy⟩ := Slot.removeIfPresent_of_kept tracks.kept_copy
    rw [run_delOne, isCopy]
    exact tracks_absent

end Deleting

/-! ## `MSET` and `MSETNX` -/

section Putting

variable {entries : List (Bytes × Bytes)} {key : Key} {args : List Bytes}

theorem putStrings_logged (space : Space F) (entries : List (Bytes × Bytes)) :
    (putStrings space entries).logged = space.logged := by
  induction entries generalizing space with
  | nil => rfl
  | cons entry rest ih =>
    refine (ih _).trans ?_
    change (space.write _ _).logged = _
    rw [Space.write_logged, notes_lines, append_nil]

variable [Float64 F] {env : Env F} {stale : Key → Prop}

omit [Float64 F] in
theorem noteLine_logged {space : Space F} {line : Line} :
    (space.noteLine line).logged = space.logged ++ [line] :=
  space.log_logged line

variable {word : Bytes} {before : Space F}

theorem follows_execMSet (positive : 0 < env.now)
    (counted : validateArity (command (F := F) .mset).arity (word :: args) = true)
    (steady : args.length % 2 = 0 → ∀ key ∈ (pairs args).map fun pair => str pair.1,
      Steady (stale key) (before.slots key)) :
    Follows env.now before ((execMSet args).run (dbHandle env) before).2 stale
      (staleThen env.now before stale) := by
  by_cases even : args.length % 2 = 0
  · rw [run_execMSet env even]
    have enacts : DbEnacts (toCmdLine "mset" args) (execMSet args : DbProg F Reply) :=
      enacts_changeKeys rfl rfl rfl counted
    refine follows_one ?_ enacts fun env' copy _ tracks key => ?_
    · rw [noteLine_logged, putStrings_logged]
    · rw [run_execMSet env' even]
      change Tracks _ _ ((putStrings before (pairs args)).slots key)
        ((putStrings copy (pairs args)).slots key)
      rw [putStrings_slots, putStrings_slots, msetSlot, msetSlot]
      by_cases member : key ∈ (pairs args).map fun pair => str pair.1
      · obtain ⟨value, put⟩ := lastPut_of_mem member
        obtain ⟨_, timeless, timeless'⟩ := (tracks key).steady (steady even key member)
        rw [put]
        refine Tracks.congr (.lasting : Tracks _ _ ⟨some (.string value), none, 0⟩
          ⟨some (.string value), none, 0⟩) rfl timeless' rfl timeless
      · rw [lastPut_of_notMem member]
        exact (tracks key).mono fun _ isStale => .inl isStale
  · rw [execMSet, if_pos even]
    exact follows_looked positive (fun key => .inl rfl) rfl

omit [Float64 F] in
theorem run_anyExists (env : Env F) (keys : List Bytes) (space : Space F) :
    ∃ found after, (lookup (anyExists keys)).run (dbHandle env) space = (.ok found, after) ∧
      Looked env.now space after ∧ after.logged = space.logged ∧
        (found = false ↔ ∀ key ∈ keys.map str, space.seen env.now key = none) ∧
          (found = false → ∀ key, after.slots key =
            if key ∈ keys.map str then (Look.exec env.now (space.slots key) .getEntity).slot
            else space.slots key) := by
  induction keys generalizing space with
  | nil => exact ⟨false, space, rfl, fun _ => .inl rfl, rfl, by simp, fun _ _ => rfl⟩
  | cons first rest ih =>
    have entered : (lookup (anyExists (first :: rest))).run (dbHandle env) space =
        (if (space.seen env.now (str first)).isSome then lookup (return true)
          else lookup (anyExists rest) : DbProg F Bool).run (dbHandle env)
            (dbHandle env (.look (str first) .getEntity) space).2 := by
      have entity := run_lookAt_getEntity env space (str first)
      unfold lookAt at entity
      rw [anyExists, lookup_bind, Prog.run_bind, entity]
      cases space.seen env.now (str first) with
      | none | some value => rfl
    have looked : Looked env.now space (dbHandle env (.look (str first) .getEntity) space).2 :=
      Looked.look (fun _ => .inl rfl) (str first)
    have unlogged := logged_of_look env (.look (str first) .getEntity) space trivial
    cases there : space.seen env.now (str first) with
    | some entry =>
      rw [there] at entered
      refine ⟨true, _, entered, looked, unlogged, ?_, fun impossible => Bool.noConfusion impossible⟩
      refine iff_of_false Bool.noConfusion fun unseen => ?_
      cases there.symm.trans (unseen _ mem_cons_self)
    | none =>
      rw [there] at entered
      obtain ⟨found, after, ended, further, logged, isFalse, slots⟩ :=
        ih (dbHandle env (.look (str first) .getEntity) space).2
      have still : ∀ key, (dbHandle env (.look (str first) .getEntity) space).2.seen env.now key =
          space.seen env.now key := seen_of_look env (.look (str first) .getEntity) space trivial
      refine ⟨found, after, entered.trans ended, looked.trans further, logged.trans unlogged,
        ?_, fun none_ key => ?_⟩
      · simp only [still] at isFalse
        rw [isFalse, map_cons, forall_mem_cons, and_iff_right there]
      · rw [slots none_ key, look_slots]
        by_cases isFirst : key = str first
        · subst isFirst
          rw [map_cons, if_pos rfl, if_pos mem_cons_self, look_look, ite_self]
        · simp only [isFirst, if_false, map_cons, mem_cons, false_or]

omit [Float64 F] in
theorem run_execMSetNX (even : args.length % 2 = 0) {space : Space F} {found : Bool}
    {reached : Space F}
    (searched : (lookup (anyExists ((pairs args).map Prod.fst))).run (dbHandle env) space =
      (.ok found, reached)) :
    (execMSetNX args).run (dbHandle env) space =
      if found then (.ok (.int 0), reached)
      else (.ok (.int 1), (putStrings reached (pairs args)).noteLine (toCmdLine "msetnx" args)) := by
  rw [execMSetNX, if_neg (not_not.mpr even), Prog.run_bind, searched]
  cases found with
  | true => rfl
  | false =>
    change (putAll (pairs args) >>= _).run (dbHandle env) reached = _
    rw [Prog.run_bind, run_putAll]
    rfl

omit [Float64 F] in
theorem run_execMSetNX_ends (even : args.length % 2 = 0) {space : Space F} :
    ∃ reply, ((execMSetNX args).run (dbHandle env) space).1 = .ok reply := by
  obtain ⟨found, _, searched, -⟩ := run_anyExists env ((pairs args).map Prod.fst) space
  rw [run_execMSetNX even searched]
  cases found with
  | true | false => exact ⟨_, rfl⟩

theorem follows_execMSetNX (positive : 0 < env.now)
    (counted : validateArity (command (F := F) .msetnx).arity (word :: args) = true) :
    Follows env.now before ((execMSetNX args).run (dbHandle env) before).2 stale
      (staleThen env.now before stale) := by
  by_cases even : args.length % 2 = 0
  · obtain ⟨found, reached, searched, looked, logged, isFalse, slots⟩ :=
      run_anyExists env ((pairs args).map Prod.fst) before
    rw [run_execMSetNX even searched]
    cases found with
    | true => exact follows_looked positive looked logged
    | false =>
      rw [if_neg Bool.false_ne_true]
      have enacts : DbEnacts (toCmdLine "msetnx" args) (execMSetNX args : DbProg F Reply) :=
        enacts_changeKeys rfl rfl rfl counted
      refine follows_one ?_ enacts fun env' copy from_ tracks key => ?_
      · rw [noteLine_logged, putStrings_logged, logged]
      · have unseen := isFalse.mp rfl
        have hidden : ∀ other ∈ ((pairs args).map Prod.fst).map str,
            (copy.slots other).Gone env'.now := fun other member =>
          (tracks other).hidden (unseen other member) positive from_
        obtain ⟨found', reached', searched', _, _, isFalse', slots'⟩ :=
          run_anyExists env' ((pairs args).map Prod.fst) copy
        have notFound : found' = false :=
          isFalse'.mpr fun other member => (hidden other member).seen
        rw [run_execMSetNX even searched', notFound]
        change Tracks _ _ ((putStrings reached (pairs args)).slots key)
          ((putStrings reached' (pairs args)).slots key)
        rw [putStrings_slots, putStrings_slots, slots rfl, slots' notFound, msetSlot, msetSlot]
        by_cases member : key ∈ (pairs args).map fun pair => str pair.1
        · have member' : key ∈ ((pairs args).map Prod.fst).map str := by
            rwa [map_map]
          obtain ⟨_, put⟩ := lastPut_of_mem member
          have gone := Slot.gone_of_unseen (tracks key).kept (unseen key member')
          rw [put, if_pos member', if_pos member', gone.removed.1,
            (hidden key member').removed.1]
          exact .lasting
        · have outside : key ∉ ((pairs args).map Prod.fst).map str := by
            rwa [map_map]
          rw [lastPut_of_notMem member, if_neg outside, if_neg outside]
          exact (tracks key).mono fun _ isStale => .inl isStale
  · rw [execMSetNX, if_pos even]
    exact follows_looked positive (fun key => .inl rfl) rfl

end Putting

/-! ## `RENAME` and `RENAMENX` -/

section Renaming

variable {env : Env F} {source dest : Key}

structure Renamed (source dest : Key) (before after : Space F) (value : Value F)
    (deadline : Option Int) : Prop where
  left : (after.slots source).value = none ∧ (after.slots source).deadline = none
  placed : (after.slots dest).value = some value ∧ (after.slots dest).deadline = deadline
  others : ∀ key, key ≠ source → key ≠ dest → after.slots key = before.slots key

variable {after before space : Space F} {value : Value F} {deadline : Option Int} {isStale : Prop}
  {live slot : Slot F}

theorem Renamed.moveDeadline {old : Option Int} (different : source ≠ dest)
    (renamed : Renamed source dest before after value old) (deadline : Option Int) :
    Renamed source dest before (after.moveDeadline source dest deadline) value
      (deadline.or old) := by
  cases deadline with
  | none => exact renamed
  | some deadline =>
    have slots := after.moveDeadline_slots different deadline
    refine ⟨?_, ?_, fun key notSource notDest => ?_⟩
    · rw [slots, if_neg different, if_pos rfl]
      exact ⟨renamed.left.1, rfl⟩
    · rw [slots, if_pos rfl]
      exact ⟨renamed.placed.1, rfl⟩
    · rw [slots, if_neg notDest, if_neg notSource]
      exact renamed.others key notSource notDest

theorem Renamed.noteLine (renamed : Renamed source dest before after value deadline) (line : Line) :
    Renamed source dest before (after.noteLine line) value deadline :=
  ⟨renamed.left, renamed.placed, renamed.others⟩

theorem renamed_move (different : source ≠ dest) (there : (space.slots source).value = some value) :
    Renamed source dest space (space.move source dest) value (space.slots dest).deadline := by
  have slots := space.move_slots different there
  refine ⟨?_, ?_, fun key notSource notDest => ?_⟩
  · rw [slots, if_pos rfl]
    exact ⟨rfl, rfl⟩
  · rw [slots, if_neg (Ne.symm different), if_pos rfl]
    exact ⟨rfl, rfl⟩
  · rw [slots, if_neg notSource, if_neg notDest]

theorem removeIfPresent_slots (space : Space F) (key : Key) :
    (space.removeIfPresent key).slots key = (space.slots key).removeIfPresent := by
  unfold Space.removeIfPresent Slot.removeIfPresent
  split
  · exact Space.write_slots_self _
  · rfl

theorem renamed_replace (different : source ≠ dest)
    (there : (space.slots source).value = some value) :
    Renamed source dest space (space.replace source dest) value
      (space.slots dest).removeIfPresent.deadline := by
  have cleared := removeIfPresent_slots space source
  have cleared' : ((space.removeIfPresent source).removeIfPresent dest).slots dest =
      (space.slots dest).removeIfPresent := by
    rw [removeIfPresent_slots, Space.removeIfPresent_slots_ne (Ne.symm different)]
  unfold Space.replace
  rw [there]
  refine ⟨?_, ?_, fun key notSource notDest => ?_⟩
  · rw [Space.act_slots_ne _ _ different, Space.removeIfPresent_slots_ne different, cleared,
      Slot.removeIfPresent, there]
    exact ⟨rfl, rfl⟩
  · have placed : ∀ (reached : Space F), (reached.act dest
        ((reached.slots dest).putEntity value)).2.slots dest =
          (reached.slots dest).withValue value := by
      intro reached
      rw [← putEntity_slot]
      exact Space.write_slots_self _
    rw [placed, cleared']
    exact ⟨rfl, rfl⟩
  · rw [Space.act_slots_ne _ _ notDest, Space.removeIfPresent_slots_ne notDest,
      Space.removeIfPresent_slots_ne notSource]

theorem removeIfPresent_look {now : Int} :
    (Look.exec now slot .getEntity).slot.removeIfPresent.deadline =
      slot.removeIfPresent.deadline := by
  obtain ⟨value, -, _⟩ := slot
  cases value with
  | none => rfl
  | some value =>
    dsimp only [Look.exec]
    split
    · rfl
    · rfl

theorem renamed_renameNx (env : Env F) (deadline : Option Int) (different : source ≠ dest)
    (there : (space.slots source).value = some value) (line : Line) :
    Renamed source dest space ((((dbHandle env (.look dest .getEntity) space).2.replace source
      dest).moveDeadline source dest deadline).noteLine line) value
        (deadline.or (space.slots dest).removeIfPresent.deadline) := by
  have there' : ((dbHandle env (.look dest .getEntity) space).2.slots source).value = some value := by
    rw [look_slots, if_neg different, there]
  have renamed := (((renamed_replace different there').moveDeadline different
    deadline).noteLine line)
  rw [look_slots, if_pos rfl, removeIfPresent_look] at renamed
  refine ⟨renamed.left, renamed.placed, fun key notSource notDest => ?_⟩
  rw [renamed.others key notSource notDest, look_slots, if_neg notDest]

theorem move_self (there : (space.slots source).value = some value) :
    ((space.move source source).slots source).value = none ∧
      ((space.move source source).slots source).deadline = none := by
  unfold Space.move
  rw [there]
  dsimp only [Space.act]
  rw [Space.write_slots_self]
  exact ⟨rfl, rfl⟩

theorem act_logged {α : Type} {key : Key} {effect : Effect F α} :
    (space.act key effect).2.logged = space.logged := by
  rw [Space.act, Space.write_logged, notes_lines, append_nil]

theorem move_logged : (space.move source dest).logged = space.logged := by
  unfold Space.move
  split
  · rfl
  · rw [act_logged, act_logged]

theorem replace_logged : (space.replace source dest).logged = space.logged := by
  have removed : ∀ (reached : Space F) key, (reached.removeIfPresent key).logged = reached.logged := by
    intro reached key
    unfold Space.removeIfPresent
    split
    · exact act_logged
    · rfl
  unfold Space.replace
  split
  · rfl
  · rw [act_logged, removed, removed]

theorem moveDeadline_logged : (space.moveDeadline source dest deadline).logged = space.logged := by
  have set : ∀ (reached : Space F) key deadline,
      (reached.withDeadline key deadline).logged = reached.logged :=
    fun reached key _ => (Space.write_logged _ _ _).trans (append_nil _)
  cases deadline with
  | none => rfl
  | some deadline => rw [Space.moveDeadline, set, set, set]

variable {stale stale' : Key → Prop} {before after copy copy' : Space F} {value : Value F} {now : Int}

theorem tracks_moved (tracks : TracksAll before stale now copy) (more : ∀ key, stale key → stale' key)
    (renamed : Renamed source dest before after value deadline)
    (left : (copy'.slots source).value = none ∧ (copy'.slots source).deadline = none)
    (placed : Tracks now (stale' dest) ⟨some value, deadline, 0⟩ (copy'.slots dest))
    (others : ∀ key, key ≠ source → key ≠ dest → copy'.slots key = copy.slots key) :
    TracksAll after stale' now copy' := by
  intro key
  by_cases isSource : key = source
  · subst isSource
    exact Tracks.congr (tracks_absent : Tracks _ _ ⟨none, none, 0⟩ ⟨none, none, 0⟩)
      renamed.left.1 renamed.left.2 left.1 left.2
  · by_cases isDest : key = dest
    · subst isDest
      exact placed.congr renamed.placed.1 renamed.placed.2 rfl rfl
    · rw [renamed.others key isSource isDest, others key isSource isDest]
      exact (tracks key).mono fun _ isStale => more key isStale

theorem tracks_renamed (tracks : TracksAll before stale now copy)
    (more : ∀ key, stale key → stale' key)
    (renamed : Renamed source dest before after value deadline)
    (renamed' : Renamed source dest copy copy' value (deadline.map wholeMillis)) :
    TracksAll after stale' now copy' := by
  refine tracks_moved tracks more renamed renamed'.left ?_ renamed'.others
  obtain ⟨isValue, isDeadline⟩ := renamed'.placed
  cases deadline with
  | none =>
    exact Tracks.congr (.lasting : Tracks _ _ ⟨some value, none, 0⟩ ⟨some value, none, 0⟩) rfl rfl
      isValue isDeadline
  | some deadline =>
    exact Tracks.congr (.due : Tracks _ _ ⟨some value, some deadline, 0⟩
      ⟨some value, some (wholeMillis deadline), 0⟩) rfl rfl isValue isDeadline

def EndsBy (deadline : Int) (slot : Slot F) : Prop :=
  slot.value = none ∨ ∃ other, slot.deadline = some other ∧ wholeMillis other ≤ wholeMillis deadline

theorem Tracks.endsBy {deadline : Int} (tracks : Tracks now isStale live slot)
    (ends : EndsBy deadline live) (past : wholeMillis deadline < now) : slot.Gone now := by
  cases tracks with
  | gone hidden left | ended past' hidden => exact hidden
  | lasting =>
    rcases ends with absent | ⟨_, isOther, _⟩
    · cases absent
    · cases isOther
  | due =>
    rcases ends with absent | ⟨_, isOther, le⟩
    · cases absent
    · cases isOther
      exact .past (le.trans_lt past)

def RenameLasts (stale : Key → Prop) (space : Space F) (source dest : Key) :
    Option Int → Prop
  | none => source = dest ∨ Steady (stale dest) (space.slots dest)
  | some deadline => source ≠ dest ∧ EndsBy deadline (space.slots dest)

theorem Tracks.seen_or_over (tracks : Tracks now isStale live slot)
    (isValue : live.value = some value) (isDeadline : live.deadline = deadline) :
    slot.seen now = some (value, deadline.map wholeMillis) ∨
      slot.Gone now ∧ ∃ time, deadline = some time ∧ wholeMillis time < now := by
  cases tracks with
  | gone hidden left => cases isValue
  | lasting =>
    cases isValue
    cases isDeadline
    exact .inl rfl
  | @due _ time _ version =>
    cases isValue
    cases isDeadline
    rcases Slot.seen_or_past value (wholeMillis time) version with past | there
    · exact .inr ⟨.past past, time, rfl, past⟩
    · refine .inl ?_
      unfold Slot.seen at there ⊢
      split
      · rename_i expired
        rw [if_pos expired] at there
        exact absurd rfl there
      · rfl
  | @ended _ time _ _ past hidden =>
    cases isDeadline
    exact .inr ⟨hidden, time, rfl, past⟩

/-- What renaming a key is for; the source may be the destination. -/
structure Moved (source dest : Key) (before after : Space F) (value : Value F)
    (deadline : Option Int) : Prop where
  left : source ≠ dest → (after.slots source).value = none
  placed : (after.slots dest).value = some value ∧ (after.slots dest).deadline = deadline
  others : ∀ key, key ≠ source → key ≠ dest → after.slots key = before.slots key

theorem Renamed.moved_iff {old : Option Int}
    (renamed : Renamed source dest before after value (deadline.or old)) :
    Moved source dest before after value deadline ↔ deadline = none → old = none := by
  have kept : deadline.or old = deadline ↔ (deadline = none → old = none) := by
    cases deadline with
    | none => simp
    | some deadline => simp
  rw [← kept]
  refine ⟨fun moved => renamed.placed.2.symm.trans moved.placed.2, fun same => ?_⟩
  exact ⟨fun _ => renamed.left.1, same ▸ renamed.placed, renamed.others⟩

/-- `RENAME` of a key to itself loses it, and otherwise the destination keeps its deadline if the
source has none; after `RENAMENX` only a deadline without a value is kept. -/
theorem rename_moves_iff (first second : Bytes)
    (there : space.seen env.now (str first) = some (value, deadline)) :
    let renamed := (execRename [first, second]).run (dbHandle env) space
    let ended := (execRenameNx [first, second]).run (dbHandle env) space
    (Moved (str first) (str second) space renamed.2 value deadline ↔
      str first ≠ str second ∧ (deadline = none → (space.slots (str second)).deadline = none)) ∧
    ((ended.1 = .ok (.int 1) → Moved (str first) (str second) space ended.2 value deadline) ∧
        (ended.1 = .ok (.int 0) → ended.2 = space) ↔
      (space.seen env.now (str second) = none → deadline = none →
        (space.slots (str second)).value = none → (space.slots (str second)).deadline = none)) := by
  obtain ⟨_, isValue, _⟩ := Slot.live_of_seen there
  constructor
  · rw [run_execRename there]
    by_cases same : str first = str second
    · rw [← same]
      refine iff_of_false (fun moved => ?_) fun apart => apart.1 rfl
      have lost : (((space.move (str first) (str first)).moveDeadline (str first) (str first)
          deadline).slots (str first)).value = none :=
        (Space.moveDeadline_value).trans (move_self isValue).1
      cases lost.symm.trans moved.placed.1
    · rw [(((renamed_move same isValue).moveDeadline same deadline).noteLine _).moved_iff,
        and_iff_right same]
  · by_cases free : space.seen env.now (str second) = none
    · have different : str first ≠ str second := fun same => by
        cases there.symm.trans (same ▸ free)
      have left : (space.slots (str second)).removeIfPresent.deadline = none ↔
          ((space.slots (str second)).value = none → (space.slots (str second)).deadline = none) := by
        unfold Slot.removeIfPresent
        cases (space.slots (str second)).value with
        | none => simp
        | some value => simp [Slot.remove]
      rw [run_execRenameNx [] free there, (renamed_renameNx env deadline different isValue _).moved_iff, left]
      exact ⟨fun moves _ => moves.1 rfl, fun timeless => ⟨fun _ => timeless free, by simp⟩⟩
    · rw [run_execRenameNx_taken free]
      exact iff_of_true ⟨by simp, fun _ => rfl⟩ fun unseen => absurd unseen free

theorem rename_moves_to_new_key :
    Moved (lit "k") (lit "l") oneString ((execRename [some (lit "k"), some (lit "l")]).run
      (dbHandle (Env.plain 0)) oneString).2 (.string (some (lit "v"))) (some 1) :=
  (rename_moves_iff (some (lit "k")) (some (lit "l")) rfl).1.mpr ⟨by decide, by simp⟩

theorem rename_to_itself_loses :
    oneString.seen 0 (lit "k") = some (.string (some (lit "v")), some 1) ∧
      ((execRename [some (lit "k"), some (lit "k")]).run (dbHandle (Env.plain 0)) oneString).2.seen
        0 (lit "k") = none :=
  ⟨rfl, rfl⟩

variable [Float64 F]

variable {word second : Bytes}

theorem follows_execRename (positive : 0 < env.now) {first : Bytes}
    (counted : validateArity (command (F := F) .rename).arity [word, first, second] = true)
    (lasts : ∀ value deadline, before.seen env.now (str first) = some (value, deadline) →
      RenameLasts stale before (str first) (str second) deadline) :
    Follows env.now before ((execRename [first, second]).run (dbHandle env) before).2 stale
      (staleThen env.now before stale) := by
  cases there : before.seen env.now (str first) with
  | none =>
    rw [run_execRename_absent there]
    exact follows_looked positive (Looked.look (fun _ => .inl rfl) _)
      (logged_of_look env (.look (str first) .getEntity) before trivial)
  | some entry =>
    obtain ⟨value, deadline⟩ := entry
    have lasts := lasts value deadline there
    obtain ⟨_, isValue, isDeadline⟩ := Slot.live_of_seen there
    rw [run_execRename there]
    have enacts : DbEnacts (toCmdLine "rename" [first, second])
        (execRename [first, second] : DbProg F Reply) := enacts_changeKeys rfl rfl rfl counted
    refine follows_one ?_ enacts fun env' copy from_ tracks => ?_
    · rw [noteLine_logged, moveDeadline_logged, move_logged]
    · rcases (tracks (str first)).seen_or_over isValue isDeadline with
        there' | ⟨gone, time, isTime, past⟩
      · rw [run_execRename there']
        obtain ⟨_, isValue', _⟩ := Slot.live_of_seen there'
        by_cases same : str first = str second
        · cases deadline with
          | some deadline => exact absurd same lasts.1
          | none =>
            intro key
            change Tracks _ _ ((before.move (str first) (str second)).slots key)
              ((copy.move (str first) (str second)).slots key)
            rw [← same]
            by_cases isFirst : key = str first
            · subst isFirst
              obtain ⟨left, timeless⟩ := move_self isValue
              obtain ⟨left', timeless'⟩ := move_self isValue'
              exact Tracks.congr (tracks_absent : Tracks _ _ ⟨none, none, 0⟩ ⟨none, none, 0⟩)
                left timeless left' timeless'
            · rw [Space.move_slots_ne _ isFirst isFirst, Space.move_slots_ne _ isFirst isFirst]
              exact (tracks key).mono fun _ isStale => .inl isStale
        · have renamed := (renamed_move same isValue).moveDeadline same deadline
          have renamed' := (renamed_move same isValue').moveDeadline same
            (deadline.map wholeMillis)
          have sameDeadline : (deadline.map wholeMillis).or (copy.slots (str second)).deadline =
              (deadline.or (before.slots (str second)).deadline).map wholeMillis := by
            cases deadline with
            | some deadline => rfl
            | none =>
              obtain ⟨_, timeless, timeless'⟩ :=
                (tracks (str second)).steady (lasts.resolve_left same)
              rw [timeless, timeless']
              rfl
          rw [sameDeadline] at renamed'
          exact tracks_renamed tracks (fun _ => .inl) (renamed.noteLine _) (renamed'.noteLine _)
      · subst isTime
        obtain ⟨different, ends⟩ := lasts
        rw [run_execRename_absent gone.seen]
        refine tracks_moved tracks (fun _ => .inl)
          (((renamed_move different isValue).moveDeadline different (some time)).noteLine _) ?_
          (.ended past ?_) fun key notSource _ => ?_
        · rw [look_slots, if_pos rfl, gone.removed.1]
          exact ⟨rfl, rfl⟩
        · rw [look_slots, if_neg (Ne.symm different)]
          exact (tracks (str second)).endsBy ends past
        · rw [look_slots, if_neg notSource]

theorem follows_execRenameNx (positive : 0 < env.now) {first : Bytes}
    (counted : validateArity (command (F := F) .renamenx).arity [word, first, second] = true) :
    Follows env.now before ((execRenameNx [first, second]).run (dbHandle env) before).2 stale
      (staleThen env.now before stale) := by
  have looked : ∀ key, Looked env.now before (dbHandle env (.look key .getEntity) before).2 :=
    fun key => Looked.look (fun _ => .inl rfl) key
  by_cases taken : before.seen env.now (str second) = none
  · cases there : before.seen env.now (str first) with
    | none =>
      rw [run_execRenameNx_absent [] taken there]
      refine follows_looked positive ((looked (str second)).look (str first)) ?_
      exact (logged_of_look env (.look (str first) .getEntity) _ trivial).trans
        (logged_of_look env (.look (str second) .getEntity) _ trivial)
    | some entry =>
      obtain ⟨_, deadline⟩ := entry
      have different : str first ≠ str second := fun same => by
        cases there.symm.trans (same ▸ taken)
      obtain ⟨_, isValue, isDeadline⟩ := Slot.live_of_seen there
      rw [run_execRenameNx [] taken there]
      have enacts : DbEnacts (toCmdLine "renamenx" [first, second])
          (execRenameNx [first, second] : DbProg F Reply) :=
        enacts_changeKeys rfl rfl rfl counted
      refine follows_one ?_ enacts fun env' copy from_ tracks => ?_
      · rw [noteLine_logged, moveDeadline_logged, replace_logged,
          logged_of_look env (.look (str second) .getEntity) _ trivial]
      · have renamed :=
          renamed_renameNx env deadline different isValue (toCmdLine "renamenx" [first, second])
        obtain ⟨_, isGone⟩ := Slot.removeIfPresent_of_kept (tracks (str second)).kept
        obtain ⟨_, isGone'⟩ := Slot.removeIfPresent_of_kept (tracks (str second)).kept_copy
        rw [isGone, Option.or_none] at renamed
        have free := (tracks (str second)).hidden taken positive from_
        rcases (tracks (str first)).seen_or_over isValue isDeadline with
          there' | ⟨gone, _, isTime, past⟩
        · rw [run_execRenameNx [] free.seen there']
          have renamed' := renamed_renameNx env' (deadline.map wholeMillis) different
            (Slot.live_of_seen there').2.1 (toCmdLine "renamenx" [first, second])
          rw [isGone', Option.or_none] at renamed'
          exact tracks_renamed tracks (fun _ => .inl) renamed renamed'
        · subst isTime
          rw [run_execRenameNx_absent [] free.seen gone.seen]
          refine tracks_moved tracks (fun _ => .inl) renamed ?_ (.ended past ?_)
            fun key notSource notDest => ?_
          · rw [look_slots, if_pos rfl, look_slots, if_neg different, gone.removed.1]
            exact ⟨rfl, rfl⟩
          · rw [look_slots, if_neg (Ne.symm different), look_slots, if_pos rfl, free.removed.1]
            exact Slot.gone_remove
          · rw [look_slots, if_neg notSource, look_slots, if_neg notDest]
  · rw [run_execRenameNx_taken taken]
    exact follows_looked positive (fun key => .inl rfl) rfl

end Renaming

end Godis.Database
