import Godis.Aof.SelfLogging

/-!
# Replaying the append only file

The lines the collection commands log, executed once more from an empty database, rebuild the
data, as long as every command is one that can be repeated.
-/

namespace Godis.Database

open Golang Program List
open Prog (andThen_ok run_bind)

namespace Space

variable {F : Type}

def Timeless (space : Space F) : Prop :=
  ∀ key, (space.slots key).deadline = none

def values (space : Space F) (key : Key) : Option (Value F) :=
  (space.slots key).value

variable {space : Space F} {state : SlotState F}

theorem Timeless.read (timeless : space.Timeless) (key : Key) :
    space.read key = ⟨⟨(space.slots key).value, none, (space.slots key).version⟩, []⟩ := by
  rw [Space.read, ← timeless key]

theorem Timeless.live (timeless : space.Timeless) (key : Key) (now : Int) :
    (space.slots key).Live now :=
  Slot.live_of_none (timeless key)

theorem Timeless.write (timeless : space.Timeless) (key : Key) (kept : state.slot.deadline = none) :
    (space.write key state).Timeless := by
  intro other
  rw [write_slots]
  split
  · exact kept
  · exact timeless other

theorem write_values {key : Key} :
    (space.write key state).values = Function.update space.values key state.slot.value := by
  funext other
  rw [values, write_slots, Function.update_apply]
  split
  · rfl
  · rfl

theorem write_values_self {key : Key} (kept : state.slot.value = space.values key) :
    (space.write key state).values = space.values := by
  rw [write_values, kept, Function.update_eq_self]

theorem addVersion_values {keys : List Key} : (space.addVersion keys).values = space.values :=
  funext fun other => (space.addVersion_slot keys other).1

theorem addVersion_timeless (timeless : space.Timeless) {keys : List Key} :
    (space.addVersion keys).Timeless :=
  fun other => (space.addVersion_slot keys other).2.trans (timeless other)

end Space

section Steps

variable {F : Type} {env : Env F}

/-- The program logs nothing and leaves the values, or it logs the line and does the same again
on a copy of the data. -/
def Repeated (env : Env F) (line : Line) (program : DbProg F Reply) (space : Space F) : Prop :=
  (program.run (dbHandle env) space).2.Timeless ∧
    ((program.run (dbHandle env) space).2.logged = space.logged ∧
        (program.run (dbHandle env) space).2.values = space.values ∨
      (program.run (dbHandle env) space).2.logged = space.logged ++ [line] ∧
        ∀ env' copy, copy.Timeless → copy.values = space.values →
          (program.run (dbHandle env') copy).2.Timeless ∧
            (program.run (dbHandle env') copy).2.values = (program.run (dbHandle env) space).2.values)

variable {line : Line} {space : Space F} {α : Type}

theorem repeated_onKey {program : SlotProg F Reply} {key : Key} (timeless : space.Timeless)
    (logs : LogsItself env line program (space.slots key).value) :
    Repeated env line (onKey key program) space := by
  unfold Repeated
  rw [run_onKey, timeless.read]
  rcases logs with quiet | ⟨_, logs⟩
  · obtain ⟨slot, lines⟩ := quiet (space.slots key).version
    refine ⟨timeless.write key (by rw [slot]), .inl ⟨?_, Space.write_values_self (by rw [slot]; rfl)⟩⟩
    rw [Space.write_logged, lines, append_nil]
  · obtain ⟨slot, lines⟩ := logs env (space.slots key).version
    refine ⟨timeless.write key (by rw [slot]), .inr ⟨?_, fun env' copy timeless' same => ?_⟩⟩
    · rw [Space.write_logged, lines]
    · obtain ⟨slot', _⟩ := logs env' (copy.slots key).version
      have sameValue : (copy.slots key).value = (space.slots key).value := congrFun same key
      rw [run_onKey, timeless'.read, sameValue]
      refine ⟨timeless'.write key (by rw [slot']), ?_⟩
      rw [Space.write_values, Space.write_values, slot, slot', same]

def Plain : DbOp F → Prop
  | .look _ .getEntity => True
  | .look _ .peek => True
  | .change _ (.put _) => True
  | .change _ (.mutate _) => True
  | .change _ .remove => True
  | .log _ => True
  | _ => False

def Alike (first second : Space F) : Prop :=
  first.Timeless ∧ second.Timeless ∧ first.values = second.values

theorem alike_act {first second : Space F} (alike : Alike first second) {key : Key}
    {effect effect' : Effect F α} (value : effect.slot.value = effect'.slot.value)
    (deadline : effect.slot.deadline = none) (deadline' : effect'.slot.deadline = none) :
    Alike (first.act key effect).2 (second.act key effect').2 :=
  ⟨alike.1.write key deadline, alike.2.1.write key deadline', by
    simp only [Space.act, Space.write_values, value, alike.2.2]⟩

theorem alike_plain {env env' : Env F} (op : DbOp F) (first second : Space F) (plain : Plain op)
    (alike : Alike first second) :
    (dbHandle env op first).1 = (dbHandle env' op second).1 ∧
      Alike (dbHandle env op first).2 (dbHandle env' op second).2 := by
  have ⟨timeless, timeless', same⟩ := alike
  have read (key : Key) : ∃ value version version',
      first.slots key = ⟨value, none, version⟩ ∧ second.slots key = ⟨value, none, version'⟩ := by
    refine ⟨(first.slots key).value, (first.slots key).version, (second.slots key).version, ?_, ?_⟩
    · rw [← timeless key]
    · rw [show (first.slots key).value = (second.slots key).value from congrFun same key,
        ← timeless' key]
  cases op with
  | look key method =>
    obtain ⟨value, _, _, is, is'⟩ := read key
    simp only [dbHandle, is, is']
    cases method with
    | getEntity => cases value <;> exact ⟨rfl, alike_act alike rfl rfl rfl⟩
    | peek => exact ⟨rfl, alike_act alike rfl rfl rfl⟩
    | isExpired | deadline | version => cases plain
  | change key method =>
    obtain ⟨value, _, _, is, is'⟩ := read key
    simp only [dbHandle, is, is']
    cases method with
    | put new => cases value <;> exact ⟨rfl, alike_act alike rfl rfl rfl⟩
    | mutate new | remove => exact ⟨rfl, alike_act alike rfl rfl rfl⟩
    | extend bytes | putIfAbsent new | putIfExists new | expire deadline | persist => cases plain
  | log line => exact ⟨rfl, timeless, timeless', same⟩
  | move source dest | replace source dest | survey question | ask question => cases plain

theorem repeated_of_plain {program : DbProg F Reply} (timeless : space.Timeless)
    (plain : program.Uses Plain)
    (logs : (program.run (dbHandle env) space).2.logged = space.logged ∧
        (program.run (dbHandle env) space).2.values = space.values ∨
      (program.run (dbHandle env) space).2.logged = space.logged ++ [line]) :
    Repeated env line program space := by
  have again (env' : Env F) (copy : Space F) (alike : Alike copy space) :
      Alike (program.run (dbHandle env') copy).2 (program.run (dbHandle env) space).2 :=
    (plain.run_related Alike alike_plain alike).2
  refine ⟨(again env space ⟨timeless, timeless, rfl⟩).1, ?_⟩
  rcases logs with quiet | logged
  · exact .inl quiet
  · refine .inr ⟨logged, fun env' copy timeless' same => ?_⟩
    obtain ⟨stillTimeless, _, stillSame⟩ := again env' copy ⟨timeless', timeless, same⟩
    exact ⟨stillTimeless, stillSame⟩

/-! ## Commands for several keys -/

def DbLook.IsEntity : DbLook F → Prop
  | .look _ .getEntity => True
  | _ => False

variable (key : Key)

theorem entity_getAs (view : Value F → Option α) :
    (readAt key (getAs view)).Uses DbLook.IsEntity := by
  have entity : (getEntity : SlotReader F (Option (Value F))).Uses (· = .look .getEntity) :=
    Prog.uses_ask.mpr rfl
  have one : (getAs view).Uses (· = .look .getEntity) := by
    refine entity.bind fun found => ?_
    cases found with
    | none => trivial
    | some value =>
      dsimp only
      cases view value with
      | none | some data => trivial
  exact one.translate fun _ isEntity => by rw [isEntity]; trivial

theorem plain_lookup {program : DbReader F α} (uses : program.Uses DbLook.IsEntity) :
    (lookup program).Uses Plain := by
  refine uses.translate fun op isEntity => ?_
  cases op with
  | look key method =>
    cases method with
    | getEntity => trivial
    | _ => cases isEntity
  | _ => cases isEntity

theorem uses_getAs (view : Value F → Option α) :
    (lookAt key (getAs view)).Uses Plain :=
  plain_lookup (entity_getAs key view)

theorem uses_getOrInit {view : Value F → Option α} {make : α → Value F} {initial : α} :
    (onKey key (getOrInit view make initial)).Uses Plain := by
  rw [getOrInit, onKey_bind, ← lookAt_eq_onKey]
  refine (uses_getAs key view).bind fun found => ?_
  rcases found with - | _ | _
  · trivial
  · exact ⟨trivial, fun _ => trivial⟩
  · trivial

theorem uses_listNow : (lookAt key listNow : DbProg F (List Bytes)).Uses Plain := by
  refine ⟨trivial, fun answer => ?_⟩
  match answer with
  | none | some (.list _) | some (.string _) | some (.hash _) | some (.set _) | some (.zset _) =>
    trivial

theorem uses_mutate {value : Value F} : (onKey key (mutate value)).Uses Plain :=
  ⟨trivial, fun _ => trivial⟩

variable (args : List Bytes)

theorem uses_execRPopLPush :
    (execRPopLPush args : DbProg F Reply).Uses Plain := by
  unfold execRPopLPush
  split
  · refine (uses_getAs _ _).bind fun list => ?_
    match list with
    | .error reply => trivial
    | .ok none => trivial
    | .ok (some elements) =>
      refine (uses_getOrInit _).bind fun created => ?_
      match created with
      | .error reply => trivial
      | .ok _ =>
        refine (uses_mutate _).bind fun _ => (uses_listNow _).bind fun destination =>
          (uses_mutate _).bind fun _ => (uses_listNow _).bind fun left => ?_
        split
        · exact ⟨trivial, fun _ => ⟨trivial, fun _ => trivial⟩⟩
        · exact ⟨trivial, fun _ => trivial⟩
  · trivial

def elementsOf : Option (Value F) → List Bytes
  | some (.list elements) => elements
  | _ => []

theorem run_listNow {slot : Slot F} :
    (look listNow).run (slotHandle env) ⟨slot, []⟩ = (.ok (elementsOf slot.value), ⟨slot, []⟩) := by
  obtain ⟨value, -, _⟩ := slot
  match value with
  | none | some (.list _) | some (.string _) | some (.hash _) | some (.set _) | some (.zset _) =>
    rfl

theorem run_lookAt_listNow {key : Key} :
    (lookAt key listNow).run (dbHandle env) space =
      (.ok (elementsOf (space.slots key).value), space) := by
  rw [lookAt_eq_onKey, run_onKey, Space.read, run_listNow]
  exact Prod.ext rfl (space.write_read key)

theorem run_getOrInitList (timeless : space.Timeless) {key : Key} :
    (onKey key getOrInitList).run (dbHandle env) space = (.ok (.error .wrongTypeErr), space) ∨
      ∃ elements reached, reached.logged = space.logged ∧
        (onKey key getOrInitList).run (dbHandle env) space = (.ok (.ok elements), reached) := by
  have same := space.write_read key
  rw [run_onKey, timeless.read] at *
  match (space.slots key).value, same with
  | none, _ =>
    refine .inr ⟨[], _, ?_, rfl⟩
    exact (Space.write_logged _ _ _).trans (append_nil _)
  | some (.list elements), same => exact .inr ⟨elements, space, rfl, Prod.ext rfl same⟩
  | some (.string _), same | some (.hash _), same | some (.set _), same | some (.zset _), same =>
    exact .inl (Prod.ext rfl same)

theorem logs_execRPopLPush (space : Space F) (timeless : space.Timeless) :
    ((execRPopLPush args).run (dbHandle env) space).2.logged = space.logged ∧
        ((execRPopLPush args).run (dbHandle env) space).2.values = space.values ∨
      ((execRPopLPush args).run (dbHandle env) space).2.logged =
        space.logged ++ [toCmdLine "rpoplpush" args] := by
  unfold execRPopLPush
  split
  · rename_i source dest more
    rw [run_bind, getAsList, run_lookAt_getAs (timeless.live _ _), andThen_ok]
    match viewed Value.asList (space.slots (str source)).value with
    | .error reply => exact .inl ⟨rfl, rfl⟩
    | .ok none => exact .inl ⟨rfl, rfl⟩
    | .ok (some elements) =>
      rw [run_bind]
      rcases run_getOrInitList timeless with wrong | ⟨_, _, logged, created⟩
      · rw [wrong]
        exact .inl ⟨rfl, rfl⟩
      · rw [created]
        simp only [andThen_ok, run_bind, run_onKey, Space.read, run_mutate,
          run_lookAt_listNow]
        refine .inr ?_
        split
        · rw [run_bind, run_onKey, Space.read, run_remove]
          refine (Space.log_logged _ _).trans ?_
          simp [SlotState.lines, SlotEvent.line, logged]
        · refine (Space.log_logged _ _).trans ?_
          simp [SlotState.lines, SlotEvent.line, logged]
  · exact .inl ⟨rfl, rfl⟩

def membersOf (values : Key → Option (Value F)) (key : Bytes) : Finset Str :=
  match values (str key) with
  | some (.set members) => members
  | _ => ∅

def SomeNotSet (values : Key → Option (Value F)) (keys : List Bytes) : Prop :=
  ∃ key ∈ keys, ∃ held, values (str key) = some held ∧ held.asSet = none

theorem viewed_asSet (values : Key → Option (Value F)) {key : Bytes} :
    viewed Value.asSet (values (str key)) = .error .wrongTypeErr ∨
      ∃ members, viewed Value.asSet (values (str key)) = .ok members ∧
        members.getD ∅ = membersOf values key ∧
          ∀ held, values (str key) = some held → held.asSet ≠ none := by
  unfold membersOf
  match values (str key) with
  | none => exact .inr ⟨none, rfl, rfl, fun _ => nofun⟩
  | some (.set members) =>
    refine .inr ⟨some members, rfl, rfl, ?_⟩
    rintro _ ⟨⟩
    exact Option.some_ne_none members
  | some (.string _) | some (.list _) | some (.hash _) | some (.zset _) => exact .inl rfl

theorem run_getSets (timeless : space.Timeless) {keys : List Bytes} :
    (∃ reply, (lookup (getSets keys)).run (dbHandle env) space = (.ok (.error reply), space)) ∨
      (lookup (getSets keys)).run (dbHandle env) space =
        (.ok (.ok (keys.map (membersOf space.values))), space) ∧ ¬ SomeNotSet space.values keys := by
  induction keys with
  | nil => exact .inr ⟨rfl, nofun⟩
  | cons key rest ih =>
    rw [getSets, lookup_bind, run_bind]
    change (∃ reply, Prog.andThen ((lookAt (str key) getAsSet).run (dbHandle env) space) _ = _) ∨
      Prog.andThen ((lookAt (str key) getAsSet).run (dbHandle env) space) _ = _ ∧ _
    rw [getAsSet, run_lookAt_getAs (timeless.live _ _)]
    change (∃ reply, Prog.andThen (.ok (viewed Value.asSet (space.values (str key))), space) _ =
      _) ∨ Prog.andThen (.ok (viewed Value.asSet (space.values (str key))), space) _ = _ ∧ _
    rcases viewed_asSet space.values with wrong | ⟨_, seen, are, isSet⟩
    · rw [wrong]
      exact .inl ⟨_, rfl⟩
    · rw [seen]
      simp only [andThen_ok, lookup_bind, run_bind]
      rcases ih with ⟨reply, run⟩ | ⟨run, allSets⟩
      · rw [run]
        exact .inl ⟨reply, rfl⟩
      · rw [run, are]
        refine .inr ⟨rfl, ?_⟩
        rintro ⟨other, member, held, holds, notSet⟩
        rcases mem_cons.mp member with rfl | later
        · exact isSet held holds notSet
        · exact allSets ⟨other, later, held, holds, notSet⟩

theorem run_getNonEmptySets (timeless : space.Timeless) {empty : Reply} {keys : List Bytes} :
    ∃ result, (lookup (getNonEmptySets empty keys)).run (dbHandle env) space =
      (.ok result, space) := by
  induction keys with
  | nil => exact ⟨_, rfl⟩
  | cons key rest ih =>
    rw [getNonEmptySets, lookup_bind, run_bind]
    change ∃ result, Prog.andThen ((lookAt (str key) getAsSet).run (dbHandle env) space) _ = _
    rw [getAsSet, run_lookAt_getAs (timeless.live _ _), andThen_ok]
    cases viewed Value.asSet (space.slots (str key)).value with
    | error reply => exact ⟨_, rfl⟩
    | ok members =>
      dsimp only
      split
      · exact ⟨_, rfl⟩
      · obtain ⟨sets, run⟩ := ih
        rw [lookup_bind, run_bind, run]
        cases sets with
        | error reply | ok sets => exact ⟨_, rfl⟩

theorem repeated_execSInterStore (timeless : space.Timeless) :
    Repeated env (toCmdLine "sinterstore" args) (execSInterStore args) space := by
  unfold execSInterStore
  split
  · rename_i dest keys
    refine repeated_of_plain timeless ((plain_lookup
      (uses_getNonEmptySets fun _ _ => entity_getAs _ _)).bind fun sets => ?_) ?_
    · cases sets with
      | error reply => trivial
      | ok sets => exact ⟨trivial, fun _ => ⟨trivial, fun _ => trivial⟩⟩
    · obtain ⟨result, run⟩ := run_getNonEmptySets timeless
      rw [run_bind, run, andThen_ok]
      cases result with
      | error reply => exact .inl ⟨rfl, rfl⟩
      | ok sets =>
        refine .inr ?_
        rw [run_onKey, timeless.read, Space.write_logged]
        cases (space.slots (str dest)).value with
        | none | some held => rfl
  · exact repeated_of_plain timeless trivial (.inl ⟨rfl, rfl⟩)

/-- The destination is removed first, so a result that is empty has to meet no key there. -/
theorem repeated_storeSet {name : String} {combine : List (Finset Str) → Finset Str} {dest : Bytes}
    {keys : List Bytes} (timeless : space.Timeless)
    (keeps : space.values (str dest) = none ∨ SomeNotSet space.values keys ∨
      combine (keys.map (membersOf space.values)) ≠ ∅) :
    Repeated env (toCmdLine name (dest :: keys)) (storeSet name combine (dest :: keys)) space := by
  dsimp only [storeSet]
  refine repeated_of_plain timeless ((plain_lookup
    (uses_getSets fun _ _ => entity_getAs _ _)).bind fun sets => ?_) ?_
  · cases sets with
    | error reply => trivial
    | ok sets =>
      dsimp only
      split
      · exact ⟨trivial, fun _ => trivial⟩
      · exact ⟨trivial, fun _ => ⟨trivial, fun _ => ⟨trivial, fun _ => trivial⟩⟩⟩
  · rw [run_bind]
    rcases run_getSets timeless with ⟨_, run⟩ | ⟨run, allSets⟩
    · rw [run]
      exact .inl ⟨rfl, rfl⟩
    · rw [run, andThen_ok]
      rw [run_onKey]
      split
      · rename_i zero
        have absent : space.values (str dest) = none :=
          keeps.resolve_right (not_or.mpr ⟨allSets, not_not.mpr (Finset.card_eq_zero.mp zero)⟩)
        exact .inl ⟨(Space.write_logged _ _ _).trans (append_nil _),
          Space.write_values_self absent.symm⟩
      · exact .inr (Space.write_logged _ _ _)

theorem repeated_execRPopLPush (timeless : space.Timeless) :
    Repeated env (toCmdLine "rpoplpush" args) (execRPopLPush args) space :=
  repeated_of_plain timeless (uses_execRPopLPush args) (logs_execRPopLPush args space timeless)

end Steps

/-! ## The collection commands -/

/-- The write commands for lists, hashes, sets, sorted sets and locations. -/
def Name.isCollectionWrite : Name → Bool
  | .lpush | .lpushx | .rpush | .rpushx | .lpop | .rpop | .rpoplpush | .lrem | .lset | .ltrim
  | .linsert | .hset | .hsetnx | .hdel | .hmset | .hincrby | .hincrbyfloat | .sadd | .srem | .spop
  | .sinterstore | .sunionstore | .sdiffstore | .zadd | .zincrby | .zpopmin | .zrem
  | .zremrangebyscore | .zremrangebyrank | .zremrangebylex | .geoadd => true
  | _ => false

section Commands

variable {F : Type} [Float64 F] {env : Env F}

/-- The command changes nothing without logging it, and nothing that a repetition would not
change in the same way.  No score may be NaN. -/
def Repeatable (env : Env F) (values : Key → Option (Value F)) : Name → List Bytes → Prop
  | .lrem, key :: rawCount :: _ =>
    values (str key) = some (.list []) →
      ∀ count, parseInt (str rawCount) = .ok count → count = 0
  | .hdel, key :: _ => values (str key) ≠ some (.hash ∅)
  | .srem, key :: _ => values (str key) ≠ some (.set ∅)
  | .spop, key :: more =>
    ∀ members count, values (str key) = some (.set members) →
      spopCount (key :: more) = some count → (members.card : Int) ≤ count
  | .sunionstore, dest :: keys =>
    values (str dest) = none ∨ SomeNotSet values keys ∨
      union (keys.map (membersOf values)) ≠ ∅
  | .sdiffstore, dest :: keys =>
    values (str dest) = none ∨ SomeNotSet values keys ∨
      diff (keys.map (membersOf values)) ≠ ∅
  | .zadd, _ :: more => ∀ pair ∈ pairs more, Float64.parse (str pair.1) ≠ some (none : Option F)
  | .zincrby, key :: rawDelta :: member :: _ =>
    Float64.parse (str rawDelta) ≠ some (none : Option F) ∧
      ∀ scores score delta, values (str key) = some (.zset scores) →
        scores.lookup (str member) = some score →
          Float64.parse (str rawDelta) = some (some delta) → Float64.add score delta ≠ none
  | .zremrangebylex, [key, rawMin, rawMax] =>
    ∀ scores, values (str key) = some (.zset scores) →
      NoneInLexRange env scores rawMin rawMax
  | _, _ => True

variable {space : Space F}

omit [Float64 F] in
theorem repeated_changeKey {body : List Bytes → SlotProg F Reply} {name : String}
    {args : List Bytes} (timeless : space.Timeless) {execWithLock : Line → DbProg F Reply}
    (logs : ∀ key more, args = key :: more → LogsItself env (toCmdLine name (key :: more))
      (body (key :: more)) (space.slots (str key)).value) :
    Repeated env (toCmdLine name args) ((Executor.changeKey body).run execWithLock args) space := by
  cases args with
  | nil => exact repeated_of_plain timeless trivial (.inl ⟨rfl, rfl⟩)
  | cons key more => exact repeated_onKey timeless (logs key more rfl)

omit [Float64 F] in
theorem logsItself_stop {line : Line} {reason : Stop} {value : Option (Value F)} :
    LogsItself env line (.stop reason) value :=
  .inl fun _ => ⟨rfl, rfl⟩

variable (name : Name)

theorem repeated_command (collection : name.isCollectionWrite) (args : List Bytes)
    (execWithLock : Line → DbProg F Reply) (timeless : space.Timeless)
    (repeatable : Repeatable env space.values name args) :
    Repeated env (toCmdLine name.text args) ((command name).executor.run execWithLock args)
      space := by
  cases name with
  | lpush =>
    exact repeated_changeKey timeless fun key more _ => logsItself_execLPush
  | rpush =>
    exact repeated_changeKey timeless fun key more _ => logsItself_execRPush
  | lpushx =>
    exact repeated_changeKey timeless fun key more _ =>
      logsItself_pushIfExists
  | rpushx =>
    exact repeated_changeKey timeless fun key more _ => logsItself_execRPushX
  | lpop => exact repeated_changeKey timeless fun key more _ => logsItself_execLPop
  | rpop => exact repeated_changeKey timeless fun key more _ => logsItself_execRPop
  | rpoplpush => exact repeated_execRPopLPush args timeless
  | lrem =>
    refine repeated_changeKey timeless fun key more is => ?_
    subst is
    match more with
    | rawCount :: element :: more => exact logsItself_execLRem repeatable
    | [] | [_] => exact logsItself_stop
  | lset =>
    refine repeated_changeKey timeless fun key more _ => ?_
    match more with
    | rawIndex :: element :: more => exact logsItself_execLSet
    | [] | [_] => exact logsItself_stop
  | ltrim => exact repeated_changeKey timeless fun key more _ => logsItself_execLTrim
  | linsert => exact repeated_changeKey timeless fun key more _ => logsItself_execLInsert
  | hset =>
    refine repeated_changeKey timeless fun key more _ => ?_
    match more with
    | field :: text :: more => exact logsItself_execHSet
    | [] | [_] => exact logsItself_stop
  | hsetnx =>
    refine repeated_changeKey timeless fun key more _ => ?_
    match more with
    | field :: text :: more => exact logsItself_execHSetNX
    | [] | [_] => exact logsItself_stop
  | hdel =>
    refine repeated_changeKey timeless fun key more is => ?_
    subst is
    exact logsItself_execHDel repeatable
  | hmset => exact repeated_changeKey timeless fun key more _ => logsItself_execHMSet
  | hincrby =>
    refine repeated_changeKey timeless fun key more _ => ?_
    match more with
    | field :: rawDelta :: more => exact logsItself_addToField
    | [] | [_] => exact logsItself_stop
  | hincrbyfloat =>
    refine repeated_changeKey timeless fun key more _ => ?_
    match more with
    | field :: rawDelta :: more => exact logsItself_addToField
    | [] | [_] => exact logsItself_stop
  | sadd => exact repeated_changeKey timeless fun key more _ => logsItself_execSAdd
  | srem =>
    refine repeated_changeKey timeless fun key more is => ?_
    subst is
    exact logsItself_execSRem repeatable
  | spop =>
    refine repeated_changeKey timeless fun key more is => ?_
    subst is
    exact logsItself_execSPop repeatable
  | sinterstore => exact repeated_execSInterStore args timeless
  | sunionstore =>
    cases args with
    | nil => exact repeated_of_plain timeless trivial (.inl ⟨rfl, rfl⟩)
    | cons dest keys => exact repeated_storeSet timeless repeatable
  | sdiffstore =>
    cases args with
    | nil => exact repeated_of_plain timeless trivial (.inl ⟨rfl, rfl⟩)
    | cons dest keys => exact repeated_storeSet timeless repeatable
  | zadd => exact repeated_changeKey timeless fun key more _ => logsItself_execZAdd
  | zincrby =>
    refine repeated_changeKey timeless fun key more is => ?_
    subst is
    match more with
    | rawDelta :: member :: more =>
      exact logsItself_execZIncrBy repeatable.1 repeatable.2
    | [] | [_] => exact logsItself_stop
  | zpopmin =>
    exact repeated_changeKey timeless fun key more _ => logsItself_execZPopMin
  | zrem => exact repeated_changeKey timeless fun key more _ => logsItself_execZRem
  | zremrangebyscore =>
    exact repeated_changeKey timeless fun key more _ => logsItself_execZRemRangeByScore
  | zremrangebyrank =>
    refine repeated_changeKey timeless fun key more _ => ?_
    match more with
    | rawStart :: rawStop :: more =>
      exact logsItself_execZRemRangeByRank
    | [] | [_] => exact logsItself_stop
  | zremrangebylex =>
    refine repeated_changeKey timeless fun key more is => ?_
    subst is
    refine logsItself_execZRemRangeByLex ?_
    rintro _ _ _ scores ⟨⟩ holds
    exact repeatable scores holds
  | geoadd => exact repeated_changeKey timeless fun key more _ => logsItself_execGeoAdd
  | _ => cases collection

theorem run_collection (collection : name.isCollectionWrite) (args : List Bytes)
    (first second : Line → DbProg F Reply) :
    (command (F := F) name).executor.run first args =
      (command (F := F) name).executor.run second args := by
  cases name with
  | lpush | lpushx | rpush | rpushx | lpop | rpop | rpoplpush | lrem | lset | ltrim
  | linsert | hset | hsetnx | hdel | hmset | hincrby | hincrbyfloat | sadd | srem | spop
  | sinterstore | sunionstore | sdiffstore | zadd | zincrby | zpopmin | zrem
  | zremrangebyscore | zremrangebyrank | zremrangebylex | geoadd => cases args <;> rfl
  | _ => cases collection

theorem prepare_collection (collection : name.isCollectionWrite) :
    ∃ prepare, (command (F := F) name).prepare = some prepare := by
  cases name with
  | lpush | lpushx | rpush | rpushx | lpop | rpop | rpoplpush | lrem | lset | ltrim
  | linsert | hset | hsetnx | hdel | hmset | hincrby | hincrbyfloat | sadd | srem | spop
  | sinterstore | sunionstore | sdiffstore | zadd | zincrby | zpopmin | zrem
  | zremrangebyscore | zremrangebyrank | zremrangebylex | geoadd => exact ⟨_, rfl⟩
  | _ => cases collection

/-! ## Runs -/

/-- The call is a collection command that can be repeated. -/
def OrderlyCall (space : Space F) (call : Call F) : Prop :=
  ∃ word args name, call.line = word :: args ∧ Name.ofText (toLower (str word)) = some name ∧
    name.isCollectionWrite ∧ Repeatable call.env space.values name args

def OrderlyRun : Space F → List (Call F) → Prop
  | _, [] => True
  | space, call :: rest => OrderlyCall space call ∧ OrderlyRun (call.exec space) rest

theorem exec_orderly (timeless : space.Timeless) {call : Call F} (orderly : OrderlyCall space call) :
    (call.exec space).Timeless ∧
      ((call.exec space).logged = space.logged ∧ (call.exec space).values = space.values ∨
        ∃ line, (call.exec space).logged = space.logged ++ [line] ∧
          ∀ (again : Call F) (copy : Space F), again.line = line → copy.Timeless →
            copy.values = space.values →
              (again.exec copy).Timeless ∧ (again.exec copy).values = (call.exec space).values) := by
  obtain ⟨word, args, name, line, known, collection, repeatable⟩ := orderly
  obtain ⟨prepare, prepared⟩ := prepare_collection (F := F) name collection
  by_cases arity : validateArity (command (F := F) name).arity (word :: args)
  · have executed (again : Call F) (copy : Space F) (word' : Bytes)
        (line' : again.line = word' :: args)
        (known' : Name.ofText (toLower (str word')) = some name) :
        again.exec copy = (((command name).executor.run (fun _ => .stop .panic) args).run
          (dbHandle again.env) (copy.addVersion (prepare args).1)).2 := by
      have sameArity : validateArity (command (F := F) name).arity (word' :: args) := arity
      simp only [Call.exec, execNormalCommand, line', known', sameArity, if_true, prepared]
      rw [run_collection name collection]
    rw [executed call space word line known]
    have unchanged : (space.addVersion (prepare args).1).values = space.values :=
      Space.addVersion_values
    have repeated := repeated_command name collection args (fun _ => .stop .panic)
      (Space.addVersion_timeless timeless) (unchanged.symm ▸ repeatable)
    have sameLog : (space.addVersion (prepare args).1).logged = space.logged := by
      rw [Space.logged, Space.addVersion_events, Space.logged]
    rw [Repeated, sameLog, unchanged] at repeated
    refine ⟨repeated.1, ?_⟩
    rcases repeated.2 with quiet | ⟨logged, again⟩
    · exact .inl quiet
    · refine .inr ⟨_, logged, fun second copy line' timeless' same => ?_⟩
      rw [executed second copy _ line' (Name.ofText_text)]
      exact again second.env _ (Space.addVersion_timeless timeless')
        ((Space.addVersion_values).trans same)
  · have refused : call.exec space = space := by
      simp only [Call.exec, execNormalCommand, line, known, arity]
      rfl
    rw [refused]
    exact ⟨timeless, .inl ⟨rfl, rfl⟩⟩

theorem replay_orderly (timeless : space.Timeless) {calls : List (Call F)}
    (orderly : OrderlyRun space calls) :
    ∃ lines, (runCalls space calls).logged = space.logged ++ lines ∧
      ∀ (replayed : List (Call F)) (copy : Space F), replayed.map Call.line = lines →
        copy.Timeless → copy.values = space.values →
          (runCalls copy replayed).values = (runCalls space calls).values := by
  induction calls generalizing space with
  | nil =>
    refine ⟨[], (append_nil _).symm, fun replayed copy none_ _ same => ?_⟩
    cases map_eq_nil_iff.mp none_
    exact same
  | cons call rest ih =>
    obtain ⟨timeless', step⟩ := exec_orderly timeless orderly.1
    obtain ⟨lines, logged, replays⟩ := ih timeless' orderly.2
    rcases step with ⟨unlogged, unchanged⟩ | ⟨line, loggedLine, again⟩
    · refine ⟨lines, logged.trans (by rw [unlogged]), fun replayed copy from_ timeless'' same => ?_⟩
      exact replays replayed copy from_ timeless'' (same.trans unchanged.symm)
    · refine ⟨line :: lines, logged.trans (by rw [loggedLine, append_assoc]; rfl), ?_⟩
      intro replayed copy from_ timeless'' same
      obtain ⟨second, replayed, rfl, line', from_⟩ := List.map_eq_cons_iff.mp from_
      obtain ⟨stillTimeless, stillSame⟩ := again second copy line' timeless'' same
      exact replays replayed (second.exec copy) from_ stillTimeless stillSame

/-- The lines a run of collection commands logs from an empty database rebuild its key space,
whatever is met during the replay. -/
theorem replay_of_orderly_runs (calls replayed : List (Call F))
    (orderly : OrderlyRun Space.empty calls)
    (fromLog : replayed.map Call.line = (runCalls Space.empty calls).logged) :
    (runCalls Space.empty replayed).values = (runCalls Space.empty calls).values := by
  obtain ⟨_, logged, replays⟩ := replay_orderly (fun _ => rfl) orderly
  exact replays replayed Space.empty (fromLog.trans logged) (fun _ => rfl) rfl

end Commands

section Samples

def plainCall (words : List String) : Call Digit :=
  ⟨Env.plain 0, words.map fun word => some (lit word)⟩

theorem orderly_spop :
    OrderlyRun Space.empty [plainCall ["SADD", "s", "x"], plainCall ["SPOP", "s"]] := by
  refine ⟨⟨_, _, .sadd, rfl, by decide, rfl, trivial⟩,
    ⟨_, _, .spop, rfl, by decide, rfl, ?_⟩, trivial⟩
  intro members count holds asked
  have held : ((plainCall ["SADD", "s", "x"]).exec Space.empty).values (lit "s") =
      some (.set {lit "x"}) := by decide
  cases Option.some.inj (held.symm.trans holds)
  cases Option.some.inj asked
  decide

theorem spop_of_all_replays :
    OrderlyRun Space.empty [plainCall ["SADD", "s", "x"], plainCall ["SPOP", "s"]] ∧
      (runCalls Space.empty [plainCall ["sadd", "s", "x"], plainCall ["spop", "s"]]).values =
        (runCalls Space.empty [plainCall ["SADD", "s", "x"], plainCall ["SPOP", "s"]]).values :=
  ⟨orderly_spop, replay_of_orderly_runs _ _ orderly_spop (by decide)⟩

/-- `ZREMRANGEBYLEX` empties the sorted set, and the log knows only of `ZADD`. -/
theorem zremrangebylex_is_forgotten :
    (runCalls Space.empty [plainCall ["ZADD", "z", "1", "a"],
        plainCall ["ZREMRANGEBYLEX", "z", "-", "+"]]).logged =
          [plainCall ["zadd", "z", "1", "a"]].map Call.line ∧
      (runCalls Space.empty [plainCall ["ZADD", "z", "1", "a"],
        plainCall ["ZREMRANGEBYLEX", "z", "-", "+"]]).values (lit "z") = some (.zset ∅) ∧
      (runCalls Space.empty [plainCall ["zadd", "z", "1", "a"]]).values (lit "z") ≠
        some (.zset ∅) := by
  decide

end Samples

end Godis.Database
