import Godis.Aof.Replay
import Godis.Database.DeclaredKeys
import Godis.Database.Emptying
import Godis.Database.Expired
import Godis.Transition.Reached

/-!
# No empty collections

Over whole runs, every collection has elements, unless a command leaves an empty one: one of those
for a single key that may, `SINTERSTORE` of sets without a common member, or a payload that contains
such a command.
-/

namespace Godis.Database

open Golang Program List
open Prog (andThen_ok run_bind)

variable {F α β : Type}

/-! ## Programs for several keys -/

section Spaces

variable {env : Env F}

def KeepsAll (env : Env F) (program : DbProg F α) : Prop :=
  ∀ space, space.Filled → (program.run (dbHandle env) space).2.Filled

theorem keepsAll_pure {value : α} : KeepsAll env (pure value) :=
  fun _ filled => filled

theorem keepsAll_stop (reason : Stop) : KeepsAll env (.stop reason : DbProg F α) :=
  fun _ filled => filled

theorem KeepsAll.bind {program : DbProg F α} {rest : α → DbProg F β} (first : KeepsAll env program)
    (later : ∀ value, KeepsAll env (rest value)) : KeepsAll env (program >>= rest) := by
  intro space filled
  have filled' := first space filled
  rw [run_bind]
  generalize program.run (dbHandle env) space = ended at filled'
  obtain ⟨ended, space'⟩ := ended
  cases ended with
  | ok value => exact later value space' filled'
  | error reason => exact filled'

theorem Keeps.onKey {program : SlotProg F α} (keeps : Keeps env program) (key : Key) :
    KeepsAll env (onKey key program) := by
  intro space filled
  rw [run_onKey]
  exact filled.write (keeps _ (filled key))

theorem keepsAll_log {line : Line} : KeepsAll env (Prog.ask (DbOp.log line) : DbProg F Unit) :=
  fun _ filled => filled

variable {space : Space F} {value : Value F} {slot : Slot F} {sets : List (Finset Str)}
  {args : List Bytes} {now : Int}

theorem Space.Filled.put (filled : space.Filled) (key : Key)
    (some_ : value.isEmptyCollection = false) :
    (space.act key ((space.slots key).putEntity value)).2.Filled := by
  have sound : (Change.put value).Sound := some_
  exact filled.write ((filled key).change sound)

theorem Space.Filled.remove (filled : space.Filled) (key : Key) :
    (space.act key ((Change.remove (F := F)).exec (space.slots key))).2.Filled :=
  filled.write (Slot.filled_of_none rfl)

theorem Space.Filled.removeIfPresent (filled : space.Filled) (key : Key) :
    (space.removeIfPresent key).Filled := by
  unfold Space.removeIfPresent
  split
  · exact filled.remove key
  · exact filled

variable (source dest : Key)

theorem Space.Filled.move (filled : space.Filled) : (space.move source dest).Filled := by
  unfold Space.move
  split
  · exact filled
  · rename_i value isValue
    exact (filled.put dest (filled source value isValue)).remove source

theorem Space.Filled.replace (filled : space.Filled) : (space.replace source dest).Filled := by
  unfold Space.replace
  split
  · exact filled
  · rename_i value isValue
    exact ((filled.removeIfPresent source).removeIfPresent dest).put dest
      (filled source value isValue)

/-- The only empty collections are those a command puts or writes in place. -/
theorem keepsAll_of_fresh {program : DbProg F α}
    (uses : program.Uses (DbOp.Fresh fun value => value.isEmptyCollection = false)) :
    KeepsAll env program := by
  intro space filled
  refine uses.run_preserves (fun space : Space F => space.Filled)
    (fun op space fresh filled => ?_) filled
  cases op with
  | look key method => exact filled.write ((filled key).look env.now method)
  | change key method =>
    refine filled.write ((filled key).change ?_)
    cases method with
    | mutate value | extend bytes => exact absurd fresh id
    | _ => exact fresh
  | move source dest => exact filled.move source dest
  | replace source dest => exact filled.replace source dest
  | log line | survey question | ask question => exact filled

theorem keepsAll_lookup (program : DbReader F α) : KeepsAll env (lookup program) :=
  keepsAll_of_fresh fresh_lookup

theorem keeps_remove : Keeps env remove :=
  fun _ _ => Slot.filled_of_none rfl

theorem Slot.filled_of_elements (some_ : ¬ (elementsOf slot.value).isEmpty = true) :
    slot.Filled := by
  unfold elementsOf at some_
  split at some_
  · rename_i elements isList
    exact Slot.filled_of_some isList (Bool.eq_false_iff.mpr some_)
  · exact absurd rfl some_

theorem run_onKey_mutate {key : Key} :
    (onKey key (mutate value)).run (dbHandle env) space =
      (.ok (), space.write key ⟨{ space.slots key with
        value := (space.slots key).value.map fun _ => value }, []⟩) := by
  rfl

theorem Slot.filled_of_map {held : Option (Value F)} (isMap : slot.value = held.map fun _ => value)
    (some_ : value.isEmptyCollection = false) :
    slot.Filled := by
  cases held with
  | none => exact Slot.filled_of_none isMap
  | some old => exact Slot.filled_of_some isMap some_

theorem filled_rotate {element : Bytes} {rest : List Bytes} {line : Line}
    (others : ∀ other, other ≠ source → other ≠ dest → (space.slots other).Filled) :
    ((do
      onKey source (mutate (.list rest))
      let destination ← lookAt dest listNow
      onKey dest (mutate (.list (element :: destination)))
      let left ← lookAt source listNow
      if left.isEmpty then onKey source remove
      Prog.ask (DbOp.log line)
      return .bulk element : DbProg F Reply).run (dbHandle env) space).2.Filled := by
  rw [run_bind, run_onKey_mutate, andThen_ok, run_bind, run_lookAt_listNow,
    andThen_ok, run_bind, run_onKey_mutate, andThen_ok, run_bind,
    run_lookAt_listNow, andThen_ok]
  generalize pushed : ((space.write source _).write dest _ : Space F) = reached
  have notSource : ∀ other, other ≠ source → (reached.slots other).Filled := by
    intro other different
    rw [← pushed, Space.write_slots]
    split
    · exact Slot.filled_of_map rfl rfl
    · rename_i notDest
      rw [Space.write_slots_ne _ _ different]
      exact others other different notDest
  have removed : ∀ state : SlotState F, state.slot.value = none →
      (reached.write source state).Filled := by
    intro state none_ other
    rw [Space.write_slots]
    split
    · exact Slot.filled_of_none none_
    · rename_i different
      exact notSource other different
  have log : KeepsAll env (Prog.ask (DbOp.log line) >>= fun _ => pure (Reply.bulk element)) :=
    (keepsAll_log).bind fun _ => keepsAll_pure
  split
  · exact log _ (removed _ rfl)
  · rename_i some_
    refine log _ fun other => ?_
    by_cases isSource : other = source
    · rw [isSource]
      exact Slot.filled_of_elements some_
    · exact notSource other isSource

theorem keepsAll_execRPopLPush : KeepsAll env (execRPopLPush args) := by
  unfold execRPopLPush
  split
  · rename_i source dest more
    refine (keepsAll_lookup _).bind fun found => ?_
    split
    · exact keepsAll_pure
    · exact keepsAll_pure
    · intro space filled
      rw [run_bind, run_onKey]
      have elsewhere : ∀ (state : SlotState F) other, other ≠ str source → other ≠ str dest →
          ((space.write (str dest) state).slots other).Filled := by
        intro state other _ notDest
        rw [Space.write_slots_ne _ _ notDest]
        exact filled other
      rcases run_getOrInit_cases with
        ⟨_, _, ended, looked⟩ | ⟨_, state, ended⟩
      · rw [Space.read, getOrInitList, ended]
        exact filled.write (looked ▸ (filled (str dest)).look env.now .getEntity)
      · rw [Space.read, getOrInitList, ended]
        exact filled_rotate _ _ (elsewhere state)
  · exact keepsAll_stop _

def HaveCommon (now : Int) (space : Space F) (args : List Bytes) : Prop :=
  ∃ member, ∀ arg ∈ args, ∃ members deadline,
    space.seen now (str arg) = some (.set members, deadline) ∧ member ∈ members

theorem mem_intersect {member : Str} (some_ : sets ≠ []) (all : ∀ members ∈ sets, member ∈ members) :
    member ∈ intersect sets := by
  cases sets with
  | nil => exact absurd rfl some_
  | cons first rest =>
    rw [intersect]
    induction rest generalizing first with
    | nil => simpa using all
    | cons second rest ih =>
      rw [foldl_cons]
      refine ih (first ∩ second) (cons_ne_nil _ _) ?_
      simp only [forall_mem_cons, Finset.mem_inter] at all ⊢
      exact ⟨⟨all.1, all.2.1⟩, all.2.2⟩

theorem intersect_ne_empty (some_ : args ≠ []) (gathered : Gathered now space args sets)
    (common : HaveCommon now space args) : intersect sets ≠ ∅ := by
  obtain ⟨member, common⟩ := common
  have notNil : sets ≠ [] := by
    rintro rfl
    cases gathered
    exact some_ rfl
  refine Finset.nonempty_iff_ne_empty.mp ⟨member, mem_intersect notNil ?_⟩
  clear some_ notNil
  induction gathered with
  | nil => simp
  | cons found _ ih =>
    obtain ⟨⟨_, there⟩, _⟩ := found
    obtain ⟨⟨_, _, isIt, inside⟩, common⟩ := forall_mem_cons.mp common
    cases there.symm.trans isIt
    exact forall_mem_cons.mpr ⟨inside, ih common⟩

theorem filled_execSInterStore (filled : space.Filled) {dest source : Bytes} {more : List Bytes}
    (fine : ¬ (AllSets env.now space (source :: more) ∧ ¬ HaveCommon env.now space (source :: more))) :
    ((execSInterStore (dest :: source :: more)).run (dbHandle env) space).2.Filled := by
  obtain ⟨found, ended, isGathered⟩ := getNonEmptySets_ok_iff env (.int 0) (source :: more) space
  have looked : ((lookup (getNonEmptySets (.int 0) (source :: more))).run (dbHandle env)
    space).2.Filled := keepsAll_lookup _ space filled
  rw [execSInterStore, run_bind, Prog.andThen, ended]
  cases found with
  | error reply => exact looked
  | ok sets =>
    have gathered := (isGathered sets).mp rfl
    have common : HaveCommon env.now space (source :: more) := by
      by_contra none_
      exact fine ⟨allSets_iff.mpr ⟨sets, gathered⟩, none_⟩
    have some_ := intersect_ne_empty (cons_ne_nil _ _) gathered common
    have put : Keeps env (putEntity (.set (intersect sets))) :=
      keeps_of_uses ⟨filled_set (mt Finset.card_eq_zero.mp some_), fun _ => trivial⟩
    exact (put.bind fun _ => .log keeps_pure).onKey (str dest) _ looked

end Spaces

/-! ## All commands -/

/-- The commands that may leave an empty collection.  An increment that is no number is left to
the last of them. -/
def Name.mayEmpty : Name → Bool
  | .ltrim | .spop | .sinterstore => true
  | .zrem | .zpopmin | .zremrangebyscore | .zremrangebyrank | .zremrangebylex => true
  | .zincrby => true
  | _ => false

section Commands

variable [Float64 F] {env : Env F}

variable {args : List Bytes} {head : Bytes} {name : Name} {space : Space F} {depth : Nat}

omit [Float64 F] in
theorem keepsAll_changeKey {execWithLock : Line → DbProg F Reply}
    {body : List Bytes → SlotProg F Reply} (keeps : Keeps env (body args)) :
    KeepsAll env ((Executor.changeKey body).run execWithLock args) := by
  cases args with
  | nil => exact keepsAll_stop _
  | cons key more => exact keeps.onKey (str key)

theorem keepsAll_command (execWithLock : Line → DbProg F Reply) (tame : name.mayEmpty = false)
    (noLoad : name.loads = false)
    (counted : validateArity (command (F := F) name).arity (head :: args) = true) :
    KeepsAll env ((command (F := F) name).executor.run execWithLock args) := by
  cases fresh : name.inPlace with
  | false =>
    refine keepsAll_of_fresh (fresh_command fresh (fun _ => rfl) (fun members some_ => ?_) _ args)
    refine filled_set (some_.resolve_left ?_)
    rintro rfl
    cases tame
  | true =>
    cases name with
    | append => exact keepsAll_changeKey keeps_execAppend
    | setrange => exact keepsAll_changeKey keeps_execSetRange
    | setbit => exact keepsAll_changeKey keeps_execSetBit
    | lpush =>
      obtain ⟨key, first, more, rfl⟩ := two_of_arity_le counted
      exact keepsAll_changeKey (keeps_execLPush (cons_ne_nil _ _))
    | lpushx => exact keepsAll_changeKey keeps_execLPushX
    | rpush =>
      obtain ⟨key, first, more, rfl⟩ := two_of_arity_le counted
      exact keepsAll_changeKey (keeps_execRPush (cons_ne_nil _ _))
    | rpushx => exact keepsAll_changeKey keeps_execRPushX
    | lpop => exact keepsAll_changeKey keeps_execLPop
    | rpop => exact keepsAll_changeKey keeps_execRPop
    | rpoplpush => exact keepsAll_execRPopLPush
    | lrem => exact keepsAll_changeKey keeps_execLRem
    | lset => exact keepsAll_changeKey keeps_execLSet
    | linsert => exact keepsAll_changeKey keeps_execLInsert
    | hset => exact keepsAll_changeKey keeps_execHSet
    | hsetnx => exact keepsAll_changeKey keeps_execHSetNX
    | hdel => exact keepsAll_changeKey keeps_execHDel
    | hmset =>
      obtain ⟨key, first, second, more, rfl⟩ := three_of_arity_le counted
      exact keepsAll_changeKey (keeps_execHMSet (by simp))
    | hincrby => exact keepsAll_changeKey keeps_addToField
    | hincrbyfloat => exact keepsAll_changeKey keeps_addToField
    | sadd =>
      obtain ⟨key, first, more, rfl⟩ := two_of_arity_le counted
      exact keepsAll_changeKey (keeps_execSAdd (cons_ne_nil _ _))
    | srem => exact keepsAll_changeKey keeps_execSRem
    | zadd =>
      obtain ⟨key, first, second, more, rfl⟩ := three_of_arity_le counted
      exact keepsAll_changeKey (keeps_execZAdd (by simp))
    | geoadd => exact keepsAll_changeKey keeps_execGeoAdd
    | _ =>
      first
        | cases fresh; done
        | exact Bool.noConfusion tame
        | exact Bool.noConfusion noLoad

/-- Neither the line nor a line in its payloads names a command that may leave an empty
collection. -/
def Gentle : Nat → Line → Prop
  | 0, _ => True
  | depth + 1, line =>
    ∀ name, commandOf line = some name → name.mayEmpty = false ∧
      (name.loads = true → ∀ inner ∈ payloadLines line.tail, Gentle depth inner)

omit [Float64 F] in
theorem keepsAll_loadDump {execWithLock : Line → DbProg F Reply}
    (gentle : ∀ line ∈ payloadLines args, KeepsAll env (execWithLock line)) :
    KeepsAll env (loadDump execWithLock args) :=
  loadDump_rule keepsAll_stop (fun _ => keepsAll_pure)
    (fun key _ _ keeps => (keeps_remove.onKey key).bind fun _ => keeps)
    (fun line member _ keeps => (gentle line member).bind keeps)

theorem keepsAll_execWithLock (depth : Nat) (line : Line) (gentle : Gentle depth line) :
    KeepsAll env (execWithLock depth line) := by
  induction depth generalizing line with
  | zero =>
    cases line with
    | nil | cons head args => exact keepsAll_stop _
  | succ depth ih =>
    cases line with
    | nil => exact keepsAll_stop _
    | cons head args =>
      unfold execWithLock
      split
      · exact keepsAll_pure
      · rename_i name found
        obtain ⟨tame, inner⟩ := gentle name found
        split
        · rename_i counted
          cases loading : name.loads with
          | false => exact keepsAll_command _ tame loading counted
          | true =>
            rw [(executor_of_loads (F := F) loading).1]
            exact keepsAll_loadDump fun line member => ih line (inner loading line member)
        · exact keepsAll_pure

/-- The command leaves an empty collection: at its key, at the destination, or with a payload. -/
def Empties (env : Env F) (space : Space F) (depth : Nat) : Name → List Bytes → Prop
  | .sinterstore, _ :: source :: more =>
    AllSets env.now space (source :: more) ∧ ¬ HaveCommon env.now space (source :: more)
  | .zincrby, [_, rawDelta, _] => Float64.parse (str rawDelta) = some (none : Option F)
  | name, args => name.loads = true ∧ (¬ ∀ inner ∈ payloadLines args, Gentle depth inner) ∨
    ∃ key more, args = key :: more ∧ LeavesEmpty env (space.seen env.now (str key)) name args

omit [Float64 F] in
theorem Space.Filled.addVersion (filled : space.Filled) (keys : List Key) :
    (space.addVersion keys).Filled := by
  intro key value isValue
  rw [(space.addVersion_slot keys key).1] at isValue
  exact filled key value isValue

theorem filled_command (filled : space.Filled)
    (counted : validateArity (command (F := F) name).arity (head :: args) = true)
    (fine : ¬ Empties env space depth name args) :
    (((command (F := F) name).executor.run (execWithLock depth) args).run (dbHandle env)
      space).2.Filled := by
  cases loading : name.loads with
  | true =>
    rw [(executor_of_loads (F := F) loading).1]
    refine keepsAll_loadDump (fun inner member => keepsAll_execWithLock depth inner ?_) space filled
    by_contra rough
    have empties : name.loads = true ∧ ¬ ∀ inner ∈ payloadLines args, Gentle depth inner :=
      ⟨loading, fun gentle => rough (gentle inner member)⟩
    cases name <;> first | exact fine (.inl empties) | cases loading
  | false =>
    have onFirst : ∀ (key : Bytes) {program : SlotProg F Reply},
        (program.run (slotHandle env) ⟨space.slots (str key), []⟩).2.slot.Filled →
          ((onKey (str key) program).run (dbHandle env) space).2.Filled := by
      intro key program here
      rw [run_onKey]
      exact filled.write here
    cases tame : name.mayEmpty with
    | false => exact keepsAll_command _ tame loading counted space filled
    | true =>
      cases name with
      | ltrim =>
        obtain ⟨key, _, _, rfl⟩ := three_of_arity counted
        exact onFirst key (filled_execLTrim (filled _) fun empty => fine (.inr ⟨_, _, rfl, empty⟩))
      | spop =>
        cases args with
        | nil => simp [validateArity, command] at counted
        | cons key more =>
          exact onFirst key (filled_execSPop (filled _) fun empty => fine (.inr ⟨_, _, rfl, empty⟩))
      | sinterstore =>
        obtain ⟨_, _, _, rfl⟩ := two_of_arity_le counted
        exact filled_execSInterStore filled fine
      | zrem =>
        obtain ⟨key, _, _, rfl⟩ := two_of_arity_le counted
        exact onFirst key (filled_execZRem (filled _) fun empty => fine (.inr ⟨_, _, rfl, empty⟩))
      | zpopmin =>
        cases args with
        | nil => simp [validateArity, command] at counted
        | cons key more =>
          exact onFirst key (filled_execZPopMin (filled _) fun empty => fine (.inr ⟨_, _, rfl, empty⟩))
      | zremrangebyscore =>
        obtain ⟨key, _, _, rfl⟩ := three_of_arity counted
        exact onFirst key (filled_execZRemRangeByScore (filled _) fun empty =>
          fine (.inr ⟨_, _, rfl, empty⟩))
      | zremrangebyrank =>
        obtain ⟨key, _, _, rfl⟩ := three_of_arity counted
        exact onFirst key (filled_execZRemRangeByRank (filled _) fun empty =>
          fine (.inr ⟨_, _, rfl, empty⟩))
      | zremrangebylex =>
        obtain ⟨key, _, _, rfl⟩ := three_of_arity counted
        exact onFirst key (filled_execZRemRangeByLex (filled _) fun empty =>
          fine (.inr ⟨_, _, rfl, empty⟩))
      | zincrby =>
        obtain ⟨key, _, _, rfl⟩ := three_of_arity counted
        exact (keeps_execZIncrBy fine).onKey (str key) space filled
      | _ => cases tame

omit [Float64 F] in
theorem allSets_addVersion_iff {keys : List Key} {now : Int} :
    AllSets now (space.addVersion keys) args ↔ AllSets now space args := by
  unfold AllSets
  simp only [space.seen_addVersion]

theorem empties_addVersion_iff {keys : List Key} :
    Empties env (space.addVersion keys) depth name args ↔ Empties env space depth name args := by
  unfold Empties HaveCommon
  simp only [space.seen_addVersion, allSets_addVersion_iff]

def Call.Empties (call : Call F) (space : Space F) : Prop :=
  ∃ name, commandOf call.line = some name ∧
    validateArity (command (F := F) name).arity call.line = true ∧
      Database.Empties call.env space (lineSize call.line) name call.line.tail

theorem filled_exec {call : Call F} (filled : space.Filled) (fine : ¬ call.Empties space) :
    (call.exec space).Filled := by
  obtain ⟨_, _⟩ := call
  unfold Call.exec execNormalCommand
  split
  · exact filled
  · rename_i head args isLine
    split
    · exact filled
    · rename_i name found
      split
      · rename_i counted
        split
        · exact filled
        · subst isLine
          refine filled_command (filled.addVersion _) counted fun empties => ?_
          exact fine ⟨name, found, counted, (empties_addVersion_iff).mp empties⟩
      · exact filled

/-! ## Runs -/

/-- What is done to a database: a command on its own; in a transaction the undo lines of a command
computed, the command or an undo line executed, and at its end the versions raised; a key expires;
all keys are flushed. -/
inductive Act (F : Type)
  | exec (call : Call F)
  | getUndoLogs (call : Call F)
  | execWithLock (call : Call F)
  | addVersion (keys : List Key)
  | expire (env : Env F) (key : Key)
  | flush

namespace Act

def step (space : Space F) : Act F → Space F
  | .exec call => call.exec space
  | .getUndoLogs call => (Database.getUndoLogs call.env call.line space).2
  | .execWithLock call => ((Database.exec call.line).run (dbHandle call.env) space).2
  | .addVersion keys => space.addVersion keys
  | .expire env key => (dbHandle env (.look key .isExpired) space).2
  | .flush => Server.flushed space

def Empties (space : Space F) : Act F → Prop
  | .exec call | .execWithLock call => call.Empties space
  | _ => False

def ofTransaction : Act F → Bool
  | .getUndoLogs _ | .execWithLock _ | .addVersion _ => true
  | _ => false

/-- The second state is reached by acts of a transaction. -/
def Leads (space after : Space F) : Prop :=
  ∃ acts : List (Act F), (∀ act ∈ acts, act.ofTransaction = true) ∧ acts.foldl step space = after

theorem Leads.trans {space middle after : Space F} (first : Leads space middle)
    (second : Leads middle after) : Leads space after := by
  obtain ⟨acts, all, rfl⟩ := first
  obtain ⟨later, all', rfl⟩ := second
  refine ⟨acts ++ later, fun act member => ?_, List.foldl_append⟩
  exact (mem_append.mp member).elim (all act) (all' act)

theorem leads_step (act : Act F) (inner : act.ofTransaction = true) : Leads space (step space act) :=
  ⟨[act], by simpa using inner, rfl⟩

theorem leads_andThen {first : Except Stop α × Space F} {rest : α → Space F → Except Stop β × Space F}
    (leads : Leads space first.2) (later : ∀ value after, Leads after (rest value after).2) :
    Leads space (Prog.andThen first rest).2 := by
  obtain ⟨ended, after⟩ := first
  cases ended with
  | error stop => exact leads
  | ok value => exact leads.trans (later value after)

theorem leads_execUndo (moments : Moments F) (moment : Nat) (lines : List Line) (space : Space F) :
    Leads space (execUndo moments moment lines space).2 := by
  induction lines generalizing moment space with
  | nil => exact ⟨[], by simp, rfl⟩
  | cons line rest ih =>
    exact leads_andThen (leads_step (.execWithLock ⟨moments moment, line⟩) rfl) fun _ after =>
      ih (moment + 1) after

theorem leads_execQueue (moments : Moments F) (moment : Nat) (lines : List Line)
    (results : List Reply) (undo : List (List Line)) (space : Space F) :
    Leads space (execQueue moments moment lines results undo space).2 := by
  induction lines generalizing moment results undo space with
  | nil => exact ⟨[], by simp, rfl⟩
  | cons line rest ih =>
    refine leads_andThen (leads_step (.getUndoLogs ⟨moments moment, line⟩) rfl) fun undoLines after => ?_
    refine leads_andThen (leads_step (.execWithLock ⟨moments (moment + 1), line⟩) rfl)
      fun reply last => ?_
    split
    · exact ⟨[], by simp, rfl⟩
    · exact ih _ _ _ last

/-- `EXEC` does nothing but acts of a transaction, whether it ends or aborts. -/
theorem leads_execMulti (moments : Moments F) (watching : Watching) (lines : List Line)
    (space : Space F) : Leads space (execMulti moments watching lines space).2 := by
  unfold execMulti
  split
  · exact ⟨[], by simp, rfl⟩
  · rename_i writeKeys _
    split
    · exact ⟨[], by simp, rfl⟩
    · refine leads_andThen (leads_execQueue moments 0 lines [] [] space) fun ended after => ?_
      split
      · exact leads_step (.addVersion writeKeys) rfl
      · exact leads_andThen (leads_execUndo moments _ _ after) fun _ last => ⟨[], by simp, rfl⟩

theorem filled_getUndoLogs (filled : space.Filled) (env : Env F) (line : Line) :
    (Database.getUndoLogs env line space).2.Filled := by
  unfold Database.getUndoLogs
  split
  · exact filled
  · split
    · exact filled
    · split
      · exact filled
      · exact keepsAll_lookup _ space filled

theorem filled_execWithLock {call : Call F} (filled : space.Filled) (fine : ¬ call.Empties space) :
    ((Database.exec call.line).run (dbHandle call.env) space).2.Filled := by
  obtain ⟨env, line⟩ := call
  cases line with
  | nil => exact filled
  | cons head args =>
    unfold Database.exec Database.execWithLock
    dsimp only
    split
    · exact filled
    · rename_i name found
      split
      · rename_i counted
        exact filled_command filled counted fun empties => fine ⟨name, found, counted, empties⟩
      · exact filled

theorem filled_step (filled : space.Filled) (act : Act F) (fine : ¬ act.Empties space) :
    (step space act).Filled := by
  cases act with
  | exec call => exact filled_exec filled fine
  | getUndoLogs call => exact filled_getUndoLogs filled call.env call.line
  | execWithLock call => exact filled_execWithLock filled fine
  | addVersion keys => exact filled.addVersion keys
  | expire env key => exact filled.write ((filled key).look env.now .isExpired)
  | flush => exact fun _ => Slot.filled_of_none rfl

end Act

/-- In every state reached from an empty database, nothing on the way leaving an empty collection
itself, no key holds one. -/
theorem no_empty_collections_reached (space : Space F)
    (reached : Transition.Reached (fun space (act : Act F) => some (act.step space))
      (fun space => space = Space.empty) (fun space act => ¬ act.Empties space) space)
    (key : Key) (value : Value F) (holds : (space.slots key).value = some value) :
    value.isEmptyCollection = false := by
  have filled : space.Filled := by
    refine reached.invariant (fun start isEmpty => ?_) fun state act state' filled fine step => ?_
    · rw [isEmpty]
      exact fun _ => Slot.filled_of_none rfl
    · cases step
      exact act.filled_step filled fine
  exact filled key value holds

end Commands

section Samples

theorem reached_rpush_filled :
    (((plainCall ["RPUSH", "l", "x"]).exec Space.empty).slots (lit "l")).value =
        some (.list [some (lit "x")]) ∧
      (Value.list [some (lit "x")] : Value Digit).isEmptyCollection = false := by
  have holds : (((plainCall ["RPUSH", "l", "x"]).exec Space.empty).slots (lit "l")).value =
      some (.list [some (lit "x")]) := rfl
  refine ⟨holds, no_empty_collections_reached _ (.step (.exec (plainCall ["RPUSH", "l", "x"]))
    (.start rfl) ?_ rfl) (lit "l") _ holds⟩
  rintro ⟨_, found, _, empties⟩
  have isPush : commandOf (plainCall ["RPUSH", "l", "x"]).line = some .rpush := by decide
  cases isPush.symm.trans found
  rcases empties with loads | ⟨_, _, _, empty⟩
  · exact Bool.false_ne_true loads.1
  · exact empty

theorem spop_leaves_empty_set :
    ((runCalls Space.empty [plainCall ["SADD", "s", "x"], plainCall ["SPOP", "s"]]).slots
        (lit "s")).value = some (.set ∅) ∧
      (Value.set ∅ : Value Digit).isEmptyCollection = true := by
  decide

end Samples

end Godis.Database
