import Godis.Database.DeclaredKeys
import Godis.Database.Expired
import Godis.Database.UndoLines
import Godis.Program.Breaking
import Godis.Program.Trace

/-!
# Requests for the mutexes of shards (`datastruct/dict/concurrent.go`)

The executors run with the shards of their keys locked.  Most methods of the dictionary they use
take no mutex themselves (`GetWithLock`, `PutWithLock`, ...).  `ForEach`, `RandomKeys` and `DictScan`
do, for the shards they come to.
-/

namespace Godis.Database

open Golang Program List
open Dict (Sharding)

variable {F α : Type}

/-- What one execution meets: clock and random choices, and the shards that `RandomKeys` draws. -/
structure Chance (F : Type) where
  env : Env F
  draws : Finset Key → List Nat

/-- The shards whose mutex a method of the dictionary requests. -/
def Survey.requests (table : Sharding) (chance : Chance F) (keys : Finset Key) : Survey → List Nat
  | .keys => table.all
  | .randomKey => if keys.card ≤ 1 then table.all else chance.draws keys
  | .scan cursor count pattern =>
    table.scanned chance.env.compile chance.env.order keys cursor count pattern

def DbOp.requests (table : Sharding) (chance : Chance F) : DbOp F → Space F → List Nat
  | .survey question, space => question.requests table chance space.keys
  | _, _ => []

def requested (table : Sharding) (chance : Chance F) (program : DbProg F α) (space : Space F) :
    List Nat :=
  program.trace (dbHandle chance.env) (DbOp.requests table chance) space

/-! ## Commands that request nothing -/

section Silent

variable {table : Sharding} {chance : Chance F} {space : Space F}

variable {read written : List Key}

theorem requests_of_within (op : DbOp F) (space : Space F) (within : op.Within written read) :
    op.requests table chance space = [] := by
  cases op with
  | survey question => exact absurd within id
  | _ => rfl

theorem requested_of_within {program : DbProg F α} (uses : program.Uses (DbOp.Within written read)) :
    requested table chance program space = [] :=
  uses.trace_nil requests_of_within space

theorem requested_onKey {key : Key} {program : SlotProg F α} :
    requested table chance (onKey key program) space = [] :=
  have within : (onKey key program).Uses (DbOp.Within [key] []) := within_onKey (by simp)
  requested_of_within within

end Silent

/-! ## Commands that go over the dictionary -/

def returned : DbReader F α → Option α
  | .pure value => some value
  | _ => none

section Traversals

variable (table : Sharding) (chance : Chance F)

def keysVisits : List Bytes → List Nat
  | pattern :: _ => if (chance.env.compile (str pattern)).isSome then table.all else []
  | [] => []

def scanVisits (keys : Finset Key) : List Bytes → List Nat
  | rawCursor :: options =>
    match returned (F := F) (scanDbOptions options 10 (lit "*") []), parseInt (str rawCursor) with
    | some (.ok (count, pattern, _)), .ok cursor =>
      Survey.requests table chance keys (.scan cursor count pattern)
    | _, _ => []
  | [] => []

variable {table chance}

theorem requested_survey (question : Survey) (rest : question.Answer → DbReader F α)
    {space : Space F} :
    requested table chance (lookup (Prog.ask (DbLook.survey question) >>= rest)) space =
      question.requests table chance space.keys ++
        requested table chance (lookup (rest (chance.env.survey space.keys question))) space :=
  rfl

def DbLook.Quiet : DbLook F → Prop
  | .survey _ => False
  | _ => True

theorem requested_quiet {program : DbReader F α} (uses : program.Uses DbLook.Quiet)
    {space : Space F} : requested table chance (lookup program) space = [] := by
  have translated : (lookup program).Uses fun op => ∀ question, op ≠ .survey question :=
    uses.translate fun op quiet question same => by
      cases op with
      | survey _ => exact quiet
      | look key method | ask question => cases same
  refine translated.trace_nil (fun op state silent => ?_) space
  cases op with
  | survey question => exact absurd rfl (silent question)
  | _ => rfl

theorem quiet_readAt {key : Key} {program : SlotReader F α} :
    (readAt key program).Uses DbLook.Quiet :=
  Prog.Uses.of_sent fun op => by
    cases op with
    | look method | ask question => trivial

theorem quiet_unexpired {fits : Str → Bool} {keys : List Key} :
    (unexpired fits keys : DbReader F _).Uses DbLook.Quiet := by
  induction keys with
  | nil => trivial
  | cons key rest ih =>
    rw [unexpired]
    split
    · refine (quiet_readAt).bind fun gone => ?_
      split
      · exact ih
      · exact ih.bind fun _ => trivial
    · exact ih

theorem quiet_ofType {scanType : Str} {keys : List Key} :
    (ofType scanType keys : DbReader F _).Uses DbLook.Quiet := by
  induction keys with
  | nil => trivial
  | cons key rest ih =>
    refine (quiet_readAt).bind fun isType => ?_
    split
    · exact ih.bind fun _ => trivial
    · exact ih

variable {pattern : Str}

theorem requested_compile (rest : Option (Str → Bool) → DbReader F α) {space : Space F} :
    requested table chance (lookup (readAt [] (compilePattern pattern) >>= rest)) space =
      requested table chance (lookup (rest (chance.env.compile pattern))) space :=
  rfl

variable (args : List Bytes)

theorem requested_execKeys (space : Space F) :
    requested table chance (lookup (execKeys args)) space = keysVisits table chance args := by
  cases args with
  | nil => rfl
  | cons pattern more =>
    rw [execKeys, requested_compile, keysVisits]
    cases chance.env.compile (str pattern) with
    | none => rfl
    | some fits =>
      refine (requested_survey .keys _).trans ?_
      rw [Env.survey]
      cases chance.env.blocked with
      | true => exact append_nil _
      | false =>
        have rest : (do return Reply.multiBulk ((← unexpired fits
            (chance.env.order space.keys)).map some) : DbReader F Reply).Uses DbLook.Quiet :=
          (quiet_unexpired).bind fun _ => trivial
        exact (congrArg (table.all ++ ·) (requested_quiet rest)).trans
          (append_nil _)

theorem requested_execRandomKey (space : Space F) :
    requested table chance (lookup (execRandomKey args)) space =
      Survey.requests table chance space.keys .randomKey := by
  refine (requested_survey .randomKey _).trans ?_
  rw [Env.survey]
  cases chance.env.blocked with
  | true => exact append_nil _
  | false =>
    cases chance.env.randomKey space.keys with
    | none | some key => exact append_nil _

theorem requested_execScan (space : Space F) :
    requested table chance (lookup (execScan args)) space =
      scanVisits table chance space.keys args := by
  cases args with
  | nil => rfl
  | cons rawCursor options =>
    rw [execScan, scanVisits]
    rcases settled_scanDbOptions (F := F) options 10 (lit "*") [] with
      ⟨read, isRead⟩ | ⟨_, stops⟩
    · rw [isRead]
      cases read with
      | error reply => rfl
      | ok settings =>
        obtain ⟨count, pattern, _⟩ := settings
        cases parseInt (str rawCursor) with
        | error error => rfl
        | ok cursor =>
          refine (requested_survey (.scan cursor count pattern) _).trans ?_
          refine (congrArg _ (requested_quiet ?_)).trans (append_nil _)
          rw [Env.survey]
          cases chance.env.dictScan space.keys cursor count pattern with
          | error stop => trivial
          | ok page =>
            dsimp only
            split
            · trivial
            · split
              · trivial
              · exact (quiet_ofType).bind fun _ => trivial
    · rw [stops]
      rfl

end Traversals

/-! ## All commands -/

section Commands

variable (table : Sharding) (chance : Chance F)

def loadVisits (execWithLock : Line → DbProg F Reply) (visits : Line → Space F → List Nat)
    (args : List Bytes) (space : Space F) : List Nat :=
  match args with
  | key :: dump :: ttl :: _ =>
    match payloadLine key dump, payloadLine key ttl with
    | some dumpCmd, some ttlCmd =>
      Prog.following ((onKey (str key) remove).run (dbHandle chance.env) space) fun _ space =>
        visits dumpCmd space ++
          Prog.following ((execWithLock dumpCmd).run (dbHandle chance.env) space)
            fun dumpResult space => if dumpResult.isError then [] else visits ttlCmd space
    | _, _ => []
  | _ => []

variable {space : Space F} {line : Line}

variable {table chance} in
theorem requested_parseCmd_bind {what : String} {key payload : Bytes}
    {rest : Except Reply Line → DbProg F α}
    (refused : ∀ reply, requested table chance (rest (.error reply)) space = []) :
    requested table chance (lookup (parseCmd what key payload) >>= rest) space =
      (payloadLine key payload).elim [] fun line => requested table chance (rest (.ok line)) space := by
  unfold payloadLine parseCmd
  cases parseOne (str payload) with
  | none => rfl
  | some parsed =>
    cases parsed with
    | failed error => exact refused _
    | data reply =>
      cases reply with
      | multiBulk args =>
        rcases args with - | ⟨-, - | ⟨-, _⟩⟩
        · rfl
        · rfl
        · rfl
      | _ => exact refused _

variable {table chance} in
theorem requested_loadDump {execWithLock : Line → DbProg F Reply}
    {visits : Line → Space F → List Nat}
    (inner : ∀ line space, requested table chance (execWithLock line) space = visits line space)
    (args : List Bytes) :
    requested table chance (loadDump execWithLock args) space =
      loadVisits chance execWithLock visits args space := by
  rcases args with - | ⟨key, - | ⟨dump, - | ⟨ttl, _⟩⟩⟩
  · rfl
  · rfl
  · rfl
  · rw [loadDump, loadVisits, requested_parseCmd_bind fun reply => rfl]
    cases payloadLine key dump with
    | none => rfl
    | some dumpCmd =>
      rw [Option.elim_some, requested_parseCmd_bind fun reply => rfl]
      cases payloadLine key ttl with
      | none => rfl
      | some ttlCmd =>
        rw [Option.elim_some, requested, Prog.trace_bind_of_nil requested_onKey]
        refine congrArg (Prog.following _) (funext fun _ => funext fun removed => ?_)
        rw [Prog.trace_bind]
        refine congrArg₂ (· ++ ·) (inner dumpCmd removed)
          (congrArg (Prog.following _) (funext fun dumpResult => funext fun later => ?_))
        split
        · rfl
        · refine (Prog.trace_bind_of_rest_nil (fun ttlResult last => ?_)).trans
            (inner ttlCmd later)
          split
          · rfl
          · rfl

variable [Float64 F]

/-- The shards that the execution of a line comes to, with the lines in its payloads. -/
def visits : Nat → Line → Space F → List Nat
  | 0, _, _ => []
  | depth + 1, line, space =>
    match commandOf line with
    | none => []
    | some name =>
      if validateArity (command (F := F) name).arity line then
        match name with
        | .keys => keysVisits table chance line.tail
        | .scan => scanVisits table chance space.keys line.tail
        | .randomkey => Survey.requests table chance space.keys .randomKey
        | .renameto | .renamenxto | .copyto =>
          loadVisits chance (execWithLock depth) (visits depth) line.tail space
        | _ => []
      else []

variable {table chance}

theorem requested_silent (execWithLock : Line → DbProg F Reply) {name : Name}
    (noSurvey : name.surveys = false) (noLoad : name.loads = false) (args : List Bytes)
    (space : Space F) :
    requested table chance ((command (F := F) name).executor.run execWithLock args) space = [] := by
  cases prepared : (command (F := F) name).prepare with
  | none =>
    rw [special_of_unprepared prepared]
    rfl
  | some prepare =>
    exact requested_of_within (touches_command execWithLock noSurvey noLoad prepared args)

theorem requested_execWithLock (depth : Nat) (line : Line) (space : Space F) :
    requested table chance (execWithLock depth line) space =
      visits table chance depth line space := by
  induction depth generalizing line space with
  | zero =>
    cases line with
    | nil => rfl
    | cons head args => rfl
  | succ depth ih =>
    cases line with
    | nil => rfl
    | cons head args =>
      rw [execWithLock, visits, commandOf]
      cases Name.ofText (toLower (str head)) with
      | none => rfl
      | some name =>
        dsimp only
        split
        · cases name with
          | keys => exact requested_execKeys args space
          | scan => exact requested_execScan args space
          | randomkey => exact requested_execRandomKey args space
          | renameto | renamenxto | copyto => exact requested_loadDump ih args
          | _ => exact requested_silent _ rfl rfl args space
        · rfl

theorem visits_of_keyed (keyed : Keyed line) (depth : Nat) (space : Space F) :
    visits table chance depth line space = [] := by
  obtain ⟨name, found, noSurvey, noLoad⟩ := keyed
  cases depth with
  | zero => rfl
  | succ depth =>
    rw [visits, found]
    dsimp only
    split
    · cases name with
      | keys | scan | randomkey => cases noSurvey
      | renameto | renamenxto | copyto => cases noLoad
      | _ => rfl
    · rfl

/-! ## Undo functions -/

theorem quiet_rollbackGivenKeys {keys : List Key} :
    (rollbackGivenKeys keys : DbReader F _).Uses DbLook.Quiet := by
  induction keys with
  | nil => trivial
  | cons key rest ih => exact (quiet_readAt).bind fun _ => ih.bind fun _ => trivial

theorem quiet_rollbackFirstKey {args : List Bytes} :
    (rollbackFirstKey args : DbReader F _).Uses DbLook.Quiet := by
  cases args with
  | nil => trivial
  | cons key more => exact quiet_rollbackGivenKeys

omit [Float64 F] in
theorem quiet_undoOnKey (undo : List Bytes → SlotReader F (List Line)) {args : List Bytes} :
    (undoOnKey undo args).Uses DbLook.Quiet := by
  cases args with
  | nil => trivial
  | cons key more => exact quiet_readAt

omit [Float64 F] in
theorem quiet_undoRPopLPush {args : List Bytes} :
    (undoRPopLPush args : DbReader F _).Uses DbLook.Quiet := by
  rcases args with - | ⟨_, - | ⟨-, _⟩⟩
  · trivial
  · trivial
  · refine (quiet_readAt).bind fun found => ?_
    rcases found with - | _ | elements
    · trivial
    · trivial
    · cases elements with
      | nil | cons first rest => trivial

theorem quiet_undo {name : Name} {undo : List Bytes → DbReader F (List Line)}
    (undoes : (command (F := F) name).undo = some undo) {args : List Bytes} :
    (undo args).Uses DbLook.Quiet := by
  cases name with
  | del | dumpkey | mset | msetnx =>
    cases undoes
    exact quiet_rollbackGivenKeys
  | rename | renamenx =>
    cases undoes
    rcases args with - | ⟨-, - | ⟨-, _⟩⟩
    · trivial
    · trivial
    · exact quiet_rollbackGivenKeys
  | rpoplpush =>
    cases undoes
    exact quiet_undoRPopLPush
  | set | setnx | setex | psetex | getex | getset | getdel | incr | incrby | incrbyfloat | decr
  | decrby | append | setrange | setbit | lrem | ltrim | linsert | zpopmin | zremrangebyscore
  | zremrangebyrank | zremrangebylex | renameto | renamenxto | copyto | sinterstore | sunionstore
  | sdiffstore =>
    cases undoes
    exact quiet_rollbackFirstKey
  | expire | expireat | pexpire | pexpireat | persist | lpush | lpushx | rpush | rpushx | lpop | rpop
  | lset | hset | hsetnx | hincrby | hincrbyfloat | hdel | hmset | sadd | srem | spop | zadd | zrem
  | geoadd | zincrby =>
    cases undoes
    exact quiet_undoOnKey _
  | _ => cases undoes

theorem getUndoLogs_keyed {env : Env F} {later : Space F} {lines : List Line}
    (ended : getUndoLogs env line space = (.ok lines, later)) :
    AllKeyed lines := by
  cases line with
  | nil => cases ended
  | cons head args =>
    unfold getUndoLogs at ended
    dsimp only at ended
    cases found : Name.ofText (toLower (str head)) with
    | none =>
      rw [found] at ended
      cases ended
      exact allKeyed_nil
    | some name =>
      rw [found] at ended
      dsimp only at ended
      cases undoes : (command (F := F) name).undo with
      | none =>
        rw [undoes] at ended
        cases ended
        exact allKeyed_nil
      | some undo =>
        rw [undoes] at ended
        exact (yields_undo undoes).translate.run ended

end Commands

/-! ## Transactions -/

section Transactions

variable [Float64 F] (table : Sharding) (chances : Nat → Chance F)

variable (F) in
def queueKeys : List Line → Option (List Key × List Key)
  | [] => some ([], [])
  | [] :: _ => none
  | (name :: args) :: rest => do
    let found ← Name.ofText (toLower (str name))
    let prepare ← (command (F := F) found).prepare
    let more ← queueKeys rest
    return ((prepare args).1 ++ more.1, (prepare args).2 ++ more.2)

variable (F) in
def multiHeld (watching : Watching) (lines : List Line) : Finset Nat :=
  match queueKeys F lines with
  | none => ∅
  | some keys => ((keys.1 ++ keys.2).toFinset ∪ watching.keys).image table.spread

def undoRequests (chance : Chance F) (line : Line) (space : Space F) : List Nat :=
  match line with
  | [] => []
  | name :: args =>
    match Name.ofText (toLower (str name)) with
    | none => []
    | some found =>
      match (command (F := F) found).undo with
      | none => []
      | some undo => requested table chance (lookup (undo args)) space

def queueRequests : Nat → List Line → Space F → List Nat
  | _, [], _ => []
  | moment, line :: rest, space =>
    undoRequests table (chances moment) line space ++
      Prog.following (getUndoLogs (chances moment).env line space) fun _ space =>
        requested table (chances (moment + 1)) (exec line) space ++
          Prog.following ((exec line).run (dbHandle (chances (moment + 1)).env) space)
            fun reply space =>
              if reply.isError then [] else queueRequests (moment + 2) rest space

def undoingRequests : Nat → List Line → Space F → List Nat
  | _, [], _ => []
  | moment, line :: rest, space =>
    requested table (chances moment) (exec line) space ++
      Prog.following ((exec line).run (dbHandle (chances moment).env) space) fun _ space =>
        undoingRequests (moment + 1) rest space

def multiRequests (watching : Watching) (lines : List Line) (space : Space F) : List Nat :=
  match queueKeys F lines with
  | none => []
  | some _ =>
    if isWatchingChanged space watching then []
    else
      queueRequests table chances 0 lines space ++
        Prog.following (execQueue (fun moment => (chances moment).env) 0 lines [] [] space)
          fun ended space =>
            match ended with
            | .executed _ => []
            | .aborted undo => undoingRequests table chances (2 * lines.length) undo.flatten space

structure Executed (F : Type) where
  chance : Chance F
  line : Line
  space : Space F

def executedOf : Nat → List Line → Space F → List (Executed F)
  | _, [], _ => []
  | moment, line :: rest, space =>
    Prog.following (getUndoLogs (chances moment).env line space) fun _ space =>
      ⟨chances (moment + 1), line, space⟩ ::
        Prog.following ((exec line).run (dbHandle (chances (moment + 1)).env) space)
          fun reply space => if reply.isError then [] else executedOf (moment + 2) rest space

def multiExecuted (watching : Watching) (lines : List Line) (space : Space F) : List (Executed F) :=
  if (queueKeys F lines).isNone || isWatchingChanged space watching then []
  else executedOf chances 0 lines space

def Executed.visits (step : Executed F) : List Nat :=
  Database.visits table step.chance (lineSize step.line + 1) step.line step.space

variable {table chances}

theorem undoRequests_nil (chance : Chance F) (line : Line) (space : Space F) :
    undoRequests table chance line space = [] := by
  unfold undoRequests
  split
  · rfl
  · split
    · rfl
    · split
      · rfl
      · rename_i undoes
        exact requested_quiet (quiet_undo undoes)

theorem requested_exec (chance : Chance F) (line : Line) (space : Space F) :
    requested table chance (exec line) space = Executed.visits table ⟨chance, line, space⟩ :=
  requested_execWithLock _ line space

theorem queueRequests_eq (moment : Nat) (lines : List Line) (space : Space F) :
    queueRequests table chances moment lines space =
      (executedOf chances moment lines space).flatMap (Executed.visits table) := by
  induction lines generalizing moment space with
  | nil => rfl
  | cons line rest ih =>
    rw [queueRequests, executedOf, undoRequests_nil, nil_append, Prog.flatMap_following]
    refine congrArg (Prog.following _) (funext fun _ => funext fun before => ?_)
    rw [flatMap_cons, requested_exec, Prog.flatMap_following]
    refine congrArg (_ ++ Prog.following _ ·) (funext fun reply => funext fun later => ?_)
    split
    · rfl
    · exact ih (moment + 2) later

variable {lines : List Line}

theorem undoingRequests_nil (keyed : AllKeyed lines) (moment : Nat) (space : Space F) :
    undoingRequests table chances moment lines space = [] := by
  induction lines generalizing moment space with
  | nil => rfl
  | cons line rest ih =>
    obtain ⟨here, later⟩ := forall_mem_cons.mp keyed
    have nothing : (fun (_ : Reply) (space : Space F) =>
        undoingRequests table chances (moment + 1) rest space) = fun _ _ => [] :=
      funext fun _ => funext fun space => ih later (moment + 1) space
    rw [undoingRequests, requested_exec, Executed.visits, visits_of_keyed here,
      nil_append, nothing, Prog.following_nil]

theorem execQueue_keyed {moments : Moments F} {results : List Reply}
    {undo undone : List (List Line)} {moment : Nat} {space later : Space F}
    (keyed : AllKeyed undo.flatten)
    (ended : execQueue moments moment lines results undo space = (.ok (.aborted undone), later)) :
    AllKeyed undone.flatten := by
  induction lines generalizing moment results undo space with
  | nil => cases ended
  | cons line rest ih =>
    obtain ⟨_, _, logs, ended⟩ := Prog.andThen_eq_ok ended
    obtain ⟨_, _, -, ended⟩ := Prog.andThen_eq_ok ended
    split at ended
    · cases ended
      exact keyed
    · refine ih (fun line inside => ?_) ended
      rw [List.flatten_cons, mem_append] at inside
      exact inside.elim (getUndoLogs_keyed logs line) (keyed line)

theorem multiRequests_eq (watching : Watching) {space : Space F} :
    multiRequests table chances watching lines space =
      (multiExecuted chances watching lines space).flatMap (Executed.visits table) := by
  unfold multiRequests multiExecuted
  cases queueKeys F lines with
  | none => rfl
  | some keys =>
    cases isWatchingChanged space watching with
    | true => rfl
    | false =>
      rw [queueRequests_eq]
      refine (congrArg (_ ++ ·) ?_).trans (append_nil _)
      cases ended : execQueue (fun moment => (chances moment).env) 0 lines [] [] space with
      | mk outcome later =>
        rcases outcome with - | (- | _)
        · rfl
        · rfl
        · have start : AllKeyed ([] : List (List Line)).flatten := allKeyed_nil
          exact undoingRequests_nil (execQueue_keyed start ended) _ later

end Transactions

end Godis.Database

