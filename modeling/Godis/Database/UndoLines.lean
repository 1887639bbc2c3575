import Godis.Database.DeclaredKeys
import Godis.Database.Transaction

/-!
# The lines that undo functions make

They are lines of commands that keep to their keys: none goes over the dictionary, and none has a
payload.
-/

namespace Godis.Database

open Golang Program List

variable {F : Type}

/-- The line is of a command that neither goes over the dictionary nor has a payload. -/
def Keyed (line : Line) : Prop :=
  ∃ name, commandOf line = some name ∧ name.surveys = false ∧ name.loads = false

def AllKeyed (lines : List Line) : Prop :=
  ∀ line ∈ lines, Keyed line

theorem allKeyed_nil : AllKeyed [] :=
  fun _ member => absurd member not_mem_nil

variable {line : Line} {α : Type}

theorem AllKeyed.cons {lines : List Line} (rest : AllKeyed lines) (first : Keyed line) :
    AllKeyed (line :: lines) :=
  forall_mem_cons.mpr ⟨first, rest⟩

theorem AllKeyed.append {first second : List Line} (here : AllKeyed first)
    (there : AllKeyed second) : AllKeyed (first ++ second) :=
  List.forall_mem_append.mpr ⟨here, there⟩

theorem allKeyed_one (first : Keyed line) : AllKeyed [line] :=
  allKeyed_nil.cons first

theorem allKeyed_map {names : List α} {line : α → Line} (each : ∀ name ∈ names, Keyed (line name)) :
    AllKeyed (names.map line) := by
  intro own inside
  obtain ⟨name, member, rfl⟩ := mem_map.mp inside
  exact each name member

/-! ## Undo functions -/

theorem yields_getAs {view : Value F → Option α}
    {rest : Except Reply (Option α) → SlotReader F (List Line)}
    (refused : ∀ reply, (rest (.error reply)).Yields AllKeyed)
    (absent : (rest (.ok none)).Yields AllKeyed)
    (present : ∀ data, (rest (.ok (some data))).Yields AllKeyed) :
    (getAs view >>= rest).Yields AllKeyed := by
  refine (Prog.yields_any).bind fun found _ => ?_
  rcases found with reply | _ | data
  · exact refused reply
  · exact absent
  · exact present data

section Functions

variable (key : Bytes) (more : List Bytes)

theorem yields_undoLPush : (undoLPush (key :: more) : SlotReader F _).Yields AllKeyed :=
  allKeyed_map fun _ _ => ⟨.lpop, rfl, rfl, rfl⟩

theorem yields_undoRPush : (undoRPush (key :: more) : SlotReader F _).Yields AllKeyed :=
  allKeyed_map fun _ _ => ⟨.rpop, rfl, rfl, rfl⟩

theorem yields_undoPop {push : String} {popped : List Bytes → Bytes}
    {pushed : List Bytes → Nat → SlotReader F (List Bytes)}
    (keyed : ∀ elements, Keyed (some (lit push) :: key :: elements)) :
    (undoPop push popped pushed (key :: more)).Yields AllKeyed := by
  refine yields_getAs (fun _ => allKeyed_nil) allKeyed_nil fun elements => ?_
  cases elements with
  | nil => exact allKeyed_nil
  | cons first rest =>
    dsimp only
    split
    · split
      · exact allKeyed_nil
      · split
        · trivial
        · exact (Prog.yields_any).bind fun _ _ => allKeyed_one (keyed _)
    · exact allKeyed_one (keyed _)

theorem yields_undoLSet : (undoLSet (key :: more) : SlotReader F _).Yields AllKeyed := by
  cases more with
  | nil => trivial
  | cons index rest =>
    rw [undoLSet]
    split
    · exact allKeyed_nil
    · refine yields_getAs (fun _ => allKeyed_nil) allKeyed_nil fun elements => ?_
      dsimp only
      split
      · exact allKeyed_nil
      · exact allKeyed_one ⟨.lset, rfl, rfl, rfl⟩

variable {names : List Str}

theorem yields_rollbackHashFields {key : Key} :
    (rollbackHashFields key names : SlotReader F _).Yields AllKeyed := by
  refine yields_getAs (fun _ => allKeyed_nil) (allKeyed_one ⟨.del, rfl, rfl, rfl⟩) fun fields => ?_
  refine allKeyed_map fun name _ => ?_
  cases fields.lookup name with
  | none => exact ⟨.hdel, rfl, rfl, rfl⟩
  | some value => exact ⟨.hset, rfl, rfl, rfl⟩

theorem yields_rollbackSetMembers {key : Key} :
    (rollbackSetMembers key names : SlotReader F _).Yields AllKeyed := by
  refine yields_getAs (fun _ => allKeyed_nil) (allKeyed_one ⟨.del, rfl, rfl, rfl⟩) fun members => ?_
  refine allKeyed_map fun name _ => ?_
  split
  · exact ⟨.sadd, rfl, rfl, rfl⟩
  · exact ⟨.srem, rfl, rfl, rfl⟩

theorem yields_toTTLCmd {key : Key} : (toTTLCmd key : SlotReader F Line).Yields Keyed := by
  intro deadline
  cases deadline with
  | none => exact ⟨.persist, rfl, rfl, rfl⟩
  | some deadline => exact ⟨.pexpireat, rfl, rfl, rfl⟩

theorem yields_undoExpire : (undoExpire (key :: more) : SlotReader F _).Yields AllKeyed :=
  (yields_toTTLCmd).bind fun _ limits => allKeyed_one limits

theorem yields_undoHSet : (undoHSet (key :: more) : SlotReader F _).Yields AllKeyed := by
  cases more with
  | nil => trivial
  | cons field rest => exact yields_rollbackHashFields

variable [Float64 F]

theorem yields_rollbackZSetFields {key : Key} :
    (rollbackZSetFields key names : SlotReader F _).Yields AllKeyed := by
  refine yields_getAs (fun _ => allKeyed_nil) (allKeyed_one ⟨.del, rfl, rfl, rfl⟩) fun scores => ?_
  refine allKeyed_map fun name _ => ?_
  cases scores.lookup name with
  | none => exact ⟨.zrem, rfl, rfl, rfl⟩
  | some score => exact ⟨.zadd, rfl, rfl, rfl⟩

theorem yields_undoZIncr : (undoZIncr (key :: more) : SlotReader F _).Yields AllKeyed := by
  rcases more with - | ⟨_, - | ⟨-, _⟩⟩
  · trivial
  · trivial
  · exact yields_rollbackZSetFields

theorem yields_entityToCmd {key : Key} {value : Value F} : (entityToCmd key value).Yields Keyed := by
  cases value with
  | string bytes => exact ⟨.set, rfl, rfl, rfl⟩
  | list elements => exact ⟨.rpush, rfl, rfl, rfl⟩
  | set members => exact fun _ => ⟨.sadd, rfl, rfl, rfl⟩
  | hash fields => exact fun _ => ⟨.hmset, rfl, rfl, rfl⟩
  | zset scores =>
    rw [entityToCmd]
    split
    · trivial
    · exact ⟨.zadd, rfl, rfl, rfl⟩

theorem yields_rollbackGivenKeys {keys : List Key} :
    (rollbackGivenKeys keys : DbReader F _).Yields AllKeyed := by
  induction keys with
  | nil => exact allKeyed_nil
  | cons key rest ih =>
    have one : (rollbackKey key : SlotReader F _).Yields AllKeyed := by
      have del : Keyed (toCmdLineOfStr "DEL" [key]) := ⟨.del, rfl, rfl, rfl⟩
      intro found
      cases found with
      | none => exact allKeyed_one del
      | some value =>
        refine (yields_entityToCmd).bind fun dump dumps => ?_
        exact (yields_toTTLCmd).bind fun ttl limits => ((allKeyed_one limits).cons dumps).cons del
    exact one.translate.bind fun lines here => ih.bind fun later there => here.append there

theorem yields_rollbackFirstKey {args : List Bytes} :
    (rollbackFirstKey args : DbReader F _).Yields AllKeyed := by
  cases args with
  | nil => trivial
  | cons key more => exact yields_rollbackGivenKeys

omit [Float64 F] in
theorem yields_undoOnKey {undo : List Bytes → SlotReader F (List Line)}
    (yields : ∀ key more, (undo (key :: more)).Yields AllKeyed) {args : List Bytes} :
    (undoOnKey undo args).Yields AllKeyed := by
  cases args with
  | nil => trivial
  | cons key more => exact (yields key more).translate

omit [Float64 F] in
theorem yields_undoRPopLPush {args : List Bytes} :
    (undoRPopLPush args : DbReader F _).Yields AllKeyed := by
  rcases args with - | ⟨_, - | ⟨-, _⟩⟩
  · trivial
  · trivial
  · refine (Prog.yields_any).bind fun found _ => ?_
    rcases found with - | _ | elements
    · exact allKeyed_nil
    · exact allKeyed_nil
    · cases elements with
      | nil => exact allKeyed_nil
      | cons first rest =>
        exact (allKeyed_one ⟨.lpop, rfl, rfl, rfl⟩).cons ⟨.rpush, rfl, rfl, rfl⟩

theorem yields_undo {name : Name} {undo : List Bytes → DbReader F (List Line)}
    (undoes : (command (F := F) name).undo = some undo) {args : List Bytes} :
    (undo args).Yields AllKeyed := by
  cases name with
  | del | dumpkey | mset | msetnx =>
    cases undoes
    exact yields_rollbackGivenKeys
  | rename | renamenx =>
    cases undoes
    rcases args with - | ⟨-, - | ⟨-, _⟩⟩
    · trivial
    · trivial
    · exact yields_rollbackGivenKeys
  | rpoplpush =>
    cases undoes
    exact yields_undoRPopLPush
  | expire | expireat | pexpire | pexpireat | persist =>
    cases undoes
    exact yields_undoOnKey yields_undoExpire
  | lpush | lpushx =>
    cases undoes
    exact yields_undoOnKey yields_undoLPush
  | rpush | rpushx =>
    cases undoes
    exact yields_undoOnKey yields_undoRPush
  | lpop =>
    cases undoes
    exact yields_undoOnKey fun key more => yields_undoPop key more fun _ => ⟨.lpush, rfl, rfl, rfl⟩
  | rpop =>
    cases undoes
    exact yields_undoOnKey fun key more => yields_undoPop key more fun _ => ⟨.rpush, rfl, rfl, rfl⟩
  | lset =>
    cases undoes
    exact yields_undoOnKey yields_undoLSet
  | hset | hsetnx | hincrby | hincrbyfloat =>
    cases undoes
    exact yields_undoOnKey yields_undoHSet
  | hdel | hmset =>
    cases undoes
    exact yields_undoOnKey (fun key _ => yields_rollbackHashFields)
  | sadd | srem | spop =>
    cases undoes
    exact yields_undoOnKey (fun key _ => yields_rollbackSetMembers)
  | zadd | zrem | geoadd =>
    cases undoes
    exact yields_undoOnKey (fun key _ => yields_rollbackZSetFields)
  | zincrby =>
    cases undoes
    exact yields_undoOnKey (fun key more => yields_undoZIncr key more)
  | set | setnx | setex | psetex | getex | getset | getdel | incr | incrby | incrbyfloat | decr
  | decrby | append | setrange | setbit | lrem | ltrim | linsert | zpopmin | zremrangebyscore
  | zremrangebyrank | zremrangebylex | renameto | renamenxto | copyto | sinterstore | sunionstore
  | sdiffstore =>
    cases undoes
    exact yields_rollbackFirstKey
  | _ => cases undoes

end Functions

end Godis.Database
