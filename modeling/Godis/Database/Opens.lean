import Godis.Database.WriteSets

/-!
# Programs that get a key before they do anything else to it

`GetEntity` removes a key past its deadline, and so does `Remove`.  Almost every executor starts
with one of them at each key it touches; such an executor cannot tell an expired key from one that
is not there.
-/

namespace Godis.Database

open Golang Program List

variable {F α β : Type}

def SlotLook.IsAsk : SlotLook F → Prop
  | .ask _ => True
  | .look _ => False

def SlotLook.IsOpening : SlotLook F → Prop
  | .look .getEntity => True
  | _ => False

def SlotOp.IsAsk : SlotOp F → Prop
  | .ask _ => True
  | _ => False

def SlotOp.IsOpening : SlotOp F → Prop
  | .look .getEntity => True
  | .change .remove => True
  | _ => False

def DbOp.Apart (key : Key) : DbOp F → Prop
  | .look other _ => other ≠ key
  | .change other _ => other ≠ key
  | .move source dest => source ≠ key ∧ dest ≠ key
  | .replace source dest => source ≠ key ∧ dest ≠ key
  | .survey _ => False
  | .log _ => True
  | .ask _ => True

def DbOp.IsOpening (key : Key) : DbOp F → Prop
  | .look other .getEntity => other = key
  | .change other .remove => other = key
  | _ => False

def ReaderOpens (program : SlotReader F α) : Prop :=
  program.Until SlotLook.IsAsk fun op _ => op.IsOpening

def SlotOpens (program : SlotProg F α) : Prop :=
  program.Until SlotOp.IsAsk fun op _ => op.IsOpening

def DbOpens (key : Key) (program : DbProg F α) : Prop :=
  program.Until (DbOp.Apart key) fun op _ => op.IsOpening key

/-! ## Rules -/

variable {program : SlotReader F α} {key : Key} {read written : List Key}

theorem SlotOpens.look (opens : ReaderOpens program) :
    SlotOpens (look program) := by
  refine Prog.Until.translate (fun op isAsk => ?_) (fun op _ isOpening => ?_) opens
  · cases op with
    | look method => exact isAsk
    | ask question => trivial
  · cases op with
    | look method =>
      cases method with
      | getEntity => trivial
      | _ => exact isOpening
    | ask question => exact isOpening

theorem ReaderOpens.bind {rest : α → SlotReader F β} (first : ReaderOpens program)
    (later : ∀ value, ReaderOpens (rest value)) :
    ReaderOpens (program >>= rest) :=
  Prog.Until.bind first later

theorem SlotOpens.bind {program : SlotProg F α} {rest : α → SlotProg F β}
    (first : SlotOpens program) (later : ∀ value, SlotOpens (rest value)) :
    SlotOpens (program >>= rest) :=
  Prog.Until.bind first later

theorem DbOpens.bind {program : DbProg F α} {rest : α → DbProg F β} (first : DbOpens key program)
    (later : ∀ value, DbOpens key (rest value)) :
    DbOpens key (program >>= rest) :=
  Prog.Until.bind first later

theorem apart_onKey {other : Key} (different : other ≠ key) {program : SlotProg F α} :
    (onKey other program).Uses (DbOp.Apart key) := by
  refine Prog.Uses.of_sent fun op => ?_
  cases op with
  | look method | change method => exact different
  | log line | ask question => trivial

theorem DbOpens.onKey {program : SlotProg F α} (opens : SlotOpens program) (key other : Key) :
    DbOpens key (onKey other program) := by
  by_cases same : other = key
  · refine Prog.Until.translate (fun op isAsk => ?_) (fun op _ isOpening => ?_) opens
    · cases op with
      | ask question => trivial
      | _ => exact isAsk.elim
    · cases op with
      | look method =>
        cases method with
        | getEntity => exact same
        | _ => exact isOpening
      | change method =>
        cases method with
        | remove => exact same
        | _ => exact isOpening
      | _ => exact isOpening
  · exact (apart_onKey same).until

theorem DbOpens.lookAt (opens : ReaderOpens program) (key other : Key) :
    DbOpens key (lookAt other program) := by
  rw [lookAt_eq_onKey]
  exact .onKey (.look opens) key other

theorem DbOp.Within.apart {op : DbOp F} (within : op.Within written read)
    (outside : key ∉ written ++ read) : op.Apart key := by
  have notWritten : ∀ {other}, other ∈ written → other ≠ key := fun member same =>
    outside (mem_append_left _ (same ▸ member))
  cases op with
  | look other method => exact fun same => outside (same ▸ within)
  | change other method => exact notWritten within
  | move source dest | replace source dest => exact ⟨notWritten within.1, notWritten within.2⟩
  | log line | ask question => trivial
  | survey question => exact within

theorem apart_of_within {program : DbProg F α} (uses : program.Uses (DbOp.Within written read))
    (outside : key ∉ written ++ read) :
    program.Uses (DbOp.Apart key) :=
  uses.mono fun _ within => within.apart outside

section OneKey

variable [Float64 F]

theorem settled_parseScoreBorder {text : Str} :
    (parseScoreBorder text : SlotReader F _).Settled := by
  rcases parseScoreBorder_eq (F := F) text with ⟨reason, stops⟩ | ⟨_, ends⟩ | ⟨_, ends⟩
  · exact .inr ⟨reason, stops⟩
  · exact .inl ⟨_, ends⟩
  · exact .inl ⟨_, ends⟩

def Name.isBlunt : Name → Bool
  | .del | .set | .setnx | .setex | .psetex | .mset | .rename | .sinterstore => true
  | .keys | .scan | .randomkey => true
  | _ => false

variable {name : Name}

theorem SlotOpens.of_changeKey {body : List Bytes → SlotProg F Reply}
    (changes : (command (F := F) name).executor = .changeKey body) (data : name.isData = true)
    (notBlunt : name.isBlunt = false) (args : List Bytes) : SlotOpens (body args) := by
  cases name with
  | setrange =>
    cases changes
    simp only [execSetRange]
    repeat' split
    all_goals first | trivial | exact .inr trivial | exact .inl ⟨trivial, fun _ => trivial⟩
  | zadd | geoadd =>
    cases changes
    simp only [execZAdd, execGeoAdd, addParsed]
    split
    · split
      · trivial
      · refine .bind (.look (settled_parseEach (by first
          | exact settled_parseElement
          | exact settled_parseLocation) _).until) fun read => ?_
        split
        · trivial
        · exact .inr trivial
    · trivial
  | zremrangebyscore =>
    cases changes
    simp only [execZRemRangeByScore]
    split
    · refine .bind (.look (settled_parseScoreBorder).until) fun min => ?_
      split
      · trivial
      · refine .bind (.look (settled_parseScoreBorder).until) fun max => ?_
        split
        · trivial
        · exact .inr trivial
    · trivial
  | expire | expireat | pexpire | pexpireat | getex | getset | incrby | incrbyfloat | decrby | append
  | setbit | lpush | lpushx | rpush | rpushx | lrem | lset | ltrim | linsert | hset | hsetnx | hdel
  | hmset | hincrby | hincrbyfloat | sadd | srem | spop | zincrby | zpopmin | zrem | zremrangebyrank
  | zremrangebylex =>
    cases changes
    simp only [execExpire, execExpireAt, execPExpire, execPExpireAt, expireWith, execGetEX, execGetSet,
      execIncrBy, execIncrByFloat, execDecrBy, execAppend, execSetBit, execLPush, execLPushX, execRPush,
      execRPushX, pushIfExists, execLRem, execLSet, execLTrim, execLInsert, execHSet, execHSetNX,
      execHDel, execHMSet, execHIncrBy, execHIncrByFloat, addToField, execSAdd, execSRem, execSPop,
      execZIncrBy, execZPopMin, execZRem, execZRemRangeByRank, execZRemRangeByLex]
    repeat' split
    all_goals first | trivial | exact .inr trivial
  | persist | getdel | incr | decr | lpop | rpop =>
    cases changes
    exact .inr trivial
  | _ => first | (cases data; done) | (cases notBlunt; done) | cases changes

end OneKey

/-! ## Commands on several keys -/

section Keys

variable (key : Key)
variable (args : List Bytes)

end Keys

/-! ## The command table -/

section Table

variable (execWithLock : Line → DbProg F Reply) (key : Key)

theorem DbOpens.readKey {body : List Bytes → SlotReader F Reply}
    (opens : ∀ args, ReaderOpens (body args)) (args : List Bytes) :
    DbOpens key ((Executor.readKey body).run execWithLock args) := by
  cases args with
  | nil => trivial
  | cons first more => exact .lookAt (opens _) key _

theorem DbOpens.changeKey {body : List Bytes → SlotProg F Reply}
    (opens : ∀ args, SlotOpens (body args)) (args : List Bytes) :
    DbOpens key ((Executor.changeKey body).run execWithLock args) := by
  cases args with
  | nil => trivial
  | cons first more => exact .onKey (opens _) key _

end Table

end Godis.Database
