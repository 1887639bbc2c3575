import Godis.Database.Visible

/-!
# Commands that fail have done nothing

An executor is careful if, once it has changed or logged anything, it can only end with a reply
that is no error.  All executors are, except that of `GETEX`.
-/

namespace Godis.Database

open Golang Program

variable {F α : Type}

/-- The client is not answered with an error: neither by the executor nor because it panicked. -/
def Benign : Except Stop Reply → Prop
  | .ok reply => reply.isError = false
  | .error reason => reason ≠ .panic

def SlotOp.IsLook : SlotOp F → Prop
  | .look _ => True
  | .ask _ => True
  | _ => False

def SlotCareful (program : SlotProg F Reply) : Prop :=
  program.Until SlotOp.IsLook fun _ next => ∀ answer, (next answer).Ends Benign

def DbCareful (program : DbProg F Reply) : Prop :=
  program.Until DbOp.IsLook fun _ next => ∀ answer, (next answer).Ends Benign

/-! ## Rules -/

theorem uses_look {program : SlotReader F α} : (look program).Uses SlotOp.IsLook := by
  refine Prog.Uses.of_sent fun op => ?_
  cases op with
  | look method | ask question => trivial

variable {program : SlotReader F α} {initial : α} {make : α → Value F} {view : Value F → Option α}
  {rest : α → DbProg F Reply} {key : Key} {body : List Bytes → SlotProg F Reply} {name : Name}

theorem SlotCareful.look {rest : α → SlotProg F Reply} (later : ∀ value, SlotCareful (rest value)) :
    SlotCareful (look program >>= rest) :=
  (uses_look).until_bind later

theorem slotCareful_look (program : SlotReader F Reply) : SlotCareful (look program) :=
  (uses_look).until

theorem SlotCareful.getOrInit {rest : Except Reply α → SlotProg F Reply}
    (refused : ∀ reply, SlotCareful (rest (.error reply)))
    (there : ∀ data, SlotCareful (rest (.ok data))) (fresh : (rest (.ok initial)).Ends Benign) :
    SlotCareful (getOrInit view make initial >>= rest) := by
  rw [Database.getOrInit, bind_assoc]
  refine SlotCareful.look fun found => ?_
  match found with
  | .error reply => exact refused reply
  | .ok (some data) => exact there data
  | .ok none => exact .inr fun _ => fresh

theorem DbCareful.onKey {program : SlotProg F Reply} (careful : SlotCareful program) (key : Key) :
    DbCareful (onKey key program) := by
  refine Prog.Until.translate (fun op isLook => ?_) (fun op next ends answer => ?_) careful
  · cases op with
    | look method | ask question => trivial
    | _ => exact isLook
  · exact (ends _).translate

theorem DbCareful.lookup {program : DbReader F α} (later : ∀ value, DbCareful (rest value)) :
    DbCareful (lookup program >>= rest) :=
  (uses_lookup program).until_bind later

theorem DbCareful.lookAt (later : ∀ value, DbCareful (rest value)) :
    DbCareful (lookAt key program >>= rest) :=
  DbCareful.lookup later

theorem DbCareful.getOrInit {rest : Except Reply α → DbProg F Reply}
    (refused : ∀ reply, DbCareful (rest (.error reply)))
    (there : ∀ data, DbCareful (rest (.ok data))) (fresh : (rest (.ok initial)).Ends Benign) :
    DbCareful (Database.onKey key (getOrInit view make initial) >>= rest) := by
  rw [Database.getOrInit, onKey_bind, bind_assoc, ← lookAt_eq_onKey]
  refine DbCareful.lookAt fun found => ?_
  match found with
  | .error reply => exact refused reply
  | .ok (some data) => exact there data
  | .ok none => exact .inr fun _ => fresh

/-! ## Key commands -/

theorem ends_removes {keys : List Key} :
    (removes keys : DbProg F Nat).Ends fun ended => ∃ value, ended = .ok value := by
  induction keys with
  | nil => exact ⟨0, rfl⟩
  | cons key rest ih =>
    rintro (_ | _)
    · exact ih
    · exact fun _ => ih.bind fun value => ⟨_, rfl⟩

theorem careful_removes {keys : List Key} {rest : Nat → DbProg F Reply}
    (ending : ∀ count, (rest count).Ends Benign) (careful : DbCareful (rest 0)) :
    DbCareful (removes keys >>= rest) := by
  induction keys with
  | nil => exact careful
  | cons key others ih =>
    rw [removes, bind_assoc]
    refine .lookAt fun found => ?_
    cases found with
    | none => exact ih
    | some value =>
      refine .inr fun _ => ?_
      change ((removes others >>= fun count => pure (count + 1)) >>= rest).Ends Benign
      rw [bind_assoc]
      exact (ends_removes).bind fun count => ending (count + 1)

variable (args : List Bytes)

theorem careful_execDel : DbCareful (execDel args : DbProg F _) := by
  refine careful_removes (fun count => ?_) trivial
  split
  · exact fun _ => rfl
  · exact rfl

theorem ends_moveDeadline {source dest : Key} {deadline : Option Int} :
    (moveDeadline source dest deadline : DbProg F Unit).Ends fun ended => ∃ value, ended = .ok value := by
  cases deadline with
  | none => exact ⟨(), rfl⟩
  | some deadline => exact fun _ _ _ => ⟨(), rfl⟩

theorem careful_execRename : DbCareful (execRename args : DbProg F _) := by
  unfold execRename
  split
  · refine .lookAt fun found => ?_
    split
    · trivial
    · refine .lookAt fun deadline => .inr fun _ => ?_
      exact (ends_moveDeadline).bind fun _ _ => rfl
  · trivial

theorem careful_execRenameNx : DbCareful (execRenameNx args : DbProg F _) := by
  unfold execRenameNx
  split
  · refine .lookAt fun found => ?_
    split
    · trivial
    · refine .lookAt fun found => ?_
      split
      · trivial
      · refine .lookAt fun deadline => .inr fun _ => ?_
        exact (ends_moveDeadline).bind fun _ _ => rfl
  · trivial

/-! ## String commands -/

theorem careful_execSet : SlotCareful (execSet args : SlotProg F _) := by
  unfold execSet
  split
  · split
    · trivial
    · rename_i policy ttl _
      cases policy with
      | upsert =>
        refine .inr fun _ => ?_
        split
        · exact fun _ _ _ _ => rfl
        · exact fun _ _ => rfl
      | insert | update =>
        refine .inr fun result => ?_
        dsimp only [Prog.bind]
        split
        · exact rfl
        · split
          · exact fun _ _ _ _ => rfl
          · exact fun _ _ => rfl
  · trivial

variable (entries : List (Bytes × Bytes))

theorem ends_putAll :
    (putAll entries : DbProg F Unit).Ends fun ended => ∃ value, ended = .ok value := by
  induction entries with
  | nil => exact ⟨(), rfl⟩
  | cons entry rest ih => exact fun _ => ih

theorem careful_putAll {rest : Unit → DbProg F Reply}
    (ending : (rest ()).Ends Benign) (careful : DbCareful (rest ())) :
    DbCareful (putAll entries >>= rest) := by
  cases entries with
  | nil => exact careful
  | cons entry entries => exact .inr fun _ => (ends_putAll entries).bind fun _ => ending

theorem careful_execMSet : DbCareful (execMSet args : DbProg F _) := by
  unfold execMSet
  split
  · trivial
  · exact careful_putAll _ (fun _ => rfl) (.inr fun _ => rfl)

theorem careful_execMSetNX : DbCareful (execMSetNX args : DbProg F _) := by
  unfold execMSetNX
  split
  · trivial
  · refine .lookup fun found => ?_
    split
    · trivial
    · exact careful_putAll _ (fun _ => rfl) (.inr fun _ => rfl)

/-! ## List commands -/

theorem ends_listNow :
    (lookAt key listNow : DbProg F _).Ends fun ended => ∃ value, ended = .ok value := by
  have ends : (listNow : SlotReader F _).Ends fun ended => ∃ value, ended = .ok value := by
    rintro (_ | value)
    · exact ⟨[], rfl⟩
    · cases value with
      | list elements => exact ⟨elements, rfl⟩
      | _ => exact ⟨[], rfl⟩
  exact ends.translate.translate

theorem careful_execRPopLPush :
    DbCareful (execRPopLPush args : DbProg F _) := by
  unfold execRPopLPush
  split
  · rename_i source dest more
    refine .lookAt fun found => ?_
    split
    · trivial
    · trivial
    · rename_i elements
      refine .getOrInit (fun _ => trivial) (fun _ => .inr ?_) ?_
      all_goals
        intro _
        refine (ends_listNow).bind fun destination _ => ?_
        refine (ends_listNow).bind fun left => ?_
        split
        · exact fun _ _ => rfl
        · exact fun _ => rfl
  · trivial

/-! ## Hash commands -/

theorem careful_execHSetNX : SlotCareful (execHSetNX args : SlotProg F _) := by
  unfold execHSetNX
  split
  · refine .getOrInit (fun _ => trivial) (fun fields => ?_) ?_
    · dsimp only
      split
      · trivial
      · exact .inr fun _ _ => rfl
    · dsimp only
      split
      · exact rfl
      · exact fun _ _ => rfl
  · trivial

theorem careful_addToField {name : String} {parse : Str → Option α} {sumOf : α → α → Str}
    {notNumber badValue : Reply} :
    SlotCareful (addToField name parse sumOf notNumber badValue args : SlotProg F _) := by
  unfold addToField
  split
  · split
    · trivial
    · refine .getOrInit (fun _ => trivial) (fun fields => ?_) ?_
      · dsimp only
        split
        · exact .inr fun _ _ => rfl
        · split
          · trivial
          · exact .inr fun _ _ => rfl
      · exact fun _ _ => rfl
  · trivial

/-! ## Set commands -/

theorem careful_execSInterStore :
    DbCareful (execSInterStore args : DbProg F _) := by
  unfold execSInterStore
  split
  · refine .lookup fun found => ?_
    split
    · trivial
    · exact .inr fun _ _ => rfl
  · trivial

theorem careful_storeSet {name : String} {combine : List (Finset Str) → Finset Str}
    {args : List Bytes} : DbCareful (storeSet name combine args : DbProg F _) := by
  unfold storeSet
  split
  · refine .lookup fun found => ?_
    split
    · trivial
    · refine .inr fun _ => ?_
      split
      · exact rfl
      · exact fun _ _ => rfl
  · trivial

/-! ## Sorted set and geo commands -/

section SortedSets

variable [Float64 F]

omit [Float64 F] in
theorem careful_addElements {name : String} {args : List Bytes} {elements : List (Element Str F)} :
    SlotCareful (addElements name args elements) :=
  .getOrInit (fun _ => trivial) (fun _ => .inr fun _ _ => rfl) fun _ _ => rfl

theorem careful_execZIncrBy {args : List Bytes} :
    SlotCareful (execZIncrBy args : SlotProg F _) := by
  unfold execZIncrBy
  split
  · split
    · trivial
    · rename_i delta _
      refine .getOrInit (fun _ => trivial) (fun scores => ?_) ?_
      · dsimp only
        split
        · exact .inr fun _ _ => rfl
        · split
          · trivial
          · exact .inr fun _ _ => rfl
        · trivial
      · cases delta with
        | none => exact Stop.noConfusion
        | some delta => exact fun _ _ => rfl
  · trivial

end SortedSets

/-! ## The command table -/

theorem SlotCareful.of_changeKey [Float64 F]
    (changes : (command (F := F) name).executor = .changeKey body) (data : name.isData = true)
    (other : name ≠ .getex) (args : List Bytes) : SlotCareful (body args) := by
  cases name with
  | set => cases changes; exact careful_execSet args
  | hincrby => cases changes; exact careful_addToField args
  | hincrbyfloat => cases changes; exact careful_addToField args
  | zincrby => cases changes; exact careful_execZIncrBy
  | hsetnx => cases changes; exact careful_execHSetNX args
  | lpush | rpush | hset | hmset | sadd =>
    cases changes
    simp only [execLPush, execRPush, execHSet, execHMSet, execSAdd]
    repeat' split
    all_goals first
      | trivial
      | exact .getOrInit (fun _ => trivial) (fun _ => .inr fun _ _ => rfl) fun _ _ => rfl
  | zadd | geoadd =>
    cases changes
    simp only [execZAdd, execGeoAdd, addParsed]
    repeat' first
      | split
      | refine .look fun _ => ?_
    all_goals first
      | trivial
      | exact careful_addElements
  | expire | expireat | pexpire | pexpireat | persist | setnx | setex | psetex | getset | getdel
  | incr | incrby | incrbyfloat | decr | decrby | append | setrange | setbit =>
    cases changes
    simp only [execExpire, execExpireAt, execPExpire, execPExpireAt, expireWith, execPersist,
      execSetNX, execSetEX, execPSetEX, setWithTtl, execGetSet, execGetDel, execIncr, execIncrBy,
      execIncrByFloat, execDecr, execDecrBy, addInteger, execAppend, execSetRange, execSetBit]
    repeat' first
      | split
      | refine .look fun _ => ?_
      | exact slotCareful_look _
    all_goals first
      | trivial
      | exact .inr fun _ _ => rfl
      | exact .inr fun _ _ _ => rfl
      | exact .inr fun _ _ _ _ _ => rfl
      | exact .inr fun _ _ _ => by cases ‹Bytes› <;> exact rfl
  | lpop | rpop | lpushx | rpushx | lrem | lset | ltrim | linsert | hdel | srem | spop | zpopmin | zrem
  | zremrangebyrank | zremrangebylex | zremrangebyscore =>
    cases changes
    simp only [execLPop, execRPop, popMany, popAndLog, execLPushX, execRPushX, pushIfExists, execLRem,
      execLSet, execLTrim, execLInsert, execHDel, execSRem, execSPop, sPop, execZPopMin, execZRem,
      execZRemRangeByRank, execZRemRangeByLex, execZRemRangeByScore]
    repeat' first
      | split
      | refine .look fun _ => ?_
    all_goals first
      | trivial
      | exact .inr fun _ => rfl
      | exact .inr fun _ _ => rfl
      | exact .inr fun _ _ _ => rfl
  | _ => first | (cases data; done) | exact absurd rfl other | cases changes

theorem careful_readKey {execWithLock : Line → DbProg F Reply}
    (body : List Bytes → SlotReader F Reply) {args : List Bytes} :
    DbCareful ((Executor.readKey body).run execWithLock args) := by
  cases args with
  | nil => trivial
  | cons key more => exact (uses_lookAt).until

theorem careful_readKeys {execWithLock : Line → DbProg F Reply}
    (body : List Bytes → DbReader F Reply) {args : List Bytes} :
    DbCareful ((Executor.readKeys body).run execWithLock args) :=
  (uses_lookup _).until

theorem careful_changeKey {execWithLock : Line → DbProg F Reply}
    (careful : ∀ args, SlotCareful (body args)) {args : List Bytes} :
    DbCareful ((Executor.changeKey body).run execWithLock args) := by
  cases args with
  | nil => trivial
  | cons key more => exact .onKey (careful _) _

theorem careful_command [Float64 F] (execWithLock : Line → DbProg F Reply)
    (data : name.isData = true) (other : name ≠ .getex) (args : List Bytes) :
    DbCareful ((command (F := F) name).executor.run execWithLock args) := by
  cases name with
  | del => exact careful_execDel args
  | rename => exact careful_execRename args
  | renamenx => exact careful_execRenameNx args
  | mset => exact careful_execMSet args
  | msetnx => exact careful_execMSetNX args
  | rpoplpush => exact careful_execRPopLPush args
  | sinterstore => exact careful_execSInterStore args
  | sunionstore | sdiffstore => exact careful_storeSet
  | _ =>
    first
      | exact careful_readKey _
      | exact careful_readKeys _
      | exact careful_changeKey (.of_changeKey rfl data other)
      | cases data

end Godis.Database

