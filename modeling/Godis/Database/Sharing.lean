import Godis.Database.Server
import Godis.Database.WriteSets

/-!
# Keys that hold one object

`COPY` puts the entity of one key under another.  What a command then changes in place under one of
them is changed under both, and so it is for keys whose slices share an array.
-/

namespace Godis.Database

open Golang Program

variable {F α : Type}

/-- What a slice or a pointer shows of its object after something was written to it elsewhere. -/
def Value.overlaid : Value F → Value F → Value F
  | .string new, .string bytes =>
    .string (bytes.map fun bytes => (str new).take bytes.length ++ bytes.drop (str new).length)
  | written, _ => written

def Space.overlay (space : Space F) (sharer : Key → Bool) (written : Value F) : Space F where
  slots key :=
    if sharer key then
      { space.slots key with value := (space.slots key).value.map written.overlaid }
    else space.slots key
  keys := space.keys
  mem_keys key := by
    rw [space.mem_keys]
    split
    · exact Option.isSome_map.symm ▸ Iff.rfl
    · rfl
  events := space.events

/-- A database, with the pairs of keys that hold one object. -/
structure Held (F : Type) where
  space : Space F
  shares : Key → Key → Bool

/-- What is written to the object of the key.  `append` writes to it if the array has room. -/
def Change.inPlace (room : Bool) (slot : Slot F) : Change F → Option (Value F)
  | .mutate value => slot.value.map fun _ => value
  | .extend bytes => if room then slot.value.map fun _ => .string bytes else none
  | _ => none

def DbOp.inPlace (room : Key → Bool) (space : Space F) : DbOp F → Option (Key × Value F)
  | .change key method => (method.inPlace (room key) (space.slots key)).map (key, ·)
  | _ => none

/-- Whether the key gets a new object. -/
def Change.stores (room : Bool) (slot : Slot F) : Change F → Bool
  | .put _ => true
  | .extend _ => slot.value.isNone || !room
  | .putIfAbsent _ => slot.value.isNone
  | .putIfExists _ => slot.value.isSome
  | _ => false

namespace Held

variable (held : Held F)

/-- The key has an object of its own. -/
def alone (key first second : Key) : Bool :=
  held.shares first second && first ≠ key && second ≠ key

/-- `dest` holds the object of `source`. -/
def joined (source dest first second : Key) : Bool :=
  let origin (key : Key) := if key = dest then source else key
  if first = dest ∨ second = dest then
    origin first = origin second || held.shares (origin first) (origin second)
  else held.shares first second

def sharing (room : Key → Bool) : DbOp F → Key → Key → Bool
  | .change key method =>
    if method.stores (room key) (held.space.slots key) then held.alone key else held.shares
  | .move source dest | .replace source dest =>
    if (held.space.slots source).value.isSome then held.joined source dest else held.shares
  | _ => held.shares

/-- An operation, and what the keys that share the object it writes see of it. -/
def handle (env : Env F) (room : Key → Bool) : Program.Handler (DbOp.Answer (F := F)) (Held F) :=
  fun op held =>
    let ended := dbHandle env op held.space
    (ended.1,
      { space := (op.inPlace room held.space).elim ended.2 fun entry =>
          ended.2.overlay (fun other => other ≠ entry.1 && held.shares entry.1 other) entry.2
        shares := held.sharing room op })

/-- `execCopy` of two keys of one database. -/
def execCopy (env : Env F) (source dest : Key) (replace : Bool) : Reply × Held F :=
  let looked := dbHandle env (.look source .getEntity) held.space
  let found := dbHandle env (.look dest .getEntity) looked.2
  match looked.1 with
  | none => (.int 0, { held with space := looked.2 })
  | some value =>
    if Option.isSome (α := Value F) found.1 && !replace then (.int 0, { held with space := found.2 })
    else (.int 1, ⟨Server.copyTo dest value (looked.2.slots source).deadline found.2, held.joined source dest⟩)

def execNormalCommand [Float64 F] (env : Env F) (room : Key → Bool) (line : Line) :
    Except Stop Reply × Held F :=
  match line with
  | [] => (.error .panic, held)
  | name :: args =>
    match Name.ofText (toLower (str name)) with
    | none => (.ok (.unknownCommand (toLower (str name))), held)
    | some found =>
      if validateArity (command (F := F) found).arity (name :: args) then
        match (command (F := F) found).prepare with
        | none => (.error .panic, held)
        | some prepare =>
          ((command found).executor.run (execWithLock (lineSize (name :: args))) args).run
            (handle env room) { held with space := held.space.addVersion (prepare args).1 }
      else (.ok (.argNumErr (toLower (str name))), held)

/-- Keys of different owners hold different objects. -/
def Apart {Owner : Type} (owner : Key → Owner) : Prop :=
  ∀ first second, owner first ≠ owner second → held.shares first second = false

variable {held} {env : Env F} {room : Key → Bool} {op : DbOp F} {written read : List Key}

/-! ## Operations within the declared keys -/

theorem mem_of_inPlace (within : op.Within written read) {space : Space F} {entry : Key × Value F}
    (inPlace : op.inPlace room space = some entry) : entry.1 ∈ written := by
  cases op with
  | change key method =>
    obtain ⟨_, -, rfl⟩ := Option.map_eq_some_iff.mp inPlace
    exact within
  | _ => cases inPlace

theorem handle_slots {other : Key}
    (unshared : ∀ entry, op.inPlace room held.space = some entry → held.shares entry.1 other = false) :
    (handle env room op held).2.space.slots other = (dbHandle env op held.space).2.slots other := by
  simp only [handle]
  cases inPlace : op.inPlace room held.space with
  | none => rfl
  | some entry => simp [Space.overlay, unshared entry inPlace]

section Owners

variable {Owner : Type} {owner : Key → Owner}

theorem Apart.joined (apart : held.Apart owner) {source dest : Key} (same : owner source = owner dest)
    {first second : Key} (different : owner first ≠ owner second) :
    held.joined source dest first second = false := by
  have origin : ∀ key, owner (if key = dest then source else key) = owner key := by
    intro key
    split
    · rename_i isDest
      rw [same, isDest]
    · rfl
  have apart' : owner (if first = dest then source else first) ≠
      owner (if second = dest then source else second) := by
    rwa [origin, origin]
  simp only [Held.joined, apart _ _ apart', apart _ _ different, Bool.or_false,
    decide_eq_false (mt (congrArg owner) apart'), ite_self]

theorem Apart.handle (within : op.Within written read)
    (one : ∀ first ∈ written, ∀ second ∈ written, owner first = owner second)
    (apart : held.Apart owner) : (handle env room op held).2.Apart owner := by
  intro first second different
  have before := apart first second different
  change held.sharing room op first second = false
  cases op with
  | change key method =>
    simp only [sharing]
    split
    · simp only [alone, before, Bool.false_and]
    · exact before
  | move source dest | replace source dest =>
    simp only [sharing]
    split
    · exact apart.joined (one _ within.1 _ within.2) different
    · exact before
  | _ => exact before

theorem slots_handle (within : op.Within written read) (apart : held.Apart owner) {key : Key}
    (foreign : ∀ other ∈ written, owner other ≠ owner key) :
    (handle env room op held).2.space.slots key = (dbHandle env op held.space).2.slots key :=
  handle_slots fun _ inPlace => apart _ _ (foreign _ (mem_of_inPlace within inPlace))

variable {program : DbProg F α} (uses : program.Uses (DbOp.Within written read))
  (one : ∀ first ∈ written, ∀ second ∈ written, owner first = owner second)
include uses one

theorem Apart.run (apart : held.Apart owner) : (program.run (Held.handle env room) held).2.Apart owner :=
  uses.run_preserves (fun reached => Apart reached owner) (fun _ _ within => .handle within one) apart

theorem Apart.run_outside (apart : held.Apart owner) {key : Key}
    (foreign : ∀ other ∈ written, owner other ≠ owner key) (Same : Slot F → Prop)
    (kept : ∀ op space, op.Within written read → Same (space.slots key) →
      Same ((dbHandle env op space).2.slots key)) (same : Same (held.space.slots key)) :
    Same ((program.run (Held.handle env room) held).2.space.slots key) := by
  refine (uses.run_preserves (fun reached => Apart reached owner ∧ Same (reached.space.slots key))
    ?_ ⟨apart, same⟩).2
  intro op reached within holds
  refine ⟨holds.1.handle within one, ?_⟩
  rw [slots_handle within holds.1 foreign]
  exact kept op reached.space within holds.2

end Owners

theorem seen_of_uses_within {program : DbProg F α} (uses : program.Uses (DbOp.Within written read))
    (apart : held.Apart fun key => decide (key ∈ written)) {key : Key} (outside : key ∉ written) :
    (program.run (handle env room) held).2.space.seen env.now key = held.space.seen env.now key := by
  refine apart.run_outside uses (fun first isFirst second isSecond => ?_) (fun other isOther => ?_)
    (fun slot => slot.seen env.now = held.space.seen env.now key)
    (fun op space within same => (seen_of_within env within space outside).trans same) rfl
  · rw [decide_eq_true isFirst, decide_eq_true isSecond]
  · rw [decide_eq_true isOther, decide_eq_false outside]
    exact Bool.noConfusion

theorem shares_handle (within : op.Within written read) {first second : Key}
    (notFirst : first ∉ written) (notSecond : second ∉ written) :
    (handle env room op held).2.shares first second = held.shares first second := by
  have ne {key other : Key} (outside : other ∉ written) (member : key ∈ written) : other ≠ key :=
    fun same => outside (same ▸ member)
  change held.sharing room op first second = _
  cases op with
  | change key method =>
    simp only [sharing]
    split
    · simp [alone, ne notFirst within, ne notSecond within]
    · rfl
  | move source dest | replace source dest =>
    simp only [sharing]
    split
    · simp only [joined, ne notFirst within.2, ne notSecond within.2, or_self, if_false]
    · rfl
  | _ => rfl

/-- The databases agree on the keys, also on which of them hold one object. -/
structure Agree (known : Key → Prop) (start start' : Space F) (held held' : Held F) : Prop where
  space : Space.Agree known start start' held.space held'.space
  shares : ∀ first, known first → ∀ second, known second →
    held.shares first second = held'.shares first second

variable {held' : Held F} {start start' : Space F} {known : Key → Prop}

theorem agree_of_within (within : op.Within written read) (all : ∀ key ∈ written ++ read, known key)
    (agree : Agree known start start' held held') :
    (handle env room op held).1 = (handle env room op held').1 ∧
      Agree known start start' (handle env room op held).2 (handle env room op held').2 := by
  have isKnown : ∀ key ∈ written, known key := fun key member => all key (List.mem_append_left _ member)
  obtain ⟨answer, space⟩ := Database.agree_of_within env within all agree.space
  refine ⟨answer, ?_, ?_⟩
  · have same : op.inPlace room held.space = op.inPlace room held'.space := by
      cases op with
      | change key method => simp only [DbOp.inPlace, agree.space.slots key (isKnown key within)]
      | _ => rfl
    simp only [handle, same]
    cases inPlace : op.inPlace room held'.space with
    | none => exact space
    | some entry =>
      refine ⟨fun key member => ?_, space.events⟩
      simp only [Option.elim_some, Space.overlay, space.slots key member,
        agree.shares _ (isKnown _ (mem_of_inPlace within inPlace)) key member]
  · intro first isFirst second isSecond
    change held.sharing room op first second = held'.sharing room op first second
    have same := agree.shares first isFirst second isSecond
    have origin {source dest : Key} (isSource : known source) {key : Key} (isKey : known key) :
        known (if key = dest then source else key) := by
      split
      · exact isSource
      · exact isKey
    cases op with
    | change key method =>
      simp only [sharing, agree.space.slots key (isKnown key within)]
      split
      · simp only [alone, same]
      · exact same
    | move source dest | replace source dest =>
      have isSource := isKnown source within.1
      simp only [sharing, agree.space.slots source isSource]
      split
      · simp only [joined, same, agree.shares _ (origin isSource isFirst) _ (origin isSource isSecond)]
      · exact same
    | _ => exact same

theorem agree_of_uses_within {program : DbProg F α}
    (uses : program.Uses (DbOp.Within written read)) (all : ∀ key ∈ written ++ read, known key)
    (agree : Agree known start start' held held') :
    (program.run (handle env room) held).1 = (program.run (handle env room) held').1 ∧
      Agree known start start' (program.run (handle env room) held).2
        (program.run (handle env room) held').2 :=
  uses.run_related (Agree known start start')
    (fun _ _ _ within agree => agree_of_within within all agree) agree

end Held

/-! ## Commands that write nothing in place -/

variable {allowed : Value F → Prop}

/-- Nothing is written in place, and an object that is put is an allowed one. -/
def Change.Fresh (allowed : Value F → Prop) : Change F → Prop
  | .mutate _ | .extend _ => False
  | .put value | .putIfAbsent value | .putIfExists value => allowed value
  | .remove | .expire _ | .persist => True

def SlotOp.Fresh (allowed : Value F → Prop) : SlotOp F → Prop
  | .change method => method.Fresh allowed
  | _ => True

def DbOp.Fresh (allowed : Value F → Prop) : DbOp F → Prop
  | .change _ method => method.Fresh allowed
  | _ => True

/-- The commands that write to the object a key holds, or execute a payload that may. -/
def Name.inPlace : Name → Bool
  | .append | .setrange | .setbit | .lpush | .lpushx | .rpush | .rpushx | .lpop | .rpop | .rpoplpush
  | .lrem | .lset | .ltrim | .linsert | .hset | .hsetnx | .hdel | .hmset | .hincrby | .hincrbyfloat
  | .sadd | .srem | .spop | .zadd | .zincrby | .zpopmin | .zrem | .zremrangebyscore
  | .zremrangebyrank | .zremrangebylex | .geoadd | .renameto | .renamenxto | .copyto => true
  | _ => false

theorem fresh_look {program : SlotReader F α} : (look program).Uses (SlotOp.Fresh allowed) :=
  uses_look.mono fun op looks => by
    cases op with
    | look method | ask question => trivial
    | change method | log line => exact absurd looks id

theorem fresh_lookup {program : DbReader F α} : (lookup program).Uses (DbOp.Fresh allowed) :=
  (uses_lookup program).mono fun op looks => by
    cases op with
    | look key method | survey question | ask question => trivial
    | _ => exact absurd looks id

theorem fresh_onKey {key : Key} {program : SlotProg F α}
    (fresh : program.Uses (SlotOp.Fresh allowed)) : (onKey key program).Uses (DbOp.Fresh allowed) := by
  refine fresh.translate fun op fresh => ?_
  cases op with
  | change method => exact fresh
  | _ => trivial

theorem fresh_change {key : Key} (method : Change F) (fresh : method.Fresh allowed) :
    (onKey key (Prog.ask (SlotOp.change method))).Uses (DbOp.Fresh allowed) :=
  fresh_onKey (Prog.uses_ask.mpr fresh)

theorem fresh_getExOptions (options : List Bytes) (ttl : Int) :
    (getExOptions options ttl : SlotProg F _).Uses (SlotOp.Fresh allowed) := by
  fun_induction getExOptions options ttl <;>
    first
      | trivial
      | assumption
      | exact Prog.Uses.bind (Prog.uses_ask.mpr trivial) fun _ => ‹_›

theorem fresh_changeKey [Float64 F] {name : Name} {body : List Bytes → SlotProg F Reply}
    (changes : (command (F := F) name).executor = .changeKey body) (fresh : name.inPlace = false)
    (strings : ∀ bytes, allowed (.string bytes)) (args : List Bytes) :
    (body args).Uses (SlotOp.Fresh allowed) := by
  cases name with
  | set =>
    cases changes
    have put (policy : Policy) (value : Bytes) : (putByPolicy policy value : SlotProg F _).Uses
        (SlotOp.Fresh allowed) := by
      cases policy with
      | upsert | insert | update => exact ⟨strings _, fun _ => trivial⟩
    unfold execSet
    repeat' first
      | trivial
      | split
      | refine Prog.Uses.bind fresh_look fun _ => ?_
      | refine Prog.Uses.bind (put _ _) fun _ => ?_
      | refine Prog.Uses.bind (Prog.uses_ask.mpr trivial) fun _ => ?_
  | getex =>
    cases changes
    unfold execGetEX
    repeat' first
      | trivial
      | split
      | refine Prog.Uses.bind fresh_look fun _ => ?_
      | refine Prog.Uses.bind (fresh_getExOptions _ _) fun _ => ?_
      | refine Prog.Uses.bind (Prog.uses_ask.mpr trivial) fun _ => ?_
  | expire | expireat | pexpire | pexpireat | persist | setnx | setex | psetex | getset | getdel
  | incr | incrby | incrbyfloat | decr | decrby | renamefrom =>
    cases changes
    simp only [execExpire, execExpireAt, execPExpire, execPExpireAt, expireWith, execPersist,
      execSetNX, execSetEX, execPSetEX, setWithTtl, execGetSet, execGetDel, execIncr, execIncrBy,
      execIncrByFloat, execDecr, execDecrBy, addInteger, execRenameFrom]
    repeat' first
      | exact fresh_look
      | trivial
      | split
      | refine Prog.Uses.bind fresh_look fun _ => ?_
      | refine Prog.Uses.bind (Prog.uses_ask.mpr trivial) fun _ => ?_
      | refine Prog.Uses.bind (Prog.uses_ask.mpr (strings _)) fun _ => ?_
  | _ => first | (cases fresh; done) | cases changes

theorem fresh_moveDeadline {source dest : Key} {deadline : Option Int} :
    (moveDeadline source dest deadline : DbProg F _).Uses (DbOp.Fresh allowed) := by
  cases deadline with
  | none => trivial
  | some deadline =>
    exact (fresh_change .persist trivial).bind fun _ =>
      (fresh_change .persist trivial).bind fun _ => fresh_change (.expire deadline) trivial

theorem fresh_removes (keys : List Key) :
    (removes keys : DbProg F _).Uses (DbOp.Fresh allowed) := by
  induction keys with
  | nil => trivial
  | cons key rest ih =>
    refine Prog.Uses.bind fresh_lookup fun entity => ?_
    cases entity with
    | none => exact ih
    | some value =>
      exact (fresh_change .remove trivial).bind fun _ => ih.bind fun _ => trivial

theorem fresh_putAll (strings : ∀ bytes, allowed (.string bytes)) (entries : List (Bytes × Bytes)) :
    (putAll entries : DbProg F _).Uses (DbOp.Fresh allowed) := by
  induction entries with
  | nil => trivial
  | cons entry rest ih => exact (fresh_change (.put _) (strings _)).bind fun _ => ih

/-- `SUNIONSTORE` and `SDIFFSTORE` put no empty set, `SINTERSTORE` may. -/
theorem fresh_command [Float64 F] {name : Name} (fresh : name.inPlace = false)
    (strings : ∀ bytes, allowed (.string bytes))
    (sets : ∀ members, name = .sinterstore ∨ members.card ≠ 0 → allowed (.set members))
    (execWithLock : Line → DbProg F Reply) (args : List Bytes) :
    ((command (F := F) name).executor.run execWithLock args).Uses (DbOp.Fresh allowed) := by
  cases executor : (command (F := F) name).executor with
  | readKey body =>
    cases args with
    | nil => trivial
    | cons key more => exact fresh_lookup
  | readKeys body => exact fresh_lookup
  | changeKey body =>
    cases args with
    | nil => trivial
    | cons key more => exact fresh_onKey (fresh_changeKey executor fresh strings _)
  | changeKeys body =>
    change (body args).Uses (DbOp.Fresh allowed)
    cases name with
    | del | mset | msetnx | rename | renamenx | sinterstore | sunionstore | sdiffstore =>
      cases executor
      simp only [execDel, execMSet, execMSetNX, execRename, execRenameNx, execSInterStore,
        execSUnionStore, execSDiffStore, storeSet]
      repeat' first
        | trivial
        | exact sets _ (.inl rfl)
        | exact sets _ (.inr ‹_›)
        | split
        | refine Prog.Uses.bind fresh_lookup fun _ => ?_
        | refine Prog.Uses.bind (fresh_removes _) fun _ => ?_
        | refine Prog.Uses.bind (fresh_putAll strings _) fun _ => ?_
        | refine Prog.Uses.bind fresh_moveDeadline fun _ => ?_
        | refine fresh_onKey ?_
        | refine Prog.Uses.bind (Prog.uses_ask.mpr ?_) fun _ => ?_
    | _ => first | (cases fresh; done) | cases executor
  | load => cases name <;> first | (cases fresh; done) | cases executor
  | special => trivial

end Godis.Database
