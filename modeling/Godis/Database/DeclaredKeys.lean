import Godis.Database.NoEffect
import Godis.Database.Renaming
import Godis.Database.Sharing

/-!
# Commands keep to the keys they declare

Every command looks only at keys that its prepare function names, and changes only those it names
as written, with the exception of `RENAME`, `RENAMENX` and `RENAMEFROM`, which remove a key that
they declare as read, of the commands that execute a payload, and of those that write to an object
which `COPY` has put under another key, too.
-/

namespace Godis.Database

open Golang Program List

variable {F : Type}

namespace Name

def surveys : Name → Bool
  | .keys | .scan | .randomkey => true
  | _ => false

def loads : Name → Bool
  | .renameto | .renamenxto | .copyto => true
  | _ => false

/-- The commands that remove a key they declare as read. -/
def movesAway : Name → Bool
  | .rename | .renamenx | .renamefrom => true
  | _ => false

end Name

/-! ## Executors by their form -/

section Forms

variable {written read : List Key} (execWithLock : Line → DbProg F Reply)

variable {args : List Bytes}

theorem within_readKey (body : List Bytes → SlotReader F Reply)
    (known : ∀ key ∈ firstKey args, key ∈ written ++ read) :
    ((Executor.readKey body).run execWithLock args).Uses (DbOp.Within written read) := by
  cases args with
  | nil => trivial
  | cons key more => exact within_lookAt (known _ (by simp [firstKey]))

theorem within_changeKey (body : List Bytes → SlotProg F Reply)
    (known : ∀ key ∈ firstKey args, key ∈ written) :
    ((Executor.changeKey body).run execWithLock args).Uses (DbOp.Within written read) := by
  cases args with
  | nil => trivial
  | cons key more => exact within_onKey (known _ (by simp [firstKey]))

theorem within_readKeys {body : List Bytes → DbReader F Reply}
    (uses : (body args).Uses (DbLook.Within (args.map str))) :
    ((Executor.readKeys body).run execWithLock args).Uses (DbOp.Within [] (args.map str)) :=
  within_lookup uses fun _ member => member

theorem firstKey_subset : ∀ key ∈ firstKey args, key ∈ args.map str := by
  cases args with
  | nil => exact fun key member => member
  | cons first more => simp [firstKey]

end Forms

theorem within_execMGet {args : List Bytes} :
    (execMGet args : DbReader F _).Uses (DbLook.Within (args.map str)) :=
  (within_getStrings fun _ member => mem_map_of_mem member).bind fun _ => trivial

theorem within_execExists {args : List Bytes} :
    (execExists args : DbReader F _).Uses (DbLook.Within (args.map str)) :=
  (within_countExisting fun _ member => mem_map_of_mem member).bind fun _ => trivial

theorem within_execExistIn {args : List Bytes} :
    (execExistIn args : DbReader F _).Uses (DbLook.Within (args.map str)) := by
  refine (uses_existing fun _ member => within_readAt (mem_map_of_mem member)).bind
    fun found => ?_
  split
  · trivial
  · trivial

theorem within_execSInter {args : List Bytes} :
    (execSInter args : DbReader F _).Uses (DbLook.Within (args.map str)) := by
  refine (uses_getNonEmptySets fun _ member =>
    within_readAt (mem_map_of_mem member)).bind fun found => ?_
  split
  · trivial
  · exact within_replyWith

theorem within_execSUnion {args : List Bytes} :
    (execSUnion args : DbReader F _).Uses (DbLook.Within (args.map str)) := by
  refine (uses_getSets fun _ member => within_readAt (mem_map_of_mem member)).bind
    fun found => ?_
  split
  · trivial
  · exact within_replyWith

theorem within_execSDiff {args : List Bytes} :
    (execSDiff args : DbReader F _).Uses (DbLook.Within (args.map str)) := by
  refine (uses_getSets fun _ member => within_readAt (mem_map_of_mem member)).bind
    fun found => ?_
  split
  · trivial
  · exact within_replyWith

/-! ## The command table -/

section Table

variable [Float64 F]

variable {name : Name} {prepare : List Bytes → List Key × List Key}

theorem within_command (execWithLock : Line → DbProg F Reply) (noSurvey : name.surveys = false)
    (noLoad : name.loads = false) (stays : name.movesAway = false)
    (prepared : (command (F := F) name).prepare = some prepare) (args : List Bytes) :
    ((command (F := F) name).executor.run execWithLock args).Uses
      (DbOp.Within (prepare args).1 (prepare args).2) := by
  cases name with
  | del =>
    cases prepared
    exact within_execDel args
  | mset =>
    cases prepared
    exact within_execMSet args
  | msetnx =>
    cases prepared
    exact within_execMSetNX args
  | rpoplpush =>
    cases prepared
    exact within_execRPopLPush args
  | sinterstore =>
    cases prepared
    exact within_execSInterStore args
  | sunionstore | sdiffstore =>
    cases prepared
    exact within_storeSet
  | mget =>
    cases prepared
    exact within_readKeys _ within_execMGet
  | existin =>
    cases prepared
    exact within_readKeys _ within_execExistIn
  | sinter =>
    cases prepared
    exact within_readKeys _ within_execSInter
  | sunion =>
    cases prepared
    exact within_readKeys _ within_execSUnion
  | sdiff =>
    cases prepared
    exact within_readKeys _ within_execSDiff
  | dumpkey =>
    cases prepared
    refine within_readKey _ _ fun key member => ?_
    exact mem_append_left _ (firstKey_subset key member)
  | getver =>
    cases prepared
    exact within_readKey _ _ firstKey_subset
  | _ =>
    first
      | exact Bool.noConfusion noSurvey
      | exact Bool.noConfusion noLoad
      | exact Bool.noConfusion stays
      | (cases prepared; exact within_readKey _ _ fun key member => member)
      | (cases prepared; exact within_changeKey _ _ fun key member => member)
      | (cases prepared; exact within_readKeys _ within_execExists)
      | cases prepared

theorem touches_command (execWithLock : Line → DbProg F Reply) (noSurvey : name.surveys = false)
    (noLoad : name.loads = false) (prepared : (command (F := F) name).prepare = some prepare)
    (args : List Bytes) :
    ((command (F := F) name).executor.run execWithLock args).Uses
      (DbOp.Within ((prepare args).1 ++ (prepare args).2) []) := by
  cases moving : name.movesAway with
  | false =>
    refine (within_command execWithLock noSurvey noLoad moving prepared args).mono
      (within_mono (fun key member => mem_append_left _ member) fun key member => ?_)
    exact mem_append_left _ member
  | true =>
    cases name with
    | rename =>
      cases prepared
      exact within_execRename args
    | renamenx =>
      cases prepared
      exact within_execRenameNx args
    | renamefrom =>
      cases prepared
      exact within_changeKey _ _ fun key member => member
    | _ => cases moving

end Table

/-! ## Payloads -/

def payloadLine (key payload : Bytes) : Option Line :=
  match parseOne (str payload) with
  | some (.data (.multiBulk (name :: _ :: rest))) => some (name :: key :: rest)
  | _ => none

def payloadLines : List Bytes → List Line
  | key :: dump :: ttl :: _ => (payloadLine key dump).toList ++ (payloadLine key ttl).toList
  | _ => []

/-- What holds of every way `parseCmd` can end holds of a program that begins with it. -/
theorem bind_parseCmd {P : DbProg F α → Prop} {what : String} {key payload : Bytes}
    {rest : Except Reply Line → DbProg F α} (stopped : ∀ reason, P (.stop reason))
    (refused : ∀ reply, P (rest (.error reply)))
    (fine : ∀ line, payloadLine key payload = some line → P (rest (.ok line))) :
    P (lookup (parseCmd what key payload) >>= rest) := by
  unfold payloadLine at fine
  unfold parseCmd
  split
  · exact stopped _
  · exact refused _
  · rename_i parsed
    exact fine _ (by rw [parsed])
  · exact stopped _
  · exact refused _

/-- A property that the deletion of the key and the lines of the payloads can be put before holds
of the whole load. -/
theorem loadDump_rule {P : DbProg F Reply → Prop} {execWithLock : Line → DbProg F Reply}
    {args : List Bytes} (stopped : ∀ reason, P (.stop reason)) (returned : ∀ reply, P (pure reply))
    (removed : ∀ key ∈ firstKey args, ∀ rest, P rest → P (onKey key remove >>= fun _ => rest))
    (executed : ∀ line ∈ payloadLines args, ∀ rest, (∀ reply, P (rest reply)) →
      P (execWithLock line >>= rest)) :
    P (loadDump execWithLock args) := by
  unfold loadDump
  split
  · refine bind_parseCmd stopped returned fun dumpCmd isDump => ?_
    refine bind_parseCmd stopped returned fun ttlCmd isTtl => ?_
    refine removed _ (by simp [firstKey]) _ ?_
    refine executed dumpCmd (by simp [payloadLines, isDump]) _ fun dumpResult => ?_
    split
    · exact returned _
    · refine executed ttlCmd (by simp [payloadLines, isTtl]) _ fun ttlResult => ?_
      split
      · exact returned _
      · exact returned _
  · exact stopped _

section Payloads

variable [Float64 F]

variable {name : Name}

theorem special_of_unprepared (unprepared : (command (F := F) name).prepare = none) :
    (command (F := F) name).executor = .special := by
  cases name <;> first | rfl | cases unprepared

theorem executor_of_loads (loads : name.loads = true) :
    (command (F := F) name).executor = .load ∧
      (command (F := F) name).prepare = some writeFirstKey := by
  cases name <;> first | exact ⟨rfl, rfl⟩ | cases loads

end Payloads

/-! ## All commands -/

section Commands

variable [Float64 F]

namespace Held

variable (held : Held F) (env : Env F) (room : Key → Bool)

end Held

variable {known : Key → Prop}

omit [Float64 F] in
theorem agree_addVersion {space other : Space F}
    (same : ∀ key, known key → space.slots key = other.slots key) (keys : List Key) :
    Space.Agree known space other (space.addVersion keys) (other.addVersion keys) := by
  have slots : ∀ key, known key → (space.addVersion keys).slots key =
      (other.addVersion keys).slots key := by
    induction keys generalizing space other with
    | nil => exact same
    | cons first rest ih =>
      refine ih fun key member => ?_
      simp only [Space.bumpVersion, Function.update_apply]
      split
      · rename_i isFirst
        rw [← isFirst, same key member]
      · exact same key member
  exact ⟨slots, [], by simp, by simp⟩

variable {env : Env F} {space : Space F} {held : Held F} {room : Key → Bool} {head : Bytes}
  {args : List Bytes} {name : Name} {prepare : List Bytes → List Key × List Key}

variable (found : commandOf (head :: args) = some name)

variable (prepared : (command (F := F) name).prepare = some prepare)

variable (counted : validateArity (command (F := F) name).arity (head :: args) = true)

section Executed

include found prepared counted

theorem Held.execNormalCommand_eq : held.execNormalCommand env room (head :: args) =
    ((command name).executor.run (execWithLock (lineSize (head :: args))) args).run (handle env room)
      { held with space := held.space.addVersion (prepare args).1 } := by
  have found' : Name.ofText (toLower (str head)) = some name := found
  simp only [Held.execNormalCommand, found', counted, if_true, prepared]

end Executed

end Commands

/-- A set at `a` and a string at `k`. -/
def setAndString : Held Digit where
  space := oneString.write (lit "a") ⟨⟨some (.set {lit "x"}), none, 0⟩, []⟩
  shares _ _ := false

end Godis.Database
