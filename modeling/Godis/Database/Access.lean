import Godis.Database.Space

/-!
# Access to the data of a key

The methods of `DB` as the executors call them, and the typed access every executor starts with:
`getAsString`, `getAsList` and so on in `database/string.go`, `list.go`, ...
-/

namespace Godis.Database

open Golang Program

variable {F α : Type}

/-! ## Methods of `DB` -/

def getEntity : SlotReader F (Option (Value F)) :=
  Prog.ask (SlotLook.look .getEntity)

/-- `db.data.GetWithLock(key)`, and what a pointer to the data sees later on. -/
def peek : SlotReader F (Option (Value F)) :=
  Prog.ask (SlotLook.look .peek)

def isExpired : SlotReader F Bool :=
  Prog.ask (SlotLook.look .isExpired)

def expireTime : SlotReader F (Option Int) :=
  Prog.ask (SlotLook.look .deadline)

def getVersion : SlotReader F Nat :=
  Prog.ask (SlotLook.look .version)

def timeNow : SlotReader F Int :=
  Prog.ask (SlotLook.ask .now)

def inOrder (members : Finset Str) : SlotReader F (List Str) :=
  Prog.ask (SlotLook.ask (.order members))

def randomDistinct (members : Finset Str) (count : Nat) : SlotReader F (List Str) :=
  Prog.ask (SlotLook.ask (.pick members count))

def randomMembers (members : Finset Str) (count : Nat) : SlotReader F (List Str) :=
  Prog.ask (SlotLook.ask (.sample members count))

def compilePattern (pattern : Str) : SlotReader F (Option (Str → Bool)) :=
  Prog.ask (SlotLook.ask (.compile pattern))

def quote (text : Str) : SlotReader F Str :=
  Prog.ask (SlotLook.ask (.quote text))

def seek (elements : List (Element Str F)) (skip : Element Str F → Bool) : SlotReader F Nat :=
  Prog.ask (SlotLook.ask (.seek elements skip))

def putEntity (value : Value F) : SlotProg F Nat :=
  Prog.ask (SlotOp.change (.put value))

/-- `PutEntity` of bytes that `append` made from those the key holds. -/
def putExtended (bytes : Bytes) : SlotProg F Nat :=
  Prog.ask (SlotOp.change (.extend bytes))

def putIfAbsent (value : Value F) : SlotProg F Nat :=
  Prog.ask (SlotOp.change (.putIfAbsent value))

def putIfExists (value : Value F) : SlotProg F Nat :=
  Prog.ask (SlotOp.change (.putIfExists value))

/-- The object the key holds is changed in place. -/
def mutate (value : Value F) : SlotProg F Unit :=
  Prog.ask (SlotOp.change (.mutate value))

def remove : SlotProg F Unit :=
  Prog.ask (SlotOp.change .remove)

def expire (deadline : Int) : SlotProg F Unit :=
  Prog.ask (SlotOp.change (.expire deadline))

def persist : SlotProg F Unit :=
  Prog.ask (SlotOp.change .persist)

def addAof (line : Line) : SlotProg F Unit :=
  Prog.ask (SlotOp.log line)

/-! ## Typed access -/

/-- The data of the key as a given type: nothing without the key, an error for another type. -/
def getAs (view : Value F → Option α) : SlotReader F (Except Reply (Option α)) := do
  match ← getEntity with
  | none => return .ok none
  | some value =>
    match view value with
    | none => return .error .wrongTypeErr
    | some data => return .ok (some data)

/-- The data of the key as a given type, put there first if the key is absent. -/
def getOrInit (view : Value F → Option α) (make : α → Value F) (initial : α) :
    SlotProg F (Except Reply α) := do
  match ← look (getAs view) with
  | .error reply => return .error reply
  | .ok (some data) => return .ok data
  | .ok none =>
    let _ ← putEntity (make initial)
    return .ok initial

namespace Value

def asList : Value F → Option (List Bytes)
  | .list elements => some elements
  | _ => none

def asDict : Value F → Option (Finmap fun _ : Str => Str)
  | .hash fields => some fields
  | _ => none

def asSet : Value F → Option (Finset Str)
  | .set members => some members
  | _ => none

def asSortedSet : Value F → Option (Finmap fun _ : Str => F)
  | .zset scores => some scores
  | _ => none

variable {value : Value F}

theorem asList_eq_some {elements : List Bytes} :
    value.asList = some elements ↔ value = .list elements := by
  cases value <;> simp [asList]

theorem asDict_eq_some {fields : Finmap fun _ : Str => Str} :
    value.asDict = some fields ↔ value = .hash fields := by
  cases value <;> simp [asDict]

theorem asSet_eq_some {members : Finset Str} :
    value.asSet = some members ↔ value = .set members := by
  cases value <;> simp [asSet]

theorem asSortedSet_eq_some {scores : Finmap fun _ : Str => F} :
    value.asSortedSet = some scores ↔ value = .zset scores := by
  cases value <;> simp [asSortedSet]

end Value

/-- Without the key the bytes are nil. -/
def getAsString : SlotReader F (Except Reply Bytes) := do
  match ← getEntity with
  | none => return .ok none
  | some (.string bytes) => return .ok bytes
  | some _ => return .error .wrongTypeErr

def getAsList : SlotReader F (Except Reply (Option (List Bytes))) :=
  getAs Value.asList

def getOrInitList : SlotProg F (Except Reply (List Bytes)) :=
  getOrInit Value.asList .list []

def getAsDict : SlotReader F (Except Reply (Option (Finmap fun _ : Str => Str))) :=
  getAs Value.asDict

def getOrInitDict : SlotProg F (Except Reply (Finmap fun _ : Str => Str)) :=
  getOrInit Value.asDict .hash ∅

def getAsSet : SlotReader F (Except Reply (Option (Finset Str))) :=
  getAs Value.asSet

def getOrInitSet : SlotProg F (Except Reply (Finset Str)) :=
  getOrInit Value.asSet .set ∅

def getAsSortedSet : SlotReader F (Except Reply (Option (Finmap fun _ : Str => F))) :=
  getAs Value.asSortedSet

def getOrInitSortedSet : SlotProg F (Except Reply (Finmap fun _ : Str => F)) :=
  getOrInit Value.asSortedSet .zset ∅

/-! ## Lines that recreate a key (`aof/marshal.go`, `toTTLCmd` of `database/keys.go`) -/

/-- `UnixNano()` of a deadline, an `int64`, in whole milliseconds. -/
def unixMillis (deadline : Int) : Int :=
  (wrap64 deadline).tdiv 1000000

def makeExpireCmd (key : Str) (deadline : Int) : Line :=
  toCmdLineOfStr "PEXPIREAT" [key, formatInt (unixMillis deadline)]

def toTTLCmd (key : Str) : SlotReader F Line := do
  match ← expireTime with
  | none => return toCmdLineOfStr "PERSIST" [key]
  | some deadline => return makeExpireCmd key deadline

def ranked [Float64 F] (scores : Finmap fun _ : Str => F) : List (Element Str F) :=
  (sorted (scores.keys.image fun member =>
    toLex ((scores.lookup member).getD Float64.zero, member))).map
      fun entry => ⟨(ofLex entry).2, (ofLex entry).1⟩

/-- `aof.EntityToCmd`.  `ForEachByRank` refuses a sorted set without members. -/
def entityToCmd [Float64 F] (key : Str) : Value F → SlotReader F Line
  | .string bytes => return [some (lit "SET"), some key, bytes]
  | .list elements => return some (lit "RPUSH") :: some key :: elements
  | .set members => do
    return toCmdLineOfStr "SADD" (key :: (← inOrder members))
  | .hash fields => do
    return toCmdLineOfStr "HMSET" (key :: (← inOrder fields.keys).flatMap fun field =>
      [field, (fields.lookup field).getD []])
  | .zset scores =>
    if scores.keys.card = 0 then .stop .panic
    else return toCmdLineOfStr "ZADD" (key :: (ranked scores).reverse.flatMap fun element =>
      [Float64.format element.score, element.member])

end Godis.Database
