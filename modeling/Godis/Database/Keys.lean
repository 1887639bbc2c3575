import Godis.Database.String

/-!
# Key commands (`database/keys.go`, `rollbackGivenKeys` of `database/tx_utils.go`)
-/

namespace Godis.Database

open Golang Program

variable {F : Type}

/-- `DB.Removes`, which does not ask whether a key has expired. -/
def removes : List Key → DbProg F Nat
  | [] => return 0
  | key :: rest => do
    match ← lookAt key peek with
    | some _ =>
      onKey key remove
      return (← removes rest) + 1
    | none => removes rest

def execDel (args : List Bytes) : DbProg F Reply := do
  let deleted ← removes (args.map str)
  if 0 < deleted then Prog.ask (DbOp.log (toCmdLine "del" args))
  return .int deleted

def rollbackKey [Float64 F] (key : Key) : SlotReader F (List Line) := do
  match ← getEntity with
  | none => return [toCmdLineOfStr "DEL" [key]]
  | some value =>
    return [toCmdLineOfStr "DEL" [key], ← entityToCmd key value, ← toTTLCmd key]

def rollbackGivenKeys [Float64 F] : List Key → DbReader F (List Line)
  | [] => return []
  | key :: rest => do
    let lines ← readAt key (rollbackKey key)
    return lines ++ (← rollbackGivenKeys rest)

def rollbackFirstKey [Float64 F] : List Bytes → DbReader F (List Line)
  | key :: _ => rollbackGivenKeys [str key]
  | [] => .stop .panic

def undoDel [Float64 F] (args : List Bytes) : DbReader F (List Line) :=
  rollbackGivenKeys (args.map str)

def undoMSet [Float64 F] (args : List Bytes) : DbReader F (List Line) :=
  rollbackGivenKeys ((pairs args).map fun pair => str pair.1)

def execExists (args : List Bytes) : DbReader F Reply := do
  return .int (← countExisting args)

def typeOf : SlotReader F String := do
  match ← getEntity with
  | none => return "none"
  | some value => return value.typeName

def execType (_ : List Bytes) : SlotReader F Reply := do
  return .status (lit (← typeOf))

def moveDeadline (source dest : Key) : Option Int → DbProg F Unit
  | none => return ()
  | some deadline => do
    onKey source persist
    onKey dest persist
    onKey dest (expire deadline)

/-- Without a deadline of the source the destination keeps its own. -/
def execRename : List Bytes → DbProg F Reply
  | [source, dest] => do
    match ← lookAt (str source) getEntity with
    | none => return .err "no such key"
    | some _ =>
      let deadline ← lookAt (str source) expireTime
      Prog.ask (DbOp.move (str source) (str dest))
      moveDeadline (str source) (str dest) deadline
      Prog.ask (DbOp.log (toCmdLine "rename" [source, dest]))
      return .ok
  | _ => return .argNumErr (lit "rename")

def undoRename [Float64 F] : List Bytes → DbReader F (List Line)
  | source :: dest :: _ => rollbackGivenKeys [str source, str dest]
  | _ => .stop .panic

def execRenameNx : List Bytes → DbProg F Reply
  | source :: dest :: more => do
    match ← lookAt (str dest) getEntity with
    | some _ => return .int 0
    | none =>
      match ← lookAt (str source) getEntity with
      | none => return .err "no such key"
      | some _ =>
        let deadline ← lookAt (str source) expireTime
        Prog.ask (DbOp.replace (str source) (str dest))
        moveDeadline (str source) (str dest) deadline
        Prog.ask (DbOp.log (toCmdLine "renamenx" (source :: dest :: more)))
        return .int 1
  | _ => .stop .panic

/-- The executors that set a deadline, given how they compute it from their argument. -/
def expireWith (deadlineOf : Int → SlotReader F Int) : List Bytes → SlotProg F Reply
  | key :: rawTime :: _ => do
    match parseInt (str rawTime) with
    | .error _ => return .notInteger
    | .ok time =>
      match ← look getEntity with
      | none => return .int 0
      | some _ =>
        let deadline ← look (deadlineOf time)
        expire deadline
        addAof (makeExpireCmd (str key) deadline)
        return .int 1
  | _ => .stop .panic

/-- `time.Unix(seconds, 0)`, which counts seconds from year 1 in an `int64`. -/
def unixTime (seconds : Int) : Int :=
  (wrap64 (seconds + 62135596800) - 62135596800) * 1000000000

def execExpire (args : List Bytes) : SlotProg F Reply :=
  expireWith (fun seconds => do return (← timeNow) + wrap64 (seconds * 1000000000)) args

def execExpireAt (args : List Bytes) : SlotProg F Reply :=
  expireWith (fun seconds => return unixTime seconds) args

def execPExpire (args : List Bytes) : SlotProg F Reply :=
  expireWith inMillis args

def execPExpireAt (args : List Bytes) : SlotProg F Reply :=
  expireWith (fun millis => return wrap64 (millis * 1000000)) args

/-- The executors that read a deadline: -2 without the key, -1 without a deadline. -/
def readDeadline (show_ : Int → SlotReader F Int) : SlotReader F Reply := do
  match ← getEntity with
  | none => return .int (-2)
  | some _ =>
    match ← expireTime with
    | none => return .int (-1)
    | some deadline => return .int (← show_ deadline)

def execExpireTime (_ : List Bytes) : SlotReader F Reply :=
  readDeadline fun deadline => return wrap64 (deadline / 1000000000)

def execPExpireTime (_ : List Bytes) : SlotReader F Reply :=
  readDeadline fun deadline => return wrap64 (deadline / 1000000)

/-- `expireTime.Sub(time.Now())`, which stays within an `int64`. -/
def timeLeft (deadline : Int) : SlotReader F Int := do
  return max (-2 ^ 63) (min (2 ^ 63 - 1) (deadline - (← timeNow)))

def execTTL [Float64 F] (_ : List Bytes) : SlotReader F Reply :=
  readDeadline fun deadline => do return Float64.roundSeconds F (← timeLeft deadline)

def execPTTL (_ : List Bytes) : SlotReader F Reply :=
  readDeadline fun deadline => do return (← timeLeft deadline).tdiv 1000000

def execPersist (args : List Bytes) : SlotProg F Reply := do
  match ← look getEntity with
  | none => return .int 0
  | some _ =>
    match ← look expireTime with
    | none => return .int 0
    | some _ =>
      persist
      addAof (toCmdLine "persist" args)
      return .int 1

def undoExpire : List Bytes → SlotReader F (List Line)
  | key :: _ => do
    return [← toTTLCmd (str key)]
  | [] => .stop .panic

def unexpired (fits : Str → Bool) : List Key → DbReader F (List Key)
  | [] => return []
  | key :: rest => do
    if fits key then
      if ← readAt key isExpired then unexpired fits rest
      else return key :: (← unexpired fits rest)
    else unexpired fits rest

def execKeys : List Bytes → DbReader F Reply
  | pattern :: _ => do
    match ← readAt [] (compilePattern (str pattern)) with
    | none => return .err "ERR illegal wildcard"
    | some fits =>
      match ← Prog.ask (DbLook.survey .keys) with
      | none => .stop .blocked
      | some keys => return .multiBulk ((← unexpired fits keys).map some)
  | [] => .stop .panic

def scanDbOptions : List Bytes → Int → Str → Str → DbReader F (Except Reply (Int × Str × Str))
  | [], count, pattern, scanType => return .ok (count, pattern, scanType)
  | option :: rest, count, pattern, scanType =>
    if toLower (str option) = lit "count" then
      match rest with
      | [] => .stop .panic
      | value :: rest =>
        match parseInt (str value) with
        | .error _ => return .error .syntaxErr
        | .ok count => scanDbOptions rest count pattern scanType
    else if toLower (str option) = lit "match" then
      match rest with
      | [] => .stop .panic
      | value :: rest => scanDbOptions rest count (str value) scanType
    else if toLower (str option) = lit "type" then
      match rest with
      | [] => .stop .panic
      | value :: rest => scanDbOptions rest count pattern (toLower (str value))
    else return .error .syntaxErr

def ofType (scanType : Str) : List Key → DbReader F (List Key)
  | [] => return []
  | key :: rest => do
    if lit (← readAt key typeOf) = scanType then return key :: (← ofType scanType rest)
    else ofType scanType rest

def execScan : List Bytes → DbReader F Reply
  | rawCursor :: options => do
    match ← scanDbOptions options 10 (lit "*") [] with
    | .error reply => return reply
    | .ok (count, pattern, scanType) =>
      match parseInt (str rawCursor) with
      | .error _ => return .err "ERR invalid cursor"
      | .ok cursor =>
        match ← Prog.ask (DbLook.survey (.scan cursor count pattern)) with
        | .error stop => .stop stop
        | .ok (keys, next) =>
          if next < 0 then return .err "Invalid argument"
          else
            let found ← if scanType = [] then pure keys else ofType scanType keys
            return .multiRaw [.bulk (some (formatInt next)), .multiBulk (found.map some)]
  | [] => .stop .panic

def execRandomKey (_ : List Bytes) : DbReader F Reply := do
  match ← Prog.ask (DbLook.survey .randomKey) with
  | none => .stop .blocked
  | some none => return .nullBulk
  | some (some key) => return .bulk (some key)

def execGetVersion (_ : List Bytes) : SlotReader F Reply := do
  return .int (← getVersion)

end Godis.Database
