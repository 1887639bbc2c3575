import Godis.Database.Hash
import Godis.Datastruct.Bitmap

/-!
# String commands (`database/string.go`)
-/

namespace Godis.Database

open Golang Program

variable {F : Type}

def execGet (_ : List Bytes) : SlotReader F Reply := do
  match ← getAsString with
  | .error reply => return reply
  | .ok none => return .nullBulk
  | .ok (some bytes) => return .bulk (some bytes)

/-- `time.Now().Add(time.Duration(ttl) * time.Millisecond)`. -/
def inMillis (ttl : Int) : SlotReader F Int := do
  return (← timeNow) + wrap64 (ttl * 1000000)

/-- A time to live in seconds or milliseconds, kept in milliseconds; it must not be set yet. -/
def ttlOption (factor : Int) (invalid : String) (ttl : Int) (rawTtl : Bytes) :
    Except Reply Int :=
  if ttl ≠ 0 then .error .syntaxErr
  else
    match parseInt (str rawTtl) with
    | .error _ => .error .syntaxErr
    | .ok ttl => if ttl ≤ 0 then .error (.err invalid) else .ok (wrap64 (ttl * factor))

/-- The options of `GETEX`: the time to live they leave, 0 for none.  `PERSIST` takes effect at
once, and what is no option is passed over. -/
def getExOptions : List Bytes → Int → SlotProg F (Except Reply Int)
  | [], ttl => return .ok ttl
  | option :: rest, ttl =>
    if toUpper (str option) = lit "EX" then
      match rest with
      | [] => return .error .syntaxErr
      | rawTtl :: rest =>
        match ttlOption 1000 "ERR invalid expire time in getex" ttl rawTtl with
        | .error reply => return .error reply
        | .ok ttl => getExOptions rest ttl
    else if toUpper (str option) = lit "PX" then
      match rest with
      | [] => return .error .syntaxErr
      | rawTtl :: rest =>
        match ttlOption 1 "ERR invalid expire time in getex" ttl rawTtl with
        | .error reply => return .error reply
        | .ok ttl => getExOptions rest ttl
    else if toUpper (str option) = lit "PERSIST" then
      if ttl ≠ 0 then return .error .syntaxErr
      else do
        persist
        getExOptions rest ttl
    else getExOptions rest ttl

def execGetEX : List Bytes → SlotProg F Reply
  | key :: options => do
    match ← look getAsString with
    | .error reply => return reply
    | .ok none => return .nullBulk
    | .ok (some bytes) =>
      match ← getExOptions options 0 with
      | .error reply => return reply
      | .ok ttl =>
        if options.isEmpty then return .bulk (some bytes)
        else if ttl ≠ 0 then
          let deadline ← look (inMillis ttl)
          expire deadline
          addAof (makeExpireCmd (str key) deadline)
          return .bulk (some bytes)
        else
          persist
          addAof (toCmdLine "persist" [key])
          return .bulk (some bytes)
  | [] => .stop .panic

inductive Policy where
  | upsert
  | insert
  | update
  deriving DecidableEq

/-- The options of `SET`: its policy, and the time to live in milliseconds, 0 for none. -/
def setOptions : List Bytes → Policy → Int → Except Reply (Policy × Int)
  | [], policy, ttl => .ok (policy, ttl)
  | option :: rest, policy, ttl =>
    if toUpper (str option) = lit "NX" then
      if policy = .update then .error .syntaxErr else setOptions rest .insert ttl
    else if toUpper (str option) = lit "XX" then
      if policy = .insert then .error .syntaxErr else setOptions rest .update ttl
    else if toUpper (str option) = lit "EX" then
      match rest with
      | [] => .error .syntaxErr
      | rawTtl :: rest =>
        match ttlOption 1000 "ERR invalid expire time in set" ttl rawTtl with
        | .error reply => .error reply
        | .ok ttl => setOptions rest policy ttl
    else if toUpper (str option) = lit "PX" then
      match rest with
      | [] => .error .syntaxErr
      | rawTtl :: rest =>
        match ttlOption 1 "ERR invalid expire time in set" ttl rawTtl with
        | .error reply => .error reply
        | .ok ttl => setOptions rest policy ttl
    else .error .syntaxErr

def putByPolicy (policy : Policy) (value : Bytes) : SlotProg F Nat :=
  match policy with
  | .upsert => do
    let _ ← putEntity (.string value)
    return 1
  | .insert => putIfAbsent (.string value)
  | .update => putIfExists (.string value)

def execSet : List Bytes → SlotProg F Reply
  | key :: value :: options => do
    match setOptions options .upsert 0 with
    | .error reply => return reply
    | .ok (policy, ttl) =>
      let result ← putByPolicy policy value
      if result = 0 then return .nullBulk
      else if ttl ≠ 0 then
        let deadline ← look (inMillis ttl)
        expire deadline
        addAof [some (lit "SET"), key, value]
        addAof (makeExpireCmd (str key) deadline)
        return .ok
      else
        persist
        addAof (toCmdLine "set" (key :: value :: options))
        return .ok
  | _ => .stop .panic

/-- The line is logged whether or not the key was set. -/
def execSetNX : List Bytes → SlotProg F Reply
  | key :: value :: more => do
    let result ← putIfAbsent (.string value)
    addAof (toCmdLine "setnx" (key :: value :: more))
    return .int result
  | _ => .stop .panic

/-- `execSetEX` and `execPSetEX`: both log themselves as `setex`. -/
def setWithTtl (factor : Int) : List Bytes → SlotProg F Reply
  | key :: rawTtl :: value :: more => do
    match parseInt (str rawTtl) with
    | .error _ => return .syntaxErr
    | .ok ttl =>
      if ttl ≤ 0 then return .err "ERR invalid expire time in setex"
      else
        let _ ← putEntity (.string value)
        let deadline ← look (inMillis (wrap64 (ttl * factor)))
        expire deadline
        addAof (toCmdLine "setex" (key :: rawTtl :: value :: more))
        addAof (makeExpireCmd (str key) deadline)
        return .ok
  | _ => .stop .panic

def execSetEX (args : List Bytes) : SlotProg F Reply :=
  setWithTtl 1000 args

def execPSetEX (args : List Bytes) : SlotProg F Reply :=
  setWithTtl 1 args

/-- The strings put by `MSET` and `MSETNX`; their keys keep their deadlines. -/
def putAll : List (Bytes × Bytes) → DbProg F Unit
  | [] => return ()
  | (key, value) :: rest => do
    let _ ← onKey (str key) (putEntity (.string value))
    putAll rest

def execMSet (args : List Bytes) : DbProg F Reply := do
  if args.length % 2 ≠ 0 then return .syntaxErr
  else
    putAll (pairs args)
    Prog.ask (DbOp.log (toCmdLine "mset" args))
    return .ok

def getStrings : List Bytes → DbReader F (List Bytes)
  | [] => return []
  | key :: rest => do
    let bytes ← readAt (str key) getAsString
    return (match bytes with | .ok bytes => bytes | .error _ => none) :: (← getStrings rest)

def execMGet (args : List Bytes) : DbReader F Reply := do
  return .multiBulk (← getStrings args)

def countExisting : List Bytes → DbReader F Nat
  | [] => return 0
  | key :: rest => do
    let entity ← readAt (str key) getEntity
    return (if entity.isSome then 1 else 0) + (← countExisting rest)

def anyExists : List Bytes → DbReader F Bool
  | [] => return false
  | key :: rest => do
    match ← readAt (str key) getEntity with
    | some _ => return true
    | none => anyExists rest

def execMSetNX (args : List Bytes) : DbProg F Reply := do
  if args.length % 2 ≠ 0 then return .syntaxErr
  else
    if ← lookup (anyExists ((pairs args).map Prod.fst)) then return .int 0
    else
      putAll (pairs args)
      Prog.ask (DbOp.log (toCmdLine "msetnx" args))
      return .int 1

def execGetSet : List Bytes → SlotProg F Reply
  | key :: value :: more => do
    match ← look getAsString with
    | .error reply => return reply
    | .ok old =>
      let _ ← putEntity (.string value)
      persist
      addAof (toCmdLine "set" (key :: value :: more))
      return old.elim .nullBulk fun bytes => .bulk (some bytes)
  | _ => .stop .panic

def execGetDel (args : List Bytes) : SlotProg F Reply := do
  match ← look getAsString with
  | .error reply => return reply
  | .ok none => return .nullBulk
  | .ok (some old) =>
    remove
    addAof (toCmdLine "del" args)
    return .bulk (some old)

/-- What the commands that add to an integer put and log; `absent` is put without the key. -/
def addInteger (name : String) (args : List Bytes) (delta : Int) (absent : Bytes) :
    SlotProg F Reply := do
  match ← look getAsString with
  | .error reply => return reply
  | .ok (some bytes) =>
    match parseInt bytes with
    | .error _ => return .notInteger
    | .ok old =>
      let _ ← putEntity (.string (some (formatInt (wrap64 (old + delta)))))
      addAof (toCmdLine name args)
      return .int (wrap64 (old + delta))
  | .ok none =>
    let _ ← putEntity (.string absent)
    addAof (toCmdLine name args)
    return .int (wrap64 delta)

def execIncr (args : List Bytes) : SlotProg F Reply :=
  addInteger "incr" args 1 (some (lit "1"))

def execIncrBy : List Bytes → SlotProg F Reply
  | key :: rawDelta :: more =>
    match parseInt (str rawDelta) with
    | .error _ => return .notInteger
    | .ok delta => addInteger "incrby" (key :: rawDelta :: more) delta rawDelta
  | _ => .stop .panic

def execIncrByFloat [Float64 F] : List Bytes → SlotProg F Reply
  | key :: rawDelta :: more => do
    match (Float64.parse (str rawDelta) : Option (Option F)) with
    | none => return .notFloat
    | some delta =>
      match ← look getAsString with
      | .error reply => return reply
      | .ok (some bytes) =>
        match (Float64.parse bytes : Option (Option F)) with
        | none => return .notFloat
        | some old =>
          let _ ← putEntity (.string (some (sumText old delta)))
          addAof (toCmdLine "incrbyfloat" (key :: rawDelta :: more))
          return .bulk (some (sumText old delta))
      | .ok none =>
        let _ ← putEntity (.string rawDelta)
        addAof (toCmdLine "incrbyfloat" (key :: rawDelta :: more))
        return .bulk rawDelta
  | _ => .stop .panic

def execDecr (args : List Bytes) : SlotProg F Reply :=
  addInteger "decr" args (-1) (some (lit "-1"))

def execDecrBy : List Bytes → SlotProg F Reply
  | key :: rawDelta :: more =>
    match parseInt (str rawDelta) with
    | .error _ => return .notInteger
    | .ok delta => addInteger "decrby" (key :: rawDelta :: more) (-delta)
        (some (formatInt (wrap64 (-delta))))
  | _ => .stop .panic

def execStrLen (_ : List Bytes) : SlotReader F Reply := do
  match ← getAsString with
  | .error reply => return reply
  | .ok bytes => return .int (str bytes).length

/-- `append(bytes, more...)`: nil stays nil if there is nothing to append. -/
def appendBytes (bytes : Bytes) (more : Str) : Bytes :=
  if more.isEmpty then bytes else some (str bytes ++ more)

def execAppend : List Bytes → SlotProg F Reply
  | key :: value :: more => do
    match ← look getAsString with
    | .error reply => return reply
    | .ok bytes =>
      let _ ← putExtended (appendBytes bytes (str value))
      addAof (toCmdLine "append" (key :: value :: more))
      return .int (str bytes ++ str value).length
  | _ => .stop .panic

/-- `err.Error()` of a number that does not parse. -/
def parseIntError (text : Str) (error : NumError) : SlotReader F Reply := do
  return .error (lit "strconv.ParseInt: parsing " ++ (← quote text) ++
    match error with
    | .invalid => lit ": invalid syntax"
    | .range => lit ": value out of range")

/-- `value` written over `bytes` from `offset` on, within their length. -/
def overwrite (bytes : Str) (offset : Nat) (value : Str) : Str :=
  (bytes.take offset ++ value ++ bytes.drop (offset + value.length)).take bytes.length

/-- Bytes that are there already are written in place, the others appended. -/
def execSetRange : List Bytes → SlotProg F Reply
  | key :: rawOffset :: value :: more => do
    match parseInt (str rawOffset) with
    | .error error => look (parseIntError (str rawOffset) error)
    | .ok offset =>
      match ← look getAsString with
      | .error reply => return reply
      | .ok bytes =>
        let size : Int := (str bytes).length
        if offset < 0 ∧ str value ≠ [] ∨ maxAlloc < offset - size then .stop .panic
        else
          let written := overwrite (str bytes) offset.toNat (str value)
          if bytes.isSome then mutate (.string (some written))
          let padding := List.replicate (offset - size).toNat 0
          let behind := (str value).drop (size - offset).toNat
          let _ ← putExtended (appendBytes (bytes.map fun _ => written) (padding ++ behind))
          addAof (toCmdLine "setRange" (key :: rawOffset :: value :: more))
          return .int (written ++ padding ++ behind).length
  | _ => .stop .panic

/-- `utils.ConvertRange`; `none` for a range that is out of bounds. -/
def convertRange (start stop size : Int) : Option (Nat × Nat) :=
  if start < -size ∨ size ≤ start ∨ stop < -size then none
  else
    let first := if start < 0 then size + start else start
    let last := if stop < 0 then size + stop + 1 else if stop < size then stop + 1 else size
    if last < first then none else some (first.toNat, last.toNat)

def execGetRange : List Bytes → SlotReader F Reply
  | _ :: rawStart :: rawStop :: _ => do
    match parseInt (str rawStart) with
    | .error _ => return .notInteger
    | .ok start =>
      match parseInt (str rawStop) with
      | .error _ => return .notInteger
      | .ok stop =>
        match ← getAsString with
        | .error reply => return reply
        | .ok none => return .nullBulk
        | .ok (some bytes) =>
          match convertRange start stop bytes.length with
          | none => return .nullBulk
          | some (first, last) =>
            return .bulk (some ((bytes.drop first).take (last - first)))
  | _ => .stop .panic

/-- `BitMap.GetBit` of an offset that may be negative. -/
def getBit (bytes : Str) (offset : Int) : SlotReader F Nat :=
  if bytes.length ≤ offset.tdiv 8 then return 0
  else if offset < 0 then .stop .panic
  else return (BitMap.getBit bytes offset.toNat).toNat

def parseBit (text : Str) : Option UInt8 :=
  if text = lit "1" then some 1
  else if text = lit "0" then some 0
  else none

/-- A byte that is there already is changed in place. -/
def execSetBit : List Bytes → SlotProg F Reply
  | key :: rawOffset :: rawBit :: more => do
    match parseInt (str rawOffset) with
    | .error _ => return .err "ERR bit offset is not an integer or out of range"
    | .ok offset =>
      match parseBit (str rawBit) with
      | none => return .err "ERR bit is not an integer or out of range"
      | some bit =>
        match ← look getAsString with
        | .error reply => return reply
        | .ok bytes =>
          if offset < 0 then .stop .panic
          else
            let former ← look (getBit (str bytes) offset)
            match BitMap.setBit (str bytes) offset.toNat bit with
            | none => .stop .panic
            | some changed =>
              if bytes.isSome then
                mutate (.string (some (changed.take (str bytes).length)))
              let _ ← putExtended (some changed)
              addAof (toCmdLine "setBit" (key :: rawOffset :: rawBit :: more))
              return .int former
  | _ => .stop .panic

def execGetBit : List Bytes → SlotReader F Reply
  | _ :: rawOffset :: _ => do
    match parseInt (str rawOffset) with
    | .error _ => return .err "ERR bit offset is not an integer or out of range"
    | .ok offset =>
      match ← getAsString with
      | .error reply => return reply
      | .ok none => return .int 0
      | .ok (some bytes) => return .int (← getBit bytes offset)
  | _ => .stop .panic

/-- The last argument of `BITCOUNT` and `BITPOS`: whether they count in bytes. -/
def byteMode : Option Bytes → Option Bool
  | none => some true
  | some mode =>
    if toLower (str mode) = lit "bit" then some false
    else if toLower (str mode) = lit "byte" then some true
    else none

/-- The range two optional arguments give, from 0 to 0 without them: `none` inside if it is out
of bounds.  The second one is taken to be there if the first is. -/
def bitRange (range : List Bytes) (size : Int) :
    SlotReader F (Except Reply (Option (Nat × Nat))) :=
  match range with
  | [] => return .ok (some (0, 0))
  | rawStart :: rest =>
    match parseInt (str rawStart) with
    | .error _ => return .error .notInteger
    | .ok start =>
      match rest with
      | [] => .stop .panic
      | rawStop :: _ =>
        match parseInt (str rawStop) with
        | .error _ => return .error .notInteger
        | .ok stop => return .ok (convertRange start stop size)

/-- The offsets `BitMap.ForEachBit` visits: the first one in any case, and an end of 0 is none. -/
def visitedBits (bytes : Str) (first last : Nat) : List Nat :=
  if bytes.length ≤ first / 8 then []
  else
    let stop := if last = 0 then 8 * bytes.length else min (8 * bytes.length) (max (first + 1) last)
    List.range' first (stop - first)

def visitedBytes (bytes : Str) (first last : Nat) : Str :=
  let stop := if last = 0 then bytes.length else min last bytes.length
  (bytes.drop first).take (stop - first)

def onesCount (byte : UInt8) : Nat :=
  (List.range 8).countP fun bit => byte.toNat / 2 ^ bit % 2 = 1

def execBitCount : List Bytes → SlotReader F Reply
  | _ :: range => do
    match ← getAsString with
    | .error reply => return reply
    | .ok none => return .int 0
    | .ok (some bytes) =>
      match byteMode (range.drop 2).head? with
      | none => return .err "ERR syntax error"
      | some inBytes =>
        let size : Int := if inBytes then bytes.length else 8 * bytes.length
        match ← bitRange range size with
        | .error reply => return reply
        | .ok none => return .int 0
        | .ok (some (first, last)) =>
          if inBytes then
            return .int ((visitedBytes bytes first last).map onesCount).sum
          else
            return .int ((visitedBits bytes first last).countP fun offset =>
              BitMap.getBit bytes offset > 0)
  | [] => .stop .panic

def execBitPos : List Bytes → SlotReader F Reply
  | _ :: rawBit :: range => do
    match ← getAsString with
    | .error reply => return reply
    | .ok none => return .int (-1)
    | .ok (some bytes) =>
      match parseBit (str rawBit) with
      | none => return .err "ERR bit is not an integer or out of range"
      | some bit =>
        match byteMode (range.drop 2).head? with
        | none => return .err "ERR syntax error"
        | some inBytes =>
          let size : Int := if inBytes then bytes.length else 8 * bytes.length
          match ← bitRange range size with
          | .error reply => return reply
          | .ok none => return .int 0
          | .ok (some (first, last)) =>
            let unit := if inBytes then 8 else 1
            let found := (visitedBits bytes (first * unit) (last * unit)).find?
              fun offset => BitMap.getBit bytes offset = bit
            return .int (found.elim (-1) fun offset => offset)
  | _ => .stop .panic

end Godis.Database
