import Godis.Database.Access
import Godis.Datastruct.QuickListRun

/-!
# List commands (`database/list.go`)
-/

namespace Godis.Database

open Golang Program List

variable {F : Type}

def position (index : Int) (size : Nat) : Option Nat :=
  if index < -size then none
  else if index < 0 then some (size + index).toNat
  else if index < size then some index.toNat
  else none

/-- The bounds of a slice from relative ones, both included, as `LRANGE`, `ZRANGE` and
`ZREMRANGEBYRANK` compute them; nothing if it starts behind the end. -/
def sliceBounds (start stop : Int) (size : Nat) : Option (Nat × Nat) :=
  let first : Option Nat :=
    if start < -size then some 0
    else if start < 0 then some (size + start).toNat
    else if start < size then some start.toNat
    else none
  let last : Nat :=
    if stop < -size then 0
    else if stop < 0 then (size + stop + 1).toNat
    else if stop < size then (stop + 1).toNat
    else size
  first.map fun first => (first, max first last)

def listRange (elements : List Bytes) (start stop : Nat) : SlotReader F (List Bytes) :=
  if elements.length ≤ start ∨ stop < start ∨ elements.length < stop then .stop .panic
  else return (elements.drop start).take (stop - start)

def execLIndex : List Bytes → SlotReader F Reply
  | _ :: rawIndex :: _ => do
    match parseInt (str rawIndex) with
    | .error _ => return .notInteger
    | .ok index =>
      match ← getAsList with
      | .error reply => return reply
      | .ok none => return .nullBulk
      | .ok (some elements) =>
        match position index elements.length with
        | none => return .nullBulk
        | some i => return .bulk (elements.getD i none)
  | _ => .stop .panic

def execLLen (_ : List Bytes) : SlotReader F Reply := do
  match ← getAsList with
  | .error reply => return reply
  | .ok none => return .int 0
  | .ok (some elements) => return .int elements.length

inductive Side where
  | left
  | right
  deriving DecidableEq

namespace Side

def taken (elements : List Bytes) (count : Nat) : Side → List Bytes
  | .left => elements.take count
  | .right => elements.reverse.take count

def leftOver (elements : List Bytes) (count : Nat) : Side → List Bytes
  | .left => elements.drop count
  | .right => elements.take (elements.length - count)

end Side

/-- The pops and what follows them in `execLPop` and `execRPop`. -/
def popAndLog (name : String) (args : List Bytes) (rest : List Bytes) (reply : Reply) :
    SlotProg F Reply := do
  mutate (.list rest)
  if rest.isEmpty then remove
  addAof (toCmdLine name args)
  return reply

/-- The body of `execLPop` and `execRPop` when a count is given. -/
def popMany (side : Side) (name : String) (args elements : List Bytes) (rawCount : Bytes) :
    SlotProg F Reply := do
  match parseInt (str rawCount) with
  | .error _ => return .notInteger
  | .ok count =>
    if count < 0 then .stop .panic
    else
      let taken := min count.toNat elements.length
      popAndLog name args (side.leftOver elements taken)
        (.multiBulk (side.taken elements taken))

/-- `List.Remove(0)` of an empty list panics. -/
def execLPop (args : List Bytes) : SlotProg F Reply := do
  match ← look getAsList with
  | .error reply => return reply
  | .ok none => return .nullBulk
  | .ok (some elements) =>
    match args with
    | [_, rawCount] => popMany .left "lpop" args elements rawCount
    | _ =>
      match elements with
      | [] => .stop .panic
      | first :: rest => popAndLog "lpop" args rest (.bulk first)

/-- `undoLPop` and `undoRPop`, given the element popped and, for a count, the elements in the order
they are pushed in. -/
def undoPop (push : String) (popped : List Bytes → Bytes)
    (pushed : List Bytes → Nat → SlotReader F (List Bytes)) : List Bytes → SlotReader F (List Line)
  | key :: more => do
    match ← getAsList with
    | .error _ => return []
    | .ok none => return []
    | .ok (some []) => return []
    | .ok (some (first :: rest)) =>
      match more with
      | [rawCount] =>
        match parseInt (str rawCount) with
        | .error _ => return []
        | .ok count =>
          let taken := min count ((first :: rest).length : Int)
          if taken < 0 then .stop .panic
          else return [some (lit push) :: key :: (← pushed (first :: rest) taken.toNat)]
      | _ => return [[some (lit push), key, popped (first :: rest)]]
  | [] => .stop .panic

def undoLPop : List Bytes → SlotReader F (List Line) :=
  undoPop "LPUSH" (fun elements => elements.head?.getD none) fun elements taken => do
    return (← listRange elements 0 taken).reverse

def execLPush : List Bytes → SlotProg F Reply
  | key :: values => do
    match ← getOrInitList with
    | .error reply => return reply
    | .ok elements =>
      let pushed := values.foldl (fun list value => value :: list) elements
      mutate (.list pushed)
      addAof (toCmdLine "lpush" (key :: values))
      return .int pushed.length
  | [] => .stop .panic

def undoPush (name : String) : List Bytes → SlotReader F (List Line)
  | key :: values => return values.map fun _ => toCmdLineOfStr name [str key]
  | [] => .stop .panic

def undoLPush (args : List Bytes) : SlotReader F (List Line) :=
  undoPush "LPOP" args

/-- `execLPushX` and, its check of the number of arguments apart, `execRPushX`. -/
def pushIfExists (name : String) (insert : List Bytes → List Bytes → List Bytes) :
    List Bytes → SlotProg F Reply
  | key :: values => do
    match ← look getAsList with
    | .error reply => return reply
    | .ok none => return .int 0
    | .ok (some elements) =>
      mutate (.list (insert elements values))
      addAof (toCmdLine name (key :: values))
      return .int (insert elements values).length
  | [] => .stop .panic

def execLPushX (args : List Bytes) : SlotProg F Reply :=
  pushIfExists "lpushx" (fun elements values => values.foldl (fun list value => value :: list)
    elements) args

def execLRange : List Bytes → SlotReader F Reply
  | _ :: rawStart :: rawStop :: _ => do
    match parseInt (str rawStart) with
    | .error _ => return .notInteger
    | .ok start =>
      match parseInt (str rawStop) with
      | .error _ => return .notInteger
      | .ok stop =>
        match ← getAsList with
        | .error reply => return reply
        | .ok none => return .emptyMultiBulk
        | .ok (some elements) =>
          match sliceBounds start stop elements.length with
          | none => return .emptyMultiBulk
          | some (first, last) => return .multiBulk (← listRange elements first last)
  | _ => .stop .panic

/-- The elements `execLRem` leaves; `RemoveAllByVal` of an empty list panics. -/
def removedByVal (elements : List Bytes) (count : Int) (value : Bytes) :
    SlotReader F (List Bytes) :=
  if count = 0 then
    if elements.isEmpty then .stop .panic
    else return elements.filter fun element => element ≠ value
  else if 0 < count then
    return QuickList.removeFirst (fun element => element = value) count.toNat elements
  else
    return (QuickList.removeFirst (fun element => element = value) (-count).toNat
      elements.reverse).reverse

theorem removedByVal_eq (elements : List Bytes) (count : Int) (value : Bytes) :
    (removedByVal elements count value : SlotReader F (List Bytes)) = .stop .panic ∧
        count = 0 ∧ elements = [] ∨
      ∃ rest, (removedByVal elements count value : SlotReader F (List Bytes)) = pure rest ∧
        rest.Sublist elements ∧ (count = 0 → elements ≠ []) := by
  unfold removedByVal
  split
  · rename_i zero
    split
    · rename_i empty
      exact .inl ⟨rfl, zero, isEmpty_iff.mp empty⟩
    · rename_i notEmpty
      exact .inr ⟨_, rfl, List.filter_sublist, fun _ => notEmpty ∘ isEmpty_iff.mpr⟩
  · rename_i notZero
    split
    · exact .inr ⟨_, rfl, QuickList.removeFirst_sublist _ _ _, fun zero => absurd zero notZero⟩
    · refine .inr ⟨_, rfl, ?_, fun zero => absurd zero notZero⟩
      have sublist := QuickList.removeFirst_sublist (fun element => element = value)
        (-count).toNat elements.reverse
      simpa using sublist.reverse

def execLRem : List Bytes → SlotProg F Reply
  | key :: rawCount :: value :: more => do
    match parseInt (str rawCount) with
    | .error _ => return .notInteger
    | .ok count =>
      match ← look getAsList with
      | .error reply => return reply
      | .ok none => return .int 0
      | .ok (some elements) =>
        let rest ← look (removedByVal elements count value)
        mutate (.list rest)
        if rest.isEmpty then remove
        if rest.length < elements.length then
          addAof (toCmdLine "lrem" (key :: rawCount :: value :: more))
        return .int (elements.length - rest.length)
  | _ => .stop .panic

def execLSet : List Bytes → SlotProg F Reply
  | key :: rawIndex :: value :: more => do
    match parseInt (str rawIndex) with
    | .error _ => return .notInteger
    | .ok index =>
      match ← look getAsList with
      | .error reply => return reply
      | .ok none => return .err "ERR no such key"
      | .ok (some elements) =>
        match position index elements.length with
        | none => return .err "ERR index out of range"
        | some i =>
          mutate (.list (elements.set i value))
          addAof (toCmdLine "lset" (key :: rawIndex :: value :: more))
          return .ok
  | _ => .stop .panic

def undoLSet : List Bytes → SlotReader F (List Line)
  | key :: rawIndex :: _ => do
    match parseInt (str rawIndex) with
    | .error _ => return []
    | .ok index =>
      match ← getAsList with
      | .error _ => return []
      | .ok none => return []
      | .ok (some elements) =>
        match position index elements.length with
        | none => return []
        | some i => return [[some (lit "LSET"), key, rawIndex, elements.getD i none]]
  | _ => .stop .panic

/-- `List.RemoveLast` of an empty list gives nil. -/
def execRPop (args : List Bytes) : SlotProg F Reply := do
  match ← look getAsList with
  | .error reply => return reply
  | .ok none => return .nullBulk
  | .ok (some elements) =>
    match args with
    | [_, rawCount] => popMany .right "rpop" args elements rawCount
    | _ => popAndLog "rpop" args elements.dropLast (.bulk (elements.getLast?.getD none))

def undoRPop : List Bytes → SlotReader F (List Line) :=
  undoPop "RPUSH" (fun elements => elements.getLast?.getD none) fun elements taken =>
    listRange elements (elements.length - taken) elements.length

/-- The list a pointer taken earlier sees now. -/
def listNow : SlotReader F (List Bytes) := do
  match ← peek with
  | some (.list elements) => return elements
  | _ => return []

def execRPopLPush : List Bytes → DbProg F Reply
  | source :: dest :: more => do
    match ← lookAt (str source) getAsList with
    | .error reply => return reply
    | .ok none => return .nullBulk
    | .ok (some elements) =>
      match ← onKey (str dest) getOrInitList with
      | .error reply => return reply
      | .ok _ =>
        let value := elements.getLast?.getD none
        onKey (str source) (mutate (.list elements.dropLast))
        let destination ← lookAt (str dest) listNow
        onKey (str dest) (mutate (.list (value :: destination)))
        let left ← lookAt (str source) listNow
        if left.isEmpty then onKey (str source) remove
        Prog.ask (DbOp.log (toCmdLine "rpoplpush" (source :: dest :: more)))
        return .bulk value
  | _ => .stop .panic

def undoRPopLPush : List Bytes → DbReader F (List Line)
  | source :: dest :: _ => do
    match ← readAt (str source) getAsList with
    | .error _ => return []
    | .ok none => return []
    | .ok (some []) => return []
    | .ok (some (first :: rest)) =>
      return [[some (lit "RPUSH"), source, (first :: rest).getLast?.getD none],
        [some (lit "LPOP"), dest]]
  | _ => .stop .panic

def execRPush : List Bytes → SlotProg F Reply
  | key :: values => do
    match ← getOrInitList with
    | .error reply => return reply
    | .ok elements =>
      mutate (.list (elements ++ values))
      addAof (toCmdLine "rpush" (key :: values))
      return .int (elements ++ values).length
  | [] => .stop .panic

def undoRPush (args : List Bytes) : SlotReader F (List Line) :=
  undoPush "RPOP" args

def execRPushX (args : List Bytes) : SlotProg F Reply :=
  if args.length < 2 then return .argNumErr (lit "rpush")
  else pushIfExists "rpushx" (fun elements values => elements ++ values) args

def execLTrim : List Bytes → SlotProg F Reply
  | [key, rawStart, rawEnd] => do
    match parseInt (str rawStart) with
    | .error _ => return .notInteger
    | .ok start =>
      match parseInt (str rawEnd) with
      | .error _ => return .notInteger
      | .ok stop =>
        match ← look getAsList with
        | .error reply => return reply
        | .ok none => return .ok
        | .ok (some elements) =>
          let size : Int := elements.length
          let leftCount := if start < 0 then start + size else start
          let last := if stop < 0 then stop + size else stop
          let trimmed := elements.drop leftCount.toNat
          mutate (.list (trimmed.take (trimmed.length - (size - last - 1).toNat)))
          addAof (toCmdLine "ltrim" [key, rawStart, rawEnd])
          return .ok
  | args => return .error (lit "ERR wrong number of arguments (given " ++
      formatNat args.length ++ lit ", expected 3)")

def execLInsert : List Bytes → SlotProg F Reply
  | [key, rawDir, pivot, value] => do
    match ← look getAsList with
    | .error reply => return reply
    | .ok none => return .int 0
    | .ok (some elements) =>
      let dir := toLower (str rawDir)
      if dir ≠ lit "before" ∧ dir ≠ lit "after" then return .err "ERR syntax error"
      else
        match elements.findIdx? fun element => str element = str pivot with
        | none => return .int (-1)
        | some index =>
          let place := if dir = lit "before" then index else index + 1
          mutate (.list (elements.insertIdx place value))
          addAof (toCmdLine "linsert" [key, rawDir, pivot, value])
          return .int (elements.insertIdx place value).length
  | _ => return .argNumErr (lit "linsert")

end Godis.Database
