import Godis.Database.Access

/-!
# Hash commands (`database/hash.go`, `rollbackHashFields` of `database/tx_utils.go`)
-/

namespace Godis.Database

open Golang Program List

variable {F : Type}

abbrev Fields := Finmap fun _ : Str => Str

/-- Arguments taken two by two; one left over is dropped. -/
def pairs : List Bytes → List (Bytes × Bytes)
  | first :: second :: rest => (first, second) :: pairs rest
  | _ => []

section Fields

variable {α : Type} {β : Type}

variable {names : List α}

theorem lookup_eraseAll (map : Finmap fun _ : Str => β) (name : α → Str) {other : Str} :
    (names.foldl (fun map entry => map.erase (name entry)) map).lookup other =
      if other ∈ names.map name then none else map.lookup other := by
  induction names generalizing map with
  | nil => rfl
  | cons first rest ih =>
    rw [foldl_cons, ih, map_cons]
    by_cases later : other ∈ rest.map name
    · rw [if_pos later, if_pos (mem_cons_of_mem _ later)]
    · rw [if_neg later]
      by_cases same : other = name first
      · subst same
        rw [if_pos mem_cons_self, Finmap.lookup_erase]
      · rw [if_neg fun member => (mem_cons.mp member).elim same later,
          Finmap.lookup_erase_ne same]

theorem keys_eraseAll (map : Finmap fun _ : Str => β) (name : α → Str) :
    (names.foldl (fun map entry => map.erase (name entry)) map).keys =
      map.keys \ (names.map name).toFinset := by
  ext -
  rw [Finmap.mem_keys, ← Finmap.lookup_isSome, lookup_eraseAll, Finset.mem_sdiff,
    Finmap.mem_keys, ← Finmap.lookup_isSome]
  split
  · rename_i member
    simp [member]
  · rename_i absent
    simp [absent]

variable {map : Finmap fun _ : Str => β}

theorem eraseAll_eq_self {name : α → Str} {names : List α}
    (notLess : ¬ (names.foldl (fun map entry => map.erase (name entry)) map).keys.card <
      map.keys.card) :
    names.foldl (fun map entry => map.erase (name entry)) map = map := by
  rw [keys_eraseAll] at notLess
  have same : map.keys \ (names.map name).toFinset = map.keys :=
    Finset.eq_of_subset_of_card_le Finset.sdiff_subset (Nat.le_of_not_lt notLess)
  apply Finmap.ext_lookup
  intro other
  rw [lookup_eraseAll]
  split
  · rename_i member
    symm
    rw [Finmap.lookup_eq_none, ← Finmap.mem_keys, ← same, Finset.mem_sdiff, not_and,
      mem_toFinset, not_not]
    exact fun _ => member
  · rfl

theorem eq_empty_of_card_keys (zero : map.keys.card = 0) :
    map = ∅ := by
  apply Finmap.ext_lookup
  intro other
  rw [Finmap.lookup_empty, Finmap.lookup_eq_none, ← Finmap.mem_keys, Finset.card_eq_zero.mp zero]
  exact Finset.notMem_empty other

end Fields

/-- `Dict.RandomKeys(limit)` of a `SimpleDict`, which makes room for all strings first. -/
def randomKeys (members : Finset Str) (limit : Int) : SlotReader F (List Str) :=
  if limit < 0 ∨ maxAlloc < 16 * limit then .stop .panic
  else randomMembers members limit.toNat

def execHSet : List Bytes → SlotProg F Reply
  | key :: field :: value :: more => do
    match ← getOrInitDict with
    | .error reply => return reply
    | .ok fields =>
      mutate (.hash (fields.insert (str field) (str value)))
      addAof (toCmdLine "hset" (key :: field :: value :: more))
      return .int (if str field ∈ fields then 0 else 1)
  | _ => .stop .panic

/-- What brings the fields back; a hash without fields is not told from one with some. -/
def rollbackHashFields (key : Str) (names : List Str) : SlotReader F (List Line) := do
  match ← getAsDict with
  | .error _ => return []
  | .ok none => return [toCmdLineOfStr "DEL" [key]]
  | .ok (some fields) =>
    return names.map fun name =>
      match fields.lookup name with
      | none => toCmdLineOfStr "HDEL" [key, name]
      | some value => toCmdLineOfStr "HSET" [key, name, value]

def undoHSet : List Bytes → SlotReader F (List Line)
  | key :: field :: _ => rollbackHashFields (str key) [str field]
  | _ => .stop .panic

def execHSetNX : List Bytes → SlotProg F Reply
  | key :: field :: value :: more => do
    match ← getOrInitDict with
    | .error reply => return reply
    | .ok fields =>
      if str field ∈ fields then return .int 0
      else
        mutate (.hash (fields.insert (str field) (str value)))
        addAof (toCmdLine "hsetnx" (key :: field :: value :: more))
        return .int 1
  | _ => .stop .panic

/-- The executors that look one field up: what they reply without the hash, without the field,
and for its value. -/
def lookupField (noField : Reply) (found : Str → Reply) : List Bytes → SlotReader F Reply
  | _ :: field :: _ => do
    match ← getAsDict with
    | .error reply => return reply
    | .ok none => return noField
    | .ok (some fields) =>
      match fields.lookup (str field) with
      | none => return noField
      | some value => return found value
  | _ => .stop .panic

def execHGet (args : List Bytes) : SlotReader F Reply :=
  lookupField .nullBulk (fun value => .bulk (some value)) args

def execHExists (args : List Bytes) : SlotReader F Reply :=
  lookupField (.int 0) (fun _ => .int 1) args

def execHDel : List Bytes → SlotProg F Reply
  | key :: names => do
    match ← look getAsDict with
    | .error reply => return reply
    | .ok none => return .int 0
    | .ok (some fields) =>
      let rest := names.foldl (fun fields name => fields.erase (str name)) fields
      mutate (.hash rest)
      if rest.keys.card = 0 then remove
      if rest.keys.card < fields.keys.card then addAof (toCmdLine "hdel" (key :: names))
      return .int (fields.keys.card - rest.keys.card)
  | [] => .stop .panic

def undoHDel : List Bytes → SlotReader F (List Line)
  | key :: names => rollbackHashFields (str key) (names.map str)
  | [] => .stop .panic

def execHLen (_ : List Bytes) : SlotReader F Reply := do
  match ← getAsDict with
  | .error reply => return reply
  | .ok none => return .int 0
  | .ok (some fields) => return .int fields.keys.card

def execHStrlen (args : List Bytes) : SlotReader F Reply :=
  lookupField (.int 0) (fun value => .int value.length) args

def execHMSet : List Bytes → SlotProg F Reply
  | key :: more => do
    if more.length % 2 ≠ 0 then return .syntaxErr
    else
      match ← getOrInitDict with
      | .error reply => return reply
      | .ok fields =>
        mutate (.hash ((pairs more).foldl
          (fun fields pair => fields.insert (str pair.1) (str pair.2)) fields))
        addAof (toCmdLine "hmset" (key :: more))
        return .ok
  | [] => return .syntaxErr

def undoHMSet : List Bytes → SlotReader F (List Line)
  | key :: more => rollbackHashFields (str key) ((pairs more).map fun pair => str pair.1)
  | [] => .stop .panic

def execHMGet : List Bytes → SlotReader F Reply
  | _ :: names => do
    match ← getAsDict with
    | .error reply => return reply
    | .ok none => return .multiBulk (names.map fun _ => none)
    | .ok (some fields) => return .multiBulk (names.map fun name => fields.lookup (str name))
  | [] => .stop .panic

/-- The executors that list a hash: what they say of one field. -/
def listFields (entry : Str → Str → List Bytes) : SlotReader F Reply := do
  match ← getAsDict with
  | .error reply => return reply
  | .ok none => return .emptyMultiBulk
  | .ok (some fields) =>
    return .multiBulk ((← inOrder fields.keys).flatMap fun name =>
      entry name ((fields.lookup name).getD []))

def execHKeys (_ : List Bytes) : SlotReader F Reply :=
  listFields fun name _ => [some name]

def execHVals (_ : List Bytes) : SlotReader F Reply :=
  listFields fun _ value => [some value]

def execHGetAll (_ : List Bytes) : SlotReader F Reply :=
  listFields fun name value => [some name, some value]

/-- `execHIncrBy` and `execHIncrByFloat`, given how a number is read and the text of a sum. -/
def addToField {α : Type} (name : String) (parse : Str → Option α) (sumOf : α → α → Str)
    (notNumber badValue : Reply) : List Bytes → SlotProg F Reply
  | key :: field :: rawDelta :: more => do
    match parse (str rawDelta) with
    | none => return notNumber
    | some delta =>
      match ← getOrInitDict with
      | .error reply => return reply
      | .ok fields =>
        match fields.lookup (str field) with
        | none =>
          mutate (.hash (fields.insert (str field) (str rawDelta)))
          addAof (toCmdLine name (key :: field :: rawDelta :: more))
          return .bulk rawDelta
        | some value =>
          match parse value with
          | none => return badValue
          | some old =>
            let sum := sumOf old delta
            mutate (.hash (fields.insert (str field) sum))
            addAof (toCmdLine name (key :: field :: rawDelta :: more))
            return .bulk (some sum)
  | _ => .stop .panic

def execHIncrBy : List Bytes → SlotProg F Reply :=
  addToField "hincrby" (fun text => (parseInt text).toOption)
    (fun old delta => formatInt (wrap64 (old + delta))) .notInteger
    (.err "ERR hash value is not an integer")

/-- The text of the sum of two numbers, either of which may be NaN. -/
def sumText [Float64 F] (first second : Option F) : Str :=
  match first, second with
  | some first, some second => ((Float64.add first second).map Float64.format).getD (lit "NaN")
  | _, _ => lit "NaN"

def execHIncrByFloat [Float64 F] : List Bytes → SlotProg F Reply :=
  addToField "hincrbyfloat" Float64.parse (sumText (F := F)) .notFloat
    (.err "ERR hash value is not a float")

/-- The reply of `execHRandField` for the fields chosen; of a hash without fields an empty name
is chosen, which has no value. -/
def randFieldReply (fields : Fields) (names : List Str) (withValues : Bool) :
    SlotReader F Reply :=
  if withValues then
    if names.all fun name => name ∈ fields then
      return .multiBulk (names.flatMap fun name => [some name, fields.lookup name])
    else .stop .panic
  else return .multiBulk (names.map some)

/-- `execHRandField` after its arguments are read. -/
def hRandField (count : Int) (withValues : Bool) : SlotReader F Reply := do
  match ← getAsDict with
  | .error reply => return reply
  | .ok none => return .emptyMultiBulk
  | .ok (some fields) =>
    if 0 < count then
      randFieldReply fields (← randomDistinct fields.keys count.toNat) withValues
    else if count < 0 then
      randFieldReply fields (← randomKeys fields.keys (wrap64 (-count))) withValues
    else return .emptyMultiBulk

def execHRandField : List Bytes → SlotReader F Reply
  | [_] => hRandField 1 false
  | [_, rawCount] =>
    match parseInt (str rawCount) with
    | .error _ => return .notInteger
    | .ok count => hRandField count false
  | [_, rawCount, mode] =>
    if toLower (str mode) = lit "withvalues" then
      match parseInt (str rawCount) with
      | .error _ => return .notInteger
      | .ok count => hRandField count true
    else return .syntaxErr
  | [] => .stop .panic
  | _ => return .argNumErr (lit "hrandfield")

/-- The options of `HSCAN`, `SSCAN` and `ZSCAN`: the pattern they leave.  The count is read and
not used; an option without its value panics. -/
def scanOptions : List Bytes → Str → SlotReader F (Except Reply Str)
  | [], pattern => return .ok pattern
  | option :: rest, pattern =>
    if toLower (str option) = lit "count" then
      match rest with
      | [] => .stop .panic
      | value :: rest =>
        match parseInt (str value) with
        | .error _ => return .error .syntaxErr
        | .ok _ => scanOptions rest pattern
    else if toLower (str option) = lit "match" then
      match rest with
      | [] => .stop .panic
      | value :: rest => scanOptions rest (str value)
    else return .error .syntaxErr

/-- The members that fit the pattern, in the order of the map; nothing if it does not compile. -/
def scanMembers (members : Finset Str) (pattern : Str) : SlotReader F (Option (List Str)) := do
  match ← compilePattern pattern with
  | none => return none
  | some fits =>
    return some ((← inOrder members).filter fun member => pattern = lit "*" || fits member)

/-- The reply of a scan that sees everything at once. -/
def scanReply (found : Option (List Bytes)) : Reply :=
  match found with
  | none => .err "Invalid argument"
  | some items => .multiRaw [.bulk (some (formatInt 0)), .multiBulk items]

/-- `execSScan` and `execZScan`, given what is read, its members and what is listed of them. -/
def scanCollection {α : Type} (get : SlotReader F (Except Reply (Option α)))
    (membersOf : α → Finset Str) (listed : α → List Str → List Bytes) :
    List Bytes → SlotReader F Reply
  | _ :: more => do
    match ← scanOptions more.tail (lit "*") with
    | .error reply => return reply
    | .ok pattern =>
      match ← get with
      | .error reply => return reply
      | .ok none => return .emptyMultiBulk
      | .ok (some held) =>
        match more with
        | [] => .stop .panic
        | rawCursor :: _ =>
          match parseInt (str rawCursor) with
          | .error _ => return .err "ERR invalid cursor"
          | .ok _ => return scanReply ((← scanMembers (membersOf held) pattern).map (listed held))
  | [] => .stop .panic

def execHScan : List Bytes → SlotReader F Reply
  | _ :: rawCursor :: options => do
    match ← scanOptions options (lit "*") with
    | .error reply => return reply
    | .ok pattern =>
      match ← getAsDict with
      | .error reply => return reply
      | .ok none => return .nullBulk
      | .ok (some fields) =>
        match parseInt (str rawCursor) with
        | .error _ => return .err "ERR invalid cursor"
        | .ok _ =>
          return scanReply ((← scanMembers fields.keys pattern).map fun names =>
            names.flatMap fun name => [some name, fields.lookup name])
  | _ => return .syntaxErr

end Godis.Database
