import Godis.Database.Hash

/-!
# Set commands (`database/set.go`, `rollbackSetMembers` of `database/tx_utils.go`)
-/

namespace Godis.Database

open Golang Program List

variable {F : Type}

theorem eraseAll_eq_sdiff {α : Type} (members : Finset Str) (name : α → Str) (names : List α) :
    names.foldl (fun members entry => members.erase (name entry)) members =
      members \ (names.map name).toFinset := by
  induction names generalizing members with
  | nil => simp
  | cons first rest ih =>
    rw [foldl_cons, ih]
    ext _
    simp only [Finset.mem_sdiff, Finset.mem_erase, mem_toFinset, map_cons,
      mem_cons, not_or]
    tauto

def execSAdd : List Bytes → SlotProg F Reply
  | key :: added => do
    match ← getOrInitSet with
    | .error reply => return reply
    | .ok members =>
      let grown := added.foldl (fun members member => insert (str member) members) members
      mutate (.set grown)
      addAof (toCmdLine "sadd" (key :: added))
      return .int (grown.card - members.card)
  | [] => .stop .panic

def execSIsMember : List Bytes → SlotReader F Reply
  | _ :: member :: _ => do
    match ← getAsSet with
    | .error reply => return reply
    | .ok none => return .int 0
    | .ok (some members) => return .int (if str member ∈ members then 1 else 0)
  | _ => .stop .panic

def execSRem : List Bytes → SlotProg F Reply
  | key :: removed => do
    match ← look getAsSet with
    | .error reply => return reply
    | .ok none => return .int 0
    | .ok (some members) =>
      let rest := removed.foldl (fun members member => members.erase (str member)) members
      mutate (.set rest)
      if rest.card = 0 then remove
      if rest.card < members.card then addAof (toCmdLine "srem" (key :: removed))
      return .int (members.card - rest.card)
  | [] => .stop .panic

def rollbackSetMembers (key : Str) (names : List Str) : SlotReader F (List Line) := do
  match ← getAsSet with
  | .error _ => return []
  | .ok none => return [toCmdLineOfStr "DEL" [key]]
  | .ok (some members) =>
    return names.map fun name =>
      if name ∈ members then toCmdLineOfStr "SADD" [key, name]
      else toCmdLineOfStr "SREM" [key, name]

/-- The undo function of `SADD`, `SREM` and `SPOP`: all arguments behind the key are members. -/
def undoSetChange : List Bytes → SlotReader F (List Line)
  | key :: names => rollbackSetMembers (str key) (names.map str)
  | [] => .stop .panic

/-- `execSPop` after its arguments are read.  A set that lost its last member stays. -/
def sPop (args : List Bytes) (members : Finset Str) (count : Int) : SlotProg F Reply := do
  let wanted := min count members.card
  let popped ← look (randomDistinct members wanted.toNat)
  mutate (.set (popped.foldl (fun members member => members.erase member) members))
  if 0 < wanted then addAof (toCmdLine "spop" args)
  return .multiBulk (popped.map some)

def execSPop (args : List Bytes) : SlotProg F Reply := do
  if args.length ≠ 1 ∧ args.length ≠ 2 then return .argNumErr (lit "spop")
  else
    match ← look getAsSet with
    | .error reply => return reply
    | .ok none => return .nullBulk
    | .ok (some members) =>
      match args with
      | [_, rawCount] =>
        match parseInt (str rawCount) with
        | .error _ => return .err "ERR value is out of range, must be positive"
        | .ok count =>
          if count ≤ 0 then return .err "ERR value is out of range, must be positive"
          else sPop args members count
      | _ => sPop args members 1

def execSCard (_ : List Bytes) : SlotReader F Reply := do
  match ← getAsSet with
  | .error reply => return reply
  | .ok none => return .int 0
  | .ok (some members) => return .int members.card

def setToReply (members : Finset Str) : SlotReader F Reply := do
  return .multiBulk ((← inOrder members).map some)

def execSMembers (_ : List Bytes) : SlotReader F Reply := do
  match ← getAsSet with
  | .error reply => return reply
  | .ok none => return .emptyMultiBulk
  | .ok (some members) => setToReply members

def intersect : List (Finset Str) → Finset Str
  | [] => ∅
  | first :: rest => rest.foldl (fun result members => result ∩ members) first

def union (sets : List (Finset Str)) : Finset Str :=
  sets.foldl (fun result members => result ∪ members) ∅

def diff : List (Finset Str) → Finset Str
  | [] => ∅
  | first :: rest => rest.foldl (fun result members => result \ members) first

/-- The sets of the keys, an absent key giving the empty one; the first wrong type ends it. -/
def getSets : List Bytes → DbReader F (Except Reply (List (Finset Str)))
  | [] => return .ok []
  | key :: rest => do
    match ← readAt (str key) getAsSet with
    | .error reply => return .error reply
    | .ok members =>
      match ← getSets rest with
      | .error reply => return .error reply
      | .ok sets => return .ok (members.getD ∅ :: sets)

/-- As `getSets`, but the first empty set ends it with the reply given. -/
def getNonEmptySets (empty : Reply) : List Bytes → DbReader F (Except Reply (List (Finset Str)))
  | [] => return .ok []
  | key :: rest => do
    match ← readAt (str key) getAsSet with
    | .error reply => return .error reply
    | .ok members =>
      if (members.getD ∅).card = 0 then return .error empty
      else
        match ← getNonEmptySets empty rest with
        | .error reply => return .error reply
        | .ok sets => return .ok (members.getD ∅ :: sets)

variable {Allowed : DbLook F → Prop} {args : List Bytes}
variable (reads : ∀ arg ∈ args, (readAt (str arg) getAsSet).Uses Allowed)

include reads in
theorem uses_getSets : (getSets args : DbReader F _).Uses Allowed := by
  induction args with
  | nil => trivial
  | cons key rest ih =>
    obtain ⟨here, later⟩ := forall_mem_cons.mp reads
    refine here.bind fun members => ?_
    cases members with
    | error reply => trivial
    | ok members =>
      refine (ih later).bind fun sets => ?_
      cases sets with
      | error reply | ok sets => trivial

include reads in
theorem uses_getNonEmptySets {empty : Reply} :
    (getNonEmptySets empty args : DbReader F _).Uses Allowed := by
  induction args with
  | nil => trivial
  | cons key rest ih =>
    obtain ⟨here, later⟩ := forall_mem_cons.mp reads
    refine here.bind fun members => ?_
    cases members with
    | error reply => trivial
    | ok members =>
      dsimp only
      split
      · trivial
      · refine (ih later).bind fun sets => ?_
        cases sets with
        | error reply | ok sets => trivial

/-- The order in which the members of a set that is in no key are visited. -/
def replyWith (members : Finset Str) : DbReader F Reply :=
  readAt [] (setToReply members)

def execSInter (args : List Bytes) : DbReader F Reply := do
  match ← getNonEmptySets .emptyMultiBulk args with
  | .error reply => return reply
  | .ok sets => replyWith (intersect sets)

/-- The result is put even if it is empty, and the destination keeps its deadline. -/
def execSInterStore : List Bytes → DbProg F Reply
  | dest :: keys => do
    match ← lookup (getNonEmptySets (.int 0) keys) with
    | .error reply => return reply
    | .ok sets =>
      onKey (str dest) do
        let _ ← putEntity (.set (intersect sets))
        addAof (toCmdLine "sinterstore" (dest :: keys))
        return .int (intersect sets).card
  | [] => .stop .panic

def execSUnion (args : List Bytes) : DbReader F Reply := do
  match ← getSets args with
  | .error reply => return reply
  | .ok sets => replyWith (union sets)

/-- `execSUnionStore` and `execSDiffStore`: the destination is removed first, and an empty result
is not put. -/
def storeSet (name : String) (combine : List (Finset Str) → Finset Str) :
    List Bytes → DbProg F Reply
  | dest :: keys => do
    match ← lookup (getSets keys) with
    | .error reply => return reply
    | .ok sets =>
      onKey (str dest) do
        remove
        if (combine sets).card = 0 then return .int 0
        else
          let _ ← putEntity (.set (combine sets))
          addAof (toCmdLine name (dest :: keys))
          return .int (combine sets).card
  | [] => .stop .panic

def execSUnionStore (args : List Bytes) : DbProg F Reply :=
  storeSet "sunionstore" union args

def execSDiff (args : List Bytes) : DbReader F Reply := do
  match ← getSets args with
  | .error reply => return reply
  | .ok sets => replyWith (diff sets)

def execSDiffStore (args : List Bytes) : DbProg F Reply :=
  storeSet "sdiffstore" diff args

def sRandMember (members : Finset Str) (count : Int) : SlotReader F Reply := do
  if 0 < count then
    return .multiBulk ((← randomDistinct members count.toNat).map some)
  else if count < 0 then
    return .multiBulk ((← randomKeys members (wrap64 (-count))).map some)
  else return .emptyMultiBulk

def execSRandMember (args : List Bytes) : SlotReader F Reply := do
  if args.length ≠ 1 ∧ args.length ≠ 2 then return .argNumErr (lit "srandmember")
  else
    match ← getAsSet with
    | .error reply => return reply
    | .ok none => return .nullBulk
    | .ok (some members) =>
      match args with
      | [_, rawCount] =>
        match parseInt (str rawCount) with
        | .error _ => return .notInteger
        | .ok count => sRandMember members count
      | _ => return .bulk (some ((← randomKeys members 1).headD []))

def execSScan : List Bytes → SlotReader F Reply :=
  scanCollection getAsSet id fun _ names => names.map some

end Godis.Database
