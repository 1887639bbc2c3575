import Godis.Database.Keys
import Godis.Redis.Parser

/-!
# Commands between cluster nodes (`database/cluster_helper.go`)
-/

namespace Godis.Database

open Golang Program

variable {F : Type}

def existing : List Bytes → DbReader F (List Key)
  | [] => return []
  | key :: rest => do
    match ← readAt (str key) getEntity with
    | some _ => return str key :: (← existing rest)
    | none => existing rest

theorem uses_existing {Allowed : DbLook F → Prop} {args : List Bytes}
    (reads : ∀ arg ∈ args, (readAt (str arg) getEntity).Uses Allowed) :
    (existing args : DbReader F _).Uses Allowed := by
  induction args with
  | nil => trivial
  | cons key rest ih =>
    obtain ⟨here, later⟩ := List.forall_mem_cons.mp reads
    refine here.bind fun entity => ?_
    cases entity with
    | none => exact ih later
    | some value => exact (ih later).bind fun others => trivial

def execExistIn (args : List Bytes) : DbReader F Reply := do
  let found ← existing args
  if found.isEmpty then return .emptyMultiBulk
  else return .multiBulk (found.map some)

def execDumpKey [Float64 F] : List Bytes → SlotReader F Reply
  | key :: _ => do
    match ← getEntity with
    | none => return .emptyMultiBulk
    | some value =>
      let dumpCmd ← entityToCmd (str key) value
      let ttlCmd ← toTTLCmd (str key)
      return .multiBulk [some (multiBulkBytes dumpCmd), some (multiBulkBytes ttlCmd)]
  | [] => .stop .panic

def execRenameFrom (_ : List Bytes) : SlotProg F Reply := do
  remove
  return .ok

/-- A command line out of a payload, its key replaced; without a second argument there is none to
replace. -/
def parseCmd (what : String) (key payload : Bytes) : DbReader F (Except Reply Line) :=
  match parseOne (str payload) with
  | none => .stop .blocked
  | some (.failed error) => return .error (.error (lit "illegal " ++ lit what ++ lit " cmd: " ++ error))
  | some (.data (.multiBulk (name :: _ :: rest))) => return .ok (name :: key :: rest)
  | some (.data (.multiBulk _)) => .stop .panic
  | some (.data _) => return .error (.error (lit what ++ lit " cmd is not multi bulk reply"))

/-- `execRenameTo` and `execCopyTo`, given how a command line is executed. -/
def loadDump (execWithLock : Line → DbProg F Reply) : List Bytes → DbProg F Reply
  | key :: dump :: ttl :: _ => do
    match ← lookup (parseCmd "dump" key dump) with
    | .error reply => return reply
    | .ok dumpCmd =>
      match ← lookup (parseCmd "ttl" key ttl) with
      | .error reply => return reply
      | .ok ttlCmd =>
        onKey (str key) remove
        let dumpResult ← execWithLock dumpCmd
        if dumpResult.isError then return dumpResult
        else
          let ttlResult ← execWithLock ttlCmd
          if ttlResult.isError then return ttlResult
          else return .ok
  | _ => .stop .panic

def execCopyFrom (_ : List Bytes) : SlotReader F Reply :=
  return .ok

end Godis.Database
