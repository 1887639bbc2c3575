import Godis.Database.Server
import Godis.Datastruct.RWLocks

/-!
# Transactions between nodes (`cluster/core/tcc.go`)

A node prepares a transaction by taking the locks of its keys and computing the lines that undo
it, commits it by executing it and giving the locks back, and rolls it back by executing the undo
lines.  `execPrepare` and `execRollback` may have to wait for the locks: the parts before and
behind the wait are definitions of their own.
-/

namespace Godis.Cluster

open Golang Program Database Dict

/-- Why a handler does not reply: it panics, it waits for ever, it meets a number that is not one,
or the process is aborted; or the calls nest deeper than a bound allows. -/
inductive Halt where
  | panic
  | blocked
  | nan
  | aborted
  | tooDeep
  deriving DecidableEq, Repr

def Halt.ofStop : Stop → Halt
  | .panic => .panic
  | .blocked => .blocked
  | .nan => .nan

structure Tcc where
  realCmdLine : Line
  undoLogs : List Line
  writeKeys : List Key
  readKeys : List Key
  hasLock : Bool

/-- Database 0 of a node with the locks of its shards, and `transactions`: the table, the
transactions behind their addresses, and those the time wheel is going to delete. -/
structure Node (F : Type) where
  db : Space F
  shards : Shards
  txs : Str → Option Nat
  heap : Nat → Tcc
  next : Nat
  leaving : Finset Str

variable {F : Type}

namespace Node

def initial : Node F where
  db := Space.empty
  shards _ := .unlocked
  txs _ := none
  heap _ := ⟨[], [], [], [], false⟩
  next := 0
  leaving := ∅

variable (node : Node F)

def runDb {α : Type} (env : Env F) (program : DbProg F α) : Except Halt α × Node F :=
  let ended := program.run (dbHandle env) node.db
  (ended.1.mapError Halt.ofStop, { node with db := ended.2 })

def setTx (ptr : Nat) (tx : Tcc) : Node F :=
  { node with heap := Function.update node.heap ptr tx }

def enter (txId : Str) (keys : List Key × List Key) : Node F :=
  { node with
    txs := Function.update node.txs txId (some node.next)
    heap := Function.update node.heap node.next ⟨[], [], keys.1, keys.2, false⟩
    next := node.next + 1 }

def deleteTx (txId : Str) : Node F :=
  { node with txs := Function.update node.txs txId none }

end Node

section Handlers

variable [Float64 F]

/-! ## Commands on the own database -/

def recovered {σ : Type} (ended : Except Halt Reply × σ) : Except Halt Reply × σ :=
  match ended.1 with
  | .error .panic => (.ok (.err "Err unknown"), ended.2)
  | _ => ended

variable (F) in
def lockedKeys : Line → List Key × List Key
  | [] => ([], [])
  | head :: args =>
    match Name.ofText (toLower (str head)) with
    | none => ([], [])
    | some name =>
      if validateArity (command (F := F) name).arity (head :: args) then
        match (command (F := F) name).prepare with
        | none => ([], [])
        | some prepare => prepare args
      else ([], [])

variable (env : Env F) (spread : Str → Nat)

/-- `LocalExec`, for a connection outside `MULTI` that has selected database 0: the versions go up
before the locks are taken, and these are given back at the end. -/
def localExec (line : Line) (node : Node F) : Except Halt Reply × Node F :=
  match rwLocks spread node.shards (lockedKeys F line).1 (lockedKeys F line).2 with
  | none => (.error .blocked, { node with db := node.db.addVersion (lockedKeys F line).1 })
  | some _ =>
    let ended := execNormalCommand env line node.db
    recovered (ended.1.mapError Halt.ofStop, { node with db := ended.2 })

def localExecWithinLock (line : Line) (node : Node F) : Except Halt Reply × Node F :=
  node.runDb env (exec line)

def localExists (keys : List Key) (node : Node F) : Except Halt (List Key) × Node F :=
  node.runDb env (lookup (existing (keys.map some)))

/-! ## Prepare functions (`cluster/commands/mset.go`, `rename.go`) -/

def evenPlaces : List Bytes → List Key
  | [] => []
  | [key] => [str key]
  | key :: _ :: rest => str key :: evenPlaces rest

def someKeysExistsErr : String :=
  "Some Keys Exists"

def keyExistsErr : String :=
  "key exists"

def msetNxPrecheck (args : List Bytes) (node : Node F) : Except Halt Reply × Node F :=
  Prog.andThen (localExists env (evenPlaces args) node) fun exist node =>
    if exist.isEmpty then (.ok .ok, node) else (.ok (.err someKeysExistsErr), node)

def prepareRenameFrom (args : List Bytes) (node : Node F) : Except Halt Reply × Node F :=
  match args with
  | [key] =>
    Prog.andThen (localExec env spread (toCmdLineOfStr "Exists" [str key]) node)
      fun existResp node =>
        match existResp with
        | .error text => (.ok (.error text), node)
        | .int 0 => (.ok (.err "ERR no such key"), node)
        | .int _ => localExecWithinLock env (toCmdLineOfStr "DumpKey" [str key]) node
        | _ => (.error .panic, node)
  | _ => (.ok (.argNumErr (lit "RenameFrom")), node)

def prepareRenameNxTo (args : List Bytes) (node : Node F) : Except Halt Reply × Node F :=
  match args with
  | [key, _, _] =>
    Prog.andThen (localExists env [str key] node) fun exist node =>
      if exist.isEmpty then (.ok .ok, node) else (.ok (.err keyExistsErr), node)
  | _ => (.ok (.argNumErr (lit "RenameNxTo")), node)

def prepareFunc (name : Str) (args : List Bytes) (node : Node F) : Except Halt Reply × Node F :=
  if name = lit "msetnx" then msetNxPrecheck env args node
  else if name = lit "renamefrom" then prepareRenameFrom env spread args node
  else if name = lit "renamenxto" then prepareRenameNxTo env args node
  else (.ok .ok, node)

/-! ## Handlers -/

def keysIndexed : Name → Nat
  | .del | .exists | .keys | .scan | .mset | .mget | .msetnx | .randomkey | .sinter | .sunion
  | .sdiff | .dumpkey | .existin | .getver => 0
  | .rename | .renamenx | .rpoplpush => 2
  | _ => 1

variable (F) in
/-- `GetRelatedKeys`, which panics without enough arguments. -/
def getRelatedKeys : Line → Option (List Key × List Key)
  | [] => none
  | head :: args =>
    match Name.ofText (toLower (str head)) with
    | none => some ([], [])
    | some name =>
      match (command (F := F) name).prepare with
      | none => some ([], [])
      | some prepare => if keysIndexed name ≤ args.length then some (prepare args) else none

/-- The part of `execPrepare` before `RWLocks`: the address of the transaction, or the reply. -/
def enterPrepare (txId : Str) (realCmdLine : Line) (node : Node F) :
    Except Halt (Except Reply Nat) × Node F :=
  if (node.txs txId).isSome then (.ok (.error (.err "transaction existed")), node)
  else
    match getRelatedKeys F realCmdLine with
    | none => (.error .panic, node.enter txId ([], []))
    | some keys => (.ok (.ok node.next), node.enter txId keys)

def unlockTx (ptr : Nat) (node : Node F) : Except Halt Unit × Node F :=
  match rwUnLocks spread node.shards (node.heap ptr).writeKeys (node.heap ptr).readKeys with
  | none => (.error .aborted, node)
  | some shards => (.ok (), { node with shards := shards })

/-- The part of `execPrepare` behind `RWLocks`. -/
def finishPrepare (ptr : Nat) (head : Bytes) (args : List Bytes) (node : Node F) :
    Except Halt Reply × Node F :=
  let logs := getUndoLogs env (head :: args) node.db
  Prog.andThen (logs.1.mapError Halt.ofStop, { node with db := logs.2 }) fun undoLogs node =>
    let node := node.setTx ptr { node.heap ptr with
      undoLogs := undoLogs, realCmdLine := head :: args, hasLock := true }
    Prog.andThen (prepareFunc env spread (toLower (str head)) args node) fun result node =>
      if result.isError then
        Prog.andThen (unlockTx spread ptr node) fun _ node =>
          (.ok result, node.setTx ptr { node.heap ptr with hasLock := false })
      else (.ok result, node)

/-- `RWLocks` for a transaction, which waits for the locks of others. -/
def lockTx (ptr : Nat) (node : Node F) : Except Halt Unit × Node F :=
  match rwLocks spread node.shards (node.heap ptr).writeKeys (node.heap ptr).readKeys with
  | none => (.error .blocked, node)
  | some shards => (.ok (), { node with shards := shards })

def execPrepare (args : List Bytes) (node : Node F) : Except Halt Reply × Node F :=
  match args with
  | txId :: head :: realArgs =>
    Prog.andThen (enterPrepare (str txId) (head :: realArgs) node) fun entered node =>
      match entered with
      | .error reply => (.ok reply, node)
      | .ok ptr =>
        Prog.andThen (lockTx spread ptr node) fun _ node =>
          finishPrepare env spread ptr head realArgs node
  | _ => (.ok (.argNumErr (lit "prepare")), node)

def commitTx (txId : Str) (ptr : Nat) (node : Node F) : Except Halt Reply × Node F :=
  Prog.andThen (localExecWithinLock env (node.heap ptr).realCmdLine node) fun resp node =>
    Prog.andThen (unlockTx spread ptr node) fun _ node =>
      let node := node.setTx ptr { node.heap ptr with hasLock := false }
      if resp.isError then (.ok resp, node)
      else (.ok resp, { node with leaving := insert txId node.leaving })

def execCommit (args : List Bytes) (node : Node F) : Except Halt Reply × Node F :=
  match args with
  | [txId] =>
    match node.txs (str txId) with
    | none => (.ok (.err "transaction not found"), node)
    | some ptr => commitTx env spread (str txId) ptr node
  | _ => (.ok (.argNumErr (lit "commit")), node)

/-- The part of `execRollback` behind `RWLocks`: the undo lines are executed, the last one first. -/
def finishRollback (txId : Str) (ptr : Nat) (node : Node F) : Except Halt Reply × Node F :=
  let undone := execUndo (fun _ => env) 0 (node.heap ptr).undoLogs.reverse node.db
  Prog.andThen (undone.1.mapError Halt.ofStop, { node with db := undone.2 }) fun _ node =>
    Prog.andThen (unlockTx spread ptr node) fun _ node => (.ok .ok, node.deleteTx txId)

def relockTx (ptr : Nat) (node : Node F) : Except Halt Unit × Node F :=
  Prog.andThen (lockTx spread ptr node) fun _ node =>
    (.ok (), node.setTx ptr { node.heap ptr with hasLock := true })

def execRollback (args : List Bytes) (node : Node F) : Except Halt Reply × Node F :=
  match args with
  | [txId] =>
    match node.txs (str txId) with
    | none => (.ok (.err "transaction not found"), node)
    | some ptr =>
      if (node.heap ptr).hasLock then finishRollback env spread (str txId) ptr node
      else
        Prog.andThen (relockTx spread ptr node) fun _ node =>
          finishRollback env spread (str txId) ptr node
  | _ => (.ok (.argNumErr (lit "rollback")), node)

end Handlers

section Locks

variable {spread : Str → Nat} {ptr : Nat} {node : Node F} {shards : Shards}

theorem lockTx_some (locks : rwLocks spread node.shards (node.heap ptr).writeKeys
    (node.heap ptr).readKeys = some shards) :
    lockTx spread ptr node = (.ok (), { node with shards := shards }) := by
  rw [lockTx, locks]

theorem lockTx_none (waits : rwLocks spread node.shards (node.heap ptr).writeKeys
    (node.heap ptr).readKeys = none) :
    lockTx spread ptr node = (.error .blocked, node) := by
  rw [lockTx, waits]

theorem unlockTx_some (freed : rwUnLocks spread node.shards (node.heap ptr).writeKeys
    (node.heap ptr).readKeys = some shards) :
    unlockTx spread ptr node = (.ok (), { node with shards := shards }) := by
  rw [unlockTx, freed]

theorem unlockTx_none (aborts : rwUnLocks spread node.shards (node.heap ptr).writeKeys
    (node.heap ptr).readKeys = none) :
    unlockTx spread ptr node = (.error .aborted, node) := by
  rw [unlockTx, aborts]

end Locks

end Godis.Cluster

