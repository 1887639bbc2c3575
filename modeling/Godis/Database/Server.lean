import Godis.Database.Transaction

/-!
# The server (`Server.Exec` of `database/server.go`, `DB.Exec` of `database/database.go`)

What a command line of a client does to the databases and to its connection.  Handlers that deal
with something else (publishing, persistence, replication, information about the server) are named
only: they touch no key.
-/

namespace Godis.Database

open Golang Program

inductive Role where
  | masterRole
  | slaveRole
  deriving DecidableEq, Repr

/-- What `connection.Connection` keeps of a client. -/
structure Conn where
  isMaster : Bool
  inMultiState : Bool
  queue : List Line
  txErrors : List Reply
  watching : Watching
  password : Str
  selectedDB : Nat

structure Server (F : Type) where
  role : Role
  dbSet : List (Space F)
  requirePass : Str
  appendOnly : Bool

inductive Handler where
  | info
  | slowlog
  | command
  | subscribe
  | publish
  | unsubscribe
  | bgRewriteAOF
  | rewriteAOF
  | saveRDB
  | bgSaveRDB
  | replConf
  | psync
  deriving DecidableEq, Repr

inductive Answer where
  | reply (reply : Reply)
  | handled (handler : Handler)
  /-- The execution does not return, or meets a number that is not one. -/
  | never

def Answer.ofEnd : Except Stop Reply → Answer
  | .ok result => .reply result
  | .error .panic => .reply (.err "Err unknown")
  | .error _ => .never

structure Answered (F : Type) where
  answer : Answer
  server : Server F
  conn : Conn

namespace Conn

/-- `SetMultiState(false)`, which keeps the errors. -/
def leaveMulti (conn : Conn) : Conn :=
  { conn with inMultiState := false, watching := ∅, queue := [] }

def startMulti (conn : Conn) : Reply × Conn :=
  if conn.inMultiState then (.err "ERR MULTI calls can not be nested", conn)
  else (.ok, { conn with inMultiState := true })

def discardMulti (conn : Conn) : Reply × Conn :=
  if conn.inMultiState then (.ok, conn.leaveMulti)
  else (.err "ERR DISCARD without MULTI", conn)

def addTxError (conn : Conn) (error : Reply) : Reply × Conn :=
  (error, { conn with txErrors := conn.txErrors ++ [error] })

end Conn

section Exec

variable {F : Type} [Float64 F]

def isReadOnlyCommand (F : Type) [Float64 F] (name : Str) : Bool :=
  match Name.ofText name with
  | none => false
  | some found => (command (F := F) found).readOnly

def enqueueCmd (F : Type) [Float64 F] (conn : Conn) (head : Bytes) (args : List Bytes) :
    Reply × Conn :=
  match Name.ofText (toLower (str head)) with
  | none => conn.addTxError (.unknownCommand (toLower (str head)))
  | some found =>
    if (command (F := F) found).prepare.isNone then
      conn.addTxError (.error
        (lit "ERR command '" ++ toLower (str head) ++ lit "' cannot be used in MULTI"))
    else if validateArity (command (F := F) found).arity (head :: args) then
      (.status (lit "QUEUED"), { conn with queue := conn.queue ++ [head :: args] })
    else conn.addTxError (.argNumErr (toLower (str head)))

def watch (space : Space F) (conn : Conn) (keys : List Bytes) : Conn :=
  { conn with
    watching := keys.foldl
      (fun watching key => watching.insert (str key) (space.slots (str key)).version) conn.watching }

def execTransaction (moments : Moments F) (conn : Conn) (space : Space F) :
    Except Stop Reply × Space F × Conn :=
  if conn.inMultiState then
    if conn.txErrors.isEmpty then
      let ended := execMulti moments conn.watching conn.queue space
      (ended.1, ended.2, conn.leaveMulti)
    else (.ok execAbort, space, conn.leaveMulti)
  else (.ok (.err "ERR EXEC without MULTI"), space, conn)

def Space.exec (moments : Moments F) (conn : Conn) (head : Bytes) (args : List Bytes)
    (space : Space F) : Except Stop Reply × Space F × Conn :=
  let name := toLower (str head)
  if name = lit "multi" then
    if args.isEmpty then (.ok conn.startMulti.1, space, conn.startMulti.2)
    else (.ok (.argNumErr name), space, conn)
  else if name = lit "discard" then
    if args.isEmpty then (.ok conn.discardMulti.1, space, conn.discardMulti.2)
    else (.ok (.argNumErr name), space, conn)
  else if name = lit "exec" then
    if args.isEmpty then execTransaction moments conn space
    else (.ok (.argNumErr name), space, conn)
  else if name = lit "watch" then
    if validateArity (-2) (head :: args) then (.ok .ok, space, watch space conn args)
    else (.ok (.argNumErr name), space, conn)
  else if conn.inMultiState then
    (.ok (enqueueCmd F conn head args).1, space, (enqueueCmd F conn head args).2)
  else
    let ended := execNormalCommand (moments 0) (head :: args) space
    (ended.1, ended.2, conn)

namespace Server

variable (server : Server F)

def withDb (dbIndex : Nat) (space : Space F) : Server F :=
  { server with dbSet := server.dbSet.set dbIndex space }

def noSuchDb : Reply :=
  .err "ERR DB index is out of range"

/-! ## Handlers -/

def ping : List Bytes → Reply
  | [] => .status (lit "PONG")
  | [text] => .status (str text)
  | _ => .err "ERR wrong number of arguments for 'ping' command"

def auth (conn : Conn) : List Bytes → Reply × Conn
  | [password] =>
    if server.requirePass = [] then (.err "ERR Client sent AUTH, but no password is set", conn)
    else if server.requirePass = str password then (.ok, { conn with password := str password })
    else (.err "ERR invalid password", { conn with password := str password })
  | _ => (.err "ERR wrong number of arguments for 'auth' command", conn)

def isAuthenticated (conn : Conn) : Bool :=
  server.requirePass = [] || conn.password = server.requirePass

def dbSize (conn : Conn) : Reply :=
  match server.dbSet[conn.selectedDB]? with
  | none => .err "Err unknown"
  | some space => .int space.keys.card

/-- `execSlaveOf`; the connection to the new master is made in the background. -/
def execSlaveOf : List Bytes → Reply × Server F
  | [host, port] =>
    if toLower (str host) = lit "no" ∧ toLower (str port) = lit "one" then
      (.ok, { server with role := .masterRole })
    else
      match parseInt (str port) with
      | .error _ => (.notInteger, server)
      | .ok _ => (.ok, { server with role := .slaveRole })
  | _ => (.argNumErr (lit "SLAVEOF"), server)

/-- `makeDB` in the place of a database, which keeps its `addAof`. -/
def flushed (space : Space F) : Space F :=
  { (Space.empty : Space F) with events := space.events }

def noteAt (dbIndex : Nat) (line : Line) : Server F :=
  { server with dbSet := server.dbSet.modify dbIndex fun space =>
      { space with events := space.events ++ [.logged line] } }

def flushAll : Server F :=
  noteAt { server with dbSet := server.dbSet.map flushed } 0 (toCmdLineOfStr "FlushAll" [])

def execFlushDB (dbIndex : Nat) : Reply × Server F :=
  let noted := server.noteAt dbIndex (toCmdLineOfStr "FlushDB" [])
  if dbIndex < server.dbSet.length then
    (.ok, { noted with dbSet := noted.dbSet.modify dbIndex flushed })
  else (noSuchDb, noted)

def execSelect (conn : Conn) (rawIndex : Bytes) : Reply × Conn :=
  match parseInt (str rawIndex) with
  | .error _ => (.err "ERR invalid DB index", conn)
  | .ok dbIndex =>
    if server.dbSet.length ≤ dbIndex ∨ dbIndex < 0 then (noSuchDb, conn)
    else (.ok, { conn with selectedDB := dbIndex.toNat })

/-- The options of `COPY`: the database of the destination and whether it is replaced. -/
def copyOptions (databases : Nat) : List Bytes → Nat → Bool → Except Reply (Nat × Bool)
  | [], dbIndex, replace => .ok (dbIndex, replace)
  | option :: rest, dbIndex, replace =>
    if toLower (str option) = lit "db" then
      match rest with
      | [] => .error .syntaxErr
      | rawIndex :: rest =>
        match parseInt (str rawIndex) with
        | .error _ => .error .syntaxErr
        | .ok index =>
          if databases ≤ index ∨ index < 0 then .error noSuchDb
          else copyOptions databases rest index.toNat replace
    else if toLower (str option) = lit "replace" then copyOptions databases rest dbIndex true
    else .error .syntaxErr

/-- The end of `execCopy`: the value is put, then the deadline set if the source has one. -/
def copyTo (dest : Key) (value : Value F) (deadline : Option Int) (space : Space F) : Space F :=
  let placed := (space.act dest ((space.slots dest).putEntity value)).2
  match deadline with
  | none => placed
  | some deadline =>
    (placed.act dest ((Change.expire (F := F) deadline).exec (placed.slots dest))).2

/-- `execCopy`.  The object both keys share afterwards is the subject of `Held`. -/
def execCopy (env : Env F) (conn : Conn) (source dest : Bytes) (options : List Bytes) :
    Except Stop Reply × Server F :=
  match server.dbSet[conn.selectedDB]? with
  | none => (.error .panic, server)
  | some db =>
    match copyOptions server.dbSet.length options conn.selectedDB false with
    | .error reply => (.ok reply, server)
    | .ok (dbIndex, replace) =>
      if str source = str dest ∧ dbIndex = conn.selectedDB then
        (.ok (.err "ERR source and destination objects are the same"), server)
      else
        let looked := dbHandle env (.look (str source) .getEntity) db
        let server := server.withDb conn.selectedDB looked.2
        match looked.1, server.dbSet[dbIndex]? with
        | none, _ => (.ok (.int 0), server)
        | some _, none => (.error .panic, server)
        | some value, some destDb =>
          let found := dbHandle env (.look (str dest) .getEntity) destDb
          let server := server.withDb dbIndex found.2
          if Option.isSome (α := Value F) found.1 && !replace then (.ok (.int 0), server)
          else
            let copied := server.withDb dbIndex
              (copyTo (str dest) value (looked.2.slots (str source)).deadline found.2)
            (.ok (.int 1), copied.noteAt conn.selectedDB
              (toCmdLine "copy" (source :: dest :: options)))

/-! ## Dispatch -/

def replied (conn : Conn) (reply : Reply) : Answered F :=
  ⟨.reply reply, server, conn⟩

def handledBy (conn : Conn) (handler : Handler) : Answered F :=
  ⟨.handled handler, server, conn⟩

/-- The part of `Server.Exec` behind the check of read only replicas. -/
def dispatch (moments : Moments F) (conn : Conn) (head : Bytes) (args : List Bytes) : Answered F :=
  let name := toLower (str head)
  if name = lit "subscribe" then
    if args.isEmpty then server.replied conn (.argNumErr (lit "subscribe"))
    else server.handledBy conn .subscribe
  else if name = lit "publish" then server.handledBy conn .publish
  else if name = lit "unsubscribe" then server.handledBy conn .unsubscribe
  else if name = lit "bgrewriteaof" then
    if server.appendOnly then server.handledBy conn .bgRewriteAOF
    else server.replied conn (.err "AppendOnly is false, you can't rewrite aof file")
  else if name = lit "rewriteaof" then
    if server.appendOnly then server.handledBy conn .rewriteAOF
    else server.replied conn (.err "AppendOnly is false, you can't rewrite aof file")
  else if name = lit "flushall" then ⟨.reply .ok, server.flushAll, conn⟩
  else if name = lit "flushdb" then
    if !args.isEmpty then server.replied conn (.argNumErr name)
    else if conn.inMultiState then
      server.replied conn (.err "ERR command 'FlushDB' cannot be used in MULTI")
    else ⟨.reply (server.execFlushDB conn.selectedDB).1, (server.execFlushDB conn.selectedDB).2, conn⟩
  else if name = lit "save" then server.handledBy conn .saveRDB
  else if name = lit "bgsave" then server.handledBy conn .bgSaveRDB
  else if name = lit "select" then
    if conn.inMultiState then
      server.replied conn (.err "cannot select database within multi")
    else
      match args with
      | [rawIndex] => ⟨.reply (server.execSelect conn rawIndex).1, server,
          (server.execSelect conn rawIndex).2⟩
      | _ => server.replied conn (.argNumErr (lit "select"))
  else if name = lit "copy" then
    match args with
    | source :: dest :: options =>
      let ended := server.execCopy (moments 0) conn source dest options
      ⟨.ofEnd ended.1, ended.2, conn⟩
    | _ => server.replied conn (.argNumErr (lit "copy"))
  else if name = lit "replconf" then server.handledBy conn .replConf
  else if name = lit "psync" then server.handledBy conn .psync
  else
    match server.dbSet[conn.selectedDB]? with
    | none => server.replied conn noSuchDb
    | some space =>
      let ended := space.exec moments conn head args
      ⟨.ofEnd ended.1, server.withDb conn.selectedDB ended.2.1, ended.2.2⟩

def exec (moments : Moments F) (conn : Conn) (line : Line) : Answered F :=
  match line with
  | [] => server.replied conn (.err "Err unknown")
  | head :: args =>
    let name := toLower (str head)
    if name = lit "ping" then server.replied conn (ping args)
    else if name = lit "auth" then
      ⟨.reply (server.auth conn args).1, server, (server.auth conn args).2⟩
    else if !server.isAuthenticated conn then
      server.replied conn (.err "NOAUTH Authentication required")
    else if name = lit "info" then server.handledBy conn .info
    else if name = lit "slowlog" then server.handledBy conn .slowlog
    else if name = lit "dbsize" then server.replied conn (server.dbSize conn)
    else if name = lit "slaveof" then
      if conn.inMultiState then
        server.replied conn (.err "cannot use slave of database within multi")
      else ⟨.reply (server.execSlaveOf args).1, (server.execSlaveOf args).2, conn⟩
    else if name = lit "command" then server.handledBy conn .command
    else if server.role = .slaveRole ∧ conn.isMaster = false ∧
        isReadOnlyCommand F name = false then
      server.replied conn (.err "READONLY You can't write against a read only slave.")
    else server.dispatch moments conn head args

def ownNames : List String :=
  ["ping", "auth", "info", "slowlog", "dbsize", "slaveof", "command", "subscribe", "publish",
    "unsubscribe", "bgrewriteaof", "rewriteaof", "flushall", "flushdb", "save", "bgsave", "select",
    "copy", "replconf", "psync", "multi", "discard", "exec", "watch"]

end Server

end Exec

end Godis.Database
