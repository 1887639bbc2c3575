import Godis.Cluster.Tcc
import Godis.Redis.ReplyCodec

/-!
# Commands of the cluster (`cluster/core/command.go`, `utils.go`, `cluster/commands`)

A node finds out which nodes own the keys of a command.  If it is one node, it hands the command
over to it (which may be the node itself), else it runs a transaction between the owners.
-/

namespace Godis.Cluster

open Golang Program Database Dict

abbrev Nodes (F : Type) := Str → Node F

/-- What a command meets while it is dispatched: clock and random choices, the shards of keys, the
routing every node uses (`getSlotImpl`, which may panic, and `pickNodeImpl`), the random id of its
transaction, the order in which the maps of nodes are traversed, and the replies of the commands
that are not looked up in the table. -/
structure Setting (F : Type) where
  env : Env F
  spread : Key → Nat
  getSlot : Key → Option Nat
  pickNode : Nat → Str
  txId : Str
  txId_length : txId.length ≤ 10
  prepareOrder : List Str → List Str
  prepare_perm : ∀ names, (prepareOrder names).Perm names
  commitOrder : List Str → List Str
  commit_perm : ∀ names, (commitOrder names).Perm names
  rollbackOrder : List Str → List Str
  rollback_perm : ∀ names, (rollbackOrder names).Perm names
  aside : Str → List Bytes → Reply

/-! ## Routing -/

/-- `GetPartitionKey`; slicing panics where the first closing brace stands before the first opening
one. -/
def getPartitionKey (key : Key) : Option Str :=
  match key.findIdx? (· = 123) with
  | none => some key
  | some beg =>
    match key.findIdx? (· = 125) with
    | none => some key
    | some end_ =>
      if end_ = beg + 1 then some key
      else if end_ < beg + 1 then none
      else some ((key.take end_).drop (beg + 1))

/-- `defaultGetSlotImpl`, for a checksum. -/
def defaultGetSlot (checksum : Str → Nat) (key : Key) : Option Nat :=
  (getPartitionKey key).map fun partitionKey => checksum partitionKey % 1024

/-- The text between the first `{` and the first `}` behind it if it is there and not empty, and the
whole key otherwise. -/
def hashTag (key : Key) : Str :=
  match key.findIdx? (· = 123) with
  | none => key
  | some beg =>
    match (key.drop (beg + 1)).findIdx? (· = 125) with
    | none => key
    | some length => if length = 0 then key else (key.drop (beg + 1)).take length

/-- A key is routed by its tag exactly if its first `}` does not stand before its first `{`. -/
theorem routed_by_hash_tag_iff (checksum : Str → Nat) (key : Key) :
    (getPartitionKey key = some (hashTag key) ∧
        defaultGetSlot checksum key = some (checksum (hashTag key) % 1024)) ↔
      ∀ beg end_, key.findIdx? (· = 123) = some beg → key.findIdx? (· = 125) = some end_ →
        beg < end_ := by
  have slot : getPartitionKey key = some (hashTag key) →
      defaultGetSlot checksum key = some (checksum (hashTag key) % 1024) := fun found => by
    rw [defaultGetSlot, found]
    rfl
  rw [and_iff_left_of_imp slot, hashTag, getPartitionKey]
  cases opened : key.findIdx? (· = 123) with
  | none => simp
  | some beg =>
    have short : beg < key.length := (List.findIdx?_eq_some_iff_findIdx_eq.mp opened).1
    have parts : key.findIdx? (· = 125) = ((key.take (beg + 1)).findIdx? (· = 125)).or
        (((key.drop (beg + 1)).findIdx? (· = 125)).map (· + (beg + 1))) := by
      nth_rewrite 1 [← List.take_append_drop (beg + 1) key]
      rw [List.findIdx?_append, List.length_take_of_le short]
    cases early : (key.take (beg + 1)).findIdx? (· = 125) with
    | some end_ =>
      have before := (List.findIdx?_eq_some_iff_findIdx_eq.mp early).1
      grind
    | none =>
      rw [early] at parts
      cases closed : (key.drop (beg + 1)).findIdx? (· = 125) with
      | none => simp [parts, closed]
      | some length =>
        have slice : (key.take (length + (beg + 1))).drop (beg + 1) =
            (key.drop (beg + 1)).take length := by
          rw [List.drop_take, Nat.add_sub_cancel]
        grind

/-- `}{` has no tag, and no slot is found for it. -/
theorem no_partition_key :
    hashTag (lit "\x7d\x7b") = lit "\x7d\x7b" ∧ getPartitionKey (lit "\x7d\x7b") = none := by
  decide

def Setting.owner {F : Type} (setting : Setting F) (key : Key) : Option Str :=
  (setting.getSlot key).map setting.pickNode

abbrev RouteMap := List (Str × List Key)

/-- `m[node] = append(m[node], key)`. -/
def addRoute (node : Str) (key : Key) : RouteMap → RouteMap
  | [] => [(node, [key])]
  | (other, keys) :: rest =>
    if other = node then (other, keys ++ [key]) :: rest else (other, keys) :: addRoute node key rest

def getRouteMap {F : Type} (setting : Setting F) : List Key → RouteMap → Option RouteMap
  | [], routes => some routes
  | key :: rest, routes =>
    match setting.owner key with
    | none => none
    | some node => getRouteMap setting rest (addRoute node key routes)

/-! ## Messages -/

/-- `Try2ErrorReply`: what follows the first byte of an error. -/
def tryError : Reply → Option Str
  | .error text => some (text ++ crlf)
  | _ => none

def arrivedLine (line : Line) : Option Line :=
  match (parse0 (multiBulkBytes line)).1.head? with
  | some (.data (.multiBulk args)) => some args
  | _ => none

def timeout : Reply :=
  .err "server time out"

/-- A reply as it arrives at the node that asked for it. -/
def arrivedReply (reply : Reply) : Reply :=
  match (parse0 reply.toBytes).1.head? with
  | some (.data back) => back
  | some (.failed _) => .err "request failed connection closed"
  | none => timeout

/-- How an execution on a peer ends for the node that asked for it: it does not wait for ever. -/
def arrivedEnd : Except Halt Reply → Except Halt Reply
  | .ok reply => .ok (arrivedReply reply)
  | .error .aborted => .error .aborted
  | .error .tooDeep => .error .tooDeep
  | .error _ => .ok timeout

/-- A way to have a command line executed by a node. -/
abbrev Relay (F : Type) := Str → Line → Nodes F → Except Halt Reply × Nodes F

section Commands

variable {F : Type} (setting : Setting F) (relay : Relay F)

/-! ## Transactions (`cluster/commands/tcc_utils.go`) -/

def requestRollback (txId : Str) : List Str → Nodes F → Except Halt Unit × Nodes F
  | [], nodes => (.ok (), nodes)
  | node :: rest, nodes =>
    Prog.andThen (relay node (toCmdLineOfStr "rollback" [txId]) nodes) fun _ nodes =>
      requestRollback txId rest nodes

/-- The first loop of `doTcc`; the text of the first error. -/
def prepareAll (txId : Str) : List (Str × Line) → Nodes F → Except Halt (Option Str) × Nodes F
  | [], nodes => (.ok none, nodes)
  | (node, line) :: rest, nodes =>
    Prog.andThen (relay node (toCmdLineOfStr "prepare" [txId] ++ line) nodes) fun reply nodes =>
      match tryError reply with
      | some error => (.ok (some error), nodes)
      | none => prepareAll txId rest nodes

def commitAll (txId : Str) : List Str → List (Str × Reply) → Nodes F →
    Except Halt (Except Str (List (Str × Reply))) × Nodes F
  | [], results, nodes => (.ok (.ok results), nodes)
  | node :: rest, results, nodes =>
    Prog.andThen (relay node (toCmdLineOfStr "commit" [txId]) nodes) fun reply nodes =>
      match tryError reply with
      | some error => (.ok (.error error), nodes)
      | none => commitAll txId rest (results ++ [(node, reply)]) nodes

/-- The lines in the order in which a map with their nodes is traversed. -/
def inNodeOrder (order : List Str → List Str) (lines : List (Str × Line)) : List (Str × Line) :=
  (order (lines.map Prod.fst)).filterMap fun node =>
    (lines.lookup node).map fun line => (node, line)

def doTcc (lines : List (Str × Line)) (nodes : Nodes F) :
    Except Halt (Except Reply (List (Str × Reply))) × Nodes F :=
  let rollback := setting.rollbackOrder (lines.map Prod.fst)
  Prog.andThen (prepareAll relay setting.txId (inNodeOrder setting.prepareOrder lines) nodes)
    fun failed nodes =>
      match failed with
      | some error =>
        Prog.andThen (requestRollback relay setting.txId rollback nodes) fun _ nodes =>
          (.ok (.error (.error (lit "prepare failed: " ++ error))), nodes)
      | none =>
        Prog.andThen (commitAll relay setting.txId
          (setting.commitOrder (lines.map Prod.fst)) [] nodes) fun committed nodes =>
            match committed with
            | .ok results => (.ok (.ok results), nodes)
            | .error error =>
              Prog.andThen (requestRollback relay setting.txId rollback nodes) fun _ nodes =>
                (.ok (.error (.error (lit "commit failed: " ++ error))), nodes)

/-! ## Commands for several keys (`mset.go`, `del.go`) -/

def linesOf (lineOf : List Key → Line) (routes : RouteMap) : List (Str × Line) :=
  routes.map fun route => (route.1, lineOf route.2)

/-- What `execMSet`, `execMGet` and `execDel` do with their keys: if one node owns them all, it gets
the arguments under another name, else a transaction with a line for each node is run and its
results are put together. -/
def execSeveral (keys : List Key) (message : String) (lineOf : List Key → Line)
    (finish : List (Str × Line) → List (Str × Reply) → Except Halt Reply) (args : List Bytes)
    (nodes : Nodes F) : Except Halt Reply × Nodes F :=
  match getRouteMap setting keys [] with
  | none => (.error .panic, nodes)
  | some [(node, _)] => relay node (toCmdLine message args) nodes
  | some routes =>
    Prog.andThen (doTcc setting relay (linesOf lineOf routes) nodes) fun done nodes =>
      match done with
      | .error reply => (.ok reply, nodes)
      | .ok results => (finish (linesOf lineOf routes) results, nodes)

def keyValues : List (Bytes × Bytes) → Key → Bytes
  | [], _ => none
  | (key, value) :: rest, asked =>
    if asked ∈ rest.map (fun pair => str pair.1) then keyValues rest asked
    else if asked = str key then value else none

def msetLine (values : Key → Bytes) (keys : List Key) : Line :=
  toCmdLine "mset" (keys.flatMap fun key => [some key, values key])

def msetReply (_ : List (Str × Line)) (_ : List (Str × Reply)) : Except Halt Reply :=
  .ok .ok

def execMSet (args : List Bytes) (nodes : Nodes F) : Except Halt Reply × Nodes F :=
  if args.length < 2 ∨ args.length % 2 ≠ 0 then (.ok (.argNumErr (lit "mset")), nodes)
  else
    execSeveral setting relay ((pairs args).map fun pair => str pair.1) "mset_"
      (msetLine (keyValues (pairs args))) msetReply args nodes

/-- The values of the keys in the replies to `MGET`; a reply of another kind makes the type
assertion panic. -/
def collectValues (lines : List (Str × Line)) :
    List (Str × Reply) → (Key → Bytes) → Except Halt (Except Reply (Key → Bytes))
  | [], values => .ok (.ok values)
  | (node, .multiBulk results) :: rest, values =>
    let asked := ((lines.lookup node).getD []).tail
    if results.length ≠ asked.length then
      .ok (.error (.error (lit "wrong response from node " ++ node)))
    else collectValues lines rest
      ((asked.zip results).foldl (fun values found => Function.update values (str found.1) found.2)
        values)
  | _ :: _, _ => .error .panic

def mgetReply (args : List Bytes) (lines : List (Str × Line)) (results : List (Str × Reply)) :
    Except Halt Reply :=
  match collectValues lines results fun _ => none with
  | .error halt => .error halt
  | .ok (.error reply) => .ok reply
  | .ok (.ok values) => .ok (.multiBulk (args.map fun arg => values (str arg)))

def execMGet (args : List Bytes) (nodes : Nodes F) : Except Halt Reply × Nodes F :=
  if args.isEmpty then (.ok (.argNumErr (lit "mget")), nodes)
  else
    execSeveral setting relay (args.map str) "mget_" (toCmdLineOfStr "mget") (mgetReply args) args
      nodes

/-- `res.(*protocol.IntReply)`, where it is one. -/
def countOf : Reply → Int
  | .int code => code
  | _ => 0

def delReply (_ : List (Str × Line)) (results : List (Str × Reply)) : Except Halt Reply :=
  .ok (.int (wrap64 (results.map fun result => countOf result.2).sum))

def execDel (args : List Bytes) (nodes : Nodes F) : Except Halt Reply × Nodes F :=
  if args.isEmpty then (.ok (.argNumErr (lit "del")), nodes)
  else
    execSeveral setting relay (args.map str) "del_" (toCmdLineOfStr "del") delReply args nodes

/-! ## Renaming (`rename.go`) -/

/-- The loop at the end of `execRename` and `execRenameNx`. -/
def commitRename (txId : Str) (order : List Str) (done : Reply) (nodes : Nodes F) :
    Except Halt Reply × Nodes F :=
  Prog.andThen (commitAll relay txId order [] nodes) fun committed nodes =>
    match committed with
    | .ok _ => (.ok done, nodes)
    | .error error =>
      Prog.andThen (requestRollback relay txId (setting.rollbackOrder order) nodes) fun _ nodes =>
        (.ok (.error (lit "commit failed: " ++ error)), nodes)

/-- What `execRename` and `execRenameNx` do with two nodes, given the command that the target
prepares, what becomes of an error of the target, and the reply at the end. -/
def renameBetween (toName : String) (refused : Str → Reply) (done : Reply) (src target : Key)
    (srcNode targetNode : Str) (nodes : Nodes F) : Except Halt Reply × Nodes F :=
  let both := [srcNode, targetNode]
  Prog.andThen (relay srcNode
    (toCmdLineOfStr "Prepare" [setting.txId, lit "RenameFrom", src]) nodes) fun dumped nodes =>
      match dumped with
      | .error text =>
        Prog.andThen (requestRollback relay setting.txId [srcNode] nodes) fun _ nodes =>
          (.ok (.error text), nodes)
      | .multiBulk (dump :: ttl :: _) =>
        Prog.andThen (relay targetNode (toCmdLine "Prepare"
          [some setting.txId, some (lit toName), some target, dump, ttl]) nodes)
            fun prepared nodes =>
              match prepared with
              | .error text =>
                Prog.andThen (requestRollback relay setting.txId
                  (setting.rollbackOrder both) nodes) fun _ nodes => (.ok (refused text), nodes)
              | _ => commitRename setting relay setting.txId (setting.commitOrder both) done nodes
      | _ =>
        Prog.andThen (requestRollback relay setting.txId [srcNode] nodes) fun _ nodes =>
          (.ok (.err "ERR invalid prepare response"), nodes)

/-- `execRename` and `execRenameNx`: with both keys on one node it is asked to rename them. -/
def renameWith (toName : String) (refused : Str → Reply) (done : Reply) (args : List Bytes)
    (nodes : Nodes F) : Except Halt Reply × Nodes F :=
  match args with
  | [src, target] =>
    match setting.owner (str src), setting.owner (str target) with
    | some srcNode, some targetNode =>
      if srcNode = targetNode then relay srcNode (toCmdLine "rename" args) nodes
      else renameBetween setting relay toName refused done (str src) (str target) srcNode
        targetNode nodes
    | _, _ => (.error .panic, nodes)
  | _ => (.ok (.argNumErr (lit "rename")), nodes)

def execRename (args : List Bytes) (nodes : Nodes F) : Except Halt Reply × Nodes F :=
  renameWith setting relay "RenameTo" .error .ok args nodes

def execRenameNx (args : List Bytes) (nodes : Nodes F) : Except Halt Reply × Nodes F :=
  renameWith setting relay "RenameNxTo"
    (fun text => if text = lit keyExistsErr then .int 0 else .error text) (.int 1) args nodes

end Commands

/-! ## Dispatch -/

/-- The functions of the command table; those of the raft group and of migrations are left out. -/
inductive CmdFunc where
  | prepare
  | commit
  | rollback
  /-- Executed as the command named, if it has enough arguments. -/
  | inLocal (name : String) (atLeast : Nat)
  | mset
  | mget
  | del
  | rename
  | renameNx
  | default
  deriving DecidableEq

def defaultCmds : List String :=
  ["expire", "expireat", "pexpire", "pexpireat", "ttl", "pttl", "persist", "exists", "type", "set",
    "setnx", "setex", "psetex", "get", "getex", "getset", "getdel", "incr", "incrby", "incrbyfloat",
    "decr", "decrby", "lpush", "lpushx", "rpush", "rpushx", "lpop", "rpop", "lrem", "llen", "lindex",
    "lset", "lrange", "hset", "hsetnx", "hget", "hexists", "hdel", "hlen", "hstrlen", "hmget",
    "hmset", "hkeys", "hvals", "hgetall", "hincrby", "hincrbyfloat", "hrandfield", "sadd",
    "sismember", "srem", "spop", "scard", "smembers", "sinter", "sinterstore", "sunion",
    "sunionstore", "sdiff", "sdiffstore", "srandmember", "zadd", "zscore", "zincrby", "zrank",
    "zcount", "zrevrank", "zcard", "zrange", "zrevrange", "zrangebyscore", "zrevrangebyscore",
    "zrem", "zremrangebyscore", "zremrangebyrank", "geoadd", "geopos", "geodist", "geohash",
    "georadius", "georadiusbymember", "getver", "dumpkey"]

/-- `commands`; `msetnx` has the function of `mset`. -/
def commands : List (String × CmdFunc) :=
  [("prepare", .prepare), ("commit", .commit), ("rollback", .rollback),
    ("mset_", .inLocal "mset" 2), ("mset", .mset), ("mget_", .inLocal "mget" 1), ("mget", .mget),
    ("msetnx_", .inLocal "msetnx" 2), ("msetnx", .mset), ("del_", .inLocal "del" 1), ("del", .del),
    ("rename_", .inLocal "rename" 0), ("renamenx_", .inLocal "renamenx" 0), ("rename", .rename),
    ("renamenx", .renameNx)] ++ defaultCmds.map fun name => (name, .default)

def CmdFunc.ofName (name : Str) : Option CmdFunc :=
  (commands.find? fun entry => lit entry.1 = name).map Prod.snd

section Exec

variable {F : Type} [Float64 F] (setting : Setting F)

def atNode (self : Str) (handler : Node F → Except Halt Reply × Node F) (nodes : Nodes F) :
    Except Halt Reply × Nodes F :=
  let ended := handler (nodes self)
  (ended.1, Function.update nodes self ended.2)

def defaultFunc (self : Str) (relay : Relay F) (head : Bytes) (args : List Bytes)
    (nodes : Nodes F) : Except Halt Reply × Nodes F :=
  match args with
  | [] => (.error .panic, nodes)
  | key :: _ =>
    match setting.owner (str key) with
    | none => (.error .panic, nodes)
    | some peer =>
      if peer = self then
        atNode self (localExec setting.env setting.spread (head :: args)) nodes
      else relay peer (head :: args) nodes

def CmdFunc.run (self : Str) (relay : Relay F) (head : Bytes) (args : List Bytes)
    (nodes : Nodes F) : CmdFunc → Except Halt Reply × Nodes F
  | .prepare => atNode self (execPrepare setting.env setting.spread args) nodes
  | .commit => atNode self (execCommit setting.env setting.spread args) nodes
  | .rollback => atNode self (execRollback setting.env setting.spread args) nodes
  | .inLocal name atLeast =>
    if args.length < atLeast then (.ok (.argNumErr (lit name)), nodes)
    else atNode self (localExec setting.env setting.spread (toCmdLine name args)) nodes
  | .mset => execMSet setting relay args nodes
  | .mget => execMGet setting relay args nodes
  | .del => execDel setting relay args nodes
  | .rename => execRename setting relay args nodes
  | .renameNx => execRenameNx setting relay args nodes
  | .default => defaultFunc setting self relay head args nodes

def relayWith (exec : Relay F) (self : Str) : Relay F := fun peer line nodes =>
  if peer = self then exec self line nodes
  else
    match arrivedLine line with
    | none => (.ok timeout, nodes)
    | some line => (arrivedEnd (exec peer line nodes).1, (exec peer line nodes).2)

def notInTable : List String :=
  ["auth", "ping", "dbsize", "info", "slowlog"]

/-- `Cluster.Exec` on a node, for an authenticated connection; calls nest to a depth of `fuel` at
most. -/
def exec : Nat → Relay F
  | 0, _, _, nodes => (.error .tooDeep, nodes)
  | _ + 1, _, [], nodes => (.ok (.err "Err unknown"), nodes)
  | fuel + 1, self, head :: args, nodes =>
    let name := toLower (str head)
    if notInTable.any (fun candidate => lit candidate = name) then
      (.ok (setting.aside name args), nodes)
    else
      match CmdFunc.ofName name with
      | none =>
        (.ok (.error (lit "ERR unknown command '" ++ name ++
          lit "', or not supported in cluster mode")), nodes)
      | some func =>
        recovered (func.run setting self (relayWith (exec fuel) self) head args nodes)

end Exec

end Godis.Cluster
