import Godis.Cluster.Rounds

/-!
# A cluster and the union of its nodes

A command arrives at a cluster at rest: each key is on its owner, no lock is held.  What the nodes
hold together is the database of a single server that the command is compared with.
-/

namespace Godis.Cluster

open Golang Program Database Dict Redis List
open Function (update_self)

/-! ## One node -/

section OneNode

variable {F : Type} [Float64 F] (env : Env F) (spread : Str → Nat) {node : Node F}

def Node.prepared (node : Node F) (txId : Str) (tx : Tcc) (shards : Shards) (db : Space F) : Node F :=
  { node with
    db := db
    shards := shards
    txs := Function.update node.txs txId (some node.next)
    heap := Function.update node.heap node.next tx
    next := node.next + 1 }

section Prepared

variable {txId : Str} {tx : Tcc} {shards : Shards} {db : Space F}

omit [Float64 F] in
@[simp]
theorem Node.prepared_txs_self : (node.prepared txId tx shards db).txs txId = some node.next :=
  update_self _ _ _

omit [Float64 F] in
@[simp]
theorem Node.prepared_heap_self : (node.prepared txId tx shards db).heap node.next = tx :=
  update_self _ _ _

end Prepared

def settlePrepare (ptr : Nat) (result : Reply) (node : Node F) : Except Halt Reply × Node F :=
  if result.isError then
    Prog.andThen (unlockTx spread ptr node) fun _ node =>
      (.ok result, node.setTx ptr { node.heap ptr with hasLock := false })
  else (.ok result, node)

section Prepare

variable {txId : Str} {head : Bytes} {args : List Bytes} {keys : List Key × List Key}
variable {undoLogs : List Line} {taken : Shards} {db : Space F}

theorem finishPrepare_eq (node : Node F) (ptr : Nat)
    (undo : getUndoLogs env (head :: args) node.db = (.ok undoLogs, db)) :
    finishPrepare env spread ptr head args node =
      Prog.andThen (prepareFunc env spread (toLower (str head)) args
        (({ node with db := db } : Node F).setTx ptr { node.heap ptr with
          undoLogs := undoLogs, realCmdLine := head :: args, hasLock := true }))
        (settlePrepare spread ptr) := by
  rw [finishPrepare, undo]
  rfl

theorem execPrepare_locked (fresh : node.txs txId = none)
    (related : getRelatedKeys F (head :: args) = some keys)
    (locks : rwLocks spread node.shards keys.1 keys.2 = some taken) :
    execPrepare env spread (some txId :: head :: args) node =
      finishPrepare env spread node.next head args { node.enter txId keys with shards := taken } := by
  have entered : enterPrepare (str (some txId)) (head :: args) node =
      (.ok (.ok node.next), node.enter txId keys) := by
    rw [enterPrepare, related]
    exact if_neg (by rw [str, Option.getD_some, fresh]; decide)
  have heap : (node.enter txId keys).heap node.next = ⟨[], [], keys.1, keys.2, false⟩ :=
    update_self _ _ _
  have free : rwLocks spread (node.enter txId keys).shards
      ((node.enter txId keys).heap node.next).writeKeys
      ((node.enter txId keys).heap node.next).readKeys = some taken := by
    rw [heap]
    exact locks
  rw [execPrepare, entered, Prog.andThen_ok]
  dsimp only
  rw [lockTx, free]
  rw [Prog.andThen_ok]

theorem execPrepare_eq (fresh : node.txs txId = none)
    (related : getRelatedKeys F (head :: args) = some keys)
    (locks : rwLocks spread node.shards keys.1 keys.2 = some taken)
    (undo : getUndoLogs env (head :: args) node.db = (.ok undoLogs, db)) :
    execPrepare env spread (some txId :: head :: args) node =
      Prog.andThen (prepareFunc env spread (toLower (str head)) args
        (node.prepared txId ⟨head :: args, undoLogs, keys.1, keys.2, true⟩ taken db))
        (settlePrepare spread node.next) := by
  have heap : (node.enter txId keys).heap node.next = ⟨[], [], keys.1, keys.2, false⟩ :=
    update_self _ _ _
  have begun : (({ { node.enter txId keys with shards := taken } with db := db } : Node F).setTx
      node.next { (node.enter txId keys).heap node.next with
        undoLogs := undoLogs, realCmdLine := head :: args, hasLock := true }) =
      node.prepared txId ⟨head :: args, undoLogs, keys.1, keys.2, true⟩ taken db := by
    rw [heap, Node.setTx, Node.enter, Node.prepared]
    simp only [Function.update_idem]
  rw [execPrepare_locked env spread fresh related locks]
  refine (finishPrepare_eq env spread { node.enter txId keys with shards := taken } node.next
    undo).trans ?_
  exact congrArg (fun reached => Prog.andThen
    (prepareFunc env spread (toLower (str head)) args reached) (settlePrepare spread node.next)) begun

theorem execPrepare_panics (fresh : node.txs txId = none)
    (related : getRelatedKeys F (head :: args) = some keys)
    (locks : rwLocks spread node.shards keys.1 keys.2 = some taken)
    (undo : getUndoLogs env (head :: args) node.db = (.error .panic, db)) :
    execPrepare env spread (some txId :: head :: args) node =
      (.error .panic, { node.enter txId keys with shards := taken, db := db }) := by
  have undoHere : getUndoLogs env (head :: args)
      ({ node.enter txId keys with shards := taken } : Node F).db = (.error .panic, db) := undo
  rw [execPrepare_locked env spread fresh related locks, finishPrepare, undoHere]
  rfl

end Prepare

variable {db : Space F} {resp : Reply} {txId : Str}

theorem execCommit_eq {ptr : Nat} {shards : Shards} (there : node.txs txId = some ptr)
    (executed : (Database.exec (node.heap ptr).realCmdLine).run (dbHandle env) node.db =
      (.ok resp, db))
    (released : rwUnLocks spread node.shards (node.heap ptr).writeKeys (node.heap ptr).readKeys =
      some shards) :
    ∃ leaving, execCommit env spread [some txId] node =
      (.ok resp, { node with
        db := db
        shards := shards
        heap := Function.update node.heap ptr { node.heap ptr with hasLock := false }
        leaving := leaving }) := by
  have found : node.txs (str (some txId)) = some ptr := there
  have run : localExecWithinLock env (node.heap ptr).realCmdLine node =
      (.ok resp, { node with db := db }) := by
    rw [localExecWithinLock, Node.runDb, executed]
    rfl
  have unlocked : unlockTx spread ptr { node with db := db } =
      (.ok (), { node with db := db, shards := shards }) := by
    rw [unlockTx]
    simp only [released]
  rw [execCommit, found]
  dsimp only
  rw [commitTx, run, Prog.andThen_ok, unlocked]
  split
  · exact ⟨node.leaving, rfl⟩
  · exact ⟨_, rfl⟩

theorem prepare_commit {head : Bytes} {args : List Bytes} {keys : List Key × List Key}
    {undoLogs : List Line} {prepared committed : Space F} (fresh : node.txs txId = none)
    (unlocked : ∀ index, node.shards index = .unlocked)
    (related : getRelatedKeys F (head :: args) = some keys)
    (undo : getUndoLogs env (head :: args) node.db = (.ok undoLogs, prepared))
    (plain : ∀ reached, prepareFunc env spread (toLower (str head)) args reached = (.ok .ok, reached))
    (executed : (Database.exec (head :: args)).run (dbHandle env) prepared =
      (.ok resp, committed)) :
    ∃ middle after, execPrepare env spread (some txId :: head :: args) node = (.ok .ok, middle) ∧
      execCommit env spread [some txId] middle = (.ok resp, after) ∧ after.db = committed ∧
        after.shards = node.shards := by
  obtain ⟨taken, locks⟩ : ∃ taken, rwLocks spread node.shards keys.1 keys.2 = some taken :=
    rwLocks_of_unlocked fun _ _ => unlocked _
  have first := execPrepare_eq env spread fresh related locks undo
  rw [plain] at first
  have there : (node.prepared txId ⟨head :: args, undoLogs, keys.1, keys.2, true⟩ taken
      prepared).txs txId = some node.next := update_self _ _ _
  have heap : (node.prepared txId ⟨head :: args, undoLogs, keys.1, keys.2, true⟩ taken
      prepared).heap node.next = ⟨head :: args, undoLogs, keys.1, keys.2, true⟩ :=
    update_self _ _ _
  obtain ⟨_, second⟩ := execCommit_eq env spread there (by rw [heap]; exact executed)
    (by rw [heap]; exact rwUnLocks_of_rwLocks locks)
  exact ⟨_, _, first, second, rfl, rfl⟩

theorem localExec_eq {line : Line} {reply : Reply}
    (unlocked : ∀ index, node.shards index = .unlocked)
    (executed : execNormalCommand env line node.db = (.ok reply, db)) :
    localExec env spread line node = (.ok reply, { node with db := db }) := by
  obtain ⟨_, locks⟩ : ∃ taken, rwLocks spread node.shards (lockedKeys F line).1
      (lockedKeys F line).2 = some taken := rwLocks_of_unlocked fun _ _ => unlocked _
  rw [localExec, locks, executed]
  rfl

end OneNode

/-! ## All nodes -/

def Agrees {F : Type} (first second : Slot F) : Prop :=
  first.value = second.value ∧ first.deadline = second.deadline

/-- A cluster at rest, and the union of what its nodes hold: every key is on its owner, no lock is
held, and the id of the next transaction is a new one.  The lengths of strings are an `int`. -/
structure Resting (F : Type) where
  setting : Setting F
  nodes : Nodes F
  whole : Space F
  owned : ∀ key id, setting.owner key = some id →
    Agrees ((nodes id).db.slots key) (whole.slots key)
  elsewhere : ∀ key id, setting.owner key ≠ some id → ((nodes id).db.slots key).value = none
  nowhere : ∀ key, setting.owner key = none → (whole.slots key).value = none
  unlocked : ∀ id index, (nodes id).shards index = .unlocked
  fresh : ∀ id, (nodes id).txs setting.txId = none
  sized : ∀ key bytes, (whole.slots key).value = some (.string bytes) → (str bytes).length < 2 ^ 63

/-- The words behind the name of a command; a slice of them has 24 bytes for each. -/
structure Words where
  list : List Str
  counted : 24 * list.length < 2 ^ 63
  sized : ∀ word ∈ list, word.length < 2 ^ 63

theorem map_str_some (words : List Str) : (words.map some).map str = words := by
  rw [map_map]
  exact map_id _

namespace Words

def args (words : Words) : List Bytes :=
  words.list.map some

variable (words : Words)

theorem map_str_args : words.args.map str = words.list :=
  map_str_some words.list

theorem length_args : words.args.length = words.list.length :=
  length_map _

theorem full_args : none ∉ words.args := by
  simp [args]

theorem sized_append {front : List Str} (few : front.length ≤ 8)
    (short : ∀ word ∈ front, word.length ≤ 16) : Sized (front.map some ++ words.args) := by
  have counted := words.counted
  refine ⟨?_, fun arg member => ?_⟩
  · rw [length_append, length_map, args, length_map]
    omega
  · rw [args, ← List.map_append] at member
    obtain ⟨word, inside, rfl⟩ := mem_map.mp member
    rcases mem_append.mp inside with isFront | isWord
    · exact (short word isFront).trans_lt (by norm_num)
    · exact words.sized word isWord

end Words

variable {F : Type} {args : List Bytes} {head : Bytes} {keys : List Key × List Key}

theorem sized_commit {setting : Setting F} : Sized (toCmdLine "commit" [some setting.txId]) := by
  have short := setting.txId_length
  have two : 2 < 2 ^ 63 := by norm_num
  refine ⟨two, fun arg member => ?_⟩
  rcases mem_cons.mp member with rfl | later
  · decide
  · cases mem_singleton.mp later
    exact short.trans_lt (by norm_num)

abbrev Prepares (relay : Relay F) (setting : Setting F) (id : Str) (line : Line) (node : Node F)
    (reply : Reply) : Prop :=
  ∃ after, Answers relay id (toCmdLine "prepare" (some setting.txId :: line)) node reply after

abbrev Transacts (relay : Relay F) (setting : Setting F) (id : Str) (line : Line) (node : Node F)
    (reply : Reply) (Good : Node F → Prop) : Prop :=
  ∃ middle after,
    Answers relay id (toCmdLine "prepare" (some setting.txId :: line)) node .ok middle ∧
    Answers relay id (toCmdLine "commit" [some setting.txId]) middle reply after ∧ Good after

theorem Resting.answers_tcc [Float64 F] (cluster : Resting F) (fuel : Nat) (self id : Str)
    {undoLogs : List Line} {prepared committed : Space F} {resp : Reply}
    (full : none ∉ head :: args)
    (sized : Sized (toCmdLine "prepare" (some cluster.setting.txId :: head :: args)))
    (related : getRelatedKeys F (head :: args) = some keys)
    (undo : getUndoLogs cluster.setting.env (head :: args) (cluster.nodes id).db =
      (.ok undoLogs, prepared))
    (plain : ∀ reached, prepareFunc cluster.setting.env cluster.setting.spread (toLower (str head))
      args reached = (.ok .ok, reached))
    (executed : (Database.exec (head :: args)).run (dbHandle cluster.setting.env) prepared =
      (.ok resp, committed)) :
    Transacts (relayWith (exec cluster.setting (fuel + 1)) self) cluster.setting id (head :: args)
      (cluster.nodes id) (heard self id resp) fun after =>
        after.db = committed ∧ after.shards = (cluster.nodes id).shards := by
  obtain ⟨middle, after, first, second, db, shards⟩ := prepare_commit cluster.setting.env
    cluster.setting.spread (cluster.fresh id) (cluster.unlocked id) related undo plain executed
  have prepares := answers_prepare cluster.setting fuel self id (by simpa using full) sized
    (congrArg recovered first)
  have commits := answers_commit cluster.setting fuel self id (by simp)
    sized_commit (congrArg recovered second)
  rw [heard_ok] at prepares
  exact ⟨middle, after, prepares, commits, db, shards⟩

theorem Resting.answers_refused [Float64 F] (cluster : Resting F) (fuel : Nat) (self id : Str)
    {db : Space F} (full : none ∉ head :: args)
    (sized : Sized (toCmdLine "prepare" (some cluster.setting.txId :: head :: args)))
    (related : getRelatedKeys F (head :: args) = some keys)
    (undo : getUndoLogs cluster.setting.env (head :: args) (cluster.nodes id).db =
      (.error .panic, db)) :
    Prepares (relayWith (exec cluster.setting (fuel + 1)) self) cluster.setting id (head :: args)
      (cluster.nodes id) (.err "Err unknown") := by
  obtain ⟨_, locks⟩ : ∃ taken, rwLocks cluster.setting.spread (cluster.nodes id).shards keys.1
      keys.2 = some taken := rwLocks_of_unlocked fun _ _ => cluster.unlocked id _
  have panics := execPrepare_panics cluster.setting.env cluster.setting.spread (cluster.fresh id)
    related locks undo
  have prepares := answers_prepare cluster.setting fuel self id (by simpa using full) sized
    (congrArg recovered panics)
  have told : heard self id (.err "Err unknown") = .err "Err unknown" := by
    refine heard_error ?_
    unfold Reply.OneLine
    decide
  rw [told] at prepares
  exact ⟨_, prepares⟩

/-! ## Transactions over routes -/

section Routed

variable {F : Type}

theorem names_linesOf (lineOf : List Key → Line) (routes : RouteMap) :
    (linesOf lineOf routes).map Prod.fst = routes.map Prod.fst := by
  rw [linesOf, map_map]
  rfl

variable {id : Str} {keys : List Key} {setting : Setting F} {routes : RouteMap}

theorem mem_ownedBy {key : Key} :
    key ∈ ownedBy setting id keys ↔ key ∈ keys ∧ setting.owner key = some id := by
  rw [ownedBy, mem_filter, decide_eq_true_eq]

theorem RoutesOf.eq_of_mem_linesOf (of : RoutesOf setting keys routes) {lineOf : List Key → Line}
    {entry : Str × Line} (member : entry ∈ linesOf lineOf routes) :
    entry.2 = lineOf (ownedBy setting entry.1 keys) ∧ ownedBy setting entry.1 keys ≠ [] := by
  obtain ⟨⟨_, _⟩, inside, rfl⟩ := mem_map.mp member
  obtain ⟨rfl, some_⟩ := of.mem_iff.mp inside
  exact ⟨rfl, some_⟩

theorem RoutesOf.lookup_linesOf (of : RoutesOf setting keys routes) (lineOf : List Key → Line)
    (routed : id ∈ routes.map Prod.fst) :
    (linesOf lineOf routes).lookup id = some (lineOf (ownedBy setting id keys)) := by
  have distinct : ((linesOf lineOf routes).map Prod.fst).Nodup := by
    rw [names_linesOf]
    exact of.distinct
  obtain ⟨⟨_, _⟩, inside, rfl⟩ := mem_map.mp routed
  obtain ⟨rfl, _⟩ := of.mem_iff.mp inside
  exact (mem_iff_lookup distinct).mp (mem_map_of_mem inside)

theorem doTcc_routes {relay : Relay F} {nodes : Nodes F} (of : RoutesOf setting keys routes)
    {lineOf : List Key → Line} {replies : Str → Reply} (Good : Str → Node F → Prop)
    (fine : ∀ id, tryError (replies id) = none)
    (each : ∀ id, ownedBy setting id keys ≠ [] → Transacts relay setting id
      (lineOf (ownedBy setting id keys)) (nodes id) (replies id) (Good id)) :
    ∃ after : Nodes F,
      doTcc setting relay (linesOf lineOf routes) nodes =
        (.ok (.ok ((setting.commitOrder (routes.map Prod.fst)).map fun id => (id, replies id))),
          advance (routes.map Prod.fst) after nodes) ∧
      ∀ id ∈ routes.map Prod.fst, Good id (after id) := by
  have chosen : ∀ id, ∃ middle after : Node F, ownedBy setting id keys ≠ [] →
      Answers relay id (toCmdLine "prepare" (some setting.txId :: lineOf (ownedBy setting id keys)))
        (nodes id) .ok middle ∧
      Answers relay id (toCmdLine "commit" [some setting.txId]) middle (replies id) after ∧
      Good id after := by
    intro id
    by_cases asked : ownedBy setting id keys = []
    · exact ⟨nodes id, nodes id, fun some_ => absurd asked some_⟩
    · obtain ⟨middle, after, answers⟩ := each id asked
      exact ⟨middle, after, fun _ => answers⟩
  choose middle after answers using chosen
  have distinct : ((linesOf lineOf routes).map Prod.fst).Nodup := by
    rw [names_linesOf]
    exact of.distinct
  have prepares : ∀ entry ∈ linesOf lineOf routes, Answers relay entry.1
      (toCmdLine "prepare" (some setting.txId :: entry.2)) (nodes entry.1) .ok (middle entry.1) := by
    intro entry member
    obtain ⟨line, some_⟩ := of.eq_of_mem_linesOf member
    rw [line]
    exact (answers entry.1 some_).1
  have commits : ∀ entry ∈ linesOf lineOf routes, Answers relay entry.1
      (toCmdLine "commit" [some setting.txId]) (middle entry.1) (replies entry.1)
      (after entry.1) := fun entry member =>
    (answers entry.1 (of.eq_of_mem_linesOf member).2).2.1
  have done := doTcc_ok setting distinct (fun _ => .ok) replies (fun _ _ => rfl)
    (fun _ _ => fine _) prepares commits
  rw [names_linesOf] at done
  refine ⟨after, done, fun id routed => ?_⟩
  obtain ⟨⟨name, _⟩, inside, rfl⟩ := mem_map.mp routed
  obtain ⟨rfl, some_⟩ := of.mem_iff.mp inside
  exact (answers name some_).2.2

def OnOneNode (setting : Setting F) (keys : List Key) : Prop :=
  ∃ id, ∀ key ∈ keys, setting.owner key = some id

section Several

variable {setting : Setting F} {relay : Relay F} {keys : List Key} {message : String}
variable {lineOf : List Key → Line}
variable {finish : List (Str × Line) → List (Str × Reply) → Except Halt Reply} {args : List Bytes}
variable {nodes : Nodes F}

theorem execSeveral_undefined (undefined : ∃ key ∈ keys, setting.owner key = none) :
    execSeveral setting relay keys message lineOf finish args nodes = (.error .panic, nodes) := by
  rw [execSeveral, getRouteMap_eq_none_iff.mpr undefined]

variable (defined : ∀ key ∈ keys, setting.owner key ≠ none)

include defined in
theorem getRouteMap_of_defined :
    ∃ routes, getRouteMap setting keys [] = some routes ∧ RoutesOf setting keys routes := by
  have found : getRouteMap setting keys [] ≠ none := by
    rw [ne_eq, getRouteMap_eq_none_iff]
    rintro ⟨key, member, undefined⟩
    exact defined key member undefined
  obtain ⟨routes, isRoutes⟩ := Option.ne_none_iff_exists'.mp found
  exact ⟨routes, isRoutes, routesOf_getRouteMap isRoutes⟩

variable {id : Str}

theorem execSeveral_one (filled : keys ≠ []) (owner : ∀ key ∈ keys, setting.owner key = some id) :
    execSeveral setting relay keys message lineOf finish args nodes =
      relay id (toCmdLine message args) nodes := by
  obtain ⟨routes, isRoutes, of⟩ := getRouteMap_of_defined fun key member => by
    rw [owner key member]
    exact Option.some_ne_none id
  obtain ⟨key, member⟩ := List.exists_mem_of_ne_nil keys filled
  have names : ∀ name ∈ routes.map Prod.fst, name = id := by
    intro name routed
    obtain ⟨other, inside, isOwner⟩ := of.mem_names_iff.mp routed
    exact Option.some.inj (isOwner.symm.trans (owner other inside))
  have one : ∃ owned, routes = [(id, owned)] := by
    have distinct := of.distinct
    have routed := of.mem_names_iff.mpr ⟨key, member, owner key member⟩
    cases routes with
    | nil => exact absurd routed not_mem_nil
    | cons first rest =>
      cases rest with
      | nil => exact ⟨first.2, by rw [← names first.1 (by simp)]⟩
      | cons second others =>
        have same := (names first.1 (by simp)).trans (names second.1 (by simp)).symm
        have apart : first.1 ∉ second.1 :: others.map Prod.fst := (nodup_cons.mp distinct).1
        exact absurd (same ▸ mem_cons_self) apart
  obtain ⟨_, rfl⟩ := one
  rw [execSeveral, isRoutes]

variable (relay message lineOf finish args nodes) in
include defined in
theorem execSeveral_transaction (several : ¬ OnOneNode setting keys) :
    ∃ routes, RoutesOf setting keys routes ∧
      (∀ results reached,
        doTcc setting relay (linesOf lineOf routes) nodes = (.ok (.ok results), reached) →
        execSeveral setting relay keys message lineOf finish args nodes =
          (finish (linesOf lineOf routes) results, reached)) ∧
      ∀ reply, (execSeveral setting relay keys message lineOf finish args nodes).1 = .ok reply →
        ∃ done, (doTcc setting relay (linesOf lineOf routes) nodes).1 = .ok done ∧
          ∀ failed, done = .error failed → reply = failed := by
  obtain ⟨routes, isRoutes, of⟩ := getRouteMap_of_defined defined
  refine ⟨routes, of, ?_⟩
  rw [execSeveral, isRoutes]
  split
  · rename_i impossible
    cases impossible
  · rename_i id owned one
    cases one
    refine absurd ⟨id, fun key member => ?_⟩ several
    obtain ⟨_, isOwner⟩ := Option.ne_none_iff_exists'.mp (defined key member)
    rw [isOwner, mem_singleton.mp (of.mem_names_iff.mpr ⟨key, member, isOwner⟩)]
  · rename_i same
    cases same
    refine ⟨fun results reached done => by rw [done, Prog.andThen_ok], fun reply ended => ?_⟩
    generalize doTcc setting relay (linesOf lineOf routes) nodes = tcc at ended ⊢
    obtain ⟨_ | done, _⟩ := tcc
    · cases ended
    · refine ⟨done, rfl, fun failed isFailed => ?_⟩
      subst isFailed
      cases ended
      rfl

variable (message lineOf finish args) in
include defined in
theorem execSeveral_many (several : ¬ OnOneNode setting keys) (replies : Str → Reply)
    (Good : Str → Node F → Prop) (fine : ∀ id, tryError (replies id) = none)
    (each : ∀ id, ownedBy setting id keys ≠ [] → Transacts relay setting id
      (lineOf (ownedBy setting id keys)) (nodes id) (replies id) (Good id)) :
    ∃ (routes : RouteMap) (after : Nodes F), RoutesOf setting keys routes ∧
      execSeveral setting relay keys message lineOf finish args nodes =
        (finish (linesOf lineOf routes)
          ((setting.commitOrder (routes.map Prod.fst)).map fun id => (id, replies id)),
          advance (routes.map Prod.fst) after nodes) ∧
      ∀ id ∈ routes.map Prod.fst, Good id (after id) := by
  obtain ⟨routes, of, run, -⟩ := execSeveral_transaction relay message lineOf finish args nodes
    defined several
  obtain ⟨after, done, good⟩ := doTcc_routes of Good fine each
  exact ⟨routes, after, of, run _ _ done, good⟩

include defined in
theorem execSeveral_refused (several : ¬ OnOneNode setting keys) {replies : Str → Reply}
    (each : ∀ id, ownedBy setting id keys ≠ [] → Prepares relay setting id
      (lineOf (ownedBy setting id keys)) (nodes id) (replies id))
    (asked : ownedBy setting id keys ≠ []) (refused : tryError (replies id) ≠ none) {reply : Reply}
    (ended : (execSeveral setting relay keys message lineOf finish args nodes).1 = .ok reply) :
    ∃ text, reply = .error text := by
  obtain ⟨routes, of, -, run⟩ := execSeveral_transaction relay message lineOf finish args nodes
    defined several
  obtain ⟨_, tcc, failed⟩ := run reply ended
  have distinct : ((linesOf lineOf routes).map Prod.fst).Nodup := by
    rw [names_linesOf]
    exact of.distinct
  have chosen : ∀ id, ∃ after : Node F, ownedBy setting id keys ≠ [] →
      Answers relay id (toCmdLine "prepare" (some setting.txId :: lineOf (ownedBy setting id keys)))
        (nodes id) (replies id) after := by
    intro id
    by_cases asked : ownedBy setting id keys = []
    · exact ⟨nodes id, fun some_ => absurd asked some_⟩
    · obtain ⟨after, answers⟩ := each id asked
      exact ⟨after, fun _ => answers⟩
  choose after answers using chosen
  have inside : (id, lineOf (ownedBy setting id keys)) ∈ linesOf lineOf routes :=
    mem_map.mpr ⟨(id, ownedBy setting id keys), of.mem_iff.mpr ⟨rfl, asked⟩, rfl⟩
  have prepares : ∀ entry ∈ linesOf lineOf routes, Answers relay entry.1
      (toCmdLine "prepare" (some setting.txId :: entry.2)) (nodes entry.1) (replies entry.1)
      (after entry.1) := by
    intro entry member
    obtain ⟨line, some_⟩ := of.eq_of_mem_linesOf member
    rw [line]
    exact answers entry.1 some_
  obtain ⟨text, isError⟩ := doTcc_refused distinct ⟨_, inside, refused⟩ prepares tcc
  exact ⟨text, failed _ isError⟩

end Several

end Routed

end Godis.Cluster
