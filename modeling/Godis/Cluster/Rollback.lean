import Godis.Cluster.Union
import Godis.Database.Undone

/-!
# Rolling back a transaction on one node

A coordinator has a node prepare a part of its command, and then commit it or not, before it asks
for the rollback.  The undo lines are executed from the last one to the first: whatever they were
made for, the keys are absent afterwards.
-/

namespace Godis.Cluster

open Golang Program Database Dict List
open Prog (andThen_ok run_bind)

variable {F : Type} [Float64 F]

/-! ## The parts of commands -/

/-- What `DumpKey` replies for a key of another node. -/
structure Dump (F : Type) [Float64 F] where
  env : Env F
  source : Key
  value : Value F
  deadline : Option Int
  dumpable : value.Dumpable
  sizedDump : Sized (dumpLine env source value)
  sizedTtl : Sized (ttlLine source deadline)

def Dump.args (dump : Dump F) : List Bytes :=
  [dumpPayload dump.env dump.source dump.value, ttlPayload dump.source dump.deadline]

/-- The command lines that coordinators have nodes prepare. -/
inductive SubCommand (F : Type) [Float64 F] where
  | mset (entries : List (Str × Str))
  | msetnx (entries : List (Str × Str))
  | del (keys : List Key)
  | mget (keys : List Key)
  | renameFrom (key : Key)
  | renameTo (key : Key) (dump : Dump F)
  | renameNxTo (key : Key) (dump : Dump F)

namespace SubCommand

def name : SubCommand F → String
  | .mset _ => "mset"
  | .msetnx _ => "msetnx"
  | .del _ => "del"
  | .mget _ => "mget"
  | .renameFrom _ => "RenameFrom"
  | .renameTo _ _ => "RenameTo"
  | .renameNxTo _ _ => "RenameNxTo"

def args : SubCommand F → List Bytes
  | .mset entries | .msetnx entries =>
    entries.flatMap fun entry => [some entry.1, some entry.2]
  | .del keys | .mget keys => keys.map some
  | .renameFrom key => [some key]
  | .renameTo key dump | .renameNxTo key dump => some key :: dump.args

def undoKeys : SubCommand F → List Key
  | .mset entries | .msetnx entries => entries.map Prod.fst
  | .del keys => keys
  | .mget _ | .renameFrom _ => []
  | .renameTo key _ | .renameNxTo key _ => [key]

def readKeys : SubCommand F → List Key
  | .mget keys => keys
  | .renameFrom key => [key]
  | _ => []

variable (sub : SubCommand F)
variable (entries : List (Str × Str))

theorem keys_entries :
    ((pairs (entries.flatMap fun entry => [some entry.1, some entry.2])).map fun pair =>
      str pair.1) = entries.map Prod.fst := by
  rw [pairs_flatMap, map_map]
  rfl

theorem getUndoLogs_eq (env : Env F) :
    getUndoLogs env (some (lit sub.name) :: sub.args) =
      (lookup (rollbackGivenKeys sub.undoKeys)).run (dbHandle env) := by
  cases sub with
  | mset entries | msetnx entries =>
    rw [undoKeys, ← keys_entries]
    rfl
  | del keys =>
    conv_rhs => rw [← map_str_some keys]
    rfl
  | mget keys | renameFrom key | renameTo key dump | renameNxTo key dump => rfl

theorem getRelatedKeys_eq :
    getRelatedKeys F (some (lit sub.name) :: sub.args) = some (sub.undoKeys, sub.readKeys) := by
  cases sub with
  | mset entries | msetnx entries =>
    exact congrArg (fun keys => some (keys, [])) (keys_entries entries)
  | del keys => exact congrArg (fun keys => some (keys, [])) (map_str_some keys)
  | mget keys => exact congrArg (fun keys => some ([], keys)) (map_str_some keys)
  | renameFrom key | renameTo key dump | renameNxTo key dump => rfl

end SubCommand

/-! ## Prepare functions -/

section Prepare

variable (env : Env F) (spread : Str → Nat)

omit [Float64 F] in
theorem localExists_eq (keys : List Key) (node : Node F) :
    ∃ db, localExists env keys node =
        (.ok (visible env.now node.db keys), { node with db := db }) ∧ node.db.Same env.now db := by
  obtain ⟨after, run⟩ := run_existing env (keys.map some) node.db
  have same := (run_lookup_seen env (existing (keys.map some)) node.db).1
  rw [map_str_some] at run
  rw [run] at same
  refine ⟨after, ?_, same⟩
  rw [localExists, Node.runDb, run]
  rfl

/-- What is left of a transaction when its prepare function has ended: a reply that is an error
gives the locks back. -/
def keepsLocks : Except Halt Reply → Bool
  | .ok reply => !reply.isError
  | .error _ => true

structure Looks (node : Node F) (accepted : Prop) (ended : Except Halt Reply × Node F) : Prop where
  ends : (∃ reply, ended.1 = .ok reply) ∨ ended.1 = .error .panic
  keeps : keepsLocks ended.1 = true ↔ accepted
  same : ∃ db, ended.2 = { node with db := db } ∧ node.db.Same env.now db

omit [Float64 F] in
theorem visible_isEmpty_iff {now : Int} {db : Space F} {keys : List Key} :
    (visible now db keys).isEmpty = true ↔ ∀ key ∈ keys, db.seen now key = none := by
  rw [visible, List.isEmpty_iff, List.filter_eq_nil_iff]
  refine forall₂_congr fun key _ => ?_
  rw [Option.not_isSome_iff_eq_none]

omit [Float64 F] in
theorem looks_localExists (keys : List Key) (text : String) (node : Node F) :
    Looks env node (∀ key ∈ keys, node.db.seen env.now key = none)
      (Prog.andThen (localExists env keys node) fun exist node =>
        if exist.isEmpty then (.ok .ok, node) else (.ok (.err text), node)) := by
  obtain ⟨db, run, same⟩ := localExists_eq env keys node
  rw [run, andThen_ok, ← visible_isEmpty_iff]
  split
  · rename_i none_
    exact ⟨Or.inl ⟨_, rfl⟩, iff_of_true rfl none_, db, rfl, same⟩
  · rename_i some_
    exact ⟨Or.inl ⟨_, rfl⟩, iff_of_false Bool.false_ne_true some_, db, rfl, same⟩

variable (key : Key)

theorem execNormalCommand_exists (db : Space F) :
    ∃ after, execNormalCommand env (toCmdLineOfStr "Exists" [key]) db =
        (.ok (.int (visible env.now db [key]).length), after) ∧ db.Same env.now after := by
  refine ⟨_, Prod.ext ?_ rfl, (run_lookup_seen env (execExists [some key]) db).1⟩
  change (Prog.andThen ((lookAt key getEntity).run (dbHandle env) db) fun entity space =>
    (Except.ok (Reply.int ((if entity.isSome then 1 else 0 : Nat) + 0 : Nat)), space)).1 = _
  rw [run_lookAt_getEntity, visible_cons]
  cases db.seen env.now key with
  | none | some entry => rfl

theorem run_exec_dumpKey {db : Space F} {value : Value F} {deadline : Option Int}
    (there : db.seen env.now key = some (value, deadline)) :
    (value.Dumpable → ∃ after,
      (Database.exec (toCmdLineOfStr "DumpKey" [key])).run (dbHandle env) db =
        (.ok (.multiBulk [dumpPayload env key value, ttlPayload key deadline]), after)) ∧
    (¬ value.Dumpable → ∃ after,
      (Database.exec (toCmdLineOfStr "DumpKey" [key])).run (dbHandle env) db =
        (.error .panic, after)) := by
  obtain ⟨live, -, isDeadline⟩ := Slot.live_of_seen there
  obtain ⟨sameSlot, noNotes⟩ := exec_live live .getEntity
  have seen : (db.slots key).seen env.now = some (value, deadline) := there
  have executed : (Database.exec (toCmdLineOfStr "DumpKey" [key])).run (dbHandle env) db =
      (lookAt key (execDumpKey [some key])).run (dbHandle env) db := rfl
  rw [executed, lookAt_eq_onKey, run_onKey, Space.read, execDumpKey, look_bind, run_bind,
    run_getEntity, seen, sameSlot, noNotes]
  refine ⟨fun dumpable => ⟨_, Prod.ext ?_ rfl⟩, fun bad => ⟨_, Prod.ext ?_ rfl⟩⟩
  · refine (congrArg Prod.fst (run_dumping env key dumpable ⟨db.slots key, []⟩)).trans ?_
    rw [isDeadline]
    rfl
  · exact (congrArg Prod.fst (run_dumping_panics env key bad ⟨db.slots key, []⟩)).trans rfl

theorem same_dumpKey (db : Space F) :
    db.Same env.now
      ((Database.exec (toCmdLineOfStr "DumpKey" [key])).run (dbHandle env) db).2 :=
  (run_lookup_seen env (readAt key (execDumpKey [some key])) db).1

def Renamable (key : Key) (seen : Option (Value F × Option Int)) (ended : Except Halt Reply) : Prop :=
  (seen = none ∧ ended = .ok (.err "ERR no such key")) ∨
    ∃ value deadline, seen = some (value, deadline) ∧
      ((value.Dumpable ∧
          ended = .ok (.multiBulk [dumpPayload env key value, ttlPayload key deadline])) ∨
        (¬ value.Dumpable ∧ ended = .error .panic))

theorem prepareRenameFrom_eq (node : Node F) {further : Shards}
    (locks : rwLocks spread node.shards [] [key] = some further) :
    ∃ ended db, prepareRenameFrom env spread [some key] node = (ended, { node with db := db }) ∧
      node.db.Same env.now db ∧ Renamable env key (node.db.seen env.now key) ended := by
  obtain ⟨looked, exists_, same⟩ := execNormalCommand_exists env key node.db
  have free : rwLocks spread node.shards (lockedKeys F (toCmdLineOfStr "Exists" [key])).1
      (lockedKeys F (toCmdLineOfStr "Exists" [key])).2 = some further := locks
  have found : localExec env spread (toCmdLineOfStr "Exists" [key]) node =
      (.ok (.int (visible env.now node.db [key]).length), { node with db := looked }) := by
    rw [localExec, free, exists_]
    rfl
  have isKey : str (some key) = key := rfl
  rw [prepareRenameFrom, isKey, found, andThen_ok, visible_cons]
  cases there : node.db.seen env.now key with
  | none => exact ⟨_, looked, rfl, same, Or.inl ⟨rfl, rfl⟩⟩
  | some entry =>
    obtain ⟨value, deadline⟩ := entry
    have stillThere : looked.seen env.now key = some (value, deadline) := (same key).trans there
    have dumped := same_dumpKey env key looked
    obtain ⟨fine, panics⟩ := run_exec_dumpKey env key stillThere
    rw [localExecWithinLock, Node.runDb]
    by_cases dumpable : value.Dumpable
    · obtain ⟨after, run⟩ := fine dumpable
      rw [run] at dumped ⊢
      exact ⟨_, after, rfl, fun other => (dumped other).trans (same other),
        Or.inr ⟨value, deadline, rfl, Or.inl ⟨dumpable, rfl⟩⟩⟩
    · obtain ⟨after, run⟩ := panics dumpable
      rw [run] at dumped ⊢
      exact ⟨_, after, rfl, fun other => (dumped other).trans (same other),
        Or.inr ⟨value, deadline, rfl, Or.inr ⟨dumpable, rfl⟩⟩⟩

def SubCommand.Accepted (now : Int) (db : Space F) : SubCommand F → Prop
  | .msetnx entries => ∀ key ∈ entries.map Prod.fst, db.seen now key = none
  | .renameNxTo key _ => db.seen now key = none
  | .renameFrom key => db.seen now key ≠ none
  | _ => True

theorem SubCommand.evenPlaces_entries (entries : List (Str × Str)) :
    evenPlaces (entries.flatMap fun entry => [some entry.1, some entry.2]) =
      entries.map Prod.fst := by
  induction entries with
  | nil => rfl
  | cons entry rest ih =>
    rw [map_cons, ← ih]
    rfl

theorem SubCommand.looks (sub : SubCommand F) (node : Node F)
    (locks : ∀ key, sub = .renameFrom key →
      ∃ further, rwLocks spread node.shards [] [key] = some further) :
    Looks env node (sub.Accepted env.now node.db)
      (prepareFunc env spread (toLower (lit sub.name)) sub.args node) := by
  cases sub with
  | msetnx entries =>
    rw [Accepted, ← evenPlaces_entries]
    exact looks_localExists env _ someKeysExistsErr node
  | renameNxTo key dump =>
    have looks := looks_localExists env [key] keyExistsErr node
    rw [List.forall_mem_singleton] at looks
    exact looks
  | renameFrom key =>
    obtain ⟨_, free⟩ := locks key rfl
    obtain ⟨_, db, run, same, renamable⟩ := prepareRenameFrom_eq env spread key node free
    have isFunc : prepareFunc env spread (toLower (lit (SubCommand.renameFrom (F := F) key).name))
        (SubCommand.renameFrom (F := F) key).args node =
          prepareRenameFrom env spread [some key] node := rfl
    rw [isFunc, run]
    rcases renamable with ⟨unseen, rfl⟩ | ⟨_, _, seen, ⟨-, rfl⟩ | ⟨-, rfl⟩⟩
    · exact ⟨Or.inl ⟨_, rfl⟩, iff_of_false Bool.false_ne_true fun there => there unseen, db, rfl,
        same⟩
    · have there : node.db.seen env.now key ≠ none := seen ▸ Option.some_ne_none _
      exact ⟨Or.inl ⟨_, rfl⟩, iff_of_true rfl there, db, rfl, same⟩
    · have there : node.db.seen env.now key ≠ none := seen ▸ Option.some_ne_none _
      exact ⟨Or.inr rfl, iff_of_true rfl there, db, rfl, same⟩
  | mset entries | del keys | mget keys | renameTo key dump =>
    exact ⟨Or.inl ⟨_, rfl⟩, iff_of_true rfl trivial, node.db, rfl, fun _ => rfl⟩

end Prepare

/-! ## Handlers -/

def answered (ended : Except Halt Reply × Node F) : Option (Node F) :=
  match (recovered ended).1 with
  | .ok _ => some ended.2
  | .error _ => none

section Messages

variable (env : Env F) (spread : Str → Nat) {node after : Node F} {txId : Str} {ptr : Nat}

variable {taken : Shards}

theorem answered_prepare {keys : List Key × List Key} {head : Bytes} {args : List Bytes}
    {undoLogs : List Line} {db looked : Space F} {ended : Except Halt Reply}
    (fresh : node.txs txId = none) (related : getRelatedKeys F (head :: args) = some keys)
    (locks : rwLocks spread node.shards keys.1 keys.2 = some taken)
    (undo : getUndoLogs env (head :: args) node.db = (.ok undoLogs, db))
    (func : prepareFunc env spread (toLower (str head)) args
      (node.prepared txId ⟨head :: args, undoLogs, keys.1, keys.2, true⟩ taken db) =
        (ended, node.prepared txId ⟨head :: args, undoLogs, keys.1, keys.2, true⟩ taken looked))
    (ends : (∃ reply, ended = .ok reply) ∨ ended = .error .panic) :
    answered (execPrepare env spread (some txId :: head :: args) node) =
      some (node.prepared txId ⟨head :: args, undoLogs, keys.1, keys.2, keepsLocks ended⟩
        (if keepsLocks ended then taken else node.shards) looked) := by
  rw [execPrepare_eq env spread fresh related locks undo, func]
  rcases ends with ⟨reply, rfl⟩ | rfl
  · rw [andThen_ok, settlePrepare]
    cases isError : reply.isError with
    | false =>
      rw [keepsLocks, isError]
      rfl
    | true =>
      have heap : ∀ shards, (node.prepared txId ⟨head :: args, undoLogs, keys.1, keys.2, true⟩
          shards looked).heap node.next = ⟨head :: args, undoLogs, keys.1, keys.2, true⟩ :=
        fun _ => Function.update_self _ _ _
      have released : unlockTx spread node.next
          (node.prepared txId ⟨head :: args, undoLogs, keys.1, keys.2, true⟩ taken looked) =
            (.ok (), node.prepared txId ⟨head :: args, undoLogs, keys.1, keys.2, true⟩ node.shards
              looked) :=
        unlockTx_some (by rw [heap]; exact rwUnLocks_of_rwLocks locks)
      rw [released, andThen_ok, heap, keepsLocks, isError]
      rw [Node.setTx, Node.prepared]
      simp only [Function.update_idem]
      rfl
  · rfl

section Undo

variable {dumping : Env F} {keys : List Key} {was : Key → Option (Value F × Option Int)}
variable (undo : (node.heap ptr).undoLogs = keys.flatMap fun key => undoLines dumping key (was key))

include undo

theorem finishRollback_eq (txId : Str) :
    ∃ db : Space F, (∀ key ∈ keys, (db.slots key).value = none) ∧
      (∀ key ∉ keys, db.slots key = node.db.slots key) ∧
      finishRollback env spread txId ptr node =
        Prog.andThen (unlockTx spread ptr { node with db := db }) fun _ node =>
          (.ok .ok, node.deleteTx txId) := by
  obtain ⟨db, undone, gone, others⟩ := execUndo_keys env dumping node.db 0 keys was
  refine ⟨db, gone, others, ?_⟩
  rw [finishRollback, undo, undone]
  rfl

theorem finish_clears (ended : answered (finishRollback env spread txId ptr node) = some after) :
    (∀ key ∈ keys, (after.db.slots key).value = none) ∧
      ∀ key ∉ keys, after.db.slots key = node.db.slots key := by
  obtain ⟨db, gone, others, run⟩ := finishRollback_eq env spread undo txId
  rw [run] at ended
  cases freed : rwUnLocks spread node.shards (node.heap ptr).writeKeys
      (node.heap ptr).readKeys with
  | none =>
    have aborts : unlockTx spread ptr ({ node with db := db } : Node F) = _ := unlockTx_none freed
    rw [aborts] at ended
    cases ended
  | some shards =>
    have unlocks : unlockTx spread ptr ({ node with db := db } : Node F) = _ := unlockTx_some freed
    rw [unlocks] at ended
    cases ended
    exact ⟨gone, others⟩

theorem finish_answered {freed : Shards}
    (unlocks : rwUnLocks spread node.shards (node.heap ptr).writeKeys (node.heap ptr).readKeys =
      some freed) :
    ∃ after, answered (finishRollback env spread txId ptr node) = some after := by
  obtain ⟨db, -, -, run⟩ := finishRollback_eq env spread undo txId
  have released : unlockTx spread ptr ({ node with db := db } : Node F) = _ := unlockTx_some unlocks
  rw [run, released]
  exact ⟨_, rfl⟩

end Undo

def Node.relocked (node : Node F) (ptr : Nat) (shards : Shards) : Node F :=
  ({ node with shards := shards } : Node F).setTx ptr { node.heap ptr with hasLock := true }

theorem execRollback_eq (there : node.txs txId = some ptr) :
    execRollback env spread [some txId] node =
      if (node.heap ptr).hasLock then finishRollback env spread txId ptr node
      else Prog.andThen (relockTx spread ptr node) fun _ node =>
        finishRollback env spread txId ptr node := by
  have found : node.txs (str (some txId)) = some ptr := there
  rw [execRollback, found]
  rfl

omit [Float64 F] in
theorem relockTx_some
    (locks : rwLocks spread node.shards (node.heap ptr).writeKeys (node.heap ptr).readKeys =
      some taken) :
    relockTx spread ptr node = (.ok (), node.relocked ptr taken) := by
  rw [relockTx, lockTx_some locks]
  rfl

section Rollback

variable {dumping : Env F} {keys : List Key} {was : Key → Option (Value F × Option Int)}
variable (there : node.txs txId = some ptr)
variable (undo : (node.heap ptr).undoLogs = keys.flatMap fun key => undoLines dumping key (was key))

include there undo

omit there in
theorem undoLogs_relocked (taken : Shards) :
    ((node.relocked ptr taken).heap ptr).undoLogs =
      keys.flatMap fun key => undoLines dumping key (was key) := by
  rw [Node.relocked, Node.setTx]
  simp only [Function.update_self]
  exact undo

theorem rollback_clears
    (ended : answered (execRollback env spread [some txId] node) = some after) :
    (∀ key ∈ keys, (after.db.slots key).value = none) ∧
      ∀ key ∉ keys, after.db.slots key = node.db.slots key := by
  rw [execRollback_eq env spread there] at ended
  split at ended
  · exact finish_clears env spread undo ended
  · cases locks : rwLocks spread node.shards (node.heap ptr).writeKeys (node.heap ptr).readKeys with
    | none =>
      rw [relockTx, lockTx_none locks] at ended
      cases ended
    | some taken =>
      rw [relockTx_some spread locks] at ended
      have cleared := finish_clears env spread (undoLogs_relocked undo taken) ended
      exact cleared

theorem rollback_answered
    (locks : if (node.heap ptr).hasLock then ∃ freed, rwUnLocks spread node.shards
        (node.heap ptr).writeKeys (node.heap ptr).readKeys = some freed
      else ∃ taken, rwLocks spread node.shards (node.heap ptr).writeKeys
        (node.heap ptr).readKeys = some taken) :
    ∃ after, answered (execRollback env spread [some txId] node) = some after := by
  rw [execRollback_eq env spread there]
  split
  · rename_i has
    rw [if_pos has] at locks
    obtain ⟨_, unlocks⟩ := locks
    exact finish_answered env spread undo unlocks
  · rename_i hasNot
    rw [if_neg hasNot] at locks
    obtain ⟨taken, isTaken⟩ := locks
    rw [relockTx_some spread isTaken]
    have unlocks : rwUnLocks spread (node.relocked ptr taken).shards
        ((node.relocked ptr taken).heap ptr).writeKeys
        ((node.relocked ptr taken).heap ptr).readKeys = some node.shards := by
      rw [Node.relocked, Node.setTx]
      simp only [Function.update_self]
      exact rwUnLocks_of_rwLocks isTaken
    exact finish_answered env spread (undoLogs_relocked undo taken) unlocks

end Rollback

end Messages

end Godis.Cluster


