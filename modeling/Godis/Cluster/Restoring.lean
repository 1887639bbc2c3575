import Godis.Cluster.Rollback
import Godis.Database.NoEffect

/-!
# What a rollback restores

A part is prepared and rolled back, or prepared, committed and rolled back, and nobody else acts on
the node in between; time may pass.
-/

namespace Godis.Cluster

open Golang Program Database Dict List
open Option (bind_some)

variable {F : Type} [Float64 F]

/-! ## Commits -/

section Commits

variable (env : Env F)

namespace SubCommand

theorem length_entries (entries : List (Str × Str)) :
    (entries.flatMap fun entry => [some entry.1, some entry.2]).length = 2 * entries.length := by
  simp [List.length_flatMap, mul_comm]

def written : SubCommand F → List Key
  | .mset entries | .msetnx entries => entries.map Prod.fst
  | .del keys => keys
  | .mget _ => []
  | .renameFrom key | .renameTo key _ | .renameNxTo key _ => [key]

end SubCommand

def Executes (keys : List Key) (line : Line) (db : Space F) : Prop :=
  ∃ reply after, (Database.exec line).run (dbHandle env) db = (.ok reply, after) ∧
    ∀ key ∉ keys, after.seen env.now key = db.seen env.now key

variable (entries : List (Str × Str))

theorem executes_mset (db : Space F) :
    Executes env (entries.map Prod.fst)
      (some (lit "mset") :: (SubCommand.mset (F := F) entries).args) db := by
  cases entries with
  | nil => exact ⟨_, db, rfl, fun _ _ => rfl⟩
  | cons first rest =>
    have named : toLower (str (some (lit "mset"))) = lit "mset" := rfl
    have length := SubCommand.length_entries (first :: rest)
    have filled : 2 ≤ (SubCommand.mset (F := F) (first :: rest)).args.length := by
      rw [SubCommand.args, length, length_cons]
      omega
    have even : (SubCommand.mset (F := F) (first :: rest)).args.length % 2 = 0 := by
      rw [SubCommand.args, length, Nat.mul_mod_right]
    obtain ⟨after, run, slots⟩ := run_exec_mset env named filled even db
    refine ⟨_, after, run, fun key outside => ?_⟩
    have missing : key ∉ (pairs (SubCommand.mset (F := F) (first :: rest)).args).map
        fun entry => str entry.1 := by
      rw [SubCommand.args, SubCommand.keys_entries]
      exact outside
    rw [Space.seen, slots, msetSlot, lastPut_of_notMem missing]
    rfl

theorem executes_msetnx (db : Space F) :
    Executes env (entries.map Prod.fst)
      (some (lit "msetnx") :: (SubCommand.msetnx (F := F) entries).args) db := by
  cases entries with
  | nil => exact ⟨_, db, rfl, fun _ _ => rfl⟩
  | cons first rest =>
    have executed : (Database.exec (some (lit "msetnx") ::
        (SubCommand.msetnx (F := F) (first :: rest)).args)).run (dbHandle env) db =
          (execMSetNX (SubCommand.msetnx (F := F) (first :: rest)).args).run (dbHandle env) db := by
      change ((if validateArity (-3) _ = true then _ else _ : DbProg F Reply).run _ db) = _
      have filled : 2 ≤ (SubCommand.msetnx (F := F) (first :: rest)).args.length := by
        rw [SubCommand.args, SubCommand.length_entries, length_cons]
        omega
      rw [validateArity_of_three filled]
      rfl
    have even : (SubCommand.msetnx (F := F) (first :: rest)).args.length % 2 = 0 := by
      rw [SubCommand.args, SubCommand.length_entries, Nat.mul_mod_right]
    obtain ⟨reply, ends⟩ := run_execMSetNX_ends even
    refine ⟨reply, _, executed.trans (Prod.ext ends rfl), fun key outside => ?_⟩
    have within : (execMSetNX (SubCommand.msetnx (F := F) (first :: rest)).args : DbProg F Reply).Uses
        (DbOp.Within _ []) := within_execMSetNX _
    refine seen_of_uses_within env within db ?_
    rw [SubCommand.args, SubCommand.keys_entries]
    exact outside

theorem executes_del (keys : List Key) (db : Space F) :
    Executes env keys (some (lit "del") :: (SubCommand.del (F := F) keys).args) db := by
  cases keys with
  | nil => exact ⟨_, db, rfl, fun _ _ => rfl⟩
  | cons first rest =>
    have named : toLower (str (some (lit "del"))) = lit "del" := rfl
    obtain ⟨after, run, slots⟩ := run_exec_del env named
      (cons_ne_nil (some first) (rest.map some)) db
    refine ⟨_, after, run, fun key outside => ?_⟩
    have missing : key ∉ (some first :: rest.map some).map str := by
      rw [← map_cons, map_str_some]
      exact outside
    rw [Space.seen, slots, delSlot, if_neg missing]
    rfl

theorem executes_mget (keys : List Key) (db : Space F) :
    Executes env [] (some (lit "mget") :: (SubCommand.mget (F := F) keys).args) db := by
  cases keys with
  | nil => exact ⟨_, db, rfl, fun _ _ => rfl⟩
  | cons first rest =>
    have executed : (Database.exec (some (lit "mget") :: (SubCommand.mget (F := F)
        (first :: rest)).args)).run (dbHandle env) db =
          (lookup (Database.execMGet (SubCommand.mget (F := F) (first :: rest)).args)).run
            (dbHandle env) db := by
      have filled : (SubCommand.mget (F := F) (first :: rest)).args ≠ [] :=
        cons_ne_nil (some first) (rest.map some)
      change ((if validateArity (-2) _ = true then _ else _ : DbProg F Reply).run _ db) = _
      rw [validateArity_of_two filled]
      rfl
    obtain ⟨after, found⟩ := run_execMGet
    have same := (run_lookup_seen env (Database.execMGet (SubCommand.mget (F := F) (first :: rest)).args)
      db).1
    rw [found] at same
    exact ⟨_, after, executed.trans found, fun key _ => same key⟩

theorem executes_loadDump (key : Key) (dump : Dump F) (depth : Nat) (db : Space F) :
    ∃ reply after, (loadDump (execWithLock (depth + 1)) (some key :: dump.args)).run
        (dbHandle env) db = (.ok reply, after) ∧
      ∀ other ∉ [key], after.seen env.now other = db.seen env.now other := by
  have others : ∀ {after : Space F}, (∀ other, other ≠ key → after.slots other = db.slots other) →
      ∀ other ∉ [key], after.seen env.now other = db.seen env.now other := by
    intro after same other outside
    rw [Space.seen, same other (List.ne_of_not_mem_cons outside)]
    rfl
  cases filled : dump.value.isEmptyCollection with
  | false =>
    obtain ⟨after, run, -, same⟩ := run_loadDump env dump.env key dump.source depth
      dump.sizedDump dump.sizedTtl db filled
    exact ⟨_, after, run, others same⟩
  | true =>
    obtain ⟨reply, after, run, -, -, same⟩ := run_loadDump_empty env dump.env key dump.source
      depth dump.sizedDump dump.sizedTtl db filled dump.dumpable
    exact ⟨reply, after, run, others same⟩

theorem run_exec_renameFrom (key : Key) (db : Space F) :
    ∃ after, (Database.exec [some (lit "RenameFrom"), some key]).run (dbHandle env) db =
        (.ok .ok, after) ∧ (after.slots key).value = none ∧
      ∀ other, other ≠ key → after.slots other = db.slots other := by
  refine ⟨_, run_exec_changeKey env db .renamefrom rfl rfl rfl, ?_, fun other different => ?_⟩
  · exact congrArg Slot.value (Space.write_slots_self _)
  · exact Space.write_slots_ne _ _ different

theorem SubCommand.executes (sub : SubCommand F) (db : Space F) :
    Executes env sub.written (some (lit sub.name) :: sub.args) db := by
  cases sub with
  | mset entries => exact executes_mset env entries db
  | msetnx entries => exact executes_msetnx env entries db
  | del keys => exact executes_del env keys db
  | mget keys => exact executes_mget env keys db
  | renameFrom key =>
    obtain ⟨after, run, -, others⟩ := run_exec_renameFrom env key db
    refine ⟨_, after, run, fun other outside => ?_⟩
    rw [Space.seen, others other (List.ne_of_not_mem_cons outside)]
    rfl
  | renameTo key dump | renameNxTo key dump => exact executes_loadDump env key dump _ db

end Commits

/-! ## Restoring the node -/

theorem rollback_stuck (env : Env F) (spread : Str → Nat) {node : Node F} {txId : Str} {ptr : Nat}
    (there : node.txs txId = some ptr) (without : (node.heap ptr).hasLock = false)
    (waits : rwLocks spread node.shards (node.heap ptr).writeKeys (node.heap ptr).readKeys = none) :
    answered (execRollback env spread [some txId] node) = none := by
  rw [execRollback_eq env spread there, without, relockTx,
    lockTx_none waits]
  rfl

theorem commit_panics (env : Env F) (spread : Str → Nat) {node : Node F} {txId : Str} {ptr : Nat}
    (there : node.txs txId = some ptr) (empty : (node.heap ptr).realCmdLine = []) :
    execCommit env spread [some txId] node = (.error .panic, node) := by
  have found : node.txs (str (some txId)) = some ptr := there
  rw [execCommit, found]
  dsimp only
  rw [commitTx, empty]
  rfl

theorem commit_aborts {env : Env F} (spread : Str → Nat) {node : Node F} {txId : Str} {ptr : Nat}
    {reply : Reply} {db : Space F} (there : node.txs txId = some ptr)
    (executed : (Database.exec (node.heap ptr).realCmdLine).run (dbHandle env) node.db =
      (.ok reply, db))
    (aborts : rwUnLocks spread node.shards (node.heap ptr).writeKeys (node.heap ptr).readKeys = none) :
    answered (execCommit env spread [some txId] node) = none := by
  have found : node.txs (str (some txId)) = some ptr := there
  have run : localExecWithinLock env (node.heap ptr).realCmdLine node =
      (.ok reply, { node with db := db }) := by
    rw [localExecWithinLock, Node.runDb, executed]
    rfl
  have stuck : unlockTx spread ptr ({ node with db := db } : Node F) = _ := unlockTx_none aborts
  rw [execCommit, found]
  dsimp only
  rw [commitTx, run, Prog.andThen_ok, stuck]
  rfl

def answeredAll : List (Node F → Except Halt Reply × Node F) → Node F → Option (Node F)
  | [], node => some node
  | handler :: rest, node => (answered (handler node)).bind (answeredAll rest)

/-- The messages are answered one after the other, and then every key is as it was. -/
def Restores (now : Int) (handlers : List (Node F → Except Halt Reply × Node F)) (node : Node F) :
    Prop :=
  ∃ after, answeredAll handlers node = some after ∧ node.db.Same now after.db

omit [Float64 F] in
theorem restores_iff {now : Int} {handlers : List (Node F → Except Halt Reply × Node F)}
    {node after : Node F} (run : answeredAll handlers node = some after) :
    Restores now handlers node ↔ node.db.Same now after.db := by
  rw [Restores, run]
  simp only [Option.some.injEq, exists_eq_left']

omit [Float64 F] in
theorem not_restores {now : Int} {handlers : List (Node F → Except Halt Reply × Node F)}
    {node : Node F} (run : answeredAll handlers node = none) : ¬ Restores now handlers node := by
  rintro ⟨_, ended, -⟩
  cases run.symm.trans ended

section Restoring

variable (preparing committing rolling : Env F) (spread : Str → Nat)
variable {node : Node F} {txId : Str} (sub : SubCommand F)

def SubCommand.line : Line :=
  some (lit sub.name) :: sub.args

/-- None of the keys that need undo lines holds a sorted set without members. -/
def SubCommand.Dumps (now : Int) (db : Space F) : Prop :=
  ∀ key ∈ sub.undoKeys, ∀ value deadline, db.seen now key = some (value, deadline) → value.Dumpable

theorem SubCommand.undoKeys_subset : ∀ {key}, key ∈ sub.undoKeys → key ∈ sub.written := by
  intro key member
  cases sub with
  | mget keys | renameFrom source => cases member
  | _ => exact member

theorem SubCommand.locked_of_refused {now : Int} {db : Space F} (refused : ¬ sub.Accepted now db) :
    ∃ key, key ∈ sub.undoKeys ++ sub.readKeys := by
  cases sub with
  | msetnx entries =>
    simp only [Accepted, not_forall] at refused
    obtain ⟨key, member, -⟩ := refused
    exact ⟨key, mem_append_left _ member⟩
  | renameNxTo key dump | renameFrom key => exact ⟨key, mem_cons_self⟩
  | _ => exact absurd trivial refused

theorem SubCommand.gone_of_committed {before committed after : Space F} {reply : Reply}
    (executed : (Database.exec sub.line).run (dbHandle committing) before = (.ok reply, committed))
    (gone : ∀ key ∈ sub.undoKeys, (after.slots key).value = none)
    (others : ∀ key ∉ sub.undoKeys, after.slots key = committed.slots key) :
    ∀ key ∈ sub.written, (after.slots key).value = none := by
  cases sub with
  | renameFrom source =>
    intro key member
    obtain ⟨reached, run, absent, -⟩ := run_exec_renameFrom committing source before
    have isCommitted : reached = committed := (Prod.mk.inj (run.symm.trans executed)).2
    rw [mem_singleton.mp member, others source not_mem_nil, ← isCommitted, absent]
  | mget keys => exact gone
  | _ => exact gone

def SubCommand.tcc (node : Node F) (hasLock : Bool) : Tcc :=
  ⟨sub.line, sub.undoKeys.flatMap fun key =>
      undoLines preparing key (node.db.seen preparing.now key),
    sub.undoKeys, sub.readKeys, hasLock⟩

structure Prepared (node after : Node F) (txId : Str) (taken : Shards) : Prop where
  locks : rwLocks spread node.shards sub.undoKeys sub.readKeys = some taken
  reached : ∃ looked, node.db.Same preparing.now looked ∧
    ((sub.Accepted preparing.now node.db ∧
        after = node.prepared txId (sub.tcc preparing node true) taken looked) ∨
      (¬ sub.Accepted preparing.now node.db ∧
        after = node.prepared txId (sub.tcc preparing node false) node.shards looked))

theorem Prepared.there {sub : SubCommand F} {after : Node F} {taken : Shards}
    (prepared : Prepared preparing spread sub node after txId taken) :
    after.txs txId = some node.next := by
  obtain ⟨-, _, -, ⟨-, rfl⟩ | ⟨-, rfl⟩⟩ := prepared
  · exact Node.prepared_txs_self
  · exact Node.prepared_txs_self

theorem Prepared.same {sub : SubCommand F} {after : Node F} {taken : Shards}
    (prepared : Prepared preparing spread sub node after txId taken) :
    node.db.Same preparing.now after.db := by
  obtain ⟨-, _, same, ⟨-, rfl⟩ | ⟨-, rfl⟩⟩ := prepared
  · exact same
  · exact same

theorem Prepared.undoLogs {sub : SubCommand F} {after : Node F} {taken : Shards}
    (prepared : Prepared preparing spread sub node after txId taken) :
    (after.heap node.next).undoLogs = sub.undoKeys.flatMap fun key =>
      undoLines preparing key (node.db.seen preparing.now key) := by
  obtain ⟨-, _, -, ⟨-, rfl⟩ | ⟨-, rfl⟩⟩ := prepared
  · rw [Node.prepared_heap_self, SubCommand.tcc]
  · rw [Node.prepared_heap_self, SubCommand.tcc]

variable (fresh : node.txs txId = none)
variable (unlocked : ∀ key ∈ sub.undoKeys ++ sub.readKeys, node.shards (spread key) = .unlocked)

include fresh unlocked

theorem answered_execPrepare (dumpable : sub.Dumps preparing.now node.db) :
    ∃ after taken, answered (execPrepare preparing spread (some txId :: sub.line) node) =
      some after ∧ Prepared preparing spread sub node after txId taken := by
  obtain ⟨taken, locks⟩ := rwLocks_of_unlocked unlocked
  obtain ⟨db, undo, slots⟩ := run_rollbackGivenKeys preparing sub.undoKeys node.db dumpable
  rw [← sub.getUndoLogs_eq] at undo
  have same : node.db.Same preparing.now db := by
    intro key
    rw [Space.seen, slots]
    split
    · exact Slot.seen_opened preparing.now _
    · rfl
  have looks := sub.looks preparing spread
    (node.prepared txId (sub.tcc preparing node true) taken db) (by
      rintro _ rfl
      exact rwLocks_readers locks fun other member => member)
  generalize func : prepareFunc preparing spread (toLower (lit sub.name)) sub.args
    (node.prepared txId (sub.tcc preparing node true) taken db) = ended at looks
  obtain ⟨result, _⟩ := ended
  obtain ⟨ends, keeps, looked, isNode, sameLooked⟩ := looks
  have accepted : sub.Accepted preparing.now db ↔ sub.Accepted preparing.now node.db := by
    cases sub with
    | msetnx entries => exact forall₂_congr fun key _ => by rw [same key]
    | renameNxTo key dump => exact Eq.congr_left (same key)
    | renameFrom key => exact not_congr (Eq.congr_left (same key))
    | _ => exact Iff.rfl
  have isKept := keeps.trans accepted
  have answer := answered_prepare preparing spread fresh sub.getRelatedKeys_eq locks undo
    (func.trans (congrArg (Prod.mk result) isNode)) ends
  refine ⟨_, taken, answer, locks, looked, fun key => (sameLooked key).trans (same key), ?_⟩
  by_cases isAccepted : sub.Accepted preparing.now node.db
  · refine Or.inl ⟨isAccepted, ?_⟩
    rw [isKept.mpr isAccepted]
    rfl
  · have refused : keepsLocks result = false := Bool.eq_false_iff.mpr (mt isKept.mp isAccepted)
    refine Or.inr ⟨isAccepted, ?_⟩
    rw [refused]
    rfl

/-- A sorted set without members makes the preparation panic, and it keeps its locks. -/
theorem stuck_of_not_dumps (bad : ¬ sub.Dumps preparing.now node.db) :
    ∃ after, answered (execPrepare preparing spread (some txId :: sub.line) node) = some after ∧
      after.txs txId = some node.next ∧
      after.heap node.next = ⟨[], [], sub.undoKeys, sub.readKeys, false⟩ ∧
      rwLocks spread after.shards sub.undoKeys sub.readKeys = none := by
  unfold SubCommand.Dumps at bad
  simp only [not_forall] at bad
  obtain ⟨_, member, _, _, there, undumpable⟩ := bad
  obtain ⟨_, locks⟩ := rwLocks_of_unlocked unlocked
  obtain ⟨_, undo⟩ := run_rollbackGivenKeys_panics preparing sub.undoKeys node.db member there
    undumpable
  rw [← sub.getUndoLogs_eq] at undo
  have panics := execPrepare_panics preparing spread fresh sub.getRelatedKeys_eq locks undo
  refine ⟨_, congrArg answered panics, Function.update_self _ _ _, Function.update_self _ _ _, ?_⟩
  exact rwLocks_twice locks member

omit [Float64 F] fresh unlocked in
theorem same_iff_unseen {now : Int} {keys : List Key} {before after : Space F}
    (gone : ∀ key ∈ keys, (after.slots key).value = none)
    (others : ∀ key ∉ keys, after.seen now key = before.seen now key) :
    before.Same now after ↔ ∀ key ∈ keys, before.seen now key = none := by
  refine ⟨fun same key member => ?_, fun unseen key => ?_⟩
  · rw [← same key]
    exact Slot.seen_of_none (gone key member)
  · by_cases member : key ∈ keys
    · rw [unseen key member]
      exact Slot.seen_of_none (gone key member)
    · exact others key member

theorem restores_prepared_iff (passes : preparing.now ≤ rolling.now) :
    Restores rolling.now [execPrepare preparing spread (some txId :: sub.line),
        execRollback rolling spread [some txId]] node ↔
      sub.Dumps preparing.now node.db ∧
        ∀ key ∈ sub.undoKeys, node.db.seen rolling.now key = none := by
  by_cases dumps : sub.Dumps preparing.now node.db
  · obtain ⟨_, _, prepare, prepared⟩ :=
      answered_execPrepare preparing spread sub fresh unlocked dumps
    have there := prepared.there
    have undo := prepared.undoLogs
    have same := prepared.same
    obtain ⟨after, rolled⟩ := rollback_answered rolling spread there undo (by
      obtain ⟨locks, -, -, ⟨-, rfl⟩ | ⟨-, rfl⟩⟩ := prepared
      · rw [Node.prepared_heap_self]
        exact ⟨_, rwUnLocks_of_rwLocks locks⟩
      · rw [Node.prepared_heap_self]
        exact ⟨_, locks⟩)
    obtain ⟨gone, others⟩ := rollback_clears rolling spread there undo rolled
    have untouched : ∀ key ∉ sub.undoKeys, after.db.seen rolling.now key =
        node.db.seen rolling.now key := by
      intro key outside
      rw [Space.seen, others key outside]
      exact Slot.seen_later passes (same key)
    rw [and_iff_right dumps, ← same_iff_unseen gone untouched]
    refine restores_iff ?_
    rw [answeredAll, prepare, bind_some, answeredAll, rolled]
    rfl
  · obtain ⟨_, prepare, there, heap, waits⟩ :=
      stuck_of_not_dumps preparing spread sub fresh unlocked dumps
    have stuck := rollback_stuck rolling spread there (by rw [heap]) (by rw [heap]; exact waits)
    refine iff_of_false (not_restores ?_) fun both => dumps both.1
    rw [answeredAll, prepare, bind_some, answeredAll, stuck]
    rfl

theorem restores_committed_iff (begins : preparing.now ≤ committing.now)
    (passes : committing.now ≤ rolling.now) :
    Restores rolling.now [execPrepare preparing spread (some txId :: sub.line),
        execCommit committing spread [some txId], execRollback rolling spread [some txId]] node ↔
      sub.Dumps preparing.now node.db ∧ sub.Accepted preparing.now node.db ∧
        ∀ key ∈ sub.written, node.db.seen rolling.now key = none := by
  by_cases dumps : sub.Dumps preparing.now node.db
  · obtain ⟨middle, taken, prepare, prepared⟩ :=
      answered_execPrepare preparing spread sub fresh unlocked dumps
    have there := prepared.there
    have same := prepared.same
    obtain ⟨_, committed, executed, kept⟩ := sub.executes committing middle.db
    rw [and_iff_right dumps]
    obtain ⟨locks, looked, -, ⟨accepted, rfl⟩ | ⟨refused, rfl⟩⟩ := prepared
    · obtain ⟨leaving, commits⟩ := execCommit_eq committing spread there
        (by rw [Node.prepared_heap_self]; exact executed)
        (by rw [Node.prepared_heap_self]; exact rwUnLocks_of_rwLocks locks)
      generalize isFinal : ({ node.prepared txId (sub.tcc preparing node true) taken looked with
        db := committed
        shards := node.shards
        heap := Function.update (node.prepared txId (sub.tcc preparing node true) taken looked).heap
          node.next { (node.prepared txId (sub.tcc preparing node true) taken looked).heap node.next
            with hasLock := false }
        leaving := leaving } : Node F) = final at commits
      have heap : final.heap node.next = sub.tcc preparing node false := by
        rw [← isFinal]
        dsimp only
        rw [Function.update_self, Node.prepared_heap_self]
        rfl
      have thereFinal : final.txs txId = some node.next := by
        rw [← isFinal]
        exact there
      have undoFinal : (final.heap node.next).undoLogs = sub.undoKeys.flatMap fun key =>
          undoLines preparing key (node.db.seen preparing.now key) := by
        rw [heap, SubCommand.tcc]
      obtain ⟨after, rolled⟩ := rollback_answered rolling spread thereFinal undoFinal (by
        rw [heap, ← isFinal]
        exact ⟨taken, locks⟩)
      obtain ⟨gone, others⟩ := rollback_clears rolling spread thereFinal undoFinal rolled
      have isCommitted : final.db = committed := by rw [← isFinal]
      rw [isCommitted] at others
      have goneWritten := sub.gone_of_committed committing executed gone others
      have untouched : ∀ key ∉ sub.written, after.db.seen rolling.now key =
          node.db.seen rolling.now key := by
        intro key outside
        rw [Space.seen, others key fun member => outside (sub.undoKeys_subset member)]
        refine (Slot.seen_later passes (kept key outside)).trans ?_
        exact Slot.seen_later (begins.trans passes) (same key)
      rw [and_iff_right accepted, ← same_iff_unseen goneWritten untouched]
      refine restores_iff ?_
      rw [answeredAll, prepare, bind_some, answeredAll, commits]
      change (answeredAll _ final) = _
      rw [answeredAll, rolled]
      rfl
    · obtain ⟨_, member⟩ := sub.locked_of_refused refused
      have aborts := commit_aborts spread there
        (by rw [Node.prepared_heap_self]; exact executed)
        (by rw [Node.prepared_heap_self]; exact rwUnLocks_of_unlocked unlocked member)
      refine iff_of_false (not_restores ?_) fun both => refused both.1
      rw [answeredAll, prepare, bind_some, answeredAll, aborts]
      rfl
  · obtain ⟨middle, prepare, there, heap, waits⟩ :=
      stuck_of_not_dumps preparing spread sub fresh unlocked dumps
    have panics := commit_panics committing spread there (by rw [heap])
    have stuck := rollback_stuck rolling spread there (by rw [heap]) (by rw [heap]; exact waits)
    refine iff_of_false (not_restores ?_) fun both => dumps both.1
    rw [answeredAll, prepare, bind_some, answeredAll, panics]
    change answeredAll [execRollback rolling spread [some txId]] middle = none
    rw [answeredAll, stuck]
    rfl

/-- A rollback restores the node exactly if the keys of the part are gone anyway when it comes; where
the part was committed, it must have been accepted before. -/
theorem rollback_restores_iff (begins : preparing.now ≤ committing.now)
    (passes : committing.now ≤ rolling.now) :
    (Restores rolling.now [execPrepare preparing spread (some txId :: sub.line),
        execRollback rolling spread [some txId]] node ↔
      sub.Dumps preparing.now node.db ∧
        ∀ key ∈ sub.undoKeys, node.db.seen rolling.now key = none) ∧
    (Restores rolling.now [execPrepare preparing spread (some txId :: sub.line),
        execCommit committing spread [some txId], execRollback rolling spread [some txId]] node ↔
      sub.Dumps preparing.now node.db ∧ sub.Accepted preparing.now node.db ∧
        ∀ key ∈ sub.written, node.db.seen rolling.now key = none) :=
  ⟨restores_prepared_iff preparing rolling spread sub fresh unlocked (begins.trans passes),
    restores_committed_iff preparing committing rolling spread sub fresh unlocked begins passes⟩

end Restoring

def delK : SubCommand Digit :=
  .del [lit "k"]

def nodeK : Node Digit :=
  { (Node.initial : Node Digit) with db := oneString }

/-- `MSET l w` is committed and rolled back where only `k` is there. -/
theorem rollback_restores_absent :
    Restores (F := Digit) 0 [execPrepare (Env.plain 0) (fun _ => 0)
        (some (lit "t") :: (SubCommand.mset (F := Digit) [(lit "l", lit "w")]).line),
      execCommit (Env.plain 0) (fun _ => 0) [some (lit "t")],
      execRollback (Env.plain 0) (fun _ => 0) [some (lit "t")]] nodeK := by
  refine (rollback_restores_iff (Env.plain 0) (Env.plain 0) (Env.plain 0) (fun _ => 0)
    (.mset [(lit "l", lit "w")]) rfl (fun _ _ => rfl) (Int.le_refl _) (Int.le_refl _)).2.mpr
      ⟨fun key member value deadline there => ?_, trivial, fun key member => ?_⟩
  · cases mem_singleton.mp member
    cases there
  · cases mem_singleton.mp member
    rfl

/-- `DEL k` is prepared and rolled back where `k` holds a string: the rollback deletes it. -/
theorem rollback_deletes_key :
    (nodeK.db.seen 0 (lit "k")).isSome = true ∧
      (answeredAll [execPrepare (Env.plain 0) (fun _ => 0) (some (lit "t") :: delK.line),
        execRollback (Env.plain 0) (fun _ => 0) [some (lit "t")]] nodeK).map
          (fun after => (after.db.seen 0 (lit "k")).isSome) = some false :=
  ⟨rfl, rfl⟩

end Godis.Cluster
