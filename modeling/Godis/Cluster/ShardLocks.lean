import Godis.Cluster.Tcc
import Godis.Database.ShardRequests

/-!
# Mutexes of shards requested twice

`ExecMulti` and `execPrepare` hold the mutexes of the shards of their keys.  What they execute
meanwhile takes it for granted that the locks are there, apart from the methods that go over the
whole dictionary, and from the `LocalExec` in `prepareRenameFrom`.
-/

namespace Godis.Cluster

open Golang Program Database Dict List

variable {F : Type} [Float64 F] (table : Sharding)

/-! ## Prepare functions -/

section Prepare

variable (chance : Chance F)

/-- What `LocalExec` requests, given the locks it may have to wait for. -/
def localExecRequests (line : Line) (space : Space F) : List Nat :=
  toLockIndices table.spread ((lockedKeys F line).1 ++ (lockedKeys F line).2) ++
    requested table chance (exec line) (space.addVersion (lockedKeys F line).1)

def prepareRenameFromRequests (args : List Bytes) (node : Node F) : List Nat :=
  match args with
  | [key] =>
    localExecRequests table chance (toCmdLineOfStr "Exists" [str key]) node.db ++
      Prog.following
        (localExec chance.env table.spread (toCmdLineOfStr "Exists" [str key]) node)
        fun existResp node =>
          match existResp with
          | .int 0 => []
          | .int _ => requested table chance (exec (toCmdLineOfStr "DumpKey" [str key])) node.db
          | _ => []
  | _ => []

def prepareFuncRequests (name : Str) (args : List Bytes) (node : Node F) : List Nat :=
  if name = lit "msetnx" then
    requested table chance (lookup (existing ((evenPlaces args).map some))) node.db
  else if name = lit "renamefrom" then prepareRenameFromRequests table chance args node
  else if name = lit "renamenxto" then
    match args with
    | [key, _, _] => requested table chance (lookup (existing [some (str key)])) node.db
    | _ => []
  else []

def prepareRequests (ptr : Nat) (head : Bytes) (args : List Bytes) (node : Node F) : List Nat :=
  match getRelatedKeys F (head :: args) with
  | none => []
  | some _ =>
    undoRequests table chance (head :: args) node.db ++
      Prog.following (getUndoLogs chance.env (head :: args) node.db) fun undoLogs db =>
        let node : Node F := { node with db := db }
        prepareFuncRequests table chance (toLower (str head)) args (node.setTx ptr
          { node.heap ptr with undoLogs := undoLogs, realCmdLine := head :: args, hasLock := true })

variable (F) in
def prepareHeld (line : Line) : List Nat :=
  match getRelatedKeys F line with
  | none => []
  | some keys => toLockIndices table.spread (keys.1 ++ keys.2)

variable {table chance}

variable {args : List Bytes} {head : Bytes}

variable {node : Node F} {ptr : Nat}

theorem prepareFuncRequests_nil {name : Str} (other : ¬ (name = lit "renamefrom" ∧ args.length = 1)) :
    prepareFuncRequests table chance name args node = [] := by
  unfold prepareFuncRequests
  split
  · exact requested_quiet (uses_existing fun _ _ => quiet_readAt)
  · split
    · rename_i named
      unfold prepareRenameFromRequests
      split
      · exact absurd ⟨named, rfl⟩ other
      · rfl
    · split
      · split
        · exact requested_quiet (uses_existing fun _ _ => quiet_readAt)
        · rfl
      · rfl

theorem prepareRequests_nil (other : ¬ (toLower (str head) = lit "renamefrom" ∧ args.length = 1)) : prepareRequests table chance ptr head args node = [] := by
  unfold prepareRequests
  split
  · rfl
  · have nothing : ∀ logs : Except Stop (List Line) × Space F, Prog.following logs (fun undoLogs db =>
        prepareFuncRequests table chance (toLower (str head)) args
          (({ node with db := db } : Node F).setTx ptr
            { node.heap ptr with undoLogs := undoLogs, realCmdLine := head :: args, hasLock := true }))
        = [] := by
      rintro ⟨outcome, _⟩
      cases outcome with
      | error reason => rfl
      | ok undoLogs => exact prepareFuncRequests_nil other
    rw [undoRequests_nil]
    exact nothing _

variable (table chance) in
theorem prepareRequests_renameFrom (named : toLower (str head) = lit "renamefrom") (key : Bytes)
    (ptr : Nat) (node : Node F) :
    table.spread (str key) ∈ prepareRequests table chance ptr head [key] node ∧
      table.spread (str key) ∈ prepareHeld F table (head :: [key]) := by
  have found : Name.ofText (toLower (str head)) = some .renamefrom := by
    rw [named]
    rfl
  have related : getRelatedKeys F (head :: [key]) = some ([], [str key]) := by
    rw [getRelatedKeys, found]
    rfl
  have logs : getUndoLogs chance.env (head :: [key]) node.db = (.ok [], node.db) := by
    rw [getUndoLogs, found]
    rfl
  constructor
  · rw [prepareRequests, related]
    rw [undoRequests_nil, nil_append, logs, named]
    exact mem_append_left _ (mem_append_left _
      ((mem_toLockIndices table.spread).mpr ⟨str key, mem_singleton.mpr rfl, rfl⟩))
  · rw [prepareHeld, related]
    exact (mem_toLockIndices table.spread).mpr ⟨str key, mem_singleton.mpr rfl, rfl⟩

theorem prepare_requests_none_held_iff :
    (∀ shard ∈ prepareRequests table chance ptr head args node,
        shard ∉ prepareHeld F table (head :: args)) ↔
      ¬ (toLower (str head) = lit "renamefrom" ∧ args.length = 1) := by
  constructor
  · rintro apart ⟨named, single⟩
    obtain ⟨key, rfl⟩ := List.length_eq_one_iff.mp single
    obtain ⟨requests, held⟩ :=
      prepareRequests_renameFrom table chance named key ptr node
    exact apart _ requests held
  · intro other shard member
    rw [prepareRequests_nil other] at member
    exact absurd member not_mem_nil

end Prepare

/-! ## Both -/

/-- A transaction requests none of the shards it holds where no command it executes goes over one of
them, and a prepared command requests none unless it is `RENAMEFROM` with its key. -/
theorem requests_no_held_shard_iff (table : Sharding) :
    (∀ (chances : Nat → Chance F) (watching : Watching) (lines : List Line) (space : Space F),
      (∀ shard ∈ multiRequests table chances watching lines space,
          shard ∉ multiHeld F table watching lines) ↔
        ∀ step ∈ multiExecuted chances watching lines space, ∀ shard ∈ step.visits table,
          shard ∉ multiHeld F table watching lines) ∧
      ∀ (chance : Chance F) (ptr : Nat) (head : Bytes) (args : List Bytes) (node : Node F),
        (∀ shard ∈ prepareRequests table chance ptr head args node,
            shard ∉ prepareHeld F table (head :: args)) ↔
          ¬ (toLower (str head) = lit "renamefrom" ∧ args.length = 1) := by
  refine ⟨fun chances watching lines space => ?_, fun chance ptr head args node =>
    prepare_requests_none_held_iff⟩
  rw [multiRequests_eq]
  constructor
  · exact fun apart step executed shard visited =>
      apart shard (List.mem_flatMap.mpr ⟨step, executed, visited⟩)
  · intro apart shard member
    obtain ⟨step, executed, visited⟩ := List.mem_flatMap.mp member
    exact apart step executed shard visited

variable {table} in
theorem visits_keys {chance : Chance F} {pattern : Str}
    (compiles : (chance.env.compile pattern).isSome = true) {space : Space F} :
    Executed.visits table ⟨chance, toCmdLineOfStr "keys" [pattern], space⟩ = table.all :=
  if_pos compiles

/-- `MULTI`, `SET k v`, `KEYS *`, `EXEC`; and `PREPARE tx RENAMEFROM k`. -/
theorem held_shards_requested :
    (∃ shard ∈ multiRequests Sharding.dataDict (fun _ => (⟨Env.plain 0, fun _ => []⟩ : Chance Digit)) ∅
        [toCmdLineOfStr "set" [lit "k", lit "v"], toCmdLineOfStr "keys" [lit "*"]] Space.empty,
      shard ∈ multiHeld Digit Sharding.dataDict ∅
        [toCmdLineOfStr "set" [lit "k", lit "v"], toCmdLineOfStr "keys" [lit "*"]]) ∧
      ∃ shard ∈ prepareRequests Sharding.dataDict (⟨Env.plain 0, fun _ => []⟩ : Chance Digit) 0
          (some (lit "RenameFrom")) [some (lit "k")] Node.initial,
        shard ∈ prepareHeld Digit Sharding.dataDict [some (lit "RenameFrom"), some (lit "k")] := by
  refine ⟨⟨Sharding.dataDict.spread (lit "k"), ?_, ?_⟩,
    _, prepareRequests_renameFrom _ _ rfl (some (lit "k")) 0 Node.initial⟩
  · rw [multiRequests_eq]
    have executes : ∃ space, (⟨⟨Env.plain 0, fun _ => []⟩, toCmdLineOfStr "keys" [lit "*"], space⟩ :
        Executed Digit) ∈ multiExecuted (fun _ => ⟨Env.plain 0, fun _ => []⟩) ∅
          [toCmdLineOfStr "set" [lit "k", lit "v"], toCmdLineOfStr "keys" [lit "*"]] Space.empty :=
      ⟨_, .tail _ (.head _)⟩
    obtain ⟨_, executed⟩ := executes
    refine List.mem_flatMap.mpr ⟨_, executed, ?_⟩
    rw [visits_keys rfl]
    exact List.mem_range.mpr (Sharding.dataDict.spread_lt _)
  · exact Finset.mem_image_of_mem _ (by decide)

end Godis.Cluster

