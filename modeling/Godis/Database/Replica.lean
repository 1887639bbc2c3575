import Godis.Database.DeclaredKeys
import Godis.Database.Server

/-!
# Read only replicas

On a replica a client may execute the commands that are registered as read only.  Of these
`RENAME`, `RENAMENX` and `GETEX` do change keys.
-/

namespace Godis.Database

open Golang Program List

variable {F : Type}

/-! ## `GETEX` -/

def getExDeadline (now : Int) (options : List Bytes) (deadline : Option Int) : Option Int :=
  if options.isEmpty then deadline
  else
    match readGetEx options 0 with
    | (.error _, persisted) => if persisted then none else deadline
    | (.ok ttl, _) => if ttl ≠ 0 then some (now + wrap64 (ttl * 1000000)) else none

variable {deadline : Option Int} {slot : Slot F}

theorem slot_execGetEX {env : Env F} {bytes : Str}
    (there : slot.seen env.now = some (.string (some bytes), deadline)) (key : Bytes)
    (options : List Bytes) :
    ((execGetEX (key :: options)).run (slotHandle env) ⟨slot, []⟩).2.slot =
      slot.withDeadline (getExDeadline env.now options deadline) := by
  obtain ⟨-, -, isDeadline⟩ := Slot.live_of_seen there
  have kept : slot.withDeadline deadline = slot := by
    rw [← isDeadline]
    rfl
  obtain ⟨refused, fine⟩ := run_execGetEX there key options
  unfold getExDeadline
  cases options with
  | nil =>
    rw [fine 0 rfl]
    exact kept.symm
  | cons option rest =>
    cases met : readGetEx (option :: rest) 0 with
    | mk result persisted =>
      rw [met] at refused fine
      cases result with
      | error reply =>
        rw [refused reply rfl]
        cases persisted with
        | false => exact kept.symm
        | true => rfl
      | ok ttl =>
        rw [fine ttl rfl]
        by_cases unlimited : ttl = 0
        · simp [unlimited]
        · simp [unlimited]

theorem seen_withDeadline_iff {now : Int} {entry : Value F} {other : Option Int}
    (there : slot.seen now = some (entry, deadline)) :
    (slot.withDeadline other).seen now = slot.seen now ↔ other = deadline := by
  obtain ⟨_, -, isDeadline⟩ := Slot.live_of_seen there
  constructor
  · intro same
    exact (Slot.live_of_seen (same.trans there)).2.2
  · rintro rfl
    rw [← isDeadline]
    rfl

section Commands

def SlipsAt (now : Int) (space : Space F) (name : Name) (args : List Bytes) : Prop :=
  match name, args with
  | .rename, [source, _] => space.seen now (str source) ≠ none
  | .renamenx, [source, dest] =>
    space.seen now (str source) ≠ none ∧ space.seen now (str dest) = none
  | .getex, key :: options =>
    ∃ bytes deadline, space.seen now (str key) = some (.string (some bytes), deadline) ∧
      getExDeadline now options deadline ≠ deadline
  | _, _ => False

variable {env : Env F}

theorem same_execGetEX_iff {space : Space F} {key : Bytes} {options : List Bytes} :
    space.Same env.now ((onKey (str key) (execGetEX (key :: options))).run (dbHandle env) space).2 ↔
      ¬ SlipsAt env.now space .getex (key :: options) := by
  rw [run_onKey, Space.same_write_iff]
  by_cases isString : ∃ bytes, stringSeen ((space.slots (str key)).seen env.now) = .ok (some bytes)
  · obtain ⟨bytes, found⟩ := isString
    obtain ⟨deadline, there⟩ := string_of_stringSeen found
    rw [Space.read, slot_execGetEX there, seen_withDeadline_iff there]
    refine ⟨?_, fun keeps => by_contra fun moved => keeps ⟨bytes, deadline, there, moved⟩⟩
    rintro same ⟨_, _, there', moved⟩
    cases there.symm.trans there'
    exact moved same
  · have other : ∀ bytes, stringSeen ((space.slots (str key)).seen env.now) ≠ .ok (some bytes) :=
      fun bytes found => isString ⟨bytes, found⟩
    rw [Space.read, run_execGetEX_other key options other]
    refine iff_of_true (Slot.seen_look env.now _ .getEntity) ?_
    rintro ⟨bytes, _, there, _⟩
    have there' : (space.slots (str key)).seen env.now = _ := there
    exact other bytes (by rw [there']; rfl)

variable [Float64 F]

variable {name : Name} {args : List Bytes}

theorem executor_of_readOnly (readOnly : (command (F := F) name).readOnly = true) :
    ((∀ execWithLock args, ∃ body,
        (command (F := F) name).executor.run execWithLock args = lookup body) ∧
      ∀ now (space : Space F) args, ¬ SlipsAt now space name args) ∨
      name = .rename ∨ name = .renamenx ∨ name = .getex := by
  have reads : ∀ (body : List Bytes → SlotReader F Reply) execWithLock args,
      ∃ program, (Executor.readKey body).run execWithLock args = lookup program := by
    intro body execWithLock args
    cases args with
    | nil => exact ⟨.stop .panic, rfl⟩
    | cons key more => exact ⟨_, rfl⟩
  cases name with
  | rename => exact .inr (.inl rfl)
  | renamenx => exact .inr (.inr (.inl rfl))
  | getex => exact .inr (.inr (.inr rfl))
  | _ =>
    first
      | exact Bool.noConfusion readOnly
      | exact .inl ⟨reads _, fun _ _ _ slips => slips⟩
      | exact .inl ⟨fun _ _ => ⟨_, rfl⟩, fun _ _ _ slips => slips⟩

theorem counted_of_slipsAt {now : Int} {space : Space F} (slips : SlipsAt now space name args)
    (head : Bytes) :
    validateArity (command (F := F) name).arity (head :: args) = true := by
  unfold SlipsAt at slips
  split at slips
  · rfl
  · rfl
  · simp only [validateArity, command, length_cons]
    norm_num
    omega
  · exact slips.elim

theorem prepare_of_readOnly (readOnly : (command (F := F) name).readOnly = true) :
    ∃ prepare, (command (F := F) name).prepare = some prepare := by
  cases name <;> first | exact ⟨_, rfl⟩ | cases readOnly

theorem readOnly_same_iff {space : Space F} {head : Bytes}
    (found : commandOf (head :: args) = some name)
    (readOnly : (command (F := F) name).readOnly = true) :
    space.Same env.now (execNormalCommand env (head :: args) space).2 ↔
      ¬ SlipsAt env.now space name args := by
  cases counted : validateArity (command (F := F) name).arity (head :: args) with
  | false =>
    rw [execNormalCommand_refused found counted]
    refine iff_of_true (fun _ => rfl) fun slips => ?_
    exact Bool.false_ne_true (counted.symm.trans (counted_of_slipsAt slips head))
  | true =>
    obtain ⟨prepare, prepared⟩ := prepare_of_readOnly readOnly
    have versioned : ∀ key, (space.addVersion (prepare args).1).seen env.now key =
        space.seen env.now key := space.seen_addVersion _ _
    rw [execNormalCommand_eq env space found prepared counted,
      ← Space.same_addVersion_iff (prepare args).1]
    rcases executor_of_readOnly readOnly with ⟨looks, keeps⟩ | rfl | rfl | rfl
    · obtain ⟨body, isLook⟩ := looks (execWithLock (lineSize (head :: args))) args
      rw [isLook]
      exact iff_of_true (run_lookup_seen env body _).1 (keeps _ _ _)
    · obtain ⟨_, _, rfl⟩ := two_of_arity counted
      refine (same_execRename_iff).trans ?_
      rw [versioned]
      exact not_not.symm
    · obtain ⟨_, _, rfl⟩ := two_of_arity counted
      refine (same_execRenameNx_iff []).trans ?_
      rw [versioned, versioned]
      exact (not_and_or.trans (or_congr_left not_not)).symm
    · cases args with
      | nil => exact absurd counted (by simp [validateArity, command])
      | cons key options =>
        refine (same_execGetEX_iff).trans (not_congr ?_)
        simp only [SlipsAt, versioned]

end Commands

/-! ## The server -/

section Exec

variable [Float64 F]

theorem ne_of_readOnly {name : Str} (readOnly : isReadOnlyCommand F name = true) :
    ∀ special ∈ Server.ownNames, name ≠ lit special := by
  have notReadOnly : ∀ special ∈ Server.ownNames, isReadOnlyCommand F (lit special) = false :=
    of_decide_eq_true rfl
  rintro special own rfl
  exact Bool.false_ne_true ((notReadOnly special own).symm.trans readOnly)

variable {head : Bytes} {now : Int} {server : Server F} {args : List Bytes} {conn : Conn}

variable {moments : Moments F}

variable (readOnly : isReadOnlyCommand F (toLower (str head)) = true)

include readOnly in
theorem dispatch_readOnly :
    (server.dispatch moments conn head args).server =
      match server.dbSet[conn.selectedDB]? with
      | none => server
      | some space =>
        server.withDb conn.selectedDB
          (if conn.inMultiState then space
            else (execNormalCommand (moments 0) (head :: args) space).2) := by
  have others := ne_of_readOnly readOnly
  simp only [Server.ownNames, forall_mem_cons] at others
  simp only [Server.dispatch, others, if_false]
  cases server.dbSet[conn.selectedDB]? with
  | none => rfl
  | some space =>
    simp only [Space.exec, others, if_false]
    cases conn.inMultiState with
    | true => rfl
    | false => rfl

/-- Nothing can be seen to have changed in any database. -/
def Server.Same (now : Int) (before after : Server F) : Prop :=
  ∀ (dbIndex : Nat) (key : Key), (after.dbSet[dbIndex]?).map (fun space => space.seen now key) =
    (before.dbSet[dbIndex]?).map fun space => space.seen now key

/-- A read only command that changes keys gets through to the selected database. -/
def ReplicaSlips (now : Int) (server : Server F) (conn : Conn) (line : Line) : Prop :=
  server.isAuthenticated conn = true ∧ conn.inMultiState = false ∧
    ∃ space name, server.dbSet[conn.selectedDB]? = some space ∧ commandOf line = some name ∧
      SlipsAt now space name line.tail

omit [Float64 F] in
theorem same_withDb_iff {dbIndex : Nat} {space after : Space F}
    (selected : server.dbSet[dbIndex]? = some space) :
    server.Same now (server.withDb dbIndex after) ↔ space.Same now after := by
  constructor
  · intro same key
    have here := same dbIndex key
    have inside : dbIndex < server.dbSet.length := (List.getElem?_eq_some_iff.mp selected).1
    rw [Server.withDb, List.getElem?_set_self inside, selected] at here
    exact Option.some.inj here
  · intro same other key
    by_cases isIt : dbIndex = other
    · subst isIt
      have inside : dbIndex < server.dbSet.length := (List.getElem?_eq_some_iff.mp selected).1
      rw [Server.withDb, List.getElem?_set_self inside, selected]
      exact congrArg some (same key)
    · rw [Server.withDb, List.getElem?_set_ne isIt]

omit [Float64 F] in
theorem Server.same_of_dbSet {after : Server F} (same : after.dbSet = server.dbSet) :
    server.Same now after := by
  intro dbIndex key
  rw [same]

omit [Float64 F] in
theorem execSlaveOf_dbSet : (server.execSlaveOf args).2.dbSet = server.dbSet := by
  unfold Server.execSlaveOf
  split
  · split
    · rfl
    · split
      · rfl
      · rfl
  · rfl

theorem readOnly_of_slips (slips : ReplicaSlips now server conn (head :: args)) :
    isReadOnlyCommand F (toLower (str head)) = true := by
  obtain ⟨_, _, _, name, _, found, slips⟩ := slips
  have found' : Name.ofText (toLower (str head)) = some name := found
  unfold SlipsAt at slips
  unfold isReadOnlyCommand
  rw [found']
  split at slips
  · rfl
  · rfl
  · rfl
  · exact slips.elim

include readOnly in
theorem command_of_readOnly : ∃ name, commandOf (head :: args) = some name ∧ (command (F := F) name).readOnly = true := by
  unfold isReadOnlyCommand at readOnly
  split at readOnly
  · cases readOnly
  · rename_i name found
    exact ⟨name, found, readOnly⟩

theorem exec_dbSet_of_write (replica : server.role = .slaveRole) (client : conn.isMaster = false)
    (writes : isReadOnlyCommand F (toLower (str head)) = false) :
    (server.exec moments conn (head :: args)).server.dbSet = server.dbSet := by
  unfold Server.exec
  dsimp only
  split_ifs with isPing isAuth refused isInfo isSlowlog isDbSize isSlaveOf inMulti isCommand guarded
  all_goals first
    | rfl
    | exact execSlaveOf_dbSet
    | exact absurd ⟨replica, client, writes⟩ guarded

include readOnly in
theorem exec_of_readOnly :
    (server.exec moments conn (head :: args)).server =
      if server.isAuthenticated conn then (server.dispatch moments conn head args).server
      else server := by
  have others := ne_of_readOnly readOnly
  simp only [Server.ownNames, forall_mem_cons] at others
  simp only [Server.exec, others, readOnly, if_false, Bool.true_eq_false, and_false]
  cases server.isAuthenticated conn with
  | true => rfl
  | false => rfl

/-- On a replica a client's command changes nothing, unless it is `RENAME`, `RENAMENX` or `GETEX`
and finds something to change. -/
theorem replica_unchanged_iff (server : Server F) (conn : Conn) (line : Line) (moments : Moments F)
    (replica : server.role = .slaveRole) (client : conn.isMaster = false) :
    server.Same (moments 0).now (server.exec moments conn line).server ↔
      ¬ ReplicaSlips (moments 0).now server conn line := by
  cases line with
  | nil =>
    refine iff_of_true (fun _ _ => rfl) ?_
    rintro ⟨_, _, _, _, _, found, _⟩
    cases found
  | cons head args =>
    cases readOnly : isReadOnlyCommand F (toLower (str head)) with
    | false =>
      refine iff_of_true (Server.same_of_dbSet
        (exec_dbSet_of_write replica client readOnly)) fun slips => ?_
      exact Bool.false_ne_true (readOnly.symm.trans (readOnly_of_slips slips))
    | true =>
      rw [exec_of_readOnly readOnly]
      cases authenticated : server.isAuthenticated conn with
      | false =>
        refine iff_of_true (fun _ _ => rfl) fun slips => ?_
        exact Bool.false_ne_true (authenticated.symm.trans slips.1)
      | true =>
        rw [if_pos rfl, dispatch_readOnly readOnly]
        cases selected : server.dbSet[conn.selectedDB]? with
        | none =>
          refine iff_of_true (fun _ _ => rfl) ?_
          rintro ⟨_, _, _, _, found, _⟩
          cases selected.symm.trans found
        | some space =>
          rw [same_withDb_iff selected]
          cases queueing : conn.inMultiState with
          | true =>
            refine iff_of_true (fun _ => rfl) fun slips => ?_
            exact Bool.false_ne_true (slips.2.1.symm.trans queueing)
          | false =>
            obtain ⟨name, found, flagged⟩ := command_of_readOnly readOnly
            simp only [Bool.false_eq_true, if_false]
            rw [readOnly_same_iff found flagged]
            refine not_congr ⟨fun slips => ⟨authenticated, queueing, space, name, selected,
              found, slips⟩, ?_⟩
            rintro ⟨_, _, _, _, selected', found', slips⟩
            cases selected.symm.trans selected'
            cases found.symm.trans found'
            exact slips

end Exec

def someClient : Conn :=
  ⟨false, false, [], [], ∅, [], 0⟩

def someReplica : Server Digit :=
  ⟨.slaveRole, [oneString], [], false⟩

theorem replica_unchanged_by_get :
    someReplica.Same 0
      (someReplica.exec (fun _ => Env.plain 0) someClient [some (lit "GET"), some (lit "k")]).server := by
  refine (replica_unchanged_iff someReplica someClient [some (lit "GET"), some (lit "k")]
    (fun _ => Env.plain 0) rfl rfl).mpr ?_
  rintro ⟨_, _, _, name, _, found, slips⟩
  have isGet : name = .get := Option.some.inj (found.symm.trans (by decide))
  subst isGet
  exact slips

theorem replica_changed_by_rename :
    someReplica.dbSet.map (fun space => space.seen 0 (lit "k")) =
        [some (.string (some (lit "v")), some 1)] ∧
      (someReplica.exec (fun _ => Env.plain 0) someClient
        [some (lit "RENAME"), some (lit "k"), some (lit "l")]).server.dbSet.map
          (fun space => space.seen 0 (lit "k")) = [none] :=
  ⟨rfl, rfl⟩

end Godis.Database
