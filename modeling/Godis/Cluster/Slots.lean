import Godis.Cluster.Fsm
import Godis.Database.Server
import Godis.Program.Breaking

/-!
# The slots of a node (`slotsManager` of `cluster/core/migration.go`)

A node keeps an index of its keys by slot.  `DB.PutEntity`, `DB.PutIfAbsent` and `DB.Remove` end
with a callback that takes the mutex of the key's slot and brings the index up to date.  The
callback belongs to a `DB` object, and it panics for a key that has no slot.
-/

namespace Godis.Cluster

open Golang Program Database

/-- `slotStatus.state`, with the keys recorded during an export. -/
inductive SlotPhase where
  | hosting
  | importing
  | exporting (exportSnapshot dirtyKeys : Finset Key)
  deriving DecidableEq

structure SlotStatus where
  state : SlotPhase
  keys : Finset Key
  deriving DecidableEq

namespace SlotPhase

/-- `exportSnapshot`, which is nil outside an export. -/
def exportSnapshot : SlotPhase → Finset Key
  | .exporting snapshot _ => snapshot
  | _ => ∅

/-- `dirtyKeys`, which is nil outside an export. -/
def dirtyKeys : SlotPhase → Finset Key
  | .exporting _ dirty => dirty
  | _ => ∅

def dirtied (key : Key) : SlotPhase → SlotPhase
  | .exporting snapshot dirty => .exporting snapshot (insert key dirty)
  | phase => phase

theorem dirtied_snapshot (phase : SlotPhase) (key : Key) :
    (phase.dirtied key).exportSnapshot = phase.exportSnapshot := by
  cases phase with
  | hosting | importing | exporting snapshot dirty => rfl

theorem mem_dirtied {phase : SlotPhase} {key other : Key}
    (dirty : other ∈ (phase.dirtied key).dirtyKeys) : other = key ∨ other ∈ phase.dirtyKeys := by
  cases phase with
  | hosting | importing => exact .inr dirty
  | exporting snapshot keys => exact Finset.mem_insert.mp dirty

end SlotPhase

namespace SlotStatus

def hosting : SlotStatus :=
  ⟨.hosting, ∅⟩

def noted (status : SlotStatus) (key : Key) : Note → SlotStatus
  | .inserted => ⟨status.state.dirtied key, insert key status.keys⟩
  | .deleted _ => ⟨status.state.dirtied key, status.keys.erase key⟩

def Names (status : SlotStatus) (key : Key) : Prop :=
  key ∈ status.keys ∨ key ∈ status.state.exportSnapshot ∨ key ∈ status.state.dirtyKeys

theorem not_names_hosting {key : Key} : ¬ hosting.Names key := by
  rintro (inside | inside | inside)
  · cases inside
  · cases inside
  · cases inside

theorem Names.of_noted {status : SlotStatus} {key other : Key} {note : Note}
    (names : (status.noted key note).Names other) : other = key ∨ status.Names other := by
  cases note with
  | inserted =>
    rcases names with inside | inside | inside
    · rcases Finset.mem_insert.mp inside with same | inside
      · exact .inl same
      · exact .inr (.inl inside)
    · exact .inr (.inr (.inl (status.state.dirtied_snapshot key ▸ inside)))
    · exact (SlotPhase.mem_dirtied inside).imp_right fun inside => .inr (.inr inside)
  | deleted present =>
    rcases names with inside | inside | inside
    · exact .inr (.inl (Finset.mem_of_mem_erase inside))
    · exact .inr (.inr (.inl (status.state.dirtied_snapshot key ▸ inside)))
    · exact (SlotPhase.mem_dirtied inside).imp_right fun inside => .inr (.inr inside)

end SlotStatus

/-- `slotsManager`: a slot names keys of its own only. -/
structure SlotsManager (getSlot : Key → Option Nat) where
  slots : Nat → Option SlotStatus
  importingTask : Option Raft.MigratingTask
  slot_of_names : ∀ index status key, slots index = some status → status.Names key →
    getSlot key = some index

namespace SlotsManager

variable {getSlot : Key → Option Nat}

def new : SlotsManager getSlot where
  slots _ := none
  importingTask := none
  slot_of_names _ _ _ found := by cases found

/-- `slotsManager.getSlot`, whose new slot shows only where it is stored. -/
def statusOf (manager : SlotsManager getSlot) (index : Nat) : SlotStatus :=
  (manager.slots index).getD .hosting

variable {index : Nat} {key : Key} {held : List Nat} {manager : SlotsManager getSlot} {note : Note}

theorem slot_of_statusOf (manager : SlotsManager getSlot)
    (names : (manager.statusOf index).Names key) : getSlot key = some index := by
  unfold statusOf at names
  cases found : manager.slots index with
  | none =>
    rw [found] at names
    exact absurd names (SlotStatus.not_names_hosting)
  | some status =>
    rw [found] at names
    exact manager.slot_of_names index status key found names

def set (manager : SlotsManager getSlot) (index : Nat) (status : SlotStatus)
    (own : ∀ key, status.Names key → getSlot key = some index) : SlotsManager getSlot where
  slots := Function.update manager.slots index (some status)
  importingTask := manager.importingTask
  slot_of_names other status' key found names := by
    by_cases same : other = index
    · subst same
      rw [Function.update_self] at found
      exact own key (Option.some.inj found ▸ names)
    · rw [Function.update_of_ne same] at found
      exact manager.slot_of_names other status' key found names

def delete (manager : SlotsManager getSlot) (index : Nat) : SlotsManager getSlot where
  slots := Function.update manager.slots index none
  importingTask := manager.importingTask
  slot_of_names other status key found names := by
    by_cases same : other = index
    · subst same
      rw [Function.update_self] at found
      cases found
    · rw [Function.update_of_ne same] at found
      exact manager.slot_of_names other status key found names

def record (manager : SlotsManager getSlot) (index : Nat) (key : Key)
    (found : getSlot key = some index) (note : Note) : SlotsManager getSlot :=
  manager.set index ((manager.statusOf index).noted key note) fun other names => by
    rcases names.of_noted with rfl | names
    · exact found
    · exact manager.slot_of_statusOf names

theorem set_statusOf (manager : SlotsManager getSlot) (index : Nat) (status : SlotStatus)
    (own : ∀ key, status.Names key → getSlot key = some index) (other : Nat) :
    (manager.set index status own).statusOf other =
      if other = index then status else manager.statusOf other := by
  simp only [statusOf, set, Function.update_apply]
  split
  · rfl
  · rfl

variable (found : getSlot key = some index)

theorem record_statusOf (note : Note) {other : Nat} :
    (manager.record index key found note).statusOf other =
      if other = index then (manager.statusOf index).noted key note else manager.statusOf other :=
  manager.set_statusOf index _ _ other

/-- The two callbacks, in a goroutine that holds the mutexes of some slots. -/
def callback (held : List Nat) (manager : SlotsManager getSlot) (key : Key) (note : Note) :
    Except Stop Unit × SlotsManager getSlot :=
  match found : getSlot key with
  | none => (.error .panic, manager)
  | some index =>
    if index ∈ held then (.error .blocked, manager)
    else (.ok (), manager.record index key found note)

theorem callback_none (nowhere : getSlot key = none) :
    manager.callback held key note = (.error .panic, manager) := by
  unfold callback
  split
  · rfl
  · rename_i index found
    rw [nowhere] at found
    cases found

include found in
theorem callback_held (own : index ∈ held) :
    manager.callback held key note = (.error .blocked, manager) := by
  unfold callback
  split
  · rename_i nowhere
    rw [nowhere] at found
    cases found
  · rename_i other found'
    cases found.symm.trans found'
    rw [if_pos own]

theorem callback_free (free : index ∉ held) :
    manager.callback held key note = (.ok (), manager.record index key found note) := by
  unfold callback
  split
  · rename_i nowhere
    rw [nowhere] at found
    cases found
  · rename_i other found'
    cases found.symm.trans found'
    rw [if_neg free]

end SlotsManager

/-! ## Databases with callbacks -/

/-- A `DB` object: what it holds, and whether it carries the callbacks. -/
structure Db (F : Type) where
  space : Space F
  hooked : Bool

structure Indexed (F : Type) (getSlot : Key → Option Nat) where
  db : Db F
  manager : SlotsManager getSlot

namespace Indexed

variable {F α : Type} {getSlot : Key → Option Nat}

def callbacks (held : List Nat) (key : Key) : List Note → Indexed F getSlot →
    Except Stop Unit × Indexed F getSlot
  | [], state => (.ok (), state)
  | note :: rest, state =>
    if state.db.hooked then
      Prog.andThen ((state.manager.callback held key note).1,
        { state with manager := (state.manager.callback held key note).2 }) fun _ state =>
          state.callbacks held key rest
    else state.callbacks held key rest

def withSpace (state : Indexed F getSlot) (space : Space F) : Indexed F getSlot :=
  { state with db := { state.db with space := space } }

def act (held : List Nat) (state : Indexed F getSlot) (key : Key) (effect : Effect F α) :
    Except Stop α × Indexed F getSlot :=
  Prog.andThen ((state.withSpace (state.db.space.act key effect).2).callbacks held key effect.notes)
    fun _ state => (.ok effect.answer, state)

def removeIfPresent (held : List Nat) (state : Indexed F getSlot) (key : Key) :
    Except Stop Unit × Indexed F getSlot :=
  if (state.db.space.slots key).value.isSome then
    state.act held key ((Change.remove (F := F)).exec (state.db.space.slots key))
  else (.ok (), state)

def move (held : List Nat) (source dest : Key) (state : Indexed F getSlot) :
    Except Stop Unit × Indexed F getSlot :=
  match (state.db.space.slots source).value with
  | none => (.ok (), state)
  | some value =>
    Prog.andThen (state.act held dest ((state.db.space.slots dest).putEntity value)) fun _ placed =>
      placed.act held source ((Change.remove (F := F)).exec (placed.db.space.slots source))

def replace (held : List Nat) (source dest : Key) (state : Indexed F getSlot) :
    Except Stop Unit × Indexed F getSlot :=
  match (state.db.space.slots source).value with
  | none => (.ok (), state)
  | some value =>
    Prog.andThen (state.removeIfPresent held source) fun _ state =>
      Prog.andThen (state.removeIfPresent held dest) fun _ cleared =>
        Prog.andThen (cleared.act held dest ((cleared.db.space.slots dest).putEntity value))
          fun _ state => (.ok (), state)

/-- The methods of a database, each with its callbacks, in a goroutine that holds the mutexes of
some slots. -/
def handle (held : List Nat) (env : Env F) :
    Breaker (DbOp.Answer (F := F)) Stop (Indexed F getSlot)
  | .look key method, state =>
    state.act held key (method.exec env.now (state.db.space.slots key))
  | .change key method, state => state.act held key (method.exec (state.db.space.slots key))
  | .move source dest, state => state.move held source dest
  | .replace source dest, state => state.replace held source dest
  | .log line, state =>
    (.ok (), state.withSpace
      { state.db.space with events := state.db.space.events ++ [.logged line] })
  | .survey question, state => (.ok (env.survey state.db.space.keys question), state)
  | .ask question, state => (.ok (env.ask question), state)

section Spaces

variable {held : List Nat} {state after : Indexed F getSlot}

@[simp]
theorem callbacks_db (held : List Nat) (key : Key) (notes : List Note) (state : Indexed F getSlot) :
    (state.callbacks held key notes).2.db = state.db := by
  induction notes generalizing state with
  | nil => rfl
  | cons note rest ih =>
    unfold callbacks
    split
    · generalize state.manager.callback held key note = called
      obtain ⟨outcome, manager⟩ := called
      cases outcome with
      | ok done => exact ih { state with manager := manager }
      | error reason => rfl
    · exact ih state

theorem act_db (held : List Nat) (state : Indexed F getSlot) (key : Key) (effect : Effect F α) :
    (state.act held key effect).2.db =
      { state.db with space := (state.db.space.act key effect).2 } := by
  have same := (state.withSpace (state.db.space.act key effect).2).callbacks_db held key effect.notes
  unfold act
  generalize (state.withSpace (state.db.space.act key effect).2).callbacks held key effect.notes =
    called at same ⊢
  obtain ⟨outcome, _⟩ := called
  cases outcome with
  | ok done | error reason => exact same

variable {effect : Effect F α} {key : Key}

theorem act_silent (same : effect.slot = state.db.space.slots key) (quiet : effect.notes = []) :
    state.act held key effect = (.ok effect.answer, state) := by
  unfold act
  rw [quiet]
  have written : (state.db.space.act key effect).2 = state.db.space := by
    rw [Space.act, quiet, same]
    exact state.db.space.write_read key
  rw [written]
  rfl

theorem callbacks_unhooked {notes : List Note} (unhooked : state.db.hooked = false) : state.callbacks held key notes = (.ok (), state) := by
  induction notes with
  | nil => rfl
  | cons note rest ih =>
    unfold callbacks
    rw [unhooked]
    exact ih

theorem act_unhooked (unhooked : state.db.hooked = false) (key : Key) (effect : Effect F α) :
    state.act held key effect =
      (.ok effect.answer, state.withSpace (state.db.space.act key effect).2) := by
  have still : (state.withSpace (state.db.space.act key effect).2).db.hooked = false := unhooked
  unfold act
  rw [callbacks_unhooked still]
  rfl

theorem act_held {index : Nat} {note : Note} (hooked : state.db.hooked = true)
    (found : getSlot key = some index) (own : index ∈ held) (notes : effect.notes = [note]) :
    (state.act held key effect).1 = .error .blocked := by
  unfold act
  rw [notes, callbacks]
  simp only [withSpace, hooked, if_true, SlotsManager.callback_held found own, Prog.andThen_error]

theorem perform_lookAt {env : Env F} (live : (state.db.space.slots key).Live env.now)
    (program : SlotReader F α) :
    (lookAt key program).perform (handle held env) state =
      (program.eval env (state.db.space.slots key), state) := by
  induction program with
  | pure value => rfl
  | call op next ih =>
    cases op with
    | look method =>
      obtain ⟨same, quiet⟩ := exec_live live method
      change Prog.andThen (state.act held key (method.exec env.now (state.db.space.slots key)))
        _ = _
      rw [act_silent same quiet]
      exact ih _
    | ask question => exact ih _
  | stop reason => rfl

end Spaces

end Indexed

/-! ## The databases of a node -/

/-- The server of a node with the slots of the node.  `getSlot` is `cluster.GetSlot`. -/
structure Host (F : Type) (getSlot : Key → Option Nat) where
  role : Role
  requirePass : Str
  dbSet : Nat → Db F
  slotsManager : SlotsManager getSlot

namespace Host

variable {F α : Type} {getSlot : Key → Option Nat}

/-- `NewCluster`: the callbacks are set in databases that hold what was loaded before. -/
def start (requirePass : Str) (loaded : Nat → Space F) : Host F getSlot :=
  ⟨.masterRole, requirePass, fun index => ⟨loaded index, true⟩, .new⟩

abbrev space (host : Host F getSlot) : Space F :=
  (host.dbSet 0).space

def setDb (host : Host F getSlot) (dbIndex : Nat) (db : Db F) : Host F getSlot :=
  { host with dbSet := Function.update host.dbSet dbIndex db }

def indexed (host : Host F getSlot) (dbIndex : Nat) : Indexed F getSlot :=
  ⟨host.dbSet dbIndex, host.slotsManager⟩

def withIndexed (host : Host F getSlot) (dbIndex : Nat) (state : Indexed F getSlot) :
    Host F getSlot :=
  { host.setDb dbIndex state.db with slotsManager := state.manager }

@[simp]
theorem withIndexed_indexed (host : Host F getSlot) (dbIndex : Nat) :
    host.withIndexed dbIndex (host.indexed dbIndex) = host := by
  simp only [withIndexed, indexed, setDb, Function.update_eq_self]

/-- A program runs on a database, in a goroutine that holds the mutexes of some slots. -/
def perform (held : List Nat) (env : Env F) (dbIndex : Nat) (program : DbProg F α)
    (host : Host F getSlot) : Except Stop α × Host F getSlot :=
  let ended := program.perform (Indexed.handle held env) (host.indexed dbIndex)
  (ended.1, host.withIndexed dbIndex ended.2)

variable {dbIndex : Nat} {env : Env F} {held : List Nat} {host : Host F getSlot}

theorem perform_of_indexed {program : DbProg F α} {ended : Except Stop α × Indexed F getSlot}
    (performed : program.perform (Indexed.handle held env) (host.indexed dbIndex) = ended) :
    host.perform held env dbIndex program = (ended.1, host.withIndexed dbIndex ended.2) := by
  rw [← performed]
  rfl

theorem perform_lookAt {key : Key} (live : ((host.dbSet dbIndex).space.slots key).Live env.now)
    (program : SlotReader F α) :
    host.perform held env dbIndex (lookAt key program) =
      (program.eval env ((host.dbSet dbIndex).space.slots key), host) := by
  rw [perform_of_indexed (Indexed.perform_lookAt live program)]
  exact Prod.ext rfl (host.withIndexed_indexed dbIndex)

variable [Float64 F]

def execNormalCommand (held : List Nat) (env : Env F) (line : Line) (host : Host F getSlot) :
    Except Stop Reply × Host F getSlot :=
  match line with
  | [] => (.error .panic, host)
  | name :: args =>
    match Name.ofText (toLower (str name)) with
    | none => (.ok (.unknownCommand (toLower (str name))), host)
    | some found =>
      if validateArity (command (F := F) found).arity (name :: args) then
        match (command (F := F) found).prepare with
        | none => (.error .panic, host)
        | some prepare =>
          (host.setDb 0 { host.dbSet 0 with
            space := host.space.addVersion (prepare args).1 }).perform held env 0
              (exec (name :: args))
      else (.ok (.argNumErr (toLower (str name))), host)

def execWithLock (held : List Nat) (env : Env F) (line : Line) (host : Host F getSlot) :
    Except Stop Reply × Host F getSlot :=
  host.perform held env 0 (exec line)

def getUndoLogs (held : List Nat) (env : Env F) (line : Line) (host : Host F getSlot) :
    Except Stop (List Line) × Host F getSlot :=
  match line with
  | [] => (.error .panic, host)
  | name :: args =>
    match Name.ofText (toLower (str name)) with
    | none => (.ok [], host)
    | some found =>
      match (command (F := F) found).undo with
      | none => (.ok [], host)
      | some undo => host.perform held env 0 (lookup (undo args))

/-- `cluster.LocalExec` of a command of the table, on a fake connection: it has no password, it is
not the master's, and a panic is recovered. -/
def localExec (held : List Nat) (env : Env F) (line : Line) (host : Host F getSlot) :
    Except Stop Reply × Host F getSlot :=
  if host.requirePass ≠ [] then (.ok (.err "NOAUTH Authentication required"), host)
  else if host.role = .slaveRole ∧ isReadOnlyCommand F (toLower (str (line.headD none))) = false then
    (.ok (.err "READONLY You can't write against a read only slave."), host)
  else
    match host.execNormalCommand held env line with
    | (.error .panic, host) => (.ok (.err "Err unknown"), host)
    | ended => ended

end Host

end Godis.Cluster


