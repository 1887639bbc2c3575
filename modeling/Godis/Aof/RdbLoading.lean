import Godis.Aof.Persister
import Godis.Database.Dump

/-!
# Loading an RDB file (`LoadRDB` of `database/persistence.go`)

Every object the decoder finds is put into its database, and the line for its value is passed on to
the append only file.  The database named there is the `index` of the `DB`, which
`NewStandaloneServer` sets and `MakeAuxiliaryServer` leaves at zero.
-/

namespace Godis.Database

open Golang Program List
open Function (update_of_ne update_self)
open Option (map_eq_some_iff map_some)

variable {F : Type} [Float64 F]

/-! ## The file -/

/-- The data of an object; of other types `LoadRDB` takes no notice. -/
inductive RdbData (F : Type) where
  | string (value : Str)
  | list (values : List Str)
  | hash (fields : Finmap fun _ : Str => Str)
  | set (members : List Str)
  | zset (entries : List (Str × F))
  | other

def RdbData.entity : RdbData F → Option (Value F)
  | .string value => some (.string (some value))
  | .list values => some (.list (values.map some))
  | .hash fields => some (.hash fields)
  | .set members => some (.set (members.foldl (fun set member => insert member set) ∅))
  | .zset entries => some (.zset (entries.foldl (fun scores entry => scores.insert entry.1 entry.2) ∅))
  | .other => none

structure RdbObject (F : Type) where
  dbIndex : Nat
  key : Key
  data : RdbData F
  expiration : Option Int

/-- What a decoder finds in a file: every key once in a database, and lengths that fit into memory. -/
structure Rdb (F : Type) [Float64 F] where
  objects : List (RdbObject F)
  distinct : (objects.map fun object => (object.dbIndex, object.key)).Nodup
  index_lt : ∀ object ∈ objects, object.dbIndex < 2 ^ 63
  sized : ∀ object ∈ objects, ∀ value, object.data.entity = some value →
    ∀ env : Env F, Sized (dumpLine env object.key value)

/-! ## Loading it -/

inductive Loader where
  /-- `NewStandaloneServer` -/
  | startUp
  /-- `makeRdbLoader` -/
  | replica
  deriving DecidableEq, Repr

/-- The field `index` of the `DB` at a place of `dbSet`. -/
def Loader.index : Loader → Nat → Nat
  | .startUp, dbIndex => dbIndex
  | .replica, _ => 0

/-- What is done with an entity; the line is the one passed to `addAof`. -/
def loadEntity (key : Key) (value : Value F) (expiration : Option Int) : SlotProg F Line := do
  let _ ← putEntity value
  match expiration with
  | none => pure ()
  | some deadline => expire deadline
  let line ← look (entityToCmd key value)
  addAof line
  return line

/-- The callback of `LoadRDB`; without a result it panics. -/
def loadObject (loader : Loader) (env : Env F) (object : RdbObject F)
    (state : List (Space F) × Persister) : Option (List (Space F) × Persister) :=
  match state.1[object.dbIndex]? with
  | none => none
  | some space =>
    match object.data.entity with
    | none => some state
    | some value =>
      let ended := (onKey object.key (loadEntity object.key value object.expiration)).run
        (dbHandle env) space
      match ended.1 with
      | .error _ => none
      | .ok line => some (state.1.set object.dbIndex ended.2,
          state.2.writeAof (loader.index object.dbIndex) line)

def loadRDB (loader : Loader) (course : Nat → Env F) : Nat → List (RdbObject F) →
    List (Space F) × Persister → Option (List (Space F) × Persister)
  | _, [], state => some state
  | round, object :: rest, state =>
    (loadObject loader (course round) object state).bind (loadRDB loader course (round + 1) rest)

/-! ## What databases hold -/

abbrev Content (F : Type) := Nat × Key → Option (Value F) × Option Int

def Content.empty : Content F :=
  fun _ => (none, none)

def Slot.content (slot : Slot F) : Option (Value F) × Option Int :=
  (slot.value, slot.deadline)

def Holds (dbSet : List (Space F)) (content : Content F) : Prop :=
  ∀ dbIndex space, dbSet[dbIndex]? = some space →
    ∀ key, (space.slots key).content = content (dbIndex, key)

def Content.place (content : Content F)
    (entries : List ((Nat × Key) × (Option (Value F) × Option Int))) : Content F :=
  entries.foldl (fun content entry => Function.update content entry.1 entry.2) content

variable {entries : List ((Nat × Key) × (Option (Value F) × Option Int))} {content : Content F}
  {dbIndex round before : Nat} {dbSet dbSet' : List (Space F)} {key : Key} {space : Space F}
  {value : Value F} {loader : Loader} {persister persister' : Persister}
  {objects : List (RdbObject F)} {data : RdbData F} {loading last : Loading F}
  {clock : Nat → Moments F} {lines : List Line}

omit [Float64 F] in
theorem place_of_notMem {place : Nat × Key} (absent : place ∉ entries.map Prod.fst)
    (content : Content F) :
    content.place entries place = content place := by
  induction entries generalizing content with
  | nil => rfl
  | cons entry rest ih =>
    rw [map_cons, mem_cons, not_or] at absent
    refine (ih absent.2 _).trans ?_
    exact update_of_ne absent.1 _ _

omit [Float64 F] in
theorem place_of_mem (distinct : (entries.map Prod.fst).Nodup)
    {entry : (Nat × Key) × (Option (Value F) × Option Int)} (member : entry ∈ entries)
    (content : Content F) :
    content.place entries entry.1 = entry.2 := by
  induction entries generalizing content with
  | nil => exact absurd member not_mem_nil
  | cons first rest ih =>
    rw [map_cons, nodup_cons] at distinct
    rcases mem_cons.mp member with rfl | later
    · exact (place_of_notMem distinct.1 _).trans (update_self _ _ _)
    · exact ih distinct.2 later _

omit [Float64 F] in
theorem Holds.set (holds : Holds dbSet content) {after : Space F}
    (selected : dbSet[dbIndex]? = some space) {put : Option (Value F) × Option Int}
    (here : (after.slots key).content = put)
    (others : ∀ other, other ≠ key → (after.slots other).content = (space.slots other).content) :
    Holds (dbSet.set dbIndex after) (Function.update content (dbIndex, key) put) := by
  intro other space' found name
  have inside : dbIndex < dbSet.length := (List.getElem?_eq_some_iff.mp selected).1
  by_cases isIt : dbIndex = other
  · subst isIt
    rw [List.getElem?_set_self inside] at found
    cases found
    by_cases isKey : name = key
    · subst isKey
      rw [update_self]
      exact here
    · rw [update_of_ne (by simp [isKey]), others name isKey]
      exact holds dbIndex space selected name
  · rw [List.getElem?_set_ne isIt] at found
    rw [update_of_ne (by simp [Ne.symm isIt])]
    exact holds other space' found name

omit [Float64 F] in
theorem holds_replicate {databases : Nat} :
    Holds (List.replicate databases (Space.empty : Space F)) Content.empty := by
  intro dbIndex space found key
  rw [List.getElem?_replicate] at found
  split at found
  · cases found
    rfl
  · cases found

/-! ## What has been loaded -/

def RdbObject.loaded (object : RdbObject F) :
    Option ((Nat × Key) × (Option (Value F) × Option Int)) :=
  object.data.entity.map fun value =>
    ((object.dbIndex, object.key), (some value, object.expiration))

def commandsOf (loader : Loader) (course : Nat → Env F) : Nat → List (RdbObject F) →
    List (Nat × Line)
  | _, [] => []
  | round, object :: rest =>
    (object.data.entity.map fun value =>
        (loader.index object.dbIndex, dumpLine (course round) object.key value)).toList ++
      commandsOf loader course (round + 1) rest

variable (env : Env F)

theorem run_loadEntity (key : Key) (dumpable : value.Dumpable)
    (expiration : Option Int) {slot : Slot F} (absent : slot.content = (none, none)) :
    ∃ state, (loadEntity key value expiration).run (slotHandle env) ⟨slot, []⟩ =
        (.ok (dumpLine env key value), state) ∧ state.slot.content = (some value, expiration) := by
  obtain ⟨none_, unlimited⟩ := Prod.mk.inj absent
  rw [loadEntity, Prog.run_bind, run_putEntity_none slot [] none_, Prog.andThen_ok]
  cases expiration with
  | none =>
    rw [Prog.run_bind, run_entityToCmd env key dumpable]
    exact ⟨_, rfl, Prod.ext rfl unlimited⟩
  | some deadline =>
    rw [Prog.run_bind, run_expire, Prog.andThen_ok, Prog.run_bind,
      run_entityToCmd env key dumpable]
    exact ⟨_, rfl, rfl⟩

theorem run_loadEntity_undumpable (key : Key) (undumpable : ¬ value.Dumpable)
    (expiration : Option Int) (state : SlotState F) :
    ∃ reason, ((loadEntity key value expiration).run (slotHandle env) state).1 = .error reason := by
  cases value with
  | zset scores =>
    have stops : (entityToCmd key (.zset scores) : SlotReader F Line) = .stop .panic := by
      rw [entityToCmd, if_pos (not_not.mp undumpable)]
    rw [loadEntity, stops]
    cases expiration with
    | none | some deadline => exact ⟨_, rfl⟩
  | _ => exact absurd trivial undumpable

theorem loadObject_spec {env : Env F} {object : RdbObject F} (holds : Holds dbSet content)
    (absent : content (object.dbIndex, object.key) = (none, none))
    (loads : loadObject loader env object (dbSet, persister) = some (dbSet', persister')) :
    object.dbIndex < dbSet.length ∧
      (object.data.entity = none ∧ dbSet' = dbSet ∧ persister' = persister ∨
        ∃ value, object.data.entity = some value ∧ value.Dumpable ∧ dbSet'.length = dbSet.length ∧
          Holds dbSet' (Function.update content (object.dbIndex, object.key)
            (some value, object.expiration)) ∧
          persister' = persister.writeAof (loader.index object.dbIndex)
            (dumpLine env object.key value)) := by
  unfold loadObject at loads
  cases selected : dbSet[object.dbIndex]? with
  | none =>
    rw [selected] at loads
    cases loads
  | some space =>
    refine ⟨(List.getElem?_eq_some_iff.mp selected).1, ?_⟩
    rw [selected] at loads
    cases entity : object.data.entity with
    | none =>
      rw [entity] at loads
      cases loads
      exact .inl ⟨rfl, rfl, rfl⟩
    | some value =>
      rw [entity] at loads
      dsimp only at loads
      rw [run_onKey] at loads
      by_cases dumpable : value.Dumpable
      · have empty : (space.slots object.key).content = (none, none) :=
          (holds _ _ selected object.key).trans absent
        obtain ⟨_, run, isSlot⟩ :=
          run_loadEntity env object.key dumpable object.expiration empty
        rw [Space.read, run] at loads
        cases loads
        refine .inr ⟨value, rfl, dumpable, List.length_set, ?_, rfl⟩
        refine holds.set selected ?_ fun other different => ?_
        · rw [Space.write_slots_self]
          exact isSlot
        · rw [Space.write_slots_ne _ _ different]
      · obtain ⟨_, stops⟩ := run_loadEntity_undumpable env object.key dumpable
          object.expiration (space.read object.key)
        rw [stops] at loads
        cases loads

theorem loadRDB_spec {course : Nat → Env F}
    (distinct : (objects.map fun object => (object.dbIndex, object.key)).Nodup)
    (holds : Holds dbSet content)
    (absent : ∀ object ∈ objects, content (object.dbIndex, object.key) = (none, none))
    (loads : loadRDB loader course round objects (dbSet, persister) = some (dbSet', persister')) :
    Holds dbSet' (content.place (objects.filterMap RdbObject.loaded)) ∧
      persister' = persister.writeAll (commandsOf loader course round objects) ∧
      dbSet'.length = dbSet.length ∧
      ∀ object ∈ objects, object.dbIndex < dbSet.length ∧
        ∀ value, object.data.entity = some value → value.Dumpable := by
  induction objects generalizing round dbSet persister content with
  | nil =>
    cases loads
    exact ⟨holds, rfl, rfl, fun _ member => absurd member not_mem_nil⟩
  | cons object rest ih =>
    rw [map_cons, nodup_cons] at distinct
    obtain ⟨here, later⟩ := forall_mem_cons.mp absent
    rw [loadRDB, Option.bind_eq_some_iff] at loads
    obtain ⟨⟨_, _⟩, first, loads⟩ := loads
    obtain ⟨inside, ⟨entity, rfl, rfl⟩ | ⟨value, entity, dumpable, length, held, rfl⟩⟩ :=
      loadObject_spec holds here first
    · obtain ⟨_, isPersister, length, each⟩ := ih distinct.2 holds later loads
      refine ⟨?_, ?_, length, forall_mem_cons.mpr ⟨⟨inside, ?_⟩, each⟩⟩
      · rwa [List.filterMap_cons_none (by rw [RdbObject.loaded, entity]; rfl)]
      · rw [commandsOf, entity]
        exact isPersister
      · intro value isValue
        cases entity.symm.trans isValue
    · have apart : ∀ other ∈ rest, Function.update content (object.dbIndex, object.key)
          (some value, object.expiration) (other.dbIndex, other.key) = (none, none) := by
        intro other member
        rw [update_of_ne]
        · exact later other member
        · intro same
          exact distinct.1 (same ▸ mem_map_of_mem member)
      obtain ⟨_, isPersister, length', each⟩ := ih distinct.2 held apart loads
      refine ⟨?_, ?_, length'.trans length, forall_mem_cons.mpr ⟨⟨inside, ?_⟩, ?_⟩⟩
      · rwa [List.filterMap_cons_some (by rw [RdbObject.loaded, entity]; rfl)]
      · rw [commandsOf, entity]
        exact isPersister
      · intro other isValue
        cases entity.symm.trans isValue
        exact dumpable
      · rwa [length] at each

/-! ## Replaying the file -/

theorem execNormalCommand_eq_exec {head : Bytes}
    (prepared : isPrepared F (toLower (str head)) = true) {args : List Bytes} {env : Env F} :
    ∃ keys, execNormalCommand env (head :: args) space =
      (exec (head :: args)).run (dbHandle env) (space.addVersion keys) := by
  unfold isPrepared at prepared
  rw [exec, execWithLock, execNormalCommand]
  cases found : Name.ofText (toLower (str head)) with
  | none =>
    rw [found] at prepared
    cases prepared
  | some name =>
    rw [found] at prepared
    dsimp only at prepared ⊢
    obtain ⟨_, isPrepare⟩ := Option.isSome_iff_exists.mp prepared
    split
    · rw [isPrepare]
      exact ⟨_, rfl⟩
    · exact ⟨[], rfl⟩

theorem dumpLine_prepared (key : Key) (value : Value F) :
    ∃ head args, dumpLine env key value = head :: args ∧
      isPrepared F (toLower (str head)) = true := by
  cases value with
  | string bytes | list elements | set members | hash fields | zset scores => exact ⟨_, _, rfl, rfl⟩

omit [Float64 F] in
theorem readBack_of_some (words : List Str) : readBack (words.map some) = words.map some := by
  rw [readBack, map_map]
  rfl

theorem readBack_dumpLine (key : Key) (entity : data.entity = some value) :
    readBack (dumpLine env key value) = dumpLine env key value := by
  cases data with
  | string bytes =>
    cases entity
    rfl
  | list values =>
    cases entity
    exact readBack_of_some (lit "RPUSH" :: key :: values)
  | hash fields =>
    cases entity
    exact readBack_of_some (lit "HMSET" :: _)
  | set members =>
    cases entity
    exact readBack_of_some (lit "SADD" :: _)
  | zset entries =>
    cases entity
    exact readBack_of_some (lit "ZADD" :: _)
  | other => cases entity

variable {dumping : Env F}

theorem execNormalCommand_dumpLine {env : Env F} (dumpable : value.Dumpable)
    (absent : (space.slots key).content = (none, none)) :
    ∃ reply after, execNormalCommand env (dumpLine dumping key value) space = (.ok reply, after) ∧
      (after.slots key).content =
        (if value.isEmptyCollection then none else some value, none) ∧
      ∀ other, other ≠ key → (after.slots other).content = (space.slots other).content := by
  obtain ⟨_, _, shape, prepared⟩ := dumpLine_prepared dumping key value
  obtain ⟨keys, executed⟩ := execNormalCommand_eq_exec prepared
  have versioned : ∀ other, ((space.addVersion keys).slots other).content =
      (space.slots other).content := fun other => Prod.ext_iff.mpr (space.addVersion_slot keys other)
  obtain ⟨none_, unlimited⟩ := Prod.mk.inj ((versioned key).trans absent)
  rw [← shape] at executed
  cases empty : value.isEmptyCollection with
  | true =>
    obtain ⟨reply, run, -⟩ := run_exec_dumpLine_empty env dumping key empty dumpable
      (space.addVersion keys)
    exact ⟨reply, _, executed.trans run, (versioned key).trans absent,
      fun other _ => versioned other⟩
  | false =>
    obtain ⟨reply, after, run, -, here, others⟩ :=
      loads_dumpLine dumping key empty env (space.addVersion keys) none_
    refine ⟨reply, after, executed.trans run, ?_, fun other different => ?_⟩
    · rw [here, Slot.loaded_of_unlimited unlimited]
      exact Prod.ext rfl unlimited
    · rw [others other different]
      exact versioned other

def RdbObject.replayed (loader : Loader) (object : RdbObject F) :
    Option ((Nat × Key) × (Option (Value F) × Option Int)) :=
  object.data.entity.map fun value =>
    ((loader.index object.dbIndex, object.key),
      (if value.isEmptyCollection then none else some value, none))

theorem load_command (ready : loading.Ready before) (holds : Holds loading.server.dbSet content)
    (fits : dbIndex < 2 ^ 63) (inside : dbIndex < loading.server.dbSet.length)
    (absent : content (dbIndex, key) = (none, none)) (entity : data.entity = some value)
    (dumpable : value.Dumpable) {later : List Line} :
    ∃ round' next, loadLines clock round
        ((Persister.buffer before dbIndex (dumpLine dumping key value)).map readBack ++ later) loading =
        loadLines clock round' later next ∧
      next.Ready dbIndex ∧ next.server.dbSet.length = loading.server.dbSet.length ∧
      Holds next.server.dbSet (Function.update content (dbIndex, key)
        (if value.isEmptyCollection then none else some value, none)) := by
  obtain ⟨_, _, shape, prepared⟩ := dumpLine_prepared dumping key value
  obtain ⟨space, selected⟩ : ∃ space, loading.server.dbSet[dbIndex]? = some space :=
    ⟨_, getElem?_eq_getElem inside⟩
  have empty : (space.slots key).content = (none, none) :=
    (holds _ _ selected key).trans absent
  have put : ∀ (round : Nat) (reached : Loading F), reached.Ready dbIndex →
      reached.server = loading.server → ∃ next,
        loadLines clock round (readBack (dumpLine dumping key value) :: later) reached =
          loadLines clock (round + 1) later next ∧
        next.Ready dbIndex ∧ next.server.dbSet.length = loading.server.dbSet.length ∧
        Holds next.server.dbSet (Function.update content (dbIndex, key)
          (if value.isEmptyCollection then none else some value, none)) := by
    intro round reached ready same
    obtain ⟨_, _, ended, here, others⟩ :=
      execNormalCommand_dumpLine dumpable empty
    rw [readBack_dumpLine dumping key entity, loadLines]
    rw [shape] at ended ⊢
    rw [Loading.exec_prepared ready (same ▸ selected) prepared ended]
    refine ⟨_, rfl, ⟨ready.conn, ready.role, ready.requirePass⟩, ?_, ?_⟩
    · rw [same]
      exact List.length_set
    · rw [same]
      exact holds.set selected here others
  unfold Persister.buffer
  split
  · rename_i same
    obtain ⟨next, run, facts⟩ := put round loading (Int.ofNat.inj same ▸ ready) rfl
    exact ⟨_, next, run, facts⟩
  · have select := Loading.exec_select ready fits inside (clock round)
    obtain ⟨next, run, facts⟩ := put (round + 1) ⟨loading.server, fakeConn dbIndex, dbIndex⟩
      ⟨rfl, ready.role, ready.requirePass⟩ rfl
    refine ⟨round + 2, next, ?_, facts⟩
    rw [← run]
    change loadLines clock round (readBack (selectLine dbIndex) :: _) loading = _
    rw [loadLines, show readBack (selectLine dbIndex) = selectLine dbIndex from rfl, select]
    rfl

theorem load_commands (course : Nat → Env F) (step round : Nat) (clock : Nat → Moments F)
    (ready : loading.Ready before) (holds : Holds loading.server.dbSet content)
    (fits : ∀ object ∈ objects, object.dbIndex < 2 ^ 63)
    (inside : ∀ object ∈ objects, object.dbIndex < loading.server.dbSet.length)
    (dumpable : ∀ object ∈ objects, ∀ value, object.data.entity = some value → value.Dumpable)
    (distinct : ((objects.filterMap (RdbObject.replayed loader)).map Prod.fst).Nodup)
    (absent : ∀ place ∈ (objects.filterMap (RdbObject.replayed loader)).map Prod.fst,
      content place = (none, none)) :
    ∃ last, loadLines clock round
        ((Persister.written before (commandsOf loader course step objects)).map readBack) loading =
        some last ∧ last.server.dbSet.length = loading.server.dbSet.length ∧
      Holds last.server.dbSet (content.place (objects.filterMap (RdbObject.replayed loader))) := by
  induction objects generalizing step round loading before content with
  | nil => exact ⟨loading, rfl, rfl, holds⟩
  | cons object rest ih =>
    obtain ⟨fitsHere, fits⟩ := forall_mem_cons.mp fits
    obtain ⟨insideHere, inside⟩ := forall_mem_cons.mp inside
    obtain ⟨dumpableHere, dumpable⟩ := forall_mem_cons.mp dumpable
    cases entity : object.data.entity with
    | none =>
      have skipped : object.replayed loader = none := by
        rw [RdbObject.replayed, entity]
        rfl
      rw [List.filterMap_cons_none skipped] at distinct absent ⊢
      rw [commandsOf, entity]
      exact ih _ _ ready holds fits inside dumpable distinct absent
    | some value =>
      have placed : object.replayed loader = some ((loader.index object.dbIndex, object.key),
          (if value.isEmptyCollection then none else some value, none)) := by
        rw [RdbObject.replayed, entity]
        rfl
      rw [List.filterMap_cons_some placed] at distinct absent ⊢
      rw [map_cons, nodup_cons] at distinct
      obtain ⟨absentHere, absent⟩ := forall_mem_cons.mp absent
      have fits' : loader.index object.dbIndex < 2 ^ 63 ∧
          loader.index object.dbIndex < loading.server.dbSet.length := by
        cases loader with
        | startUp => exact ⟨fitsHere, insideHere⟩
        | replica => exact ⟨Nat.two_pow_pos 63, Nat.zero_lt_of_lt insideHere⟩
      rw [commandsOf, entity]
      change ∃ last, loadLines clock round ((Persister.buffer before _ _ ++
        Persister.written (loader.index object.dbIndex)
          (commandsOf loader course (step + 1) rest)).map readBack) loading = some last ∧ _
      rw [List.map_append]
      obtain ⟨_, _, run, nextReady, length, held⟩ := load_command ready holds fits'.1
        fits'.2 absentHere entity (dumpableHere value entity)
      rw [run]
      obtain ⟨last, ended, length', held'⟩ := ih _ _ nextReady held fits (length ▸ inside) dumpable
        distinct.2 fun place member => by
          rw [update_of_ne]
          · exact absent place member
          · rintro rfl
            exact distinct.1 member
      exact ⟨last, ended, length'.trans length, held'⟩

def FileLine (F : Type) [Float64 F] (line : Line) : Prop :=
  (∃ dbIndex < 2 ^ 63, line = selectLine dbIndex) ∨
    ∃ head args, line = head :: args ∧ isPrepared F (toLower (str head)) = true

theorem load_refused (refused : loading.server.isAuthenticated loading.conn = false)
    (known : ∀ line ∈ lines, FileLine F line)
    (ended : loadLines clock round lines loading = some last) : last.server = loading.server := by
  induction lines generalizing loading round with
  | nil =>
    cases ended
    rfl
  | cons line rest ih =>
    obtain ⟨here, later⟩ := forall_mem_cons.mp known
    rw [loadLines] at ended
    rcases here with ⟨_, fits, rfl⟩ | ⟨_, _, rfl, prepared⟩
    · rw [Loading.exec_select_refused refused fits] at ended
      refine Eq.trans (ih ?_ later ended) rfl
      exact refused
    · rw [Loading.exec_refused refused prepared] at ended
      exact ih refused later ended

/-- Without a `SELECT` only the database at the start is changed. -/
theorem load_unselected (ready : loading.Ready dbIndex)
    (inside : dbIndex < loading.server.dbSet.length)
    (known : ∀ line ∈ lines, ∃ head args, line = head :: args ∧
      isPrepared F (toLower (str head)) = true)
    (ended : loadLines clock round lines loading = some last) {other : Nat}
    (differs : dbIndex ≠ other) :
    last.server.dbSet[other]? = loading.server.dbSet[other]? := by
  induction lines generalizing loading round with
  | nil =>
    cases ended
    rfl
  | cons line rest ih =>
    obtain ⟨⟨_, _, rfl, prepared⟩, later⟩ := forall_mem_cons.mp known
    rw [loadLines, Option.bind_eq_some_iff] at ended
    obtain ⟨_, first, ended⟩ := ended
    obtain ⟨nextReady, _, isServer⟩ :=
      Loading.exec_prepared_elsewhere ready inside prepared first
    refine (ih nextReady ?_ later ended).trans ?_
    · rwa [isServer, Server.withDb, List.length_set]
    · rw [isServer]
      exact List.getElem?_set_ne differs

/-! ## The file and what has been loaded -/

section Reaching

variable (loader : Loader) (databases : Nat) (requirePass : Str)

variable (F) in
def freshServer : Server F :=
  ⟨.masterRole, List.replicate databases Space.empty, requirePass, true⟩

/-- What can be told of a key: its value and its expiration in milliseconds. -/
def Slot.told (slot : Slot F) : Option (Value F) × Option Int :=
  (slot.value, slot.deadline.map unixMillis)

/-- The file read back into empty databases gives these databases. -/
def ReadBack (clock : Nat → Moments F) (dbSet : List (Space F)) (persister : Persister) : Prop :=
  ∃ loading, loadAof clock 0 persister.aofFile (freshServer F databases requirePass) = some loading ∧
    ∀ (dbIndex : Nat) (key : Key),
      (loading.server.dbSet[dbIndex]?).map (fun space => (space.slots key).told) =
        (dbSet[dbIndex]?).map fun space => (space.slots key).told

def RdbObject.Intact (object : RdbObject F) : Prop :=
  ∀ value, object.data.entity = some value →
    requirePass = [] ∧ object.expiration = none ∧ value.isEmptyCollection = false ∧
      (loader = .startUp ∨ object.dbIndex = 0)

variable {loader databases requirePass}

variable {objects : List (RdbObject F)} {content : Content F} {first second : List (Space F)}
  {object : RdbObject F}

theorem mem_commandsOf {course : Nat → Env F} {step : Nat} {command : Nat × Line}
    (member : command ∈ commandsOf loader course step objects) :
    ∃ object ∈ objects, ∃ value env, object.data.entity = some value ∧
      command = (loader.index object.dbIndex, dumpLine env object.key value) := by
  induction objects generalizing step with
  | nil => exact absurd member not_mem_nil
  | cons object rest ih =>
    rcases mem_append.mp member with here | later
    · obtain ⟨value, entity, rfl⟩ := map_eq_some_iff.mp (Option.mem_toList.mp here)
      exact ⟨object, mem_cons_self, value, _, entity, rfl⟩
    · obtain ⟨other, inside, facts⟩ := ih later
      exact ⟨other, mem_cons_of_mem _ inside, facts⟩

theorem Rdb.fileLine (rdb : Rdb F) (course : Nat → Env F) {line : Line}
    (member : line ∈ Persister.written 0 (commandsOf loader course 0 rdb.objects)) :
    FileLine F line ∧ line ≠ [] ∧ Sized line ∧ readBack line = line := by
  obtain ⟨_, written, isLine⟩ := Persister.mem_written member
  obtain ⟨object, inside, value, env, entity, rfl⟩ := mem_commandsOf written
  rcases isLine with rfl | rfl
  · have fits : loader.index object.dbIndex < 2 ^ 63 := by
      cases loader with
      | startUp => exact rdb.index_lt object inside
      | replica => exact Nat.two_pow_pos 63
    exact ⟨.inl ⟨_, fits, rfl⟩, cons_ne_nil _ _, sized_selectLine fits, rfl⟩
  · obtain ⟨head, args, shape, prepared⟩ := dumpLine_prepared env object.key value
    exact ⟨.inr ⟨head, args, shape, prepared⟩, by rw [shape]; exact cons_ne_nil _ _,
      rdb.sized object inside value entity env, readBack_dumpLine env object.key entity⟩

theorem Rdb.readBack_written (rdb : Rdb F) (course : Nat → Env F) :
    (Persister.written 0 (commandsOf loader course 0 rdb.objects)).map readBack =
      Persister.written 0 (commandsOf loader course 0 rdb.objects) :=
  (map_congr_left fun _ member => (rdb.fileLine course member).2.2.2).trans (map_id _)

theorem Rdb.loadAof_eq (rdb : Rdb F) (course : Nat → Env F) (clock : Nat → Moments F)
    (server : Server F) :
    loadAof clock 0 (Persister.fresh.writeAll (commandsOf loader course 0 rdb.objects)).aofFile server =
      loadLines clock 0 (Persister.written 0 (commandsOf loader course 0 rdb.objects))
        ⟨server, fakeConn 0, 0⟩ := by
  have sound : ∀ line ∈ Persister.written 0 (commandsOf loader course 0 rdb.objects),
      line ≠ [] ∧ Sized line := fun line member =>
    ⟨(rdb.fileLine course member).2.1, (rdb.fileLine course member).2.2.1⟩
  rw [Persister.writeAll_aofFile]
  change loadAof clock 0 ((Persister.written 0 _).flatMap multiBulkBytes) server = _
  rw [loadAof_lines sound, rdb.readBack_written]

section Contents

omit [Float64 F]

theorem told_eq_of_holds (holds : Holds first content) (holds' : Holds second content)
    (length : first.length = second.length) (dbIndex : Nat) (key : Key) :
    (first[dbIndex]?).map (fun space => (space.slots key).told) =
      (second[dbIndex]?).map fun space => (space.slots key).told := by
  by_cases inside : dbIndex < first.length
  · have found := getElem?_eq_getElem inside
    have found' := getElem?_eq_getElem (length ▸ inside)
    have same := (holds _ _ found key).trans (holds' _ _ found' key).symm
    rw [found, found']
    exact congrArg (fun content : Option (Value F) × Option Int =>
      some (content.1, content.2.map unixMillis)) same
  · rw [List.getElem?_eq_none (Nat.le_of_not_lt inside),
      List.getElem?_eq_none (length ▸ Nat.le_of_not_lt inside)]

theorem told_of_holds {content' : Content F} (holds : Holds first content)
    (holds' : Holds second content') {dbIndex : Nat} (inside : dbIndex < first.length)
    (inside' : dbIndex < second.length) {key : Key}
    (same : (first[dbIndex]?).map (fun space => (space.slots key).told) =
      (second[dbIndex]?).map fun space => (space.slots key).told) :
    (content (dbIndex, key)).1 = (content' (dbIndex, key)).1 ∧
      (content (dbIndex, key)).2.map unixMillis = (content' (dbIndex, key)).2.map unixMillis := by
  have found := getElem?_eq_getElem inside
  have found' := getElem?_eq_getElem inside'
  rw [found, found'] at same
  rw [← holds _ _ found key, ← holds' _ _ found' key]
  exact Prod.mk.inj (Option.some.inj same)

variable (distinct : (objects.map fun object => (object.dbIndex, object.key)).Nodup)

include distinct in
theorem nodup_loaded : ((objects.filterMap RdbObject.loaded).map Prod.fst).Nodup := by
  refine List.pairwise_map.mpr ((List.pairwise_map.mp distinct).filterMap _ ?_)
  intro first second apart entry isFirst entry' isSecond
  obtain ⟨_, -, rfl⟩ := map_eq_some_iff.mp isFirst
  obtain ⟨_, -, rfl⟩ := map_eq_some_iff.mp isSecond
  exact apart

include distinct in
theorem loaded_place (inside : object ∈ objects) {value : Value F}
    (entity : object.data.entity = some value) (content : Content F) :
    content.place (objects.filterMap RdbObject.loaded) (object.dbIndex, object.key) =
      (some value, object.expiration) := by
  have member : ((object.dbIndex, object.key), (some value, object.expiration)) ∈
      objects.filterMap RdbObject.loaded :=
    List.mem_filterMap.mpr ⟨object, inside, by rw [RdbObject.loaded, entity]; rfl⟩
  exact place_of_mem (nodup_loaded distinct) member content

theorem replayed_eq
    (placed : ∀ value, object.data.entity = some value → loader.index object.dbIndex = object.dbIndex) :
    object.replayed loader = object.data.entity.map fun value =>
      ((object.dbIndex, object.key), (if value.isEmptyCollection then none else some value, none)) := by
  unfold RdbObject.replayed
  cases entity : object.data.entity with
  | none => rfl
  | some value => rw [placed value entity]

include distinct in
theorem nodup_replayed (placed : ∀ object ∈ objects, ∀ value, object.data.entity = some value →
      loader.index object.dbIndex = object.dbIndex) :
    ((objects.filterMap (RdbObject.replayed loader)).map Prod.fst).Nodup := by
  have same : (objects.filterMap (RdbObject.replayed loader)).map Prod.fst =
      (objects.filterMap RdbObject.loaded).map Prod.fst := by
    rw [List.map_filterMap, List.map_filterMap]
    refine List.filterMap_congr fun object member => ?_
    rw [replayed_eq (placed object member), RdbObject.loaded, Option.map_map, Option.map_map]
    rfl
  rw [same]
  exact nodup_loaded distinct

theorem index_of_right (right : loader = .startUp ∨ object.dbIndex = 0) :
    loader.index object.dbIndex = object.dbIndex := by
  rcases right with rfl | zero
  · rfl
  · rw [zero]
    cases loader with
    | startUp | replica => rfl

end Contents

section Files

variable (rdb : Rdb F) {course : Nat → Env F} (clock : Nat → Moments F) {dbSet : List (Space F)}
variable {persister : Persister}
variable (loads : loadRDB loader course 0 rdb.objects
  (List.replicate databases Space.empty, Persister.fresh) = some (dbSet, persister))

include loads

theorem Rdb.loadRDB_facts :
    Holds dbSet (Content.empty.place (rdb.objects.filterMap RdbObject.loaded)) ∧
      persister = Persister.fresh.writeAll (commandsOf loader course 0 rdb.objects) ∧
      dbSet.length = databases ∧
      ∀ object ∈ rdb.objects, object.dbIndex < databases ∧
        ∀ value, object.data.entity = some value → value.Dumpable := by
  have facts := loadRDB_spec rdb.distinct holds_replicate (fun _ _ => rfl) loads
  rwa [length_replicate] at facts

theorem Rdb.load_placed (open_ : requirePass = [])
    (placed : ∀ object ∈ rdb.objects, ∀ value, object.data.entity = some value →
      loader.index object.dbIndex = object.dbIndex) :
    ∃ last, loadAof clock 0 persister.aofFile (freshServer F databases requirePass) = some last ∧
      last.server.dbSet.length = databases ∧
      Holds last.server.dbSet
        (Content.empty.place (rdb.objects.filterMap (RdbObject.replayed loader))) := by
  obtain ⟨-, rfl, -, each⟩ := rdb.loadRDB_facts loads
  have ready : (⟨freshServer F databases requirePass, fakeConn 0, 0⟩ : Loading F).Ready 0 :=
    ⟨rfl, rfl, open_⟩
  have length : (freshServer F databases requirePass).dbSet.length = databases :=
    length_replicate
  obtain ⟨last, ended, length', held⟩ := load_commands course 0 0 clock ready
    holds_replicate rdb.index_lt
    (fun object member => by rw [length]; exact (each object member).1)
    (fun object member => (each object member).2) (nodup_replayed rdb.distinct placed)
    fun _ _ => rfl
  refine ⟨last, ?_, length'.trans length, held⟩
  rw [rdb.loadAof_eq, ← rdb.readBack_written]
  exact ended

variable {object : RdbObject F} {value : Value F}

theorem Rdb.found_of_readBack {last : Loading F} (inside : object ∈ rdb.objects)
    (entity : object.data.entity = some value) (same : ∀ (dbIndex : Nat) (key : Key),
      (last.server.dbSet[dbIndex]?).map (fun space => (space.slots key).told) =
        (dbSet[dbIndex]?).map fun space => (space.slots key).told) :
    ∃ space, last.server.dbSet[object.dbIndex]? = some space ∧
      (space.slots object.key).told = (some value, object.expiration.map unixMillis) := by
  obtain ⟨held, -, length, each⟩ := rdb.loadRDB_facts loads
  have there := getElem?_eq_getElem (length ▸ (each object inside).1)
  have loaded := (held _ _ there object.key).trans (loaded_place rdb.distinct inside entity _)
  have told := same object.dbIndex object.key
  rw [there, map_some, map_eq_some_iff] at told
  obtain ⟨space, selected, isTold⟩ := told
  refine ⟨space, selected, isTold.trans ?_⟩
  exact congrArg (fun content : Option (Value F) × Option Int =>
    (content.1, content.2.map unixMillis)) loaded

omit [Float64 F] loads in
theorem untold_of_fresh {dbIndex : Nat} {key : Key} {space : Space F}
    (selected : (freshServer F databases requirePass).dbSet[dbIndex]? = some space) :
    (space.slots key).told = (none, none) :=
  congrArg (fun content : Option (Value F) × Option Int => (content.1, content.2.map unixMillis))
    (holds_replicate _ _ selected key)

variable (read : ReadBack databases requirePass clock dbSet persister)

include read in
theorem Rdb.open_of_readBack (inside : object ∈ rdb.objects)
    (entity : object.data.entity = some value) : requirePass = [] := by
  by_contra closed
  obtain ⟨last, ended, same⟩ := read
  obtain ⟨_, selected, told⟩ := rdb.found_of_readBack loads inside entity same
  obtain ⟨-, rfl, -, -⟩ := rdb.loadRDB_facts loads
  rw [rdb.loadAof_eq] at ended
  have refused : (freshServer F databases requirePass).isAuthenticated (fakeConn 0) = false := by
    have other : ¬ ([] : Str) = requirePass := fun same => closed same.symm
    simp [Server.isAuthenticated, freshServer, fakeConn, closed, other]
  have unchanged : last.server = freshServer F databases requirePass :=
    load_refused refused (fun line member => (rdb.fileLine course member).1) ended
  rw [unchanged] at selected
  cases (untold_of_fresh selected).symm.trans told

include read in
theorem Rdb.index_of_readBack (inside : object ∈ rdb.objects)
    (entity : object.data.entity = some value) : loader = .startUp ∨ object.dbIndex = 0 := by
  have open_ := rdb.open_of_readBack clock loads read inside entity
  cases loader with
  | startUp => exact .inl rfl
  | replica =>
    by_contra elsewhere
    have differs : 0 ≠ object.dbIndex := fun same => elsewhere (.inr same.symm)
    obtain ⟨_, ended, same⟩ := read
    obtain ⟨_, selected, told⟩ := rdb.found_of_readBack loads inside entity same
    obtain ⟨-, rfl, -, each⟩ := rdb.loadRDB_facts loads
    have unselected : Persister.written ((0 : Nat) : Int) (commandsOf .replica course 0 rdb.objects) =
        (commandsOf .replica course 0 rdb.objects).map Prod.snd := by
      refine Persister.written_unselected fun command member => ?_
      obtain ⟨_, -, _, _, -, rfl⟩ := mem_commandsOf member
      rfl
    have prepared : ∀ line ∈ (commandsOf .replica course 0 rdb.objects).map Prod.snd,
        ∃ head args, line = head :: args ∧ isPrepared F (toLower (str head)) = true := by
      intro line member
      obtain ⟨_, written, rfl⟩ := mem_map.mp member
      obtain ⟨other, -, held, env, -, rfl⟩ := mem_commandsOf written
      exact dumpLine_prepared env other.key held
    rw [rdb.loadAof_eq] at ended
    have positive : 0 < (freshServer F databases requirePass).dbSet.length := by
      rw [freshServer, length_replicate]
      exact Nat.zero_lt_of_lt (each object inside).1
    have unchanged := load_unselected ⟨rfl, rfl, open_⟩ positive prepared
      (unselected ▸ ended) differs
    rw [unchanged] at selected
    cases (untold_of_fresh selected).symm.trans told

include read in
theorem Rdb.intact_of_readBack (inside : object ∈ rdb.objects) : object.Intact loader requirePass := by
  intro value entity
  obtain ⟨held, -, length, each⟩ := rdb.loadRDB_facts loads
  have open_ := rdb.open_of_readBack clock loads read inside entity
  have placed : ∀ object ∈ rdb.objects, ∀ value, object.data.entity = some value →
      loader.index object.dbIndex = object.dbIndex := fun object inside value entity =>
    index_of_right (rdb.index_of_readBack clock loads read inside entity)
  have right := rdb.index_of_readBack clock loads read inside entity
  obtain ⟨_, ended, same⟩ := read
  obtain ⟨_, ended', length', held'⟩ := rdb.load_placed clock loads open_ placed
  cases ended.symm.trans ended'
  have member : ((object.dbIndex, object.key),
      (if value.isEmptyCollection then none else some value, none)) ∈
        rdb.objects.filterMap (RdbObject.replayed loader) := by
    refine List.mem_filterMap.mpr ⟨object, inside, ?_⟩
    rw [replayed_eq (placed object inside), entity]
    rfl
  obtain ⟨values, deadlines⟩ := told_of_holds held' held (length' ▸ (each object inside).1)
    (length ▸ (each object inside).1) (same object.dbIndex object.key)
  have replayed := place_of_mem (nodup_replayed rdb.distinct placed) member Content.empty
  have loaded := loaded_place rdb.distinct inside entity Content.empty
  rw [replayed, loaded] at values deadlines
  refine ⟨open_, ?_, ?_, right⟩
  · exact Option.map_eq_none_iff.mp deadlines.symm
  · cases empty : value.isEmptyCollection with
    | false => rfl
    | true =>
      rw [empty] at values
      cases values

theorem Rdb.readBack_of_intact (intact : ∀ object ∈ rdb.objects, object.Intact loader requirePass) :
    ReadBack databases requirePass clock dbSet persister := by
  obtain ⟨held, isPersister, length, -⟩ := rdb.loadRDB_facts loads
  by_cases open_ : requirePass = []
  · obtain ⟨last, ended, length', held'⟩ := rdb.load_placed clock loads open_
      fun object inside value entity => index_of_right (intact object inside value entity).2.2.2
    have same : rdb.objects.filterMap (RdbObject.replayed loader) =
        rdb.objects.filterMap RdbObject.loaded := by
      refine List.filterMap_congr fun object inside => ?_
      unfold RdbObject.replayed RdbObject.loaded
      cases entity : object.data.entity with
      | none => rfl
      | some value =>
        obtain ⟨-, unlimited, filled, right⟩ := intact object inside value entity
        rw [map_some, index_of_right right, unlimited, filled]
        rfl
    rw [same] at held'
    exact ⟨last, ended, told_eq_of_holds held' held (length'.trans length.symm)⟩
  · have nothing : ∀ object ∈ rdb.objects, object.data.entity = none := by
      intro object inside
      cases entity : object.data.entity with
      | none => rfl
      | some value => exact absurd (intact object inside value entity).1 open_
    have silent : commandsOf loader course 0 rdb.objects = [] := by
      refine List.eq_nil_iff_forall_not_mem.mpr fun command member => ?_
      obtain ⟨object, inside, _, _, entity, -⟩ := mem_commandsOf member
      cases (nothing object inside).symm.trans entity
    have empty : rdb.objects.filterMap RdbObject.loaded = [] := by
      refine List.filterMap_eq_nil_iff.mpr fun object inside => ?_
      rw [RdbObject.loaded, nothing object inside]
      rfl
    rw [empty] at held
    refine ⟨⟨freshServer F databases requirePass, fakeConn 0, 0⟩, ?_,
      told_eq_of_holds holds_replicate held ?_⟩
    · rw [isPersister, silent]
      rfl
    · rw [length]
      exact length_replicate

end Files

/-- The file gives back what has been loaded where no object has an expiration or is an empty
collection, and the databases are those of a server at its start or all objects are in database 0;
and where no password is set. -/
theorem Rdb.readBack_iff (rdb : Rdb F) {course : Nat → Env F} (clock : Nat → Moments F)
    {dbSet : List (Space F)} {persister : Persister}
    (loads : loadRDB loader course 0 rdb.objects
      (List.replicate databases Space.empty, Persister.fresh) = some (dbSet, persister)) :
    ReadBack databases requirePass clock dbSet persister ↔
      ∀ object ∈ rdb.objects, object.Intact loader requirePass :=
  ⟨fun read _ inside => rdb.intact_of_readBack clock loads read inside,
    rdb.readBack_of_intact clock loads⟩

end Reaching

/-! ## Witnesses -/

def stringRdb (dbIndex : Nat) (fits : dbIndex < 2 ^ 63) (expiration : Option Int) : Rdb Digit where
  objects := [⟨dbIndex, lit "k", .string (lit "v"), expiration⟩]
  distinct := List.nodup_singleton _
  index_lt object member := by
    cases List.mem_singleton.mp member
    exact fits
  sized object member value entity env := by
    cases List.mem_singleton.mp member
    cases entity
    exact (⟨by decide, by decide⟩ : Sized [some (lit "SET"), some (lit "k"), some (lit "v")])

def severalRdb : Rdb Digit where
  objects := [⟨0, lit "k", .string (lit "v"), none⟩, ⟨0, lit "l", .list [lit "a", lit "b"], none⟩,
    ⟨3, lit "k", .string (lit "w"), none⟩]
  distinct := by decide
  index_lt := by simp
  sized object member value entity env := by
    simp only [mem_cons, not_mem_nil, or_false] at member
    rcases member with rfl | rfl | rfl
    · cases entity
      exact (⟨by decide, by decide⟩ : Sized [some (lit "SET"), some (lit "k"), some (lit "v")])
    · cases entity
      exact (⟨by decide, by decide⟩ :
        Sized [some (lit "RPUSH"), some (lit "l"), some (lit "a"), some (lit "b")])
    · cases entity
      exact (⟨by decide, by decide⟩ : Sized [some (lit "SET"), some (lit "k"), some (lit "w")])

/-- Objects of two types and two databases, loaded at the start. -/
theorem string_read_back :
    ∃ dbSet persister, ReadBack 16 [] (fun _ _ => Env.plain 0) dbSet persister ∧
      loadRDB .startUp (fun _ => Env.plain 0) 0 severalRdb.objects
        (List.replicate 16 Space.empty, Persister.fresh) = some (dbSet, persister) := by
  obtain ⟨dbSet, persister, loads⟩ : ∃ dbSet persister,
      loadRDB .startUp (fun _ => Env.plain 0) 0 severalRdb.objects
        (List.replicate 16 Space.empty, Persister.fresh) = some (dbSet, persister) := ⟨_, _, rfl⟩
  refine ⟨dbSet, persister, (Rdb.readBack_iff _ _ loads).mpr ?_, loads⟩
  intro object inside value entity
  have plain : object.expiration = none ∧ object.data.entity.any (·.isEmptyCollection) = false := by
    have all : ∀ object ∈ severalRdb.objects, object.expiration = none ∧
        object.data.entity.any (·.isEmptyCollection) = false := by decide
    exact all object inside
  rw [entity] at plain
  exact ⟨rfl, plain.1, plain.2, .inl rfl⟩

theorem not_readBack_of_not_intact {loader : Loader} (rdb : Rdb Digit)
    (loads : (loadRDB loader (fun _ => Env.plain 0) 0 rdb.objects
      (List.replicate 16 Space.empty, Persister.fresh)).isSome = true) {object : RdbObject Digit}
    (inside : object ∈ rdb.objects) (broken : ¬ object.Intact loader []) :
    ∃ dbSet persister, loadRDB loader (fun _ => Env.plain 0) 0 rdb.objects
        (List.replicate 16 Space.empty, Persister.fresh) = some (dbSet, persister) ∧
      ¬ ReadBack 16 [] (fun _ _ => Env.plain 0) dbSet persister := by
  obtain ⟨⟨dbSet, persister⟩, loads⟩ := Option.isSome_iff_exists.mp loads
  exact ⟨dbSet, persister, loads, fun read => broken (rdb.intact_of_readBack _ loads read inside)⟩

/-- An expiration is lost, and so is the database at a replica. -/
theorem string_not_read_back :
    (∃ dbSet persister, loadRDB .startUp (fun _ => Env.plain 0) 0
        (stringRdb 0 (by decide) (some 1000000)).objects
        (List.replicate 16 Space.empty, Persister.fresh) = some (dbSet, persister) ∧
      ¬ ReadBack 16 [] (fun _ _ => Env.plain 0) dbSet persister) ∧
    ∃ dbSet persister, loadRDB .replica (fun _ => Env.plain 0) 0
        (stringRdb 3 (by decide) none).objects
        (List.replicate 16 Space.empty, Persister.fresh) = some (dbSet, persister) ∧
      ¬ ReadBack 16 [] (fun _ _ => Env.plain 0) dbSet persister := by
  constructor
  · refine not_readBack_of_not_intact _ rfl mem_cons_self fun intact => ?_
    cases (intact _ rfl).2.1
  · refine not_readBack_of_not_intact _ rfl mem_cons_self fun intact => ?_
    rcases (intact _ rfl).2.2.2 with other | other
    · cases other
    · cases other

end Godis.Database

