import Godis.Cluster.Slots
import Godis.Transition.Reached

/-!
# The index of the keys by slot

Between commands the slots of a node should list the keys of database 0.  A method of a database
that makes a callback keeps it so.  What was loaded before the callbacks were set is not listed, and
a `DB` object that takes the place of another has no callbacks, while the other keeps them and its
expiry jobs.
-/

namespace Godis.Cluster

open Golang Program Database Transition

variable {F : Type} {getSlot : Key → Option Nat}

/-! ## Methods and their callbacks -/

def Tells {α : Type} (slot : Slot F) (effect : Effect F α) : Prop :=
  effect.notes = [] ∧ effect.slot.value.isSome = slot.value.isSome ∨
    effect.notes = [.inserted] ∧ effect.slot.value.isSome = true ∨
    ∃ present, effect.notes = [.deleted present] ∧ effect.slot.value.isSome = false

variable {slot : Slot F}

theorem tells_look {now : Int} {method : Look} : Tells slot (method.exec now slot) := by
  obtain ⟨value, -, _⟩ := slot
  cases method with
  | getEntity =>
    cases value with
    | none => exact .inl ⟨rfl, rfl⟩
    | some value =>
      simp only [Look.exec]
      split
      · exact .inr (.inr ⟨true, rfl, rfl⟩)
      · exact .inl ⟨rfl, rfl⟩
  | isExpired =>
    simp only [Look.exec]
    split
    · exact .inr (.inr ⟨_, rfl, rfl⟩)
    · exact .inl ⟨rfl, rfl⟩
  | peek | deadline | version => exact .inl ⟨rfl, rfl⟩

theorem tells_putEntity {value : Value F} : Tells slot (slot.putEntity value) := by
  obtain ⟨old, -, _⟩ := slot
  cases old with
  | none => exact .inr (.inl ⟨rfl, rfl⟩)
  | some old => exact .inl ⟨rfl, rfl⟩

theorem tells_change {method : Change F} : Tells slot (method.exec slot) := by
  cases method with
  | put value => exact tells_putEntity
  | extend bytes => exact tells_putEntity
  | putIfAbsent value =>
    obtain ⟨old, -, _⟩ := slot
    cases old with
    | none => exact .inr (.inl ⟨rfl, rfl⟩)
    | some old => exact .inl ⟨rfl, rfl⟩
  | putIfExists value =>
    obtain ⟨old, -, _⟩ := slot
    cases old with
    | none | some old => exact .inl ⟨rfl, rfl⟩
  | mutate value => exact .inl ⟨rfl, Option.isSome_map⟩
  | remove => exact .inr (.inr ⟨_, rfl, rfl⟩)
  | expire deadline | persist => exact .inl ⟨rfl, rfl⟩

namespace SlotStatus

variable {key other : Key} {status : SlotStatus}

theorem mem_noted_inserted :
    other ∈ (status.noted key .inserted).keys ↔ other = key ∨ other ∈ status.keys :=
  Finset.mem_insert

theorem mem_noted_deleted {present : Bool} :
    other ∈ (status.noted key (.deleted present)).keys ↔ other ≠ key ∧ other ∈ status.keys :=
  Finset.mem_erase

end SlotStatus

/-! ## One database -/

def SlotsManager.Lists (manager : SlotsManager getSlot) (keys : Finset Key) : Prop :=
  ∀ index key, key ∈ (manager.statusOf index).keys ↔ key ∈ keys ∧ getSlot key = some index

namespace SlotsManager

variable {manager : SlotsManager getSlot} {keys : Finset Key} {key : Key}

variable {keys' : Finset Key} {index : Nat}

theorem Lists.congr (lists : manager.Lists keys)
    (same : ∀ key index, getSlot key = some index → (key ∈ keys' ↔ key ∈ keys)) :
    manager.Lists keys' := by
  intro index key
  rw [lists index key]
  exact and_congr_left fun found => (same key index found).symm

theorem Lists.inserted (lists : manager.Lists keys) (found : getSlot key = some index) :
    (manager.record index key found .inserted).Lists (insert key keys) := by
  intro other key'
  rw [record_statusOf, Finset.mem_insert]
  split
  · rename_i same
    subst same
    rw [SlotStatus.mem_noted_inserted, lists]
    constructor
    · rintro (rfl | ⟨inside, found'⟩)
      · exact ⟨.inl rfl, found⟩
      · exact ⟨.inr inside, found'⟩
    · rintro ⟨rfl | inside, found'⟩
      · exact .inl rfl
      · exact .inr ⟨inside, found'⟩
  · rename_i different
    rw [lists]
    refine and_congr_left fun found' => ⟨.inr, ?_⟩
    rintro (rfl | inside)
    · exact absurd (Option.some.inj (found'.symm.trans found)) different
    · exact inside

theorem Lists.deleted (lists : manager.Lists keys) (found : getSlot key = some index)
    (present : Bool) :
    (manager.record index key found (.deleted present)).Lists (keys.erase key) := by
  intro other key'
  rw [record_statusOf, Finset.mem_erase]
  split
  · rename_i same
    subst same
    rw [SlotStatus.mem_noted_deleted, lists, and_assoc]
  · rename_i different
    rw [lists]
    refine and_congr_left fun found' => ⟨fun inside => ⟨?_, inside⟩, And.right⟩
    rintro rfl
    exact different (Option.some.inj (found'.symm.trans found))

theorem Lists.callback (lists : manager.Lists keys) (note : Note)
    (others : ∀ other ≠ key, (other ∈ keys' ↔ other ∈ keys))
    (told : note = .inserted ∧ key ∈ keys' ∨ (∃ present, note = .deleted present) ∧ key ∉ keys') :
    (manager.callback [] key note).2.Lists keys' := by
  cases found : getSlot key with
  | none =>
    rw [callback_none found]
    refine lists.congr fun other index found' => others other ?_
    rintro rfl
    rw [found] at found'
    cases found'
  | some index =>
    rw [callback_free found List.not_mem_nil]
    rcases told with ⟨rfl, inside⟩ | ⟨⟨present, rfl⟩, outside⟩
    · refine (lists.inserted found).congr fun other _ _ => ?_
      rw [Finset.mem_insert]
      by_cases same : other = key
      · subst same
        exact iff_of_true inside (.inl rfl)
      · rw [others other same, or_iff_right same]
    · refine (lists.deleted found present).congr fun other _ _ => ?_
      rw [Finset.mem_erase]
      by_cases same : other = key
      · subst same
        exact iff_of_false outside fun inside => inside.1 rfl
      · rw [others other same, and_iff_right same]

end SlotsManager

namespace Indexed

variable {α : Type} {state : Indexed F getSlot}

structure Tracked (state : Indexed F getSlot) : Prop where
  hooked : state.db.hooked = true
  lists : state.manager.Lists state.db.space.keys

theorem mem_keys_act {space : Space F} {key : Key} {effect : Effect F α} {other : Key} :
    other ∈ (space.act key effect).2.keys ↔
      if other = key then effect.slot.value.isSome = true else other ∈ space.keys := by
  rw [Space.mem_keys, Space.act, Space.write_slots]
  split
  · rfl
  · exact (space.mem_keys other).symm

variable {effect : Effect F α} {key : Key}

variable {held : List Nat}

theorem act_manager_quiet (quiet : effect.notes = []) :
    (state.act held key effect).2.manager = state.manager := by
  unfold Indexed.act
  rw [quiet]
  rfl

theorem act_manager_note {note : Note} (hooked : state.db.hooked = true)
    (notes : effect.notes = [note]) :
    (state.act held key effect).2.manager = (state.manager.callback held key note).2 := by
  unfold Indexed.act
  rw [notes, callbacks]
  simp only [withSpace, hooked, if_true]
  generalize state.manager.callback held key note = called
  obtain ⟨outcome, _⟩ := called
  cases outcome with
  | ok done => rfl
  | error reason => rfl

theorem Tracked.act (tracked : state.Tracked) (tells : Tells (state.db.space.slots key) effect) :
    (state.act [] key effect).2.Tracked := by
  have db := state.act_db [] key effect
  refine ⟨by rw [db]; exact tracked.hooked, ?_⟩
  rw [db]
  have others : ∀ other ≠ key,
      (other ∈ (state.db.space.act key effect).2.keys ↔ other ∈ state.db.space.keys) := by
    intro other different
    rw [mem_keys_act, if_neg different]
  have here : key ∈ (state.db.space.act key effect).2.keys ↔ effect.slot.value.isSome = true := by
    rw [mem_keys_act, if_pos rfl]
  rcases tells with ⟨quiet, same⟩ | ⟨notes, there⟩ | ⟨present, notes, gone⟩
  · rw [act_manager_quiet quiet]
    refine tracked.lists.congr fun other _ _ => ?_
    by_cases isKey : other = key
    · subst isKey
      rw [here, same, ← state.db.space.mem_keys]
    · exact others other isKey
  · rw [act_manager_note tracked.hooked notes]
    exact tracked.lists.callback _ others (.inl ⟨rfl, here.mpr there⟩)
  · rw [act_manager_note tracked.hooked notes]
    refine tracked.lists.callback _ others (.inr ⟨⟨present, rfl⟩, fun inside => ?_⟩)
    rw [here.mp inside] at gone
    cases gone

theorem Tracked.removeIfPresent (tracked : state.Tracked) (key : Key) :
    (state.removeIfPresent [] key).2.Tracked := by
  unfold Indexed.removeIfPresent
  split
  · exact tracked.act tells_change
  · exact tracked

theorem Tracked.handle (env : Env F) (op : DbOp F) (state : Indexed F getSlot)
    (tracked : state.Tracked) : (Indexed.handle [] env op state).2.Tracked := by
  cases op with
  | look key method => exact tracked.act tells_look
  | change key method => exact tracked.act tells_change
  | move source dest =>
    simp only [Indexed.handle, Indexed.move]
    split
    · exact tracked
    · exact Prog.andThen_preserves (tracked.act tells_putEntity)
        fun _ _ placed => placed.act tells_change
  | replace source dest =>
    simp only [Indexed.handle, Indexed.replace]
    split
    · exact tracked
    · refine Prog.andThen_preserves (tracked.removeIfPresent source) fun _ _ without => ?_
      refine Prog.andThen_preserves (without.removeIfPresent dest) fun _ _ cleared => ?_
      exact Prog.andThen_preserves (cleared.act tells_putEntity) fun _ _ placed => placed
  | log line => exact ⟨tracked.hooked, tracked.lists⟩
  | survey question | ask question => exact tracked

theorem Tracked.perform (env : Env F) (program : DbProg F α) (tracked : state.Tracked) :
    (program.perform (Indexed.handle [] env) state).2.Tracked :=
  Prog.perform_preserves (Tracked.handle env) program tracked

end Indexed

/-! ## A node -/

namespace Host

variable {α : Type} {host : Host F getSlot}

def Exact (host : Host F getSlot) : Prop :=
  host.slotsManager.Lists host.space.keys

theorem Exact.perform (exact_ : host.Exact) (hooked : (host.dbSet 0).hooked = true) (env : Env F)
    (program : DbProg F α) : (host.perform [] env 0 program).2.Exact := by
  have tracked := Indexed.Tracked.perform env program
    (⟨hooked, exact_⟩ : (host.indexed 0).Tracked)
  exact tracked.lists

theorem Exact.addVersion (exact_ : host.Exact) (keys : List Key) :
    (host.setDb 0 { host.dbSet 0 with space := host.space.addVersion keys }).Exact := by
  unfold Exact
  simp only [setDb, space, Function.update_self]
  refine SlotsManager.Lists.congr exact_ fun key _ _ => ?_
  rw [Space.mem_keys, Space.mem_keys, (host.space.addVersion_slot keys key).1]

/-- A key that expires in a database the slots do not list is struck from them. -/
theorem lists_expire {manager : SlotsManager getSlot} {keys : Finset Key} (lists : manager.Lists keys)
    {key : Key} (outside : key ∉ keys) (env : Env F) (db : Db F) :
    ((lookAt key Database.isExpired).perform (Indexed.handle [] env) ⟨db, manager⟩).2.manager.Lists
      keys := by
  have acted : (Indexed.act [] ⟨db, manager⟩ key
      (Look.exec env.now (db.space.slots key) .isExpired)).2.manager.Lists keys := by
    generalize db.space.slots key = slot
    by_cases expired : slot.expired env.now = true
    · have notes : (Look.exec env.now slot .isExpired).notes = [.deleted slot.value.isSome] := by
        simp only [Look.exec, if_pos expired]
      cases hooked : db.hooked with
      | true =>
        rw [Indexed.act_manager_note hooked notes]
        exact lists.callback _ (fun _ _ => Iff.rfl) (.inr ⟨⟨_, rfl⟩, outside⟩)
      | false =>
        rw [Indexed.act_unhooked hooked]
        exact lists
    · have quiet : (Look.exec env.now slot .isExpired).notes = [] := by
        simp only [Look.exec, if_neg expired]
      rw [Indexed.act_manager_quiet quiet]
      exact lists
  let Listing (state : Indexed F getSlot) : Prop := state.manager.Lists keys
  have kept : Listing (Prog.andThen (Indexed.act [] ⟨db, manager⟩ key
      (Look.exec env.now (db.space.slots key) .isExpired)) fun answer state => (.ok answer, state)).2 :=
    Prog.andThen_preserves acted fun _ _ kept => kept
  exact kept

theorem Exact.expire (exact_ : host.Exact) (env : Env F) {dbIndex : Nat} (other : dbIndex ≠ 0)
    {key : Key} (outside : key ∉ host.space.keys) :
    (host.perform [] env dbIndex (lookAt key Database.isExpired)).2.Exact := by
  rw [perform_of_indexed rfl, Exact]
  simp only [withIndexed, setDb, space, Function.update_of_ne other.symm]
  exact lists_expire exact_ outside env (host.dbSet dbIndex)

variable {after : Host F getSlot}

theorem Exact.replaced (exact_ : host.Exact) (sameSlots : after.slotsManager = host.slotsManager)
    (sameKeys : after.space.keys = host.space.keys) : after.Exact := by
  unfold Exact
  rw [sameSlots, sameKeys]
  exact exact_

variable [Float64 F]

theorem Exact.execNormalCommand (exact_ : host.Exact) (hooked : (host.dbSet 0).hooked = true)
    (env : Env F) (line : Line) : (host.execNormalCommand [] env line).2.Exact := by
  unfold Host.execNormalCommand
  cases line with
  | nil => exact exact_
  | cons name args =>
    dsimp only
    split
    · exact exact_
    · split
      · split
        · exact exact_
        · refine (exact_.addVersion _).perform ?_ env _
          simp only [setDb, Function.update_self, hooked]
      · exact exact_

theorem Exact.getUndoLogs (exact_ : host.Exact) (hooked : (host.dbSet 0).hooked = true)
    (env : Env F) (line : Line) : (host.getUndoLogs [] env line).2.Exact := by
  unfold Host.getUndoLogs
  cases line with
  | nil => exact exact_
  | cons name args =>
    dsimp only
    split
    · exact exact_
    · split
      · exact exact_
      · exact exact_.perform hooked env _

end Host

/-! ## Runs -/

/-- A node, with the `DB` objects each replacement has put aside. -/
structure Site (F : Type) (getSlot : Key → Option Nat) where
  host : Host F getSlot
  former : List (Nat → Option (Db F))

namespace Site

/-- What happens on a node: commands, the parts of transactions, keys that are read for a migration,
keys that expire, also in databases put aside, and databases that are replaced. -/
inductive Act (F : Type) where
  | exec (env : Env F) (line : Line)
  | execWithLock (env : Env F) (line : Line)
  | getUndoLogs (env : Env F) (line : Line)
  | addVersion (keys : List Key)
  | getEntity (env : Env F) (key : Key)
  | expire (env : Env F) (dbIndex : Nat) (key : Key)
  | expireFormer (env : Env F) (replacement dbIndex : Nat) (key : Key)
  | flushDB
  | flushAll
  | fullSync (loaded : Nat → Space F)

/-- The function of `DB.Expire`, which belongs to the `DB` object it was called for. -/
def expireFormer (site : Site F getSlot) (env : Env F) (replacement dbIndex : Nat) (key : Key) :
    Option (Site F getSlot) := do
  let dbs ← site.former[replacement]?
  let db ← dbs dbIndex
  let ended := (lookAt key Database.isExpired).perform (Indexed.handle [] env)
    ⟨db, site.host.slotsManager⟩
  some ⟨{ site.host with slotsManager := ended.2.manager },
    site.former.set replacement (Function.update dbs dbIndex (some ended.2.db))⟩

/-- `loadDB` for each database that has a new content. -/
def loadDBs (site : Site F getSlot) (loaded : Nat → Option (Space F)) : Site F getSlot where
  host := { site.host with
    dbSet := fun dbIndex => (loaded dbIndex).elim (site.host.dbSet dbIndex) (⟨·, false⟩) }
  former := site.former ++ [fun dbIndex => (loaded dbIndex).map fun _ => site.host.dbSet dbIndex]

/-- One event; a panic is recovered. -/
def step [Float64 F] (site : Site F getSlot) : Act F → Option (Site F getSlot)
  | .exec env line => some { site with host := (site.host.execNormalCommand [] env line).2 }
  | .execWithLock env line => some { site with host := (site.host.execWithLock [] env line).2 }
  | .getUndoLogs env line => some { site with host := (site.host.getUndoLogs [] env line).2 }
  | .addVersion keys =>
    some { site with
      host := site.host.setDb 0
        { site.host.dbSet 0 with space := site.host.space.addVersion keys } }
  | .getEntity env key =>
    some { site with host := (site.host.perform [] env 0 (lookAt key Database.getEntity)).2 }
  | .expire env dbIndex key =>
    some { site with host := (site.host.perform [] env dbIndex (lookAt key Database.isExpired)).2 }
  | .expireFormer env replacement dbIndex key => site.expireFormer env replacement dbIndex key
  | .flushDB =>
    some (site.loadDBs fun dbIndex =>
      if dbIndex = 0 then some (Server.flushed site.host.space) else none)
  | .flushAll => some (site.loadDBs fun dbIndex => some (Server.flushed (site.host.dbSet dbIndex).space))
  | .fullSync loaded => some (site.loadDBs fun dbIndex => some (loaded dbIndex))

def Started (site : Site F getSlot) : Prop :=
  ∃ requirePass loaded, site = ⟨.start requirePass loaded, []⟩

def StartedEmpty (site : Site F getSlot) : Prop :=
  site.Started ∧ site.host.space.keys = ∅

/-- Commands find the callbacks in database 0, a database with the same keys takes its place, and a
key that expires in another database, or in one put aside, is not in database 0. -/
def Careful (site : Site F getSlot) : Act F → Prop
  | .exec _ _ | .execWithLock _ _ | .getUndoLogs _ _ | .getEntity _ _ =>
    (site.host.dbSet 0).hooked = true
  | .addVersion _ => True
  | .expire _ dbIndex key =>
    if dbIndex = 0 then (site.host.dbSet 0).hooked = true else key ∉ site.host.space.keys
  | .expireFormer _ _ _ key => key ∉ site.host.space.keys
  | .flushDB | .flushAll => site.host.space.keys = ∅
  | .fullSync loaded => (loaded 0).keys = site.host.space.keys

variable {site after : Site F getSlot}

theorem exact_expireFormer (exact_ : site.host.Exact) {env : Env F} {replacement dbIndex : Nat}
    {key : Key} (outside : key ∉ site.host.space.keys)
    (stepped : site.expireFormer env replacement dbIndex key = some after) : after.host.Exact := by
  simp only [expireFormer, Option.bind_eq_bind, Option.bind_eq_some_iff, Option.some.injEq] at stepped
  obtain ⟨dbs, -, db, -, rfl⟩ := stepped
  exact Host.lists_expire exact_ outside env db

theorem exact_step [Float64 F] (exact_ : site.host.Exact) {act : Act F} (careful : site.Careful act)
    (stepped : site.step act = some after) : after.host.Exact := by
  cases act with
  | exec env line =>
    cases stepped
    exact exact_.execNormalCommand careful env line
  | execWithLock env line | getEntity env key =>
    cases stepped
    exact exact_.perform careful env _
  | getUndoLogs env line =>
    cases stepped
    exact exact_.getUndoLogs careful env line
  | addVersion keys =>
    cases stepped
    exact exact_.addVersion keys
  | expire env dbIndex key =>
    cases stepped
    simp only [Careful] at careful
    split at careful
    · rename_i isZero
      subst isZero
      exact exact_.perform careful env _
    · exact exact_.expire env ‹_› careful
  | expireFormer env replacement dbIndex key => exact exact_expireFormer exact_ careful stepped
  | flushDB | flushAll =>
    cases stepped
    exact exact_.replaced rfl careful.symm
  | fullSync loaded =>
    cases stepped
    exact exact_.replaced rfl careful

theorem StartedEmpty.exact (started : site.StartedEmpty) : site.host.Exact := by
  obtain ⟨⟨_, _, rfl⟩, noKeys⟩ := started
  intro index key
  rw [noKeys]
  refine iff_of_false (fun listed => ?_) fun found => ?_
  · cases listed
  · cases found.1

/-- In a run whose steps are all careful, from a start with nothing in database 0, the slots list the
keys of database 0 in every state. -/
theorem exact_of_careful_runs [Float64 F] (reached : Reached step StartedEmpty Careful site) :
    site.host.Exact :=
  reached.invariant (fun _ => StartedEmpty.exact) fun _ _ _ exact_ careful => exact_step exact_ careful

theorem exact_after_expiry :
    ∃ site : Site Digit fun _ => some 0, Reached step StartedEmpty Careful site ∧ site.host.Exact := by
  have started : (⟨.start [] fun _ => Space.empty, []⟩ : Site Digit fun _ => some 0).StartedEmpty :=
    ⟨⟨[], fun _ => Space.empty, rfl⟩, rfl⟩
  have set := (Reached.start started : Reached step StartedEmpty Careful _).step
    (Act.exec (Env.plain 0) (toCmdLineOfStr "set" [lit "k", lit "v", lit "px", lit "1"])) rfl rfl
  have expired := set.step (Act.expire (Env.plain 2000000) 0 (lit "k")) rfl rfl
  exact ⟨_, expired, exact_of_careful_runs expired⟩

def oneKey : Space Digit :=
  Space.empty.write (lit "k") ⟨⟨some (.string (some (lit "v"))), none, 0⟩, []⟩

def empty : Site Digit fun _ => some 0 :=
  ⟨.start [] fun _ => Space.empty, []⟩

/-- A key that was loaded before the start is not listed; one that a full resynchronisation takes
away stays listed, and one that is set after it is not.  One that it brings is struck when it expires
in the database put aside. -/
theorem slots_miss_keys :
    ¬ (.start [] fun _ => oneKey : Host Digit fun _ => some 0).Exact ∧
      (∃ site, [Act.exec (Env.plain 0) (toCmdLineOfStr "set" [lit "k", lit "v"]),
          Act.fullSync fun _ => Space.empty].foldlM step empty = some site ∧ ¬ site.host.Exact) ∧
      (∃ site, [Act.fullSync fun _ => Space.empty,
          Act.exec (Env.plain 0) (toCmdLineOfStr "set" [lit "k", lit "v"])].foldlM step empty =
            some site ∧ ¬ site.host.Exact) ∧
      ∃ site, [Act.exec (Env.plain 0) (toCmdLineOfStr "set" [lit "k", lit "v", lit "px", lit "1"]),
          Act.fullSync fun _ => oneKey, Act.expireFormer (Env.plain 2000000) 0 0 (lit "k")].foldlM
            step empty = some site ∧ ¬ site.host.Exact := by
  refine ⟨fun exact_ => ?_, ⟨_, rfl, fun exact_ => ?_⟩, ⟨_, rfl, fun exact_ => ?_⟩,
    ⟨_, rfl, fun exact_ => ?_⟩⟩
  · exact absurd ((exact_ 0 (lit "k")).mpr ⟨by decide, rfl⟩) (by decide)
  · exact absurd ((exact_ 0 (lit "k")).mp (by decide)).1 (by decide)
  · exact absurd ((exact_ 0 (lit "k")).mpr ⟨by decide, rfl⟩) (by decide)
  · exact absurd ((exact_ 0 (lit "k")).mpr ⟨by decide, rfl⟩) (by decide)

end Site

end Godis.Cluster
