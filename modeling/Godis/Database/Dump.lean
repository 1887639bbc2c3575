import Godis.Aof.KeyLogs
import Godis.Database.Emptying
import Godis.Database.Undo

/-!
# Loading a dump

The line `EntityToCmd` makes for a value puts that value back where there is none, and the line
`toTTLCmd` makes for a deadline puts its whole milliseconds back.
-/

namespace Godis.Database

open Golang Program List
open Prog (andThen_ok run_bind)

variable {F α : Type}

section Values

theorem pairs_flatMap {items : List α} (first second : α → Bytes) :
    pairs (items.flatMap fun item => [first item, second item]) =
      items.map fun item => (first item, second item) := by
  induction items with
  | nil => rfl
  | cons item rest ih =>
    rw [map_cons, ← ih]
    rfl

theorem foldl_insert_members (added : List Bytes) (members : Finset Str) :
    added.foldl (fun members member => insert (str member) members) members =
      members ∪ (added.map str).toFinset := by
  induction added generalizing members with
  | nil => simp
  | cons first rest ih =>
    rw [foldl_cons, ih]
    ext _
    simp only [Finset.mem_union, Finset.mem_insert, mem_toFinset, map_cons,
      mem_cons]
    tauto

variable {β : Type}

theorem lookup_insertAll (map : Finmap fun _ : Str => β) (values : Str → β) {names : List Str}
    {other : Str} :
    (names.foldl (fun map name => map.insert name (values name)) map).lookup other =
      if other ∈ names then some (values other) else map.lookup other := by
  induction names generalizing map with
  | nil => rfl
  | cons first rest ih =>
    rw [foldl_cons, ih]
    by_cases later : other ∈ rest
    · rw [if_pos later, if_pos (mem_cons_of_mem _ later)]
    · rw [if_neg later]
      by_cases same : other = first
      · subst same
        rw [Finmap.lookup_insert, if_pos mem_cons_self]
      · rw [Finmap.lookup_insert_of_ne _ same,
          if_neg fun member => (mem_cons.mp member).elim same later]

theorem insertAll_keys {map : Finmap fun _ : Str => β} {names : List Str} (zero : β)
    (all : ∀ name, name ∈ names ↔ name ∈ map.keys) :
    names.foldl (fun grown name => grown.insert name ((map.lookup name).getD zero)) ∅ = map := by
  apply Finmap.ext_lookup
  intro other
  rw [lookup_insertAll ∅ fun name => (map.lookup name).getD zero]
  split
  · rename_i member
    obtain ⟨_, found⟩ := Finmap.mem_iff.mp (Finmap.mem_keys.mp ((all other).mp member))
    rw [found, Option.getD_some]
  · rename_i absent
    have notKey : other ∉ map := fun inside => absent ((all other).mpr (Finmap.mem_keys.mpr inside))
    rw [Finmap.lookup_empty, Finmap.lookup_eq_none.mpr notKey]

variable [Float64 F]

theorem score_of_mem_ranked {scores : Scores F} {element : Element Str F}
    (member : element ∈ ranked scores) :
    element.score = (scores.lookup element.member).getD Float64.zero := by
  obtain ⟨_, inside, rfl⟩ := mem_map.mp member
  obtain ⟨_, -, rfl⟩ := Finset.mem_image.mp (mem_sorted.mp inside)
  rfl

theorem insertAll_ranked (scores : Scores F) :
    (ranked scores).reverse.foldl
      (fun grown element => grown.insert element.member element.score) ∅ = scores := by
  have names : ∀ name, name ∈ ((ranked scores).reverse.map Element.member) ↔ name ∈ scores.keys := by
    intro name
    rw [← toFinset_ranked, mem_toFinset, List.map_reverse, mem_reverse]
  refine Eq.trans ?_ (insertAll_keys Float64.zero names)
  rw [List.foldl_map]
  refine List.foldl_ext _ _ _ fun grown element member => ?_
  rw [score_of_mem_ranked (mem_reverse.mp member)]

end Values

/-! ## Executors at a key that is absent -/

section Slots

variable {slot : Slot F} (env : Env F)

theorem run_getOrInit_absent (absent : slot.value = none) (view : Value F → Option α)
    (make : α → Value F) (initial : α) :
    ∃ events, (getOrInit view make initial).run (slotHandle env) ⟨slot, []⟩ =
      (.ok (.ok initial), ⟨slot.withValue (make initial), events⟩) := by
  have unseen : slot.seen env.now = none := Slot.seen_of_none absent
  have opened : (Look.exec env.now slot .getEntity).slot = slot := Slot.opened_of_none absent
  rw [getOrInit, run_bind, run_getAs_seen, andThen_ok, unseen]
  simp only [Option.map_none, viewed]
  rw [run_bind, opened, run_putEntity_none _ _ absent]
  exact ⟨_, rfl⟩

theorem run_execRPush_absent (absent : slot.value = none) (key : Bytes) (values : List Bytes) :
    ∃ events, (execRPush (key :: values)).run (slotHandle env) ⟨slot, []⟩ =
      (.ok (.int values.length), ⟨slot.withValue (.list values), events⟩) := by
  obtain ⟨_, created⟩ := run_getOrInit_absent env absent Value.asList .list []
  rw [execRPush, getOrInitList, run_bind, created]
  exact ⟨_, rfl⟩

theorem run_execSAdd_absent (absent : slot.value = none) (key : Bytes) (added : List Bytes) :
    ∃ count events, (execSAdd (key :: added)).run (slotHandle env) ⟨slot, []⟩ =
      (.ok (.int count), ⟨slot.withValue (.set (added.map str).toFinset), events⟩) := by
  obtain ⟨_, created⟩ := run_getOrInit_absent env absent Value.asSet .set ∅
  have grown := foldl_insert_members added ∅
  rw [execSAdd, getOrInitSet, run_bind, created, andThen_ok]
  dsimp only
  rw [grown]
  exact ⟨_, _, rfl⟩

theorem run_execHMSet_absent (absent : slot.value = none) (key : Bytes) {more : List Bytes}
    (even : more.length % 2 = 0) :
    ∃ events, (execHMSet (key :: more)).run (slotHandle env) ⟨slot, []⟩ =
      (.ok .ok, ⟨slot.withValue (.hash ((pairs more).foldl
        (fun fields pair => fields.insert (str pair.1) (str pair.2)) ∅)), events⟩) := by
  obtain ⟨_, created⟩ := run_getOrInit_absent env absent Value.asDict .hash ∅
  rw [execHMSet, if_neg (not_not.mpr even), getOrInitDict, run_bind, created]
  exact ⟨_, rfl⟩

variable [Float64 F]
variable (elements : List (Element Str F))

theorem parseEach_format :
    (parseEach parseElement (elements.map fun element =>
      (some (Float64.format element.score), some element.member)) : SlotReader F _) =
        return .ok elements := by
  induction elements with
  | nil => rfl
  | cons first rest ih =>
    have read : (Float64.parse (str (some (Float64.format first.score))) : Option (Option F)) =
        some (some first.score) := Float64.parse_format first.score
    rw [map_cons, parseEach, parseElement, read]
    rw [pure_bind]
    dsimp only
    rw [ih]
    rfl

theorem run_execZAdd_absent (absent : slot.value = none) (key : Bytes)
    (elements : List (Element Str F)) :
    ∃ count events, (execZAdd (key :: elements.flatMap fun element =>
      [some (Float64.format element.score), some element.member])).run (slotHandle env) ⟨slot, []⟩ =
        (.ok (.int count), ⟨slot.withValue (.zset (elements.foldl
          (fun scores element => scores.insert element.member element.score) ∅)), events⟩) := by
  obtain ⟨_, created⟩ := run_getOrInit_absent env absent Value.asSortedSet .zset ∅
  have even : ¬ (elements.flatMap fun element =>
      [some (Float64.format element.score), some element.member]).length % 2 ≠ 0 := by
    simp [List.length_flatMap]
  rw [execZAdd, if_neg even, pairs_flatMap, parseEach_format]
  change ∃ count events, (addElements "zadd" _ elements).run (slotHandle env) ⟨slot, []⟩ = _
  rw [addElements, getOrInitSortedSet, run_bind, created]
  exact ⟨_, _, rfl⟩

end Slots

/-! ## The lines -/

section Lines

variable [Float64 F] (env : Env F) (space : Space F)

variable {body : List Bytes → SlotProg F Reply} {more : List Bytes} {word : Bytes}

theorem run_exec_changeKey (name : Name) {key : Bytes}
    (found : commandOf (word :: key :: more) = some name)
    (executes : (command (F := F) name).executor = .changeKey body)
    (counted : validateArity (command (F := F) name).arity (word :: key :: more) = true) :
    (exec (word :: key :: more)).run (dbHandle env) space =
      (((body (key :: more)).run (slotHandle env) (space.read (str key))).1,
        space.write (str key) ((body (key :: more)).run (slotHandle env) (space.read (str key))).2) := by
  rw [exec_eq found counted, executes]
  exact run_onKey

/-- A string comes without a deadline, other values leave one that a key without a value has. -/
def Slot.loaded (slot : Slot F) : Value F → Slot F
  | .string bytes => ⟨some (.string bytes), none, slot.version⟩
  | value => slot.withValue value

omit [Float64 F] in
theorem Slot.loaded_of_unlimited {slot : Slot F} (unlimited : slot.deadline = none) {value : Value F} :
    slot.loaded value = slot.withValue value := by
  cases value with
  | string bytes => rw [loaded, withValue, unlimited]
  | _ => rfl

def Loads (line : Line) (key : Key) (value : Value F) : Prop :=
  ∀ (env : Env F) (space : Space F), (space.slots key).value = none →
    ∃ reply after, (exec line).run (dbHandle env) space = (.ok reply, after) ∧
      reply.isError = false ∧ after.slots key = (space.slots key).loaded value ∧
      ∀ other, other ≠ key → after.slots other = space.slots other

theorem loads_changeKey {name : Name} {key : Key} {value : Value F}
    (found : commandOf (word :: some key :: more) = some name)
    (executes : (command (F := F) name).executor = .changeKey body)
    (counted : validateArity (command (F := F) name).arity (word :: some key :: more) = true)
    (does : ∀ (env : Env F) (slot : Slot F), slot.value = none →
      ∃ reply state, (body (some key :: more)).run (slotHandle env) ⟨slot, []⟩ = (.ok reply, state) ∧
        reply.isError = false ∧ state.slot = slot.loaded value) :
    Loads (word :: some key :: more) key value := by
  intro env space absent
  obtain ⟨reply, state, run, fine, isSlot⟩ := does env (space.slots key) absent
  have executed := run_exec_changeKey env space name found executes counted
  have here : (body (some key :: more)).run (slotHandle env) (space.read (str (some key))) =
      (.ok reply, state) := run
  rw [here] at executed
  refine ⟨reply, _, executed, fine, ?_, fun other different => ?_⟩
  · exact (Space.write_slots_self _).trans isSlot
  · exact Space.write_slots_ne _ _ different

section Dumps

variable (dumping : Env F) (key : Key)

theorem loads_string (bytes : Bytes) :
    Loads (dumpLine dumping key (.string bytes)) key (.string bytes : Value F) := by
  refine loads_changeKey rfl rfl rfl fun env slot absent => ?_
  have options : setOptions [] .upsert 0 = .ok (.upsert, 0) := rfl
  obtain ⟨replied, isSlot⟩ := run_execSet_upsert options
  exact ⟨.ok, _, Prod.ext replied rfl, rfl, isSlot⟩

theorem loads_list {elements : List Bytes} (some_ : elements ≠ []) :
    Loads (dumpLine dumping key (.list elements)) key (.list elements : Value F) := by
  refine loads_changeKey rfl rfl ?_ fun env slot absent => ?_
  · change validateArity (-3) (_ :: some key :: elements) = true
    have positive := length_pos_iff.mpr some_
    refine validateArity_of_le (by decide) ?_
    rw [length_cons, length_cons]
    omega
  · obtain ⟨_, run⟩ := run_execRPush_absent env absent (some key) elements
    exact ⟨_, _, run, rfl, rfl⟩

omit [Float64 F] in
theorem length_order {members : Finset Str} : (dumping.order members).length = members.card := by
  rw [← List.toFinset_card_of_nodup (dumping.order_nodup members)]
  congr 1
  ext -
  rw [mem_toFinset, dumping.mem_order]

theorem loads_set {members : Finset Str} (some_ : members.card ≠ 0) :
    Loads (dumpLine dumping key (.set members)) key (.set members : Value F) := by
  have all : (((dumping.order members).map some).map str).toFinset = members := by
    ext member
    rw [mem_toFinset, map_map]
    exact (map_id _).symm ▸ dumping.mem_order members member
  refine loads_changeKey rfl rfl ?_ fun env slot absent => ?_
  · change validateArity (-3) (_ :: some key :: (dumping.order members).map some) = true
    refine validateArity_of_le (by decide) ?_
    rw [length_cons, length_cons, length_map, length_order]
    omega
  · obtain ⟨_, _, run⟩ := run_execSAdd_absent env absent (some key)
      ((dumping.order members).map some)
    rw [all] at run
    exact ⟨_, _, run, rfl, rfl⟩

theorem loads_hash {fields : Fields} (some_ : fields.keys.card ≠ 0) :
    Loads (dumpLine dumping key (.hash fields)) key (.hash fields : Value F) := by
  have words : ((dumping.order fields.keys).flatMap fun field =>
      [field, (fields.lookup field).getD []]).map some =
        (dumping.order fields.keys).flatMap fun field =>
          [some field, some ((fields.lookup field).getD [])] := List.map_flatMap
  have length : ((dumping.order fields.keys).flatMap fun field =>
      [some field, some ((fields.lookup field).getD [])]).length = 2 * fields.keys.card := by
    simp [List.length_flatMap, length_order, mul_comm]
  have all : (pairs ((dumping.order fields.keys).flatMap fun field =>
      [some field, some ((fields.lookup field).getD [])])).foldl
        (fun fields pair => fields.insert (str pair.1) (str pair.2)) ∅ = fields := by
    rw [pairs_flatMap, List.foldl_map]
    exact insertAll_keys [] (dumping.mem_order fields.keys)
  rw [dumpLine, toCmdLineOfStr, map_cons, words]
  refine loads_changeKey rfl rfl ?_ fun env slot absent => ?_
  · change validateArity (-4) _ = true
    refine validateArity_of_le (by decide) ?_
    rw [length_cons, length_cons]
    omega
  · obtain ⟨_, run⟩ := run_execHMSet_absent env absent (some key)
      (by rw [length, Nat.mul_mod_right])
    rw [all] at run
    exact ⟨_, _, run, rfl, rfl⟩

theorem dumpLine_zset {scores : Scores F} :
    dumpLine dumping key (.zset scores) = some (lit "ZADD") :: some key ::
      (ranked scores).reverse.flatMap fun element =>
        [some (Float64.format element.score), some element.member] := by
  rw [dumpLine, toCmdLineOfStr, map_cons, List.map_flatMap]
  rfl

theorem loads_zset {scores : Scores F} (some_ : scores.keys.card ≠ 0) :
    Loads (dumpLine dumping key (.zset scores)) key (.zset scores) := by
  have length : ((ranked scores).reverse.flatMap fun element =>
      [some (Float64.format element.score), some element.member]).length =
        2 * scores.keys.card := by
    simp [List.length_flatMap, length_ranked, mul_comm]
  rw [dumpLine_zset]
  refine loads_changeKey rfl rfl ?_ fun env slot absent => ?_
  · change validateArity (-4) _ = true
    refine validateArity_of_le (by decide) ?_
    rw [length_cons, length_cons]
    omega
  · obtain ⟨_, _, run⟩ := run_execZAdd_absent env absent (some key)
      (ranked scores).reverse
    rw [insertAll_ranked] at run
    exact ⟨_, _, run, rfl, rfl⟩

theorem loads_dumpLine {value : Value F} (filled : value.isEmptyCollection = false) :
    Loads (dumpLine dumping key value) key value := by
  cases value with
  | string bytes => exact loads_string dumping key bytes
  | list elements => exact loads_list dumping key (isEmpty_eq_false_iff.mp filled)
  | set members => exact loads_set dumping key (of_decide_eq_false filled)
  | hash fields => exact loads_hash dumping key (of_decide_eq_false filled)
  | zset scores => exact loads_zset dumping key (of_decide_eq_false filled)

end Dumps

def ttlProgram (key : Key) : Option Int → SlotProg F Reply
  | none => execPersist [some key]
  | some deadline => execPExpireAt [some key, some (formatInt (unixMillis deadline))]

omit [Float64 F] in
theorem run_ttlProgram (key : Key) (deadline : Option Int) {slot : Slot F} (there : slot.value ≠ none) :
    ∃ reply state, (ttlProgram key deadline).run (slotHandle env) ⟨slot, []⟩ = (.ok reply, state) ∧
      reply.isError = false ∧ state.slot = if slot.expired env.now then slot.remove else
        slot.withDeadline (deadline.map loadedDeadline) := by
  obtain ⟨value, isValue⟩ := Option.ne_none_iff_exists'.mp there
  have opened : (Look.exec env.now slot .getEntity).slot =
      if slot.expired env.now then slot.remove else slot := by
    simp only [Look.exec, isValue]
    split <;> rfl
  have seen : slot.seen env.now = if slot.expired env.now then none else some (value, slot.deadline) := by
    rw [Slot.seen, isValue]
    rfl
  cases deadline with
  | none =>
    rw [ttlProgram, execPersist, run_bind, run_getEntity, opened, seen]
    cases isExpired : slot.expired env.now with
    | true => exact ⟨_, _, rfl, rfl, rfl⟩
    | false =>
      have peeked (events : List SlotEvent) : (look expireTime).run (slotHandle env) ⟨slot, events⟩ =
          (.ok slot.deadline, ⟨slot, events ++ []⟩) := rfl
      simp only [Bool.false_eq_true, if_false, Option.map_some, andThen_ok, run_bind, peeked]
      cases isDeadline : slot.deadline with
      | none =>
        refine ⟨_, _, rfl, rfl, ?_⟩
        rw [Option.map_none, Slot.withDeadline, ← isDeadline]
      | some time => exact ⟨_, _, rfl, rfl, rfl⟩
  | some deadline =>
    rcases run_execPExpireAt env key deadline slot with ⟨unseen, reply, isSlot⟩ | ⟨seen', reply, isSlot⟩
    · refine ⟨_, _, Prod.ext reply rfl, rfl, isSlot.trans (opened.trans ?_)⟩
      cases isExpired : slot.expired env.now with
      | true => rfl
      | false =>
        rw [seen, isExpired] at unseen
        cases unseen
    · refine ⟨_, _, Prod.ext reply rfl, rfl, isSlot.trans ?_⟩
      rw [if_neg fun isExpired => seen' (by rw [seen, if_pos isExpired])]
      rfl

theorem run_exec_ttlLine (key : Key) (deadline : Option Int)
    (there : (space.slots key).value ≠ none) :
    ∃ reply after, (exec (ttlLine key deadline)).run (dbHandle env) space = (.ok reply, after) ∧
      reply.isError = false ∧
      (after.slots key = if (space.slots key).expired env.now then (space.slots key).remove else
        (space.slots key).withDeadline (deadline.map loadedDeadline)) ∧
      ∀ other, other ≠ key → after.slots other = space.slots other := by
  obtain ⟨reply, state, run, fine, isSlot⟩ := run_ttlProgram env key deadline there
  refine ⟨reply, space.write key state, ?_, fine, ?_, fun other different => ?_⟩
  · have executed : (exec (ttlLine key deadline)).run (dbHandle env) space =
        (((ttlProgram key deadline).run (slotHandle env) (space.read key)).1,
          space.write key ((ttlProgram key deadline).run (slotHandle env) (space.read key)).2) := by
      cases deadline with
      | none => exact run_exec_changeKey env space .persist rfl rfl rfl
      | some deadline => exact run_exec_changeKey env space .pexpireat rfl rfl rfl
    rw [executed, Space.read, run]
  · exact (Space.write_slots_self _).trans isSlot
  · exact Space.write_slots_ne _ _ different

end Lines

/-! ## Payloads -/

/-- A value as it comes out of a payload: null bytes have become empty. -/
def Value.told : Value F → Value F
  | .string bytes => .string (some (str bytes))
  | .list elements => .list (elements.map fun element => some (str element))
  | other => other

theorem Value.isEmptyCollection_told (value : Value F) :
    value.told.isEmptyCollection = value.isEmptyCollection := by
  cases value with
  | list elements => exact List.isEmpty_map
  | _ => rfl

section Payloads

variable [Float64 F] (env dumping : Env F) (key source : Key)

def dumpPayload (value : Value F) : Bytes :=
  some (multiBulkBytes (dumpLine dumping source value))

def ttlPayload (deadline : Option Int) : Bytes :=
  some (multiBulkBytes (ttlLine source deadline))

omit [Float64 F] in
theorem parseCmd_line {what : String} {key : Bytes} {word first : Bytes} {rest : List Bytes}
    (sized : Sized (word :: first :: rest)) :
    (parseCmd what key (some (multiBulkBytes (word :: first :: rest))) : DbReader F _) =
      return .ok (some (str word) :: key :: rest.map fun arg => some (str arg)) := by
  have parsed : parseOne (str (some (multiBulkBytes (word :: first :: rest)))) =
      some (.data (.multiBulk (some (str word) :: some (str first) ::
        rest.map fun arg => some (str arg)))) :=
    parseOne_multiBulkBytes (word :: first :: rest) (cons_ne_nil _ _) sized
  rw [parseCmd, parsed]

variable {value : Value F}

theorem parseCmd_dump (sized : Sized (dumpLine dumping source value)) :
    (parseCmd "dump" (some key) (dumpPayload dumping source value) : DbReader F _) =
      return .ok (dumpLine dumping key value.told) := by
  have again : ∀ words : List Str, ((words.map some).map fun arg => some (str arg)) =
      words.map some := fun words => by rw [map_map]; rfl
  cases value with
  | string bytes | list elements => exact parseCmd_line sized
  | set members | hash fields | zset scores =>
    exact (parseCmd_line sized).trans (by rw [again]; rfl)

omit [Float64 F] in
theorem parseCmd_ttl {deadline : Option Int} (sized : Sized (ttlLine source deadline)) :
    (parseCmd "ttl" (some key) (ttlPayload source deadline) : DbReader F _) =
      return .ok (ttlLine key deadline) := by
  cases deadline with
  | none | some deadline => exact parseCmd_line sized

theorem execWithLock_changeKey {depth : Nat} {name : Name} {line : Line}
    {body : List Bytes → SlotProg F Reply} (found : commandOf line = some name)
    (executes : (command (F := F) name).executor = .changeKey body) :
    execWithLock (depth + 1) line = (exec line : DbProg F Reply) := by
  cases line with
  | nil => rfl
  | cons word args =>
    have isName : Name.ofText (toLower (str word)) = some name := found
    rw [exec, execWithLock, execWithLock, isName]
    dsimp only
    rw [executes]
    cases args with
    | nil => rfl
    | cons first rest => rfl

theorem execWithLock_dumpLine {depth : Nat} :
    execWithLock (depth + 1) (dumpLine dumping key value) =
      (exec (dumpLine dumping key value) : DbProg F Reply) := by
  cases value with
  | string bytes => exact execWithLock_changeKey rfl rfl
  | list elements => exact execWithLock_changeKey rfl rfl
  | set members => exact execWithLock_changeKey rfl rfl
  | hash fields => exact execWithLock_changeKey rfl rfl
  | zset scores => exact execWithLock_changeKey rfl rfl

theorem execWithLock_ttlLine {depth : Nat} {deadline : Option Int} :
    execWithLock (depth + 1) (ttlLine key deadline) =
      (exec (ttlLine key deadline) : DbProg F Reply) := by
  cases deadline with
  | none => exact execWithLock_changeKey rfl rfl
  | some deadline => exact execWithLock_changeKey rfl rfl

theorem run_exec_dumpLine_empty (empty : value.isEmptyCollection = true) (dumpable : value.Dumpable)
    (space : Space F) :
    ∃ reply, (exec (dumpLine dumping key value)).run (dbHandle env) space = (.ok reply, space) ∧
      reply.isError = true := by
  cases value with
  | string bytes => cases empty
  | list elements =>
    cases isEmpty_iff.mp empty
    exact ⟨_, rfl, rfl⟩
  | set members =>
    have none_ : dumping.order members = [] := by
      rw [← List.length_eq_zero_iff, length_order]
      exact of_decide_eq_true empty
    rw [dumpLine, none_]
    exact ⟨_, rfl, rfl⟩
  | hash fields =>
    have none_ : dumping.order fields.keys = [] := by
      rw [← List.length_eq_zero_iff, length_order]
      exact of_decide_eq_true empty
    rw [dumpLine, none_]
    exact ⟨_, rfl, rfl⟩
  | zset scores => exact absurd (of_decide_eq_true empty) dumpable

section Loading

variable (depth : Nat) {value : Value F} {deadline : Option Int}
variable (sizedDump : Sized (dumpLine dumping source value))
variable (sizedTtl : Sized (ttlLine source deadline)) (space : Space F)

omit [Float64 F] in
theorem run_removed : ∃ removed, (onKey key remove).run (dbHandle env) space = (.ok (), removed) ∧
    removed.slots key = (space.slots key).remove ∧
    ∀ other, other ≠ key → removed.slots other = space.slots other := by
  refine ⟨_, rfl, Space.write_slots_self _, fun other different => ?_⟩
  exact Space.write_slots_ne _ _ different

include sizedDump sizedTtl

theorem run_loadDump (filled : value.isEmptyCollection = false) :
    ∃ after, (loadDump (execWithLock (depth + 1)) [some key, dumpPayload dumping source value,
        ttlPayload source deadline]).run (dbHandle env) space = (.ok .ok, after) ∧
      after.slots key = ⟨some value.told, deadline.map loadedDeadline, (space.slots key).version⟩ ∧
      ∀ other, other ≠ key → after.slots other = space.slots other := by
  obtain ⟨removed, run, slot, others⟩ := run_removed env key space
  obtain ⟨_, loaded, dump, dumpFine, dumpSlot, dumpOthers⟩ :=
    loads_dumpLine dumping key (value.isEmptyCollection_told.trans filled) env removed
      (by rw [slot]; rfl)
  rw [slot, Slot.loaded_of_unlimited rfl] at dumpSlot
  obtain ⟨_, after, ttl, ttlFine, ttlSlot, ttlOthers⟩ := run_exec_ttlLine env loaded key
    deadline (by rw [dumpSlot]; exact Option.some_ne_none _)
  refine ⟨after, ?_, ?_, fun other different => ?_⟩
  · rw [loadDump, parseCmd_dump dumping key source sizedDump, parseCmd_ttl key source sizedTtl]
    change Prog.run _ (onKey key remove >>= fun _ => _) space = _
    rw [run_bind, run, andThen_ok, execWithLock_dumpLine, run_bind, dump,
      andThen_ok, dumpFine, if_neg Bool.false_ne_true, execWithLock_ttlLine, run_bind,
      ttl, andThen_ok, ttlFine]
    rfl
  · rw [ttlSlot, dumpSlot]
    rfl
  · rw [ttlOthers other different, dumpOthers other different, others other different]

theorem run_loadDump_empty (empty : value.isEmptyCollection = true) (dumpable : value.Dumpable) :
    ∃ reply after, (loadDump (execWithLock (depth + 1)) [some key, dumpPayload dumping source value,
        ttlPayload source deadline]).run (dbHandle env) space = (.ok reply, after) ∧
      reply.isError = true ∧ after.slots key = (space.slots key).remove ∧
      ∀ other, other ≠ key → after.slots other = space.slots other := by
  obtain ⟨removed, run, slot, others⟩ := run_removed env key space
  have toldDumpable : value.told.Dumpable := by
    cases value with
    | zset scores => exact dumpable
    | _ => trivial
  obtain ⟨reply, dump, isError⟩ := run_exec_dumpLine_empty env dumping key
    (value.isEmptyCollection_told.trans empty) toldDumpable removed
  refine ⟨reply, removed, ?_, isError, slot, others⟩
  rw [loadDump, parseCmd_dump dumping key source sizedDump, parseCmd_ttl key source sizedTtl]
  change Prog.run _ (onKey key remove >>= fun _ => _) space = _
  rw [run_bind, run, andThen_ok, execWithLock_dumpLine, run_bind, dump,
    andThen_ok, isError]
  rfl

end Loading

end Payloads

end Godis.Database
