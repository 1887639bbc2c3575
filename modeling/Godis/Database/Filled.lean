import Godis.Database.NoEffect
import Godis.Database.Opens

/-!
# Commands for one key that leave no empty collection

A command that takes the last element away removes the key; one that creates a collection puts an
element into it.
-/

namespace Godis.Database

open Golang Program List

variable {F α β : Type}

def Slot.Filled (slot : Slot F) : Prop :=
  ∀ value, slot.value = some value → value.isEmptyCollection = false

def Space.Filled (space : Space F) : Prop :=
  ∀ key, (space.slots key).Filled

variable {slot : Slot F}

theorem Slot.filled_of_none (none_ : slot.value = none) : slot.Filled := by
  intro value isValue
  rw [none_] at isValue
  cases isValue

theorem Slot.filled_of_some {value : Value F} (some_ : slot.value = some value)
    (filled : value.isEmptyCollection = false) : slot.Filled := by
  intro other isOther
  rw [some_] at isOther
  cases isOther
  exact filled

theorem Space.Filled.write {space : Space F} (filled : space.Filled) {key : Key}
    {state : SlotState F} (here : state.slot.Filled) : (space.write key state).Filled := by
  intro other
  rw [Space.write_slots]
  split
  · exact here
  · exact filled other

/-! ## Programs for one key -/

section Slots

def Keeps (env : Env F) (program : SlotProg F α) : Prop :=
  ∀ state, state.slot.Filled → (program.run (slotHandle env) state).2.slot.Filled

def Fills (env : Env F) (program : SlotProg F α) : Prop :=
  ∀ state, (program.run (slotHandle env) state).2.slot.Filled

variable {env : Env F}

variable {program : SlotProg F α} {slot : Slot F} {rest : Unit → SlotProg F α} {value : Value F}
  {view : Value F → Option α} {initial : α} {make : α → Value F}
  {next : Except Reply α → SlotProg F β}

theorem Fills.keeps (fills : Fills env program) : Keeps env program :=
  fun state _ => fills state

theorem keeps_pure {value : α} : Keeps env (pure value) :=
  fun _ filled => filled

theorem keeps_stop {reason : Stop} : Keeps env (.stop reason : SlotProg F α) :=
  fun _ filled => filled

theorem Keeps.bind {rest : α → SlotProg F β} (first : Keeps env program)
    (later : ∀ value, Keeps env (rest value)) : Keeps env (program >>= rest) := by
  intro state filled
  have filled' := first state filled
  rw [Prog.run_bind]
  generalize program.run (slotHandle env) state = ended at filled'
  obtain ⟨ended, state'⟩ := ended
  cases ended with
  | ok value => exact later value state' filled'
  | error reason => exact filled'

theorem Slot.Filled.look (filled : slot.Filled) (now : Int) (method : Look) :
    (method.exec now slot).slot.Filled := by
  cases method with
  | getEntity =>
    simp only [Look.exec]
    split
    · exact filled
    · split
      · exact Slot.filled_of_none rfl
      · exact filled
  | isExpired =>
    simp only [Look.exec]
    split
    · exact Slot.filled_of_none rfl
    · exact filled
  | peek | deadline | version => exact filled

def Change.Sound : Change F → Prop
  | .put value => value.isEmptyCollection = false
  | .putIfAbsent value => value.isEmptyCollection = false
  | .putIfExists value => value.isEmptyCollection = false
  | .mutate value => value.isEmptyCollection = false
  | _ => True

theorem Slot.Filled.change (filled : slot.Filled) {method : Change F} (sound : method.Sound) :
    (method.exec slot).slot.Filled := by
  obtain ⟨value, _, _⟩ := slot
  cases method with
  | put new =>
    cases value with
    | none | some old => exact Slot.filled_of_some rfl sound
  | extend bytes =>
    cases value with
    | none | some old => exact Slot.filled_of_some rfl rfl
  | putIfAbsent new =>
    cases value with
    | none => exact Slot.filled_of_some rfl sound
    | some old => exact filled
  | putIfExists new =>
    cases value with
    | none => exact filled
    | some old => exact Slot.filled_of_some rfl sound
  | mutate new =>
    cases value with
    | none => exact Slot.filled_of_none rfl
    | some old => exact Slot.filled_of_some rfl sound
  | remove => exact Slot.filled_of_none rfl
  | expire deadline | persist => exact filled

def SlotOp.Sound : SlotOp F → Prop
  | .change method => method.Sound
  | _ => True

theorem keeps_of_uses (uses : program.Uses SlotOp.Sound) :
    Keeps env program := by
  intro state filled
  refine uses.run_preserves (fun state : SlotState F => state.slot.Filled) (fun op state sound filled => ?_) filled
  cases op with
  | look method => exact filled.look env.now method
  | change method => exact filled.change sound
  | log line | ask question => exact filled

theorem keeps_look {program : SlotReader F α} : Keeps env (look program) := by
  refine keeps_of_uses (Prog.Uses.of_sent fun op => ?_)
  cases op with
  | look method | ask question => trivial

theorem fills_mutate (filled : value.isEmptyCollection = false) (later : Keeps env (rest ())) :
    Fills env (mutate value >>= rest) := by
  intro state
  refine later _ ?_
  obtain ⟨⟨old, -, -⟩, _⟩ := state
  cases old with
  | none => exact Slot.filled_of_none rfl
  | some old => exact Slot.filled_of_some rfl filled

theorem fills_remove (later : Keeps env (rest ())) :
    Fills env (remove >>= rest) :=
  fun _ => later _ (Slot.filled_of_none rfl)

theorem Slot.Filled.seen (filled : slot.Filled) {now : Int} {deadline : Option Int}
    (there : slot.seen now = some (value, deadline)) :
    value.isEmptyCollection = false :=
  filled value (Slot.live_of_seen there).2.1

theorem run_getAs_seen {events : List SlotEvent} :
    (look (getAs view)).run (slotHandle env) ⟨slot, events⟩ =
      (.ok (viewed view ((slot.seen env.now).map Prod.fst)),
        ⟨(Look.exec env.now slot .getEntity).slot,
          events ++ (Look.exec env.now slot .getEntity).notes.map .note⟩) := by
  rw [run_getAs_answer, slot.answer_getEntity_seen]

theorem keeps_getAs {next : Except Reply (Option α) → SlotProg F β}
    (refused : ∀ reply, Keeps env (next (.error reply))) (absent : Keeps env (next (.ok none)))
    (present : ∀ held data, view held = some data → held.isEmptyCollection = false →
      Keeps env (next (.ok (some data)))) :
    Keeps env (look (getAs view) >>= next) := by
  rintro ⟨slot, _⟩ filled
  rw [Prog.run_bind, run_getAs_seen]
  have looked := filled.look env.now .getEntity
  cases there : slot.seen env.now with
  | none => exact absent _ looked
  | some entry =>
    obtain ⟨held, _⟩ := entry
    simp only [Option.map_some, viewed]
    cases isData : view held with
    | none => exact refused _ _ looked
    | some data => exact present held data isData (filled.seen there) _ looked

theorem keeps_getOrInit (refused : ∀ reply, Keeps env (next (.error reply)))
    (absent : Fills env (next (.ok initial)))
    (present : ∀ held data, view held = some data → held.isEmptyCollection = false →
      Keeps env (next (.ok data))) :
    Keeps env (getOrInit view make initial >>= next) := by
  unfold getOrInit
  rw [bind_assoc]
  refine keeps_getAs (fun reply => refused reply) ?_ fun held data isData filled => ?_
  · exact fun state _ => absent _
  · exact present held data isData filled

theorem keeps_getOrInit_of_fills (refused : ∀ reply, Keeps env (next (.error reply)))
    (fills : ∀ data, Fills env (next (.ok data))) :
    Keeps env (getOrInit view make initial >>= next) :=
  keeps_getOrInit refused (fills initial) fun _ data _ _ => (fills data).keeps

end Slots

/-! ## Strings written in place -/

section Strings

variable {env : Env F} {args : List Bytes}

theorem Keeps.look {program : SlotReader F α} {rest : α → SlotProg F β}
    (later : ∀ value, Keeps env (rest value)) : Keeps env (look program >>= rest) :=
  keeps_look.bind later

theorem Keeps.change {method : Change F} {rest : method.Answer → SlotProg F β}
    (sound : method.Sound) (later : ∀ value, Keeps env (rest value)) :
    Keeps env (Prog.ask (SlotOp.change method) >>= rest) := by
  have uses : (Prog.ask (SlotOp.change method) : SlotProg F _).Uses SlotOp.Sound :=
    Prog.uses_ask.mpr sound
  exact (keeps_of_uses uses).bind later

theorem Keeps.log {line : Line} {rest : Unit → SlotProg F β} (later : Keeps env (rest ())) :
    Keeps env (addAof line >>= rest) :=
  fun _ filled => later _ filled

theorem keeps_execAppend : Keeps env (execAppend args) := by
  unfold execAppend
  split
  · refine .look fun bytes => ?_
    split
    · exact keeps_pure
    · exact .change trivial fun _ => .log keeps_pure
  · exact keeps_stop

theorem keeps_execSetRange : Keeps env (execSetRange args) := by
  unfold execSetRange
  split
  · split
    · exact keeps_look
    · refine .look fun bytes => ?_
      split
      · exact keeps_pure
      · dsimp only
        split
        · exact keeps_stop
        · split
          · exact .change rfl fun _ => .change trivial fun _ => .log keeps_pure
          · exact .change trivial fun _ => .log keeps_pure
  · exact keeps_stop

theorem keeps_execSetBit : Keeps env (execSetBit args) := by
  unfold execSetBit
  split
  · split
    · exact keeps_pure
    · split
      · exact keeps_pure
      · refine .look fun bytes => ?_
        split
        · exact keeps_pure
        · split
          · exact keeps_stop
          · refine .look fun former => ?_
            split
            · exact keeps_stop
            · split
              · exact .change rfl fun _ => .change trivial fun _ => .log keeps_pure
              · exact .change trivial fun _ => .log keeps_pure
  · exact keeps_stop

end Strings

/-! ## Commands that add elements -/

section Adding

variable {env : Env F}

theorem fills_store {value : Value F} {line : Line} {reply : Reply}
    (filled : value.isEmptyCollection = false) :
    Fills env (do mutate value; addAof line; return reply) :=
  fills_mutate filled (.log keeps_pure)

variable {values args more : List Bytes} {γ : Type} {elements : List (Element Str F)}
variable {key : Bytes} {name : String}

theorem keeps_execLPush (some_ : values ≠ []) :
    Keeps env (execLPush (key :: values)) := by
  refine keeps_getOrInit_of_fills (fun _ => keeps_pure) fun elements => fills_store ?_
  have reversed : values.foldl (fun list value => value :: list) elements =
      values.reverse ++ elements := by
    simp
  simp [Value.isEmptyCollection, reversed, some_]

theorem keeps_execRPush (some_ : values ≠ []) :
    Keeps env (execRPush (key :: values)) := by
  refine keeps_getOrInit_of_fills (fun _ => keeps_pure) fun elements => fills_store ?_
  simp [Value.isEmptyCollection, some_]

theorem keeps_pushIfExists {insert : List Bytes → List Bytes → List Bytes}
    (longer : ∀ elements values, elements ≠ [] → insert elements values ≠ []) :
    Keeps env (pushIfExists name insert args) := by
  cases args with
  | nil => exact keeps_stop
  | cons key values =>
    refine keeps_getAs (fun _ => keeps_pure) keeps_pure
      fun held elements isList filled => (fills_store ?_).keeps
    cases Value.asList_eq_some.mp isList
    rw [Value.isEmptyCollection, isEmpty_eq_false_iff] at filled ⊢
    exact longer elements values filled

theorem keeps_execLPushX : Keeps env (execLPushX args) :=
  keeps_pushIfExists (fun elements values filled => by simp [filled])

theorem keeps_execRPushX : Keeps env (execRPushX args) := by
  unfold execRPushX
  split
  · exact keeps_pure
  · exact keeps_pushIfExists (fun elements values filled => by simp [filled])

theorem keeps_execLSet : Keeps env (execLSet args) := by
  unfold execLSet
  split
  · split
    · exact keeps_pure
    · refine keeps_getAs (fun _ => keeps_pure) keeps_pure
        fun held elements isList filled => ?_
      dsimp only
      split
      · exact keeps_pure
      · refine (fills_store ?_).keeps
        cases Value.asList_eq_some.mp isList
        simpa [Value.isEmptyCollection] using filled
  · exact keeps_stop

theorem keeps_execLInsert : Keeps env (execLInsert args) := by
  unfold execLInsert
  split
  · refine keeps_getAs (fun _ => keeps_pure) keeps_pure
      fun held elements isList filled => ?_
    dsimp only
    split
    · exact keeps_pure
    · split
      · exact keeps_pure
      · refine (fills_store ?_).keeps
        cases Value.asList_eq_some.mp isList
        rw [Value.isEmptyCollection, isEmpty_eq_false_iff, ← length_pos_iff] at filled ⊢
        rw [List.length_insertIdx]
        have shorter : ∀ place : Nat, 0 < if place ≤ elements.length then elements.length + 1 else
            elements.length := by
          intro place
          split
          · exact Nat.succ_pos _
          · exact filled
        exact shorter _
  · exact keeps_pure

theorem card_insert_ne_zero (map : Finmap fun _ : Str => γ) {name : Str} (value : γ) :
    (map.insert name value).keys.card ≠ 0 :=
  Finset.card_ne_zero_of_mem (Finmap.mem_keys.mpr (Finmap.mem_insert.mpr (.inl rfl)))

theorem card_insertAll_ne_zero {δ : Type} (name : δ → Str) (value : δ → γ) {entries : List δ}
    (some_ : entries ≠ []) (map : Finmap fun _ : Str => γ) :
    (entries.foldl (fun map entry => map.insert (name entry) (value entry)) map).keys.card ≠ 0 := by
  induction entries generalizing map with
  | nil => exact absurd rfl some_
  | cons first rest ih =>
    cases rest with
    | nil => exact card_insert_ne_zero map (value first)
    | cons second rest => exact ih (cons_ne_nil _ _) _

theorem filled_hash {fields : Fields} (some_ : fields.keys.card ≠ 0) :
    (Value.hash fields : Value F).isEmptyCollection = false :=
  decide_eq_false some_

theorem filled_set {members : Finset Str} (some_ : members.card ≠ 0) :
    (Value.set members : Value F).isEmptyCollection = false :=
  decide_eq_false some_

theorem filled_zset {scores : Scores F} (some_ : scores.keys.card ≠ 0) :
    (Value.zset scores).isEmptyCollection = false :=
  decide_eq_false some_

theorem keeps_execHSet : Keeps env (execHSet args) := by
  unfold execHSet
  split
  · exact keeps_getOrInit_of_fills (fun _ => keeps_pure) fun fields =>
      fills_store (filled_hash (card_insert_ne_zero _ _))
  · exact keeps_stop

theorem keeps_execHSetNX : Keeps env (execHSetNX args) := by
  unfold execHSetNX
  split
  · refine keeps_getOrInit (fun _ => keeps_pure) ?_ fun held fields isHash filled => ?_
    · exact fills_store (filled_hash (card_insert_ne_zero _ _))
    · dsimp only
      split
      · exact keeps_pure
      · exact (fills_store (filled_hash (card_insert_ne_zero _ _))).keeps
  · exact keeps_stop

theorem pairs_ne_nil (two : 2 ≤ args.length) : pairs args ≠ [] := by
  match args with
  | [] | [_] => simp at two
  | first :: second :: rest => exact cons_ne_nil _ _

theorem keeps_execHMSet (two : 2 ≤ more.length) :
    Keeps env (execHMSet (key :: more)) := by
  unfold execHMSet
  dsimp only
  split
  · exact keeps_pure
  · exact keeps_getOrInit_of_fills (fun _ => keeps_pure) fun fields =>
      fills_store (filled_hash (card_insertAll_ne_zero (fun pair => str pair.1)
        (fun pair => str pair.2) (pairs_ne_nil two) fields))

theorem keeps_addToField {name : String} {parse : Str → Option α} {sumOf : α → α → Str}
    {notNumber badValue : Reply} :
    Keeps env (addToField name parse sumOf notNumber badValue args) := by
  unfold addToField
  split
  · split
    · exact keeps_pure
    · refine keeps_getOrInit (fun _ => keeps_pure) ?_ fun held fields isHash filled => ?_
      · exact fills_store (filled_hash (card_insert_ne_zero _ _))
      · dsimp only
        split
        · exact (fills_store (filled_hash (card_insert_ne_zero _ _))).keeps
        · split
          · exact keeps_pure
          · exact (fills_store (filled_hash (card_insert_ne_zero _ _))).keeps
  · exact keeps_stop

theorem keeps_execSAdd {added : List Bytes} (some_ : added ≠ []) :
    Keeps env (execSAdd (key :: added)) := by
  refine keeps_getOrInit_of_fills (fun _ => keeps_pure) fun members => fills_store ?_
  refine decide_eq_false ?_
  induction added generalizing members with
  | nil => exact absurd rfl some_
  | cons first rest ih =>
    cases rest with
    | nil => exact Finset.card_ne_zero_of_mem (Finset.mem_insert_self _ _)
    | cons second rest => exact ih (cons_ne_nil _ _) _

theorem keeps_addElements (some_ : elements ≠ []) :
    Keeps env (addElements name args elements) :=
  keeps_getOrInit_of_fills (fun _ => keeps_pure) fun scores =>
    fills_store (filled_zset (card_insertAll_ne_zero Element.member Element.score some_ scores))

theorem parseEach_ne_nil {α : Type} {parse : α → SlotReader F (Except Reply (Element Str F))}
    (each : ∀ item, (parse item).Settled) {items : List α} (some_ : items ≠ [])
    (parsed : parseEach parse items = pure (.ok elements)) : elements ≠ [] := by
  cases items with
  | nil => exact absurd rfl some_
  | cons item rest =>
    rw [parseEach] at parsed
    rcases each item with ⟨first, is⟩ | ⟨_, is⟩
    · rw [is] at parsed
      rcases first with reply | element
      · cases parsed
      · rcases settled_parseEach each rest with ⟨others, is⟩ | ⟨_, is⟩
        · rw [is] at parsed
          rcases others with reply | others
          · cases parsed
          · cases parsed
            exact cons_ne_nil _ _
        · rw [is] at parsed
          cases parsed
    · rw [is] at parsed
      cases parsed

theorem keeps_addParsed {α : Type} {parse : α → SlotReader F (Except Reply (Element Str F))}
    (each : ∀ item, (parse item).Settled) {items : List α} (some_ : items ≠ []) :
    Keeps env (addParsed name args (parseEach parse items)) := by
  unfold addParsed
  rcases settled_parseEach each items with ⟨parsed, is⟩ | ⟨_, is⟩
  · rw [is]
    cases parsed with
    | error reply => exact keeps_pure
    | ok elements => exact keeps_addElements (parseEach_ne_nil each some_ is)
  · rw [is]
    exact keeps_stop

theorem keeps_execZAdd [Float64 F] (two : 2 ≤ more.length) :
    Keeps env (execZAdd (key :: more)) := by
  unfold execZAdd
  dsimp only
  split
  · exact keeps_pure
  · exact keeps_addParsed settled_parseElement (pairs_ne_nil two)

theorem triples_ne_nil (three : ¬ args.length < 3) : triples args ≠ [] := by
  match args with
  | [] | [_] | [_, _] => simp at three
  | first :: second :: third :: rest => exact cons_ne_nil _ _

theorem keeps_execGeoAdd [Float64 F] : Keeps env (execGeoAdd args) := by
  unfold execGeoAdd
  split
  · split
    · exact keeps_pure
    · rename_i fits
      exact keeps_addParsed settled_parseLocation (triples_ne_nil fun few => fits (.inl few))
  · exact keeps_pure

theorem keeps_execZIncrBy [Float64 F] {rawDelta member : Bytes}
    (number : Float64.parse (str rawDelta) ≠ some (none : Option F)) :
    Keeps env (execZIncrBy (key :: rawDelta :: member :: more) : SlotProg F _) := by
  unfold execZIncrBy
  dsimp only
  match parsed : (Float64.parse (str rawDelta) : Option (Option F)) with
  | none => exact keeps_pure
  | some none => exact absurd parsed number
  | some (some delta) =>
    refine keeps_getOrInit (fun _ => keeps_pure) ?_ fun held scores _ _ => ?_
    · exact fills_store (filled_zset (card_insert_ne_zero _ _))
    · dsimp only
      cases scores.lookup (str member) with
      | none => exact (fills_store (filled_zset (card_insert_ne_zero _ _))).keeps
      | some score =>
        dsimp only
        cases Float64.add score delta with
        | none => exact keeps_stop
        | some sum => exact (fills_store (filled_zset (card_insert_ne_zero _ _))).keeps

end Adding

/-! ## Commands that remove a key with its last element -/

section Removing

variable {env : Env F} {args rest elements : List Bytes} {name : String} {reply : Reply}

theorem fills_popAndLog :
    Fills env (popAndLog name args rest reply) := by
  unfold popAndLog
  split
  · exact fun state => fills_remove (.log keeps_pure) _
  · rename_i some_
    exact fills_mutate (Bool.eq_false_iff.mpr some_) (.log keeps_pure)

theorem keeps_popMany {side : Side} {rawCount : Bytes} : Keeps env (popMany side name args elements rawCount) := by
  unfold popMany
  split
  · exact keeps_pure
  · split
    · exact keeps_stop
    · exact fills_popAndLog.keeps

theorem keeps_execLPop : Keeps env (execLPop args) := by
  refine keeps_getAs (fun _ => keeps_pure) keeps_pure fun held elements _ _ => ?_
  dsimp only
  split
  · exact keeps_popMany
  · split
    · exact keeps_stop
    · exact fills_popAndLog.keeps

theorem keeps_execRPop : Keeps env (execRPop args) := by
  refine keeps_getAs (fun _ => keeps_pure) keeps_pure fun held elements _ _ => ?_
  dsimp only
  split
  · exact keeps_popMany
  · exact fills_popAndLog.keeps

theorem fills_shrink {left : Value F} {line : Line} {reply : Reply} {empty fewer : Prop}
    [Decidable empty] [Decidable fewer] (isEmpty : ¬ empty → left.isEmptyCollection = false) :
    Fills env (do
      mutate left
      if empty then remove
      if fewer then addAof line
      return reply) := by
  have later : Keeps env (do
      if fewer then addAof line
      return reply) := by
    split
    · exact .log keeps_pure
    · exact keeps_pure
  by_cases emptied : empty
  · simp only [if_pos emptied]
    exact fun state => fills_remove later _
  · simp only [if_neg emptied]
    exact fills_mutate (isEmpty emptied) later

theorem keeps_execLRem : Keeps env (execLRem args) := by
  unfold execLRem
  split
  · split
    · exact keeps_pure
    · refine keeps_getAs (fun _ => keeps_pure) keeps_pure fun held elements _ _ => ?_
      exact .look fun rest => (fills_shrink fun some_ => Bool.eq_false_iff.mpr some_).keeps
  · exact keeps_stop

theorem keeps_execHDel : Keeps env (execHDel args) := by
  cases args with
  | nil => exact keeps_stop
  | cons key names =>
    refine keeps_getAs (fun _ => keeps_pure) keeps_pure fun held fields _ _ =>
      Fills.keeps ?_
    exact fills_shrink fun some_ => filled_hash some_

theorem keeps_execSRem : Keeps env (execSRem args) := by
  cases args with
  | nil => exact keeps_stop
  | cons key names =>
    refine keeps_getAs (fun _ => keeps_pure) keeps_pure fun held members _ _ =>
      Fills.keeps ?_
    exact fills_shrink fun some_ => filled_set some_

end Removing

end Godis.Database
