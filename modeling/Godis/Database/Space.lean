import Godis.Database.Store

/-!
# The key space of a database

The slots of all keys, programs over them, and the programs for one key run at that key.
-/

namespace Godis.Database

open Golang Program

inductive Event where
  | note (key : Key) (callback : Note)
  | logged (line : Line)
  deriving DecidableEq

def SlotEvent.at (key : Key) : SlotEvent → Event
  | .note callback => .note key callback
  | .logged line => .logged line

/-- The slots of a database.  `keys` are those of `data`. -/
structure Space (F : Type) where
  slots : Key → Slot F
  keys : Finset Key
  mem_keys : ∀ key, key ∈ keys ↔ (slots key).value.isSome
  events : List Event

namespace Space

variable {F α : Type}

def empty : Space F where
  slots _ := Slot.absent
  keys := ∅
  mem_keys key := by simp [Slot.absent]
  events := []

/-- What a program for one key leaves of its slot is put back. -/
def write (space : Space F) (key : Key) (state : SlotState F) : Space F where
  slots := Function.update space.slots key state.slot
  keys := if state.slot.value.isSome then insert key space.keys else space.keys.erase key
  mem_keys other := by
    by_cases same : other = key
    · subst same
      by_cases present : state.slot.value.isSome
      · simp [present]
      · simp [present]
    · by_cases present : state.slot.value.isSome
      · simp [present, same, space.mem_keys]
      · simp [present, same, space.mem_keys]
  events := space.events ++ state.events.map (·.at key)

def read (space : Space F) (key : Key) : SlotState F :=
  ⟨space.slots key, []⟩

@[ext]
theorem ext {first second : Space F} (slots : ∀ key, first.slots key = second.slots key)
    (events : first.events = second.events) : first = second := by
  obtain ⟨firstSlots, firstKeys, firstMem, _⟩ := first
  obtain ⟨secondSlots, secondKeys, secondMem, _⟩ := second
  have sameSlots : firstSlots = secondSlots := funext slots
  have sameKeys : firstKeys = secondKeys := by
    ext -
    rw [firstMem, secondMem, sameSlots]
  subst sameSlots sameKeys events
  rfl

variable (space : Space F)

@[simp]
theorem write_slots (key other : Key) (state : SlotState F) :
    (space.write key state).slots other =
      if other = key then state.slot else space.slots other := by
  simp only [write, Function.update_apply]

variable {key : Key} {state : SlotState F}

theorem write_slots_self : (space.write key state).slots key = state.slot := by
  rw [write_slots, if_pos rfl]

theorem write_slots_ne {key other : Key} (state : SlotState F)
    (different : other ≠ key) : (space.write key state).slots other = space.slots other := by
  rw [write_slots, if_neg different]

@[simp]
theorem write_events :
    (space.write key state).events = space.events ++ state.events.map (·.at key) :=
  rfl

theorem write_read (key : Key) : space.write key (space.read key) = space := by
  ext1
  · rw [write_slots]
    split
    · rename_i same
      rw [same, read]
    · rfl
  · simp [read]

def act (space : Space F) (key : Key) (effect : Effect F α) : α × Space F :=
  (effect.answer, space.write key ⟨effect.slot, effect.notes.map .note⟩)

/-- `DB.PutEntity(dest, entity)` of the entity at `source`, then `DB.Remove(source)`. -/
def move (space : Space F) (source dest : Key) : Space F :=
  match (space.slots source).value with
  | none => space
  | some value =>
    let placed := (space.act dest ((space.slots dest).putEntity value)).2
    (placed.act source ((Change.remove (F := F)).exec (placed.slots source))).2

def removeIfPresent (space : Space F) (key : Key) : Space F :=
  if (space.slots key).value.isSome then
    (space.act key ((Change.remove (F := F)).exec (space.slots key))).2
  else space

/-- `DB.Removes(source, dest)`, then `DB.PutEntity(dest, entity)` of the entity that was at
`source`. -/
def replace (space : Space F) (source dest : Key) : Space F :=
  match (space.slots source).value with
  | none => space
  | some value =>
    let cleared := (space.removeIfPresent source).removeIfPresent dest
    (cleared.act dest ((cleared.slots dest).putEntity value)).2

end Space

section Programs

variable {F α : Type}

inductive DbLook (F : Type) where
  | look (key : Key) (method : Look)
  | survey (question : Survey)
  | ask (question : Ask F)

def DbLook.Answer : DbLook F → Type
  | .look _ method => method.Answer F
  | .survey question => question.Answer
  | .ask question => question.Answer

inductive DbOp (F : Type) where
  | look (key : Key) (method : Look)
  | change (key : Key) (method : Change F)
  | move (source dest : Key)
  | replace (source dest : Key)
  | log (line : Line)
  | survey (question : Survey)
  | ask (question : Ask F)

def DbOp.Answer : DbOp F → Type
  | .look _ method => method.Answer F
  | .change _ method => method.Answer
  | .move _ _ => Unit
  | .replace _ _ => Unit
  | .log _ => Unit
  | .survey question => question.Answer
  | .ask question => question.Answer

abbrev DbReader (F : Type) := Prog (DbLook.Answer (F := F)) Stop

abbrev DbProg (F : Type) := Prog (DbOp.Answer (F := F)) Stop

def DbLook.toOp : DbLook F → DbOp F
  | .look key method => .look key method
  | .survey question => .survey question
  | .ask question => .ask question

def DbLook.answerOf : (op : DbLook F) → op.toOp.Answer → op.Answer
  | .look _ _, answer => answer
  | .survey _, answer => answer
  | .ask _, answer => answer

/-- A program that only looks, as part of one that may change keys. -/
def lookup (program : DbReader F α) : DbProg F α :=
  program.translate DbLook.toOp DbLook.answerOf

variable {β : Type}

theorem lookup_bind (program : DbReader F α) (rest : α → DbReader F β) :
    lookup (program >>= rest) = lookup program >>= fun value => lookup (rest value) :=
  Prog.translate_bind _ _ program rest

theorem look_bind (program : SlotReader F α) (rest : α → SlotReader F β) :
    look (program >>= rest) = look program >>= fun value => look (rest value) :=
  Prog.translate_bind _ _ program rest

def SlotLook.atKey (key : Key) : SlotLook F → DbLook F
  | .look method => .look key method
  | .ask question => .ask question

def SlotLook.answerAt (key : Key) : (op : SlotLook F) → (op.atKey key).Answer → op.Answer
  | .look _, answer => answer
  | .ask _, answer => answer

def readAt (key : Key) (program : SlotReader F α) : DbReader F α :=
  program.translate (SlotLook.atKey key) (SlotLook.answerAt key)

def lookAt (key : Key) (program : SlotReader F α) : DbProg F α :=
  lookup (readAt key program)

def SlotOp.atKey (key : Key) : SlotOp F → DbOp F
  | .look method => .look key method
  | .change method => .change key method
  | .log line => .log line
  | .ask question => .ask question

def SlotOp.answerAt (key : Key) : (op : SlotOp F) → (op.atKey key).Answer → op.Answer
  | .look _, answer => answer
  | .change _, answer => answer
  | .log _, answer => answer
  | .ask _, answer => answer

def onKey (key : Key) (program : SlotProg F α) : DbProg F α :=
  program.translate (SlotOp.atKey key) (SlotOp.answerAt key)

variable {key : Key} {program : SlotProg F α}

theorem onKey_bind (rest : α → SlotProg F β) :
    onKey key (program >>= rest) = onKey key program >>= fun value => onKey key (rest value) :=
  Prog.translate_bind _ _ program rest

def dbHandle (env : Env F) : Handler (DbOp.Answer (F := F)) (Space F)
  | .look key method, space => space.act key (method.exec env.now (space.slots key))
  | .change key method, space => space.act key (method.exec (space.slots key))
  | .move source dest, space => ((), space.move source dest)
  | .replace source dest, space => ((), space.replace source dest)
  | .log line, space => ((), { space with events := space.events ++ [.logged line] })
  | .survey question, space => (env.survey space.keys question, space)
  | .ask question, space => (env.ask question, space)

theorem dbHandle_atKey (env : Env F) (space : Space F) (key : Key) (op : SlotOp F)
    (state : SlotState F) :
    (SlotOp.answerAt key op (dbHandle env (op.atKey key) (space.write key state)).1 =
        (slotHandle env op state).1) ∧
      (dbHandle env (op.atKey key) (space.write key state)).2 =
        space.write key (slotHandle env op state).2 := by
  cases op with
  | look method | change method =>
    simp only [SlotOp.atKey, dbHandle, slotHandle, SlotState.after, Space.act,
      Space.write_slots_self, SlotOp.answerAt]
    refine ⟨rfl, ?_⟩
    ext1
    · simp only [Space.write_slots]
      split
      · rfl
      · rfl
    · simp [SlotEvent.at, Function.comp_def]
  | log line =>
    simp only [SlotOp.atKey, dbHandle, slotHandle, SlotOp.answerAt]
    refine ⟨rfl, ?_⟩
    ext1
    · simp only [Space.write_slots]
    · simp [SlotEvent.at]
  | ask question => exact ⟨rfl, rfl⟩

/-- A program for one key run at that key changes the slot as it does alone, and no other. -/
theorem run_onKey {env : Env F} {space : Space F} :
    (onKey key program).run (dbHandle env) space =
      ((program.run (slotHandle env) (space.read key)).1,
        space.write key (program.run (slotHandle env) (space.read key)).2) := by
  have related := Prog.run_translate_related
    (fun (reached : Space F) (state : SlotState F) => reached = space.write key state)
    (fun op reached state same => by
      subst same
      exact dbHandle_atKey env space key op state)
    program (space.write_read key).symm
  exact Prod.ext related.1 related.2

end Programs

end Godis.Database
