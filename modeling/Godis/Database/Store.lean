import Godis.Program.Prog
import Godis.Database.Value
import Godis.Datastruct.DictScan
import Godis.Datastruct.SortedSet

/-!
# The store behind the executors (`database/database.go`)

The executors reach the data of a `DB` only through a few methods.  They are operations here, the
executors programs over them.  Most commands deal with one key: their programs talk to the slot
of that key, what the three dictionaries `data`, `ttlMap` and `versionMap` hold for it.
-/

namespace Godis.Database

open Golang Program

/-- Why an executor does not return: it panics, it waits for ever (for a lock its own transaction
holds, or in a loop), or it meets a number that is not one. -/
inductive Stop where
  | panic
  | blocked
  | nan
  deriving DecidableEq, Repr

/-- What the three dictionaries hold for one key; the deadline in nanoseconds. -/
structure Slot (F : Type) where
  value : Option (Value F)
  deadline : Option Int
  version : Nat
  deriving DecidableEq

inductive Note where
  | inserted
  | deleted (present : Bool)
  deriving DecidableEq, Repr

structure Effect (F α : Type) where
  answer : α
  slot : Slot F
  notes : List Note

namespace Slot

variable {F : Type}

def absent : Slot F :=
  ⟨none, none, 0⟩

/-- `time.Now().After(expireTime)`. -/
def expired (now : Int) (slot : Slot F) : Bool :=
  match slot.deadline with
  | none => false
  | some deadline => deadline < now

def remove (slot : Slot F) : Slot F :=
  { slot with value := none, deadline := none }

end Slot

section Methods

variable {F : Type}

/-- The methods that look at a key.  `peek` sees the data whether or not the key has expired. -/
inductive Look where
  | getEntity
  | peek
  | isExpired
  | deadline
  | version

def Look.Answer (F : Type) : Look → Type
  | .getEntity => Option (Value F)
  | .peek => Option (Value F)
  | .isExpired => Bool
  | .deadline => Option Int
  | .version => Nat

/-- An expired key that `GetEntity` or `IsExpired` meets is removed. -/
def Look.exec (now : Int) (slot : Slot F) : (method : Look) → Effect F (method.Answer F)
  | .getEntity =>
    match slot.value with
    | none => ⟨none, slot, []⟩
    | some value =>
      if slot.expired now then ⟨none, slot.remove, [.deleted true]⟩
      else ⟨some value, slot, []⟩
  | .peek => ⟨slot.value, slot, []⟩
  | .isExpired =>
    if slot.expired now then ⟨true, slot.remove, [.deleted slot.value.isSome]⟩
    else ⟨false, slot, []⟩
  | .deadline => ⟨slot.deadline, slot, []⟩
  | .version => ⟨slot.version, slot, []⟩

/-- The methods that change a key.  `mutate` changes the object the key holds in place, the others
that take a value put a new one there; `extend` puts what `append` made of the old bytes. -/
inductive Change (F : Type) where
  | put (value : Value F)
  | extend (bytes : Bytes)
  | putIfAbsent (value : Value F)
  | putIfExists (value : Value F)
  | mutate (value : Value F)
  | remove
  | expire (deadline : Int)
  | persist

def Change.Answer : Change F → Type
  | .put _ => Nat
  | .extend _ => Nat
  | .putIfAbsent _ => Nat
  | .putIfExists _ => Nat
  | _ => Unit

def Slot.putEntity (slot : Slot F) (value : Value F) : Effect F Nat :=
  match slot.value with
  | none => ⟨1, { slot with value := some value }, [.inserted]⟩
  | some _ => ⟨0, { slot with value := some value }, []⟩

def Change.exec (slot : Slot F) : (method : Change F) → Effect F method.Answer
  | .put value => slot.putEntity value
  | .extend bytes => slot.putEntity (.string bytes)
  | .putIfAbsent value =>
    match slot.value with
    | none => ⟨(1 : Nat), { slot with value := some value }, [.inserted]⟩
    | some _ => ⟨(0 : Nat), slot, []⟩
  | .putIfExists value =>
    match slot.value with
    | none => ⟨(0 : Nat), slot, []⟩
    | some _ => ⟨(1 : Nat), { slot with value := some value }, []⟩
  | .mutate value => ⟨(), { slot with value := slot.value.map fun _ => value }, []⟩
  | .remove => ⟨(), slot.remove, [.deleted slot.value.isSome]⟩
  | .expire deadline => ⟨(), { slot with deadline := some deadline }, []⟩
  | .persist => ⟨(), { slot with deadline := none }, []⟩

end Methods

section Environment

variable {F : Type}

/-- What an executor asks that is not in the store: the clock, the order in which a map is
traversed, random choices, the regular expression of a wildcard pattern, the text
`strconv.Quote` makes, and where a search in a skip list stops. -/
inductive Ask (F : Type) where
  | now
  | order (members : Finset Str)
  | pick (members : Finset Str) (count : Nat)
  | sample (members : Finset Str) (count : Nat)
  | compile (pattern : Str)
  | quote (text : Str)
  | seek (elements : List (Element Str F)) (skip : Element Str F → Bool)

def Ask.Answer : Ask F → Type
  | .now => Int
  | .order _ => List Str
  | .pick _ _ => List Str
  | .sample _ _ => List Str
  | .compile _ => Option (Str → Bool)
  | .quote _ => Str
  | .seek _ _ => Nat

/-- What an executor asks about the whole dictionary; without an answer it waits for a lock. -/
inductive Survey where
  | keys
  | randomKey
  | scan (cursor count : Int) (pattern : Str)

def Survey.Answer : Survey → Type
  | .keys => Option (List Key)
  | .randomKey => Option (Option Key)
  | .scan _ _ _ => Except Stop (List Key × Int)

/-- The answers while one command is executed, with what the data structures promise of them. -/
structure Env (F : Type) where
  now : Int
  order : Finset Str → List Str
  order_nodup : ∀ members, (order members).Nodup
  mem_order : ∀ members member, member ∈ order members ↔ member ∈ members
  pick : Finset Str → Nat → List Str
  pick_nodup : ∀ members count, (pick members count).Nodup
  pick_length : ∀ members count, (pick members count).length = min count members.card
  pick_subset : ∀ members count, ∀ member ∈ pick members count, member ∈ members
  sample : Finset Str → Nat → List Str
  sample_length : ∀ members count, (sample members count).length = count
  sample_subset : ∀ members count, ∀ member ∈ sample members count,
    member ∈ members ∨ members = ∅ ∧ member = []
  compile : Str → Option (Str → Bool)
  quote : Str → Str
  seek : List (Element Str F) → (Element Str F → Bool) → Nat
  seek_le : ∀ elements skip, seek elements skip ≤ elements.length
  seek_before : ∀ elements skip i element, seek elements skip = i + 1 →
    elements[i]? = some element → skip element = true
  seek_at : ∀ elements skip element, elements[seek elements skip]? = some element →
    skip element = false
  /-- The traversal of the dictionary comes to a shard its own transaction has locked. -/
  blocked : Bool
  randomKey : Finset Key → Option Key
  randomKey_mem : ∀ keys key, randomKey keys = some key → key ∈ keys
  table : Dict.Sharding

variable {element : α} {elements : List α} {skip : α → Bool} {α : Type}

theorem takeWhile_before {i : Nat} (inside : i < (elements.takeWhile skip).length)
    (here : elements[i]? = some element) :
    skip element = true := by
  induction elements generalizing i with
  | nil => cases here
  | cons first rest ih =>
    rw [List.takeWhile_cons] at inside
    split at inside
    · rename_i skipped
      cases i with
      | zero => exact Option.some.inj here ▸ skipped
      | succ i => exact ih (Nat.lt_of_succ_lt_succ inside) here
    · cases inside

theorem takeWhile_stops (here : elements[(elements.takeWhile skip).length]? = some element) :
    skip element = false := by
  induction elements with
  | nil => cases here
  | cons first rest ih =>
    rw [List.takeWhile_cons] at here
    split at here
    · exact ih here
    · rename_i stops
      rw [← Option.some.inj here]
      exact Bool.eq_false_iff.mpr stops

/-- An environment without surprises: maps in order, the first members chosen, every search to its
first stop. -/
def Env.plain (now : Int) : Env F where
  now := now
  order members := sorted members
  order_nodup members := nodup_sorted members
  mem_order members member := mem_sorted
  pick members count := (sorted members).take count
  pick_nodup members count := (nodup_sorted members).sublist (List.take_sublist _ _)
  pick_length members count := by
    rw [List.length_take, length_sorted]
  pick_subset members count member chosen := mem_sorted.mp (List.mem_of_mem_take chosen)
  sample members count := List.replicate count ((sorted members).headD [])
  sample_length members count := List.length_replicate
  sample_subset members count member chosen := by
    obtain ⟨_, rfl⟩ := List.mem_replicate.mp chosen
    cases first : sorted members with
    | nil =>
      refine .inr ⟨Finset.eq_empty_of_forall_notMem fun other inside => ?_, rfl⟩
      exact absurd (mem_sorted.mpr inside) (first ▸ List.not_mem_nil)
    | cons head rest =>
      refine .inl (mem_sorted.mp ?_)
      rw [first]
      exact List.mem_cons_self
  compile _ := some fun _ => true
  quote text := text
  seek elements skip := (elements.takeWhile skip).length
  seek_le elements skip := (List.takeWhile_sublist skip).length_le
  seek_before _ _ i _ stops here := takeWhile_before (stops ▸ Nat.lt_succ_self i) here
  seek_at _ _ _ here := takeWhile_stops here
  blocked := false
  randomKey keys := (sorted keys).head?
  randomKey_mem keys key first := mem_sorted.mp (List.mem_of_head? first)
  table := .dataDict

def Env.ask (env : Env F) : (question : Ask F) → question.Answer
  | .now => env.now
  | .order members => env.order members
  | .pick members count => env.pick members count
  | .sample members count => env.sample members count
  | .compile pattern => env.compile pattern
  | .quote text => env.quote text
  | .seek elements skip => env.seek elements skip

/-- `ConcurrentDict.DictScan`.  A pattern that does not compile is refused before a shard is locked. -/
def Env.dictScan (env : Env F) (keys : Finset Key) (cursor count : Int) (pattern : Str) :
    Except Stop (List Key × Int) :=
  match Dict.dictScan env.compile keys.card (env.table.visits env.order keys) cursor count pattern with
  | none => .error .panic
  | some (found, next) => if env.blocked ∧ 0 ≤ next then .error .blocked else .ok (found, next)

def Env.survey (env : Env F) (keys : Finset Key) : (question : Survey) → question.Answer
  | .keys => if env.blocked then none else some (env.order keys)
  | .randomKey => if env.blocked then none else some (env.randomKey keys)
  | .scan cursor count pattern => env.dictScan keys cursor count pattern

end Environment

/-! ## Programs for one key -/

section SlotPrograms

variable {F α : Type}

inductive SlotLook (F : Type) where
  | look (method : Look)
  | ask (question : Ask F)

def SlotLook.Answer : SlotLook F → Type
  | .look method => method.Answer F
  | .ask question => question.Answer

inductive SlotOp (F : Type) where
  | look (method : Look)
  | change (method : Change F)
  | log (line : Line)
  | ask (question : Ask F)

def SlotOp.Answer : SlotOp F → Type
  | .look method => method.Answer F
  | .change method => method.Answer
  | .log _ => Unit
  | .ask question => question.Answer

abbrev SlotReader (F : Type) := Prog (SlotLook.Answer (F := F)) Stop

abbrev SlotProg (F : Type) := Prog (SlotOp.Answer (F := F)) Stop

def SlotLook.toOp : SlotLook F → SlotOp F
  | .look method => .look method
  | .ask question => .ask question

def SlotLook.answerOf : (op : SlotLook F) → op.toOp.Answer → op.Answer
  | .look _, answer => answer
  | .ask _, answer => answer

/-- A program that only looks, as part of one that may change the key. -/
def look (program : SlotReader F α) : SlotProg F α :=
  program.translate SlotLook.toOp SlotLook.answerOf

/-- What happens at one key: callbacks and lines for the append only file. -/
inductive SlotEvent where
  | note (callback : Note)
  | logged (line : Line)
  deriving DecidableEq

structure SlotState (F : Type) where
  slot : Slot F
  events : List SlotEvent

def SlotState.after (state : SlotState F) (effect : Effect F α) : α × SlotState F :=
  (effect.answer, ⟨effect.slot, state.events ++ effect.notes.map .note⟩)

def slotHandle (env : Env F) : Handler (SlotOp.Answer (F := F)) (SlotState F)
  | .look method, state => state.after (method.exec env.now state.slot)
  | .change method, state => state.after (method.exec state.slot)
  | .log line, state => ((), { state with events := state.events ++ [.logged line] })
  | .ask question, state => (env.ask question, state)

end SlotPrograms

end Godis.Database
