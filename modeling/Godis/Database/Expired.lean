import Godis.Database.Opens
import Godis.Database.Several

/-!
# An expired key is an absent key

A key past its deadline that has not been removed yet is compared with one that has.
-/

namespace Godis.Database

open Golang Program List
open Option (getD_some map_some some_ne_none)
open Prog (run_bind)

variable {F : Type}

namespace Space

/-- The first space still has the expired key that the second one has not. -/
structure Ghost (now : Int) (key : Key) (space purged : Space F) : Prop where
  apart : ∀ other, other ≠ key → space.slots other = purged.slots other
  there : ∃ value deadline version, space.slots key = ⟨some value, some deadline, version⟩ ∧
    deadline < now ∧ purged.slots key = ⟨none, none, version⟩

def SameSlots (first second : Space F) : Prop :=
  ∀ key, first.slots key = second.slots key

variable {first second : Space F}

theorem SameSlots.keys (same : SameSlots first second) :
    first.keys = second.keys := by
  ext key
  rw [first.mem_keys, second.mem_keys, same key]

theorem SameSlots.same (same : SameSlots first second) (now : Int) :
    Same now second first :=
  fun key => congrArg (Slot.seen now) (same key)

variable {now : Int} {key : Key} {space purged : Space F}

theorem Ghost.seen (ghost : Ghost now key space purged) : Same now purged space := by
  intro other
  by_cases isKey : other = key
  · subst isKey
    obtain ⟨_, _, _, isThere, past, isGone⟩ := ghost.there
    have expired : (space.slots other).expired now = true := by
      rw [isThere]
      exact decide_eq_true past
    have gone : (purged.slots other).value = none := by
      rw [isGone]
    exact (Slot.seen_of_expired expired).trans (Slot.seen_of_none gone).symm
  · exact congrArg (Slot.seen now) (ghost.apart other isKey)

theorem Ghost.keys (ghost : Ghost now key space purged) :
    purged.keys = space.keys.erase key := by
  ext other
  rw [Finset.mem_erase, purged.mem_keys, space.mem_keys]
  by_cases isKey : other = key
  · subst isKey
    obtain ⟨-, -, _, -, _, isGone⟩ := ghost.there
    simp [isGone]
  · simp [isKey, ghost.apart other isKey]

theorem Ghost.addVersion (ghost : Ghost now key space purged) (keys : List Key) :
    Ghost now key (space.addVersion keys) (purged.addVersion keys) := by
  induction keys generalizing space purged with
  | nil => exact ghost
  | cons first rest ih =>
    refine ih ⟨fun other different => ?_, ?_⟩
    · simp only [bumpVersion, Function.update_apply]
      split
      · rename_i isFirst
        rw [← isFirst, ghost.apart other different]
      · exact ghost.apart other different
    · obtain ⟨value, deadline, version, isThere, past, isGone⟩ := ghost.there
      simp only [bumpVersion, Function.update_apply]
      split
      · rename_i isFirst
        rw [← isFirst, isThere, isGone]
        exact ⟨value, deadline, _, rfl, past, rfl⟩
      · exact ⟨value, deadline, version, isThere, past, isGone⟩

end Space

/-! ## Programs that get the key first -/

section Opening

variable {env : Env F} {key : Key} {space purged : Space F}

variable {op : DbOp F} {first second : Space F} {α : Type}

theorem slots_of_apart (apart : op.Apart key) :
    (dbHandle env op space).2.slots key = space.slots key := by
  cases op with
  | look other method | change other method => exact space.act_slots_ne _ (Ne.symm apart)
  | move source dest => exact space.move_slots_ne (Ne.symm apart.1) (Ne.symm apart.2)
  | replace source dest => exact space.replace_slots_ne (Ne.symm apart.1) (Ne.symm apart.2)
  | log line | ask question => rfl
  | survey question => exact absurd apart id

end Opening

/-! ## `SET`, `SETNX`, `SETEX` and `PSETEX` -/

section Setting

variable {env : Env F} {key : Key} {space purged : Space F}

def deadlineOf (now ttl : Int) : Option Int :=
  if ttl ≠ 0 then some (now + wrap64 (ttl * 1000000)) else none

variable {slot : Slot F}

def Policy.Admits (policy : Policy) (content : Option (Value F)) : Prop :=
  match policy with
  | .upsert => True
  | .insert => content = none
  | .update => content ≠ none

def setLines (now ttl : Int) (key value : Bytes) (options : List Bytes) : List Line :=
  if ttl = 0 then [toCmdLine "set" (key :: value :: options)]
  else [[some (lit "SET"), key, value],
    makeExpireCmd (str key) (now + wrap64 (ttl * 1000000))]

variable {options : List Bytes} {policy : Policy} {ttl : Int}

theorem run_putByPolicy (policy : Policy) {value : Bytes} :
    (¬ policy.Admits slot.value ∧
        (putByPolicy policy value).run (slotHandle env) ⟨slot, []⟩ = (.ok 0, ⟨slot, []⟩)) ∨
      policy.Admits slot.value ∧ ∃ notes : List Note,
        (putByPolicy policy value).run (slotHandle env) ⟨slot, []⟩ =
          (.ok 1, ⟨slot.withValue (.string value), notes.map .note⟩) := by
  obtain ⟨content, -, -⟩ := slot
  cases policy with
  | upsert =>
    refine .inr ⟨trivial, ?_⟩
    cases content with
    | none => exact ⟨[.inserted], rfl⟩
    | some content => exact ⟨[], rfl⟩
  | insert =>
    cases content with
    | none => exact .inr ⟨rfl, [.inserted], rfl⟩
    | some content => exact .inl ⟨some_ne_none _, rfl⟩
  | update =>
    cases content with
    | none => exact .inl ⟨fun present => present rfl, rfl⟩
    | some content => exact .inr ⟨some_ne_none _, [], rfl⟩

theorem run_after_notes {α : Type} {notes : List Note} {program : SlotProg F α} :
    (program.run (slotHandle env) ⟨slot, notes.map .note⟩).1 =
        (program.run (slotHandle env) ⟨slot, []⟩).1 ∧
      (program.run (slotHandle env) ⟨slot, notes.map .note⟩).2.slot =
        (program.run (slotHandle env) ⟨slot, []⟩).2.slot ∧
      (program.run (slotHandle env) ⟨slot, notes.map .note⟩).2.lines =
        (program.run (slotHandle env) ⟨slot, []⟩).2.lines := by
  rw [run_events]
  refine ⟨rfl, rfl, ?_⟩
  have none_ := notes_lines notes slot
  unfold SlotState.lines at none_ ⊢
  rw [List.filterMap_append, none_, nil_append]

theorem run_execSet (env : Env F) (slot : Slot F) (key value : Bytes)
    (read : setOptions options .upsert 0 = .ok (policy, ttl)) :
    let ended := (execSet (key :: value :: options)).run (slotHandle env) ⟨slot, []⟩
    ¬ policy.Admits slot.value ∧ ended.1 = .ok .nullBulk ∧ ended.2.slot = slot ∧
        ended.2.lines = [] ∨
      policy.Admits slot.value ∧ ended.1 = .ok .ok ∧
        ended.2.slot = ⟨some (.string value), deadlineOf env.now ttl, slot.version⟩ ∧
          ended.2.lines = setLines env.now ttl key value options := by
  dsimp only [execSet]
  rw [read]
  rcases run_putByPolicy policy with ⟨refused, put⟩ | ⟨admitted, _, put⟩
  · rw [run_bind, put]
    exact .inl ⟨refused, rfl, rfl, rfl⟩
  · rw [run_bind, put]
    refine .inr ⟨admitted, ?_⟩
    unfold deadlineOf setLines
    by_cases unlimited : ttl = 0
    · subst unlimited
      exact run_after_notes
    · rw [if_pos unlimited, if_neg unlimited, if_pos unlimited]
      exact run_after_notes

theorem run_execSet_upsert {key value : Bytes}
    (read : setOptions options .upsert 0 = .ok (.upsert, ttl)) :
    ((execSet (key :: value :: options)).run (slotHandle env) ⟨slot, []⟩).1 = .ok .ok ∧
      ((execSet (key :: value :: options)).run (slotHandle env) ⟨slot, []⟩).2.slot =
        ⟨some (.string value), deadlineOf env.now ttl, slot.version⟩ := by
  rcases run_execSet env slot key value read with ⟨refused, -⟩ | ⟨-, reply, isSlot, -⟩
  · exact absurd trivial refused
  · exact ⟨reply, isSlot⟩

theorem run_setWithTtl (env : Env F) (slot : Slot F) (factor : Int) (key : Bytes) {rawTtl : Bytes}
    (value : Bytes) (more : List Bytes) (read : parseInt (str rawTtl) = .ok ttl)
    (positive : ¬ ttl ≤ 0) :
    let ended := (setWithTtl factor (key :: rawTtl :: value :: more)).run (slotHandle env) ⟨slot, []⟩
    let deadline := env.now + wrap64 (wrap64 (ttl * factor) * 1000000)
    ended.1 = .ok .ok ∧ ended.2.slot = ⟨some (.string value), some deadline, slot.version⟩ ∧
      ended.2.lines = [toCmdLine "setex" (key :: rawTtl :: value :: more),
        makeExpireCmd (str key) deadline] := by
  dsimp only [setWithTtl]
  rw [read]
  dsimp only
  rw [if_neg positive]
  obtain ⟨content, -, _⟩ := slot
  cases content with
  | none | some content => exact ⟨rfl, rfl, rfl⟩

variable (ghost : Space.Ghost env.now key space purged)

include ghost

end Setting

/-! ## `DEL` and `MSET` -/

section Deleting

variable {env : Env F} {key : Key} {space purged : Space F}

end Deleting

/-! ## `RENAME` and `SINTERSTORE` -/

section Storing

variable {env : Env F} {key : Key} {space purged : Space F}

variable {dest : Bytes}

def IsNonEmptySet (entry : Option (Value F × Option Int)) : Prop :=
  ∃ members deadline, entry = some (.set members, deadline) ∧ members ≠ ∅

def AllSets (now : Int) (space : Space F) (args : List Bytes) : Prop :=
  ∀ arg ∈ args, IsNonEmptySet (space.seen now (str arg))

theorem run_lookAt_getAs_seen {α : Type} (env : Env F) (space : Space F) (key : Key)
    (view : Value F → Option α) :
    (lookAt key (getAs view)).run (dbHandle env) space =
      (.ok (viewed view ((space.seen env.now key).map Prod.fst)),
        (dbHandle env (.look key .getEntity) space).2) := by
  rw [lookAt_eq_onKey, run_onKey, run_getAs_answer, Slot.answer_getEntity_seen]
  rfl

def Gathered (now : Int) (space : Space F) (args : List Bytes) (sets : List (Finset Str)) : Prop :=
  List.Forall₂ (fun arg members => (∃ deadline, space.seen now (str arg) =
    some (.set members, deadline)) ∧ members ≠ ∅) args sets

theorem allSets_iff {now : Int} {space : Space F} {args : List Bytes} :
    AllSets now space args ↔ ∃ sets, Gathered now space args sets := by
  induction args with
  | nil => exact iff_of_true (fun _ member => absurd member not_mem_nil) ⟨[], .nil⟩
  | cons first rest ih =>
    refine forall_mem_cons.trans ((and_congr_right fun _ => ih).trans ?_)
    constructor
    · rintro ⟨⟨members, deadline, there, some_⟩, sets, gathered⟩
      exact ⟨members :: sets, .cons ⟨⟨deadline, there⟩, some_⟩ gathered⟩
    · rintro ⟨_, gathered⟩
      cases gathered with
      | cons found gathered =>
        obtain ⟨⟨deadline, there⟩, some_⟩ := found
        exact ⟨⟨_, deadline, there, some_⟩, _, gathered⟩

theorem getNonEmptySets_ok_iff (env : Env F) (empty : Reply) (args : List Bytes) (space : Space F) :
    ∃ found, ((lookup (getNonEmptySets empty args)).run (dbHandle env) space).1 = .ok found ∧
      ∀ sets, found = .ok sets ↔ Gathered env.now space args sets := by
  induction args generalizing space with
  | nil =>
    refine ⟨.ok [], rfl, fun sets => ?_⟩
    rw [Gathered, List.forall₂_nil_left_iff, Except.ok.injEq, eq_comm]
  | cons first rest ih =>
    obtain ⟨found, ended, isOk⟩ := ih (dbHandle env (.look (str first) .getEntity) space).2
    have still : ∀ sets, Gathered env.now (dbHandle env (.look (str first) .getEntity) space).2 rest
        sets ↔ Gathered env.now space rest sets := by
      intro sets
      unfold Gathered
      simp only [seen_of_look env (.look (str first) .getEntity) space trivial]
    have run := run_lookAt_getAs_seen env space (str first) Value.asSet
    unfold lookAt at run
    rw [getNonEmptySets, lookup_bind, run_bind, getAsSet, run, Prog.andThen_ok]
    by_cases isSet : IsNonEmptySet (space.seen env.now (str first))
    · obtain ⟨members, deadline, there, some_⟩ := isSet
      have isFirst : ∀ other, ((∃ deadline, space.seen env.now (str first) =
          some (.set other, deadline)) ∧ other ≠ ∅) ↔ other = members := by
        intro other
        rw [there]
        constructor
        · rintro ⟨⟨_, isSet⟩, _⟩
          cases isSet
          rfl
        · rintro rfl
          exact ⟨⟨deadline, rfl⟩, some_⟩
      rw [there]
      simp only [map_some, viewed, Value.asSet, getD_some]
      rw [if_neg (mt Finset.card_eq_zero.mp some_), lookup_bind, run_bind, Prog.andThen, ended]
      cases found with
      | error reply =>
        refine ⟨.error reply, rfl, fun sets => iff_of_false (fun found => by cases found) ?_⟩
        intro gathered
        cases gathered with
        | cons _ gathered => cases (isOk _).mpr ((still _).mpr gathered)
      | ok sets =>
        refine ⟨.ok (members :: sets), rfl, fun all => ?_⟩
        rw [Gathered, List.forall₂_cons_left_iff]
        constructor
        · rintro ⟨⟩
          exact ⟨members, sets, (isFirst _).mpr rfl, (still _).mp ((isOk _).mp rfl), rfl⟩
        · rintro ⟨_, others, isIt, gathered, rfl⟩
          obtain rfl := (isFirst _).mp isIt
          cases (isOk others).mpr ((still _).mpr gathered)
          rfl
    · have refused : ∀ (reply : Reply) sets, Except.error reply = Except.ok sets ↔
          Gathered env.now space (first :: rest) sets := by
        refine fun reply sets => iff_of_false (fun found => by cases found) fun gathered => ?_
        cases gathered with
        | cons found _ =>
          obtain ⟨⟨deadline, there⟩, some_⟩ := found
          exact isSet ⟨_, deadline, there, some_⟩
      cases there : space.seen env.now (str first) with
      | none => exact ⟨.error empty, rfl, refused empty⟩
      | some entry =>
        obtain ⟨value, deadline⟩ := entry
        cases value with
        | set members =>
          have none_ : members.card = 0 := by
            by_contra some_
            exact isSet ⟨members, deadline, there, mt Finset.card_eq_zero.mpr some_⟩
          refine ⟨.error empty, ?_, refused empty⟩
          simp only [map_some, viewed, Value.asSet, getD_some]
          rw [if_pos none_]
          rfl
        | _ => exact ⟨.error .wrongTypeErr, rfl, refused _⟩

end Storing

/-! ## `KEYS`, `SCAN` and `RANDOMKEY` -/

section Surveying

variable {env : Env F} {key : Key} {space purged : Space F}

/-- The same answer, where the order of the names `KEYS` and `SCAN` give is that of a map. -/
def Name.Alike (name : Name) (ended ended' : Except Stop Reply) : Prop :=
  ended = ended' ∨ ∃ names names' : List Bytes, names.Perm names' ∧
    (name = .keys ∧ ended = .ok (.multiBulk names) ∧ ended' = .ok (.multiBulk names') ∨
      name = .scan ∧ ∃ next, ended = .ok (.multiRaw [next, .multiBulk names]) ∧
        ended' = .ok (.multiRaw [next, .multiBulk names']))

theorem settled_scanDbOptions (options : List Bytes) (count : Int) (pattern scanType : Str) :
    (scanDbOptions options count pattern scanType : DbReader F _).Settled := by
  fun_induction scanDbOptions (F := F) options count pattern scanType with
  | case4 | case6 | case8 => assumption
  | case1 | case3 | case9 => exact Prog.settled_pure
  | case2 | case5 | case7 => exact Prog.settled_stop _

def Asks (F : Type) (args : List Bytes) (cursor count : Int) (pattern scanType : Str) : Prop :=
  ∃ rawCursor options, args = rawCursor :: options ∧ parseInt (str rawCursor) = .ok cursor ∧
    scanDbOptions options 10 (lit "*") [] = (pure (.ok (count, pattern, scanType)) : DbReader F _)

/-- The keys of a page that `SCAN` lists. -/
def listed (now : Int) (space : Space F) (scanType : Str) (names : List Key) : List Key :=
  if scanType = [] then names
  else names.filter fun key =>
    lit ((space.seen now key).elim "none" fun entry => entry.1.typeName) = scanType

/-- What `DictScan` finds of the keys, in no order, and the cursor to go on with. -/
def page (env : Env F) (space : Space F) (keys : Finset Key) (cursor count : Int)
    (pattern scanType : Str) : Except Stop (Multiset Key × Int) :=
  (env.dictScan keys cursor count pattern).map fun (names, next) =>
    (↑(listed env.now space scanType names), next)

end Surveying

/-! ## All data commands -/

section Commands

variable [Float64 F]

/-- What keeps a command from telling an expired key from an absent one. -/
def Spares (env : Env F) (space : Space F) (key : Key) : Name → List Bytes → Prop
  | .del, args => key ∉ args.map str
  | .set, first :: _ :: options =>
    str first = key → ∀ policy ttl, setOptions options .upsert 0 = .ok (policy, ttl) →
      policy = .upsert
  | .setnx, [first, _] => str first ≠ key
  | .mset, args => args.length % 2 = 0 → key ∉ (pairs args).map fun pair => str pair.1
  | .rename, [source, dest] =>
    ¬ (str dest = key ∧ str source ≠ key ∧
      ∃ value, space.seen env.now (str source) = some (value, none))
  | .sinterstore, dest :: source :: more =>
    ¬ (str dest = key ∧ key ∉ (source :: more).map str ∧ AllSets env.now space (source :: more))
  | .scan, args => ∀ cursor count pattern scanType, Asks F args cursor count pattern scanType →
    page env space space.keys cursor count pattern scanType =
      page env space (space.keys.erase key) cursor count pattern scanType
  | .randomkey, [] =>
    env.blocked = true ∨ env.randomKey space.keys = env.randomKey (space.keys.erase key)
  | _, _ => True

variable {args : List Bytes} {env : Env F} {key : Key} {name : Name} {space : Space F}
  {head : Bytes}

end Commands

end Godis.Database

