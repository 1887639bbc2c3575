import Godis.Database.NoEffect
import Godis.Database.Renaming

/-!
# `MGET`, `DEL` and `MSET`, slot by slot
-/

namespace Godis.Database

open Golang Program List
open Prog (andThen_ok run_bind)

variable {F : Type}

/-! ## `MGET` -/

def stringAt (now : Int) (space : Space F) (key : Key) : Bytes :=
  match stringSeen (space.seen now key) with
  | .ok bytes => bytes
  | .error _ => none

variable {first second : Space F} {now : Int} {args : List Bytes}

theorem stringAt_congr {key : Key} (same : first.seen now key = second.seen now key) :
    stringAt now first key = stringAt now second key := by
  rw [stringAt, same, stringAt]

theorem run_lookAt_getAsString {env : Env F} {space : Space F} {key : Key} :
    (lookAt key getAsString).run (dbHandle env) space =
      (.ok (stringSeen (space.seen env.now key)),
        (dbHandle env (.look key .getEntity) space).2) := by
  rw [lookAt_eq_onKey, run_onKey, run_getAsString]
  rfl

variable (env : Env F)

theorem run_getStrings (args : List Bytes) (space : Space F) :
    ∃ after, (lookup (getStrings args)).run (dbHandle env) space =
      (.ok (args.map fun arg => stringAt env.now space (str arg)), after) := by
  induction args generalizing space with
  | nil => exact ⟨space, rfl⟩
  | cons first rest ih =>
    obtain ⟨after, later⟩ := ih (dbHandle env (.look (str first) .getEntity) space).2
    have same : ∀ key, stringAt env.now (dbHandle env (.look (str first) .getEntity) space).2 key =
        stringAt env.now space key := fun key =>
      stringAt_congr (seen_of_look env (.look (str first) .getEntity) space trivial key)
    simp only [same] at later
    refine ⟨after, ?_⟩
    rw [getStrings, lookup_bind, run_bind]
    change Prog.andThen ((lookAt (str first) getAsString).run (dbHandle env) space) _ = _
    rw [run_lookAt_getAsString, andThen_ok, lookup_bind, run_bind, later]
    rfl

theorem run_execMGet {env : Env F} {space : Space F} :
    ∃ after, (lookup (execMGet args)).run (dbHandle env) space =
      (.ok (.multiBulk (args.map fun arg => stringAt env.now space (str arg))), after) := by
  obtain ⟨after, found⟩ := run_getStrings env args space
  refine ⟨after, ?_⟩
  rw [execMGet, lookup_bind, run_bind, found]
  rfl

/-! ## `EXISTS` -/

def visible (now : Int) (space : Space F) (keys : List Key) : List Key :=
  keys.filter fun key => (space.seen now key).isSome

theorem visible_congr (same : first.Same now second) (keys : List Key) :
    visible now second keys = visible now first keys := by
  refine List.filter_congr fun key _ => ?_
  rw [same key]

theorem visible_cons {space : Space F} {key : Key} {rest : List Key} :
    visible now space (key :: rest) =
      if (space.seen now key).isSome then key :: visible now space rest
      else visible now space rest :=
  List.filter_cons

theorem run_existing (args : List Bytes) (space : Space F) :
    ∃ after, (lookup (existing args)).run (dbHandle env) space =
      (.ok (visible env.now space (args.map str)), after) := by
  induction args generalizing space with
  | nil => exact ⟨space, rfl⟩
  | cons first rest ih =>
    obtain ⟨after, later⟩ := ih (dbHandle env (.look (str first) .getEntity) space).2
    have same : space.Same env.now (dbHandle env (.look (str first) .getEntity) space).2 :=
      seen_of_look env (.look (str first) .getEntity) space trivial
    rw [visible_congr same] at later
    refine ⟨after, ?_⟩
    rw [existing, lookup_bind, run_bind]
    change Prog.andThen ((lookAt (str first) getEntity).run (dbHandle env) space) _ = _
    rw [run_lookAt_getEntity, map_cons, visible_cons]
    cases space.seen env.now (str first) with
    | none => exact later
    | some entry =>
      change (lookup (existing rest >>= _)).run _ _ = _
      rw [lookup_bind, run_bind, later]
      rfl

/-! ## `DEL` -/

def stored (space : Space F) (keys : List Key) : Finset Key :=
  keys.toFinset.filter fun key => (space.slots key).value.isSome

def Slot.removeIfPresent (slot : Slot F) : Slot F :=
  if slot.value.isSome then slot.remove else slot

def delSlot (keys : List Key) (key : Key) (slot : Slot F) : Slot F :=
  if key ∈ keys then slot.removeIfPresent else slot

theorem run_lookAt_peek {env : Env F} {space : Space F} {key : Key} :
    (lookAt key peek).run (dbHandle env) space = (.ok (space.slots key).value, space) :=
  Prod.ext rfl (space.write_read key)

theorem run_removes_cons (space : Space F) (first : Key) (rest : List Key) :
    (removes (first :: rest)).run (dbHandle env) space =
      if (space.slots first).value.isSome then
        Prog.andThen ((removes rest).run (dbHandle env)
          (dbHandle env (.change first .remove) space).2) fun count after => (.ok (count + 1), after)
      else (removes rest).run (dbHandle env) space := by
  rw [removes, run_bind, run_lookAt_peek]
  cases (space.slots first).value with
  | none => rfl
  | some value => exact run_bind (dbHandle env) (removes rest) _ _

theorem run_removes (keys : List Key) (space : Space F) :
    ∃ after, (removes keys).run (dbHandle env) space = (.ok (stored space keys).card, after) ∧
      after.logged = space.logged ∧
        ∀ key, after.slots key = delSlot keys key (space.slots key) := by
  induction keys generalizing space with
  | nil => exact ⟨space, rfl, rfl, fun key => (if_neg not_mem_nil).symm⟩
  | cons first rest ih =>
    rw [run_removes_cons]
    by_cases present : (space.slots first).value.isSome = true
    · obtain ⟨after, ended, logged, slots⟩ := ih (dbHandle env (.change first .remove) space).2
      have removed : ∀ key, (dbHandle env (.change first .remove) space).2.slots key =
          if key = first then (space.slots first).remove else space.slots key :=
        fun key => Space.write_slots _ _ _ _
      have apart : first ∉ stored (dbHandle env (.change first .remove) space).2 rest := by
        simp [stored, removed, Slot.remove]
      have split : stored space (first :: rest) =
          insert first (stored (dbHandle env (.change first .remove) space).2 rest) := by
        ext key
        by_cases isFirst : key = first
        · simp [stored, isFirst, present]
        · simp [stored, removed, isFirst]
      rw [if_pos present, ended, split, Finset.card_insert_of_notMem apart]
      refine ⟨after, rfl, ?_, fun key => ?_⟩
      · rw [logged]
        change (space.write first _).logged = _
        rw [Space.write_logged, notes_lines, append_nil]
      · rw [slots key, removed]
        unfold delSlot
        by_cases isFirst : key = first
        · subst isFirst
          have twice : (space.slots key).remove.removeIfPresent = (space.slots key).remove := rfl
          rw [if_pos rfl, if_pos mem_cons_self, twice, ite_self, Slot.removeIfPresent,
            if_pos present]
        · simp only [isFirst, if_false, mem_cons, false_or]
    · obtain ⟨after, ended, logged, slots⟩ := ih space
      have same : stored space (first :: rest) = stored space rest := by
        rw [stored, List.toFinset_cons, Finset.filter_insert, if_neg present, stored]
      rw [if_neg present, same]
      refine ⟨after, ended, logged, fun key => ?_⟩
      rw [slots key]
      unfold delSlot
      by_cases isFirst : key = first
      · subst isFirst
        rw [if_pos mem_cons_self, Slot.removeIfPresent, if_neg present, ite_self]
      · simp only [isFirst, mem_cons, false_or]

theorem run_execDel {env : Env F} {space : Space F} :
    ∃ after, (execDel args).run (dbHandle env) space =
        (.ok (.int (stored space (args.map str)).card), after) ∧
      after.logged = (if (stored space (args.map str)).Nonempty then
        space.logged ++ [toCmdLine "del" args] else space.logged) ∧
      ∀ key, after.slots key = delSlot (args.map str) key (space.slots key) := by
  obtain ⟨after, ended, logged, slots⟩ := run_removes env (args.map str) space
  rw [execDel, run_bind, ended, andThen_ok]
  simp only [← Finset.card_pos]
  split
  · exact ⟨_, rfl, (Space.log_logged after _).trans (by rw [logged]), slots⟩
  · exact ⟨after, rfl, logged, slots⟩

/-! ## `MSET` -/

def putStrings (space : Space F) (entries : List (Bytes × Bytes)) : Space F :=
  entries.foldl (fun space entry => (space.act (str entry.1)
    ((space.slots (str entry.1)).putEntity (.string entry.2))).2) space

theorem run_putAll (entries : List (Bytes × Bytes)) (space : Space F) :
    (putAll entries).run (dbHandle env) space = (.ok (), putStrings space entries) := by
  induction entries generalizing space with
  | nil => rfl
  | cons entry rest ih =>
    exact ih _

def lastPut : List (Bytes × Bytes) → Key → Option Bytes
  | [], _ => none
  | (first, value) :: rest, key =>
    (lastPut rest key).or (if str first = key then some value else none)

variable {entries : List (Bytes × Bytes)} {key : Key}

theorem lastPut_of_mem (member : key ∈ entries.map fun entry => str entry.1) :
    ∃ value, lastPut entries key = some value := by
  induction entries with
  | nil => exact absurd member not_mem_nil
  | cons entry rest ih =>
    rw [lastPut]
    cases later : lastPut rest key with
    | some value => exact ⟨value, rfl⟩
    | none =>
      rcases mem_cons.mp member with isFirst | inRest
      · exact ⟨entry.2, if_pos isFirst.symm⟩
      · obtain ⟨_, put⟩ := ih inRest
        cases later.symm.trans put

theorem lastPut_of_notMem (outside : key ∉ entries.map fun entry => str entry.1) :
    lastPut entries key = none := by
  induction entries with
  | nil => rfl
  | cons entry rest ih =>
    rw [map_cons, mem_cons, not_or] at outside
    rw [lastPut, ih outside.2]
    exact if_neg (Ne.symm outside.1)

def msetSlot (entries : List (Bytes × Bytes)) (key : Key) (slot : Slot F) : Slot F :=
  match lastPut entries key with
  | none => slot
  | some value => slot.withValue (.string value)

theorem putStrings_slots (space : Space F) (entries : List (Bytes × Bytes)) (key : Key) :
    (putStrings space entries).slots key = msetSlot entries key (space.slots key) := by
  induction entries generalizing space with
  | nil => rfl
  | cons entry rest ih =>
    obtain ⟨first, value⟩ := entry
    have placed : (space.act (str first) ((space.slots (str first)).putEntity
        (.string value))).2.slots key =
          if key = str first then (space.slots (str first)).withValue (.string value)
          else space.slots key := by
      rw [← putEntity_slot]
      exact Space.write_slots _ _ _ _
    refine (ih _).trans ?_
    rw [placed, msetSlot, msetSlot, lastPut]
    by_cases isFirst : key = str first
    · subst isFirst
      rw [if_pos rfl, if_pos rfl]
      cases lastPut rest (str first) with
      | none | some later => rfl
    · rw [if_neg isFirst, if_neg (Ne.symm isFirst)]
      cases lastPut rest key with
      | none | some later => rfl

theorem run_execMSet (even : args.length % 2 = 0) (space : Space F) :
    (execMSet args).run (dbHandle env) space =
      (.ok .ok, (putStrings space (pairs args)).noteLine (toCmdLine "mset" args)) := by
  rw [execMSet, if_neg (not_not.mpr even), run_bind, run_putAll]
  rfl

theorem run_execMSet_slots {env : Env F} (even : args.length % 2 = 0) {space : Space F} :
    ∃ after, (execMSet args).run (dbHandle env) space = (.ok .ok, after) ∧
      ∀ key, after.slots key = msetSlot (pairs args) key (space.slots key) :=
  ⟨_, run_execMSet env even space, putStrings_slots space (pairs args)⟩

/-! ## Command lines -/

section Lines

variable [Float64 F] (env : Env F)

theorem validateArity_of_le {arity : Int} {line : Line} (negative : arity < 0)
    (enough : -arity ≤ line.length) : validateArity arity line = true := by
  rw [validateArity, if_neg (Int.not_le.mpr negative)]
  exact decide_eq_true enough

variable {args : List Bytes} {head : Bytes}

theorem validateArity_of_two (filled : args ≠ []) :
    validateArity (-2) (head :: args) = true := by
  have positive := length_pos_iff.mpr filled
  refine validateArity_of_le (by decide) ?_
  rw [length_cons]
  omega

theorem validateArity_of_three (filled : 2 ≤ args.length) :
    validateArity (-3) (head :: args) = true := by
  refine validateArity_of_le (by decide) ?_
  rw [length_cons]
  omega

theorem run_exec_mget (named : toLower (str head) = lit "mget") (filled : args ≠ []) (db : Space F) :
    ∃ after, (exec (head :: args)).run (dbHandle env) db =
      (.ok (.multiBulk (args.map fun arg => stringAt env.now db (str arg))), after) := by
  rw [exec_eq (congrArg Name.ofText named) (validateArity_of_two filled)]
  exact run_execMGet

theorem run_exec_del (named : toLower (str head) = lit "del") (filled : args ≠ []) (db : Space F) :
    ∃ after, (exec (head :: args)).run (dbHandle env) db =
        (.ok (.int (stored db (args.map str)).card), after) ∧
      ∀ key, after.slots key = delSlot (args.map str) key (db.slots key) := by
  obtain ⟨after, done, -, slots⟩ := run_execDel
  rw [exec_eq (congrArg Name.ofText named) (validateArity_of_two filled)]
  exact ⟨after, done, slots⟩

theorem run_exec_mset (named : toLower (str head) = lit "mset") (filled : 2 ≤ args.length)
    (even : args.length % 2 = 0) (db : Space F) :
    ∃ after, (exec (head :: args)).run (dbHandle env) db = (.ok .ok, after) ∧
      ∀ key, after.slots key = msetSlot (pairs args) key (db.slots key) := by
  rw [exec_eq (congrArg Name.ofText named) (validateArity_of_three filled)]
  exact run_execMSet_slots even

end Lines

end Godis.Database
