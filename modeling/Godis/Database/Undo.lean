import Godis.Database.Filled

/-!
# The lines that recreate keys (`rollbackGivenKeys` of `database/tx_utils.go`)

For every key a line that removes it, and for one that is there a line for its value and one for
its deadline.
-/

namespace Godis.Database

open Golang Program List
open Prog (andThen_ok run_bind)

variable {F : Type}

def Slot.opened (now : Int) (slot : Slot F) : Slot F :=
  (Look.exec now slot .getEntity).slot

theorem Slot.seen_opened (now : Int) (slot : Slot F) : (slot.opened now).seen now = slot.seen now :=
  slot.seen_look now .getEntity

variable {now : Int} {slot : Slot F}

theorem Slot.opened_of_none (none_ : slot.value = none) :
    slot.opened now = slot := by
  simp only [opened, Look.exec, none_]

theorem Slot.opened_of_live (live : slot.Live now) :
    slot.opened now = slot :=
  (exec_live live .getEntity).1

theorem Slot.opened_of_expired (there : slot.value ≠ none) (expired : slot.expired now = true) :
    slot.opened now = slot.remove := by
  obtain ⟨_, isValue⟩ := Option.ne_none_iff_exists'.mp there
  simp only [opened, Look.exec, isValue, if_pos expired]

theorem Slot.opened_opened (now : Int) (slot : Slot F) :
    (slot.opened now).opened now = slot.opened now := by
  by_cases expired : slot.expired now = true
  · by_cases none_ : slot.value = none
    · rw [opened_of_none none_, opened_of_none none_]
    · rw [opened_of_expired none_ expired]
      exact opened_of_none rfl
  · have live : slot.Live now := Bool.eq_false_iff.mpr expired
    rw [opened_of_live live, opened_of_live live]

section Lines

variable [Float64 F] (env : Env F) (key : Str)

/-- The line `EntityToCmd` makes, but for a sorted set without members. -/
def dumpLine : Value F → Line
  | .string bytes => [some (lit "SET"), some key, bytes]
  | .list elements => some (lit "RPUSH") :: some key :: elements
  | .set members => toCmdLineOfStr "SADD" (key :: env.order members)
  | .hash fields => toCmdLineOfStr "HMSET" (key :: (env.order fields.keys).flatMap fun field =>
    [field, (fields.lookup field).getD []])
  | .zset scores => toCmdLineOfStr "ZADD" (key :: (ranked scores).reverse.flatMap fun element =>
    [Float64.format element.score, element.member])

def ttlLine : Option Int → Line
  | none => toCmdLineOfStr "PERSIST" [key]
  | some deadline => makeExpireCmd key deadline

def undoLines : Option (Value F × Option Int) → List Line
  | none => [toCmdLineOfStr "DEL" [key]]
  | some (value, deadline) =>
    [toCmdLineOfStr "DEL" [key], dumpLine env key value, ttlLine key deadline]

def Value.Dumpable : Value F → Prop
  | .zset scores => scores.keys.card ≠ 0
  | _ => True

variable {value : Value F} {deadline : Option Int}

theorem run_entityToCmd (dumpable : value.Dumpable) (state : SlotState F) :
    (look (entityToCmd key value)).run (slotHandle env) state = (.ok (dumpLine env key value), state) := by
  cases value with
  | zset scores =>
    rw [entityToCmd, if_neg dumpable]
    rfl
  | _ => rfl

omit [Float64 F] in
theorem run_toTTLCmd (state : SlotState F) :
    (look (toTTLCmd key)).run (slotHandle env) state =
      (.ok (ttlLine key state.slot.deadline), state) := by
  obtain ⟨⟨_, deadline, -⟩, events⟩ := state
  cases deadline with
  | none | some deadline => exact Prod.ext rfl (congrArg (SlotState.mk _) (append_nil events))

theorem run_dumping {finish : Line → Line → SlotReader F α} (dumpable : value.Dumpable)
    (state : SlotState F) :
    (look (entityToCmd key value >>= fun dump => toTTLCmd key >>= finish dump)).run
        (slotHandle env) state =
      (look (finish (dumpLine env key value) (ttlLine key state.slot.deadline))).run (slotHandle env)
        state := by
  rw [look_bind, run_bind, run_entityToCmd env key dumpable, andThen_ok, look_bind, run_bind,
    run_toTTLCmd, andThen_ok]

theorem run_dumping_panics {rest : Line → SlotReader F α} (bad : ¬ value.Dumpable)
    (state : SlotState F) :
    (look (entityToCmd key value >>= rest)).run (slotHandle env) state = (.error .panic, state) := by
  cases value with
  | zset scores =>
    rw [entityToCmd, if_pos (not_not.mp bad)]
    rfl
  | _ => exact absurd trivial bad

theorem run_rollbackKey {events : List SlotEvent}
    (dumpable : ∀ value deadline, slot.seen env.now = some (value, deadline) → value.Dumpable) :
    (look (rollbackKey key)).run (slotHandle env) ⟨slot, events⟩ =
      (.ok (undoLines env key (slot.seen env.now)),
        ⟨slot.opened env.now, events ++ (Look.exec env.now slot .getEntity).notes.map .note⟩) := by
  rw [rollbackKey, look_bind, run_bind, run_getEntity]
  cases there : slot.seen env.now with
  | none => rfl
  | some entry =>
    obtain ⟨value, deadline⟩ := entry
    obtain ⟨live, _, isDeadline⟩ := Slot.live_of_seen there
    have opened : (Look.exec env.now slot .getEntity).slot.deadline = deadline := by
      rw [(exec_live live .getEntity).1, isDeadline]
    refine (run_dumping env key (dumpable value deadline there) _).trans ?_
    rw [opened]
    rfl

theorem run_rollbackKey_panics (slot : Slot F) (events : List SlotEvent)
    (there : slot.seen env.now = some (value, deadline)) (bad : ¬ value.Dumpable) :
    ∃ after, (look (rollbackKey key)).run (slotHandle env) ⟨slot, events⟩ = (.error .panic, after) := by
  rw [rollbackKey, look_bind, run_bind, run_getEntity, there]
  exact ⟨_, run_dumping_panics env key bad _⟩

theorem run_rollbackKey_at (space : Space F)
    (dumpable : ∀ value deadline, space.seen env.now key = some (value, deadline) →
      value.Dumpable) :
    (lookAt key (rollbackKey key)).run (dbHandle env) space =
      (.ok (undoLines env key (space.seen env.now key)),
        (dbHandle env (.look key .getEntity) space).2) := by
  rw [lookAt_eq_onKey, run_onKey, Space.read, run_rollbackKey _ _ dumpable]
  rfl

theorem run_rollbackGivenKeys (keys : List Key) (space : Space F)
    (dumpable : ∀ key ∈ keys, ∀ value deadline, space.seen env.now key = some (value, deadline) →
      value.Dumpable) :
    ∃ after, (lookup (rollbackGivenKeys keys)).run (dbHandle env) space =
        (.ok (keys.flatMap fun key => undoLines env key (space.seen env.now key)), after) ∧
      ∀ key, after.slots key =
        if key ∈ keys then (space.slots key).opened env.now else space.slots key := by
  induction keys generalizing space with
  | nil => exact ⟨space, rfl, fun _ => rfl⟩
  | cons first rest ih =>
    obtain ⟨dumpableFirst, dumpableRest⟩ := forall_mem_cons.mp dumpable
    have slots : ∀ key, (dbHandle env (.look first .getEntity) space).2.slots key =
        if key = first then (space.slots key).opened env.now else space.slots key := by
      intro key
      refine (Space.write_slots _ _ _ _).trans ?_
      split
      · rename_i same
        rw [same]
        rfl
      · rfl
    have same := seen_of_look env (.look first .getEntity) space trivial
    obtain ⟨after, later, afterSlots⟩ := ih (dbHandle env (.look first .getEntity) space).2
      (fun key member value deadline there =>
        dumpableRest key member value deadline ((same key).symm.trans there))
    have step := run_rollbackKey_at env first space dumpableFirst
    simp only [same] at later
    refine ⟨after, ?_, fun key => ?_⟩
    · rw [rollbackGivenKeys, lookup_bind, run_bind]
      change Prog.andThen ((lookAt first (rollbackKey first)).run (dbHandle env) space) _ = _
      rw [step, andThen_ok, lookup_bind, run_bind, later]
      rfl
    · rw [afterSlots, slots]
      by_cases isFirst : key = first
      · have member : key ∈ first :: rest := isFirst ▸ mem_cons_self
        rw [if_pos isFirst, if_pos member, Slot.opened_opened, ite_self]
      · rw [if_neg isFirst]
        simp only [mem_cons, isFirst, false_or]

theorem run_rollbackGivenKeys_panics (keys : List Key) (space : Space F) {key : Key}
    (member : key ∈ keys) (there : space.seen env.now key = some (value, deadline))
    (bad : ¬ value.Dumpable) :
    ∃ after, (lookup (rollbackGivenKeys keys)).run (dbHandle env) space = (.error .panic, after) := by
  induction keys generalizing space with
  | nil => cases member
  | cons first rest ih =>
    rw [rollbackGivenKeys, lookup_bind, run_bind]
    change ∃ after, Prog.andThen ((lookAt first (rollbackKey first)).run (dbHandle env) space) _ = _
    by_cases dumpable : ∀ value deadline, space.seen env.now first = some (value, deadline) →
        value.Dumpable
    · have different : key ≠ first := by
        rintro rfl
        exact bad (dumpable value deadline there)
      have later := (mem_cons.mp member).resolve_left different
      have same := seen_of_look env (.look first .getEntity) space trivial
      obtain ⟨after, panics⟩ := ih (dbHandle env (.look first .getEntity) space).2 later
        ((same key).trans there)
      rw [run_rollbackKey_at env first space dumpable, andThen_ok, lookup_bind,
        run_bind, panics]
      exact ⟨after, rfl⟩
    · simp only [not_forall] at dumpable
      obtain ⟨_, _, here, badFirst⟩ := dumpable
      obtain ⟨_, panics⟩ := run_rollbackKey_panics env first (space.slots first) [] here badFirst
      rw [lookAt_eq_onKey, run_onKey, Space.read, panics]
      exact ⟨_, rfl⟩

end Lines

end Godis.Database

