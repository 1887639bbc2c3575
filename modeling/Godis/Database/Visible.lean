import Godis.Database.Normal

/-!
# What can be seen of a database

A key past its deadline is not there, whether or not it has been removed already.
-/

namespace Godis.Database

open Golang Program

variable {F α : Type}

/-- The commands on data, those of `keys.go`, `string.go`, `list.go`, `hash.go`, `set.go`,
`sortedset.go` and `geo.go`. -/
def Name.isData : Name → Bool
  | .dumpkey | .existin | .renamefrom | .renameto | .renamenxto | .copyfrom | .copyto => false
  | .getver => false
  | .command | .auth | .info | .slaveof | .subscribe | .publish | .flushall | .flushdb | .save
  | .bgsave | .select | .replconf | .multi | .discard | .exec | .watch => false
  | _ => true

def commandOf : Line → Option Name
  | [] => none
  | name :: _ => Name.ofText (toLower (str name))

namespace Slot

/-- The value and the deadline of a key that is there. -/
def seen (now : Int) (slot : Slot F) : Option (Value F × Option Int) :=
  if slot.expired now then none else slot.value.map fun value => (value, slot.deadline)

variable {now : Int} {slot first second : Slot F}

theorem seen_of_live (live : slot.Live now) :
    slot.seen now = slot.value.map fun value => (value, slot.deadline) := by
  have notExpired : slot.expired now = false := live
  rw [seen, notExpired]
  rfl

theorem seen_of_expired (expired : slot.expired now = true) :
    slot.seen now = none := by
  rw [seen, if_pos expired]

theorem seen_of_none (none_ : slot.value = none) :
    slot.seen now = none := by
  rw [seen, none_]
  split
  · rfl
  · rfl

@[simp]
theorem seen_remove : slot.remove.seen now = none :=
  seen_of_none rfl

theorem seen_congr (value : first.value = second.value)
    (deadline : first.deadline = second.deadline) : first.seen now = second.seen now := by
  unfold seen expired
  rw [value, deadline]

theorem seen_later {later : Int} (le : now ≤ later) (same : first.seen now = second.seen now) :
    first.seen later = second.seen later := by
  have gone : ∀ slot : Slot F, slot.seen now = none → slot.seen later = none := by
    intro slot hidden
    by_cases expired : slot.expired now = true
    · refine seen_of_expired ?_
      unfold Slot.expired at expired ⊢
      split at expired
      · cases expired
      · rw [decide_eq_true_eq] at expired ⊢
        omega
    · rw [seen, if_neg expired, Option.map_eq_none_iff] at hidden
      exact seen_of_none hidden
  have content : ∀ slot : Slot F, ∀ entry, slot.seen now = some entry →
      slot.value = some entry.1 ∧ slot.deadline = entry.2 := by
    intro slot entry there
    rw [seen] at there
    split at there
    · cases there
    · obtain ⟨_, isValue, rfl⟩ := Option.map_eq_some_iff.mp there
      exact ⟨isValue, rfl⟩
  cases there : first.seen now with
  | none => rw [gone first there, gone second (same ▸ there)]
  | some entry =>
    obtain ⟨firstValue, firstDeadline⟩ := content first entry there
    obtain ⟨secondValue, secondDeadline⟩ := content second entry (same ▸ there)
    exact seen_congr (firstValue.trans secondValue.symm) (firstDeadline.trans secondDeadline.symm)

theorem seen_look (now : Int) (slot : Slot F) (method : Look) :
    (method.exec now slot).slot.seen now = slot.seen now := by
  by_cases expired : slot.expired now = true
  · rw [seen_of_expired expired]
    cases method with
    | getEntity =>
      cases present : slot.value with
      | none => simpa only [Look.exec, present] using seen_of_expired expired
      | some value => simp only [Look.exec, present, if_pos expired, seen_remove]
    | isExpired =>
      simp only [Look.exec, if_pos expired, seen_remove]
    | peek | deadline | version => exact seen_of_expired expired
  · have live : slot.Live now := Bool.eq_false_iff.mpr expired
    rw [(exec_live live method).1]

theorem answer_getEntity_seen (now : Int) (slot : Slot F) :
    (Look.exec now slot .getEntity).answer = (slot.seen now).map Prod.fst := by
  by_cases expired : slot.expired now = true
  · rw [seen_of_expired expired]
    cases present : slot.value with
    | none =>
      simp only [Look.exec, present]
      rfl
    | some value =>
      simp only [Look.exec, present, if_pos expired]
      rfl
  · have live : slot.Live now := Bool.eq_false_iff.mpr expired
    rw [answer_getEntity live, seen_of_live live, Option.map_map]
    exact Option.map_id'.symm

theorem live_of_seen {value : Value F} {deadline : Option Int}
    (there : slot.seen now = some (value, deadline)) :
    slot.Live now ∧ slot.value = some value ∧ slot.deadline = deadline := by
  rw [seen] at there
  split at there
  · cases there
  · rename_i notExpired
    obtain ⟨_, isValue, same⟩ := Option.map_eq_some_iff.mp there
    cases same
    exact ⟨Bool.eq_false_iff.mpr notExpired, isValue, rfl⟩

end Slot

namespace Space

def seen (now : Int) (space : Space F) (key : Key) : Option (Value F × Option Int) :=
  (space.slots key).seen now

theorem seen_addVersion (now : Int) (space : Space F) (keys : List Key) (key : Key) :
    (space.addVersion keys).seen now key = space.seen now key :=
  Slot.seen_congr (space.addVersion_slot keys key).1 (space.addVersion_slot keys key).2

@[simp]
theorem logged_addVersion (space : Space F) (keys : List Key) :
    (space.addVersion keys).logged = space.logged := by
  rw [logged, addVersion_events, logged]

theorem seen_write (now : Int) (space : Space F) (key : Key) (state : SlotState F)
    (same : state.slot.seen now = (space.slots key).seen now) (other : Key) :
    (space.write key state).seen now other = space.seen now other := by
  unfold seen
  rw [write_slots]
  split
  · rename_i isKey
    rw [same, isKey]
  · rfl

def Same (now : Int) (before after : Space F) : Prop :=
  ∀ key, after.seen now key = before.seen now key

variable {now : Int} {space : Space F}

theorem same_write_iff {key : Key} {state : SlotState F} :
    Same now space (space.write key state) ↔
      state.slot.seen now = (space.slots key).seen now := by
  refine ⟨fun same => ?_, fun same => space.seen_write now key state same⟩
  have here := same key
  unfold seen at here
  rwa [write_slots_self] at here

theorem same_addVersion_iff {after : Space F} (keys : List Key) :
    Same now (space.addVersion keys) after ↔ Same now space after := by
  unfold Same
  simp only [space.seen_addVersion]

end Space

def DbOp.IsLook : DbOp F → Prop
  | .look _ _ => True
  | .survey _ => True
  | .ask _ => True
  | _ => False

theorem notes_lines (notes : List Note) (slot : Slot F) :
    (⟨slot, notes.map .note⟩ : SlotState F).lines = [] := by
  simp [SlotState.lines, SlotEvent.line, List.filterMap_eq_nil_iff]

variable (env : Env F)

theorem seen_of_look (op : DbOp F) (space : Space F) (look : op.IsLook) (key : Key) :
    (dbHandle env op space).2.seen env.now key = space.seen env.now key := by
  cases op with
  | look target method =>
    exact space.seen_write env.now target _ (Slot.seen_look env.now _ method) key
  | survey question => rfl
  | ask question => rfl
  | _ => exact absurd look id

theorem logged_of_look (op : DbOp F) (space : Space F) (look : op.IsLook) :
    (dbHandle env op space).2.logged = space.logged := by
  cases op with
  | look target method =>
    change (space.write target _).logged = _
    rw [Space.write_logged, notes_lines, List.append_nil]
  | survey question => rfl
  | ask question => rfl
  | _ => exact absurd look id

variable (program : DbReader F α)

theorem uses_lookup : (lookup program).Uses DbOp.IsLook := by
  refine Prog.Uses.of_sent fun op => ?_
  cases op with
  | look key method | survey question | ask question => trivial

theorem uses_lookAt {key : Key} {program : SlotReader F α} :
    (lookAt key program).Uses DbOp.IsLook :=
  uses_lookup _

theorem run_lookup_seen (space : Space F) :
    space.Same env.now ((lookup program).run (dbHandle env) space).2 ∧
      ((lookup program).run (dbHandle env) space).2.logged = space.logged :=
  (uses_lookup program).run_preserves
    (fun reached : Space F => space.Same env.now reached ∧ reached.logged = space.logged)
    (fun op state look holds =>
      ⟨fun key => (seen_of_look env op state look key).trans (holds.1 key),
        (logged_of_look env op state look).trans holds.2⟩)
    ⟨fun _ => rfl, rfl⟩

end Godis.Database
