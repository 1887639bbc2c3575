import Godis.Cluster.Rollback

/-!
# Keys recreated from their lines

The lines of `rollbackGivenKeys` executed from the first to the last, and the payloads of `DumpKey`
loaded by `RenameTo`, bring back values and, where an `int64` has their nanoseconds, deadlines.
-/

namespace Godis.Database

open Golang Program List

variable {F : Type}

theorem wholeMillis_loadedDeadline_iff {deadline : Int} :
    wholeMillis (loadedDeadline deadline) = wholeMillis deadline ↔ InInt64 deadline := by
  have loaded : loadedDeadline deadline = wholeMillis (wrap64 deadline) := by
    rw [← wholeMillis_of_inInt64 inInt64_wrap64, unixMillis,
      wrap64_of_inInt64 inInt64_wrap64]
    rfl
  have close : ∀ time : Int, wholeMillis time < time + 1000000 ∧ time < wholeMillis time + 1000000 := by
    intro time
    have parts := Int.tmod_add_mul_tdiv time 1000000
    have size : (time.tmod 1000000).natAbs = time.natAbs % 1000000 := Int.natAbs_tmod time 1000000
    unfold wholeMillis
    omega
  rw [loaded, wholeMillis_wholeMillis]
  refine ⟨fun same => ?_, fun fits => by rw [wrap64_of_inInt64 fits]⟩
  have here := close deadline
  have there := close (wrap64 deadline)
  rw [same] at there
  unfold wrap64 at there
  unfold InInt64
  omega

theorem map_loadedDeadline_iff {deadline : Option Int} :
    (deadline.map loadedDeadline).map wholeMillis = deadline.map wholeMillis ↔
      ∀ time, deadline = some time → InInt64 time := by
  cases deadline with
  | none => simp
  | some time => simp [wholeMillis_loadedDeadline_iff]

/-- The key has the value that could be seen, and its deadline to the millisecond. -/
def Slot.Recreates (slot : Slot F) : Option (Value F × Option Int) → Prop
  | none => slot.value = none
  | some (value, deadline) =>
    slot.value = some value ∧ slot.deadline.map wholeMillis = deadline.map wholeMillis

/-- A key without a value has no deadline left, one that `DEL` would not clear. -/
def Slot.Clean (slot : Slot F) : Prop :=
  slot.value = none → slot.deadline = none

def Value.isString : Value F → Bool
  | .string _ => true
  | _ => false

section Recreated

variable {slot : Slot F} {now : Int} {value : Value F} {deadline : Option Int}

/-- The slot after the undo lines of its key. -/
def Slot.recreated (now : Int) (slot : Slot F) : Option (Value F × Option Int) → Slot F
  | none => slot.removeIfPresent
  | some (value, deadline) =>
    let loaded := slot.removeIfPresent.loaded value
    if loaded.expired now then loaded.remove else loaded.withDeadline (deadline.map loadedDeadline)

theorem Slot.loaded_value : (slot.loaded value).value = some value := by
  cases value <;> rfl

theorem Slot.clean_recreated : (slot.recreated now (some (value, deadline))).Clean := by
  unfold recreated
  dsimp only
  split
  · exact fun _ => rfl
  · intro gone
    cases loaded_value.symm.trans gone

theorem Slot.recreated_of_spared (spared : value.isString = false → slot.Clean) :
    ∃ version, slot.recreated now (some (value, deadline)) =
      ⟨some value, deadline.map loadedDeadline, version⟩ := by
  have unlimited : (slot.removeIfPresent.loaded value).deadline = none := by
    cases value with
    | string bytes => rfl
    | _ =>
      change slot.removeIfPresent.deadline = none
      unfold removeIfPresent
      split
      · rfl
      · rename_i absent
        exact spared rfl (Option.not_isSome_iff_eq_none.mp absent)
  have live : (slot.removeIfPresent.loaded value).expired now = false := live_of_none unlimited
  refine ⟨(slot.removeIfPresent.loaded value).version, ?_⟩
  unfold recreated withDeadline
  dsimp only
  rw [live, if_neg Bool.false_ne_true, loaded_value]

theorem Slot.recreated_late (other : value.isString = false) (absent : slot.value = none)
    {left : Int} (isLeft : slot.deadline = some left) :
    (slot.recreated (left + 1) (some (value, deadline))).value = none := by
  have kept : slot.removeIfPresent = slot := by
    rw [removeIfPresent, absent]
    rfl
  have late : (slot.loaded value).expired (left + 1) = true := by
    have isLate : (slot.loaded value).deadline = some left := by
      cases value with
      | string bytes => cases other
      | _ => exact isLeft
    rw [expired, isLate]
    exact decide_eq_true (Int.lt_succ left)
  rw [recreated, kept, late, if_pos rfl]
  rfl

/-- A string of which the bytes are now others. -/
def Value.heldAs (kept : Str) : Value F → Value F
  | .string (some _) => .string (some kept)
  | value => value

variable {kept : Str}

variable (kept) in
theorem Value.heldAs_kind : (value.heldAs kept).isString = value.isString ∧
    (value.heldAs kept).isEmptyCollection = value.isEmptyCollection := by
  unfold heldAs
  split <;> exact ⟨rfl, rfl⟩

theorem Value.heldAs_eq_iff :
    value.heldAs kept = value ↔ ∀ bytes, value = .string (some bytes) → kept = bytes := by
  unfold heldAs
  split
  · simp
  · rename_i other
    exact iff_of_true rfl fun bytes isString => absurd isString (other bytes)

theorem Slot.recreates_heldAs_iff (spared : value.isString = false → slot.Clean) :
    (slot.recreated now (some (value.heldAs kept, deadline))).Recreates (some (value, deadline)) ↔
      (∀ time, deadline = some time → InInt64 time) ∧
        ∀ bytes, value = .string (some bytes) → kept = bytes := by
  rw [← (Value.heldAs_kind kept).1] at spared
  obtain ⟨_, isSlot⟩ := recreated_of_spared spared
  rw [isSlot, Recreates, Option.some.injEq, Value.heldAs_eq_iff, map_loadedDeadline_iff, and_comm]

end Recreated

variable [Float64 F] (dumping : Env F) (moments : Moments F)

omit [Float64 F] in
theorem dumpable_of_filled {value : Value F} (filled : value.isEmptyCollection = false) :
    value.Dumpable := by
  cases value with
  | zset scores => exact of_decide_eq_false filled
  | _ => trivial

theorem execUndo_undoLines_forward (key : Key) (moment : Nat) (space : Space F)
    {was : Option (Value F × Option Int)}
    (filled : ∀ value deadline, was = some (value, deadline) → value.isEmptyCollection = false) :
    ∃ after, execUndo moments moment (undoLines dumping key was) space = (.ok (), after) ∧
      after.slots key = (space.slots key).recreated (moments (moment + 1 + 1)).now was ∧
      ∀ other, other ≠ key → after.slots other = space.slots other := by
  obtain ⟨_, removed, run, slot, others⟩ := run_exec_del_one (moments moment) key space
  cases was with
  | none =>
    refine ⟨removed, ?_, slot, others⟩
    change execUndo moments moment [toCmdLineOfStr "DEL" [key]] space = _
    rw [execUndo, run]
    rfl
  | some entry =>
    obtain ⟨value, deadline⟩ := entry
    obtain ⟨_, loaded, dump, -, dumpSlot, dumpOthers⟩ := loads_dumpLine dumping key
      (filled value deadline rfl) (moments (moment + 1)) removed
      (by rw [slot, Slot.removeIfPresent_value])
    obtain ⟨_, after, ttl, -, ttlSlot, ttlOthers⟩ := run_exec_ttlLine (moments (moment + 1 + 1))
      loaded key deadline (by rw [dumpSlot, Slot.loaded_value]; exact Option.some_ne_none _)
    refine ⟨after, ?_, ?_, fun other different => ?_⟩
    · change execUndo moments moment
        [toCmdLineOfStr "DEL" [key], dumpLine dumping key value, ttlLine key deadline] space = _
      rw [execUndo, run, Prog.andThen_ok, execUndo, dump, Prog.andThen_ok, execUndo, ttl]
      rfl
    · rw [ttlSlot, dumpSlot, slot]
      rfl
    · rw [ttlOthers other different, dumpOthers other different, others other different]

/-- The last undo lines of a key find it as it was, or as earlier ones have left it. -/
theorem execUndo_forward (keys : List Key) (moment : Nat) (space : Space F)
    (was : Key → Option (Value F × Option Int))
    (filled : ∀ key ∈ keys, ∀ value deadline, was key = some (value, deadline) →
      value.isEmptyCollection = false) :
    ∃ after, execUndo moments moment (keys.flatMap fun key => undoLines dumping key (was key))
        space = (.ok (), after) ∧
      (∀ key ∈ keys, ∃ index slot, after.slots key = Slot.recreated (moments index).now slot (was key) ∧
        (keys.count key = 1 → slot = space.slots key) ∧
        (keys.count key ≠ 1 → was key ≠ none → slot.Clean)) ∧
      ∀ key ∉ keys, after.slots key = space.slots key := by
  induction keys generalizing moment space with
  | nil => exact ⟨space, rfl, by simp, fun _ _ => rfl⟩
  | cons first rest ih =>
    obtain ⟨filledFirst, filledRest⟩ := forall_mem_cons.mp filled
    obtain ⟨middle, run, here, others⟩ :=
      execUndo_undoLines_forward dumping moments first moment space filledFirst
    obtain ⟨after, later, recreated, kept⟩ :=
      ih (moment + (undoLines dumping first (was first)).length) middle filledRest
    refine ⟨after, ?_, fun key member => ?_, fun key outside => ?_⟩
    · rw [flatMap_cons, execUndo_append, run, Prog.andThen_ok, later]
    · by_cases again : key ∈ rest
      · obtain ⟨index, slot, isSlot, once, often⟩ := recreated key again
        rcases eq_or_ne key first with rfl | notFirst
        · have positive := List.count_pos_iff.mpr again
          have twice : (key :: rest).count key ≠ 1 := by
            rw [List.count_cons_self]
            omega
          refine ⟨index, slot, isSlot, fun isOnce => absurd isOnce twice, fun _ there => ?_⟩
          by_cases isOnce : rest.count key = 1
          · obtain ⟨⟨_, _⟩, isThere⟩ := Option.ne_none_iff_exists'.mp there
            rw [once isOnce, here, isThere]
            exact Slot.clean_recreated
          · exact often isOnce there
        · rw [List.count_cons_of_ne notFirst.symm, ← others key notFirst]
          exact ⟨index, slot, isSlot, once, often⟩
      · obtain rfl := (mem_cons.mp member).resolve_right again
        have isOnce : (key :: rest).count key = 1 := by
          rw [List.count_cons_self, List.count_eq_zero_of_not_mem again]
        exact ⟨_, _, (kept key again).trans here, fun _ => rfl, fun notOnce => absurd isOnce notOnce⟩
    · obtain ⟨notFirst, notRest⟩ := not_or.mp (fun member => outside (mem_cons.mpr member))
      rw [kept key notRest, others key notFirst]

/-- A line when it is executed.  It shares the bytes of a string with the key, and what is written
into them in place changes it. -/
def heldLine (kept : Key → Str) (line : Line) : Line :=
  if line.head? = some (some (lit "SET")) then
    match line with
    | [word, some key, some _] => [word, some key, some (kept key)]
    | line => line
  else line

theorem heldLine_undoLines {kept : Key → Str} {key : Key} {was : Option (Value F × Option Int)} :
    (undoLines dumping key was).map (heldLine kept) =
      undoLines dumping key (was.map fun entry => (entry.1.heldAs (kept key), entry.2)) := by
  cases was with
  | none => rfl
  | some entry =>
    obtain ⟨value, deadline⟩ := entry
    have other : ∀ word, lit word ≠ lit "SET" → ∀ args,
        heldLine kept (some (lit word) :: args) = some (lit word) :: args :=
      fun word different args => if_neg (by simpa using different)
    have dump : heldLine kept (dumpLine dumping key value) =
        dumpLine dumping key (value.heldAs (kept key)) := by
      cases value with
      | string bytes =>
        cases bytes with
        | none | some bytes => rfl
      | list elements => exact other "RPUSH" (by decide) _
      | set members => exact other "SADD" (by decide) _
      | hash fields => exact other "HMSET" (by decide) _
      | zset scores => exact other "ZADD" (by decide) _
    have ttl : heldLine kept (ttlLine key deadline) = ttlLine key deadline := by
      cases deadline with
      | none | some time => rfl
    change [_, heldLine kept (dumpLine dumping key value), heldLine kept (ttlLine key deadline)] = _
    rw [dump, ttl]
    rfl

/-- The lines computed in one space and executed in a later one restore the listed keys and leave
the others as they are. -/
def UndoRecreates (kept : Key → Str) (keys : List Key) (before later : Space F) : Prop :=
  ∃ lines looked after,
    (lookup (rollbackGivenKeys keys)).run (dbHandle dumping) before = (.ok lines, looked) ∧
    execUndo moments 0 (lines.map (heldLine kept)) later = (.ok (), after) ∧
    (∀ key ∈ keys, (after.slots key).Recreates (before.seen dumping.now key)) ∧
    ∀ key ∉ keys, after.slots key = later.slots key

section Undone

variable (kept : Key → Str) (keys : List Key) (before later : Space F)
  (filled : ∀ key ∈ keys, ∀ value deadline,
    before.seen dumping.now key = some (value, deadline) → value.isEmptyCollection = false)

include filled

theorem undoRecreates_iff :
    ∃ after : Space F,
      (∀ key ∈ keys, ∃ index slot,
        after.slots key = Slot.recreated (moments index).now slot
          ((before.seen dumping.now key).map fun entry => (entry.1.heldAs (kept key), entry.2)) ∧
        (keys.count key = 1 → slot = later.slots key) ∧
        (keys.count key ≠ 1 → before.seen dumping.now key ≠ none → slot.Clean)) ∧
      (UndoRecreates dumping moments kept keys before later ↔
        ∀ key ∈ keys, (after.slots key).Recreates (before.seen dumping.now key)) := by
  obtain ⟨looked, computed, -⟩ := run_rollbackGivenKeys dumping keys before
    fun key member value deadline there => dumpable_of_filled (filled key member value deadline there)
  obtain ⟨after, executed, recreated, others⟩ := execUndo_forward dumping moments keys 0 later
    (fun key => (before.seen dumping.now key).map fun entry => (entry.1.heldAs (kept key), entry.2))
    fun key member value deadline held => by
      obtain ⟨⟨was, _⟩, there, same⟩ := Option.map_eq_some_iff.mp held
      cases same
      exact (Value.heldAs_kind _).2.trans (filled key member was _ there)
  have lines : (keys.flatMap fun key => undoLines dumping key (before.seen dumping.now key)).map
      (heldLine kept) = keys.flatMap fun key => undoLines dumping key
        ((before.seen dumping.now key).map fun entry => (entry.1.heldAs (kept key), entry.2)) := by
    rw [List.map_flatMap]
    exact congrArg (List.flatMap · keys) (funext fun key => heldLine_undoLines dumping)
  rw [← lines] at executed
  simp only [ne_eq, Option.map_eq_none_iff] at recreated
  refine ⟨after, recreated, ?_, fun restored => ⟨_, looked, after, computed, executed, restored, others⟩⟩
  rintro ⟨_, _, _, computed', executed', restored, -⟩
  cases computed.symm.trans computed'
  cases executed.symm.trans executed'
  exact restored

/-- Whenever they are executed, the undo lines restore the listed keys exactly if an `int64` has the
nanoseconds of each of their deadlines, strings have not been written in place, and no deadline is
left where another value is to be put. -/
theorem rollback_recreates_iff :
    (∀ moments, UndoRecreates dumping moments kept keys before later) ↔
      ∀ key ∈ keys, ∀ value deadline, before.seen dumping.now key = some (value, deadline) →
        (∀ time, deadline = some time → InInt64 time) ∧
        (∀ bytes, value = .string (some bytes) → kept key = bytes) ∧
        (value.isString = false → keys.count key = 1 → (later.slots key).Clean) := by
  constructor
  · intro recreates key member value deadline there
    have clean : value.isString = false → keys.count key = 1 → (later.slots key).Clean := by
      intro other isOnce absent
      cases isLeft : (later.slots key).deadline with
      | none => rfl
      | some left =>
        -- the lines are executed when the deadline that is left has passed
        obtain ⟨_, recreated, restores⟩ := undoRecreates_iff dumping
          (fun _ => { dumping with now := left + 1 }) kept keys before later filled
        obtain ⟨_, _, isSlot, once, -⟩ := recreated key member
        have seen := restores.mp (recreates _) key member
        rw [isSlot, once isOnce, there] at seen
        rw [← (Value.heldAs_kind (kept key)).1] at other
        cases (Slot.recreated_late other absent isLeft).symm.trans seen.1
    obtain ⟨_, recreated, restores⟩ := undoRecreates_iff dumping (fun _ => dumping) kept keys before
      later filled
    obtain ⟨_, slot, isSlot, once, often⟩ := recreated key member
    have seen := restores.mp (recreates _) key member
    rw [isSlot, there] at seen
    have spared : value.isString = false → slot.Clean := by
      intro other
      by_cases isOnce : keys.count key = 1
      · exact once isOnce ▸ clean other isOnce
      · exact often isOnce (by simp [there])
    obtain ⟨fits, unwritten⟩ := (Slot.recreates_heldAs_iff spared).mp seen
    exact ⟨fits, unwritten, clean⟩
  · intro fine moments
    obtain ⟨_, recreated, restores⟩ := undoRecreates_iff dumping moments kept keys before later filled
    refine restores.mpr fun key member => ?_
    obtain ⟨_, slot, isSlot, once, often⟩ := recreated key member
    rw [isSlot]
    cases there : before.seen dumping.now key with
    | none => exact Slot.removeIfPresent_value slot
    | some entry =>
      obtain ⟨value, deadline⟩ := entry
      obtain ⟨fits, unwritten, clean⟩ := fine key member value deadline there
      refine (Slot.recreates_heldAs_iff fun other => ?_).mpr ⟨fits, unwritten⟩
      by_cases isOnce : keys.count key = 1
      · exact once isOnce ▸ clean other isOnce
      · exact often isOnce (by simp [there])

end Undone

/-- What `DumpKey` replies is loaded by `RenameTo` without an error, the key then has the value and
the deadline, and the other keys are as they were. -/
def DumpRecreates (env : Env F) (src dst : Key) (source target : Space F) (value : Value F)
    (deadline : Option Int) : Prop :=
  ∃ payload looked after,
    (exec (toCmdLineOfStr "DumpKey" [src])).run (dbHandle dumping) source =
      (.ok (.multiBulk payload), looked) ∧
    (exec (some (lit "RenameTo") :: some dst :: payload)).run (dbHandle env) target =
      (.ok .ok, after) ∧
    (after.slots dst).Recreates (some (value.told, deadline)) ∧
    ∀ other, other ≠ dst → after.slots other = target.slots other

/-- A dump loaded under another key of another database gives it the value and, exactly if an
`int64` has the nanoseconds, the deadline. -/
theorem dump_recreates_iff (env : Env F) (src dst : Key) {source : Space F} (target : Space F)
    {value : Value F} {deadline : Option Int}
    (there : source.seen dumping.now src = some (value, deadline))
    (filled : value.isEmptyCollection = false) (sizedDump : Sized (dumpLine dumping src value))
    (sizedTtl : Sized (ttlLine src deadline)) :
    DumpRecreates dumping env src dst source target value deadline ↔
      ∀ time, deadline = some time → InInt64 time := by
  obtain ⟨looked, dumped⟩ := (Cluster.run_exec_dumpKey dumping src there).1
    (dumpable_of_filled filled)
  obtain ⟨after, loaded, slot, others⟩ := run_loadDump env dumping dst src _ sizedDump sizedTtl
    target filled
  have executed : (exec [some (lit "RenameTo"), some dst, dumpPayload dumping src value,
    ttlPayload src deadline]).run (dbHandle env) target = (.ok .ok, after) := loaded
  rw [← map_loadedDeadline_iff]
  refine ⟨?_, fun same => ⟨_, looked, after, dumped, executed, ?_, others⟩⟩
  · rintro ⟨_, _, _, dumped', executed', recreated, -⟩
    cases dumped.symm.trans dumped'
    cases executed.symm.trans executed'
    have same := recreated.2
    rwa [slot] at same
  · rw [slot]
    exact ⟨rfl, same⟩

def stringUntil (deadline : Int) : Space Digit :=
  Space.empty.write [107] ⟨⟨some (.string (some [118])), some deadline, 0⟩, []⟩

/-- The key is listed twice. -/
theorem rollback_recreates_string :
    UndoRecreates (Env.plain 0) (fun index => Env.plain index) (fun _ => [118]) [[107], [107]]
      (stringUntil 1000000) Space.empty := by
  refine (rollback_recreates_iff (Env.plain 0) (fun _ => [118]) [[107], [107]] (stringUntil 1000000)
    Space.empty ?_).mpr ?_ _
  · simp only [mem_cons, not_mem_nil, or_false, or_self]
    rintro - rfl _ _ there
    cases there
    rfl
  · simp only [mem_cons, not_mem_nil, or_false, or_self]
    rintro - rfl _ _ there
    cases there
    refine ⟨?_, ?_, fun _ _ _ => rfl⟩
    · rintro _ ⟨⟩
      decide
    · rintro _ ⟨⟩
      rfl

/-- A deadline in the year 2286 comes back as one in the year 1702. -/
theorem rollback_changes_deadline :
    ∃ lines looked after, (lookup (rollbackGivenKeys [[107]])).run (dbHandle (Env.plain 0))
        (stringUntil (10 ^ 19)) = (.ok lines, looked) ∧
      execUndo (fun _ => Env.plain (F := Digit) 0) 0 lines Space.empty = (.ok (), after) ∧
      (after.slots [107]).deadline = some (-8446744073709000000) :=
  ⟨_, _, _, rfl, rfl, rfl⟩

theorem dump_recreates_string :
    DumpRecreates (Env.plain 0) (Env.plain 0) [107] [108] (stringUntil 1000000) Space.empty
      (.string (some [118])) (some 1000000) := by
  refine (dump_recreates_iff (Env.plain 0) (Env.plain 0) [107] [108] Space.empty rfl rfl ?_ ?_).mpr ?_
  · exact ⟨by decide, by decide⟩
  · exact ⟨by decide, by decide⟩
  · rintro _ there
    cases there
    decide

theorem dump_changes_deadline :
    ∃ payload looked after, (exec (toCmdLineOfStr "DumpKey" [[107]])).run (dbHandle (Env.plain 0))
        (stringUntil (10 ^ 19)) = (.ok (.multiBulk payload), looked) ∧
      (exec (some (lit "RenameTo") :: some [108] :: payload)).run
        (dbHandle (Env.plain (F := Digit) 0)) Space.empty = (.ok .ok, after) ∧
      (after.slots [108]).deadline = some (-8446744073709000000) :=
  ⟨_, _, _, rfl, rfl, rfl⟩

end Godis.Database
