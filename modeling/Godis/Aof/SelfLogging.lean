import Godis.Database.Normal
import Mathlib.Data.List.TakeWhile

/-!
# What the collection commands log

An executor either logs its own command line and does the same whatever it meets, or it logs
nothing and leaves the data as it was.  Here the commands for one key, at a key without a
deadline.
-/

namespace Godis.Database

open Golang Program List

variable {F : Type}

def SlotState.Leaves (state : SlotState F) (value : Option (Value F)) (version : Nat)
    (lines : List Line) : Prop :=
  state.slot = ⟨value, none, version⟩ ∧ state.lines = lines

def Quiet (env : Env F) (program : SlotProg F Reply) (value : Option (Value F)) : Prop :=
  ∀ version, (program.run (slotHandle env) ⟨⟨value, none, version⟩, []⟩).2.Leaves value version []

/-- Whatever it meets, the program leaves the same value and logs the line. -/
def Logs (line : Line) (program : SlotProg F Reply) (value left : Option (Value F)) : Prop :=
  ∀ env version,
    (program.run (slotHandle env) ⟨⟨value, none, version⟩, []⟩).2.Leaves left version [line]

def LogsItself (env : Env F) (line : Line) (program : SlotProg F Reply)
    (value : Option (Value F)) : Prop :=
  Quiet env program value ∨ ∃ left, Logs line program value left

variable {env : Env F}

variable {line : Line} {value : Option (Value F)} {α : Type} {name : String}
variable {key rawCount element rawIndex field text rawDelta rawStart rawStop member : Bytes}
variable {args values more names added removed : List Bytes}

theorem LogsItself.congr {program other : SlotProg F Reply}
    (same : ∀ env version, program.run (slotHandle env) ⟨⟨value, none, version⟩, []⟩ =
      other.run (slotHandle env) ⟨⟨value, none, version⟩, []⟩)
    (logs : LogsItself env line other value) : LogsItself env line program value := by
  rcases logs with quiet | ⟨left, logs⟩
  · exact .inl fun version => same env version ▸ quiet version
  · exact .inr ⟨left, fun env version => same env version ▸ logs env version⟩

variable {view : Value F → Option α} {make : α → Value F}
variable (only : ∀ {held data}, view held = some data ↔ held = make data)

include only in
theorem logsItself_getAs {next : Except Reply (Option α) → SlotProg F Reply}
    (wrongType : next (.error .wrongTypeErr) = pure .wrongTypeErr)
    (absent : value = none → Quiet env (next (.ok none)) none)
    (present : ∀ data, value = some (make data) →
      LogsItself env line (next (.ok (some data))) (some (make data))) :
    LogsItself env line (look (getAs view) >>= next) value := by
  have entered : LogsItself env line (next (viewed view value)) value := by
    cases value with
    | none => exact .inl (absent rfl)
    | some value =>
      simp only [viewed]
      cases seen : view value with
      | none => exact wrongType ▸ .inl fun _ => ⟨rfl, rfl⟩
      | some data =>
        obtain rfl := only.mp seen
        exact present data rfl
  refine entered.congr fun env version => ?_
  rw [Prog.run_bind, run_getAs (Slot.live_of_none rfl), Prog.andThen_ok]

include only in
theorem logsItself_getOrInit {initial : α} {next : Except Reply α → SlotProg F Reply}
    (wrongType : next (.error .wrongTypeErr) = pure .wrongTypeErr)
    (absent : value = none → ∃ left, Logs line (next (.ok initial)) (some (make initial)) left)
    (present : ∀ data, value = some (make data) →
      LogsItself env line (next (.ok data)) (some (make data))) :
    LogsItself env line (getOrInit view make initial >>= next) value := by
  cases value with
  | none =>
    obtain ⟨left, logs⟩ := absent rfl
    refine .inr ⟨left, fun env version => ?_⟩
    have created : (getOrInit view make initial >>= next).run (slotHandle env)
        ⟨⟨none, none, version⟩, []⟩ =
          (next (.ok initial)).run (slotHandle env)
            ⟨⟨some (make initial), none, version⟩, [.note .inserted]⟩ := rfl
    rw [created, run_events]
    exact logs env version
  | some held =>
    rw [getOrInit, bind_assoc]
    exact logsItself_getAs only wrongType (by simp) present

variable {reply : Reply}

/-- The end of the commands that remove elements: a collection left empty is removed, and the
command is logged if there are fewer elements than before. -/
theorem logsItself_shrink {old left : Value F} (empty fewer : Prop) [Decidable empty]
    [Decidable fewer] (same : ¬ fewer → left = old ∧ ¬ empty) :
    LogsItself env line
      (do
        mutate left
        if empty then remove
        if fewer then addAof line
        return reply)
      (some old) := by
  by_cases shrunk : fewer
  · refine .inr ⟨if empty then none else some left, fun env version => ?_⟩
    by_cases emptied : empty
    · simp only [if_pos shrunk, if_pos emptied]
      exact ⟨rfl, rfl⟩
    · simp only [if_pos shrunk, if_neg emptied]
      exact ⟨rfl, rfl⟩
  · obtain ⟨rfl, notEmptied⟩ := same shrunk
    simp only [if_neg shrunk, if_neg notEmptied]
    exact .inl fun _ => ⟨rfl, rfl⟩

/-! ## Lists -/

theorem logsItself_execLPush :
    LogsItself env (toCmdLine "lpush" (key :: values)) (execLPush (key :: values)) value := by
  match value with
  | none | some (.list _) => exact .inr ⟨_, fun _ _ => ⟨rfl, rfl⟩⟩
  | some (.string _) | some (.hash _) | some (.set _) | some (.zset _) =>
    exact .inl fun _ => ⟨rfl, rfl⟩

theorem logsItself_execRPush :
    LogsItself env (toCmdLine "rpush" (key :: values)) (execRPush (key :: values)) value := by
  match value with
  | none | some (.list _) => exact .inr ⟨_, fun _ _ => ⟨rfl, rfl⟩⟩
  | some (.string _) | some (.hash _) | some (.set _) | some (.zset _) =>
    exact .inl fun _ => ⟨rfl, rfl⟩

theorem logsItself_pushIfExists {insert : List Bytes → List Bytes → List Bytes} :
    LogsItself env (toCmdLine name (key :: values)) (pushIfExists name insert (key :: values))
      value := by
  match value with
  | some (.list _) => exact .inr ⟨_, fun _ _ => ⟨rfl, rfl⟩⟩
  | none | some (.string _) | some (.hash _) | some (.set _) | some (.zset _) =>
    exact .inl fun _ => ⟨rfl, rfl⟩

theorem logsItself_execRPushX :
    LogsItself env (toCmdLine "rpushx" (key :: values)) (execRPushX (key :: values)) value := by
  unfold execRPushX
  split
  · exact .inl fun _ => ⟨rfl, rfl⟩
  · exact logsItself_pushIfExists

theorem logs_popAndLog {elements rest : List Bytes} :
    Logs (toCmdLine name args) (popAndLog name args rest reply : SlotProg F Reply)
      (some (.list elements)) (if rest.isEmpty then none else some (.list rest)) := by
  intro env version
  cases rest with
  | nil | cons first rest => exact ⟨rfl, rfl⟩

theorem logsItself_popMany (side : Side) {elements : List Bytes} :
    LogsItself env (toCmdLine name args) (popMany side name args elements rawCount)
      (some (.list elements)) := by
  unfold popMany
  split
  · exact .inl fun _ => ⟨rfl, rfl⟩
  · split
    · exact .inl fun _ => ⟨rfl, rfl⟩
    · exact .inr ⟨_, logs_popAndLog⟩

theorem logsItself_execLPop :
    LogsItself env (toCmdLine "lpop" args) (execLPop args) value := by
  refine logsItself_getAs Value.asList_eq_some rfl (fun _ _ => ⟨rfl, rfl⟩) fun elements holds => ?_
  dsimp only
  split
  · exact logsItself_popMany .left
  · cases elements with
    | nil => exact .inl fun _ => ⟨rfl, rfl⟩
    | cons first rest => exact .inr ⟨_, logs_popAndLog⟩

theorem logsItself_execRPop :
    LogsItself env (toCmdLine "rpop" args) (execRPop args) value := by
  refine logsItself_getAs Value.asList_eq_some rfl (fun _ _ => ⟨rfl, rfl⟩) fun elements holds => ?_
  dsimp only
  split
  · exact logsItself_popMany .right
  · exact .inr ⟨_, logs_popAndLog⟩

theorem logsItself_execLRem
    (notEmpty : value = some (.list []) → ∀ count, parseInt (str rawCount) = .ok count → count = 0) :
    LogsItself env (toCmdLine "lrem" (key :: rawCount :: element :: more))
      (execLRem (key :: rawCount :: element :: more)) value := by
  dsimp only [execLRem]
  cases parsed : parseInt (str rawCount) with
  | error error => exact .inl fun _ => ⟨rfl, rfl⟩
  | ok count =>
    refine logsItself_getAs Value.asList_eq_some rfl (fun _ _ => ⟨rfl, rfl⟩) fun elements holds => ?_
    dsimp only
    rcases removedByVal_eq (F := F) elements count element with ⟨panics, _⟩ |
      ⟨rest, removed, sub, filled⟩
    · rw [panics]
      exact .inl fun _ => ⟨rfl, rfl⟩
    · rw [removed]
      refine logsItself_shrink _ _ fun notFewer => ?_
      have same : rest = elements := sub.eq_of_length_le (Nat.le_of_not_lt notFewer)
      refine ⟨congrArg Value.list same, fun empty => ?_⟩
      have nothing : elements = [] := same ▸ isEmpty_iff.mp empty
      exact filled (notEmpty (nothing ▸ holds) count parsed) nothing

theorem logsItself_execLSet :
    LogsItself env (toCmdLine "lset" (key :: rawIndex :: element :: more))
      (execLSet (key :: rawIndex :: element :: more)) value := by
  dsimp only [execLSet]
  cases parseInt (str rawIndex) with
  | error error => exact .inl fun _ => ⟨rfl, rfl⟩
  | ok index =>
    refine logsItself_getAs Value.asList_eq_some rfl (fun _ _ => ⟨rfl, rfl⟩) fun elements holds => ?_
    dsimp only
    split
    · exact .inl fun _ => ⟨rfl, rfl⟩
    · exact .inr ⟨_, fun _ _ => ⟨rfl, rfl⟩⟩

theorem logsItself_execLTrim :
    LogsItself env (toCmdLine "ltrim" args) (execLTrim args) value := by
  unfold execLTrim
  split
  · rename_i key rawStart rawEnd
    cases parseInt (str rawStart) with
    | error error => exact .inl fun _ => ⟨rfl, rfl⟩
    | ok start =>
      cases parseInt (str rawEnd) with
      | error error => exact .inl fun _ => ⟨rfl, rfl⟩
      | ok stop =>
        refine logsItself_getAs Value.asList_eq_some rfl (fun _ _ => ⟨rfl, rfl⟩) fun elements holds => ?_
        exact .inr ⟨_, fun _ _ => ⟨rfl, rfl⟩⟩
  · exact .inl fun _ => ⟨rfl, rfl⟩

theorem logsItself_execLInsert :
    LogsItself env (toCmdLine "linsert" args) (execLInsert args) value := by
  unfold execLInsert
  split
  · refine logsItself_getAs Value.asList_eq_some rfl (fun _ _ => ⟨rfl, rfl⟩) fun elements holds => ?_
    dsimp only
    split
    · exact .inl fun _ => ⟨rfl, rfl⟩
    · split
      · exact .inl fun _ => ⟨rfl, rfl⟩
      · exact .inr ⟨_, fun _ _ => ⟨rfl, rfl⟩⟩
  · exact .inl fun _ => ⟨rfl, rfl⟩

/-! ## Hashes -/

theorem logsItself_execHSet :
    LogsItself env (toCmdLine "hset" (key :: field :: text :: more))
      (execHSet (key :: field :: text :: more)) value := by
  match value with
  | none | some (.hash _) => exact .inr ⟨_, fun _ _ => ⟨rfl, rfl⟩⟩
  | some (.string _) | some (.list _) | some (.set _) | some (.zset _) =>
    exact .inl fun _ => ⟨rfl, rfl⟩

theorem logsItself_execHSetNX :
    LogsItself env (toCmdLine "hsetnx" (key :: field :: text :: more))
      (execHSetNX (key :: field :: text :: more)) value := by
  refine logsItself_getOrInit Value.asDict_eq_some rfl (fun _ => ?_) fun fields _ => ?_
  · exact ⟨_, fun _ _ => ⟨rfl, rfl⟩⟩
  · dsimp only
    split
    · exact .inl fun _ => ⟨rfl, rfl⟩
    · exact .inr ⟨_, fun _ _ => ⟨rfl, rfl⟩⟩

theorem logsItself_execHDel (notEmpty : value ≠ some (.hash ∅)) :
    LogsItself env (toCmdLine "hdel" (key :: names)) (execHDel (key :: names)) value := by
  refine logsItself_getAs Value.asDict_eq_some rfl (fun _ _ => ⟨rfl, rfl⟩) fun fields holds => ?_
  refine logsItself_shrink _ _ fun notFewer => ?_
  have same := eraseAll_eq_self notFewer
  refine ⟨congrArg Value.hash same, fun empty => ?_⟩
  rw [same] at empty
  exact notEmpty (eq_empty_of_card_keys empty ▸ holds)

theorem logsItself_execHMSet :
    LogsItself env (toCmdLine "hmset" (key :: more)) (execHMSet (key :: more)) value := by
  dsimp only [execHMSet]
  split
  · exact .inl fun _ => ⟨rfl, rfl⟩
  · exact logsItself_getOrInit Value.asDict_eq_some rfl (fun _ => ⟨_, fun _ _ => ⟨rfl, rfl⟩⟩)
      fun fields _ => .inr ⟨_, fun _ _ => ⟨rfl, rfl⟩⟩

theorem logsItself_addToField {name : String} {parse : Str → Option α} {sumOf : α → α → Str}
    {notNumber badValue : Reply} :
    LogsItself env (toCmdLine name (key :: field :: rawDelta :: more))
      (addToField name parse sumOf notNumber badValue (key :: field :: rawDelta :: more)) value := by
  dsimp only [addToField]
  split
  · exact .inl fun _ => ⟨rfl, rfl⟩
  · refine logsItself_getOrInit Value.asDict_eq_some rfl (fun _ => ?_) fun fields _ => ?_
    · exact ⟨_, fun _ _ => ⟨rfl, rfl⟩⟩
    · dsimp only
      split
      · exact .inr ⟨_, fun _ _ => ⟨rfl, rfl⟩⟩
      · split
        · exact .inl fun _ => ⟨rfl, rfl⟩
        · exact .inr ⟨_, fun _ _ => ⟨rfl, rfl⟩⟩

/-! ## Sets -/

theorem logsItself_execSAdd :
    LogsItself env (toCmdLine "sadd" (key :: added)) (execSAdd (key :: added)) value := by
  exact logsItself_getOrInit Value.asSet_eq_some rfl (fun _ => ⟨_, fun _ _ => ⟨rfl, rfl⟩⟩)
    fun members _ => .inr ⟨_, fun _ _ => ⟨rfl, rfl⟩⟩

theorem logsItself_execSRem (notEmpty : value ≠ some (.set ∅)) :
    LogsItself env (toCmdLine "srem" (key :: removed)) (execSRem (key :: removed)) value := by
  refine logsItself_getAs Value.asSet_eq_some rfl (fun _ _ => ⟨rfl, rfl⟩) fun members holds => ?_
  refine logsItself_shrink _ _ fun notFewer => ?_
  have same : removed.foldl (fun members member => members.erase (str member)) members =
      members := by
    rw [eraseAll_eq_sdiff] at notFewer ⊢
    exact Finset.eq_of_subset_of_card_le Finset.sdiff_subset (Nat.le_of_not_lt notFewer)
  refine ⟨congrArg Value.set same, fun empty => ?_⟩
  rw [same] at empty
  exact notEmpty (Finset.card_eq_zero.mp empty ▸ holds)

theorem logsItself_sPop {members : Finset Str} {count : Int} (all : (members.card : Int) ≤ count) :
    LogsItself env (toCmdLine "spop" args) (sPop args members count) (some (.set members)) := by
  have wanted : min count members.card = members.card := min_eq_right all
  have popped (env : Env F) :
      (env.pick members members.card).foldl (fun members member => members.erase member) members =
        ∅ := by
    have every : (env.pick members members.card).toFinset = members := by
      refine Finset.eq_of_subset_of_card_le (fun member chosen => ?_) ?_
      · exact env.pick_subset members members.card member (mem_toFinset.mp chosen)
      · rw [List.toFinset_card_of_nodup (env.pick_nodup _ _), env.pick_length, min_self]
    refine (eraseAll_eq_sdiff members id _).trans ?_
    rw [map_id, every, Finset.sdiff_self]
  unfold sPop
  simp only [wanted, Int.toNat_natCast, Int.natCast_pos]
  by_cases filled : 0 < members.card
  · refine .inr ⟨some (.set ∅), fun env version => ?_⟩
    simp only [if_pos filled, ← popped env]
    exact ⟨rfl, rfl⟩
  · have empty : members = ∅ := Finset.card_eq_zero.mp (Nat.eq_zero_of_not_pos filled)
    have same : (env.pick members members.card).foldl
        (fun members member => members.erase member) members = members := by
      rw [popped env, empty]
    simp only [if_neg filled]
    exact .inl fun version =>
      ⟨congrArg (fun members => (⟨some (.set members), none, version⟩ : Slot F)) same, rfl⟩

def spopCount : List Bytes → Option Int
  | [_] => some 1
  | [_, rawCount] =>
    match parseInt (str rawCount) with
    | .error _ => none
    | .ok count => if count ≤ 0 then none else some count
  | _ => none

theorem logsItself_execSPop
    (all : ∀ members count, value = some (.set members) → spopCount args = some count →
      (members.card : Int) ≤ count) :
    LogsItself env (toCmdLine "spop" args) (execSPop args) value := by
  unfold execSPop
  split
  · exact .inl fun _ => ⟨rfl, rfl⟩
  · rename_i fits
    refine logsItself_getAs Value.asSet_eq_some rfl (fun _ _ => ⟨rfl, rfl⟩) fun members holds => ?_
    dsimp only
    split
    · split
      · exact .inl fun _ => ⟨rfl, rfl⟩
      · rename_i count parsed
        split
        · exact .inl fun _ => ⟨rfl, rfl⟩
        · rename_i positive
          refine logsItself_sPop (all members count holds ?_)
          simp only [spopCount, parsed, if_neg positive]
    · rename_i notTwo
      refine logsItself_sPop (all members 1 holds ?_)
      match args with
      | [] => exact absurd (by simp) fits
      | [_] => rfl
      | [_, _] => exact absurd rfl (notTwo _ _)
      | _ :: _ :: _ :: _ => exact absurd (by simp) fits

/-! ## Sorted sets -/

section SortedSets

variable [Float64 F]

omit [Float64 F] in
theorem logsItself_addElements {elements : List (Element Str F)} :
    LogsItself env (toCmdLine name args) (addElements name args elements) value := by
  exact logsItself_getOrInit Value.asSortedSet_eq_some rfl (fun _ => ⟨_, fun _ _ => ⟨rfl, rfl⟩⟩)
    fun scores _ => .inr ⟨_, fun _ _ => ⟨rfl, rfl⟩⟩

omit [Float64 F] in
theorem logsItself_addParsed {parsed : SlotReader F (Except Reply (List (Element Str F)))}
    (settled : parsed.Settled) :
    LogsItself env (toCmdLine name args) (addParsed name args parsed) value := by
  rcases settled with ⟨parsed, rfl⟩ | ⟨_, rfl⟩
  · cases parsed with
    | error reply => exact .inl fun _ => ⟨rfl, rfl⟩
    | ok elements => exact logsItself_addElements
  · exact .inl fun _ => ⟨rfl, rfl⟩

theorem logsItself_execZAdd :
    LogsItself env (toCmdLine "zadd" (key :: more)) (execZAdd (key :: more)) value := by
  dsimp only [execZAdd]
  split
  · exact .inl fun _ => ⟨rfl, rfl⟩
  · exact logsItself_addParsed (settled_parseEach settled_parseElement _)

theorem logsItself_execGeoAdd :
    LogsItself env (toCmdLine "geoadd" (key :: more)) (execGeoAdd (key :: more)) value := by
  dsimp only [execGeoAdd]
  split
  · exact .inl fun _ => ⟨rfl, rfl⟩
  · exact logsItself_addParsed (settled_parseEach settled_parseLocation _)

omit [Float64 F] in
theorem logsItself_without {scores : Scores F} {removed : List (Element Str F)} {reply : Reply} :
    LogsItself env line
      (do
        mutate (.zset (without scores removed))
        if 0 < removed.length then addAof line
        return reply)
      (some (.zset scores)) := by
  cases removed with
  | nil => exact .inl fun _ => ⟨rfl, rfl⟩
  | cons first rest =>
    exact .inr ⟨_, fun _ _ => ⟨rfl, rfl⟩⟩

theorem logsItself_execZPopMin :
    LogsItself env (toCmdLine "zpopmin" (key :: more)) (execZPopMin (key :: more)) value := by
  dsimp only [execZPopMin]
  split
  · exact .inl fun _ => ⟨rfl, rfl⟩
  · refine logsItself_getAs Value.asSortedSet_eq_some rfl (fun _ _ => ⟨rfl, rfl⟩) fun scores _ => ?_
    exact logsItself_without

omit [Float64 F] in
theorem logsItself_execZRem :
    LogsItself env (toCmdLine "zrem" (key :: names)) (execZRem (key :: names)) value := by
  refine logsItself_getAs Value.asSortedSet_eq_some rfl (fun _ _ => ⟨rfl, rfl⟩) fun scores _ => ?_
  dsimp only
  split
  · exact .inr ⟨_, fun _ _ => ⟨rfl, rfl⟩⟩
  · rename_i notFewer
    rw [eraseAll_eq_self notFewer]
    exact .inl fun _ => ⟨rfl, rfl⟩

theorem logsItself_execZRemRangeByScore :
    LogsItself env (toCmdLine "zremrangebyscore" args) (execZRemRangeByScore args) value := by
  unfold execZRemRangeByScore
  split
  · rename_i key rawMin rawMax
    rcases parseScoreBorder_eq (F := F) (str rawMin) with ⟨_, is⟩ | ⟨_, is⟩ | ⟨_, is⟩
    · rw [is]
      exact .inl fun _ => ⟨rfl, rfl⟩
    · rw [is]
      exact .inl fun _ => ⟨rfl, rfl⟩
    · rw [is]
      rcases parseScoreBorder_eq (F := F) (str rawMax) with ⟨_, is⟩ | ⟨_, is⟩ | ⟨_, is⟩
      · rw [is]
        exact .inl fun _ => ⟨rfl, rfl⟩
      · rw [is]
        exact .inl fun _ => ⟨rfl, rfl⟩
      · rw [is]
        refine logsItself_getAs Value.asSortedSet_eq_some rfl (fun _ _ => ⟨rfl, rfl⟩) fun scores _ => ?_
        exact logsItself_without
  · exact .inl fun _ => ⟨rfl, rfl⟩

theorem logsItself_execZRemRangeByRank :
    LogsItself env (toCmdLine "zremrangebyrank" (key :: rawStart :: rawStop :: more))
      (execZRemRangeByRank (key :: rawStart :: rawStop :: more)) value := by
  dsimp only [execZRemRangeByRank]
  split
  · exact .inl fun _ => ⟨rfl, rfl⟩
  · split
    · exact .inl fun _ => ⟨rfl, rfl⟩
    · refine logsItself_getAs Value.asSortedSet_eq_some rfl (fun _ _ => ⟨rfl, rfl⟩) fun scores _ => ?_
      dsimp only
      split
      · exact .inl fun _ => ⟨rfl, rfl⟩
      · exact logsItself_without

theorem logsItself_execZIncrBy (number : Float64.parse (str rawDelta) ≠ some (none : Option F))
    (sums : ∀ scores score delta, value = some (.zset scores) →
      scores.lookup (str member) = some score → Float64.parse (str rawDelta) = some (some delta) →
      Float64.add score delta ≠ none) :
    LogsItself env (toCmdLine "zincrby" (key :: rawDelta :: member :: more))
      (execZIncrBy (key :: rawDelta :: member :: more)) value := by
  dsimp only [execZIncrBy]
  match parsed : (Float64.parse (str rawDelta) : Option (Option F)) with
  | none => exact .inl fun _ => ⟨rfl, rfl⟩
  | some none => exact absurd parsed number
  | some (some delta) =>
    refine logsItself_getOrInit Value.asSortedSet_eq_some rfl (fun _ => ?_) fun scores holds => ?_
    · exact ⟨_, fun _ _ => ⟨rfl, rfl⟩⟩
    · dsimp only
      cases known : scores.lookup (str member) with
      | none => exact .inr ⟨_, fun _ _ => ⟨rfl, rfl⟩⟩
      | some score =>
        dsimp only
        cases added : Float64.add score delta with
        | none => exact absurd added (sums scores score delta holds known parsed)
        | some sum => exact .inr ⟨_, fun _ _ => ⟨rfl, rfl⟩⟩

/-- The element at which the search for the lower border stops is above the upper one. -/
def NoneInLexRange (env : Env F) (scores : Scores F) (rawMin rawMax : Bytes) : Prop :=
  ∀ (min max : Border Str F) (element : Element Str F),
    parseLexBorder (str rawMin) = pure (.ok min) → parseLexBorder (str rawMax) = pure (.ok max) →
      (ranked scores)[env.seek (ranked scores) fun element => !min.less element]? = some element →
        max.greater element = false

theorem logsItself_execZRemRangeByLex
    (outside : ∀ key rawMin rawMax scores, args = [key, rawMin, rawMax] →
      value = some (.zset scores) → NoneInLexRange env scores rawMin rawMax) :
    LogsItself env line (execZRemRangeByLex args) value := by
  unfold execZRemRangeByLex
  split
  · rename_i key rawMin rawMax
    refine logsItself_getAs Value.asSortedSet_eq_some rfl (fun _ _ => ⟨rfl, rfl⟩) fun scores holds => ?_
    rcases parseLexBorder_eq (F := F) (str rawMin) with ⟨_, is⟩ | ⟨_, is⟩ | ⟨min, isMin⟩
    · rw [is]
      exact .inl fun _ => ⟨rfl, rfl⟩
    · rw [is]
      exact .inl fun _ => ⟨rfl, rfl⟩
    · rw [isMin]
      rcases parseLexBorder_eq (F := F) (str rawMax) with ⟨_, is⟩ | ⟨_, is⟩ | ⟨max, isMax⟩
      · rw [is]
        exact .inl fun _ => ⟨rfl, rfl⟩
      · rw [is]
        exact .inl fun _ => ⟨rfl, rfl⟩
      · rw [isMax]
        have stops := outside key rawMin rawMax scores rfl holds (.lex min) (.lex max)
        have nothing : ((ranked scores).drop (env.seek (ranked scores)
            fun element => !(Border.lex min).less element)).takeWhile (Border.lex max).greater =
              [] := by
          rw [List.takeWhile_eq_nil_iff]
          intro inside
          rw [stops _ isMin isMax (by simp)]
          exact Bool.false_ne_true
        refine .inl fun version => ⟨?_, rfl⟩
        exact congrArg (fun removed => (⟨some (.zset (without scores removed)), none, version⟩ :
          Slot F)) nothing
  · exact .inl fun _ => ⟨rfl, rfl⟩

end SortedSets

end Godis.Database
