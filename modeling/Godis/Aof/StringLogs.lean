import Godis.Aof.SelfLogging
import Godis.Aof.Tracking

/-!
# What the string and key commands log

For each command for one key: what its lines do in a replay, as long as the command is one that
the later time of the replay does not change.
-/

namespace Godis.Database

open Golang Program

variable {F : Type}

/-! ## Programs that get the key first -/

theorem SlotOpens.run_gone {program : SlotProg F Reply} (opens : SlotOpens program)
    {env : Env F} {slot : Slot F} (gone : slot.Gone env.now) :
    let ended := (program.run (slotHandle env) ⟨slot, []⟩).2
    let without := (program.run (slotHandle env) ⟨slot.remove, []⟩).2
    ended.slot = without.slot ∧ ended.lines = without.lines ∨
      ended.slot = slot ∧ ended.lines = [] ∧ without.slot = slot.remove ∧ without.lines = [] := by
  have same : ∀ (op : SlotOp F) (state state' : SlotState F),
      state.slot = state'.slot ∧ state.lines = state'.lines →
        (slotHandle env op state).1 = (slotHandle env op state').1 ∧
          (slotHandle env op state).2.slot = (slotHandle env op state').2.slot ∧
            (slotHandle env op state).2.lines = (slotHandle env op state').2.lines := by
    rintro op ⟨_, _⟩ ⟨_, _⟩ ⟨rfl, sameLines⟩
    cases op with
    | look method | change method =>
      refine ⟨rfl, rfl, ?_⟩
      simp only [slotHandle, SlotState.after, SlotState.lines, List.filterMap_append]
      exact congrArg (· ++ _) sameLines
    | log line =>
      refine ⟨rfl, rfl, ?_⟩
      simp only [slotHandle, SlotState.lines, List.filterMap_append]
      exact congrArg (· ++ _) sameLines
    | ask question => exact ⟨rfl, rfl, sameLines⟩
  have opening : ∀ (op : SlotOp F) (state state' : SlotState F), op.IsOpening →
      state = ⟨slot, []⟩ ∧ state' = ⟨slot.remove, []⟩ →
        (slotHandle env op state).1 = (slotHandle env op state').1 ∧
          (slotHandle env op state).2.slot = (slotHandle env op state').2.slot ∧
            (slotHandle env op state).2.lines = (slotHandle env op state').2.lines := by
    rintro op _ _ isOpening ⟨rfl, rfl⟩
    cases op with
    | look method =>
      cases method with
      | getEntity =>
        cases gone with
        | absent => exact ⟨rfl, rfl, rfl⟩
        | @past value deadline version isPast =>
          have expired : Slot.expired env.now
              (⟨some value, some deadline, version⟩ : Slot F) = true := decide_eq_true isPast
          simp only [slotHandle, SlotState.after, Look.exec, if_pos expired]
          exact ⟨rfl, rfl, rfl⟩
      | _ => exact isOpening.elim
    | change method =>
      cases method with
      | remove => exact ⟨rfl, rfl, rfl⟩
      | _ => exact isOpening.elim
    | _ => exact isOpening.elim
  have ended := (Prog.Until.run_related
    (fun state state' : SlotState F => state = ⟨slot, []⟩ ∧ state' = ⟨slot.remove, []⟩)
    (fun state state' : SlotState F => state.slot = state'.slot ∧ state.lines = state'.lines)
    (fun op state state' isAsk related => by
      cases op with
      | ask question => exact ⟨rfl, related⟩
      | _ => exact isAsk.elim)
    opening same opens ⟨rfl, rfl⟩).2
  rcases ended with ⟨untouched, untouched'⟩ | same
  · refine .inr ⟨?_, ?_, ?_, ?_⟩
    · rw [untouched]
    · rw [untouched]
      rfl
    · rw [untouched']
    · rw [untouched']
      rfl
  · exact .inl same

/-! ## Slots before and after a command -/

section Reproduced

variable [Float64 F]

/-- What a command for one key logs makes of the slots that track the one before it slots that
track the one behind it. -/
def Reproduced (now : Int) (key : Key) (stale : Prop) (before : Slot F) (state : SlotState F) :
    Prop :=
  ∀ (live : Space F) (stales : Key → Prop), Carries now state.lines
    (Around live stales key fun later copy => Tracks later stale before copy)
    (Around live stales key fun later copy =>
      Tracks later (stale ∨ before.expired now = true) state.slot copy)

variable {now : Int} {key : Key} {stale : Prop} {before : Slot F} {state : SlotState F}

theorem reproduced_unlogged (unlogged : state.lines = [])
    (tracks : ∀ later copy, now ≤ later → Tracks later stale before copy →
      Tracks later (stale ∨ before.expired now = true) state.slot copy) :
    Reproduced now key stale before state := by
  intro live stales
  rw [unlogged]
  refine (carries_nil (stable_around stales (stable_tracks stale before))).mono ?_
  exact fun later copy from_ around => ⟨around.1, tracks _ _ from_ around.2⟩

theorem reproduced_untouched (unlogged : state.lines = []) (untouched : state.slot = before) :
    Reproduced now key stale before state := by
  refine reproduced_unlogged unlogged fun later copy _ tracks => ?_
  rw [untouched]
  exact tracks.mono fun _ isStale => .inl isStale

omit [Float64 F] in
theorem tracks_looked {later : Int} {copy : Slot F} (tracks : Tracks later stale before copy)
    (positive : 0 < now) (le : now ≤ later) :
    Tracks later (stale ∨ before.expired now = true) (Look.exec now before .getEntity).slot copy := by
  by_cases removed : before.value ≠ none ∧ before.expired now = true
  · obtain ⟨present, expired⟩ := removed
    have looked : (Look.exec now before .getEntity).slot = before.remove := by
      obtain ⟨_, isValue⟩ := Option.ne_none_iff_exists'.mp present
      simp only [Look.exec, isValue, if_pos expired]
    rw [looked]
    exact tracks.removed (tracks.hidden (Slot.seen_of_expired expired) positive le)
      fun _ => .inr expired
  · have looked : (Look.exec now before .getEntity).slot = before := by
      cases isValue : before.value with
      | none => simp only [Look.exec, isValue]
      | some value =>
        have live : ¬ before.expired now = true := fun expired =>
          removed ⟨isValue ▸ Option.some_ne_none value, expired⟩
        simp only [Look.exec, isValue, if_neg live]
    rw [looked]
    exact tracks.mono fun _ isStale => .inl isStale

theorem reproduced_looked (positive : 0 < now) (unlogged : state.lines = [])
    (looked : state.slot = (Look.exec now before .getEntity).slot) :
    Reproduced now key stale before state := by
  refine reproduced_unlogged unlogged fun later copy from_ tracks => ?_
  rw [looked]
  exact tracks_looked tracks positive from_

variable {program : SlotProg F Reply}

theorem reproduced_one {line : Line} (logged : state.lines = [line])
    (enacts : Enacts line key program)
    (does : ∀ (env : Env F) (copy : Slot F), now ≤ env.now → Tracks env.now stale before copy →
      Tracks env.now (stale ∨ before.expired now = true) state.slot
        (program.run (slotHandle env) ⟨copy, []⟩).2.slot) :
    Reproduced now key stale before state := by
  intro live stales
  rw [logged]
  exact .one (stable_around stales (stable_tracks stale before))
    (stable_around stales (stable_tracks _ state.slot))
    (enacts.step (stable_tracks stale before) does)

theorem reproduced_two {first second : Line} {program' : SlotProg F Reply}
    {Between : Int → Slot F → Prop} (logged : state.lines = [first, second])
    (enacts : Enacts first key program) (enacts' : Enacts second key program')
    (stable : SlotStable Between)
    (does : ∀ (env : Env F) (copy : Slot F), now ≤ env.now → Tracks env.now stale before copy →
      Between env.now (program.run (slotHandle env) ⟨copy, []⟩).2.slot)
    (does' : ∀ (env : Env F) (copy : Slot F), now ≤ env.now → Between env.now copy →
      Tracks env.now (stale ∨ before.expired now = true) state.slot
        (program'.run (slotHandle env) ⟨copy, []⟩).2.slot) :
    Reproduced now key stale before state := by
  intro live stales
  rw [logged]
  exact .cons (stable_around stales (stable_tracks stale before))
    (enacts.step (stable_tracks stale before) does)
    (.one (stable_around stales stable)
      (stable_around stales (stable_tracks _ state.slot)) (enacts'.step stable does'))

theorem reproduced_of_kept
    (reproduced : (before.value = none → before.deadline = none) →
      Reproduced now key stale before state) : Reproduced now key stale before state := by
  by_cases kept : before.value = none → before.deadline = none
  · exact reproduced kept
  · intro live stales later copy replay _ around
    exact absurd around.2.kept kept

end Reproduced

namespace Slot

variable {now : Int} {slot : Slot F}

theorem gone_of_unseen (kept : slot.value = none → slot.deadline = none)
    (unseen : slot.seen now = none) : slot.Gone now := by
  obtain ⟨value, deadline, _⟩ := slot
  cases value with
  | none =>
    cases kept rfl
    exact .absent
  | some value =>
    rw [seen] at unseen
    split at unseen
    · rename_i expired
      cases deadline with
      | none => cases expired
      | some deadline => exact .past (of_decide_eq_true expired)
    · cases unseen

end Slot

/-! ## Commands that log themselves -/

section SelfLogging

variable [Float64 F] {env : Env F} {key : Key} {stale : Prop} {before : Slot F}

theorem reproduced_logsItself {line : Line} {program : SlotProg F Reply} (positive : 0 < env.now)
    (opens : SlotOpens program) (enacts : Enacts line key program)
    (logs : ∀ value, LogsItself env line program value)
    (lasting : ∀ value deadline, before.seen env.now = some (value, deadline) → deadline = none) :
    Reproduced env.now key stale before (program.run (slotHandle env) ⟨before, []⟩).2 := by
  refine reproduced_of_kept fun kept => ?_
  cases there : before.seen env.now with
  | none =>
    have gone := Slot.gone_of_unseen kept there
    rcases opens.run_gone gone with ⟨slot, lines⟩ | ⟨slot, lines, _, _⟩
    · rcases logs none with quiet | ⟨left, logs⟩
      · obtain ⟨slot', lines'⟩ := quiet before.version
        exact reproduced_looked positive (lines.trans lines')
          ((slot.trans slot').trans gone.removed.1.symm)
      · obtain ⟨slot', lines'⟩ := logs env before.version
        refine reproduced_one (lines.trans lines') enacts fun env' copy from_ tracks => ?_
        obtain ⟨again, againLines⟩ := logs env' copy.version
        have gone' := tracks.hidden there positive from_
        rw [slot.trans slot']
        rcases opens.run_gone gone' with ⟨copied, _⟩ | ⟨_, _, _, none_⟩
        · rw [copied.trans again]
          cases left with
          | none => exact .gone .absent fun present => absurd rfl present
          | some value => exact .lasting
        · cases none_.symm.trans againLines
    · exact reproduced_untouched lines slot
  | some entry =>
    obtain ⟨value, deadline⟩ := entry
    obtain ⟨_, isValue, isDeadline⟩ := Slot.live_of_seen there
    cases lasting value deadline there
    obtain ⟨_, _, version⟩ := before
    cases isValue
    cases isDeadline
    rcases logs (some value) with quiet | ⟨left, logs⟩
    · obtain ⟨slot, lines⟩ := quiet version
      exact reproduced_untouched lines slot
    · obtain ⟨slot, lines⟩ := logs env version
      refine reproduced_one lines enacts fun env' copy from_ tracks => ?_
      cases tracks with
      | @lasting _ _ version' =>
        obtain ⟨again, _⟩ := logs env' version'
        rw [slot, again]
        cases left with
        | none => exact .gone .absent fun present => absurd rfl present
        | some value => exact .lasting

end SelfLogging

section Strings

variable {env : Env F}

variable {line : Line}

theorem logsItself_getAsString {next : Except Reply Bytes → SlotProg F Reply}
    {value : Option (Value F)} (wrongType : next (.error .wrongTypeErr) = pure .wrongTypeErr)
    (logs : ∀ bytes old, LogsItself env line (next (.ok bytes)) old) :
    LogsItself env line (look getAsString >>= next) value := by
  match value with
  | none => exact (logs none none).congr fun _ _ => rfl
  | some (.string bytes) => exact (logs bytes _).congr fun _ _ => rfl
  | some (.list _) | some (.hash _) | some (.set _) | some (.zset _) =>
    refine LogsItself.congr (fun _ _ => rfl)
      (wrongType ▸ .inl fun _ => ⟨rfl, rfl⟩ : LogsItself env line (next (.error .wrongTypeErr)) _)

variable {reply : Reply} {old : Option (Value F)}

theorem logs_put {value : Value F} :
    Logs line (do
      let _ ← putEntity value
      addAof line
      return reply) old (some value) := by
  intro env version
  cases old with
  | none | some old => exact ⟨rfl, rfl⟩

theorem logs_putExtended {bytes : Bytes} :
    Logs line (do
      let _ ← putExtended bytes
      addAof line
      return reply) old (some (.string bytes)) := by
  intro env version
  cases old with
  | none | some old => exact ⟨rfl, rfl⟩

theorem logsItself_addInteger (name : String) (args : List Bytes) (delta : Int) (absent : Bytes)
    (value : Option (Value F)) :
    LogsItself env (toCmdLine name args) (addInteger name args delta absent) value := by
  refine logsItself_getAsString rfl fun bytes _ => ?_
  match bytes with
  | none => exact .inr ⟨_, logs_put⟩
  | some bytes =>
    dsimp only
    cases parseInt bytes with
    | error reason => exact .inl fun _ => ⟨rfl, rfl⟩
    | ok old => exact .inr ⟨_, logs_put⟩

theorem logsItself_execIncrBy (key rawDelta : Bytes) (more : List Bytes)
    (value : Option (Value F)) :
    LogsItself env (toCmdLine "incrby" (key :: rawDelta :: more))
      (execIncrBy (key :: rawDelta :: more)) value := by
  dsimp only [execIncrBy]
  cases parseInt (str rawDelta) with
  | error reason => exact .inl fun _ => ⟨rfl, rfl⟩
  | ok delta => exact logsItself_addInteger _ _ _ _ value

theorem logsItself_execDecrBy (key rawDelta : Bytes) (more : List Bytes)
    (value : Option (Value F)) :
    LogsItself env (toCmdLine "decrby" (key :: rawDelta :: more))
      (execDecrBy (key :: rawDelta :: more)) value := by
  dsimp only [execDecrBy]
  cases parseInt (str rawDelta) with
  | error reason => exact .inl fun _ => ⟨rfl, rfl⟩
  | ok delta => exact logsItself_addInteger _ _ _ _ value

theorem logsItself_execIncrByFloat [Float64 F] (key rawDelta : Bytes) (more : List Bytes)
    (value : Option (Value F)) :
    LogsItself env (toCmdLine "incrbyfloat" (key :: rawDelta :: more))
      (execIncrByFloat (key :: rawDelta :: more)) value := by
  dsimp only [execIncrByFloat]
  cases (Float64.parse (str rawDelta) : Option (Option F)) with
  | none => exact .inl fun _ => ⟨rfl, rfl⟩
  | some delta =>
    refine logsItself_getAsString rfl fun bytes _ => ?_
    match bytes with
    | none => exact .inr ⟨_, logs_put⟩
    | some bytes =>
      dsimp only
      cases (Float64.parse bytes : Option (Option F)) with
      | none => exact .inl fun _ => ⟨rfl, rfl⟩
      | some old => exact .inr ⟨_, logs_put⟩

theorem logsItself_execAppend (key text : Bytes) (more : List Bytes) (value : Option (Value F)) :
    LogsItself env (toCmdLine "append" (key :: text :: more)) (execAppend (key :: text :: more))
      value :=
  logsItself_getAsString rfl fun _ _ => .inr ⟨_, logs_putExtended⟩

theorem logs_mutate_putExtended (inPlace : Prop) [Decidable inPlace] {written : Value F}
    {bytes : Bytes} :
    Logs line (do
      if inPlace then mutate written
      let _ ← putExtended bytes
      addAof line
      return reply) old (some (.string bytes)) := by
  intro env version
  by_cases place : inPlace
  · rw [if_pos place]
    cases old with
    | none | some old => exact ⟨rfl, rfl⟩
  · rw [if_neg place]
    cases old with
    | none | some old => exact ⟨rfl, rfl⟩

theorem logsItself_execSetRange (key rawOffset text : Bytes) (more : List Bytes)
    (value : Option (Value F)) :
    LogsItself env (toCmdLine "setRange" (key :: rawOffset :: text :: more))
      (execSetRange (key :: rawOffset :: text :: more)) value := by
  dsimp only [execSetRange]
  cases parseInt (str rawOffset) with
  | error reason => exact .inl fun _ => ⟨rfl, rfl⟩
  | ok offset =>
    refine logsItself_getAsString rfl fun bytes old => ?_
    dsimp only
    split
    · exact .inl fun _ => ⟨rfl, rfl⟩
    · exact .inr ⟨_, logs_mutate_putExtended _⟩

theorem logsItself_getBit {bytes : Str} {offset : Int} {next : Nat → SlotProg F Reply}
    {old : Option (Value F)} (logs : ∀ former, LogsItself env line (next former) old) :
    LogsItself env line (look (getBit bytes offset) >>= next) old := by
  unfold getBit
  split
  · exact (logs 0).congr fun _ _ => rfl
  · split
    · exact .inl fun _ => ⟨rfl, rfl⟩
    · exact (logs _).congr fun _ _ => rfl

theorem logsItself_execSetBit (key rawOffset rawBit : Bytes) (more : List Bytes)
    (value : Option (Value F)) :
    LogsItself env (toCmdLine "setBit" (key :: rawOffset :: rawBit :: more))
      (execSetBit (key :: rawOffset :: rawBit :: more)) value := by
  dsimp only [execSetBit]
  cases parseInt (str rawOffset) with
  | error reason => exact .inl fun _ => ⟨rfl, rfl⟩
  | ok offset =>
    cases parseBit (str rawBit) with
    | none => exact .inl fun _ => ⟨rfl, rfl⟩
    | some bit =>
      refine logsItself_getAsString rfl fun bytes old => ?_
      dsimp only
      split
      · exact .inl fun _ => ⟨rfl, rfl⟩
      · refine logsItself_getBit fun former => ?_
        split
        · exact .inl fun _ => ⟨rfl, rfl⟩
        · exact .inr ⟨_, logs_mutate_putExtended _⟩

end Strings

end Godis.Database
