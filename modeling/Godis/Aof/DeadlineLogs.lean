import Godis.Aof.StringLogs

/-!
# What the commands log that set or take away a deadline

A deadline is logged as a `PEXPIREAT` line.  At a key that has expired by the time of the replay
the line does nothing.
-/

namespace Godis.Database

open Golang Program List
open Option (map_some some_ne_none)
open Prog (andThen_ok run_bind)

variable {F : Type}

variable {deadline : Int}

theorem run_expireWith {env : Env F} (deadlineOf : Int → SlotReader F Int) {rawTime : Bytes}
    {time : Int} {slot : Slot F} (key : Bytes) (more : List Bytes)
    (read : parseInt (str rawTime) = .ok time)
    (computes : ∀ slot events, (look (deadlineOf time)).run (slotHandle env) ⟨slot, events⟩ =
      (.ok deadline, ⟨slot, events⟩)) : let ended := (expireWith deadlineOf (key :: rawTime :: more)).run (slotHandle env) ⟨slot, []⟩
    slot.seen env.now = none ∧ ended.1 = .ok (.int 0) ∧
        ended.2.slot = (Look.exec env.now slot .getEntity).slot ∧ ended.2.lines = [] ∨
      slot.seen env.now ≠ none ∧ ended.1 = .ok (.int 1) ∧
        ended.2.slot = slot.withDeadline (some deadline) ∧
        ended.2.lines = [makeExpireCmd (str key) deadline] := by
  dsimp only [expireWith]
  rw [read]
  rw [run_bind, run_getEntity]
  cases there : slot.seen env.now with
  | none => exact .inl ⟨rfl, rfl, rfl, notes_lines _ _⟩
  | some entry =>
    obtain ⟨sameSlot, noNotes⟩ := exec_live (Slot.live_of_seen there).1 .getEntity
    simp only [map_some, andThen_ok, sameSlot, noNotes, run_bind, computes]
    exact .inr ⟨some_ne_none _, rfl, rfl, rfl⟩

/-! ## The line for a deadline -/

theorem inInt64_wholeMillis (fits : InInt64 deadline) :
    InInt64 (deadline.tdiv 1000000) ∧ InInt64 (wholeMillis deadline) := by
  unfold wholeMillis InInt64 at *
  rcases le_or_gt 0 deadline with nonneg | _
  · rw [Int.tdiv_eq_ediv_of_nonneg nonneg]
    omega
  · have flipped : deadline.tdiv 1000000 = -((-deadline) / 1000000) := by
      rw [← Int.tdiv_eq_ediv_of_nonneg (by omega), Int.neg_tdiv, Int.neg_neg]
    omega

theorem inInt64_unixMillis : InInt64 (unixMillis deadline) :=
  (inInt64_wholeMillis inInt64_wrap64).1

theorem wholeMillis_of_inInt64 (fits : InInt64 deadline) :
    wrap64 (unixMillis deadline * 1000000) = wholeMillis deadline := by
  unfold unixMillis
  rw [wrap64_of_inInt64 fits]
  exact wrap64_of_inInt64 (inInt64_wholeMillis fits).2

section Lines

variable {env : Env F} {deadline : Int} {copy : Slot F}

theorem enacts_pexpireat [Float64 F] (key : Key) (deadline : Int) :
    Enacts (makeExpireCmd key deadline) key
      (execPExpireAt [some key, some (formatInt (unixMillis deadline))] : SlotProg F Reply) :=
  enacts_changeKey rfl rfl rfl rfl

def loadedDeadline (deadline : Int) : Int :=
  wrap64 (unixMillis deadline * 1000000)

theorem run_execPExpireAt (env : Env F) (key : Key) (deadline : Int) (slot : Slot F) :
    let ended := (execPExpireAt [some key, some (formatInt (unixMillis deadline))]).run
      (slotHandle env) ⟨slot, []⟩
    slot.seen env.now = none ∧ ended.1 = .ok (.int 0) ∧
        ended.2.slot = (Look.exec env.now slot .getEntity).slot ∨
      slot.seen env.now ≠ none ∧ ended.1 = .ok (.int 1) ∧
        ended.2.slot = slot.withDeadline (some (loadedDeadline deadline)) := by
  have read : parseInt (str (some (formatInt (unixMillis deadline)))) = .ok (unixMillis deadline) :=
    parseInt_formatInt inInt64_unixMillis
  rcases run_expireWith (fun millis => return wrap64 (millis * 1000000)) (some key)
    [] read fun _ _ => rfl with ⟨unseen, reply, isSlot, -⟩ | ⟨there, reply, isSlot, -⟩
  · exact .inl ⟨unseen, reply, isSlot⟩
  · exact .inr ⟨there, reply, isSlot⟩

theorem run_pexpireat (env : Env F) (key : Key) (fits : InInt64 deadline) (copy : Slot F) :
    let ended := ((execPExpireAt [some key, some (formatInt (unixMillis deadline))]).run
      (slotHandle env) ⟨copy, []⟩).2.slot
    (copy.Gone env.now → ended = copy.remove) ∧
      (copy.seen env.now ≠ none → ended = copy.withDeadline (some (wholeMillis deadline))) := by
  rw [← wholeMillis_of_inInt64 fits]
  rcases run_execPExpireAt env key deadline copy with ⟨unseen, -, slot⟩ | ⟨there, -, slot⟩
  · exact ⟨fun gone => slot.trans gone.removed.1, fun there => absurd unseen there⟩
  · exact ⟨fun gone => absurd gone.seen there, fun _ => slot⟩

theorem Slot.seen_or_past {now : Int} (value : Value F) (deadline : Int) (version : Nat) :
    deadline < now ∨ Slot.seen now (⟨some value, some deadline, version⟩ : Slot F) ≠ none := by
  rcases lt_or_ge deadline now with past | ahead
  · exact .inl past
  · have live : ¬ Slot.expired now (⟨some value, some deadline, version⟩ : Slot F) = true := by
      simpa [Slot.expired] using ahead
    refine .inr ?_
    rw [Slot.seen, if_neg live]
    exact some_ne_none _

def Shortens (old : Option Int) (deadline : Int) : Prop :=
  InInt64 deadline ∧ ∀ former, old = some former → wholeMillis deadline ≤ wholeMillis former

theorem tracks_pexpireat {key : Key} {stale stale' : Prop} {value : Value F} {old : Option Int}
    {version version' : Nat} (shortens : Shortens old deadline)
    (tracks : Tracks env.now stale ⟨some value, old, version⟩ copy) :
    Tracks env.now stale' ⟨some value, some deadline, version'⟩
      ((execPExpireAt [some key, some (formatInt (unixMillis deadline))]).run (slotHandle env)
        ⟨copy, []⟩).2.slot := by
  obtain ⟨fits, notLater⟩ := shortens
  obtain ⟨hidden, shown⟩ := run_pexpireat env key fits copy
  cases tracks with
  | lasting =>
    rw [shown (some_ne_none _)]
    exact .due
  | @due _ former _ version'' =>
    rcases Slot.seen_or_past value (wholeMillis former) version'' with past | there
    · rw [hidden (.past past)]
      exact .ended ((notLater former rfl).trans_lt past) .absent
    · rw [shown there]
      exact .due
  | @ended _ former _ _ past gone =>
    rw [hidden gone]
    exact .ended ((notLater former rfl).trans_lt past) .absent

end Lines

/-! ## Commands -/

section Commands

variable [Float64 F] {env : Env F} {stale : Prop} {before : Slot F}

theorem reproduced_expireWith {deadlineOf : Int → SlotReader F Int} {deadline : Int → Int}
    (positive : 0 < env.now)
    (computes : ∀ time slot events, (look (deadlineOf time)).run (slotHandle env) ⟨slot, events⟩ =
      (.ok (deadline time), ⟨slot, events⟩)) {key rawTime : Bytes} {more : List Bytes}
    (shortens : ∀ time value old, parseInt (str rawTime) = .ok time →
      before.seen env.now = some (value, old) → Shortens old (deadline time)) :
    Reproduced env.now (str key) stale before
      ((expireWith deadlineOf (key :: rawTime :: more)).run (slotHandle env) ⟨before, []⟩).2 := by
  cases read : parseInt (str rawTime) with
  | error reason =>
    rw [expireWith, read]
    exact reproduced_untouched rfl rfl
  | ok time =>
    rcases run_expireWith deadlineOf key more read (computes time) with
      ⟨-, -, slot, lines⟩ | ⟨there, -, slot, lines⟩
    · exact reproduced_looked positive lines slot
    · obtain ⟨⟨value, _⟩, there⟩ := Option.ne_none_iff_exists'.mp there
      obtain ⟨_, isValue, isDeadline⟩ := Slot.live_of_seen there
      refine reproduced_one lines (enacts_pexpireat (str key) _) fun env' copy _ tracks => ?_
      rw [slot]
      obtain ⟨_, _, _⟩ := before
      cases isValue
      cases isDeadline
      exact tracks_pexpireat (shortens time value _ read there) tracks

theorem reproduced_execPersist (positive : 0 < env.now) {key : Key} {args : List Bytes}
    (lasting : ∀ value deadline, before.seen env.now = some (value, deadline) → deadline = none) :
    Reproduced env.now key stale before
      ((execPersist args).run (slotHandle env) ⟨before, []⟩).2 := by
  rw [execPersist, run_bind, run_getEntity]
  cases there : before.seen env.now with
  | none => exact reproduced_looked positive (notes_lines _ _) rfl
  | some entry =>
    obtain ⟨value, deadline⟩ := entry
    cases lasting value deadline there
    obtain ⟨live, _, isDeadline⟩ := Slot.live_of_seen there
    obtain ⟨sameSlot, noNotes⟩ := exec_live live .getEntity
    have peeked : (look expireTime).run (slotHandle env) ⟨before, []⟩ =
        (.ok before.deadline, ⟨before, []⟩) := rfl
    simp only [map_some, andThen_ok, sameSlot, noNotes, map_nil,
      append_nil, run_bind, peeked, isDeadline]
    exact reproduced_untouched rfl rfl

/-- The replay holds what the live database holds, and no deadline. -/
def Steady (stale : Prop) (slot : Slot F) : Prop :=
  (slot.value = none → ¬ stale) ∧ (slot.value ≠ none → slot.deadline = none)

omit [Float64 F] in
theorem Tracks.steady {now : Int} {live copy : Slot F} (tracks : Tracks now stale live copy)
    (steady : Steady stale live) :
    copy.value = live.value ∧ copy.deadline = none ∧ live.deadline = none := by
  cases tracks with
  | gone hidden left =>
    have absent : copy.value = none := by
      by_contra present
      exact steady.1 rfl (left present)
    cases hidden with
    | absent => exact ⟨rfl, rfl, rfl⟩
    | past isPast => cases absent
  | lasting => exact ⟨rfl, rfl, rfl⟩
  | due | ended past hidden => cases steady.2 (some_ne_none _)

variable {value : Bytes} {options : List Bytes}

theorem reproduced_execSetNX {key : Bytes} (steady : Steady stale before) :
    Reproduced env.now (str key) stale before
      ((execSetNX [key, value]).run (slotHandle env) ⟨before, []⟩).2 := by
  have ended : ∀ (env : Env F) (content : Option (Value F)) version,
      ((execSetNX [key, value]).run (slotHandle env) ⟨⟨content, none, version⟩, []⟩).2.slot =
          ⟨some (content.getD (.string value)), none, version⟩ ∧
        ((execSetNX [key, value]).run (slotHandle env) ⟨⟨content, none, version⟩, []⟩).2.lines =
          [toCmdLine "setnx" [key, value]] := by
    intro env content version
    cases content with
    | none | some content => exact ⟨rfl, rfl⟩
  refine reproduced_of_kept fun kept => ?_
  have timeless : before.deadline = none := by
    by_cases absent : before.value = none
    · exact kept absent
    · exact steady.2 absent
  obtain ⟨content, _, version⟩ := before
  cases timeless
  obtain ⟨slot, lines⟩ := ended env content version
  have enacts : Enacts (toCmdLine "setnx" [key, value]) (str key)
      (execSetNX [key, value] : SlotProg F Reply) := enacts_changeKey rfl rfl rfl rfl
  refine reproduced_one lines enacts fun env' copy _ tracks => ?_
  obtain ⟨sameValue, timeless', _⟩ := tracks.steady steady
  obtain ⟨_, _, version'⟩ := copy
  cases sameValue
  cases timeless'
  rw [slot, (ended env' content version').1]
  exact .lasting

variable {ttl : Int}

theorem reproduced_execSet {key : Bytes}
    (fine : ∀ policy ttl, setOptions options .upsert 0 = .ok (policy, ttl) →
      policy.Admits before.value →
        (ttl = 0 → policy ≠ .upsert → Steady stale before) ∧
          (ttl ≠ 0 → InInt64 (env.now + wrap64 (ttl * 1000000)))) :
    Reproduced env.now (str key) stale before
      ((execSet (key :: value :: options)).run (slotHandle env) ⟨before, []⟩).2 := by
  cases read : setOptions options .upsert 0 with
  | error reply =>
    rw [execSet, read]
    exact reproduced_untouched rfl rfl
  | ok found =>
    obtain ⟨policy, ttl⟩ := found
    rcases run_execSet env before key value read with
      ⟨-, -, slot, lines⟩ | ⟨admitted, -, slot, lines⟩
    · exact reproduced_untouched lines slot
    · obtain ⟨repeatable, fits⟩ := fine policy ttl read admitted
      unfold deadlineOf at slot
      unfold setLines at lines
      by_cases unlimited : ttl = 0
      · have counted : validateArity (command (F := F) .set).arity
            (toCmdLine "set" (key :: value :: options)) = true := by
          change decide (3 ≤ ((options.length + 1 + 1 + 1 : Nat) : Int)) = true
          simp only [decide_eq_true_eq]
          omega
        rw [if_neg (not_not.mpr unlimited)] at slot
        rw [if_pos unlimited] at lines
        refine reproduced_one lines (enacts_changeKey rfl rfl rfl counted)
          fun env' copy _ tracks => ?_
        rw [slot]
        have admitted' : policy.Admits copy.value := by
          by_cases upsert : policy = .upsert
          · subst upsert
            trivial
          · rw [(tracks.steady (repeatable unlimited upsert)).1]
            exact admitted
        rcases run_execSet env' copy key value read with ⟨refused, -⟩ | ⟨-, -, again, -⟩
        · exact absurd admitted' refused
        · rw [again, deadlineOf, if_neg (not_not.mpr unlimited)]
          exact .lasting
      · rw [if_pos unlimited] at slot
        rw [if_neg unlimited] at lines
        have enacts : Enacts [some (lit "SET"), key, value] (str key)
            (execSet [key, value] : SlotProg F Reply) := enacts_changeKey rfl rfl rfl rfl
        refine reproduced_two lines enacts (enacts_pexpireat (str key) _)
          (stable_tracks False ⟨some (.string value), none, 0⟩) (fun env' copy _ _ => ?_)
          fun env' copy _ tracks => ?_
        · have bare : setOptions [] .upsert 0 = .ok (.upsert, 0) := rfl
          rw [(run_execSet_upsert bare).2]
          exact .lasting
        · rw [slot]
          have first : Shortens none (env.now + wrap64 (ttl * 1000000)) :=
            ⟨fits unlimited, fun _ impossible => by cases impossible⟩
          exact tracks_pexpireat first tracks

/-- A value with a deadline that is not before the one given, as long as it can be seen. -/
inductive Expiring (value : Value F) (deadline now : Int) : Slot F → Prop
  | shown {later : Int} {version : Nat} (le : deadline ≤ later) :
      Expiring value deadline now ⟨some value, some later, version⟩
  | hidden {slot : Slot F} (past : deadline < now) (gone : slot.Gone now) :
      Expiring value deadline now slot

omit [Float64 F] in
theorem stable_expiring (value : Value F) (deadline : Int) :
    SlotStable (Expiring value deadline) where
  later le expiring := by
    cases expiring with
    | shown before => exact .shown before
    | hidden past gone => exact .hidden (past.trans_le le) (Slot.stable_gone.later le gone)
  expiry expiring := by
    cases expiring with
    | @shown later version le =>
      rename_i now
      by_cases past : later < now
      · rw [(Slot.Gone.past past).removed.2]
        exact .hidden (le.trans_lt past) .absent
      · have live : ¬ Slot.expired now (⟨some value, some later, version⟩ : Slot F) = true := by
          simpa [Slot.expired] using past
        simp only [Look.exec, if_neg live]
        exact .shown le
    | hidden past gone =>
      rw [gone.removed.2]
      exact .hidden past .absent
  version version expiring := by
    cases expiring with
    | shown le => exact .shown le
    | hidden past gone => exact .hidden past (Slot.stable_gone.version version gone)

/-- `SETEX` and `PSETEX` both log a `SETEX`, whose time to live must not run out before that of
the command. -/
theorem reproduced_setWithTtl (positive : 0 < env.now) {factor : Int} {key rawTtl : Bytes}
    (fine : ∀ ttl, parseInt (str rawTtl) = .ok ttl → 0 < ttl →
      InInt64 (env.now + wrap64 (wrap64 (ttl * factor) * 1000000)) ∧
        wrap64 (wrap64 (ttl * factor) * 1000000) ≤ wrap64 (wrap64 (ttl * 1000) * 1000000)) :
    Reproduced env.now (str key) stale before
      ((setWithTtl factor [key, rawTtl, value]).run (slotHandle env) ⟨before, []⟩).2 := by
  cases read : parseInt (str rawTtl) with
  | error reason =>
    rw [setWithTtl, read]
    exact reproduced_untouched rfl rfl
  | ok ttl =>
    by_cases negative : ttl ≤ 0
    · rw [setWithTtl, read]
      dsimp only
      rw [if_pos negative]
      exact reproduced_untouched rfl rfl
    · obtain ⟨fits, _⟩ := fine ttl read (not_le.mp negative)
      obtain ⟨-, slot, lines⟩ := run_setWithTtl env before factor key value [] read negative
      have enacts : Enacts (toCmdLine "setex" [key, rawTtl, value]) (str key)
          (setWithTtl 1000 [key, rawTtl, value] : SlotProg F Reply) :=
        enacts_changeKey rfl rfl rfl rfl
      refine reproduced_two lines enacts (enacts_pexpireat (str key) _)
        (stable_expiring (.string value) (env.now + wrap64 (wrap64 (ttl * factor) * 1000000)))
        (fun env' copy from_ _ => ?_) fun env' copy from_ expiring => ?_
      · obtain ⟨-, again, -⟩ := run_setWithTtl env' copy 1000 key value [] read negative
        rw [again]
        exact .shown (by omega)
      · rw [slot]
        obtain ⟨hidden, shown⟩ := run_pexpireat env' (str key) fits copy
        have positive' := positive.trans_le from_
        cases expiring with
        | @shown until_ version le =>
          rcases Slot.seen_or_past (.string value) until_ version with past | there
          · rw [hidden (.past past)]
            exact .ended (wholeMillis_lt positive' (le.trans_lt past)) .absent
          · rw [shown there]
            exact .due
        | hidden past gone =>
          rw [hidden gone]
          exact .ended (wholeMillis_lt positive' past) .absent

/-- What `GETEX` may do to a string so that a replay does the same. -/
def GetExLasts (now : Int) (old : Option Int) (options : List Bytes) : Prop :=
  match (readGetEx options 0).1 with
  | .error _ => (readGetEx options 0).2 = true → old = none
  | .ok ttl =>
    if options.isEmpty then True
    else if ttl = 0 then old = none
    else Shortens old (now + wrap64 (ttl * 1000000))

theorem reproduced_execGetEX (positive : 0 < env.now) {key : Bytes}
    (lasts : ∀ bytes old, before.seen env.now = some (.string (some bytes), old) →
      GetExLasts env.now old options) :
    Reproduced env.now (str key) stale before
      ((execGetEX (key :: options)).run (slotHandle env) ⟨before, []⟩).2 := by
  by_cases isString : ∃ bytes, stringSeen (before.seen env.now) = .ok (some bytes)
  · obtain ⟨bytes, found⟩ := isString
    obtain ⟨old, there⟩ := string_of_stringSeen found
    obtain ⟨_, isValue, isDeadline⟩ := Slot.live_of_seen there
    have lasts := lasts bytes old there
    obtain ⟨refused, fine⟩ := run_execGetEX there key options
    unfold GetExLasts at lasts
    obtain ⟨_, deadline, _⟩ := before
    cases isValue
    change deadline = old at isDeadline
    subst isDeadline
    cases read : (readGetEx options 0).1 with
    | error reply =>
      rw [read] at lasts
      rw [refused reply read]
      refine reproduced_untouched rfl ?_
      split
      · rename_i persisted
        rw [lasts persisted]
        rfl
      · rfl
    | ok ttl =>
      rw [read] at lasts
      rw [fine ttl read]
      dsimp only at lasts ⊢
      split
      · exact reproduced_untouched rfl rfl
      · rename_i asked
        rw [if_neg asked] at lasts
        split
        · rename_i unlimited
          rw [if_pos unlimited] at lasts
          subst lasts
          have enacts : Enacts (toCmdLine "persist" [key]) (str key)
              (execPersist [key] : SlotProg F Reply) := enacts_changeKey rfl rfl rfl rfl
          refine reproduced_one rfl enacts fun env' copy _ tracks => ?_
          cases tracks with
          | lasting => exact .lasting
        · rename_i limited
          rw [if_neg limited] at lasts
          exact reproduced_one rfl (enacts_pexpireat (str key) _) fun env' copy _ tracks =>
            tracks_pexpireat lasts tracks
  · have other : ∀ bytes, stringSeen (before.seen env.now) ≠ .ok (some bytes) :=
      fun bytes found => isString ⟨bytes, found⟩
    have ended := run_execGetEX_other key options other
    refine reproduced_looked positive ?_ ?_
    · rw [ended]
      exact notes_lines _ _
    · rw [ended]

theorem reproduced_execGetSet (positive : 0 < env.now) {key : Bytes} :
    Reproduced env.now (str key) stale before
      ((execGetSet [key, value]).run (slotHandle env) ⟨before, []⟩).2 := by
  rw [execGetSet, run_bind, run_getAsString, andThen_ok]
  cases stringSeen (before.seen env.now) with
  | error reply => exact reproduced_looked positive (notes_lines _ _) rfl
  | ok old =>
    rw [nil_append]
    have setting : ∀ slot : Slot F, ∃ version, let ended := ((do
        let _ ← putEntity (.string value)
        persist
        addAof (toCmdLine "set" [key, value])
        return old.elim .nullBulk fun bytes => .bulk (some bytes) : SlotProg F Reply).run
          (slotHandle env) ⟨slot, []⟩).2
        ended.slot = ⟨some (.string value), none, version⟩ ∧
          ended.lines = [toCmdLine "set" [key, value]] := by
      rintro ⟨content, -, version⟩
      cases content with
      | none | some content => exact ⟨version, rfl, rfl⟩
    obtain ⟨_, slot, lines⟩ := setting (Look.exec env.now before .getEntity).slot
    obtain ⟨-, slot', lines'⟩ := run_after_notes
    have enacts : Enacts (toCmdLine "set" [key, value]) (str key)
        (execSet [key, value] : SlotProg F Reply) := enacts_changeKey rfl rfl rfl rfl
    refine reproduced_one (lines'.trans lines) enacts fun env' copy _ _ => ?_
    rw [slot'.trans slot]
    have bare : setOptions [] .upsert 0 = .ok (.upsert, 0) := rfl
    rw [(run_execSet_upsert bare).2]
    exact .lasting

end Commands

/-! ## Instants and their lines -/

/-- The deadline of a key is the instant asked for, and the line that `MakeExpireCmd` and `toTTLCmd`
build from it sets a deadline of the same millisecond. -/
def Survives (env : Env F) (key : Key) (copy after : Slot F) (instant : Int) : Prop :=
  after.deadline = some instant ∧
    ((look (toTTLCmd key)).run (slotHandle env) ⟨after, []⟩).1 = .ok (makeExpireCmd key instant) ∧
    ∃ loaded, ((execPExpireAt (makeExpireCmd key instant).tail).run (slotHandle env)
        ⟨copy, []⟩).2.slot.deadline = some loaded ∧ loaded / 1000000 = instant / 1000000

section Survives

variable {env later : Env F} {key : Key} {slot copy : Slot F} {rawTime : Bytes} {time : Int}

theorem survives_iff (there : copy.seen env.now ≠ none) (stored instant : Int) :
    Survives env key copy (slot.withDeadline (some stored)) instant ↔
      stored = instant ∧ loadedDeadline instant / 1000000 = instant / 1000000 := by
  have loads : ((execPExpireAt (makeExpireCmd key instant).tail).run (slotHandle env)
      ⟨copy, []⟩).2.slot.deadline = some (loadedDeadline instant) := by
    rcases run_execPExpireAt env key instant copy with ⟨unseen, -⟩ | ⟨-, -, isSlot⟩
    · exact absurd unseen there
    · exact congrArg Slot.deadline isSlot
  constructor
  · rintro ⟨same, -, _, isLoaded, millis⟩
    cases loads.symm.trans isLoaded
    exact ⟨Option.some.inj same, millis⟩
  · rintro ⟨rfl, millis⟩
    exact ⟨rfl, rfl, _, loads, millis⟩

theorem loadedDeadline_of_millis (millis : Int) (fits : InInt64 (millis * 1000000)) :
    loadedDeadline (millis * 1000000) = millis * 1000000 := by
  rw [loadedDeadline, wholeMillis_of_inInt64 fits, wholeMillis, Int.mul_tdiv_cancel _ (by decide)]

/-- Of the timestamps that `EXPIREAT` and `PEXPIREAT` accept, exactly those survive the log whose
nanoseconds fit 64 bits. -/
theorem timestamp_survives_iff (read : parseInt (str rawTime) = .ok time)
    (there : slot.seen env.now ≠ none) (there' : copy.seen later.now ≠ none) :
    (Survives later key copy ((execExpireAt [some key, rawTime]).run (slotHandle env)
        ⟨slot, []⟩).2.slot (time * 1000000000) ↔ InInt64 (time * 1000000000)) ∧
      (Survives later key copy ((execPExpireAt [some key, rawTime]).run (slotHandle env)
        ⟨slot, []⟩).2.slot (time * 1000000) ↔ InInt64 (time * 1000000)) := by
  constructor
  · rcases run_expireWith (fun seconds => return unixTime seconds) (some key) [] read fun _ _ => rfl
      with ⟨unseen, -⟩ | ⟨-, -, isSlot, -⟩
    · exact absurd unseen there
    rw [execExpireAt, isSlot, survives_iff there']
    constructor
    · have fits : InInt64 (loadedDeadline (time * 1000000000)) := inInt64_wrap64
      unfold InInt64 at fits ⊢
      omega
    · intro fits
      have whole : time * 1000000000 = time * 1000 * 1000000 := by omega
      rw [whole] at fits ⊢
      rw [loadedDeadline_of_millis _ fits, unixTime,
        wrap64_of_inInt64 (by unfold InInt64 at fits ⊢; omega)]
      omega
  · rcases run_expireWith (fun millis => return wrap64 (millis * 1000000)) (some key) [] read
      fun _ _ => rfl with ⟨unseen, -⟩ | ⟨-, -, isSlot, -⟩
    · exact absurd unseen there
    rw [execPExpireAt, isSlot, survives_iff there']
    constructor
    · rintro ⟨same, -⟩
      exact same ▸ inInt64_wrap64
    · intro fits
      rw [loadedDeadline_of_millis _ fits, wrap64_of_inInt64 fits]
      exact ⟨rfl, rfl⟩

theorem early_timestamp_survives :
    let slot : Slot Digit := ⟨some (.string none), none, 0⟩
    Survives (Env.plain 0) [] slot ((execExpireAt [some [], some (lit "1")]).run
        (slotHandle (Env.plain 0)) ⟨slot, []⟩).2.slot 1000000000 ∧
      Survives (Env.plain 0) [] slot ((execPExpireAt [some [], some (lit "1")]).run
        (slotHandle (Env.plain 0)) ⟨slot, []⟩).2.slot 1000000 := by
  intro slot
  have there : slot.seen (Env.plain 0 : Env Digit).now ≠ none := some_ne_none _
  have read : parseInt (str (some (lit "1"))) = .ok 1 := rfl
  exact ⟨(timestamp_survives_iff read there there).1.mpr (by decide),
    (timestamp_survives_iff read there there).2.mpr (by decide)⟩

/-- The second 9223372037 is past the last nanosecond of 64 bits. -/
theorem late_timestamp_is_lost :
    let slot : Slot Digit := ⟨some (.string none), none, 0⟩
    let after := ((execExpireAt [some [], some (lit "9223372037")]).run (slotHandle (Env.plain 0))
      ⟨slot, []⟩).2.slot
    after.deadline = some 9223372037000000000 ∧
      ((execPExpireAt (makeExpireCmd [] 9223372037000000000).tail).run (slotHandle (Env.plain 0))
        ⟨slot, []⟩).2.slot.deadline = some (-9223372036709000000) := by
  decide

end Survives

end Godis.Database
