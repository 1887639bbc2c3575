import Godis.Database.Careful

/-!
# Failed commands have no effect

Every data command that is answered with an error leaves the database as it was, with one
exception: `GETEX` carries out a `PERSIST` before it has read the options behind it.
-/

namespace Godis.Database

open Golang Program List
open Prog (andThen_ok run_bind)

variable {F : Type}

/-! ## The options of `GETEX` -/

/-- What the options come to, and whether `PERSIST` was among those read. -/
def readGetEx : List Bytes → Int → Except Reply Int × Bool
  | [], ttl => (.ok ttl, false)
  | option :: rest, ttl =>
    if toUpper (str option) = lit "EX" then
      match rest with
      | [] => (.error .syntaxErr, false)
      | rawTtl :: rest =>
        match ttlOption 1000 "ERR invalid expire time in getex" ttl rawTtl with
        | .error reply => (.error reply, false)
        | .ok ttl => readGetEx rest ttl
    else if toUpper (str option) = lit "PX" then
      match rest with
      | [] => (.error .syntaxErr, false)
      | rawTtl :: rest =>
        match ttlOption 1 "ERR invalid expire time in getex" ttl rawTtl with
        | .error reply => (.error reply, false)
        | .ok ttl => readGetEx rest ttl
    else if toUpper (str option) = lit "PERSIST" then
      if ttl ≠ 0 then (.error .syntaxErr, false) else ((readGetEx rest ttl).1, true)
    else readGetEx rest ttl

theorem run_getExOptions (env : Env F) (options : List Bytes) (ttl : Int) (slot : Slot F)
    (events : List SlotEvent) :
    (getExOptions options ttl).run (slotHandle env) ⟨slot, events⟩ =
      (.ok (readGetEx options ttl).1,
        ⟨if (readGetEx options ttl).2 then slot.withDeadline none else slot, events⟩) := by
  fun_induction readGetEx options ttl generalizing slot with
  | case1 ttl => rfl
  | case2 option ttl isEx =>
    rw [getExOptions, if_pos isEx]
    rfl
  | case3 option ttl isEx rawTtl rest reply refused =>
    rw [getExOptions, if_pos isEx]
    rw [refused]
    rfl
  | case4 option ttl isEx rawTtl rest read fine ih =>
    rw [getExOptions, if_pos isEx, fine]
    exact ih slot
  | case5 option ttl notEx isPx =>
    rw [getExOptions, if_neg notEx, if_pos isPx]
    rfl
  | case6 option ttl notEx isPx rawTtl rest reply refused =>
    rw [getExOptions, if_neg notEx, if_pos isPx]
    rw [refused]
    rfl
  | case7 option ttl notEx isPx rawTtl rest read fine ih =>
    rw [getExOptions, if_neg notEx, if_pos isPx, fine]
    exact ih slot
  | case8 option rest ttl notEx notPx isPersist set =>
    rw [getExOptions.eq_def]
    dsimp only
    rw [if_neg notEx, if_neg notPx, if_pos isPersist, if_pos set]
    rfl
  | case9 option rest ttl notEx notPx isPersist unset ih =>
    rw [getExOptions.eq_def]
    dsimp only
    rw [if_neg notEx, if_neg notPx, if_pos isPersist, if_neg unset, run_bind,
      run_persist, andThen_ok, ih]
    have twice : (slot.withDeadline none).withDeadline none = slot.withDeadline none := rfl
    simp only [twice, ite_self, if_true]
  | case10 option rest ttl notEx notPx notPersist ih =>
    rw [getExOptions.eq_def]
    dsimp only
    rw [if_neg notEx, if_neg notPx, if_neg notPersist]
    exact ih slot

variable {reply : Reply} {ttl : Int} {env : Env F} {space : Space F} {bytes : Str}

theorem isError_of_ttlOption {factor : Int} {invalid : String} {rawTtl : Bytes}
    (refused : ttlOption factor invalid ttl rawTtl = .error reply) :
    reply.isError = true := by
  unfold ttlOption at refused
  split at refused
  · cases refused
    rfl
  · split at refused
    · cases refused
      rfl
    · split at refused
      · cases refused
        rfl
      · cases refused

theorem isError_of_readGetEx {options : List Bytes}
    (refused : (readGetEx options ttl).1 = .error reply) : reply.isError = true := by
  fun_induction readGetEx options ttl with
  | case1 ttl => cases refused
  | case2 option ttl isEx | case5 option ttl notEx isPx
  | case8 option rest ttl notEx notPx isPersist set =>
    cases refused
    rfl
  | case3 option ttl isEx rawTtl rest other found
  | case6 option ttl notEx isPx rawTtl rest other found =>
    cases refused
    exact isError_of_ttlOption found
  | case4 option ttl isEx rawTtl rest read fine ih
  | case7 option ttl notEx isPx rawTtl rest read fine ih
  | case9 option rest ttl notEx notPx isPersist unset ih
  | case10 option rest ttl notEx notPx notPersist ih => exact ih refused

def RefusedAfterPersist (options : List Bytes) : Prop :=
  (∃ reply, (readGetEx options 0).1 = .error reply) ∧ (readGetEx options 0).2 = true

/-- A failed command has changed and logged nothing. -/
def NoEffect (env : Env F) (before after : Space F) : Prop :=
  (∀ key, after.seen env.now key = before.seen env.now key) ∧ after.logged = before.logged

theorem DbCareful.run {program : DbProg F Reply} (careful : DbCareful program) (env : Env F)
    (space : Space F) :
    Benign (program.run (dbHandle env) space).1 ∨
      NoEffect env space (program.run (dbHandle env) space).2 :=
  careful.run_ends (NoEffect env space)
    (fun op state look holds =>
      ⟨fun key => (seen_of_look env op state look key).trans (holds.1 key),
        (logged_of_look env op state look).trans holds.2⟩)
    ⟨fun _ => rfl, rfl⟩

theorem noEffect_addVersion_iff {after : Space F} {keys : List Key} :
    NoEffect env space after ↔ NoEffect env (space.addVersion keys) after := by
  unfold NoEffect
  rw [space.logged_addVersion]
  exact and_congr_left fun _ => (Space.same_addVersion_iff keys).symm

/-! ## `GETEX` itself -/

/-- The options of `GETEX` are refused behind a `PERSIST`, for a string with a deadline. -/
def GetExSlips (env : Env F) (space : Space F) : Line → Prop
  | _ :: key :: options =>
    (∃ bytes deadline, space.seen env.now (str key) = some (.string (some bytes), some deadline)) ∧
      RefusedAfterPersist options
  | _ => False

theorem run_getEntity (env : Env F) (slot : Slot F) (events : List SlotEvent) :
    (look getEntity).run (slotHandle env) ⟨slot, events⟩ =
      (.ok ((slot.seen env.now).map Prod.fst),
        ⟨(Look.exec env.now slot .getEntity).slot,
          events ++ (Look.exec env.now slot .getEntity).notes.map .note⟩) :=
  Prod.ext (congrArg Except.ok (slot.answer_getEntity_seen env.now)) rfl

def stringSeen : Option (Value F × Option Int) → Except Reply Bytes
  | none => .ok none
  | some (.string bytes, _) => .ok bytes
  | some _ => .error .wrongTypeErr

theorem run_getAsString (env : Env F) (slot : Slot F) (events : List SlotEvent) :
    (look getAsString).run (slotHandle env) ⟨slot, events⟩ =
      (.ok (stringSeen (slot.seen env.now)),
        ⟨(Look.exec env.now slot .getEntity).slot,
          events ++ (Look.exec env.now slot .getEntity).notes.map .note⟩) := by
  rw [getAsString, look_bind, run_bind, run_getEntity]
  cases slot.seen env.now with
  | none => rfl
  | some entry =>
    obtain ⟨value, _⟩ := entry
    cases value <;> rfl

theorem run_execGetEX_other {slot : Slot F} (key : Bytes) (options : List Bytes)
    (other : ∀ bytes, stringSeen (slot.seen env.now) ≠ .ok (some bytes)) :
    ((execGetEX (key :: options)).run (slotHandle env) ⟨slot, []⟩).2 =
      ⟨(Look.exec env.now slot .getEntity).slot,
        (Look.exec env.now slot .getEntity).notes.map .note⟩ := by
  rw [execGetEX, run_bind, run_getAsString]
  match found : stringSeen (slot.seen env.now) with
  | .error reply => rfl
  | .ok none => rfl
  | .ok (some bytes) => exact absurd found (other bytes)

theorem run_execGetEX {slot : Slot F} {old : Option Int}
    (there : slot.seen env.now = some (.string (some bytes), old)) (key : Bytes)
    (options : List Bytes) :
    (∀ reply, (readGetEx options 0).1 = .error reply →
        (execGetEX (key :: options)).run (slotHandle env) ⟨slot, []⟩ =
          (.ok reply, ⟨if (readGetEx options 0).2 then slot.withDeadline none else slot, []⟩)) ∧
      ∀ ttl, (readGetEx options 0).1 = .ok ttl →
        (execGetEX (key :: options)).run (slotHandle env) ⟨slot, []⟩ =
          (.ok (.bulk (some bytes)),
            if options.isEmpty then ⟨slot, []⟩
            else if ttl = 0 then
              ⟨slot.withDeadline none, [.logged (toCmdLine "persist" [key])]⟩
            else
              ⟨slot.withDeadline (some (env.now + wrap64 (ttl * 1000000))),
                [.logged (makeExpireCmd (str key) (env.now + wrap64 (ttl * 1000000)))]⟩) := by
  obtain ⟨live, _, _⟩ := Slot.live_of_seen there
  obtain ⟨sameSlot, noNotes⟩ := exec_live live .getEntity
  rw [execGetEX, run_bind, run_getAsString, there, sameSlot, noNotes, andThen_ok]
  dsimp only [stringSeen, map_nil, append_nil]
  rw [run_bind, run_getExOptions, andThen_ok]
  refine ⟨fun reply refused => by rw [refused]; rfl, fun ttl fine => ?_⟩
  rw [fine]
  cases options with
  | nil => rfl
  | cons option rest =>
    dsimp only [List.isEmpty_cons]
    by_cases unlimited : ttl = 0
    · subst unlimited
      cases (readGetEx (option :: rest) 0).2 with
      | false | true => rfl
    · rw [if_pos unlimited, if_neg unlimited]
      cases (readGetEx (option :: rest) 0).2 with
      | false | true => rfl

theorem noEffect_write {key : Key} {state : SlotState F} :
    NoEffect env space (space.write key state) ↔
      state.slot.seen env.now = (space.slots key).seen env.now ∧ state.lines = [] := by
  unfold NoEffect
  rw [Space.write_logged, List.append_right_eq_self]
  exact and_congr_left fun _ => Space.same_write_iff

theorem string_of_stringSeen {entry : Option (Value F × Option Int)}
    (found : stringSeen entry = .ok (some bytes)) :
    ∃ deadline, entry = some (.string (some bytes), deadline) := by
  match entry with
  | none => cases found
  | some (.string content, deadline) =>
    cases found
    exact ⟨deadline, rfl⟩
  | some (.list _, _) | some (.hash _, _) | some (.set _, _) | some (.zset _, _) => cases found

theorem execGetEX_fails_iff (env : Env F) (slot : Slot F) (key : Bytes) (options : List Bytes) :
    let ended := (execGetEX (key :: options)).run (slotHandle env) ⟨slot, []⟩
    (¬ Benign ended.1 → ended.2.slot.seen env.now = slot.seen env.now ∧ ended.2.lines = []) ↔
      ¬ ((∃ bytes deadline, slot.seen env.now = some (.string (some bytes), some deadline)) ∧
        RefusedAfterPersist options) := by
  by_cases isString : ∃ bytes, stringSeen (slot.seen env.now) = .ok (some bytes)
  · obtain ⟨bytes, found⟩ := isString
    obtain ⟨deadline, there⟩ := string_of_stringSeen found
    obtain ⟨-, isValue, -⟩ := Slot.live_of_seen there
    obtain ⟨isRefused, isFine⟩ := run_execGetEX there key options
    cases read : (readGetEx options 0).1 with
    | error reply =>
      have isError : reply.isError = true := isError_of_readGetEx read
      have persisted : (slot.withDeadline none).seen env.now = some (.string (some bytes), none) := by
        exact congrArg (Option.map _) isValue
      rw [isRefused reply read]
      cases met : (readGetEx options 0).2 with
      | false =>
        refine iff_of_true (fun _ => ⟨rfl, rfl⟩) fun slips => ?_
        exact Bool.false_ne_true (met.symm.trans slips.2.2)
      | true =>
        cases deadline with
        | none =>
          refine iff_of_true (fun _ => ⟨persisted.trans there.symm, rfl⟩) fun slips => ?_
          obtain ⟨_, _, found⟩ := slips.1
          rw [there] at found
          cases found
        | some deadline =>
          refine iff_of_false (fun unchanged => ?_) (not_not.mpr
            ⟨⟨bytes, deadline, there⟩, ⟨reply, read⟩, met⟩)
          have failed : ¬ Benign (.ok reply) := fun fine =>
            Bool.false_ne_true (fine.symm.trans isError)
          have same := persisted.symm.trans ((unchanged failed).1.trans there)
          cases same
    | ok ttl =>
      refine iff_of_true (fun failed => absurd ?_ failed) fun slips => ?_
      · rw [isFine ttl read]
        exact rfl
      · obtain ⟨_, refused⟩ := slips.2.1
        cases read.symm.trans refused
  · have other : ∀ bytes, stringSeen (slot.seen env.now) ≠ .ok (some bytes) := fun bytes found =>
      isString ⟨bytes, found⟩
    refine iff_of_true (fun _ => ?_) fun slips => ?_
    · rw [run_execGetEX_other key options other]
      exact ⟨Slot.seen_look env.now slot .getEntity, notes_lines _ _⟩
    · obtain ⟨bytes, _, there⟩ := slips.1
      exact other bytes (by rw [there]; rfl)

/-! ## All data commands -/

section Commands

variable [Float64 F]

variable {args : List Bytes} {head : Bytes} {name : Name}

theorem exec_eq (found : commandOf (head :: args) = some name)
    (counted : validateArity (command (F := F) name).arity (head :: args) = true) :
    exec (F := F) (head :: args) =
      (command name).executor.run (execWithLock (lineSize (head :: args))) args := by
  have found' : Name.ofText (toLower (str head)) = some name := found
  simp only [exec, execWithLock, found', counted, if_true]

theorem execNormalCommand_eq (env : Env F) (space : Space F)
    (found : commandOf (head :: args) = some name) {prepare : List Bytes → List Key × List Key}
    (prepared : (command (F := F) name).prepare = some prepare)
    (counted : validateArity (command (F := F) name).arity (head :: args) = true) :
    execNormalCommand env (head :: args) space =
      ((command name).executor.run (execWithLock (lineSize (head :: args))) args).run (dbHandle env)
        (space.addVersion (prepare args).1) := by
  have found' : Name.ofText (toLower (str head)) = some name := found
  simp only [execNormalCommand, found', counted, if_true, prepared]

theorem execNormalCommand_refused (found : commandOf (head :: args) = some name)
    (miscounted : validateArity (command (F := F) name).arity (head :: args) = false) :
    execNormalCommand env (head :: args) space = (.ok (.argNumErr (toLower (str head))), space) := by
  have found' : Name.ofText (toLower (str head)) = some name := found
  simp only [execNormalCommand, found', miscounted, Bool.false_eq_true, if_false]

omit [Float64 F] in
theorem two_of_arity (counted : validateArity 3 (head :: args) = true) :
    ∃ first second, args = [first, second] := by
  match args with
  | [first, second] => exact ⟨first, second, rfl⟩
  | [] | [_] => cases counted
  | _ :: _ :: _ :: more =>
    simp [validateArity] at counted
    omega

omit [Float64 F] in
theorem three_of_arity (counted : validateArity 4 (head :: args) = true) :
    ∃ first second third, args = [first, second, third] := by
  match args with
  | [first, second, third] => exact ⟨first, second, third, rfl⟩
  | [] | [_] | [_, _] => cases counted
  | _ :: _ :: _ :: _ :: more =>
    simp [validateArity] at counted
    omega

omit [Float64 F] in
theorem one_of_arity (counted : validateArity 2 (head :: args) = true) : ∃ only, args = [only] := by
  match args with
  | [only] => exact ⟨only, rfl⟩
  | [] => cases counted
  | _ :: _ :: more =>
    simp [validateArity] at counted
    omega

omit [Float64 F] in
theorem two_of_arity_le (counted : validateArity (-3) (head :: args) = true) :
    ∃ first second more, args = first :: second :: more := by
  match args with
  | first :: second :: more => exact ⟨first, second, more, rfl⟩
  | [] | [_] => cases counted

theorem three_of_arity_le (counted : validateArity (-4) (head :: args) = true) :
    ∃ first second third more, args = first :: second :: third :: more := by
  rcases args with _ | ⟨first, _ | ⟨second, _ | ⟨third, more⟩⟩⟩
  · cases counted
  · cases counted
  · cases counted
  · exact ⟨first, second, third, more, rfl⟩

theorem prepare_of_data (data : name.isData = true) :
    ∃ prepare, (command (F := F) name).prepare = some prepare := by
  cases name <;> first | exact ⟨_, rfl⟩ | cases data

/-- A data command that fails has no effect, except for `GETEX` with an option that is refused
behind a `PERSIST`. -/
theorem failed_command_has_no_effect_iff (env : Env F) (space : Space F) (line : Line) (name : Name)
    (found : commandOf line = some name) (data : name.isData = true) :
    (¬ Benign (execNormalCommand env line space).1 →
        NoEffect env space (execNormalCommand env line space).2) ↔
      ¬ (name = .getex ∧ GetExSlips env space line) := by
  cases line with
  | nil => cases found
  | cons head args =>
    cases counted : validateArity (command (F := F) name).arity (head :: args) with
    | false =>
      rw [execNormalCommand_refused found counted]
      refine iff_of_true (fun _ => ⟨fun _ => rfl, rfl⟩) ?_
      rintro ⟨rfl, slips⟩
      cases args with
      | nil => exact slips
      | cons key options =>
        simp only [validateArity, command, length_cons] at counted
        norm_num at counted
        omega
    | true =>
      obtain ⟨prepare, prepared⟩ := prepare_of_data (F := F) data
      rw [execNormalCommand_eq env space found prepared counted]
      by_cases isGetEx : name = .getex
      · subst isGetEx
        cases args with
        | nil => exact absurd counted (by simp [validateArity, command])
        | cons key options =>
          rw [noEffect_addVersion_iff]
          change (¬ Benign ((onKey (str key) (execGetEX (key :: options))).run _ _).1 →
            NoEffect env _ ((onKey (str key) (execGetEX (key :: options))).run _ _).2) ↔ _
          rw [run_onKey, noEffect_write]
          refine (execGetEX_fails_iff env _ key options).trans (not_congr ?_)
          rw [GetExSlips, ← space.seen_addVersion env.now (prepare (key :: options)).1]
          exact (and_iff_right rfl).symm
      · refine iff_of_true (fun failed => ?_) fun slips => isGetEx slips.1
        have careful := careful_command (F := F) (execWithLock (lineSize (head :: args))) data isGetEx
          args
        exact (noEffect_addVersion_iff).mpr ((careful.run env _).resolve_left failed)

end Commands

def oneString : Space Digit :=
  Space.empty.write (lit "k") ⟨⟨some (.string (some (lit "v"))), some 1, 0⟩, []⟩

theorem failed_incr_has_no_effect :
    NoEffect (Env.plain 0) oneString
      (execNormalCommand (Env.plain 0) [some (lit "INCR"), some (lit "k")] oneString).2 :=
  (failed_command_has_no_effect_iff (Env.plain 0) oneString [some (lit "INCR"), some (lit "k")] .incr
    (by decide) rfl).mpr (fun slips => nomatch slips.1) Bool.true_eq_false.mp

/-- `GETEX k PERSIST EX` is answered with a syntax error and has removed the deadline. -/
theorem getex_fails_with_effect :
    (∃ reply, (execNormalCommand (Env.plain 0)
        [some (lit "GETEX"), some (lit "k"), some (lit "PERSIST"), some (lit "EX")] oneString).1 =
          .ok reply ∧ reply.isError = true) ∧
      oneString.seen 0 (lit "k") = some (.string (some (lit "v")), some 1) ∧
      (execNormalCommand (Env.plain 0)
        [some (lit "GETEX"), some (lit "k"), some (lit "PERSIST"), some (lit "EX")] oneString).2.seen
          0 (lit "k") = some (.string (some (lit "v")), none) :=
  ⟨⟨.syntaxErr, rfl, rfl⟩, rfl, rfl⟩

end Godis.Database
