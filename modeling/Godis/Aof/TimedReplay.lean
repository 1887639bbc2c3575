import Godis.Aof.KeyLogs
import Godis.Aof.Replay

/-!
# Replaying strings and deadlines

The lines the string commands and the commands for deadlines log, executed from an empty database
at any later time, show what the live database shows, as long as no command depends on a deadline
that may be over by then.
-/

namespace Godis.Database

open Golang Program List

variable {F : Type}

def Name.isStringWrite : Name → Bool
  | .set | .setnx | .setex | .psetex | .mset | .msetnx | .getset | .getex | .getdel => true
  | .incr | .incrby | .incrbyfloat | .decr | .decrby | .append | .setrange | .setbit => true
  | .del | .rename | .renamenx | .expire | .pexpire | .expireat | .pexpireat | .persist => true
  | _ => false

def Slot.Lasting (now : Int) (slot : Slot F) : Prop :=
  ∀ value deadline, slot.seen now = some (value, deadline) → deadline = none

/-- What a time to live in units of `factor` milliseconds comes to, in nanoseconds. -/
def lifetime (factor ttl : Int) : Int :=
  wrap64 (wrap64 (ttl * factor) * 1000000)

/-- The deadline of `SETEX` (`factor` 1000) or `PSETEX` (`factor` 1) can be logged, and the `SETEX`
line both log does not run out before the command would. -/
def TtlLasts (now factor : Int) (rawTtl : Bytes) : Prop :=
  ∀ ttl, parseInt (str rawTtl) = .ok ttl → 0 < ttl →
    InInt64 (now + lifetime factor ttl) ∧ lifetime factor ttl ≤ lifetime 1000 ttl

/-- `EXPIRE` and its kin do not extend a deadline. -/
def ExpireLasts (now : Int) (deadline : Int → Int) (slot : Slot F) (rawTime : Bytes) : Prop :=
  ∀ time value old, parseInt (str rawTime) = .ok time → slot.seen now = some (value, old) →
    Shortens old (deadline time)

/-- What a command may meet so that a replay does the same.  `stale` are the keys that have
expired in the live database and that a replay may hold all the same. -/
def Faithful (env : Env F) (stale : Key → Prop) (space : Space F) : Name → List Bytes → Prop
  | .set, key :: _ :: options =>
    ∀ policy ttl, setOptions options .upsert 0 = .ok (policy, ttl) →
      policy.Admits (space.slots (str key)).value →
        (ttl = 0 → policy ≠ .upsert → Steady (stale (str key)) (space.slots (str key))) ∧
          (ttl ≠ 0 → InInt64 (env.now + wrap64 (ttl * 1000000)))
  | .setnx, key :: _ => Steady (stale (str key)) (space.slots (str key))
  | .setex, _ :: rawTtl :: _ => TtlLasts env.now 1000 rawTtl
  | .psetex, _ :: rawTtl :: _ => TtlLasts env.now 1 rawTtl
  | .mset, args => args.length % 2 = 0 → ∀ key ∈ (pairs args).map fun pair => str pair.1,
      Steady (stale key) (space.slots key)
  | .getex, key :: options => ∀ bytes old,
      space.seen env.now (str key) = some (.string (some bytes), old) →
        GetExLasts env.now old options
  | .incr, key :: _ | .incrby, key :: _ | .incrbyfloat, key :: _ | .decr, key :: _
  | .decrby, key :: _ | .append, key :: _ | .setrange, key :: _ | .setbit, key :: _
  | .persist, key :: _ => (space.slots (str key)).Lasting env.now
  | .rename, source :: dest :: _ => ∀ value deadline,
      space.seen env.now (str source) = some (value, deadline) →
        RenameLasts stale space (str source) (str dest) deadline
  | .expire, key :: rawTime :: _ => ExpireLasts env.now
      (fun seconds => env.now + wrap64 (seconds * 1000000000)) (space.slots (str key)) rawTime
  | .pexpire, key :: rawTime :: _ => ExpireLasts env.now
      (fun millis => env.now + wrap64 (millis * 1000000)) (space.slots (str key)) rawTime
  | .expireat, key :: rawTime :: _ => ExpireLasts env.now unixTime (space.slots (str key)) rawTime
  | .pexpireat, key :: rawTime :: _ => ExpireLasts env.now
      (fun millis => wrap64 (millis * 1000000)) (space.slots (str key)) rawTime
  | _, _ => True

theorem faithful_addVersion {env : Env F} {stale : Key → Prop} {space : Space F} {keys : List Key}
    {name : Name} {args : List Bytes} (faithful : Faithful env stale space name args) :
    Faithful env stale (space.addVersion keys) name args := by
  have value : ∀ key, ((space.addVersion keys).slots key).value = (space.slots key).value :=
    fun key => (space.addVersion_slot keys key).1
  have deadline : ∀ key, ((space.addVersion keys).slots key).deadline = (space.slots key).deadline :=
    fun key => (space.addVersion_slot keys key).2
  have seen : ∀ key, ((space.addVersion keys).slots key).seen env.now =
      (space.slots key).seen env.now := space.seen_addVersion env.now keys
  cases name with
  | set =>
    rcases args with _ | ⟨key, _ | ⟨text, options⟩⟩
    · trivial
    · trivial
    · simpa only [Faithful, Steady, value, deadline] using faithful
  | setnx =>
    cases args with
    | nil => trivial
    | cons key more => simpa only [Faithful, Steady, value, deadline] using faithful
  | setex | psetex =>
    rcases args with _ | ⟨key, _ | ⟨rawTtl, more⟩⟩
    · trivial
    · trivial
    · exact faithful
  | mset => simpa only [Faithful, Steady, value, deadline] using faithful
  | getex =>
    cases args with
    | nil => trivial
    | cons key options => simpa only [Faithful, Space.seen, seen] using faithful
  | incr | incrby | incrbyfloat | decr | decrby | append | setrange | setbit | persist =>
    cases args with
    | nil => trivial
    | cons key more => simpa only [Faithful, Slot.Lasting, seen] using faithful
  | rename =>
    rcases args with _ | ⟨source, _ | ⟨_, _⟩⟩
    · trivial
    · trivial
    · intro found time there
      have lasts := faithful found time ((seen (str source)).symm.trans there)
      cases time with
      | none => simpa only [RenameLasts, Steady, value, deadline] using lasts
      | some time => simpa only [RenameLasts, EndsBy, value, deadline] using lasts
  | expire | pexpire | expireat | pexpireat =>
    rcases args with _ | ⟨_, _ | ⟨_, _⟩⟩
    · trivial
    · trivial
    · simpa only [Faithful, ExpireLasts, seen] using faithful
  | _ => exact faithful

section Commands

variable [Float64 F] {env : Env F} {stale : Key → Prop}

variable {before : Space F}

theorem follows_changeKey {body : List Bytes → SlotProg F Reply} {key : Bytes} {more : List Bytes}
    {execWithLock : Line → DbProg F Reply}
    (reproduced : Reproduced env.now (str key) (stale (str key)) (before.slots (str key))
      ((body (key :: more)).run (slotHandle env) ⟨before.slots (str key), []⟩).2) :
    Follows env.now before (((Executor.changeKey body).run execWithLock (key :: more)).run
      (dbHandle env) before).2 stale (staleThen env.now before stale) :=
  follows_onKey reproduced

theorem reproduced_command {name : Name} {word key : Bytes} {more : List Bytes} {line : String}
    {body : List Bytes → SlotProg F Reply} {before : Slot F} {isStale : Prop}
    (positive : 0 < env.now) (found : Name.ofText (toLower (lit line)) = some name)
    (executes : (command (F := F) name).executor = .changeKey body)
    (prepared : (command (F := F) name).prepare = some writeFirstKey)
    (counted : validateArity (command (F := F) name).arity (word :: key :: more) = true)
    (data : name.isData = true) (notBlunt : name.isBlunt = false)
    (logs : ∀ value, LogsItself env (toCmdLine line (key :: more)) (body (key :: more)) value)
    (lasting : before.Lasting env.now) :
    Reproduced env.now (str key) isStale before
      ((body (key :: more)).run (slotHandle env) ⟨before, []⟩).2 := by
  have enacts : Enacts (toCmdLine line (key :: more)) (str key) (body (key :: more)) :=
    enacts_changeKey found executes prepared counted
  exact reproduced_logsItself positive (.of_changeKey executes data notBlunt _) enacts logs lasting

theorem follows_command {name : Name} (string : name.isStringWrite = true) (notDel : name ≠ .del)
    (execWithLock : Line → DbProg F Reply) {word : Bytes} {args : List Bytes}
    (counted : validateArity (command (F := F) name).arity (word :: args) = true)
    (positive : 0 < env.now) (faithful : Faithful env stale before name args) :
    Follows env.now before (((command (F := F) name).executor.run execWithLock args).run
      (dbHandle env) before).2 stale (staleThen env.now before stale) := by
  cases name with
  | set =>
    obtain ⟨key, value, options, rfl⟩ := two_of_arity_le counted
    exact follows_changeKey (reproduced_execSet faithful)
  | setnx =>
    obtain ⟨key, value, rfl⟩ := two_of_arity counted
    exact follows_changeKey (reproduced_execSetNX faithful)
  | setex =>
    obtain ⟨key, rawTtl, value, rfl⟩ := three_of_arity counted
    exact follows_changeKey
      (reproduced_setWithTtl positive faithful)
  | psetex =>
    obtain ⟨_, _, _, rfl⟩ := three_of_arity counted
    exact follows_changeKey
      (reproduced_setWithTtl positive faithful)
  | mset => exact follows_execMSet positive counted faithful
  | msetnx => exact follows_execMSetNX positive counted
  | getset =>
    obtain ⟨-, _, rfl⟩ := two_of_arity counted
    exact follows_changeKey (reproduced_execGetSet positive)
  | getex =>
    match args with
    | [] => cases counted
    | key :: options =>
      exact follows_changeKey
        (reproduced_execGetEX positive faithful)
  | getdel =>
    obtain ⟨_, rfl⟩ := one_of_arity counted
    exact follows_changeKey (reproduced_execGetDel positive)
  | incr =>
    obtain ⟨_, rfl⟩ := one_of_arity counted
    exact follows_changeKey (reproduced_command positive
      (by decide) rfl rfl counted rfl rfl (logsItself_addInteger _ _ _ _) faithful)
  | incrby =>
    obtain ⟨_, _, rfl⟩ := two_of_arity counted
    exact follows_changeKey (reproduced_command positive
      (by decide) rfl rfl counted rfl rfl (logsItself_execIncrBy _ _ _) faithful)
  | incrbyfloat =>
    obtain ⟨_, _, rfl⟩ := two_of_arity counted
    exact follows_changeKey (reproduced_command positive
      (by decide) rfl rfl counted rfl rfl (logsItself_execIncrByFloat _ _ _) faithful)
  | decr =>
    obtain ⟨_, rfl⟩ := one_of_arity counted
    exact follows_changeKey (reproduced_command positive
      (by decide) rfl rfl counted rfl rfl (logsItself_addInteger _ _ _ _) faithful)
  | decrby =>
    obtain ⟨_, _, rfl⟩ := two_of_arity counted
    exact follows_changeKey (reproduced_command positive
      (by decide) rfl rfl counted rfl rfl (logsItself_execDecrBy _ _ _) faithful)
  | append =>
    obtain ⟨_, _, rfl⟩ := two_of_arity counted
    exact follows_changeKey (reproduced_command positive
      (by decide) rfl rfl counted rfl rfl (logsItself_execAppend _ _ _) faithful)
  | setrange =>
    obtain ⟨_, _, _, rfl⟩ := three_of_arity counted
    exact follows_changeKey (reproduced_command positive
      (by decide) rfl rfl counted rfl rfl (logsItself_execSetRange _ _ _ _)
      faithful)
  | setbit =>
    obtain ⟨_, _, _, rfl⟩ := three_of_arity counted
    exact follows_changeKey (reproduced_command positive
      (by decide) rfl rfl counted rfl rfl (logsItself_execSetBit _ _ _ _)
      faithful)
  | del => exact absurd rfl notDel
  | rename =>
    obtain ⟨_, _, rfl⟩ := two_of_arity counted
    exact follows_execRename positive counted faithful
  | renamenx =>
    obtain ⟨_, _, rfl⟩ := two_of_arity counted
    exact follows_execRenameNx positive counted
  | expire | pexpire | expireat | pexpireat =>
    obtain ⟨_, _, rfl⟩ := two_of_arity counted
    exact follows_changeKey
      (reproduced_expireWith positive (fun _ _ _ => rfl) faithful)
  | persist =>
    obtain ⟨_, rfl⟩ := one_of_arity counted
    exact follows_changeKey
      (reproduced_execPersist positive faithful)
  | _ => cases string

end Commands

/-! ## Runs -/

namespace Happening

def Deletes (space : Space F) (key : Key) : Happening F → Prop
  | call made => commandOf made.line = some .del ∧ key ∈ made.line.tail.map str ∧
      ∃ other ∈ made.line.tail.map str, (space.slots other).value ≠ none
  | expiry _ _ => False

def IsString : Happening F → Prop
  | call made => ∃ name, commandOf made.line = some name ∧ name.isStringWrite = true
  | expiry _ _ => True

variable [Float64 F]

/-- What is executed, if it has its number of arguments, can be replayed. -/
def IsFaithful (space : Space F) (stale : Key → Prop) : Happening F → Prop
  | call made => ∀ word args name, made.line = word :: args → commandOf made.line = some name →
      validateArity (command (F := F) name).arity made.line = true →
        Faithful made.env stale space name args
  | expiry _ _ => True

/-- The keys that are gone and that a replay may still hold. -/
def staleAfter (happening : Happening F) (space : Space F) (stale : Key → Prop) (key : Key) :
    Prop :=
  ((happening.exec space).slots key).value = none ∧ staleThen happening.time space stale key ∧
    ¬ happening.Deletes space key

end Happening

section Runs

variable [Float64 F]

def FaithfulRun : Space F → (Key → Prop) → List (Happening F) → Prop
  | _, _, [] => True
  | space, stale, happening :: rest => happening.IsFaithful space stale ∧
      FaithfulRun (happening.exec space) (happening.staleAfter space stale) rest

theorem Follows.addVersion {now : Int} {before after : Space F} {stale stale' : Key → Prop}
    {keys : List Key} (follows : Follows now (before.addVersion keys) after stale stale') :
    Follows now before after stale stale' := by
  obtain ⟨lines, logged, carries⟩ := follows
  rw [Space.logged_addVersion] at logged
  refine ⟨lines, logged, fun time copy replay from_ tracks timely isLines => ?_⟩
  refine carries time copy replay from_ (fun key => ?_) timely isLines
  obtain ⟨value, deadline⟩ := before.addVersion_slot keys key
  exact (tracks key).congr value deadline rfl rfl

theorem Follows.mono {now : Int} {before after : Space F} {stale stale' stale'' : Key → Prop}
    (follows : Follows now before after stale stale')
    (weaker : ∀ key, (after.slots key).value = none → stale' key → stale'' key) :
    Follows now before after stale stale'' := by
  obtain ⟨lines, logged, carries⟩ := follows
  exact ⟨lines, logged, carries.mono fun _ _ _ tracks key => (tracks key).mono (weaker key)⟩

theorem prepare_string {name : Name} (string : name.isStringWrite = true) :
    ∃ prepare, (command (F := F) name).prepare = some prepare := by
  cases name <;> first | exact ⟨_, rfl⟩ | cases string

omit [Float64 F] in
theorem tracks_expiry {now later : Int} {stale : Prop} {live copy : Slot F}
    (tracks : Tracks later stale live copy) (positive : 0 < now) (le : now ≤ later) :
    Tracks later (stale ∨ live.expired now = true) (Look.exec now live .isExpired).slot copy := by
  by_cases expired : live.expired now = true
  · simp only [Look.exec, if_pos expired]
    exact tracks.removed (tracks.hidden (Slot.seen_of_expired expired) positive le)
      fun _ => .inr expired
  · simp only [Look.exec, if_neg expired]
    exact tracks.mono fun _ isStale => .inl isStale

theorem follows_happening {happening : Happening F} {space : Space F} {stale : Key → Prop}
    (positive : 0 < happening.time) (string : happening.IsString)
    (faithful : happening.IsFaithful space stale) :
    Follows happening.time space (happening.exec space) stale
      (happening.staleAfter space stale) := by
  cases happening with
  | expiry now key =>
    refine ⟨[], (act_logged).trans (append_nil _).symm, ?_⟩
    refine (carries_nil (stable_tracksAll stale)).mono fun later copy from_ tracks other => ?_
    refine Tracks.mono ?_ fun absent isStale => ⟨absent, isStale, not_false⟩
    change Tracks later (staleThen now space stale other)
      ((space.expireKey now key).slots other) _
    rw [expireKey_slots]
    split
    · rename_i same
      subst same
      exact tracks_expiry (tracks other) positive from_
    · exact (tracks other).mono fun _ isStale => .inl isStale
  | call made =>
    obtain ⟨name, found, string⟩ := string
    obtain ⟨env, line⟩ := made
    match line with
    | [] => cases found
    | word :: args =>
      by_cases counted : validateArity (command (F := F) name).arity (word :: args) = true
      · obtain ⟨prepare, prepared⟩ := prepare_string (F := F) string
        have executed : (Happening.call ⟨env, word :: args⟩).exec space =
            (((command name).executor.run (execWithLock (lineSize (word :: args))) args).run
              (dbHandle env) (space.addVersion (prepare args).1)).2 :=
          congrArg Prod.snd (execNormalCommand_eq env space found prepared counted)
        have sameExpired : ∀ key, ((space.addVersion (prepare args).1).slots key).expired env.now =
            (space.slots key).expired env.now := by
          intro key
          unfold Slot.expired
          rw [(space.addVersion_slot _ key).2]
        by_cases isDel : name = .del
        · subst isDel
          have follows : Follows env.now (space.addVersion (prepare args).1)
              ((Happening.call ⟨env, word :: args⟩).exec space) stale _ :=
            executed ▸ follows_execDel counted
          refine follows.addVersion.mono fun key absent isStale => ⟨absent, ?_, ?_⟩
          · rw [staleThen, sameExpired] at isStale
            exact isStale.1
          · rintro ⟨_, member, other, inside, _⟩
            refine isStale.2 ⟨member, other, inside, ?_⟩
            rwa [(space.addVersion_slot _ other).1]
        · have follows : Follows env.now (space.addVersion (prepare args).1)
              ((Happening.call ⟨env, word :: args⟩).exec space) stale _ :=
            executed ▸ follows_command string isDel _ counted positive
              (faithful_addVersion (faithful word args name rfl found counted))
          refine follows.addVersion.mono fun key absent isStale => ⟨absent, ?_, ?_⟩
          · rw [staleThen, sameExpired] at isStale
            exact isStale
          · rintro ⟨deletes, _⟩
            exact isDel (Option.some.inj (found.symm.trans deletes))
      · have refused : (Happening.call ⟨env, word :: args⟩).exec space = space :=
          congrArg Prod.snd (execNormalCommand_refused found
            (Bool.eq_false_iff.mpr counted))
        have follows : Follows env.now space ((Happening.call ⟨env, word :: args⟩).exec space)
            stale (staleThen env.now space stale) := by
          rw [refused]
          exact follows_looked positive (fun _ => .inl rfl) rfl
        refine follows.mono fun key absent isStale => ⟨absent, isStale, ?_⟩
        rintro ⟨deletes, member, _⟩
        cases Option.some.inj (found.symm.trans deletes)
        cases args with
        | nil => exact absurd member not_mem_nil
        | cons first more =>
          refine counted (decide_eq_true ?_)
          change (2 : Int) ≤ ((more.length + 1 + 1 : Nat) : Int)
          omega

theorem Carries.later {start later : Int} {lines : List Line} {Before After : Int → Space F → Prop}
    (carries : Carries start lines Before After) (le : start ≤ later) :
    Carries later lines Before After :=
  fun now copy replay from_ => carries now copy replay (le.trans from_)

theorem follows_run {happenings : List (Happening F)} {start : Int} {space : Space F}
    {stale : Key → Prop} (positive : 0 < start) (timely : Timely start happenings)
    (strings : ∀ happening ∈ happenings, happening.IsString)
    (faithful : FaithfulRun space stale happenings) :
    ∃ stale', Follows (lastTime start happenings) space (runHappenings space happenings) stale
      stale' := by
  induction happenings generalizing start space stale with
  | nil =>
    exact ⟨stale, [], (append_nil _).symm, carries_nil (stable_tracksAll stale)⟩
  | cons happening rest ih =>
    have positive' := positive.trans_le timely.1
    obtain ⟨lines, logged, carries⟩ :=
      follows_happening positive' (strings happening mem_cons_self) faithful.1
    obtain ⟨stale', lines', logged', carries'⟩ := ih positive' timely.2
      (fun other member => strings other (mem_cons_of_mem _ member)) faithful.2
    refine ⟨stale', lines ++ lines', ?_, (carries.later timely.2.start_le).trans carries'⟩
    exact logged'.trans (by rw [logged, append_assoc])

/-- The lines a run of string commands logs, executed later, show what the run shows, now and
later. -/
theorem replay_of_faithful_runs (start instant : Int) (live replay : List (Happening F))
    (positive : 0 < start) (strings : ∀ happening ∈ live, happening.IsString)
    (timely : Timely start live) (faithful : FaithfulRun Space.empty (fun _ => False) live)
    (fromLog : replay.filterMap Happening.line = (runHappenings Space.empty live).logged)
    (timely' : Timely (lastTime start live) replay)
    (after : lastTime (lastTime start live) replay ≤ instant) (key : Key) :
    (runHappenings Space.empty replay).seenInMillis instant key =
      (runHappenings Space.empty live).seenInMillis instant key := by
  obtain ⟨_, _, logged, carries⟩ := follows_run positive timely strings faithful
  have reached := carries (lastTime start live) Space.empty replay le_rfl
    (fun _ => tracks_absent) timely' (fromLog.trans logged)
  have positive' : 0 < instant :=
    positive.trans_le ((timely.start_le.trans timely'.start_le).trans after)
  exact ((reached key).later after).seen positive'

end Runs

section Samples

def timedCall (now : Int) (words : List String) : Happening Digit :=
  .call ⟨Env.plain now, words.map fun word => some (lit word)⟩

theorem faithful_set_with_ttl :
    FaithfulRun Space.empty (fun _ => False) [timedCall 1 ["SET", "k", "v", "EX", "10"]] := by
  refine ⟨?_, trivial⟩
  rintro _ _ name ⟨⟩ found _
  have isSet : name = .set := Option.some.inj (found.symm.trans (by decide))
  subst isSet
  intro policy ttl read _
  have ten : parseInt (lit "10") = .ok 10 :=
    (by decide : lit "10" = formatInt 10) ▸ parseInt_formatInt (by decide)
  have isRead : setOptions [some (lit "EX"), some (lit "10")] .upsert 0 =
      .ok (.upsert, 10000) := by
    rw [setOptions]
    dsimp only [ttlOption, str, Option.getD_some]
    rw [ten]
    rfl
  cases Except.ok.inj (isRead.symm.trans read)
  exact ⟨fun zero => absurd zero (by decide), fun _ => by decide⟩

theorem set_with_ttl_replays :
    FaithfulRun Space.empty (fun _ => False) [timedCall 1 ["SET", "k", "v", "EX", "10"]] ∧
      (runHappenings Space.empty [timedCall 5 ["SET", "k", "v"],
        timedCall 6 ["PEXPIREAT", "k", "10000"]]).seenInMillis 7 (lit "k") =
      (runHappenings Space.empty [timedCall 1 ["SET", "k", "v", "EX", "10"]]).seenInMillis 7
        (lit "k") := by
  refine ⟨faithful_set_with_ttl, replay_of_faithful_runs 1 7 _ _ (by decide) ?_ ?_
    faithful_set_with_ttl (by decide) ?_ (by decide) _⟩
  · rintro _ member
    cases mem_singleton.mp member
    exact ⟨.set, by decide, rfl⟩
  · exact ⟨by decide, trivial⟩
  · exact ⟨by decide, by decide, trivial⟩

/-- A string that has expired when the log is replayed is made anew by the `APPEND` that went to
it, and stays. -/
theorem append_revives_expired_string :
    let live := [timedCall 1 ["SET", "k", "v", "EX", "1"], timedCall 2 ["APPEND", "k", "w"]]
    let replay := [timedCall 3000000000 ["SET", "k", "v"],
      timedCall 3000000000 ["PEXPIREAT", "k", "1000"], timedCall 3000000000 ["append", "k", "w"]]
    replay.filterMap Happening.line = (runHappenings Space.empty live).logged ∧
      (runHappenings Space.empty live).seenInMillis 3000000000 (lit "k") = none ∧
        (runHappenings Space.empty replay).seenInMillis 3000000000 (lit "k") =
          some (.string (some (lit "w")), none) := by
  decide

end Samples

end Godis.Database
