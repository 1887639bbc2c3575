import Godis.Database.Expired

/-!
# A replay that comes later

The lines of the append only file are executed when some deadlines are over that were not when the
lines were logged.  A key past its deadline may still be there in the replay or may have been
removed; `Tracks` says which slots a replay may hold for a slot of the live database, and `Carries`
that the replay of some lines leads from one condition to another.
-/

namespace Godis.Database

open Golang Program List

variable {F : Type}

/-! ## What happens to a database -/

/-- The task `DB.Expire` schedules for a key. -/
def Space.expireKey (now : Int) (key : Key) (space : Space F) : Space F :=
  (space.act key (Look.exec now (space.slots key) .isExpired)).2

inductive Happening (F : Type) where
  | call (made : Call F)
  | expiry (now : Int) (key : Key)

namespace Happening

def time : Happening F → Int
  | call made => made.env.now
  | expiry now _ => now

def line : Happening F → Option Line
  | call made => some made.line
  | expiry _ _ => none

def exec [Float64 F] : Happening F → Space F → Space F
  | call made, space => made.exec space
  | expiry now key, space => space.expireKey now key

end Happening

def runHappenings [Float64 F] (space : Space F) (happenings : List (Happening F)) : Space F :=
  happenings.foldl (fun space happening => happening.exec space) space

def Timely : Int → List (Happening F) → Prop
  | _, [] => True
  | start, happening :: rest => start ≤ happening.time ∧ Timely happening.time rest

def lastTime : Int → List (Happening F) → Int
  | start, [] => start
  | _, happening :: rest => lastTime happening.time rest

variable {start : Int}

theorem Timely.start_le {happenings : List (Happening F)} (timely : Timely start happenings) :
    start ≤ lastTime start happenings := by
  induction happenings generalizing start with
  | nil => exact le_refl start
  | cons happening rest ih => exact timely.1.trans (ih timely.2)

theorem timely_append {first second : List (Happening F)} :
    Timely start (first ++ second) ↔
      Timely start first ∧ Timely (lastTime start first) second := by
  induction first generalizing start with
  | nil => simp only [nil_append, Timely, lastTime, true_and]
  | cons happening rest ih =>
    simp only [cons_append, Timely, lastTime, ih, and_assoc]

theorem lastTime_append (start : Int) (first second : List (Happening F)) :
    lastTime start (first ++ second) = lastTime (lastTime start first) second := by
  induction first generalizing start with
  | nil => rfl
  | cons happening rest ih => exact ih _

theorem runHappenings_append [Float64 F] (space : Space F) (first second : List (Happening F)) :
    runHappenings space (first ++ second) = runHappenings (runHappenings space first) second :=
  List.foldl_append

/-! ## Deadlines in whole milliseconds -/

def wholeMillis (deadline : Int) : Int :=
  deadline.tdiv 1000000 * 1000000

theorem wholeMillis_wholeMillis {deadline : Int} :
    wholeMillis (wholeMillis deadline) = wholeMillis deadline := by
  unfold wholeMillis
  rw [Int.mul_tdiv_cancel _ (by decide)]

theorem wholeMillis_lt {deadline now : Int} (positive : 0 < now) (past : deadline < now) :
    wholeMillis deadline < now := by
  unfold wholeMillis
  by_cases negative : deadline < 0
  · have negated : 0 ≤ (-deadline).tdiv 1000000 :=
      Int.tdiv_nonneg (Int.neg_nonneg_of_nonpos negative.le) (by decide)
    rw [Int.neg_tdiv] at negated
    omega
  · rw [Int.tdiv_eq_ediv_of_nonneg (not_lt.mp negative)]
    omega

def Slot.toMillis (slot : Slot F) : Slot F :=
  slot.withDeadline (slot.deadline.map wholeMillis)

def Space.seenInMillis (now : Int) (space : Space F) (key : Key) :
    Option (Value F × Option Int) :=
  (space.slots key).toMillis.seen now

/-! ## What a replay may hold -/

/-- Nothing of the slot can be seen, and there is no deadline without a value. -/
inductive Slot.Gone (now : Int) : Slot F → Prop
  | absent {version : Nat} : Gone now ⟨none, none, version⟩
  | past {value : Value F} {deadline : Int} {version : Nat} (isPast : deadline < now) :
      Gone now ⟨some value, some deadline, version⟩

/-- The slots a replay may hold at a time for a slot of the live database: the same value with the
deadline in whole milliseconds, or, once the deadline is over, nothing that can be seen.  A value
that the live database does not hold any more is there only if it is stale. -/
inductive Tracks (now : Int) (stale : Prop) : Slot F → Slot F → Prop
  | gone {copy : Slot F} {version : Nat} (hidden : copy.Gone now)
      (left : copy.value ≠ none → stale) : Tracks now stale ⟨none, none, version⟩ copy
  | lasting {value : Value F} {version version' : Nat} :
      Tracks now stale ⟨some value, none, version⟩ ⟨some value, none, version'⟩
  | due {value : Value F} {deadline : Int} {version version' : Nat} :
      Tracks now stale ⟨some value, some deadline, version⟩
        ⟨some value, some (wholeMillis deadline), version'⟩
  | ended {value : Value F} {deadline : Int} {version : Nat} {copy : Slot F}
      (past : wholeMillis deadline < now) (hidden : copy.Gone now) :
      Tracks now stale ⟨some value, some deadline, version⟩ copy

/-- A condition on a slot that lasts, whatever the expiry task does; versions do not matter. -/
structure SlotStable (Holds : Int → Slot F → Prop) : Prop where
  later : ∀ {now later : Int} {slot : Slot F}, now ≤ later → Holds now slot → Holds later slot
  expiry : ∀ {now : Int} {slot : Slot F}, Holds now slot →
    Holds now (Look.exec now slot .isExpired).slot
  version : ∀ {now : Int} {slot : Slot F} (version : Nat), Holds now slot →
    Holds now { slot with version := version }

structure Stable (Holds : Int → Space F → Prop) : Prop where
  later : ∀ {now later : Int} {space : Space F}, now ≤ later → Holds now space → Holds later space
  expiry : ∀ {now : Int} {space : Space F} (key : Key), Holds now space →
    Holds now (space.expireKey now key)

namespace Slot

variable {now later : Int} {slot : Slot F}

theorem Gone.seen (gone : slot.Gone now) : slot.seen now = none := by
  cases gone with
  | absent => exact seen_of_none rfl
  | past isPast => exact seen_of_expired (decide_eq_true isPast)

theorem Gone.kept (gone : slot.Gone now) (absent : slot.value = none) : slot.deadline = none := by
  cases gone with
  | absent => rfl
  | past isPast => cases absent

theorem Gone.removed (gone : slot.Gone now) :
    (Look.exec now slot .getEntity).slot = slot.remove ∧
      (Look.exec now slot .isExpired).slot = slot.remove := by
  cases gone with
  | absent => exact ⟨rfl, rfl⟩
  | past isPast =>
    have expired : ∀ value : Option (Value F), ∀ deadline version, deadline < now →
        Slot.expired now ⟨value, some deadline, version⟩ = true :=
      fun _ _ _ isPast => decide_eq_true isPast
    simp only [Look.exec, if_pos (expired _ _ _ isPast), and_self]

theorem gone_remove : slot.remove.Gone now :=
  .absent

theorem stable_gone : SlotStable (Slot.Gone (F := F)) where
  later le gone := by
    cases gone with
    | absent => exact .absent
    | past isPast => exact .past (isPast.trans_le le)
  expiry gone := by
    rw [gone.removed.2]
    exact gone_remove
  version version gone := by
    cases gone with
    | absent => exact .absent
    | past isPast => exact .past isPast

end Slot

section TrackedSlots

variable {now : Int} {stale stale' : Prop} {live copy : Slot F}

theorem Tracks.later {later : Int} (le : now ≤ later) (tracks : Tracks now stale live copy) :
    Tracks later stale live copy := by
  cases tracks with
  | gone hidden left => exact .gone (Slot.stable_gone.later le hidden) left
  | lasting => exact .lasting
  | due => exact .due
  | ended past hidden => exact .ended (past.trans_le le) (Slot.stable_gone.later le hidden)

variable (tracks : Tracks now stale live copy)
include tracks

theorem Tracks.mono (weaker : live.value = none → stale → stale') : Tracks now stale' live copy := by
  cases tracks with
  | gone hidden left => exact .gone hidden fun present => weaker rfl (left present)
  | lasting => exact .lasting
  | due => exact .due
  | ended past hidden => exact .ended past hidden

theorem Tracks.congr {live' copy' : Slot F} (value : live'.value = live.value)
    (deadline : live'.deadline = live.deadline) (value' : copy'.value = copy.value)
    (deadline' : copy'.deadline = copy.deadline) : Tracks now stale live' copy' := by
  obtain ⟨_, _, _⟩ := live'
  obtain ⟨_, _, _⟩ := copy'
  cases value
  cases deadline
  cases value'
  cases deadline'
  cases tracks with
  | gone hidden left => exact .gone (Slot.stable_gone.version _ hidden) left
  | lasting => exact .lasting
  | due => exact .due
  | ended past hidden => exact .ended past (Slot.stable_gone.version _ hidden)

theorem Tracks.kept (absent : live.value = none) : live.deadline = none := by
  cases tracks with
  | gone hidden left => rfl
  | lasting | due | ended past hidden => cases absent

theorem Tracks.kept_copy (absent : copy.value = none) : copy.deadline = none := by
  cases tracks with
  | gone hidden left | ended past hidden => exact hidden.kept absent
  | lasting | due => cases absent

omit tracks

theorem stable_tracks (stale : Prop) (live : Slot F) :
    SlotStable fun now copy => Tracks now stale live copy where
  later := Tracks.later
  expiry tracks := by
    cases tracks with
    | gone hidden left =>
      rw [hidden.removed.2]
      exact .gone (Slot.gone_remove) fun present => absurd rfl present
    | lasting => exact .lasting
    | @due value deadline version version' =>
      rename_i now
      by_cases past : wholeMillis deadline < now
      · refine .ended past ?_
        rw [(Slot.Gone.past past).removed.2]
        exact Slot.gone_remove
      · have notExpired : ¬ Slot.expired now
            (⟨some value, some (wholeMillis deadline), version'⟩ : Slot F) = true := by
          simpa [Slot.expired] using past
        simp only [Look.exec, if_neg notExpired]
        exact .due
    | ended past hidden =>
      rw [hidden.removed.2]
      exact .ended past (Slot.gone_remove)
  version version tracks := tracks.congr rfl rfl rfl rfl

include tracks

theorem Tracks.hidden {time : Int} (unseen : live.seen time = none) (positive : 0 < time)
    (le : time ≤ now) : copy.Gone now := by
  cases tracks with
  | gone hidden left | ended past hidden => exact hidden
  | lasting => cases unseen
  | @due value deadline version version' =>
    refine .past (wholeMillis_lt (positive.trans_le le) ?_)
    by_contra _
    have live : ¬ Slot.expired time (⟨some value, some deadline, version⟩ : Slot F) = true := by
      simp only [Slot.expired, decide_eq_true_eq]
      omega
    rw [Slot.seen, if_neg live] at unseen
    cases unseen

theorem Tracks.removed (gone : copy.Gone now) (isStale : stale ∨ live.value ≠ none → stale') : Tracks now stale' live.remove copy := by
  refine .gone gone fun present => isStale ?_
  cases tracks with
  | gone hidden left => exact .inl (left present)
  | lasting | due | ended past hidden => exact .inr (Option.some_ne_none _)

theorem Tracks.seen (positive : 0 < now) : copy.toMillis.seen now = live.toMillis.seen now := by
  have hiddenMillis : ∀ {slot : Slot F}, slot.Gone now → slot.toMillis.seen now = none := by
    intro slot gone
    cases gone with
    | absent => exact Slot.seen_of_none rfl
    | past isPast =>
      exact Slot.seen_of_expired (decide_eq_true (wholeMillis_lt positive isPast))
  cases tracks with
  | gone hidden left => exact (hiddenMillis hidden).trans (Slot.seen_of_none rfl).symm
  | lasting => rfl
  | due =>
    refine Slot.seen_congr rfl ?_
    simp only [Slot.toMillis, Slot.withDeadline, Option.map_some, wholeMillis_wholeMillis]
  | ended past hidden =>
    refine (hiddenMillis hidden).trans (Slot.seen_of_expired ?_).symm
    exact decide_eq_true past

end TrackedSlots

/-! ## Replays of a list of lines -/

def TracksAll (live : Space F) (stale : Key → Prop) (now : Int) (copy : Space F) : Prop :=
  ∀ key, Tracks now (stale key) (live.slots key) (copy.slots key)

def Around (live : Space F) (stale : Key → Prop) (key : Key) (Holds : Int → Slot F → Prop)
    (now : Int) (copy : Space F) : Prop :=
  (∀ other, other ≠ key → Tracks now (stale other) (live.slots other) (copy.slots other)) ∧
    Holds now (copy.slots key)

variable {key : Key}

theorem expireKey_slots {now : Int} {other : Key} {space : Space F} :
    (space.expireKey now key).slots other =
      if other = key then (Look.exec now (space.slots key) .isExpired).slot
      else space.slots other :=
  Space.write_slots _ _ _ _

theorem stable_tracksAll {live : Space F} (stale : Key → Prop) :
    Stable (TracksAll live stale) where
  later le tracks key := (tracks key).later le
  expiry key tracks other := by
    rw [expireKey_slots]
    split
    · rename_i same
      subst same
      exact (stable_tracks _ _).expiry (tracks other)
    · exact tracks other

theorem stable_around {live : Space F} (stale : Key → Prop) {Holds : Int → Slot F → Prop}
    (stable : SlotStable Holds) :
    Stable (Around live stale key Holds) where
  later le around := ⟨fun other different => (around.1 other different).later le,
    stable.later le around.2⟩
  expiry expired around := by
    refine ⟨fun other different => ?_, ?_⟩
    · rw [expireKey_slots]
      split
      · rename_i same
        subst same
        exact (stable_tracks _ _).expiry (around.1 other different)
      · exact around.1 other different
    · rw [expireKey_slots]
      split
      · rename_i same
        subst same
        exact stable.expiry around.2
      · exact around.2

section Replays

variable [Float64 F]

/-- From the first condition the replay of the lines leads to the second, at whatever times from
`start` on, with expiry tasks in between. -/
def Carries (start : Int) (lines : List Line) (Before After : Int → Space F → Prop) : Prop :=
  ∀ (now : Int) (copy : Space F) (replay : List (Happening F)), start ≤ now → Before now copy →
    Timely now replay → replay.filterMap Happening.line = lines →
      After (lastTime now replay) (runHappenings copy replay)

def Step (start : Int) (line : Line) (Before After : Int → Space F → Prop) : Prop :=
  ∀ (call : Call F) (copy : Space F), start ≤ call.env.now → call.line = line →
    Before call.env.now copy → After call.env.now (call.exec copy)

variable {start : Int} {Before Between After : Int → Space F → Prop}

theorem carries_nil (stable : Stable Before) : Carries start [] Before Before := by
  intro now copy replay from_ holds timely none_
  induction replay generalizing now copy with
  | nil => exact holds
  | cons happening rest ih =>
    cases happening with
    | call made => cases none_
    | expiry time key =>
      exact ih time _ (from_.trans timely.1) (stable.expiry key (stable.later timely.1 holds))
        timely.2 none_

variable {line : Line} {lines : List Line}

theorem Carries.cons (stable : Stable Before) (step : Step start line Before Between)
    (rest : Carries start lines Between After) :
    Carries start (line :: lines) Before After := by
  intro now copy replay from_ holds timely isLines
  induction replay generalizing now copy with
  | nil => cases isLines
  | cons happening later ih =>
    have holds := stable.later timely.1 holds
    cases happening with
    | call made =>
      injection isLines with isLine isLines
      have from_ := from_.trans timely.1
      exact rest _ _ later from_ (step made copy from_ isLine holds) timely.2 isLines
    | expiry time key =>
      exact ih time _ (from_.trans timely.1) (stable.expiry key holds) timely.2 isLines

theorem Carries.one (stable : Stable Before) (stable' : Stable After)
    (step : Step start line Before After) : Carries start [line] Before After :=
  .cons stable step (carries_nil stable')

theorem Carries.trans {first second : List Line} (carries : Carries start first Before Between)
    (carries' : Carries start second Between After) :
    Carries start (first ++ second) Before After := by
  intro now copy replay from_ holds timely isLines
  obtain ⟨earlier, later, rfl, isFirst, isSecond⟩ := List.filterMap_eq_append_iff.mp isLines
  obtain ⟨timely, timely'⟩ := timely_append.mp timely
  rw [lastTime_append, runHappenings_append]
  exact carries' _ _ later (from_.trans timely.start_le)
    (carries now copy earlier from_ holds timely isFirst) timely' isSecond

theorem Carries.mono {After' : Int → Space F → Prop} (carries : Carries start lines Before After)
    (weaker : ∀ now copy, start ≤ now → After now copy → After' now copy) :
    Carries start lines Before After' :=
  fun now copy replay from_ holds timely isLines =>
    weaker _ _ (from_.trans timely.start_le) (carries now copy replay from_ holds timely isLines)

omit [Float64 F] in
theorem Space.addVersion_version (space : Space F) (keys : List Key) (key : Key) :
    ∃ version, (space.addVersion keys).slots key =
      ⟨(space.slots key).value, (space.slots key).deadline, version⟩ := by
  obtain ⟨value, deadline⟩ := space.addVersion_slot keys key
  refine ⟨((space.addVersion keys).slots key).version, ?_⟩
  rw [← value, ← deadline]

def Enacts (line : Line) (key : Key) (program : SlotProg F Reply) : Prop :=
  ∀ (call : Call F) (copy : Space F), call.line = line → ∃ written,
    call.exec copy = (copy.addVersion written).write key
      (program.run (slotHandle call.env) ((copy.addVersion written).read key)).2

theorem enacts_changeKey {name : Name} {word key : Bytes} {more : List Bytes}
    {body : List Bytes → SlotProg F Reply} (found : commandOf (word :: key :: more) = some name)
    (executes : (command (F := F) name).executor = .changeKey body)
    (prepared : (command (F := F) name).prepare = some writeFirstKey)
    (counted : validateArity (command (F := F) name).arity (word :: key :: more) = true) :
    Enacts (word :: key :: more) (str key) (body (key :: more)) := by
  rintro ⟨env, _⟩ copy isLine
  cases isLine
  refine ⟨(writeFirstKey (key :: more)).1, ?_⟩
  unfold Call.exec
  rw [execNormalCommand_eq env copy found prepared counted, executes]
  exact congrArg Prod.snd run_onKey

theorem Enacts.step {key : Key} {program : SlotProg F Reply} (enacts : Enacts line key program)
    {live : Space F} {stale : Key → Prop} {Holds Holds' : Int → Slot F → Prop}
    (stable : SlotStable Holds)
    (does : ∀ (env : Env F) (slot : Slot F), start ≤ env.now → Holds env.now slot →
      Holds' env.now (program.run (slotHandle env) ⟨slot, []⟩).2.slot) :
    Step start line (Around live stale key Holds) (Around live stale key Holds') := by
  intro call copy from_ isLine around
  obtain ⟨written, executed⟩ := enacts call copy isLine
  rw [executed]
  refine ⟨fun other different => ?_, ?_⟩
  · obtain ⟨value, deadline⟩ := copy.addVersion_slot written other
    rw [Space.write_slots_ne _ _ different]
    exact (around.1 other different).congr rfl rfl value deadline
  · obtain ⟨version, isSlot⟩ := copy.addVersion_version written key
    rw [Space.write_slots_self, Space.read, isSlot]
    exact does call.env _ from_ (stable.version version around.2)

end Replays

end Godis.Database


