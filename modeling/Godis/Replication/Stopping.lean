import Mathlib.Tactic
import Godis.Transition.Reached

/-!
# Stopping a replica (`database/replication_slave.go`)

The executions of `receiveAOF` and the calls that stop or reconfigure them, over
`slaveStatus.mutex`, `configVersion`, the context of the last `setupMaster` and
the wait group `running`.  A receiver that has taken a payload waits for the
mutex; a call that stops the replica waits for the receivers while it holds it.
-/

namespace Godis.Replication

inductive Method
  /-- `execSlaveOf` with a host and a port -/
  | slaveOf
  | slaveOfNone
  | reconnectWithMaster
  | close
  deriving DecidableEq

namespace Method

def stops : Method → Bool
  | .slaveOf => false
  | .slaveOfNone | .reconnectWithMaster | .close => true

def setsUp : Method → Bool
  | .slaveOf | .reconnectWithMaster => true
  | .slaveOfNone | .close => false

end Method

/-- Where an execution of `setupMaster` and its `receiveAOF` is; `configVersion`
is its argument. -/
inductive Receiver
  | absent
  /-- in `connectWithMaster` or `loadMasterRDB` -/
  | connects (configVersion : BitVec 32)
  | selects (configVersion : BitVec 32)
  /-- with a payload, before `mutex.Lock()` returns -/
  | took (configVersion : BitVec 32)
  | locked (configVersion : BitVec 32)
  | executes (configVersion : BitVec 32)
  | exited
  deriving DecidableEq

def Receiver.owns : Receiver → Bool
  | .locked _ | .executes _ => true
  | .absent | .connects _ | .selects _ | .took _ | .exited => false

inductive Caller
  | absent
  | wants (method : Method)
  | locked (method : Method)
  | bumped (method : Method)
  /-- in `running.Wait()` -/
  | waits (method : Method)
  | leaves (method : Method)
  | returned
  deriving DecidableEq

def Caller.owns : Caller → Bool
  | .locked _ | .bumped _ | .waits _ | .leaves _ => true
  | .absent | .wants _ | .returned => false

inductive Owner
  | receiver (id : Nat)
  | caller (id : Nat)
  deriving DecidableEq

/-- `slaveStatus`; a context is named by the receiver it was made for, and
`setups` counts the goroutines of `setupMaster` that have not begun. -/
structure SlaveStatus where
  mutex : Option Owner
  configVersion : BitVec 32
  cancel : Option Nat
  cancelled : Finset Nat
  running : Nat
  setups : Nat
  receivers : Nat → Receiver
  callers : Nat → Caller

inductive Stride
  /-- the first lines of `setupMaster`, up to its `mutex.Unlock()` -/
  | setUp (id : Nat)
  /-- `connectWithMaster` or `loadMasterRDB` fails -/
  | fail (id : Nat)
  /-- `running.Add(1)` -/
  | enter (id : Nat)
  | take (id : Nat)
  /-- the channel is closed, or yields an error or no multi bulk -/
  | drop (id : Nat)
  /-- `<-ctx.Done()` -/
  | done (id : Nat)
  | lock (id : Nat)
  | check (id : Nat)
  /-- `server.Exec`, the new offset and `mutex.Unlock()` -/
  | execute (id : Nat)
  | call (id : Nat) (method : Method)
  | acquire (id : Nat)
  | bump (id : Nat)
  | cancel (id : Nat)
  | waited (id : Nat)
  | release (id : Nat)

namespace SlaveStatus

def setReceiver (status : SlaveStatus) (id : Nat) (receiver : Receiver) : SlaveStatus :=
  { status with receivers := Function.update status.receivers id receiver }

def setCaller (status : SlaveStatus) (id : Nat) (caller : Caller) : SlaveStatus :=
  { status with callers := Function.update status.callers id caller }

def exit (status : SlaveStatus) (id : Nat) : SlaveStatus :=
  { status.setReceiver id .exited with running := status.running - 1 }

/-- `none` where the stride cannot be taken. -/
def step (status : SlaveStatus) : Stride → Option SlaveStatus
  | .setUp id =>
    if status.receivers id = .absent ∧ status.mutex = none ∧ 0 < status.setups then
      some { status.setReceiver id (.connects status.configVersion) with
        cancel := some id
        setups := status.setups - 1 }
    else none
  | .fail id =>
    match status.receivers id with
    | .connects _ => some (status.setReceiver id .exited)
    | _ => none
  | .enter id =>
    match status.receivers id with
    | .connects configVersion =>
      some { status.setReceiver id (.selects configVersion) with running := status.running + 1 }
    | _ => none
  | .take id =>
    match status.receivers id with
    | .selects configVersion => some (status.setReceiver id (.took configVersion))
    | _ => none
  | .drop id =>
    match status.receivers id with
    | .selects _ => some (status.exit id)
    | _ => none
  | .done id =>
    match status.receivers id with
    | .selects _ => if id ∈ status.cancelled then some (status.exit id) else none
    | _ => none
  | .lock id =>
    match status.receivers id, status.mutex with
    | .took configVersion, none =>
      some { status.setReceiver id (.locked configVersion) with mutex := some (.receiver id) }
    | _, _ => none
  | .check id =>
    match status.receivers id with
    | .locked configVersion =>
      -- the return with `configChangedErr` does not unlock the mutex
      if status.configVersion = configVersion then
        some (status.setReceiver id (.executes configVersion))
      else some (status.exit id)
    | _ => none
  | .execute id =>
    match status.receivers id with
    | .executes configVersion =>
      some { status.setReceiver id (.selects configVersion) with mutex := none }
    | _ => none
  | .call id method =>
    match status.callers id with
    | .absent => some (status.setCaller id (.wants method))
    | _ => none
  | .acquire id =>
    match status.callers id, status.mutex with
    | .wants method, none =>
      some { status.setCaller id (.locked method) with mutex := some (.caller id) }
    | _, _ => none
  | .bump id =>
    match status.callers id with
    | .locked method =>
      some { status.setCaller id (if method.stops then .bumped method else .leaves method) with
        configVersion := status.configVersion + 1 }
    | _ => none
  | .cancel id =>
    match status.callers id, status.cancel with
    | .bumped method, none => some (status.setCaller id (.leaves method))
    | .bumped method, some receiver =>
      some { status.setCaller id (.waits method) with
        cancelled := insert receiver status.cancelled }
    | _, _ => none
  | .waited id =>
    match status.callers id with
    | .waits method =>
      if status.running = 0 then
        some { status.setCaller id (.leaves method) with cancel := none }
      else none
    | _ => none
  | .release id =>
    match status.callers id with
    | .leaves method =>
      some { status.setCaller id .returned with
        mutex := none
        setups := status.setups + if method.setsUp then 1 else 0 }
    | _ => none

def initial : SlaveStatus := ⟨none, 0, none, ∅, 0, 0, fun _ => .absent, fun _ => .absent⟩

/-- A call waits in `running.Wait()` with the mutex while a receiver waits for the mutex. -/
def Deadlocked (status : SlaveStatus) : Prop :=
  ∃ call method id configVersion, status.mutex = some (.caller call) ∧
    status.callers call = .waits method ∧ status.receivers id = .took configVersion

/-- A receiver has returned without unlocking the mutex. -/
def Orphaned (status : SlaveStatus) : Prop :=
  ∃ id, status.mutex = some (.receiver id) ∧ status.receivers id = .exited

/-- A payload is taken only for the current configuration and while no call has the
mutex, and a call gets the mutex only while no receiver has a payload and waits for it. -/
def Timely (status : SlaveStatus) : Stride → Prop
  | .take id =>
    status.receivers id = .selects status.configVersion ∧
      ∀ call, status.mutex ≠ some (.caller call)
  | .acquire _ => ∀ id configVersion, status.receivers id ≠ .took configVersion
  | _ => True

/-! ## Runs -/

/-- Who has the mutex, and what a receiver with a payload relies on. -/
structure Orderly (status : SlaveStatus) : Prop where
  receiver : ∀ id, (status.receivers id).owns → status.mutex = some (.receiver id)
  caller : ∀ id, (status.callers id).owns → status.mutex = some (.caller id)
  owner : ∀ id, status.mutex = some (.receiver id) → (status.receivers id).owns
  took : ∀ id configVersion, status.receivers id = .took configVersion →
    status.configVersion = configVersion ∧ ∀ call, status.mutex ≠ some (.caller call)
  locked : ∀ id configVersion, status.receivers id = .locked configVersion →
    status.configVersion = configVersion

namespace Orderly

theorem initial : Orderly initial where
  receiver _ owns := by cases owns
  caller _ owns := by cases owns
  owner _ owned := by cases owned
  took _ _ took := by cases took
  locked _ _ locked := by cases locked

variable {status status' : SlaveStatus}

variable (orderly : Orderly status)
include orderly

theorem congr (mutex : status'.mutex = status.mutex)
    (configVersion : status'.configVersion = status.configVersion)
    (receivers : status'.receivers = status.receivers) (callers : status'.callers = status.callers) : Orderly status' := by
  obtain ⟨_, _, _, _, _⟩ := orderly
  constructor
  · rwa [receivers, mutex]
  · rwa [callers, mutex]
  · rwa [receivers, mutex]
  · rwa [receivers, mutex, configVersion]
  · rwa [receivers, configVersion]

variable {id call : Nat} {configVersion : BitVec 32} {method : Method}

theorem setReceiver {receiver : Receiver} (was : (status.receivers id).owns = false)
    (owns : receiver.owns = false) (took : ∀ configVersion, receiver = .took configVersion →
      status.configVersion = configVersion ∧ ∀ call, status.mutex ≠ some (.caller call)) :
    Orderly (status.setReceiver id receiver) := by
  have other {other : Nat} (ne : other ≠ id) :
      (status.setReceiver id receiver).receivers other = status.receivers other :=
    Function.update_of_ne ne _ _
  have self : (status.setReceiver id receiver).receivers id = receiver :=
    Function.update_self _ _ _
  constructor
  · intro k owned
    rcases eq_or_ne k id with rfl | ne
    · rw [self, owns] at owned
      cases owned
    · exact orderly.receiver k (other ne ▸ owned)
  · exact orderly.caller
  · intro k owned
    rcases eq_or_ne k id with rfl | ne
    · rw [orderly.owner k owned] at was
      cases was
    · rw [other ne]
      exact orderly.owner k owned
  · intro k configVersion waiting
    rcases eq_or_ne k id with rfl | ne
    · exact took configVersion (self ▸ waiting)
    · exact orderly.took k configVersion (other ne ▸ waiting)
  · intro k configVersion held
    rcases eq_or_ne k id with rfl | ne
    · rw [self.symm.trans held] at owns
      cases owns
    · exact orderly.locked k configVersion (other ne ▸ held)

theorem setCaller {caller : Caller} (owns : caller.owns = (status.callers id).owns) : Orderly (status.setCaller id caller) := by
  constructor
  · exact orderly.receiver
  · intro k owned
    rcases eq_or_ne k id with rfl | ne
    · have self : (status.setCaller k caller).callers k = caller := Function.update_self _ _ _
      exact orderly.caller k (owns ▸ self ▸ owned)
    · have other : (status.setCaller id caller).callers k = status.callers k :=
        Function.update_of_ne ne _ _
      exact orderly.caller k (other ▸ owned)
  · exact orderly.owner
  · exact orderly.took
  · exact orderly.locked

theorem alone (owns : (status.callers call).owns) (id : Nat) :
    (status.receivers id).owns = false ∧
      ∀ configVersion, status.receivers id ≠ .took configVersion := by
  have owned := orderly.caller call owns
  refine ⟨?_, fun configVersion took => (orderly.took id configVersion took).2 call owned⟩
  cases receives : (status.receivers id).owns with
  | false => rfl
  | true => exact absurd ((orderly.receiver id receives).symm.trans owned) (by simp)

theorem bump (owns : (status.callers call).owns) : Orderly { status with configVersion := status.configVersion + 1 } where
  receiver := orderly.receiver
  caller := orderly.caller
  owner := orderly.owner
  took id configVersion took := absurd took ((orderly.alone owns id).2 configVersion)
  locked id configVersion locked := by
    have free := (orderly.alone owns id).1
    rw [show status.receivers id = .locked configVersion from locked] at free
    cases free

theorem free (unlocked : status.mutex = none) (id : Nat) :
    (status.receivers id).owns = false ∧ (status.callers id).owns = false := by
  constructor
  · cases owns : (status.receivers id).owns with
    | false => rfl
    | true => exact absurd (unlocked.symm.trans (orderly.receiver id owns)) (by simp)
  · cases owns : (status.callers id).owns with
    | false => rfl
    | true => exact absurd (unlocked.symm.trans (orderly.caller id owns)) (by simp)

theorem lock (took : status.receivers id = .took configVersion) (unlocked : status.mutex = none) :
    Orderly { status.setReceiver id (.locked configVersion) with mutex := some (.receiver id) } := by
  have free := orderly.free unlocked
  have versions := orderly.took
  constructor <;> simp only [SlaveStatus.setReceiver, Function.update_apply] <;>
    grind [Receiver.owns]

theorem execute (executes : status.receivers id = .executes configVersion) :
    Orderly { status.setReceiver id (.selects configVersion) with mutex := none } := by
  obtain ⟨_, _, -, _, _⟩ := orderly
  constructor <;> simp only [SlaveStatus.setReceiver, Function.update_apply] <;>
    grind [Receiver.owns]

theorem acquire (unlocked : status.mutex = none)
    (idle : ∀ id configVersion, status.receivers id ≠ .took configVersion) :
    Orderly { status.setCaller id (.locked method) with mutex := some (.caller id) } := by
  have free := orderly.free unlocked
  have versions := orderly.locked
  constructor <;> simp only [SlaveStatus.setCaller, Function.update_apply] <;>
    grind [Caller.owns]

theorem release (leaves : status.callers id = .leaves method) :
    Orderly { status.setCaller id .returned with mutex := none } := by
  obtain ⟨_, _, -, _, _⟩ := orderly
  constructor <;> simp only [SlaveStatus.setCaller, Function.update_apply] <;>
    grind [Caller.owns]

theorem exit (selects : status.receivers id = .selects configVersion) :
    Orderly (status.exit id) := by
  have moved : Orderly (status.setReceiver id .exited) :=
    orderly.setReceiver (by rw [selects]; rfl) rfl (by simp)
  exact moved.congr rfl rfl rfl rfl

theorem check (locked : status.receivers id = .locked configVersion) :
    status.configVersion = configVersion ∧
      Orderly (status.setReceiver id (.executes configVersion)) := by
  refine ⟨orderly.locked id configVersion locked, ?_⟩
  obtain ⟨_, _, -, _, _⟩ := orderly
  constructor <;> simp only [SlaveStatus.setReceiver, Function.update_apply] <;>
    grind [Receiver.owns]

theorem step {stride : Stride} (timely : Timely status stride)
    (taken : status.step stride = some status') : Orderly status' := by
  cases stride with simp only [SlaveStatus.step] at taken
  | setUp id =>
    simp only [Option.ite_none_right_eq_some, Option.some.injEq] at taken
    obtain ⟨⟨absent, -, -⟩, rfl⟩ := taken
    have moved : Orderly (status.setReceiver id (.connects status.configVersion)) :=
      orderly.setReceiver (by rw [absent]; rfl) rfl (by simp)
    exact moved.congr rfl rfl rfl rfl
  | fail id =>
    split at taken
    · next connects =>
        cases taken
        exact orderly.setReceiver (by rw [connects]; rfl) rfl (by simp)
    · cases taken
  | enter id =>
    split at taken
    · next configVersion connects =>
        cases taken
        have moved : Orderly (status.setReceiver id (.selects configVersion)) :=
          orderly.setReceiver (by rw [connects]; rfl) rfl (by simp)
        exact moved.congr rfl rfl rfl rfl
    · cases taken
  | take id =>
    obtain ⟨current, nobody⟩ := timely
    simp only [current] at taken
    cases taken
    refine orderly.setReceiver (by rw [current]; rfl) rfl ?_
    intro configVersion took
    exact ⟨Receiver.took.inj took, nobody⟩
  | drop id =>
    split at taken
    · next selects =>
        cases taken
        exact orderly.exit selects
    · cases taken
  | done id =>
    split at taken
    · next selects =>
        obtain ⟨-, exits⟩ := Option.ite_none_right_eq_some.mp taken
        cases exits
        exact orderly.exit selects
    · cases taken
  | lock id =>
    split at taken
    · next took unlocked =>
        cases taken
        exact orderly.lock took unlocked
    · cases taken
  | check id =>
    split at taken
    · next configVersion locked =>
        obtain ⟨current, executes⟩ := orderly.check locked
        rw [if_pos current] at taken
        cases taken
        exact executes
    · cases taken
  | execute id =>
    split at taken
    · next executes =>
        cases taken
        exact orderly.execute executes
    · cases taken
  | call id method =>
    split at taken
    · next absent =>
        cases taken
        exact orderly.setCaller (by rw [absent]; rfl)
    · cases taken
  | acquire id =>
    split at taken
    · next wants unlocked =>
        cases taken
        exact orderly.acquire unlocked timely
    · cases taken
  | bump id =>
    split at taken
    · next method locked =>
        cases taken
        have owns : (status.callers id).owns := by rw [locked]; rfl
        refine ((orderly.bump owns).setCaller ?_).congr rfl rfl rfl rfl
        rw [owns]
        split <;> rfl
    · cases taken
  | cancel id =>
    split at taken
    · next bumped _ =>
        cases taken
        exact orderly.setCaller (by rw [bumped]; rfl)
    · next method receiver bumped _ =>
        cases taken
        have moved : Orderly (status.setCaller id (.waits method)) :=
          orderly.setCaller (by rw [bumped]; rfl)
        exact moved.congr rfl rfl rfl rfl
    · cases taken
  | waited id =>
    split at taken
    · next method waits =>
        obtain ⟨-, returns⟩ := Option.ite_none_right_eq_some.mp taken
        cases returns
        have moved : Orderly (status.setCaller id (.leaves method)) :=
          orderly.setCaller (by rw [waits]; rfl)
        exact moved.congr rfl rfl rfl rfl
    · cases taken
  | release id =>
    split at taken
    · next leaves =>
        cases taken
        exact (orderly.release leaves).congr rfl rfl rfl rfl
    · cases taken

end Orderly

/-- Where every payload is taken and every call gets the mutex in time, no call
waits for a receiver that waits for the call, and no receiver leaves with the mutex. -/
theorem stops_of_timely {status : SlaveStatus}
    (reached : Transition.Reached step (· = initial) Timely status) :
    ¬ status.Deadlocked ∧ ¬ status.Orphaned := by
  have orderly : Orderly status := reached.invariant
    (fun _ started => started ▸ Orderly.initial)
    (fun _ _ _ orderly timely taken => orderly.step timely taken)
  constructor
  · rintro ⟨call, _, id, configVersion, owned, -, took⟩
    exact (orderly.took id configVersion took).2 call owned
  · rintro ⟨id, owned, exited⟩
    have owns := orderly.owner id owned
    rw [exited] at owns
    cases owns

theorem stops_between_payloads :
    ∃ status, Transition.Reached step (· = initial) Timely status ∧
      status.receivers 0 = .exited ∧ status.callers 1 = .returned ∧
      ¬ status.Deadlocked ∧ ¬ status.Orphaned := by
  have started : Transition.Reached step (· = initial) Timely initial := .start rfl
  have called := started.step (Stride.call 0 .slaveOf) trivial rfl
  have acquired := called.step (Stride.acquire 0) (fun _ _ took => by cases took) rfl
  have bumped := acquired.step (Stride.bump 0) trivial rfl
  have configured := bumped.step (Stride.release 0) trivial rfl
  have connecting := configured.step (Stride.setUp 0) trivial rfl
  have receiving := connecting.step (Stride.enter 0) trivial rfl
  have taken := receiving.step (Stride.take 0) ⟨rfl, fun _ owned => by cases owned⟩ rfl
  have locked := taken.step (Stride.lock 0) trivial rfl
  have checked := locked.step (Stride.check 0) trivial rfl
  have executed := checked.step (Stride.execute 0) trivial rfl
  have stopping := executed.step (Stride.call 1 .slaveOfNone) trivial rfl
  have alone := stopping.step (Stride.acquire 1) (by
    intro id configVersion took
    cases id with
    | zero => cases took
    | succ id => cases took) rfl
  have changed := alone.step (Stride.bump 1) trivial rfl
  have cancelled := changed.step (Stride.cancel 1) trivial rfl
  have exited := cancelled.step (Stride.done 0) trivial rfl
  have waited := exited.step (Stride.waited 1) trivial rfl
  have stopped := waited.step (Stride.release 1) trivial rfl
  exact ⟨_, stopped, rfl, rfl, stops_of_timely stopped⟩

/-- A payload is taken just before `SLAVEOF NO ONE`, or after a second `SLAVEOF`. -/
theorem stopping_blocks :
    (∃ status, [Stride.call 0 .slaveOf, .acquire 0, .bump 0, .release 0, .setUp 0, .enter 0,
        .take 0, .call 1 .slaveOfNone, .acquire 1, .bump 1, .cancel 1].foldlM step initial =
          some status ∧ status.Deadlocked) ∧
      ∃ status, [Stride.call 0 .slaveOf, .acquire 0, .bump 0, .release 0, .setUp 0, .enter 0,
        .call 1 .slaveOf, .acquire 1, .bump 1, .release 1, .take 0, .lock 0, .check 0].foldlM
          step initial = some status ∧ status.Orphaned :=
  ⟨⟨_, rfl, 1, .slaveOfNone, 0, 1, rfl, rfl, rfl⟩, _, rfl, 0, rfl, rfl⟩

end SlaveStatus

end Godis.Replication
