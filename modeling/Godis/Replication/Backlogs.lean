import Godis.Golang.Str
import Godis.Replication.ExactlyOnce

/-!
# The backlogs of a master (`saveForReplication`, `rewriteRDB`)

`masterStatus.backlog` points to one of several backlogs: `saveForReplication`
registers a listener that appends to the one in use, `rewriteRDB` registers a
listener with a new one and puts it in its place when the RDB file is done.  The
stream is what the listener of the backlog in use and the pings have appended.
-/

namespace Godis.Replication

open Golang List
open Option (bind_eq_bind bind_eq_some_iff some.inj some.injEq)

inductive BgSaveState
  | idle
  | running
  | finish
  deriving DecidableEq

/-- An execution of `saveForReplication` or `rewriteRDB` and its listener, which appends
to the backlog `target`; `cut` is the length of the stream in its RDB file. -/
inductive Job
  /-- `saveForReplication` behind its first critical section -/
  | saving (target : Nat)
  /-- `saveForReplication` behind `startGenerateRDB` -/
  | generating (target cut : Nat)
  /-- `rewriteRDB` behind `startGenerateRDB` and its hook -/
  | rewriting (target cut : Nat)
  | over (target : Nat)
  deriving DecidableEq

def Job.target : Job → Nat
  | .saving target | .generating target _ | .rewriting target _ | .over target => target

/-- A resynchronisation of a slave: what it has of the stream so far, and the offset with
which it goes online once the backlog has been read. -/
structure Sync where
  slave : Nat
  has : List UInt8
  currentOffset : Option Int
  deriving DecidableEq

/-- `masterStatus` and the listeners of the persister.  The backlog in use is
`master.backlog`, and `backlog` is its name; `backlogs` are the others.  `requests`
and `orders` count the goroutines of `saveForReplication` and `rewriteRDB` that have
not begun, `rdb` is the cut of the file `rdbFilename`.  `syncs` are the resynchronisations under
way, of which one slave may have several: `execPSync` does not look for another.  While `writeAof` calls the
listeners, `pending` are those it has not called and `bin` are the bytes; `has` is what
each slave had of the stream when it went online. -/
structure Keeper where
  master : Master
  backlog : Nat
  backlogs : Nat → Backlog
  next : Nat
  bgSaveState : BgSaveState
  rdb : Option Nat
  requests : Nat
  orders : Nat
  jobs : Finmap fun _ : Nat => Job
  registered : Finset Nat
  aofListener : Option Nat
  pending : Finset Nat
  bin : List UInt8
  syncs : Finmap fun _ : Nat => Sync
  has : Nat → List UInt8
  stream : List UInt8

def pingBytes : List UInt8 := lit "*1\r\n$4\r\nping\r\n"

def maxBacklogSize : Nat := 10 * 1024 * 1024

def Event.isSend : Event → Bool
  | .append _ | .online _ _ _ | .sendAck _ | .deliverAck _ => false
  | _ => true

inductive Act
  /-- `execPSync` finds `bgSaveIdle` -/
  | psync
  | save (job : Nat)
  | register (job : Nat)
  /-- the end of `saveForReplication` -/
  | finish (job : Nat)
  /-- `writeAof` before the callbacks -/
  | write (bin : List UInt8)
  | callback (job : Nat)
  | ping
  /-- `masterCron` finds a backlog that is too large -/
  | order
  /-- `startGenerateRDB` of `rewriteRDB` with its hook -/
  | hook (job : Nat)
  | swap (job : Nat)
  /-- `masterFullReSyncWithSlave` up to the copy of the RDB file -/
  | fullResync (sync id : Nat)
  /-- `masterFullReSyncWithSlave` reads the backlog -/
  | collect (sync : Nat)
  /-- `masterTryPartialSyncWithSlave` reads the backlog -/
  | resume (sync id : Nat) (slaveOffset : Int)
  /-- `setSlaveOnline` -/
  | online (sync : Nat) (early : List UInt8)
  | abort (sync : Nat)
  | send (event : Event)

/-- `early` are the bytes of the resynchronisation that are under way. -/
def Master.setSlaveOnline (master : Master) (id : Nat) (currentOffset : Int) (early : List UInt8) : Master :=
  { master with
    known := insert id master.known
    slaves := master.slaves.insert id
      ((master.slaves.lookup id).elim ⟨currentOffset, currentOffset, early, [], early, 0, []⟩
        fun slave => { slave with offset := currentOffset, wire := slave.wire ++ early }) }

namespace Keeper

/-- `listener.backlog.appendBytes` for the backlog `target` -/
def appendTo (keeper : Keeper) (target : Nat) (bin : List UInt8) : Keeper :=
  if target = keeper.backlog then
    { keeper with
      master := { keeper.master with backlog := keeper.master.backlog.appendBytes bin } }
  else
    { keeper with
      backlogs := Function.update keeper.backlogs target
        ((keeper.backlogs target).appendBytes bin) }

/-- `none` where the act cannot happen or the code panics. -/
def step (keeper : Keeper) : Act → Option Keeper
  | .psync =>
    if keeper.bgSaveState = .idle then some { keeper with requests := keeper.requests + 1 }
    else none
  | .save job =>
    if 0 < keeper.requests ∧ job ∉ keeper.jobs then
      some { keeper with
        requests := keeper.requests - 1
        bgSaveState := .running
        rdb := none
        jobs := keeper.jobs.insert job (.saving keeper.backlog)
        aofListener := some job }
    else none
  | .register job =>
    match keeper.jobs.lookup job with
    | some (.saving target) =>
      if keeper.pending = ∅ then
        some { keeper with
          jobs := keeper.jobs.insert job (.generating target keeper.stream.length)
          registered := insert job keeper.registered }
      else none
    | _ => none
  | .finish job =>
    match keeper.jobs.lookup job with
    | some (.generating target cut) =>
      some { keeper with
        bgSaveState := .finish
        rdb := some cut
        jobs := keeper.jobs.insert job (.over target) }
    | _ => none
  | .write bin =>
    if keeper.pending = ∅ then some { keeper with pending := keeper.registered, bin := bin }
    else none
  | .callback job => do
    let found ← keeper.jobs.lookup job
    if job ∈ keeper.pending then
      some { keeper.appendTo found.target keeper.bin with
        pending := keeper.pending.erase job
        stream :=
          if found.target = keeper.backlog ∧ keeper.aofListener = some job then
            keeper.stream ++ keeper.bin
          else keeper.stream }
    else none
  | .ping =>
    if keeper.bgSaveState = .finish then
      some { keeper.appendTo keeper.backlog pingBytes with stream := keeper.stream ++ pingBytes }
    else none
  | .order =>
    if maxBacklogSize < keeper.master.backlog.buf.length then
      some { keeper with orders := keeper.orders + 1 }
    else none
  | .hook job =>
    if 0 < keeper.orders ∧ job ∉ keeper.jobs ∧ keeper.pending = ∅ then
      -- the hook sets `beginOffset` only
      some { keeper with
        orders := keeper.orders - 1
        backlogs := Function.update keeper.backlogs keeper.next
          ⟨[], keeper.master.backlog.currentOffset, 0⟩
        next := keeper.next + 1
        jobs := keeper.jobs.insert job (.rewriting keeper.next keeper.stream.length)
        registered := insert job keeper.registered }
    else none
  | .swap job =>
    match keeper.jobs.lookup job with
    | some (.rewriting target cut) =>
      if keeper.pending = ∅ then
        some { keeper with
          rdb := some cut
          master := { keeper.master with backlog := keeper.backlogs target }
          backlogs := Function.update keeper.backlogs keeper.backlog keeper.master.backlog
          backlog := target
          registered := keeper.registered \ keeper.aofListener.toFinset
          aofListener := some job
          jobs := keeper.jobs.insert job (.over target) }
      else none
    | _ => none
  | .fullResync sync id => do
    let cut ← keeper.rdb
    if keeper.bgSaveState = .finish ∧ sync ∉ keeper.syncs then
      some { keeper with syncs := keeper.syncs.insert sync ⟨id, keeper.stream.take cut, none⟩ }
    else none
  | .collect sync =>
    match keeper.syncs.lookup sync with
    | some ⟨id, has, none⟩ =>
      some { keeper with
        syncs := keeper.syncs.insert sync
          ⟨id, has ++ keeper.master.backlog.buf, some keeper.master.backlog.currentOffset⟩ }
    | _ => none
  | .resume sync id slaveOffset =>
    let backlog := keeper.master.backlog
    if keeper.bgSaveState = .finish ∧ sync ∉ keeper.syncs ∧
        backlog.beginOffset ≤ slaveOffset ∧ slaveOffset < backlog.currentOffset then
      some { keeper with
        syncs := keeper.syncs.insert sync
          ⟨id, keeper.stream.take slaveOffset.toNat ++
              backlog.buf.drop (slaveOffset - backlog.beginOffset).toNat,
            some backlog.currentOffset⟩ }
    else none
  | .online sync early =>
    match keeper.syncs.lookup sync with
    | some ⟨id, has, some currentOffset⟩ =>
      some { keeper with
        master := keeper.master.setSlaveOnline id currentOffset early
        syncs := keeper.syncs.erase sync
        has := Function.update keeper.has id has }
    | _ => none
  | .abort sync => some { keeper with syncs := keeper.syncs.erase sync }
  | .send event =>
    if event.isSend then do
      let master ← keeper.master.step event
      some { keeper with master := master }
    else none

def initial : Keeper :=
  ⟨Master.noSlaves, 0, fun _ => ⟨[], 0, 0⟩, 1, .idle, none, 0, 0, ∅, ∅, none, ∅, [], ∅, fun _ => [], []⟩

/-- The offsets of the online slaves lie in the backlog. -/
def Within (keeper : Keeper) : Prop :=
  ∀ id slave, keeper.master.slaves.lookup id = some slave →
    keeper.master.backlog.beginOffset ≤ slave.offset ∧
      slave.offset ≤ keeper.master.backlog.currentOffset

/-- The slave has never been online and is not being resynchronised. -/
def IsNew (keeper : Keeper) (id : Nat) : Prop :=
  id ∉ keeper.master.known ∧
    ∀ sync ∈ keeper.syncs.keys, ∀ found ∈ keeper.syncs.lookup sync, found.slave ≠ id

instance decidableIsNew (keeper : Keeper) (id : Nat) : Decidable (keeper.IsNew id) :=
  inferInstanceAs (Decidable (_ ∧ _))

/-- `saveForReplication` begins only once, `masterCron` never finds a backlog that is too large, no
slave is resynchronised twice and the executions of `masterSendUpdatesToSlave` do not overlap. -/
def Careful (keeper : Keeper) : Act → Prop
  | .save _ => keeper.bgSaveState = .idle
  | .order => False
  | .fullResync _ id | .resume _ id _ => keeper.IsNew id
  | .send event => keeper.master.Orderly event
  | _ => True

instance decidableCareful (keeper : Keeper) (act : Act) : Decidable (keeper.Careful act) := by
  cases act <;> unfold Careful <;> infer_instance

/-! ## Sends -/

theorem lookup_of_erase {β : Type} {entries : Finmap fun _ : Nat => β} {key other : Nat} {found : β}
    (lookup : (entries.erase key).lookup other = some found) : entries.lookup other = some found := by
  rcases eq_or_ne other key with rfl | differs
  · rw [Finmap.lookup_erase] at lookup
    cases lookup
  · rwa [Finmap.lookup_erase_ne differs] at lookup

def Moved (master : Master) (slaves : Finmap fun _ : Nat => Slave) : Prop :=
  ∀ id slave', slaves.lookup id = some slave' →
    ∃ slave, master.slaves.lookup id = some slave ∧ slave'.onlineAt = slave.onlineAt ∧
      (slave'.offset = slave.offset ∨
        ∃ k sender, master.senders.lookup k = some sender ∧ slave'.offset = sender.currentOffset)

theorem Moved.refl (master : Master) : Moved master master.slaves :=
  fun _ slave found => ⟨slave, found, rfl, .inl rfl⟩

theorem Moved.insert {master : Master} {id : Nat} {slave changed : Slave}
    (present : master.slaves.lookup id = some slave) (onlineAt : changed.onlineAt = slave.onlineAt)
    (offset : changed.offset = slave.offset ∨ ∃ k sender,
      master.senders.lookup k = some sender ∧ changed.offset = sender.currentOffset) :
    Moved master (master.slaves.insert id changed) := by
  intro other slave' found
  rcases Master.lookup_insert_cases found with ⟨rfl, rfl⟩ | ⟨-, found⟩
  · exact ⟨slave, present, onlineAt, offset⟩
  · exact Moved.refl master other slave' found

theorem step_send {master master' : Master} {event : Event} (sends : event.isSend)
    (taken : master.step event = some master') :
    master'.backlog = master.backlog ∧ master'.known = master.known ∧
      Moved master master'.slaves := by
  cases event with simp only [Master.step, bind_eq_bind, bind_eq_some_iff,
    Option.ite_none_right_eq_some, some.injEq] at taken
  | append bin => cases sends
  | online id currentOffset early => cases sends
  | sendAck id => cases sends
  | deliverAck id => cases sends
  | snapshot k onlineSlaves =>
    obtain ⟨-, rfl⟩ := taken
    exact ⟨rfl, rfl, .refl master⟩
  | read k =>
    obtain ⟨-, -, -, -, -, -, -, rfl⟩ := taken
    exact ⟨rfl, rfl, .refl master⟩
  | write k =>
    obtain ⟨_, -, _, -, _, present, taken⟩ := taken
    split at taken
    · simp only [bind_eq_some_iff, some.injEq] at taken
      obtain ⟨_, -, rfl⟩ := taken
      exact ⟨rfl, rfl, .insert present rfl (.inl rfl)⟩
    · cases taken
  | set k =>
    obtain ⟨sender, running, _, -, _, present, -, rfl⟩ := taken
    exact ⟨rfl, rfl, .insert present rfl (.inr ⟨k, sender, running, rfl⟩)⟩
  | fail k =>
    obtain ⟨-, -, -, -, -, rfl⟩ := taken
    refine ⟨rfl, rfl, ?_⟩
    intro other slave' found
    exact Moved.refl master other slave' (lookup_of_erase found)
  | skip k =>
    obtain ⟨-, -, -, -, -, rfl⟩ := taken
    exact ⟨rfl, rfl, .refl master⟩
  | done k =>
    obtain ⟨-, -, -, rfl⟩ := taken
    exact ⟨rfl, rfl, .refl master⟩
  | deliver id count =>
    obtain ⟨_, present, rfl⟩ := taken
    exact ⟨rfl, rfl, .insert present rfl (.inl rfl)⟩
  | process id count =>
    obtain ⟨_, present, -, rfl⟩ := taken
    exact ⟨rfl, rfl, .insert present rfl (.inl rfl)⟩

/-! ## Runs -/

structure Booked (keeper : Keeper) : Prop where
  inv : keeper.master.Inv
  begin : keeper.master.backlog.beginOffset = 0
  stream : keeper.master.backlog.buf = keeper.stream

/-- The bytes are those of the stream up to the offset. -/
def UpTo (stream : List UInt8) (offset : Int) (has : List UInt8) : Prop :=
  0 ≤ offset ∧ offset ≤ stream.length ∧ has = stream.take offset.toNat

structure Served (keeper : Keeper) : Prop where
  slaves : ∀ id slave, keeper.master.slaves.lookup id = some slave →
    (0 ≤ slave.offset ∧ slave.offset ≤ keeper.stream.length) ∧
      UpTo keeper.stream slave.onlineAt (keeper.has id)
  syncs : ∀ sync found, keeper.syncs.lookup sync = some found →
    found.slave ∉ keeper.master.known ∧
      found.currentOffset.elim (found.has = []) fun offset => UpTo keeper.stream offset found.has
  single : ∀ sync other found found', keeper.syncs.lookup sync = some found →
    keeper.syncs.lookup other = some found' → found.slave = found'.slave → sync = other
  cut : ∀ cut, keeper.rdb = some cut → cut = 0

def InPhase (keeper : Keeper) (job : Nat) : Job → Prop
  | .saving _ => job ∉ keeper.registered ∧ keeper.stream = [] ∧ keeper.bgSaveState = .running
  | .generating _ cut => cut = 0
  | .rewriting _ _ => False
  | .over _ => True

/-- There is one execution of `saveForReplication` at most, and none of `rewriteRDB`. -/
structure Fed (keeper : Keeper) : Prop where
  single : ∀ job found, keeper.jobs.lookup job = some found →
    found.target = keeper.backlog ∧ keeper.aofListener = some job ∧ keeper.InPhase job found
  idle : keeper.bgSaveState = .idle → keeper.stream = [] ∧ keeper.jobs = ∅
  registered : keeper.registered ⊆ keeper.jobs.keys
  pending : keeper.pending ⊆ keeper.registered
  orders : keeper.orders = 0

structure Sound (keeper : Keeper) : Prop where
  booked : keeper.Booked
  served : keeper.Served
  fed : keeper.Fed

variable {keeper keeper' : Keeper}

theorem Booked.current (booked : keeper.Booked) :
    keeper.master.backlog.currentOffset = keeper.stream.length := by
  have length_eq := booked.inv.length_eq
  rw [booked.begin, booked.stream, Int.zero_add] at length_eq
  exact length_eq

theorem Booked.append (booked : keeper.Booked) (bin : List UInt8) :
    Booked { keeper.appendTo keeper.backlog bin with stream := keeper.stream ++ bin } := by
  rw [appendTo, if_pos rfl]
  refine ⟨Master.append_inv booked.inv bin, booked.begin, ?_⟩
  simp only [Backlog.appendBytes, booked.stream]

theorem UpTo.append {stream has : List UInt8} {offset : Int} (upTo : UpTo stream offset has)
    (bin : List UInt8) : UpTo (stream ++ bin) offset has := by
  obtain ⟨low, high, same⟩ := upTo
  refine ⟨low, ?_, same.trans (List.take_append_of_le_length (by omega)).symm⟩
  rw [length_append]
  omega

theorem Served.append (served : keeper.Served) (bin : List UInt8) :
    Served { keeper.appendTo keeper.backlog bin with stream := keeper.stream ++ bin } := by
  rw [appendTo, if_pos rfl]
  refine ⟨?_, ?_, served.single, served.cut⟩
  · intro id slave found
    obtain ⟨⟨low, high⟩, upTo⟩ := served.slaves id slave found
    refine ⟨⟨low, high.trans ?_⟩, upTo.append bin⟩
    rw [length_append]
    omega
  · intro sync found lookup
    obtain ⟨offline, has⟩ := served.syncs sync found lookup
    obtain ⟨_, _, offset⟩ := found
    cases offset with
    | none => exact ⟨offline, has⟩
    | some offset => exact ⟨offline, has.append bin⟩

theorem Fed.append (fed : keeper.Fed) (bin : List UInt8) (busy : keeper.bgSaveState ≠ .idle)
    (none : ∀ job target, keeper.jobs.lookup job ≠ some (.saving target)) :
    Fed { keeper.appendTo keeper.backlog bin with stream := keeper.stream ++ bin } := by
  rw [appendTo, if_pos rfl]
  refine ⟨?_, fun idle => absurd idle busy, fed.registered, fed.pending, fed.orders⟩
  intro job found lookup
  obtain ⟨uses, listener, phase⟩ := fed.single job found lookup
  cases found with
  | saving target => exact absurd lookup (none job target)
  | _ => exact ⟨uses, listener, phase⟩

theorem Sound.append (sound : keeper.Sound) (bin : List UInt8) (busy : keeper.bgSaveState ≠ .idle)
    (none : ∀ job target, keeper.jobs.lookup job ≠ some (.saving target)) :
    Sound { keeper.appendTo keeper.backlog bin with stream := keeper.stream ++ bin } :=
  ⟨sound.booked.append bin, sound.served.append bin, sound.fed.append bin busy none⟩

theorem Sound.callback (sound : keeper.Sound) {job : Nat} {found : Job}
    (listens : keeper.jobs.lookup job = some found) (pending : job ∈ keeper.pending) :
    Sound { keeper.appendTo found.target keeper.bin with
      pending := keeper.pending.erase job
      stream := if found.target = keeper.backlog ∧ keeper.aofListener = some job then
        keeper.stream ++ keeper.bin else keeper.stream } := by
  obtain ⟨used, listener, -⟩ := sound.fed.single job found listens
  rw [if_pos ⟨used, listener⟩, used]
  have busy : keeper.bgSaveState ≠ .idle := by
    intro idle
    rw [(sound.fed.idle idle).2] at listens
    cases listens
  have none : ∀ other target, keeper.jobs.lookup other ≠ some (.saving target) := by
    intro other target saving
    obtain ⟨-, same, unregistered, -⟩ := sound.fed.single other _ saving
    rw [listener, some.injEq] at same
    exact unregistered (sound.fed.pending (same ▸ pending))
  obtain ⟨booked, served, fed⟩ := sound.append keeper.bin busy none
  rw [appendTo, if_pos rfl] at *
  exact ⟨{ booked with }, { served with },
    { fed with pending := (Finset.erase_subset _ _).trans sound.fed.pending }⟩

theorem keys_insert {registered : Finset Nat} {jobs : Finmap fun _ : Nat => Job} {job : Nat} {found : Job}
    (known : registered ⊆ jobs.keys) : insert job registered ⊆ (jobs.insert job found).keys := by
  intro other member
  rw [Finmap.mem_keys, Finmap.mem_insert]
  rcases Finset.mem_insert.mp member with rfl | member
  · exact .inl rfl
  · exact .inr (Finmap.mem_keys.mp (known member))

theorem Fed.save (fed : keeper.Fed) {job : Nat} (idle : keeper.bgSaveState = .idle)
    (fresh : job ∉ keeper.jobs) (requests : Nat) :
    Fed { keeper with
      requests := requests
      bgSaveState := .running
      rdb := none
      jobs := keeper.jobs.insert job (.saving keeper.backlog)
      aofListener := some job } := by
  obtain ⟨empty, noJobs⟩ := fed.idle idle
  have unregistered : job ∉ keeper.registered := fun registered =>
    fresh (Finmap.mem_keys.mp (fed.registered registered))
  have only : ∀ other found, (keeper.jobs.insert job (.saving keeper.backlog)).lookup other =
      some found → other = job ∧ found = .saving keeper.backlog := by
    intro other found lookup
    rcases Master.lookup_insert_cases lookup with same | ⟨-, lookup⟩
    · exact same
    · rw [noJobs] at lookup
      cases lookup
  refine ⟨?_, by simp, (Finset.subset_insert _ _).trans (keys_insert fed.registered), fed.pending,
    fed.orders⟩
  intro other found lookup
  obtain ⟨rfl, rfl⟩ := only other found lookup
  exact ⟨rfl, rfl, unregistered, empty, rfl⟩

/-- The job is the only one, also in its next phase. -/
theorem Fed.next (fed : keeper.Fed) {job : Nat} {found next : Job}
    (listens : keeper.jobs.lookup job = some found) {other : Nat} {found' : Job}
    (lookup : (keeper.jobs.insert job next).lookup other = some found') :
    other = job ∧ found' = next := by
  rcases Master.lookup_insert_cases lookup with same | ⟨differs, lookup⟩
  · exact same
  · have same := (fed.single other found' lookup).2.1
    rw [(fed.single job found listens).2.1, some.injEq] at same
    exact absurd same.symm differs

theorem Fed.register (fed : keeper.Fed) {job target : Nat}
    (saving : keeper.jobs.lookup job = some (.saving target)) :
    Fed { keeper with
      jobs := keeper.jobs.insert job (.generating target keeper.stream.length)
      registered := insert job keeper.registered } := by
  obtain ⟨uses, listener, -, empty, running⟩ := fed.single job _ saving
  refine ⟨?_, ?_, keys_insert fed.registered, fed.pending.trans (Finset.subset_insert _ _), fed.orders⟩
  · intro other found lookup
    obtain ⟨rfl, rfl⟩ := fed.next saving lookup
    exact ⟨uses, listener, by rw [InPhase, empty]; rfl⟩
  · intro idle
    rw [running] at idle
    cases idle

theorem Fed.finish (fed : keeper.Fed) {job target cut : Nat}
    (generating : keeper.jobs.lookup job = some (.generating target cut)) :
    Fed { keeper with
      bgSaveState := .finish
      rdb := some cut
      jobs := keeper.jobs.insert job (.over target) } := by
  obtain ⟨uses, listener, -⟩ := fed.single job _ generating
  refine ⟨?_, by simp, (Finset.subset_insert _ _).trans (keys_insert fed.registered), fed.pending,
    fed.orders⟩
  intro other found lookup
  obtain ⟨rfl, rfl⟩ := fed.next generating lookup
  exact ⟨uses, listener, trivial⟩

open Master in
theorem Served.sync (served : keeper.Served) {sync : Nat} {added : Sync}
    (offline : added.slave ∉ keeper.master.known)
    (has : added.currentOffset.elim (added.has = []) fun offset =>
      UpTo keeper.stream offset added.has)
    (single : ∀ other found, keeper.syncs.lookup other = some found → found.slave = added.slave →
      other = sync) :
    Served { keeper with syncs := keeper.syncs.insert sync added } := by
  refine ⟨served.slaves, ?_, ?_, served.cut⟩
  · intro other found lookup
    rcases lookup_insert_cases lookup with ⟨rfl, rfl⟩ | ⟨-, lookup⟩
    · exact ⟨offline, has⟩
    · exact served.syncs other found lookup
  · intro one other found found' lookup lookup' same
    rcases lookup_insert_cases lookup with ⟨rfl, rfl⟩ | ⟨-, before⟩
    · rcases lookup_insert_cases lookup' with ⟨rfl, -⟩ | ⟨-, before'⟩
      · rfl
      · exact (single other found' before' same.symm).symm
    · rcases lookup_insert_cases lookup' with ⟨rfl, rfl⟩ | ⟨-, before'⟩
      · exact single one found before same
      · exact served.single one other found found' before before' same

theorem Served.abort (served : keeper.Served) (sync : Nat) :
    Served { keeper with syncs := keeper.syncs.erase sync } :=
  ⟨served.slaves, fun other found lookup => served.syncs other found (lookup_of_erase lookup),
    fun one other found found' lookup lookup' =>
      served.single one other found found' (lookup_of_erase lookup) (lookup_of_erase lookup'),
    served.cut⟩

theorem IsNew.single {id : Nat} (isNew : keeper.IsNew id) {sync other : Nat} {found : Sync}
    (lookup : keeper.syncs.lookup other = some found) (same : found.slave = id) : other = sync :=
  absurd same (isNew.2 other (Finmap.mem_keys.mpr (Finmap.mem_of_lookup_eq_some lookup)) found lookup)

theorem Sound.syncs (sound : keeper.Sound) {syncs : Finmap fun _ : Nat => Sync}
    (served : Served { keeper with syncs := syncs }) : Sound { keeper with syncs := syncs } :=
  ⟨{ sound.booked with }, served, { sound.fed with }⟩

theorem Sound.master (sound : keeper.Sound) {master : Master} (inv : master.Inv)
    (backlog : master.backlog = keeper.master.backlog) {syncs : Finmap fun _ : Nat => Sync}
    {has : Nat → List UInt8}
    (served : Served { keeper with master := master, syncs := syncs, has := has }) :
    Sound { keeper with master := master, syncs := syncs, has := has } :=
  ⟨⟨inv, backlog ▸ sound.booked.begin, backlog ▸ sound.booked.stream⟩, served,
    { sound.fed with }⟩

theorem Sound.send (sound : keeper.Sound) {event : Event} {master : Master}
    (orderly : keeper.master.Orderly event) (sends : event.isSend)
    (taken : keeper.master.step event = some master) :
    Sound { keeper with master := master } := by
  obtain ⟨backlog, known, slaves⟩ := step_send sends taken
  refine sound.master (Master.step_inv sound.booked.inv orderly taken) backlog ?_
  refine ⟨?_, known ▸ sound.served.syncs, sound.served.single, sound.served.cut⟩
  intro id slave' found
  obtain ⟨slave, before, onlineAt, sent⟩ := slaves id slave' found
  obtain ⟨offsets, upTo⟩ := sound.served.slaves id slave before
  rw [onlineAt]
  refine ⟨?_, upTo⟩
  rcases sent with same | ⟨k, sender, running, isCurrent⟩
  · rw [same]
    exact offsets
  · obtain ⟨begin_eq, _, older, -⟩ := sound.booked.inv.sender_ok k sender running
    have short := older.length_le
    rw [sound.booked.stream] at short
    rw [sound.booked.begin] at begin_eq
    rw [isCurrent]
    dsimp only
    omega

open Master in
theorem Sound.online (sound : keeper.Sound) {sync id : Nat} {has : List UInt8} {currentOffset : Int}
    (early : List UInt8) (collected : keeper.syncs.lookup sync = some ⟨id, has, some currentOffset⟩) :
    Sound { keeper with
      master := keeper.master.setSlaveOnline id currentOffset early
      syncs := keeper.syncs.erase sync
      has := Function.update keeper.has id has } := by
  obtain ⟨offline, upTo⟩ := sound.served.syncs sync _ collected
  have bounds : 0 ≤ currentOffset ∧ currentOffset ≤ keeper.stream.length := ⟨upTo.1, upTo.2.1⟩
  have fresh : keeper.master.slaves.lookup id = none :=
    Finmap.lookup_eq_none.mpr fun online => offline (sound.booked.inv.known_slave id online)
  have taken : keeper.master.step (.online id currentOffset early) =
      some (keeper.master.setSlaveOnline id currentOffset early) := by
    rw [Master.step, setSlaveOnline, fresh, sound.booked.begin, sound.booked.current,
      if_pos ⟨offline, bounds⟩]
    rfl
  have orderly : keeper.master.Orderly (.online id currentOffset early) := trivial
  have inv := step_inv sound.booked.inv orderly taken
  obtain ⟨-, others, single, cut⟩ := sound.served.abort sync
  refine sound.master inv rfl ⟨?_, ?_, single, cut⟩
  · intro other slave found
    rcases lookup_insert_cases found with ⟨rfl, rfl⟩ | ⟨differs, found⟩
    · rw [fresh]
      dsimp only
      rw [Function.update_self]
      exact ⟨bounds, upTo⟩
    · dsimp only
      rw [Function.update_of_ne differs]
      exact sound.served.slaves other slave found
  · intro other found lookup
    refine ⟨fun known => ?_, (others other found lookup).2⟩
    have before := lookup_of_erase lookup
    rcases Finset.mem_insert.mp known with same | known
    · have erased := sound.served.single other sync found _ before collected same
      rw [erased, Finmap.lookup_erase] at lookup
      cases lookup
    · exact (sound.served.syncs other found before).1 known

theorem Sound.step (sound : keeper.Sound) {act : Act} (careful : keeper.Careful act)
    (taken : keeper.step act = some keeper') : Sound keeper' := by
  have same := sound
  obtain ⟨booked, served, fed⟩ := sound
  cases act with simp only [Keeper.step, bind_eq_bind, bind_eq_some_iff,
    Option.ite_none_right_eq_some, some.injEq] at taken
  | psync =>
    obtain ⟨-, rfl⟩ := taken
    exact ⟨{ booked with }, { served with }, { fed with }⟩
  | save job =>
    obtain ⟨⟨-, fresh⟩, rfl⟩ := taken
    exact ⟨{ booked with }, { served with cut := by simp }, fed.save careful fresh _⟩
  | register job =>
    split at taken
    · next saving =>
        simp only [Option.ite_none_right_eq_some, some.injEq] at taken
        obtain ⟨-, rfl⟩ := taken
        exact ⟨{ booked with }, { served with }, fed.register saving⟩
    · cases taken
  | finish job =>
    split at taken
    · next target cut generating =>
        obtain rfl := some.inj taken
        have start : cut = 0 := (fed.single job _ generating).2.2
        exact ⟨{ booked with }, { served with cut := by simp [start] }, fed.finish generating⟩
    · cases taken
  | write bin =>
    obtain ⟨-, rfl⟩ := taken
    exact ⟨{ booked with }, { served with }, { fed with pending := Finset.Subset.refl _ }⟩
  | callback job =>
    obtain ⟨_, listens, pending, rfl⟩ := taken
    exact same.callback listens pending
  | ping =>
    obtain ⟨finished, rfl⟩ := taken
    refine same.append pingBytes (by simp [finished]) ?_
    intro job target saving
    obtain ⟨-, -, -, -, running⟩ := fed.single job _ saving
    rw [finished] at running
    cases running
  | order => cases careful
  | hook job =>
    rw [fed.orders] at taken
    exact absurd taken.1.1 (Nat.lt_irrefl 0)
  | swap job =>
    split at taken
    · next rewriting => exact (fed.single job _ rewriting).2.2.elim
    · cases taken
  | fullResync sync id =>
    obtain ⟨cut, file, -, rfl⟩ := taken
    refine same.syncs (served.sync careful.1 ?_ fun _ _ => careful.single)
    rw [served.cut cut file]
    rfl
  | collect sync =>
    split at taken
    · next id has started =>
        obtain rfl := some.inj taken
        obtain ⟨offline, empty⟩ := served.syncs sync _ started
        refine same.syncs (served.sync offline ?_ fun other found lookup isId =>
          served.single other sync found _ lookup started isId)
        have empty : has = [] := empty
        simp [UpTo, booked.current, booked.stream, empty]
    · cases taken
  | resume sync id slaveOffset =>
    obtain ⟨-, rfl⟩ := taken
    refine same.syncs (served.sync careful.1 ?_ fun _ _ => careful.single)
    simp [UpTo, booked.current, booked.begin, booked.stream]
  | online sync early =>
    split at taken
    · next id has currentOffset collected =>
        obtain rfl := some.inj taken
        exact same.online early collected
    · cases taken
  | abort sync =>
    obtain rfl := taken
    exact same.syncs (served.abort sync)
  | send event =>
    obtain ⟨sends, _, sent, rfl⟩ := taken
    exact same.send careful sends sent

/-- What has been written since the slave went online and the rest of the backlog make
up the backlog from there on. -/
theorem Booked.sent (booked : keeper.Booked) {id : Nat} {slave : Slave}
    (online : keeper.master.slaves.lookup id = some slave) (low : 0 ≤ slave.onlineAt) :
    (slave.received ++ slave.wire).drop slave.early.length ++
        keeper.stream.drop slave.position.toNat = keeper.stream.drop slave.onlineAt.toNat := by
  obtain ⟨_, -, -, sent⟩ := booked.inv.slave_ok id slave online
  rw [booked.begin, booked.stream, Int.sub_zero] at sent
  have position_eq : slave.position.toNat = slave.onlineAt.toNat +
      ((slave.received ++ slave.wire).drop slave.early.length).length := by
    rw [length_drop, length_append, Slave.position]
    omega
  rw [position_eq, ← List.drop_drop]
  exact (List.prefix_append_drop sent).symm

theorem Sound.within (sound : keeper.Sound) : keeper.Within := by
  intro id slave online
  rw [sound.booked.begin, sound.booked.current]
  exact (sound.served.slaves id slave online).1

end Keeper

end Godis.Replication
