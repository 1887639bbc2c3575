import Godis.Replication.Master

/-!
# The stream of a slave

As long as the executions of `masterSendUpdatesToSlave` do not overlap and an
acknowledgement does not move `slave.offset`, that offset is the position behind
the last byte written to the slave, except while an execution is between reading
it and setting it.
-/

namespace Godis.Replication

def Slave.position (slave : Slave) : Int :=
  slave.onlineAt + (slave.received.length + slave.wire.length) - slave.early.length

def Sender.Serves (sender : Sender) (id : Nat) : Prop :=
  sender.onlineSlaves.head? = some id ∧ sender.stage ≠ .idle

instance (sender : Sender) (id : Nat) : Decidable (sender.Serves id) :=
  inferInstanceAs (Decidable (_ ∧ _))

namespace Master

/-- The condition under which no byte is skipped or sent twice. -/
def Orderly (master : Master) : Event → Prop
  | .snapshot _ _ => master.senders = ∅
  | .deliverAck id => ∀ slave ∈ master.slaves.lookup id,
      slave.acks.head? = some slave.offset ∨
        ∃ k ∈ master.senders.keys, ∃ sender ∈ master.senders.lookup k, sender.Serves id
  | _ => True

instance (master : Master) (event : Event) : Decidable (master.Orderly event) := by
  cases event <;> unfold Orderly <;> infer_instance

/-- What has been written to the slave since it went online is a part of the backlog. -/
structure SlaveOk (backlog : Backlog) (slave : Slave) : Prop where
  early_le : slave.early.length ≤ slave.received.length + slave.wire.length
  online_ge : backlog.beginOffset ≤ slave.onlineAt
  online_le : slave.onlineAt ≤ backlog.currentOffset
  sent : (slave.received ++ slave.wire).drop slave.early.length <+:
    backlog.buf.drop (slave.onlineAt - backlog.beginOffset).toNat

structure SenderOk (backlog : Backlog) (sender : Sender) : Prop where
  begin_eq : sender.beginOffset = backlog.beginOffset
  current_eq : sender.currentOffset = sender.beginOffset + sender.backlog.length
  older : sender.backlog <+: backlog.buf
  nodup : sender.onlineSlaves.Nodup

def StageOk (sender : Sender) (slave : Slave) : Prop :=
  match sender.stage with
  | .idle => True
  | .read slaveOffset => slaveOffset = slave.position
  | .written => sender.currentOffset = slave.position

structure Inv (master : Master) : Prop where
  length_eq : master.backlog.currentOffset =
    master.backlog.beginOffset + master.backlog.buf.length
  alone : ∀ k k', k ∈ master.senders → k' ∈ master.senders → k = k'
  sender_ok : ∀ k sender, master.senders.lookup k = some sender → SenderOk master.backlog sender
  known_slave : ∀ id, id ∈ master.slaves → id ∈ master.known
  known_online : ∀ k sender, master.senders.lookup k = some sender →
    ∀ id ∈ sender.onlineSlaves, id ∈ master.known
  slave_ok : ∀ id slave, master.slaves.lookup id = some slave → SlaveOk master.backlog slave
  stage_ok : ∀ id slave, master.slaves.lookup id = some slave →
    ∀ k sender, master.senders.lookup k = some sender → sender.onlineSlaves.head? = some id →
      StageOk sender slave
  in_reach : ∀ id slave, master.slaves.lookup id = some slave →
    ∀ k sender, master.senders.lookup k = some sender → id ∈ sender.onlineSlaves →
      slave.position ≤ sender.currentOffset
  offset_eq : ∀ id slave, master.slaves.lookup id = some slave →
    (∀ k sender, master.senders.lookup k = some sender → ¬ sender.Serves id) →
      slave.offset = slave.position

theorem SlaveOk.position_le {backlog : Backlog} {slave : Slave} (okay : SlaveOk backlog slave)
    (length_eq : backlog.currentOffset = backlog.beginOffset + backlog.buf.length) :
    slave.position ≤ backlog.currentOffset := by
  have short := okay.sent.length_le
  have := okay.online_le
  rw [List.length_drop, List.length_drop, List.length_append] at short
  rw [Slave.position]
  omega

theorem prefix_append_drop {sent snapshot buf : List UInt8} {start : Nat}
    (older : snapshot <+: buf) (before : sent <+: buf.drop start)
    (within : start + sent.length ≤ snapshot.length) :
    sent ++ snapshot.drop (start + sent.length) <+: buf.drop start := by
  have older' : snapshot.drop start <+: buf.drop start := older.drop start
  have here : sent <+: snapshot.drop start := by
    refine List.prefix_of_prefix_length_le before older' ?_
    rw [List.length_drop]
    omega
  rw [← List.drop_drop, ← List.prefix_append_drop here]
  exact older'

theorem lookup_insert_cases {β : Type} {entries : Finmap fun _ : Nat => β} {key other : Nat}
    {value found : β} (lookup : (entries.insert key value).lookup other = some found) :
    other = key ∧ found = value ∨ other ≠ key ∧ entries.lookup other = some found := by
  by_cases same : other = key
  · subst same
    rw [Finmap.lookup_insert] at lookup
    exact .inl ⟨rfl, (Option.some.inj lookup).symm⟩
  · rw [Finmap.lookup_insert_of_ne _ same] at lookup
    exact .inr ⟨same, lookup⟩

theorem position_write (slave : Slave) (bytes : List UInt8) :
    ({ slave with wire := slave.wire ++ bytes } : Slave).position =
      slave.position + bytes.length := by
  simp only [Slave.position, List.length_append]
  push_cast
  ring

structure Fits (sender : Sender) (id : Nat) (slave : Slave) : Prop where
  stage_ok : sender.onlineSlaves.head? = some id → StageOk sender slave
  in_reach : id ∈ sender.onlineSlaves → slave.position ≤ sender.currentOffset
  offset_eq : ¬ sender.Serves id → slave.offset = slave.position

theorem Inv.of_only {master : Master} {k : Nat} {sender : Sender}
    (length_eq : master.backlog.currentOffset =
      master.backlog.beginOffset + master.backlog.buf.length)
    (only : ∀ k' ∈ master.senders, k' = k) (running : master.senders.lookup k = some sender)
    (okay : SenderOk master.backlog sender) (online : ∀ id ∈ sender.onlineSlaves, id ∈ master.known)
    (slaves : ∀ id slave, master.slaves.lookup id = some slave →
      id ∈ master.known ∧ SlaveOk master.backlog slave ∧ Fits sender id slave) : Inv master := by
  have unique : ∀ k' sender', master.senders.lookup k' = some sender' → sender' = sender := by
    intro k' sender' lookup
    obtain rfl := only k' (Finmap.mem_of_lookup_eq_some lookup)
    exact Option.some.inj (lookup.symm.trans running)
  refine ⟨length_eq, fun first second mem mem' => (only first mem).trans (only second mem').symm,
    ?_, ?_, ?_, fun id slave lookup => (slaves id slave lookup).2.1, ?_, ?_, ?_⟩
  · intro k' sender' lookup
    exact unique k' sender' lookup ▸ okay
  · intro id mem
    obtain ⟨slave, lookup⟩ := Finmap.mem_iff.mp mem
    exact (slaves id slave lookup).1
  · intro k' sender' lookup
    exact unique k' sender' lookup ▸ online
  · intro id slave lookup k' sender' lookup'
    exact unique k' sender' lookup' ▸ (slaves id slave lookup).2.2.stage_ok
  · intro id slave lookup k' sender' lookup'
    exact unique k' sender' lookup' ▸ (slaves id slave lookup).2.2.in_reach
  · intro id slave lookup free
    exact (slaves id slave lookup).2.2.offset_eq (free k sender running)

section Updates

variable {master : Master} (inv : master.Inv)
include inv

variable {k id : Nat} {sender : Sender} {slave slave' : Slave}
  {slaves' : Finmap fun _ : Nat => Slave}

variable (running : master.senders.lookup k = some sender)

include running in
theorem Inv.sender_eq {k' : Nat} {sender' : Sender}
    (other : master.senders.lookup k' = some sender') : k' = k ∧ sender' = sender := by
  have same := inv.alone k' k (Finmap.mem_of_lookup_eq_some other)
    (Finmap.mem_of_lookup_eq_some running)
  subst same
  exact ⟨rfl, Option.some.inj (other.symm.trans running)⟩

theorem Inv.insert_slave {known' : Finset Nat} (grows : master.known ⊆ known') (known : id ∈ known')
    (okay : SlaveOk master.backlog slave')
    (stage_ok : ∀ k sender, master.senders.lookup k = some sender →
      sender.onlineSlaves.head? = some id → StageOk sender slave')
    (in_reach : ∀ k sender, master.senders.lookup k = some sender → id ∈ sender.onlineSlaves →
      slave'.position ≤ sender.currentOffset)
    (offset_eq : (∀ k sender, master.senders.lookup k = some sender → ¬ sender.Serves id) →
      slave'.offset = slave'.position) :
    Inv { master with known := known', slaves := master.slaves.insert id slave' } := by
  refine ⟨inv.length_eq, inv.alone, inv.sender_ok, ?_, ?_, ?_, ?_, ?_, ?_⟩
  · intro other mem
    rcases Finmap.mem_insert.mp mem with rfl | mem
    · exact known
    · exact grows (inv.known_slave _ mem)
  · intro k sender running other mem
    exact grows (inv.known_online k sender running other mem)
  · intro other found lookup
    rcases lookup_insert_cases lookup with ⟨rfl, rfl⟩ | ⟨-, lookup⟩
    · exact okay
    · exact inv.slave_ok other found lookup
  · intro other found lookup
    rcases lookup_insert_cases lookup with ⟨rfl, rfl⟩ | ⟨-, lookup⟩
    · exact stage_ok
    · exact inv.stage_ok other found lookup
  · intro other found lookup
    rcases lookup_insert_cases lookup with ⟨rfl, rfl⟩ | ⟨-, lookup⟩
    · exact in_reach
    · exact inv.in_reach other found lookup
  · intro other found lookup
    rcases lookup_insert_cases lookup with ⟨rfl, rfl⟩ | ⟨-, lookup⟩
    · exact offset_eq
    · exact inv.offset_eq other found lookup

theorem Inv.update_slave (present : master.slaves.lookup id = some slave)
    (okay : SlaveOk master.backlog slave') (position_eq : slave'.position = slave.position)
    (offset_eq : (∀ k sender, master.senders.lookup k = some sender → ¬ sender.Serves id) →
      slave'.offset = slave'.position) :
    Inv { master with slaves := master.slaves.insert id slave' } := by
  refine inv.insert_slave (Finset.Subset.refl _)
    (inv.known_slave _ (Finmap.mem_of_lookup_eq_some present)) okay ?_ ?_ offset_eq
  · intro k sender running head
    have stage := inv.stage_ok _ slave present k sender running head
    rw [StageOk, ← position_eq] at stage
    exact stage
  · intro k sender running mem
    rw [position_eq]
    exact inv.in_reach _ slave present k sender running mem

include running

theorem Inv.turn {turned : Sender} (head : sender.onlineSlaves.head? = some id)
    (begin_eq : turned.beginOffset = sender.beginOffset)
    (current_eq : turned.currentOffset = sender.currentOffset)
    (backlog_eq : turned.backlog = sender.backlog)
    (fewer : turned.onlineSlaves.Sublist sender.onlineSlaves)
    (idle : ∀ other ≠ id, turned.onlineSlaves.head? = some other → turned.stage = .idle)
    (others : ∀ other, other ≠ id → slaves'.lookup other = master.slaves.lookup other)
    (own : ∀ slave, slaves'.lookup id = some slave →
      id ∈ master.slaves ∧ SlaveOk master.backlog slave ∧ Fits turned id slave) :
    Inv { master with slaves := slaves', senders := master.senders.insert k turned } := by
  obtain ⟨begin_ok, current_ok, older, nodup⟩ := inv.sender_ok k sender running
  refine .of_only (k := k) inv.length_eq ?_ (Finmap.lookup_insert _)
    ⟨begin_eq.trans begin_ok, ?_, backlog_eq ▸ older, nodup.sublist fewer⟩ ?_ ?_
  · intro k' mem
    rcases Finmap.mem_insert.mp mem with same | mem
    · exact same
    · exact inv.alone k' k mem (Finmap.mem_of_lookup_eq_some running)
  · rw [current_eq, begin_eq, backlog_eq]
    exact current_ok
  · intro other mem
    exact inv.known_online k sender running other (fewer.subset mem)
  · intro other slave lookup
    by_cases same : other = id
    · subst same
      obtain ⟨mem, okay, fits⟩ := own slave lookup
      exact ⟨inv.known_slave _ mem, okay, fits⟩
    · rw [others other same] at lookup
      refine ⟨inv.known_slave _ (Finmap.mem_of_lookup_eq_some lookup), inv.slave_ok other slave lookup,
        ?_, ?_, ?_⟩
      · intro isHead
        rw [StageOk, idle other same isHead]
        trivial
      · intro mem
        rw [current_eq]
        exact inv.in_reach other slave lookup k sender running (fewer.subset mem)
      · intro _
        refine inv.offset_eq other slave lookup ?_
        rintro _ _ running' ⟨head', -⟩
        obtain ⟨rfl, rfl⟩ := inv.sender_eq running running'
        rw [head] at head'
        exact same (Option.some.inj head').symm

theorem Inv.serve {stage : Stage} (head : sender.onlineSlaves.head? = some id)
    (present : id ∈ master.slaves)
    (others : ∀ other, other ≠ id → slaves'.lookup other = master.slaves.lookup other)
    (own : slaves'.lookup id = some slave') (okay : SlaveOk master.backlog slave')
    (started : stage ≠ .idle) (stage_ok : StageOk { sender with stage := stage } slave')
    (reach : slave'.position ≤ sender.currentOffset) :
    Inv { master with
      slaves := slaves'
      senders := master.senders.insert k { sender with stage := stage } } := by
  refine inv.turn running head rfl rfl rfl (List.Sublist.refl _) ?_ others ?_
  · intro other differs head'
    rw [head] at head'
    exact absurd (Option.some.inj head').symm differs
  · intro found lookup
    obtain rfl := Option.some.inj (own.symm.trans lookup)
    exact ⟨present, okay, fun _ => stage_ok, fun _ => reach, fun free => absurd ⟨head, started⟩ free⟩

theorem Inv.advance (head : sender.onlineSlaves.head? = some id)
    (others : ∀ other, other ≠ id → slaves'.lookup other = master.slaves.lookup other)
    (own : ∀ slave, slaves'.lookup id = some slave →
      id ∈ master.slaves ∧ SlaveOk master.backlog slave ∧ slave.offset = slave.position) :
    Inv { master with
      slaves := slaves'
      senders := master.senders.insert k
        { sender with onlineSlaves := sender.onlineSlaves.tail, stage := .idle } } := by
  have not_later : id ∉ sender.onlineSlaves.tail := by
    have nodup := (inv.sender_ok k sender running).nodup
    rw [List.eq_cons_of_mem_head? head] at nodup
    exact (List.nodup_cons.mp nodup).1
  refine inv.turn running head rfl rfl rfl (List.tail_sublist _) (fun _ _ _ => rfl) others ?_
  intro slave lookup
  obtain ⟨mem, okay, offset_eq⟩ := own slave lookup
  exact ⟨mem, okay, fun _ => trivial, fun later => absurd later not_later, fun _ => offset_eq⟩

theorem Inv.free_of_idle (idle : sender.stage = .idle) (id : Nat) :
    ∀ k' sender', master.senders.lookup k' = some sender' → ¬ sender'.Serves id := by
  rintro _ _ running' ⟨-, busy⟩
  obtain ⟨rfl, rfl⟩ := inv.sender_eq running running'
  exact busy idle

theorem Inv.write_tail {bytes : List UInt8} (present : master.slaves.lookup id = some slave)
    (tail_eq : tail sender slave.position = some bytes) :
    SlaveOk master.backlog { slave with wire := slave.wire ++ bytes } ∧
      ({ slave with wire := slave.wire ++ bytes } : Slave).position = sender.currentOffset := by
  obtain ⟨_, _, older, -⟩ := inv.sender_ok k sender running
  obtain ⟨_, online_ge, online_le, sent⟩ := inv.slave_ok id slave present
  simp only [tail] at tail_eq
  split at tail_eq
  · obtain rfl := Option.some.inj tail_eq
    have sent_length : ((slave.received ++ slave.wire).drop slave.early.length).length =
        slave.received.length + slave.wire.length - slave.early.length := by
      rw [List.length_drop, List.length_append]
    have start_eq : (slave.position - sender.beginOffset).toNat =
        (slave.onlineAt - master.backlog.beginOffset).toNat +
          ((slave.received ++ slave.wire).drop slave.early.length).length := by
      rw [Slave.position]
      omega
    have extended := prefix_append_drop older sent (by omega)
    rw [← start_eq] at extended
    refine ⟨⟨?_, online_ge, online_le, ?_⟩, ?_⟩
    · simp only [List.length_append]
      omega
    · rw [← List.append_assoc, List.drop_append_of_le_length (by rw [List.length_append]; omega)]
      exact extended
    · rw [position_write, List.length_drop]
      omega
  · cases tail_eq

end Updates

variable {master : Master}

theorem append_inv (inv : master.Inv) (bin : List UInt8) :
    Inv { master with backlog := master.backlog.appendBytes bin } := by
  have longer : master.backlog.buf <+: master.backlog.buf ++ bin := List.prefix_append _ _
  refine ⟨?_, inv.alone, ?_, inv.known_slave, inv.known_online, ?_, inv.stage_ok, inv.in_reach,
    inv.offset_eq⟩
  · simp only [Backlog.appendBytes, List.length_append, inv.length_eq]
    push_cast
    ring
  · intro k sender running
    obtain ⟨begin_eq, current_eq, older, nodup⟩ := inv.sender_ok k sender running
    exact ⟨begin_eq, current_eq, older.trans longer, nodup⟩
  · intro id slave present
    obtain ⟨early_le, online_ge, _, sent⟩ := inv.slave_ok id slave present
    refine ⟨early_le, online_ge, ?_, sent.trans (longer.drop _)⟩
    simp only [Backlog.appendBytes]
    omega

theorem online_inv (inv : master.Inv) {id : Nat} {currentOffset : Int} (early : List UInt8)
    (fresh : id ∉ master.known) (lower : master.backlog.beginOffset ≤ currentOffset)
    (upper : currentOffset ≤ master.backlog.currentOffset) :
    Inv { master with
      known := insert id master.known
      slaves := master.slaves.insert id ⟨currentOffset, currentOffset, early, [], early, 0, []⟩ } := by
  refine inv.insert_slave (Finset.subset_insert _ _) (Finset.mem_insert_self _ _)
    ⟨by simp, lower, upper, by simp⟩ ?_ ?_ (fun _ => by simp [Slave.position])
  · intro k sender running head
    exact absurd (inv.known_online k sender running _ (List.mem_of_mem_head? head)) fresh
  · intro k sender running mem
    exact absurd (inv.known_online k sender running _ mem) fresh

theorem snapshot_inv (inv : master.Inv) (k : Nat) {onlineSlaves : List Nat}
    (none : master.senders = ∅) (nodup : onlineSlaves.Nodup)
    (all : onlineSlaves.toFinset = master.slaves.keys) :
    Inv { master with
      senders := master.senders.insert k
        ⟨master.backlog.beginOffset, master.backlog.buf, master.backlog.currentOffset,
          onlineSlaves, .idle⟩ } := by
  refine .of_only (k := k) inv.length_eq ?_ (Finmap.lookup_insert _)
    ⟨rfl, inv.length_eq, List.prefix_refl _, nodup⟩ ?_ ?_
  · simp [none, Finmap.notMem_empty]
  · intro id mem
    apply inv.known_slave
    rw [← Finmap.mem_keys, ← all]
    exact List.mem_toFinset.mpr mem
  · intro id slave present
    have okay := inv.slave_ok id slave present
    refine ⟨inv.known_slave id (Finmap.mem_of_lookup_eq_some present), okay, fun _ => trivial,
      fun _ => okay.position_le inv.length_eq, fun _ => inv.offset_eq id slave present ?_⟩
    intro k' sender' running
    simp [none] at running

theorem done_inv (inv : master.Inv) {k : Nat} {sender : Sender}
    (running : master.senders.lookup k = some sender) (finished : sender.onlineSlaves = []) :
    Inv { master with senders := master.senders.erase k } := by
  have gone : ∀ k' sender', (master.senders.erase k).lookup k' ≠ some sender' := by
    intro k' sender' lookup
    by_cases same : k' = k
    · rw [same, Finmap.lookup_erase] at lookup
      cases lookup
    · rw [Finmap.lookup_erase_ne same] at lookup
      exact same (inv.sender_eq running lookup).1
  refine ⟨inv.length_eq, ?_, fun k' sender' lookup => absurd lookup (gone k' sender'),
    inv.known_slave, fun k' sender' lookup => absurd lookup (gone k' sender'), inv.slave_ok,
    fun _ _ _ k' sender' lookup => absurd lookup (gone k' sender'),
    fun _ _ _ k' sender' lookup => absurd lookup (gone k' sender'), ?_⟩
  · intro first second mem
    obtain ⟨sender', lookup⟩ := Finmap.mem_iff.mp mem
    exact absurd lookup (gone first sender')
  · intro id slave present _
    refine inv.offset_eq id slave present ?_
    rintro _ _ running' ⟨head, -⟩
    obtain ⟨rfl, rfl⟩ := inv.sender_eq running running'
    simp [finished] at head

theorem step_inv {master' : Master} {event : Event} (inv : master.Inv)
    (orderly : master.Orderly event) (taken : master.step event = some master') :
    master'.Inv := by
  cases event with simp only [step, Option.bind_eq_bind, Option.bind_eq_some_iff,
    Option.ite_none_right_eq_some, Option.some.injEq] at taken
  | append bin =>
    obtain rfl := taken
    exact append_inv inv bin
  | online id currentOffset early =>
    obtain ⟨⟨fresh, lower, upper⟩, rfl⟩ := taken
    exact online_inv inv early fresh lower upper
  | snapshot k onlineSlaves =>
    obtain ⟨⟨-, nodup, all⟩, rfl⟩ := taken
    exact snapshot_inv inv k orderly nodup all
  | read k =>
    obtain ⟨sender, running, id, head, slave, present, idle, rfl⟩ := taken
    have offset_eq := inv.offset_eq id slave present (inv.free_of_idle running idle id)
    exact inv.serve running head (Finmap.mem_of_lookup_eq_some present) (fun _ _ => rfl) present
      (inv.slave_ok id slave present) (by simp) offset_eq
      (inv.in_reach id slave present k sender running (List.mem_of_mem_head? head))
  | write k =>
    obtain ⟨sender, running, id, head, slave, present, taken⟩ := taken
    have stage_ok := inv.stage_ok id slave present k sender running head
    cases stage : sender.stage with
    | idle | written => simp [stage] at taken
    | read slaveOffset =>
      simp only [StageOk, stage] at stage_ok
      simp only [stage, Option.bind_eq_some_iff, stage_ok, Option.some.injEq] at taken
      obtain ⟨_, tail_eq, rfl⟩ := taken
      obtain ⟨okay, position_eq⟩ := inv.write_tail running present tail_eq
      exact inv.serve running head (Finmap.mem_of_lookup_eq_some present)
        (fun other differs => Finmap.lookup_insert_of_ne _ differs) (Finmap.lookup_insert _)
        okay (by simp) position_eq.symm (le_of_eq position_eq)
  | set k =>
    obtain ⟨sender, running, id, head, slave, present, written, rfl⟩ := taken
    have stage_ok := inv.stage_ok id slave present k sender running head
    simp only [StageOk, written] at stage_ok
    refine inv.advance running head (fun other differs => Finmap.lookup_insert_of_ne _ differs) ?_
    intro slave' lookup
    rw [Finmap.lookup_insert] at lookup
    obtain rfl := Option.some.inj lookup
    exact ⟨Finmap.mem_of_lookup_eq_some present, { inv.slave_ok id slave present with }, stage_ok⟩
  | fail k =>
    obtain ⟨_, running, _, head, -, rfl⟩ := taken
    refine inv.advance running head (fun other differs => Finmap.lookup_erase_ne differs) ?_
    intro slave' lookup
    rw [Finmap.lookup_erase] at lookup
    cases lookup
  | skip k =>
    obtain ⟨_, running, _, head, gone, rfl⟩ := taken
    refine inv.advance running head (fun _ _ => rfl) ?_
    intro slave' lookup
    exact absurd (Finmap.mem_of_lookup_eq_some lookup) gone
  | done k =>
    obtain ⟨_, running, finished, rfl⟩ := taken
    exact done_inv inv running finished
  | deliver id count =>
    obtain ⟨slave, present, rfl⟩ := taken
    obtain ⟨early_le, online_ge, online_le, sent⟩ := inv.slave_ok id slave present
    have bytes_eq : slave.received ++ slave.wire.take count ++ slave.wire.drop count =
        slave.received ++ slave.wire := by
      rw [List.append_assoc, List.take_append_drop]
    have count_eq : (slave.received ++ slave.wire.take count).length +
        (slave.wire.drop count).length = slave.received.length + slave.wire.length := by
      rw [← List.length_append, bytes_eq, List.length_append]
    have position_eq : ({ slave with
        received := slave.received ++ slave.wire.take count
        wire := slave.wire.drop count } : Slave).position = slave.position := by
      simp only [Slave.position]
      omega
    refine inv.update_slave present
      ⟨early_le.trans_eq count_eq.symm, online_ge, online_le, ?_⟩ position_eq ?_
    · rw [bytes_eq]
      exact sent
    · intro free
      rw [position_eq]
      exact inv.offset_eq id slave present free
  | process id count =>
    obtain ⟨slave, present, -, rfl⟩ := taken
    exact inv.update_slave present { inv.slave_ok id slave present with } rfl
      (inv.offset_eq id slave present)
  | sendAck id =>
    obtain ⟨slave, present, rfl⟩ := taken
    exact inv.update_slave present { inv.slave_ok id slave present with } rfl
      (inv.offset_eq id slave present)
  | deliverAck id =>
    obtain ⟨slave, present, _, ack, rfl⟩ := taken
    refine inv.update_slave present { inv.slave_ok id slave present with } rfl ?_
    intro free
    rcases orderly slave present with same | ⟨k, -, sender, running, serves⟩
    · rw [ack] at same
      rw [Option.some.inj same]
      exact inv.offset_eq id slave present free
    · exact absurd serves (free k sender running)

/-- The states of a master that starts without slaves and only takes orderly steps. -/
abbrev Reached : Master → Prop := Transition.Reached step Fresh Orderly

/-- In every run whose steps are orderly, what an online slave has received since it
went online is a prefix of the backlog from that offset on, in every state. -/
theorem stream_prefix_of_orderly_runs {master : Master} (reached : Reached master) {id : Nat}
    {slave : Slave} (online : master.slaves.lookup id = some slave) :
    slave.stream <+:
      master.backlog.buf.drop (slave.onlineAt - master.backlog.beginOffset).toNat := by
  have inv : master.Inv := by
    refine reached.invariant ?_ (fun _ _ _ inv orderly taken => step_inv inv orderly taken)
    rintro _ ⟨length_eq, slaves, senders⟩
    refine ⟨length_eq, ?_, ?_, ?_, ?_, ?_, ?_, ?_, ?_⟩ <;>
      simp [slaves, senders, Finmap.notMem_empty]
  have okay := inv.slave_ok id slave online
  refine List.IsPrefix.trans ?_ okay.sent
  exact (List.prefix_append _ _).drop _

def noSlaves : Master := ⟨⟨[], 0, 0⟩, ∅, ∅, ∅⟩

/-- A byte is appended and sent, and before it arrives the slave acknowledges offset 0:
the byte is sent again. -/
theorem late_ack_sends_twice :
    ∃ master slave, Fresh noSlaves ∧
      [Event.online 1 0 [], .append [42], .snapshot 0 [1], .read 0, .write 0, .set 0, .done 0,
        .sendAck 1, .deliverAck 1, .snapshot 0 [1], .read 0, .write 0, .set 0, .done 0,
        .deliver 1 2].foldlM step noSlaves = some master ∧
      master.slaves.lookup 1 = some slave ∧ slave.onlineAt = 0 ∧ master.backlog.buf = [42] ∧
      slave.stream = [42, 42] :=
  ⟨_, _, ⟨rfl, rfl, rfl⟩, rfl, rfl, rfl, rfl, rfl⟩

theorem timely_ack_sends_once :
    ∃ master slave, Reached master ∧ master.slaves.lookup 1 = some slave ∧ slave.stream = [42] ∧
      slave.offset = 1 ∧
      slave.stream <+:
        master.backlog.buf.drop (slave.onlineAt - master.backlog.beginOffset).toNat := by
  have started : Reached noSlaves := .start ⟨rfl, rfl, rfl⟩
  obtain ⟨master, run, slave, online, stream, offset⟩ :
      ∃ master, Transition.runAllowed step Orderly noSlaves
        [.online 1 0 [], .append [42], .snapshot 0 [1], .read 0, .write 0, .set 0, .done 0,
          .deliver 1 1, .process 1 1, .sendAck 1, .deliverAck 1] = some master ∧
        ∃ slave, master.slaves.lookup 1 = some slave ∧ slave.stream = [42] ∧ slave.offset = 1 :=
    ⟨_, rfl, _, rfl, rfl, rfl⟩
  have reached := started.of_run run
  exact ⟨master, slave, reached, online, stream, offset,
    stream_prefix_of_orderly_runs reached online⟩

end Master

end Godis.Replication
