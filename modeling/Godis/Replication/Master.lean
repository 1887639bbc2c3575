import Mathlib.Data.Finmap
import Mathlib.Tactic
import Godis.Transition.Reached

/-!
# The replication stream (`database/replication_master.go`)

The master, the executions of `masterSendUpdatesToSlave` under way and, for each
online slave, its connection and what the slave has done with the bytes it got.
Each execution first takes a snapshot under the read lock and then, for one
slave after the other, reads `slave.offset`, writes the tail of the snapshot and
sets `slave.offset`; other events may come between any two of these steps.
-/

namespace Godis.Replication

structure Backlog where
  buf : List UInt8
  beginOffset : Int
  currentOffset : Int

def Backlog.appendBytes (backlog : Backlog) (bin : List UInt8) : Backlog :=
  { backlog with
    buf := backlog.buf ++ bin
    currentOffset := backlog.currentOffset + bin.length }

/-- An online slave.  `offset` is `slaveClient.offset`; the rest is the connection
and the slave itself: the offset at which it went online, the bytes written to it
before that and not yet processed then, what it has received in all, the bytes
under way, how many received bytes it has processed and its acknowledgements
under way. -/
structure Slave where
  offset : Int
  onlineAt : Int
  early : List UInt8
  received : List UInt8
  wire : List UInt8
  processed : Nat
  acks : List Int
  deriving DecidableEq

namespace Slave

/-- `slaveStatus.replOffset` of the slave, which counts the bytes it has processed. -/
def replOffset (slave : Slave) : Int := slave.onlineAt - slave.early.length + slave.processed

def stream (slave : Slave) : List UInt8 := slave.received.drop slave.early.length

end Slave

/-- Where an execution of `masterSendUpdatesToSlave` is with the slave at the head
of its list. -/
inductive Stage
  | idle
  | read (slaveOffset : Int)
  | written
  deriving DecidableEq

structure Sender where
  beginOffset : Int
  backlog : List UInt8
  currentOffset : Int
  onlineSlaves : List Nat
  stage : Stage
  deriving DecidableEq

/-- The master; `known` holds the identities of all slaves it has ever had. -/
structure Master where
  backlog : Backlog
  known : Finset Nat
  slaves : Finmap fun _ : Nat => Slave
  senders : Finmap fun _ : Nat => Sender

inductive Event
  /-- `replAofListener.Callback` or the ping of `masterCron` -/
  | append (bin : List UInt8)
  /-- `setSlaveOnline` after a full or partial resynchronisation -/
  | online (id : Nat) (currentOffset : Int) (early : List UInt8)
  /-- the snapshot under the read lock; the online slaves come in any order -/
  | snapshot (sender : Nat) (onlineSlaves : List Nat)
  | read (sender : Nat)
  | write (sender : Nat)
  | set (sender : Nat)
  /-- the connection fails and the slave is removed -/
  | fail (sender : Nat)
  /-- the slave has been removed in the meantime -/
  | skip (sender : Nat)
  | done (sender : Nat)
  | deliver (id : Nat) (count : Nat)
  | process (id : Nat) (count : Nat)
  | sendAck (id : Nat)
  | deliverAck (id : Nat)

namespace Master

/-- `backlog[slaveBeginOffset:]`, which panics out of range. -/
def tail (sender : Sender) (slaveOffset : Int) : Option (List UInt8) :=
  let slaveBeginOffset := slaveOffset - sender.beginOffset
  if 0 ≤ slaveBeginOffset ∧ slaveBeginOffset ≤ sender.backlog.length then
    some (sender.backlog.drop slaveBeginOffset.toNat)
  else none

/-- `none` where the event cannot happen or the code panics. -/
def step (master : Master) : Event → Option Master
  | .append bin => some { master with backlog := master.backlog.appendBytes bin }
  | .online id currentOffset early =>
    if id ∉ master.known ∧ master.backlog.beginOffset ≤ currentOffset ∧
        currentOffset ≤ master.backlog.currentOffset then
      some { master with
        known := insert id master.known
        slaves := master.slaves.insert id ⟨currentOffset, currentOffset, early, [], early, 0, []⟩ }
    else none
  | .snapshot k onlineSlaves =>
    if k ∉ master.senders ∧ onlineSlaves.Nodup ∧ onlineSlaves.toFinset = master.slaves.keys then
      some { master with
        senders := master.senders.insert k
          ⟨master.backlog.beginOffset, master.backlog.buf, master.backlog.currentOffset,
            onlineSlaves, .idle⟩ }
    else none
  | .read k => do
    let sender ← master.senders.lookup k
    let id ← sender.onlineSlaves.head?
    let slave ← master.slaves.lookup id
    if sender.stage = .idle then
      some { master with senders := master.senders.insert k { sender with stage := .read slave.offset } }
    else none
  | .write k => do
    let sender ← master.senders.lookup k
    let id ← sender.onlineSlaves.head?
    let slave ← master.slaves.lookup id
    match sender.stage with
    | .read slaveOffset =>
      let bytes ← tail sender slaveOffset
      some { master with
        slaves := master.slaves.insert id { slave with wire := slave.wire ++ bytes }
        senders := master.senders.insert k { sender with stage := .written } }
    | _ => none
  | .set k => do
    let sender ← master.senders.lookup k
    let id ← sender.onlineSlaves.head?
    let slave ← master.slaves.lookup id
    if sender.stage = .written then
      some { master with
        slaves := master.slaves.insert id { slave with offset := sender.currentOffset }
        senders := master.senders.insert k
          { sender with onlineSlaves := sender.onlineSlaves.tail, stage := .idle } }
    else none
  | .fail k => do
    let sender ← master.senders.lookup k
    let id ← sender.onlineSlaves.head?
    if sender.stage ≠ .idle then
      some { master with
        slaves := master.slaves.erase id
        senders := master.senders.insert k
          { sender with onlineSlaves := sender.onlineSlaves.tail, stage := .idle } }
    else none
  | .skip k => do
    let sender ← master.senders.lookup k
    let id ← sender.onlineSlaves.head?
    if id ∉ master.slaves then
      some { master with
        senders := master.senders.insert k
          { sender with onlineSlaves := sender.onlineSlaves.tail, stage := .idle } }
    else none
  | .done k => do
    let sender ← master.senders.lookup k
    if sender.onlineSlaves = [] then some { master with senders := master.senders.erase k }
    else none
  | .deliver id count => do
    let slave ← master.slaves.lookup id
    some { master with
      slaves := master.slaves.insert id
        { slave with
          received := slave.received ++ slave.wire.take count
          wire := slave.wire.drop count } }
  | .process id count => do
    let slave ← master.slaves.lookup id
    if slave.processed + count ≤ slave.received.length then
      some { master with
        slaves := master.slaves.insert id { slave with processed := slave.processed + count } }
    else none
  | .sendAck id => do
    let slave ← master.slaves.lookup id
    some { master with
      slaves := master.slaves.insert id { slave with acks := slave.acks ++ [slave.replOffset] } }
  | .deliverAck id => do
    let slave ← master.slaves.lookup id
    let offset ← slave.acks.head?
    some { master with
      slaves := master.slaves.insert id { slave with offset := offset, acks := slave.acks.tail } }

def Fresh (master : Master) : Prop :=
  master.backlog.currentOffset = master.backlog.beginOffset + master.backlog.buf.length ∧
    master.slaves = ∅ ∧ master.senders = ∅

end Master

end Godis.Replication
