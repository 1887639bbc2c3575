import Godis.Database.Value

/-!
# Connections (`redis/connection/conn.go`)

A connection object goes back to `connPool` when it is closed and may be handed out again.
-/

namespace Godis.Redis

open Golang Database

/-- `Connection`, with a field for each bit of `flags`; a nil map reads as an empty one. -/
structure Connection where
  flagSlave : Bool
  flagMaster : Bool
  flagMulti : Bool
  subs : Finset Str
  password : Str
  queue : List Line
  watching : Finmap fun _ : Str => Nat
  txErrors : List Str
  selectedDB : Int

namespace Connection

def allocated : Connection :=
  ⟨false, false, false, ∅, [], [], ∅, [], 0⟩

def setMultiState (conn : Connection) (state : Bool) : Connection :=
  if state then { conn with flagMulti := true }
  else { conn with watching := ∅, queue := [], flagMulti := false }

/-- `Close`, which leaves the flags as they are. -/
def close (conn : Connection) : Connection :=
  { conn with
    subs := ∅
    password := []
    queue := []
    watching := ∅
    txErrors := []
    selectedDB := 0 }

/-- `NewConn`, which takes an object from the pool if there is one. -/
def newConn (pooled : Option Connection) : Connection :=
  pooled.getD allocated

/-- What commands do to a connection; `watch` is an assignment to the map that `GetWatching`
returns, `reopen` is `Close` and the next `NewConn` that gets the object. -/
inductive Call where
  | subscribe (channel : Str)
  | unSubscribe (channel : Str)
  | setPassword (password : Str)
  | setMultiState (state : Bool)
  | enqueueCmd (line : Line)
  | addTxError (error : Str)
  | clearQueuedCmds
  | watch (key : Str) (version : Nat)
  | selectDB (dbNum : Int)
  | setSlave
  | setMaster
  | reopen
  deriving DecidableEq

def call (conn : Connection) : Call → Connection
  | .subscribe channel => { conn with subs := insert channel conn.subs }
  | .unSubscribe channel => { conn with subs := conn.subs.erase channel }
  | .setPassword password => { conn with password := password }
  | .setMultiState state => conn.setMultiState state
  | .enqueueCmd line => { conn with queue := conn.queue ++ [line] }
  | .addTxError error => { conn with txErrors := conn.txErrors ++ [error] }
  | .clearQueuedCmds => { conn with queue := [] }
  | .watch key version => { conn with watching := conn.watching.insert key version }
  | .selectDB dbNum => { conn with selectedDB := dbNum }
  | .setSlave => { conn with flagSlave := true }
  | .setMaster => { conn with flagMaster := true }
  | .reopen => newConn (some conn.close)

def after (calls : List Call) : Connection :=
  calls.foldl call allocated

/-- Whether the last `SetMultiState` of some calls starts a transaction. -/
def inMulti (calls : List Call) : Bool :=
  calls.foldl (fun multi called => if called = .setMultiState true then true
    else if called = .setMultiState false then false else multi) false

theorem flags_call (conn : Connection) (called : Call) :
    (conn.call called).flagSlave = (conn.flagSlave || decide (called = .setSlave)) ∧
      (conn.call called).flagMaster = (conn.flagMaster || decide (called = .setMaster)) ∧
      (conn.call called).flagMulti = if called = .setMultiState true then true
        else if called = .setMultiState false then false else conn.flagMulti := by
  cases called with
  | setMultiState state => cases state <;> simp [call, setMultiState]
  | _ => simp [call, newConn, close]

theorem flags_after (calls : List Call) :
    (after calls).flagSlave = decide (.setSlave ∈ calls) ∧
      (after calls).flagMaster = decide (.setMaster ∈ calls) ∧
      (after calls).flagMulti = inMulti calls := by
  induction calls using List.reverseRecOn with
  | nil => exact ⟨rfl, rfl, rfl⟩
  | append_singleton calls called ih =>
    obtain ⟨slave, master, multi⟩ := flags_call (after calls) called
    have last : after (calls ++ [called]) = (after calls).call called := by
      rw [after, List.foldl_append]
      rfl
    rw [last, slave, master, multi, ih.1, ih.2.1, ih.2.2, inMulti, inMulti]
    simp [eq_comm]

/-- A recycled connection is like a newly allocated one exactly if it was never marked as a slave or
as a master and was not closed within a transaction. -/
theorem recycled_iff (calls : List Call) :
    newConn (some (after calls).close) = newConn none ↔
      .setSlave ∉ calls ∧ .setMaster ∉ calls ∧ inMulti calls = false := by
  obtain ⟨slave, master, multi⟩ := flags_after calls
  have fields : newConn (some (after calls).close) = newConn none ↔ (after calls).flagSlave = false ∧
      (after calls).flagMaster = false ∧ (after calls).flagMulti = false := by
    simp [newConn, close, allocated]
  rw [fields, slave, master, multi, decide_eq_false_iff_not, decide_eq_false_iff_not]

/-- The connection with a master, closed by `receiveAOF`, and one closed after `MULTI`. -/
theorem recycled_with_flags :
    (newConn (some (after [.setMaster]).close)).flagMaster = true ∧
      (newConn (some (after [.setMultiState true, .enqueueCmd []]).close)).flagMulti = true ∧
      (newConn none).flagMaster = false ∧ (newConn none).flagMulti = false :=
  ⟨rfl, rfl, rfl, rfl⟩

end Connection

end Godis.Redis
