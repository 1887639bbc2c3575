import Godis.Database.Server

/-!
# Transactions of one connection in turn

`SetMultiState(false)` drops the queue and the watched keys of a transaction but not the errors of
`EnqueueCmd`.
-/

namespace Godis.Database

open Golang Program

def Conn.fresh (conn : Conn) : Conn :=
  { conn with inMultiState := false, queue := [], txErrors := [], watching := ∅ }

structure Request (F : Type) where
  moments : Moments F
  head : Bytes
  args : List Bytes

structure Session (F : Type) where
  space : Space F
  conn : Conn

def transactionNames : List Str :=
  [lit "multi", lit "discard", lit "exec", lit "watch"]

namespace Session

variable {F : Type} [Float64 F]

def exec (session : Session F) (request : Request F) : Except Stop Reply × Session F :=
  let ended := session.space.exec request.moments session.conn request.head request.args
  (ended.1, ⟨ended.2.1, ended.2.2⟩)

def after (session : Session F) (requests : List (Request F)) : Session F :=
  requests.foldl (fun session request => (session.exec request).2) session

def replies : Session F → List (Request F) → List (Except Stop Reply)
  | _, [] => []
  | session, request :: rest => (session.exec request).1 :: replies (session.exec request).2 rest

/-- The connection is served like a fresh one, whatever follows. -/
def AsFresh (session : Session F) : Prop :=
  ∀ requests, session.replies requests = replies ⟨session.space, session.conn.fresh⟩ requests ∧
    (session.after requests).space = (after ⟨session.space, session.conn.fresh⟩ requests).space

omit [Float64 F] in
def Ends (session : Session F) (request : Request F) : Prop :=
  session.conn.inMultiState = true ∧ request.args = [] ∧
    (toLower (str request.head) = lit "exec" ∨ toLower (str request.head) = lit "discard")

def enqueues (F : Type) [Float64 F] (head : Bytes) (args : List Bytes) : Bool :=
  match Name.ofText (toLower (str head)) with
  | none => false
  | some found => (command (F := F) found).prepare.isSome &&
      validateArity (command (F := F) found).arity (head :: args)

def Rejects (session : Session F) (request : Request F) : Prop :=
  session.conn.inMultiState = true ∧ toLower (str request.head) ∉ transactionNames ∧
    enqueues F request.head request.args = false

def NoneRejected : Session F → List (Request F) → Prop
  | _, [] => True
  | session, request :: rest =>
    ¬ session.Rejects request ∧ NoneRejected (session.exec request).2 rest

theorem txErrors_enqueueCmd {conn : Conn} {head : Bytes} {args : List Bytes} :
    (enqueueCmd F conn head args).2.txErrors = [] ↔
      conn.txErrors = [] ∧ enqueues F head args = true := by
  unfold enqueueCmd enqueues
  cases Name.ofText (toLower (str head)) with
  | none => simp [Conn.addTxError]
  | some found =>
    dsimp only
    cases (command (F := F) found).prepare with
    | none => simp [Conn.addTxError]
    | some prepare =>
      cases validateArity (command (F := F) found).arity (head :: args) with
      | true => simp
      | false => simp [Conn.addTxError]

theorem txErrors_exec (session : Session F) (request : Request F) :
    (session.exec request).2.conn.txErrors = [] ↔
      session.conn.txErrors = [] ∧ ¬ session.Rejects request := by
  have handled (own : toLower (str request.head) ∈ transactionNames) {conn : Conn}
      (same : conn.txErrors = session.conn.txErrors) :
      conn.txErrors = [] ↔ session.conn.txErrors = [] ∧ ¬ session.Rejects request := by
    rw [same]
    exact (and_iff_left fun rejects => rejects.2.1 own).symm
  unfold exec Space.exec
  dsimp only
  split
  · rename_i name
    refine handled (by rw [name]; decide) ?_
    split
    · unfold Conn.startMulti
      split <;> rfl
    · rfl
  · split
    · rename_i name
      refine handled (by rw [name]; decide) ?_
      split
      · unfold Conn.discardMulti
        split <;> rfl
      · rfl
    · split
      · rename_i name
        refine handled (by rw [name]; decide) ?_
        unfold execTransaction
        split
        · split
          · split <;> rfl
          · rfl
        · rfl
      · split
        · rename_i name
          refine handled (by rw [name]; decide) ?_
          split <;> rfl
        · rename_i notMulti notDiscard notExec notWatch
          cases multi : session.conn.inMultiState with
          | true =>
            refine (txErrors_enqueueCmd).trans (and_congr_right fun _ => ?_)
            have other : toLower (str request.head) ∉ transactionNames := by
              simp [transactionNames, notMulti, notDiscard, notExec, notWatch]
            simp [Rejects, multi, other]
          | false => simp [Rejects, multi]

theorem txErrors_after (session : Session F) (requests : List (Request F)) :
    (session.after requests).conn.txErrors = [] ↔
      session.conn.txErrors = [] ∧ session.NoneRejected requests := by
  induction requests generalizing session with
  | nil => simp [after, NoneRejected]
  | cons request rest ih => exact (ih _).trans (by rw [txErrors_exec, NoneRejected, and_assoc])

theorem conn_exec_of_ends {session : Session F} {request : Request F} (ends : session.Ends request) :
    (session.exec request).2.conn = session.conn.leaveMulti := by
  obtain ⟨multi, noArgs, name | name⟩ := ends
  · have run : (session.exec request).2.conn =
        (execTransaction request.moments session.conn session.space).2.2 := by
      simp only [exec, Space.exec, name, noArgs]
      rfl
    rw [run, execTransaction, if_pos multi]
    split <;> rfl
  · simp only [exec, Space.exec, name, noArgs, Conn.discardMulti, multi]
    rfl

def probe (moments : Moments F) : List (Request F) :=
  [⟨moments, some (lit "multi"), []⟩, ⟨moments, some (lit "exec"), []⟩]

theorem replies_probe {session : Session F} {moments : Moments F}
    (idle : session.conn.inMultiState = false) (noQueue : session.conn.queue = [])
    (noWatch : session.conn.watching = ∅) :
    session.replies (probe moments) = [.ok .ok,
      .ok (if session.conn.txErrors = [] then .multiRaw [] else execAbort)] := by
  obtain ⟨_, _, _, _, errors, _, _, _⟩ := session
  cases idle
  cases noQueue
  cases noWatch
  cases errors with
  | nil => rfl
  | cons error rest => rfl

/-- After a transaction the connection is served like a fresh one exactly if no command was ever
rejected within a transaction. -/
theorem as_fresh_iff (space : Space F) (conn : Conn) (requests : List (Request F))
    (request : Request F) (ends : (after ⟨space, conn.fresh⟩ requests).Ends request) :
    ((after ⟨space, conn.fresh⟩ requests).exec request).2.AsFresh ↔
      NoneRejected ⟨space, conn.fresh⟩ requests := by
  have errors := (txErrors_after ⟨space, conn.fresh⟩ requests).trans (and_iff_right rfl)
  rw [← errors]
  generalize after ⟨space, conn.fresh⟩ requests = session at *
  have left := conn_exec_of_ends ends
  constructor
  · intro fresh
    have same := (fresh (probe request.moments)).1
    rw [replies_probe (by rw [left]; rfl) (by rw [left]; rfl) (by rw [left]; rfl),
      replies_probe rfl rfl rfl, left] at same
    by_contra some_
    simp [Conn.leaveMulti, some_, Conn.fresh, execAbort, Reply.err] at same
  · intro none_ later
    have isFresh : (session.exec request).2.conn = (session.exec request).2.conn.fresh := by
      rw [left, Conn.leaveMulti, Conn.fresh, none_]
    rw [← isFresh]
    exact ⟨rfl, rfl⟩

end Session

section Samples

def newSession : Session Digit :=
  ⟨Space.empty, ⟨false, false, [], [], ∅, [], 0⟩⟩

def request (words : List String) : Request Digit :=
  ⟨fun _ => Env.plain 0, (words.head?.map lit), words.tail.map fun word => some (lit word)⟩

theorem as_fresh_after_exec :
    ((newSession.after [request ["MULTI"], request ["SET", "k", "v"]]).exec (request ["EXEC"])).2.AsFresh :=
  (Session.as_fresh_iff Space.empty newSession.conn [request ["MULTI"], request ["SET", "k", "v"]]
    (request ["EXEC"]) ⟨rfl, rfl, .inl rfl⟩).mpr
      ⟨fun rejects => Bool.noConfusion rejects.1, fun rejects => Bool.noConfusion rejects.2.2, trivial⟩

/-- An unknown command in one transaction makes the next one abort. -/
theorem error_outlives_transaction :
    (newSession.after [request ["MULTI"], request ["FOO"], request ["DISCARD"]]).replies
        [request ["MULTI"], request ["SET", "k", "v"], request ["EXEC"]] =
      [.ok .ok, .ok (.status (lit "QUEUED")), .ok execAbort] ∧
    newSession.replies [request ["MULTI"], request ["SET", "k", "v"], request ["EXEC"]] =
      [.ok .ok, .ok (.status (lit "QUEUED")), .ok (.multiRaw [.ok])] :=
  ⟨rfl, rfl⟩

end Samples

end Godis.Database
