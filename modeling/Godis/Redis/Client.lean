import Godis.Golang.Str
import Godis.Transition.Reached
import Mathlib.Logic.Function.Basic

/-!
# The pipeline client (`redis/client/client.go`)

Connections are numbered as they are dialed.  The server answers the requests on a connection in
order, so a reply is named by the connection and the position of the request there.
-/

namespace Godis.Redis

open Golang Transition List
open Option (ite_none_right_eq_some some.injEq)

structure Request where
  id : Nat
  args : List Str
  deriving DecidableEq

inductive Outcome
  | failed
  | reply (conn index : Nat)

/-- What the reading goroutine is about: it reads, or it is within `reconnect` with a new connection,
or with `waitingReqs` closed and drained; with no new connection it closes the client. -/
inductive Reader
  | reading
  | dialed
  | drained
  | stopped
  deriving DecidableEq

/-- A request that was written is kept with its connection. -/
structure Client where
  conn : Nat
  written : Nat → List Request
  replied : Nat → Nat
  sent : Nat
  pendingReqs : List Request
  writing : Option (Request × Nat)
  waitingReqs : List (Request × Nat)
  reader : Reader
  outcomes : Request → Option Outcome

namespace Client

def chanSize : Nat := 256

def makeClient : Client :=
  ⟨0, fun _ => [], fun _ => 0, 0, [], none, [], .reading, fun _ => none⟩

inductive Event
  | send (args : List Str)
  | write (succeeds : Bool)
  | enqueue
  | finishRequest
  | dial
  | drain
  | replace
  | giveUp

def complete (client : Client) (request : Request) (outcome : Outcome) : Client :=
  { client with outcomes := Function.update client.outcomes request (some outcome) }

def write (client : Client) (succeeds : Bool) : Option Client :=
  match client.pendingReqs, client.writing with
  | request :: rest, none =>
    let client := { client with pendingReqs := rest }
    if request.args.isEmpty then some client
    else if succeeds then
      some { client with
        written := Function.update client.written client.conn (client.written client.conn ++ [request])
        writing := some (request, client.conn) }
    else some (client.complete request .failed)
  | _, _ => none

/-- Sending on the closed channel ends the process. -/
def enqueue (client : Client) : Option Client :=
  match client.writing with
  | some entry =>
    if client.reader = .drained ∨ chanSize ≤ client.waitingReqs.length then none
    else some { client with writing := none, waitingReqs := client.waitingReqs ++ [entry] }
  | none => none

/-- The next reply of the connection goes to the first request that waits. -/
def finishRequest (client : Client) : Option Client :=
  match client.reader, client.waitingReqs with
  | .reading, (request, _) :: rest =>
    let index := client.replied client.conn
    if index < (client.written client.conn).length then
      some { client.complete request (.reply client.conn index) with
        replied := Function.update client.replied client.conn (index + 1), waitingReqs := rest }
    else none
  | _, _ => none

def step (client : Client) : Event → Option Client
  | .send args =>
    if client.reader = .stopped ∨ chanSize ≤ client.pendingReqs.length then none
    else some { client with
      pendingReqs := client.pendingReqs ++ [⟨client.sent, args⟩], sent := client.sent + 1 }
  | .write succeeds => client.write succeeds
  | .enqueue => client.enqueue
  | .finishRequest => client.finishRequest
  | .dial =>
    if client.reader = .reading then some { client with conn := client.conn + 1, reader := .dialed }
    else none
  | .drain =>
    if client.reader = .dialed then
      some { client.waitingReqs.foldl (fun client entry => client.complete entry.1 .failed) client with
        waitingReqs := [], reader := .drained }
    else none
  | .replace =>
    if client.reader = .drained then some { client with waitingReqs := [], reader := .reading }
    else none
  | .giveUp => if client.reader = .reading then some { client with reader := .stopped } else none

/-- Every reply went to the request that it answers. -/
def Matched (client : Client) : Prop :=
  ∀ request conn index, client.outcomes request = some (.reply conn index) →
    (client.written conn)[index]? = some request

/-- `reconnect` drains no request that was written to the new connection, and does not replace the
channel before a request that was written to an old connection is in it. -/
def orderly (client : Client) : Event → Bool
  | .drain => client.waitingReqs.all fun entry => entry.2 ≠ client.conn
  | .replace => client.writing.all fun entry => entry.2 = client.conn
  | _ => true

def on (conn : Nat) (entries : List (Request × Nat)) : List Request :=
  (entries.filter fun entry => entry.2 = conn).map Prod.fst

/-- What the server has yet to answer on the connection waits in order, and then what is being
written. -/
structure Aligned (client : Client) : Prop where
  matched : client.Matched
  unused : ∀ conn, client.conn < conn → client.written conn = [] ∧ client.replied conn = 0
  unanswered : (client.written client.conn).drop (client.replied client.conn) =
    on client.conn (client.waitingReqs ++ client.writing.toList)
  bound : client.replied client.conn ≤ (client.written client.conn).length
  old : ∀ entry ∈ client.waitingReqs ++ client.writing.toList, entry.2 ≤ client.conn
  current : client.reader = .reading →
    ∀ entry ∈ client.waitingReqs ++ client.writing.toList, entry.2 = client.conn
  closed : client.reader = .drained → client.waitingReqs = []

variable {client client' : Client}

theorem on_append {conn : Nat} (first second : List (Request × Nat)) :
    on conn (first ++ second) = on conn first ++ on conn second := by
  simp [on]

theorem on_eq_nil {conn : Nat} {entries : List (Request × Nat)}
    (other : ∀ entry ∈ entries, entry.2 ≠ conn) : on conn entries = [] := by
  simpa [on] using other

theorem Matched.fail (matched : client.Matched) (request : Request) :
    (client.complete request .failed).Matched := by
  intro other conn index found
  by_cases same : other = request
  · simp [complete, same] at found
  · simp only [complete, Function.update_of_ne same] at found
    exact matched other conn index found

theorem Aligned.write (aligned : client.Aligned) {succeeds : Bool}
    (taken : client.write succeeds = some client') : client'.Aligned := by
  unfold Client.write at taken
  split at taken
  · rename_i request rest pending free
    split at taken
    · cases taken
      exact { aligned with }
    · split at taken
      · cases taken
        obtain ⟨matched, unused, unanswered, bound, old, current, closed⟩ := aligned
        simp only [free, Option.toList_none, append_nil] at unanswered old current
        refine ⟨?_, ?_, ?_, ?_, ?_, ?_, closed⟩
        · intro other conn index found
          have before := matched other conn index found
          by_cases same : conn = client.conn
          · subst same
            simp [List.getElem?_append_left (List.getElem?_eq_some_iff.mp before).1, before]
          · simp [same, before]
        · intro conn later
          simpa [later.ne'] using unused conn later
        · simp [List.drop_append_of_le_length bound, unanswered, on]
        · simpa using Nat.le_succ_of_le bound
        · intro entry member
          rcases mem_append.mp member with waits | _
          · exact old entry waits
          · simp_all
        · intro reads entry member
          rcases mem_append.mp member with waits | _
          · exact current reads entry waits
          · simp_all
      · cases taken
        have matched : ({ client with pendingReqs := rest } : Client).Matched := aligned.matched
        exact { aligned with matched := matched.fail request }
  · cases taken

theorem Aligned.enqueue (aligned : client.Aligned) (taken : client.enqueue = some client') :
    client'.Aligned := by
  unfold Client.enqueue at taken
  split at taken
  · rename_i entry writing
    split at taken
    · cases taken
    · rename_i open_
      cases taken
      have same : client.waitingReqs ++ client.writing.toList = client.waitingReqs ++ [entry] := by
        rw [writing]
        rfl
      obtain ⟨matched, unused, unanswered, bound, old, current, _⟩ := aligned
      rw [same] at unanswered old current
      refine ⟨matched, unused, ?_, bound, ?_, ?_, fun drained => absurd (.inl drained) open_⟩
      · simpa using unanswered
      · simpa using old
      · simpa using current
  · cases taken

theorem Aligned.finishRequest (aligned : client.Aligned)
    (taken : client.finishRequest = some client') : client'.Aligned := by
  unfold Client.finishRequest at taken
  split at taken
  · rename_i request conn rest reads waiting
    simp only [ite_none_right_eq_some, some.injEq] at taken
    obtain ⟨more, rfl⟩ := taken
    obtain ⟨matched, unused, unanswered, -, old, current, -⟩ := aligned
    rw [waiting] at unanswered old current
    have here : conn = client.conn := current reads (request, conn) (by simp)
    have first : (client.written client.conn)[client.replied client.conn] = request ∧
        (client.written client.conn).drop (client.replied client.conn + 1) =
          on client.conn (rest ++ client.writing.toList) := by
      rw [List.drop_eq_getElem_cons more] at unanswered
      exact List.cons.inj (unanswered.trans (by simp [on, here]))
    refine ⟨?_, ?_, ?_, ?_, fun entry member => old entry (mem_cons_of_mem _ member),
      fun _ entry member => current reads entry (mem_cons_of_mem _ member), fun drained => ?_⟩
    · intro other conn index found
      by_cases same : other = request
      · simp only [complete, same, Function.update_self, some.injEq, Outcome.reply.injEq]
          at found
        obtain ⟨rfl, rfl⟩ := found
        rw [same]
        exact List.getElem?_eq_some_iff.mpr ⟨more, first.1⟩
      · simp only [complete, Function.update_of_ne same] at found
        exact matched other conn index found
    · intro conn later
      have differs : conn ≠ client.conn := later.ne'
      simpa [complete, differs] using unused conn later
    · simpa [complete] using first.2
    · simpa [complete] using more
    · cases reads.symm.trans drained
  · cases taken

theorem Matched.drain (matched : client.Matched) (entries : List (Request × Nat)) :
    ∃ outcomes, entries.foldl (fun client entry => client.complete entry.1 .failed) client =
      { client with outcomes := outcomes } ∧ ({ client with outcomes := outcomes } : Client).Matched := by
  induction entries generalizing client with
  | nil => exact ⟨_, rfl, matched⟩
  | cons entry rest ih => exact ih (matched.fail entry.1)

theorem Aligned.step {event : Event} (aligned : client.Aligned) (okay : client.orderly event = true)
    (taken : client.step event = some client') : client'.Aligned := by
  cases event with
  | send args =>
    simp only [Client.step, Option.ite_none_left_eq_some, some.injEq] at taken
    obtain ⟨-, rfl⟩ := taken
    exact { aligned with }
  | write succeeds => exact aligned.write taken
  | enqueue => exact aligned.enqueue taken
  | finishRequest => exact aligned.finishRequest taken
  | dial =>
    simp only [Client.step, ite_none_right_eq_some, some.injEq] at taken
    obtain ⟨-, rfl⟩ := taken
    have fresh := aligned.unused (client.conn + 1) (Nat.lt_succ_self _)
    refine ⟨aligned.matched, fun conn later => aligned.unused conn (Nat.lt_of_succ_lt later), ?_, ?_,
      fun entry member => Nat.le_succ_of_le (aligned.old entry member), fun reading => ?_,
      fun drained => ?_⟩
    · rw [fresh.1, List.drop_nil]
      exact (on_eq_nil fun entry member => (Nat.lt_succ_of_le (aligned.old entry member)).ne).symm
    · rw [fresh.2]
      exact Nat.zero_le _
    · cases reading
    · cases drained
  | drain =>
    simp only [Client.step, ite_none_right_eq_some, some.injEq] at taken
    obtain ⟨-, rfl⟩ := taken
    obtain ⟨_, same, matched⟩ := aligned.matched.drain client.waitingReqs
    have none_ : on client.conn client.waitingReqs = [] := on_eq_nil (by simpa [orderly] using okay)
    have unanswered := aligned.unanswered
    rw [on_append, none_] at unanswered
    rw [same]
    refine ⟨matched, aligned.unused, unanswered, aligned.bound, fun entry member => ?_,
      fun reading => ?_, fun _ => rfl⟩
    · exact aligned.old entry (mem_append_right _ member)
    · cases reading
  | replace =>
    simp only [Client.step, ite_none_right_eq_some, some.injEq] at taken
    obtain ⟨drained, rfl⟩ := taken
    have empty := aligned.closed drained
    have unanswered := aligned.unanswered
    have old := aligned.old
    rw [empty] at unanswered old
    refine ⟨aligned.matched, aligned.unused, unanswered, aligned.bound, old, fun _ entry member => ?_,
      fun _ => rfl⟩
    have writing : client.writing = some entry := by simpa using member
    simpa [orderly, writing] using okay
  | giveUp =>
    simp only [Client.step, ite_none_right_eq_some, some.injEq] at taken
    obtain ⟨-, rfl⟩ := taken
    exact { aligned with
      current := fun reading => by cases reading
      closed := fun drained => by cases drained }

/-- In every orderly run each reply is that to the request. -/
theorem replies_matched (client : Client) (reached : Reached step (· = makeClient)
    (fun client event => client.orderly event = true) client) : client.Matched := by
  have aligned : client.Aligned := by
    refine reached.invariant ?_ fun client event client' => Aligned.step
    rintro _ rfl
    exact ⟨fun _ _ _ found => (by cases found), fun _ _ => ⟨rfl, rfl⟩, rfl, le_rfl,
      fun _ member => (by cases member), fun _ _ member => (by cases member), fun _ => rfl⟩
  exact aligned.matched

/-- A request fails with the connection, the next is answered on the new one. -/
theorem replies_matched_after_reconnect :
    ∃ client : Client, client.outcomes ⟨1, [lit "PING"]⟩ = some (.reply 1 0) ∧ client.Matched := by
  have run : ∃ client, runAllowed step (fun client event => client.orderly event = true) makeClient
      [.send [lit "PING"], .write true, .enqueue, .dial, .drain, .replace, .send [lit "PING"],
        .write true, .enqueue, .finishRequest] = some client ∧
      client.outcomes ⟨1, [lit "PING"]⟩ = some (.reply 1 0) := ⟨_, rfl, rfl⟩
  obtain ⟨client, run, replied⟩ := run
  exact ⟨client, replied, replies_matched client (.of_run (.start rfl) run)⟩

/-- `GET a` is written to the connection that breaks and waits on the new one, where it gets the
reply to `GET b`. -/
theorem reply_to_another_request :
    ∃ client : Client, [.send [lit "GET", lit "a"], .write true, .dial, .drain, .replace, .enqueue,
        .send [lit "GET", lit "b"], .write true, .enqueue, .finishRequest].foldlM step makeClient =
          some client ∧
      client.outcomes ⟨0, [lit "GET", lit "a"]⟩ = some (.reply 1 0) ∧
      client.written 1 = [⟨1, [lit "GET", lit "b"]⟩] :=
  ⟨_, rfl, rfl, rfl⟩

end Client

end Godis.Redis
