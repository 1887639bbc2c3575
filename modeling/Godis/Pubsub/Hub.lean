import Godis.Redis.Parser
import Godis.Transition.Reached

/-!
# Subscriptions (`pubsub/pubsub.go`, `closeClient` of `redis/server/std/server.go`)

Connection objects have numbers; a closed one may be opened again for another client.  `joined` is
not in the source: it says to which channels a connection has subscribed since it was opened.
-/

namespace Godis.Pubsub

open Golang Database Transition List
open Option (some.injEq)

structure Hub where
  subscribers : Str → Option (List Nat)
  subs : Nat → Finset Str
  live : Nat → Bool
  joined : Nat → Finset Str
  written : List (Nat × Str)

namespace Hub

def makeHub : Hub := ⟨fun _ => none, fun _ => ∅, fun _ => false, fun _ => ∅, []⟩

/-- `GetChannels` may give the channels of a connection in this order. -/
def getChannels (hub : Hub) (id : Nat) (order : List Str) : Bool :=
  order.Nodup ∧ order.toFinset = hub.subs id

def makeMsg (kind : String) (channel : Str) (code : Nat) : Str :=
  lit "*3\r\n$" ++ formatNat (lit kind).length ++ crlf ++ lit kind ++ crlf ++ lit "$" ++
    formatNat channel.length ++ crlf ++ channel ++ crlf ++ lit ":" ++ formatNat code ++ crlf

def write (hub : Hub) (id : Nat) (bytes : Str) : Hub :=
  { hub with written := hub.written ++ [(id, bytes)] }

def subscribe0 (hub : Hub) (channel : Str) (id : Nat) : Bool × Hub :=
  let list := (hub.subscribers channel).getD []
  let hub := { hub with
    subs := Function.update hub.subs id (insert channel (hub.subs id))
    subscribers := Function.update hub.subscribers channel (some list) }
  if id ∈ list then (false, hub)
  else (true, { hub with
    subscribers := Function.update hub.subscribers channel (some (list ++ [id])) })

def unsubscribe0 (hub : Hub) (channel : Str) (id : Nat) : Bool × Hub :=
  let hub := { hub with subs := Function.update hub.subs id ((hub.subs id).erase channel) }
  match hub.subscribers channel with
  | some list =>
    let list := list.filter (· ≠ id)
    let entry := if list.length = 0 then none else some list
    (true, { hub with subscribers := Function.update hub.subscribers channel entry })
  | none => (false, hub)

/-- One round of the loops of `Subscribe` and `UnSubscribe`. -/
def confirm (kind : String) (id : Nat) (channel : Str) : Bool × Hub → Hub
  | (true, hub) => hub.write id (makeMsg kind channel (hub.subs id).card)
  | (false, hub) => hub

def subscribe (hub : Hub) (id : Nat) (channels : List Str) : Hub :=
  channels.foldl (fun hub channel => confirm "subscribe" id channel (hub.subscribe0 channel id)) hub

def unsubscribeAll (hub : Hub) (id : Nat) (order : List Str) : Hub :=
  order.foldl (fun hub channel => (hub.unsubscribe0 channel id).2) hub

/-- `UnSubscribe`, where `order` is that of `GetChannels`. -/
def unSubscribe (hub : Hub) (id : Nat) (args order : List Str) : Hub :=
  let channels := if args.length > 0 then args else order
  if channels.length = 0 then hub.write id (lit "*3\r\n$11\r\nunsubscribe\r\n$-1\n:0\r\n")
  else channels.foldl
    (fun hub channel => confirm "unsubscribe" id channel (hub.unsubscribe0 channel id)) hub

def publish (hub : Hub) (args : List Str) : Reply × Hub :=
  match args with
  | [channel, message] =>
    match hub.subscribers channel with
    | none => (.int 0, hub)
    | some list =>
      (.int list.length, list.foldl (fun hub id =>
        hub.write id (multiBulkBytes [some (lit "message"), some channel, some message])) hub)
  | _ => (.argNumErr (lit "publish"), hub)

def close (hub : Hub) (id : Nat) : Hub :=
  { hub with subs := Function.update hub.subs id ∅, live := Function.update hub.live id false }

inductive Event
  | newConn (id : Nat)
  | subscribe (id : Nat) (channels : List Str)
  | unSubscribe (id : Nat) (args order : List Str)
  | publish (args : List Str)
  | closeClient (id : Nat) (order : List Str)

def step (hub : Hub) : Event → Option Hub
  | .newConn id =>
    if hub.live id then none
    else some { hub with
      live := Function.update hub.live id true, joined := Function.update hub.joined id ∅ }
  | .subscribe id channels =>
    if hub.live id then some { hub.subscribe id channels with
      joined := Function.update hub.joined id (hub.joined id ∪ channels.toFinset) }
    else none
  | .unSubscribe id args order =>
    if hub.live id ∧ hub.getChannels id order then some { hub.unSubscribe id args order with
      joined := Function.update hub.joined id (if args = [] then ∅ else hub.joined id \ args.toFinset) }
    else none
  | .publish args => some (hub.publish args).2
  | .closeClient id order =>
    if hub.live id ∧ (hub.close id).getChannels id order then
      some ((hub.close id).unsubscribeAll id order)
    else none

/-- The list of a channel has the live connections that have joined it, each once, and is not
empty. -/
def Consistent (hub : Hub) : Prop :=
  ∀ channel, hub.subscribers channel ≠ some [] ∧ ((hub.subscribers channel).getD []).Nodup ∧
    ∀ id, id ∈ (hub.subscribers channel).getD [] ↔ hub.live id = true ∧ channel ∈ hub.joined id

/-- A message is written once to each live connection that has joined the channel, and their number
is the reply. -/
def Delivers (hub : Hub) : Prop :=
  ∀ channel message, ∃ ids : List Nat, ids.Nodup ∧
    (∀ id, id ∈ ids ↔ hub.live id = true ∧ channel ∈ hub.joined id) ∧
    (hub.publish [channel, message]).1 = .int ids.length ∧
    (hub.publish [channel, message]).2.written = hub.written ++ ids.map fun id =>
      (id, multiBulkBytes [some (lit "message"), some channel, some message])

def leaves (hub : Hub) : Event → Bool
  | .closeClient id _ => hub.subs id = ∅
  | _ => true

def Mirrored (hub : Hub) : Prop :=
  ∀ channel, hub.subscribers channel ≠ some [] ∧ ((hub.subscribers channel).getD []).Nodup ∧
    ∀ id, id ∈ (hub.subscribers channel).getD [] ↔ channel ∈ hub.subs id

def Beside (hub hub' : Hub) : Prop :=
  hub'.live = hub.live ∧ hub'.joined = hub.joined

variable {hub hub' : Hub}

theorem Mirrored.set {channel : Str} {id : Nat} {entry : Option (List Nat)} {channels : Finset Str}
    (mirrored : hub.Mirrored) (lists : hub'.subscribers = Function.update hub.subscribers channel entry)
    (subs : hub'.subs = Function.update hub.subs id channels) (some_ : entry ≠ some [])
    (distinct : (entry.getD []).Nodup)
    (here : ∀ other, other ∈ entry.getD [] ↔
      if other = id then channel ∈ channels else other ∈ (hub.subscribers channel).getD [])
    (elsewhere : ∀ other, other ≠ channel → (other ∈ channels ↔ other ∈ hub.subs id)) :
    hub'.Mirrored := by
  intro other
  rw [lists, subs]
  by_cases same : other = channel
  · subst same
    rw [Function.update_self]
    refine ⟨some_, distinct, fun reader => ?_⟩
    rw [here reader]
    by_cases isId : reader = id
    · simp [isId]
    · simp [isId, (mirrored other).2.2]
  · rw [Function.update_of_ne same]
    refine ⟨(mirrored other).1, (mirrored other).2.1, fun reader => ?_⟩
    rw [(mirrored other).2.2]
    by_cases isId : reader = id
    · simp [isId, elsewhere other same]
    · simp [isId]

variable {channel : Str} {id : Nat} {channels : List Str}

theorem subscribe0_spec (mirrored : hub.Mirrored) :
    (hub.subscribe0 channel id).2.Mirrored ∧ Beside hub (hub.subscribe0 channel id).2 ∧
      (hub.subscribe0 channel id).2.subs =
        Function.update hub.subs id (insert channel (hub.subs id)) := by
  have distinct := (mirrored channel).2.1
  have elsewhere : ∀ other, other ≠ channel →
      (other ∈ insert channel (hub.subs id) ↔ other ∈ hub.subs id) := by
    intro other differs
    simp [differs]
  unfold subscribe0
  by_cases member : id ∈ (hub.subscribers channel).getD []
  · rw [if_pos member]
    refine ⟨mirrored.set rfl rfl ?_ distinct (fun other => ?_) elsewhere, ⟨rfl, rfl⟩, rfl⟩
    · rintro none_
      rw [Option.some.inj none_] at member
      cases member
    · by_cases isId : other = id
      · simp [isId, member]
      · simp [isId]
  · rw [if_neg member]
    refine ⟨mirrored.set (Function.update_idem _ _ _) rfl (by simp) ?_ (fun other => ?_) elsewhere,
      ⟨rfl, rfl⟩, rfl⟩
    · rw [Option.getD_some, List.nodup_append]
      refine ⟨distinct, List.nodup_singleton _, fun other found last isId same => member ?_⟩
      rwa [← mem_singleton.mp isId, ← same]
    · by_cases isId : other = id
      · simp [isId]
      · simp [isId]

theorem unsubscribe0_spec (mirrored : hub.Mirrored) :
    (hub.unsubscribe0 channel id).2.Mirrored ∧ Beside hub (hub.unsubscribe0 channel id).2 ∧
      (hub.unsubscribe0 channel id).2.subs =
        Function.update hub.subs id ((hub.subs id).erase channel) := by
  have elsewhere : ∀ other, other ≠ channel →
      (other ∈ (hub.subs id).erase channel ↔ other ∈ hub.subs id) := by
    intro other differs
    simp [differs]
  unfold unsubscribe0
  dsimp only
  cases lists : hub.subscribers channel with
  | none =>
    have unchanged : hub.subscribers = Function.update hub.subscribers channel none := by
      rw [← lists, Function.update_eq_self]
    refine ⟨mirrored.set unchanged rfl (by simp) .nil (fun other => ?_) elsewhere, ⟨rfl, rfl⟩, rfl⟩
    simp [lists]
  | some list =>
    have distinct := (mirrored channel).2.1
    rw [lists] at distinct
    have entry : (if (list.filter (· ≠ id)).length = 0 then none
        else some (list.filter (· ≠ id))).getD [] = list.filter (· ≠ id) := by
      split
      · rename_i empty
        exact (List.length_eq_zero_iff.mp empty).symm
      · rfl
    refine ⟨mirrored.set rfl rfl ?_ ?_ (fun other => ?_) elsewhere, ⟨rfl, rfl⟩, rfl⟩
    · split
      · simp
      · rename_i some_
        simpa using some_
    · rw [entry]
      exact distinct.filter _
    · rw [entry, lists]
      by_cases isId : other = id
      · simp [isId]
      · simp [isId]

theorem foldl_spec {id : Nat} {body : Hub → Str → Hub} (change : Str → Finset Str → Finset Str)
    (each : ∀ (hub : Hub) channel, hub.Mirrored → (body hub channel).Mirrored ∧
      Beside hub (body hub channel) ∧
      (body hub channel).subs = Function.update hub.subs id (change channel (hub.subs id)))
    (mirrored : hub.Mirrored) :
    (channels.foldl body hub).Mirrored ∧ Beside hub (channels.foldl body hub) ∧
      (channels.foldl body hub).subs = Function.update hub.subs id
        (channels.foldl (fun subs channel => change channel subs) (hub.subs id)) := by
  induction channels generalizing hub with
  | nil => exact ⟨mirrored, ⟨rfl, rfl⟩, by simp⟩
  | cons channel rest ih =>
    obtain ⟨mirrored', beside, subs⟩ := each hub channel mirrored
    obtain ⟨mirrored'', beside', subs'⟩ := ih mirrored'
    refine ⟨mirrored'', ⟨beside'.1.trans beside.1, beside'.2.trans beside.2⟩, ?_⟩
    rw [foldl_cons, subs', subs, Function.update_idem, Function.update_self]
    rfl

theorem confirm_eq {kind : String} (result : Bool × Hub) :
    ∃ written, confirm kind id channel result = { result.2 with written := written } := by
  obtain ⟨_ | _, _⟩ := result
  · exact ⟨_, rfl⟩
  · exact ⟨_, rfl⟩

theorem subscribe_spec (mirrored : hub.Mirrored) :
    (hub.subscribe id channels).Mirrored ∧ Beside hub (hub.subscribe id channels) ∧
      (hub.subscribe id channels).subs =
        Function.update hub.subs id (hub.subs id ∪ channels.toFinset) := by
  have union : ∀ subs : Finset Str, channels.foldl (fun subs channel => insert channel subs) subs =
      subs ∪ channels.toFinset := by
    induction channels with
    | nil => simp
    | cons channel rest ih => simp [ih]
  rw [← union]
  refine foldl_spec insert (fun hub channel mirrored => ?_) mirrored
  obtain ⟨_, same⟩ := confirm_eq (hub.subscribe0 channel id)
  rw [same]
  exact subscribe0_spec mirrored

theorem unSubscribe_spec {args order : List Str} (mirrored : hub.Mirrored)
    (enumerated : hub.getChannels id order = true) :
    (hub.unSubscribe id args order).Mirrored ∧ Beside hub (hub.unSubscribe id args order) ∧
      (hub.unSubscribe id args order).subs =
        Function.update hub.subs id (if args = [] then ∅ else hub.subs id \ args.toFinset) := by
  have diff : ∀ (channels : List Str) (subs : Finset Str),
      channels.foldl (fun subs channel => subs.erase channel) subs = subs \ channels.toFinset := by
    intro channels
    induction channels with
    | nil => simp
    | cons channel rest ih =>
      simp [ih, Finset.sdiff_insert, Finset.erase_sdiff_comm]
  have left : (if args = [] then ∅ else hub.subs id \ args.toFinset) =
      hub.subs id \ (if args.length > 0 then args else order).toFinset := by
    cases args with
    | nil => simp [(of_decide_eq_true enumerated).2]
    | cons first rest => simp
  rw [left, ← diff]
  unfold unSubscribe
  generalize (if args.length > 0 then args else order) = channels
  dsimp only
  split
  · rename_i none_
    rw [List.length_eq_zero_iff.mp none_]
    exact ⟨mirrored, ⟨rfl, rfl⟩, by simp [write]⟩
  · refine foldl_spec (fun channel subs => subs.erase channel)
      (fun hub channel mirrored => ?_) mirrored
    obtain ⟨_, same⟩ := confirm_eq (hub.unsubscribe0 channel id)
    rw [same]
    exact unsubscribe0_spec mirrored

theorem foldl_write {ids : List Nat} {bytes : Str} : ids.foldl (fun hub id => hub.write id bytes) hub =
    { hub with written := hub.written ++ ids.map fun id => (id, bytes) } := by
  induction ids generalizing hub with
  | nil => simp
  | cons id rest ih =>
    rw [foldl_cons, ih]
    simp [write]

/-- The channels of a connection are those it has joined, as long as it is open. -/
def Kept (hub : Hub) : Prop :=
  hub.Mirrored ∧ ∀ id, hub.subs id = if hub.live id then hub.joined id else ∅

theorem Kept.set {id : Nat} {channels : Finset Str} (kept : hub.Kept) (live : hub.live id = true)
    (mirrored : hub'.Mirrored) (beside : Beside hub hub')
    (subs : hub'.subs = Function.update hub.subs id channels) :
    Kept { hub' with joined := Function.update hub.joined id channels } := by
  refine ⟨mirrored, fun other => ?_⟩
  simp only [beside.1, subs]
  by_cases isId : other = id
  · simp [isId, live]
  · simp [isId, kept.2]

theorem Kept.step {event : Event} (kept : hub.Kept) (okay : hub.leaves event = true)
    (taken : hub.step event = some hub') : hub'.Kept := by
  cases event with
  | newConn id =>
    simp only [Hub.step, Option.ite_none_left_eq_some, some.injEq] at taken
    obtain ⟨dead, rfl⟩ := taken
    refine ⟨kept.1, fun other => ?_⟩
    by_cases isId : other = id
    · subst isId
      simpa [dead] using kept.2 other
    · simpa [isId] using kept.2 other
  | subscribe id channels =>
    simp only [Hub.step, Option.ite_none_right_eq_some, some.injEq] at taken
    obtain ⟨live, rfl⟩ := taken
    obtain ⟨mirrored, beside, subs⟩ := subscribe_spec kept.1
    have here := kept.2 id
    rw [if_pos live] at here
    rw [here] at subs
    exact kept.set live mirrored beside subs
  | unSubscribe id args order =>
    simp only [Hub.step, Option.ite_none_right_eq_some, some.injEq] at taken
    obtain ⟨⟨live, enumerated⟩, rfl⟩ := taken
    obtain ⟨mirrored, beside, subs⟩ := unSubscribe_spec kept.1 enumerated
    have here := kept.2 id
    rw [if_pos live] at here
    rw [here] at subs
    exact kept.set live mirrored beside subs
  | publish args =>
    cases taken
    unfold Hub.publish
    split
    · split
      · exact kept
      · rw [foldl_write]
        exact kept
    · exact kept
  | closeClient id order =>
    simp only [Hub.step, Option.ite_none_right_eq_some, some.injEq] at taken
    obtain ⟨⟨_, enumerated⟩, rfl⟩ := taken
    have empty : order = [] := by
      simpa [close] using (of_decide_eq_true enumerated).2
    have unchanged : Function.update hub.subs id ∅ = hub.subs := by
      rw [← of_decide_eq_true okay, Function.update_eq_self]
    subst empty
    refine ⟨?_, fun other => ?_⟩
    · change Mirrored { hub with subs := _, live := _ }
      rw [unchanged]
      exact kept.1
    · by_cases isId : other = id
      · simp [isId, close, unsubscribeAll]
      · simpa [isId, close, unsubscribeAll] using kept.2 other

theorem Kept.mem_iff (kept : hub.Kept) (channel : Str) (id : Nat) :
    id ∈ (hub.subscribers channel).getD [] ↔ hub.live id = true ∧ channel ∈ hub.joined id := by
  rw [(kept.1 channel).2.2, kept.2]
  by_cases live : hub.live id = true
  · simp [live]
  · simp [live]

/-- If connections leave their channels before they are closed, the hub is consistent and delivers
every message to the connections that have joined the channel. -/
theorem consistent_of_runs (hub : Hub) (reached : Reached step (· = makeHub)
    (fun hub event => hub.leaves event = true) hub) : hub.Consistent ∧ hub.Delivers := by
  have kept : hub.Kept := by
    refine reached.invariant ?_ fun hub event hub' => Kept.step
    rintro _ rfl
    exact ⟨fun channel => ⟨by simp [makeHub], .nil, by simp [makeHub]⟩, fun id => rfl⟩
  refine ⟨fun channel => ⟨(kept.1 channel).1, (kept.1 channel).2.1, kept.mem_iff channel⟩,
    fun channel message => ⟨_, (kept.1 channel).2.1, kept.mem_iff channel, ?_⟩⟩
  unfold publish
  cases lists : hub.subscribers channel with
  | none => simp [lists]
  | some list => simp [lists, foldl_write]

theorem consistent_after_close :
    ∃ hub : Hub, hub.subscribers (lit "c") = some [1] ∧ hub.Consistent ∧ hub.Delivers := by
  have run : ∃ hub, runAllowed step (fun hub event => hub.leaves event = true) makeHub [.newConn 0,
      .newConn 1, .subscribe 0 [lit "c"], .subscribe 1 [lit "c"], .unSubscribe 0 [] [lit "c"],
      .closeClient 0 []] = some hub ∧ hub.subscribers (lit "c") = some [1] := ⟨_, rfl, rfl⟩
  obtain ⟨hub, run, list⟩ := run
  exact ⟨hub, list, consistent_of_runs hub (.of_run (.start rfl) run)⟩

/-- A subscribed connection is closed and its object opened for another client, which then gets the
messages of a channel it has not joined. -/
theorem messages_to_another_client :
    ∃ hub : Hub, [.newConn 0, .subscribe 0 [lit "c"], .closeClient 0 [], .newConn 0].foldlM step
        makeHub = some hub ∧
      hub.live 0 = true ∧ hub.joined 0 = ∅ ∧ hub.subscribers (lit "c") = some [0] ∧
      (hub.publish [lit "c", lit "m"]).1 = .int 1 ∧
      (hub.publish [lit "c", lit "m"]).2.written = hub.written ++
        [(0, multiBulkBytes [some (lit "message"), some (lit "c"), some (lit "m")])] :=
  ⟨_, rfl, rfl, rfl, rfl, rfl, rfl⟩

end Hub

end Godis.Pubsub
