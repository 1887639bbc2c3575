import Godis.Database.DeclaredKeys
import Godis.Database.Expired
import Godis.Transition.Reached

/-!
# Clients with keys of their own

A command neither changes nor depends on the keys that it does not declare, so a client whose keys no
other one declares cannot tell whether it is alone, as long as no object is held by keys of two
clients.
-/

namespace Godis.Database

open Golang Program List Transition

variable {F : Type} [Float64 F]

variable (F) in
/-- The line is a command that neither goes over the whole dictionary nor executes a payload, and
the keys it declares are of the kind. -/
def Declares (kind : Key → Prop) (line : Line) : Prop :=
  ∃ head args name prepare, line = head :: args ∧ commandOf (head :: args) = some name ∧
    (command (F := F) name).prepare = some prepare ∧
    validateArity (command (F := F) name).arity (head :: args) = true ∧
    name.surveys = false ∧ name.loads = false ∧ ∀ key ∈ (prepare args).1 ++ (prepare args).2, kind key

omit [Float64 F] in
theorem Space.addVersion_slots_ne {space : Space F} {keys : List Key} {key : Key}
    (outside : key ∉ keys) : (space.addVersion keys).slots key = space.slots key := by
  induction keys generalizing space with
  | nil => rfl
  | cons first rest ih =>
    obtain ⟨notFirst, notRest⟩ := not_or.mp (mt mem_cons.mpr outside)
    exact (ih notRest).trans (Function.update_of_ne notFirst _ _)

section Commands

variable {kind : Key → Prop} {line : Line} (keyed : Declares F kind line) (env : Env F)

include keyed

theorem Declares.others {key : Key} (foreign : ¬ kind key) (space : Space F) :
    (execNormalCommand env line space).2.slots key = space.slots key := by
  obtain ⟨head, args, _, _, rfl, found, prepared, counted, noSurvey, noLoad, declared⟩ := keyed
  have outside := mt (declared key) foreign
  have apart := apart_of_within (touches_command (execWithLock (lineSize (head :: args))) noSurvey
    noLoad prepared args) (by rwa [append_nil])
  rw [execNormalCommand_eq env space found prepared counted]
  refine apart.run_preserves (fun after : Space F => after.slots key = space.slots key)
    (fun op after apart same => (slots_of_apart apart).trans same) ?_
  exact Space.addVersion_slots_ne fun member => outside (mem_append_left _ member)

theorem Declares.own {space other : Space F}
    (same : ∀ key, kind key → space.slots key = other.slots key) :
    (execNormalCommand env line space).1 = (execNormalCommand env line other).1 ∧
      ∀ key, kind key → (execNormalCommand env line space).2.slots key =
        (execNormalCommand env line other).2.slots key := by
  obtain ⟨head, args, _, prepare, rfl, found, prepared, counted, noSurvey, noLoad, declared⟩ := keyed
  rw [execNormalCommand_eq env space found prepared counted,
    execNormalCommand_eq env other found prepared counted]
  obtain ⟨reply, agree⟩ := (touches_command (execWithLock (lineSize (head :: args))) noSurvey noLoad
    prepared args).run_related (Space.Agree kind space other)
      (fun _ _ _ within => agree_of_within env within (by rwa [append_nil]))
      (agree_addVersion same (prepare args).1)
  exact ⟨reply, agree.slots⟩

end Commands

/-! ## Databases whose keys may hold one object -/

/-- The databases hold the same at the keys of the client, and the same of these hold one object. -/
structure SameFor {Client : Type} (owner : Key → Client) (client : Client) (held other : Held F) :
    Prop where
  slots : ∀ key, owner key = client → held.space.slots key = other.space.slots key
  shares : ∀ first, owner first = client → ∀ second, owner second = client →
    held.shares first second = other.shares first second

section Sharing

variable {Client : Type} {owner : Key → Client} {client : Client} {line : Line} {held other : Held F}
  (keyed : Declares F (fun key => owner key = client) line) (env : Env F) (room : Key → Bool)

include keyed

theorem Declares.held_others (apart : held.Apart owner) :
    (held.execNormalCommand env room line).2.Apart owner ∧
      ∀ other ≠ client, SameFor owner other (held.execNormalCommand env room line).2 held := by
  obtain ⟨head, args, _, prepare, rfl, found, prepared, counted, noSurvey, noLoad, declared⟩ := keyed
  have uses := touches_command (execWithLock (lineSize (head :: args))) noSurvey noLoad prepared args
  have one : ∀ first ∈ (prepare args).1 ++ (prepare args).2,
      ∀ second ∈ (prepare args).1 ++ (prepare args).2, owner first = owner second :=
    fun first isFirst second isSecond => (declared first isFirst).trans (declared second isSecond).symm
  rw [Held.execNormalCommand_eq found prepared counted]
  have apart' : Held.Apart { held with space := held.space.addVersion (prepare args).1 } owner := apart
  refine ⟨apart'.run uses one, fun other foreign => ?_⟩
  have outside {key : Key} (isOther : owner key = other) : key ∉ (prepare args).1 ++ (prepare args).2 :=
    fun member => foreign (isOther.symm.trans (declared key member))
  refine ⟨fun key isOther => ?_, fun first isFirst second isSecond => ?_⟩
  · refine apart'.run_outside uses one (fun own isOwn => ?_) (· = held.space.slots key)
      (fun op space within same => ?_) ?_
    · rw [declared own isOwn, isOther]
      exact foreign.symm
    · exact (slots_of_apart (within.apart (by rw [append_nil]; exact outside isOther))).trans same
    · exact Space.addVersion_slots_ne fun member => outside isOther (mem_append_left _ member)
  · exact uses.run_preserves (fun after : Held F => after.shares first second = held.shares first second)
      (fun op after within => (Held.shares_handle within (outside isFirst) (outside isSecond)).trans) rfl

theorem Declares.held_own (same : SameFor owner client held other) :
    (held.execNormalCommand env room line).1 = (other.execNormalCommand env room line).1 ∧
      SameFor owner client (held.execNormalCommand env room line).2
        (other.execNormalCommand env room line).2 := by
  obtain ⟨head, args, _, prepare, rfl, found, prepared, counted, noSurvey, noLoad, declared⟩ := keyed
  rw [Held.execNormalCommand_eq found prepared counted, Held.execNormalCommand_eq found prepared counted]
  have start : Held.Agree (fun key => owner key = client) held.space other.space
      ⟨held.space.addVersion (prepare args).1, held.shares⟩
      ⟨other.space.addVersion (prepare args).1, other.shares⟩ :=
    ⟨agree_addVersion same.slots _, same.shares⟩
  obtain ⟨reply, agree⟩ := Held.agree_of_uses_within (touches_command _ noSurvey noLoad prepared args)
    (by rwa [append_nil]) start
  exact ⟨reply, agree.space.slots, agree.shares⟩

end Sharing

/-- A call of a client; `room` tells which keys' arrays `append` finds room in. -/
structure ClientCall (Client F : Type) where
  client : Client
  call : Call F
  room : Key → Bool

variable {Client : Type} [DecidableEq Client]

/-- The reply to a request, and the database afterwards. -/
def serve (request : ClientCall Client F) (held : Held F) : (Client × Except Stop Reply) × Held F :=
  let ended := held.execNormalCommand request.call.env request.room request.call.line
  ((request.client, ended.1), ended.2)

/-- If no client declares a key of another, and no object is held by keys of two clients, each client
gets the replies that it gets alone, and its keys hold what they hold then, whatever stands at the
other keys. -/
theorem clients_with_own_keys_apart (owner : Key → Client) (history : List (ClientCall Client F))
    (keyed : ∀ request ∈ history, Declares F (fun key => owner key = request.client) request.call.line)
    (client : Client) {held other : Held F} (apart : held.Apart owner)
    (same : SameFor owner client held other) :
    let together := inTurn serve history held
    let alone := inTurn serve (history.filter fun request => request.client = client) other
    together.1.filter (fun reply => reply.1 = client) = alone.1 ∧
      SameFor owner client together.2 alone.2 := by
  induction history generalizing held other with
  | nil => exact ⟨rfl, same⟩
  | cons request rest ih =>
    obtain ⟨here, later⟩ := forall_mem_cons.mp keyed
    obtain ⟨stillApart, others⟩ := here.held_others request.call.env request.room apart
    by_cases isClient : request.client = client
    · subst isClient
      obtain ⟨reply, same'⟩ := here.held_own request.call.env request.room same
      obtain ⟨replies, final⟩ := ih later stillApart same'
      simp only [filter_cons, decide_true, if_true, inTurn, serve]
      exact ⟨congrArg₂ _ (by rw [reply]) replies, final⟩
    · simp only [filter_cons, inTurn, serve, isClient, decide_false, Bool.false_eq_true, if_false]
      obtain ⟨slots, shares⟩ := others client (Ne.symm isClient)
      exact ih later stillApart ⟨fun key isOwn => (slots key isOwn).trans (same.slots key isOwn),
        fun first isOwn second isOwn' =>
          (shares first isOwn second isOwn').trans (same.shares first isOwn second isOwn')⟩

/-- The client that owns `a` gets the replies it gets without the one that sets `k`. -/
theorem sadd_apart_from_set :
    let mine : ClientCall Bool Digit :=
      ⟨true, ⟨Env.plain 0, [some (lit "SADD"), some (lit "a"), some (lit "y")]⟩, fun _ => true⟩
    let foreign : ClientCall Bool Digit :=
      ⟨false, ⟨Env.plain 0, [some (lit "SET"), some (lit "k"), some (lit "w")]⟩, fun _ => true⟩
    (inTurn serve [mine, foreign, mine] setAndString).1.filter (fun reply => reply.1 = true) =
      [(true, .ok (.int 1)), (true, .ok (.int 0))] := by
  intro mine foreign
  have keyed : Declares Digit (fun key => decide (key = lit "a") = true) mine.call.line :=
    ⟨_, _, .sadd, _, rfl, by decide, rfl, by decide, rfl, rfl, by decide⟩
  have keyed' : Declares Digit (fun key => decide (key = lit "a") = false) foreign.call.line :=
    ⟨_, _, .set, _, rfl, by decide, rfl, by decide, rfl, rfl, by decide⟩
  exact (clients_with_own_keys_apart (fun key => decide (key = lit "a")) [mine, foreign, mine]
    (forall_mem_cons.mpr ⟨keyed, forall_mem_cons.mpr ⟨keyed', forall_mem_singleton.mpr keyed⟩⟩)
    true (fun _ _ _ => rfl) ⟨fun _ _ => rfl, fun _ _ _ _ => rfl⟩).1.trans rfl

end Godis.Database
