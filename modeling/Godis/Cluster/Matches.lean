import Godis.Cluster.MGet
import Godis.Database.Undo

/-!
# Commands for several keys on a cluster and on a single server

A single server with the union of the contents is asked the same command.  In a transaction between
several nodes the undo lines are computed first, and that removes the keys that are past their
deadline.
-/

namespace Godis.Cluster

open Golang Program Database Dict Redis
open Function (update_of_ne update_self)

section Slots

variable {F : Type}

variable {first second : Slot F}

theorem Agrees.seen (same : Agrees first second) (now : Int) :
    first.seen now = second.seen now :=
  Slot.seen_congr same.1 same.2

theorem Agrees.trans {third : Slot F} (one : Agrees first second) (two : Agrees second third) :
    Agrees first third :=
  ⟨one.1.trans two.1, one.2.trans two.2⟩

theorem Agrees.opened (same : Agrees first second) (now : Int) :
    Agrees (first.opened now) (second.opened now) := by
  have sameExpired : first.expired now = second.expired now := by
    unfold Slot.expired
    rw [same.2]
  by_cases none_ : first.value = none
  · rwa [Slot.opened_of_none none_, Slot.opened_of_none (same.1 ▸ none_)]
  · by_cases expired : first.expired now = true
    · rw [Slot.opened_of_expired none_ expired,
        Slot.opened_of_expired (same.1 ▸ none_) (sameExpired ▸ expired)]
      exact ⟨rfl, rfl⟩
    · have live : first.Live now := Bool.eq_false_iff.mpr expired
      rwa [Slot.opened_of_live live, Slot.opened_of_live (sameExpired.symm.trans live)]

end Slots

/-! ## The nodes and the single server -/

/-- What can be seen of the nodes is what can be seen of a single server, each key being on its
owner. -/
structure Shows {F : Type} (setting : Setting F) (nodes : Nodes F) (whole : Space F) : Prop where
  owned : ∀ key id, setting.owner key = some id →
    (nodes id).db.seen setting.env.now key = whole.seen setting.env.now key
  elsewhere : ∀ key id, setting.owner key ≠ some id →
    (nodes id).db.seen setting.env.now key = none
  nowhere : ∀ key, setting.owner key = none → whole.seen setting.env.now key = none

section Refinement

variable {F : Type} [Float64 F] (cluster : Resting F) (fuel : Nat) (self : Str)

/-- The cluster replies to a command as a single server with the union of the contents, what can be
seen afterwards is the same, and all locks are released. -/
def MatchesUnion (line : Line) : Prop :=
  (exec cluster.setting (fuel + 2) self line cluster.nodes).1 =
      (execNormalCommand cluster.setting.env line cluster.whole).1.mapError Halt.ofStop ∧
    Shows cluster.setting (exec cluster.setting (fuel + 2) self line cluster.nodes).2
      (execNormalCommand cluster.setting.env line cluster.whole).2 ∧
    ∀ id index, ((exec cluster.setting (fuel + 2) self line cluster.nodes).2 id).shards index =
      .unlocked

structure Slotwise (keys : List Key) (effect : Key → Slot F → Slot F) : Prop where
  congr : ∀ key first second, Agrees first second → Agrees (effect key first) (effect key second)
  outside : ∀ key slot, key ∉ keys → effect key slot = slot

section Slotwise

variable {cluster} {keys : List Key} {effect : Key → Slot F → Slot F}
variable (slotwise : Slotwise keys effect) {whole : Space F}
variable (served : ∀ key, Agrees (whole.slots key) (effect key (cluster.whole.slots key)))

include slotwise served
omit [Float64 F]

theorem Slotwise.shows {nodes : Nodes F}
    (defined : ∀ key ∈ keys, cluster.setting.owner key ≠ none)
    (own : ∀ key id, cluster.setting.owner key = some id →
      Agrees ((nodes id).db.slots key) (effect key ((cluster.nodes id).db.slots key)))
    (others : ∀ key id, cluster.setting.owner key ≠ some id →
      Agrees ((nodes id).db.slots key) ((cluster.nodes id).db.slots key)) :
    Shows cluster.setting nodes whole := by
  refine ⟨fun key id owner => ?_, fun key id notOwner => ?_, fun key noOwner => ?_⟩
  · have here := (own key id owner).trans (slotwise.congr key _ _ (cluster.owned key id owner))
    exact (here.seen _).trans ((served key).seen _).symm
  · exact Slot.seen_of_none ((others key id notOwner).1.trans (cluster.elsewhere key id notOwner))
  · have same := (served key).1
    rw [slotwise.outside key _ fun member => defined key member noOwner] at same
    exact Slot.seen_of_none (same.trans (cluster.nowhere key noOwner))

theorem Slotwise.shows_one {id : Str} (owner : ∀ key ∈ keys, cluster.setting.owner key = some id)
    {node : Node F}
    (slots : ∀ key, Agrees (node.db.slots key) (effect key ((cluster.nodes id).db.slots key))) :
    Shows cluster.setting (Function.update cluster.nodes id node) whole := by
  have untouched : ∀ key other slot, cluster.setting.owner key = some other → other ≠ id →
      effect key slot = slot := fun key other slot isOwner different =>
    slotwise.outside key slot fun member =>
      different (Option.some.inj (isOwner.symm.trans (owner key member)))
  refine slotwise.shows served (fun key member => ?_) (fun key other isOwner => ?_)
    fun key other notOwner => ?_
  · rw [owner key member]
    exact Option.some_ne_none id
  · by_cases same : other = id
    · subst same
      rw [update_self]
      exact slots key
    · rw [update_of_ne same, untouched key other _ isOwner same]
      exact ⟨rfl, rfl⟩
  · by_cases same : other = id
    · subst same
      have here := slots key
      rw [slotwise.outside key _ fun member => notOwner (owner key member)] at here
      rwa [update_self]
    · rw [update_of_ne same]
      exact ⟨rfl, rfl⟩

theorem Slotwise.shows_many (defined : ∀ key ∈ keys, cluster.setting.owner key ≠ none)
    {routes : RouteMap} (of : RoutesOf cluster.setting keys routes) {after : Nodes F}
    (own : ∀ id ∈ routes.map Prod.fst, ∀ key, cluster.setting.owner key = some id →
      Agrees ((after id).db.slots key) (effect key ((cluster.nodes id).db.slots key)))
    (others : ∀ id ∈ routes.map Prod.fst, ∀ key, cluster.setting.owner key ≠ some id →
      Agrees ((after id).db.slots key) ((cluster.nodes id).db.slots key)) :
    Shows cluster.setting (advance (routes.map Prod.fst) after cluster.nodes) whole := by
  refine slotwise.shows served defined (fun key id isOwner => ?_) fun key id notOwner => ?_
  · rw [advance]
    split
    · rename_i routed
      exact own id routed key isOwner
    · rename_i aside
      rw [slotwise.outside key _ fun member => aside (of.mem_names_iff.mpr ⟨key, member, isOwner⟩)]
      exact ⟨rfl, rfl⟩
  · rw [advance]
    split
    · rename_i routed
      exact others id routed key notOwner
    · exact ⟨rfl, rfl⟩

end Slotwise

omit [Float64 F] in
theorem Resting.unlocked_update {id : Str} {node : Node F}
    (shards : node.shards = (cluster.nodes id).shards) (other : Str) (index : Nat) :
    (Function.update cluster.nodes id node other).shards index = .unlocked := by
  by_cases same : other = id
  · subst same
    rw [update_self, shards]
    exact cluster.unlocked other index
  · rw [update_of_ne same]
    exact cluster.unlocked other index

omit [Float64 F] in
theorem Resting.unlocked_advance {names : List Str} {after : Nodes F}
    (shards : ∀ id ∈ names, (after id).shards = (cluster.nodes id).shards) (id : Str) (index : Nat) :
    (advance names after cluster.nodes id).shards index = .unlocked := by
  rw [advance]
  split
  · rename_i routed
    rw [shards id routed]
    exact cluster.unlocked id index
  · exact cluster.unlocked id index

omit [Float64 F] in
theorem Resting.shows : Shows cluster.setting cluster.nodes cluster.whole :=
  ⟨fun key id owner => (cluster.owned key id owner).seen _,
    fun key id notOwner => Slot.seen_of_none (cluster.elsewhere key id notOwner),
    fun key noOwner => Slot.seen_of_none (cluster.nowhere key noOwner)⟩

theorem exec_of_name {setting : Setting F} {head : Str} {name : String} {func : CmdFunc}
    (named : toLower (str (some head)) = lit name)
    (inTable : notInTable.any (fun candidate => lit candidate = lit name) = false)
    (isFunc : CmdFunc.ofName (lit name) = some func) (args : List Bytes) (nodes : Nodes F) :
    exec setting (fuel + 2) self (some head :: args) nodes =
      recovered (func.run setting self (relayWith (exec setting (fuel + 1)) self) (some head) args
        nodes) := by
  rw [exec, named, inTable, isFunc]
  rfl

def Stale (now : Int) (slot : Slot F) : Prop :=
  slot.value ≠ none ∧ slot.expired now = true

variable {now : Int} {reply : Reply}

omit [Float64 F] in
theorem opened_of_not_stale {slot : Slot F} (fresh : ¬ Stale now slot) :
    slot.opened now = slot := by
  by_cases none_ : slot.value = none
  · exact Slot.opened_of_none none_
  · exact Slot.opened_of_live (Bool.eq_false_iff.mpr fun expired => fresh ⟨none_, expired⟩)

omit [Float64 F] in
theorem stale_of_agrees {first second : Slot F} (same : Agrees first second)
    (stale : Stale now first) : Stale now second := by
  have sameExpired : first.expired now = second.expired now := by
    unfold Slot.expired
    rw [same.2]
  exact ⟨same.1 ▸ stale.1, sameExpired ▸ stale.2⟩

/-- The key is not seen to hold a sorted set without members, which cannot be dumped. -/
def Resting.Dumps (key : Key) : Prop :=
  ∀ value deadline, cluster.whole.seen cluster.setting.env.now key = some (value, deadline) →
    value.Dumpable

/-- A line of a transaction for some keys of a node, which are those its undo lines recreate. -/
structure Part (id : Str) (keys : List Key) (head : Bytes) (args : List Bytes) : Prop where
  owner : ∀ key ∈ keys, cluster.setting.owner key = some id
  full : none ∉ head :: args
  sized : Sized (toCmdLine "prepare" (some cluster.setting.txId :: head :: args))
  related : ∃ locked, getRelatedKeys F (head :: args) = some locked
  undo : getUndoLogs cluster.setting.env (head :: args) =
    (lookup (rollbackGivenKeys keys)).run (dbHandle cluster.setting.env)
  plain : ∀ reached, prepareFunc cluster.setting.env cluster.setting.spread (toLower (str head)) args
    reached = (.ok .ok, reached)

section Part

variable {cluster} {id : Str} {keys : List Key} {head : Bytes} {args : List Bytes}
variable (part : Part cluster id keys head args)

include part

variable {key : Key}

theorem Part.seen (member : key ∈ keys) :
    (cluster.nodes id).db.seen cluster.setting.env.now key =
      cluster.whole.seen cluster.setting.env.now key :=
  (cluster.owned key id (part.owner key member)).seen _

theorem Part.answers (dumps : ∀ key ∈ keys, cluster.Dumps key) :
    ∃ prepared : Space F,
      (∀ key, prepared.slots key =
        if key ∈ keys then ((cluster.nodes id).db.slots key).opened cluster.setting.env.now
        else (cluster.nodes id).db.slots key) ∧
      ∀ resp committed, (Database.exec (head :: args)).run (dbHandle cluster.setting.env) prepared =
          (.ok resp, committed) →
        Transacts (relayWith (exec cluster.setting (fuel + 1)) self) cluster.setting id
          (head :: args) (cluster.nodes id) (heard self id resp) fun after =>
            after.db = committed ∧ after.shards = (cluster.nodes id).shards := by
  obtain ⟨prepared, run, slots⟩ := run_rollbackGivenKeys cluster.setting.env keys
    (cluster.nodes id).db fun key member value deadline there =>
      dumps key member value deadline ((part.seen member).symm.trans there)
  obtain ⟨_, related⟩ := part.related
  rw [← part.undo] at run
  exact ⟨prepared, slots, fun _ _ executed =>
    cluster.answers_tcc fuel self id part.full part.sized related run part.plain executed⟩

theorem Part.refused (member : key ∈ keys) (bad : ¬ cluster.Dumps key) :
    Prepares (relayWith (exec cluster.setting (fuel + 1)) self) cluster.setting id (head :: args)
      (cluster.nodes id) (.err "Err unknown") := by
  simp only [Resting.Dumps, not_forall] at bad
  obtain ⟨_, _, there, notDumpable⟩ := bad
  obtain ⟨_, run⟩ := run_rollbackGivenKeys_panics cluster.setting.env keys (cluster.nodes id).db
    member ((part.seen member).trans there) notDumpable
  obtain ⟨_, related⟩ := part.related
  rw [← part.undo] at run
  exact cluster.answers_refused fuel self id part.full part.sized related run

end Part

theorem not_matches_of_errors {line : Line} {whole : Space F} {ended : Except Halt Reply × Nodes F}
    (served : execNormalCommand cluster.setting.env line cluster.whole = (.ok reply, whole))
    (noError : ∀ text, reply ≠ .error text)
    (run : exec cluster.setting (fuel + 2) self line cluster.nodes = recovered ended)
    (errors : ∀ told, ended.1 = .ok told → ∃ text, told = .error text) :
    ¬ MatchesUnion cluster fuel self line := by
  rw [MatchesUnion, served, run]
  rintro ⟨same, -, -⟩
  obtain ⟨halt | told, _⟩ := ended
  · cases halt with
    | panic => exact noError _ (Except.ok.inj same).symm
    | _ => cases same
  · obtain ⟨text, isError⟩ := errors told rfl
    exact noError text ((Except.ok.inj same).symm.trans isError)

/-- All slots are defined, and if several nodes own the keys, then none of them is stored past its
deadline or holds a sorted set without members. -/
def Undisturbed (keys : List Key) : Prop :=
  (∀ key ∈ keys, cluster.setting.owner key ≠ none) ∧
    (OnOneNode cluster.setting keys ∨
      ∀ key ∈ keys, ¬ Stale cluster.setting.env.now (cluster.whole.slots key) ∧ cluster.Dumps key)

section Several

variable {keys : List Key} {line : Line} {reply : Reply} {whole : Space F} {message : String}
variable {lineOf : List Key → Line} {args : List Bytes}
variable {finish : List (Str × Line) → List (Str × Reply) → Except Halt Reply}

variable
    (parts : ∀ id, ownedBy cluster.setting id keys ≠ [] → ∃ head args,
      lineOf (ownedBy cluster.setting id keys) = head :: args ∧
      Part cluster id (ownedBy cluster.setting id keys) head args)
    (fine : ∀ id, ownedBy cluster.setting id keys ≠ [] →
      (∀ key ∈ ownedBy cluster.setting id keys, cluster.Dumps key) →
        Prepares (relayWith (exec cluster.setting (fuel + 1)) self) cluster.setting id
          (lineOf (ownedBy cluster.setting id keys)) (cluster.nodes id) .ok)

include parts fine

open Classical in
theorem refused_of_not_dumps
    (defined : ∀ key ∈ keys, cluster.setting.owner key ≠ none)
    (several : ¬ OnOneNode cluster.setting keys)
    {key : Key}
    (member : key ∈ keys) (bad : ¬ cluster.Dumps key)
    (ended : (execSeveral cluster.setting (relayWith (exec cluster.setting (fuel + 1)) self) keys
      message lineOf finish args cluster.nodes).1 = .ok reply) :
    ∃ text, reply = .error text := by
  obtain ⟨_, owner⟩ := Option.ne_none_iff_exists'.mp (defined key member)
  have isOwned := mem_ownedBy.mpr ⟨member, owner⟩
  have told : ∀ id, ownedBy cluster.setting id keys ≠ [] →
      Prepares (relayWith (exec cluster.setting (fuel + 1)) self) cluster.setting id
        (lineOf (ownedBy cluster.setting id keys)) (cluster.nodes id)
        (if ∀ key ∈ ownedBy cluster.setting id keys, cluster.Dumps key then .ok
        else .err "Err unknown") := by
    intro id asked
    split
    · rename_i dumps
      exact fine id asked dumps
    · rename_i some_
      simp only [not_forall] at some_
      obtain ⟨_, inside, notDumps⟩ := some_
      obtain ⟨_, _, isLine, part⟩ := parts id asked
      rw [isLine]
      exact part.refused fuel self inside notDumps
  refine execSeveral_refused defined several told (List.ne_nil_of_mem isOwned) ?_ ended
  rw [if_neg fun dumps => bad (dumps key isOwned)]
  exact Option.some_ne_none _

/-- A command for several keys that matches on one node, and on several ones if none of the keys is
stale. -/
theorem several_matches_iff
    (served : execNormalCommand cluster.setting.env line cluster.whole = (.ok reply, whole))
    (noError : ∀ text, reply ≠ .error text)
    (run : exec cluster.setting (fuel + 2) self line cluster.nodes =
      recovered (execSeveral cluster.setting (relayWith (exec cluster.setting (fuel + 1)) self)
        keys message lineOf finish args cluster.nodes))
    (one : ∀ id, (∀ key ∈ keys, cluster.setting.owner key = some id) →
      MatchesUnion cluster fuel self line)
    (many : (∀ key ∈ keys, cluster.Dumps key) → (∀ key ∈ keys, cluster.setting.owner key ≠ none) →
      ¬ OnOneNode cluster.setting keys → (MatchesUnion cluster fuel self line ↔
        ∀ key ∈ keys, ¬ Stale cluster.setting.env.now (cluster.whole.slots key))) :
    MatchesUnion cluster fuel self line ↔ Undisturbed cluster keys := by
  by_cases defined : ∀ key ∈ keys, cluster.setting.owner key ≠ none
  · by_cases onOne : OnOneNode cluster.setting keys
    · obtain ⟨id, owner⟩ := onOne
      exact iff_of_true (one id owner) ⟨defined, Or.inl ⟨id, owner⟩⟩
    · by_cases dumps : ∀ key ∈ keys, cluster.Dumps key
      · rw [many dumps defined onOne, Undisturbed, and_iff_right defined, or_iff_right onOne]
        exact ⟨fun fresh key member => ⟨fresh key member, dumps key member⟩,
          fun both key member => (both key member).1⟩
      · refine iff_of_false ?_ fun undisturbed =>
          dumps fun key member => (undisturbed.2.resolve_left onOne key member).2
        simp only [not_forall] at dumps
        obtain ⟨_, member, bad⟩ := dumps
        exact not_matches_of_errors cluster fuel self served noError run fun told isTold =>
          refused_of_not_dumps cluster fuel self parts fine defined onOne member bad isTold
  · refine iff_of_false ?_ fun undisturbed => defined undisturbed.1
    have undefined : ∃ key ∈ keys, cluster.setting.owner key = none := by simpa using defined
    refine not_matches_of_errors cluster fuel self served noError run fun told isTold => ?_
    rw [execSeveral_undefined undefined] at isTold
    cases isTold

end Several

end Refinement

end Godis.Cluster
