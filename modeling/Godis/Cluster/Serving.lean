import Godis.Cluster.MGet
import Godis.Database.Isolation
import Godis.Transition.Reached

/-!
# Commands for the keys of one node

Sent to any node, such a command ends like on a single server with the union of the contents.
-/

namespace Godis.Cluster

open Golang Program Database Transition List

variable {F : Type} [Float64 F] {setting : Setting F}

omit [Float64 F] in
/-- Every node holds what a single server holds of the keys it owns, and no lock is held. -/
structure Mirrors (setting : Setting F) (nodes : Nodes F) (whole : Space F) : Prop where
  owned : ∀ key id, setting.owner key = some id → (nodes id).db.slots key = whole.slots key
  unlocked : ∀ id index, (nodes id).shards index = .unlocked

/-- A command that `DefaultFunc` is registered for, which declares keys of the owner of its first
argument only, and of a length that can be sent. -/
structure Routable (setting : Setting F) (id : Str) (head first : Bytes) (args : List Bytes) : Prop where
  isDefault : CmdFunc.ofName (toLower (str head)) = some .default
  owner : setting.owner (str first) = some id
  keyed : Declares F (fun key => setting.owner key = some id) (head :: first :: args)
  full : none ∉ head :: first :: args
  sized : Sized (head :: first :: args)

variable {id : Str} {head first : Bytes} {args : List Bytes} (routable : Routable setting id head first args)

include routable

theorem Routable.exec_eq (self : Str) (fuel : Nat) {nodes : Nodes F} {reply : Reply} {db : Space F}
    (unlocked : ∀ index, (nodes id).shards index = .unlocked)
    (executed : execNormalCommand setting.env (head :: first :: args) (nodes id).db = (.ok reply, db)) :
    exec setting (fuel + 2) self (head :: first :: args) nodes =
      (.ok (heard self id reply), Function.update nodes id { nodes id with db := db }) := by
  have inTable : notInTable.any (fun candidate => lit candidate = toLower (str head)) = false := by
    have aside : ∀ candidate ∈ notInTable, CmdFunc.ofName (lit candidate) ≠ some .default := by decide
    by_contra found
    obtain ⟨candidate, listed, isName⟩ := List.any_eq_true.mp (Bool.of_not_eq_false found)
    apply aside candidate listed
    rw [of_decide_eq_true isName]
    exact routable.isDefault
  have runs : ∀ relay nodes, CmdFunc.run setting id relay head (first :: args) nodes .default =
      atNode id (localExec setting.env setting.spread (head :: first :: args)) nodes := by
    intro relay nodes
    simp only [CmdFunc.run, defaultFunc, routable.owner, if_true]
  have ended := congrArg recovered (localExec_eq setting.env setting.spread unlocked executed)
  by_cases isSelf : id = self
  · subst isSelf
    rw [heard, if_pos rfl]
    exact exec_message setting (fuel + 1) id inTable routable.isDefault runs ended rfl
  · have answers := answers_message setting fuel self id .default inTable routable.isDefault runs
      routable.full routable.sized ended nodes rfl
    rw [exec]
    simp only [inTable, Bool.false_eq_true, if_false, routable.isDefault, CmdFunc.run, defaultFunc,
      routable.owner, if_neg isSelf]
    rw [answers]
    rfl

theorem Mirrors.step {nodes : Nodes F} {whole after : Space F} (mirrors : Mirrors setting nodes whole)
    {reply : Reply} (served : execNormalCommand setting.env (head :: first :: args) whole = (.ok reply, after))
    (self : Str) (fuel : Nat) :
    ∃ nodes', exec setting (fuel + 2) self (head :: first :: args) nodes =
      (.ok (heard self id reply), nodes') ∧ Mirrors setting nodes' after := by
  obtain ⟨sameReply, sameSlots⟩ := routable.keyed.own setting.env fun key => mirrors.owned key id
  rw [served] at sameReply sameSlots
  have executed : execNormalCommand setting.env (head :: first :: args) (nodes id).db =
      (.ok reply, (execNormalCommand setting.env (head :: first :: args) (nodes id).db).2) :=
    Prod.ext sameReply rfl
  refine ⟨_, routable.exec_eq self fuel (mirrors.unlocked id) executed, ?_, fun other index => ?_⟩
  · intro key other owner
    by_cases isId : other = id
    · subst isId
      rw [Function.update_self]
      exact sameSlots key owner
    · have foreign : ¬ setting.owner key = some id := fun isOwner =>
        isId (Option.some.inj (owner.symm.trans isOwner))
      have kept := routable.keyed.others setting.env foreign whole
      rw [served] at kept
      rw [Function.update_of_ne isId, kept]
      exact mirrors.owned key other owner
  · rw [Function.update_apply]
    split
    · exact mirrors.unlocked id index
    · exact mirrors.unlocked other index

omit routable

omit [Float64 F] in
/-- The node that `DefaultFunc` hands a command line to. -/
def Setting.ownerOf (setting : Setting F) : Line → Str
  | _ :: first :: _ => (setting.owner (str first)).getD []
  | _ => []

/-- A request that a node gets, with the clock and the random choices of that time. -/
structure Arrival (F : Type) where
  env : Env F
  node : Str
  line : Line

omit [Float64 F] in
def Setting.during (setting : Setting F) (arrival : Arrival F) : Setting F :=
  { setting with env := arrival.env }

/-- A cluster replies to the commands sent to any of its nodes what a single server does, as far as
replies survive the connections between nodes, and its nodes hold what that server holds. -/
theorem cluster_serves_like_one_server (fuel : Nat) (requests : List (Arrival F))
    (routable : ∀ request ∈ requests, ∃ id head first args, request.line = head :: first :: args ∧
      Routable setting id head first args) {nodes : Nodes F} {whole : Space F}
    (mirrors : Mirrors setting nodes whole) :
    let cluster := inTurn (fun request =>
      exec (setting.during request) (fuel + 2) request.node request.line) requests nodes
    let server := inTurn (fun request => execNormalCommand request.env request.line) requests whole
    (∀ ended ∈ server.1, ∃ reply, ended = .ok reply) →
      cluster.1 = List.zipWith (fun request ended => (ended.mapError Halt.ofStop).map
          (heard request.node (setting.ownerOf request.line))) requests server.1 ∧
        Mirrors setting cluster.2 server.2 := by
  induction requests generalizing nodes whole with
  | nil => exact fun _ => ⟨rfl, mirrors⟩
  | cons request rest ih =>
    obtain ⟨env, self, _⟩ := request
    obtain ⟨⟨id, head, first, args, rfl, here⟩, later⟩ := forall_mem_cons.mp routable
    intro cluster server replied
    obtain ⟨⟨reply, isReply⟩, more⟩ := forall_mem_cons.mp replied
    -- where a key belongs does not depend on the time
    have now : Routable (setting.during ⟨env, self, head :: first :: args⟩) id head first args :=
      ⟨here.isDefault, here.owner, here.keyed, here.full, here.sized⟩
    have mirrored : Mirrors (setting.during ⟨env, self, head :: first :: args⟩) nodes whole :=
      ⟨mirrors.owned, mirrors.unlocked⟩
    obtain ⟨_, done, mirrors'⟩ := mirrored.step now (Prod.ext isReply rfl) self fuel
    obtain ⟨told, last⟩ := ih later ⟨mirrors'.owned, mirrors'.unlocked⟩ more
    have owned : setting.ownerOf (head :: first :: args) = id := by
      rw [Setting.ownerOf, here.owner]
      rfl
    simp only [cluster, server, inTurn, done, List.zipWith_cons_cons, isReply, owned]
    exact ⟨congrArg _ told, last⟩

/-- A key of the node `a` is set through the node `b`, and is gone there after its deadline. -/
theorem set_and_get_elsewhere :
    (inTurn (fun request => exec (emptyCluster.setting.during request) 2 request.node request.line)
      [⟨Env.plain 0, lit "b", [some (lit "SET"), some (lit "x"), some (lit "v"), some (lit "PX"),
          some (lit "1")]⟩,
        ⟨Env.plain 500000, lit "b", [some (lit "GET"), some (lit "x")]⟩,
        ⟨Env.plain 2000000, lit "a", [some (lit "GET"), some (lit "x")]⟩] emptyCluster.nodes).1 =
      [.ok .ok, .ok (.bulk (some (lit "v"))), .ok .nullBulk] := by
  have set : Routable emptyCluster.setting (lit "a") (some (lit "SET")) (some (lit "x"))
      [some (lit "v"), some (lit "PX"), some (lit "1")] :=
    ⟨by decide, by decide, ⟨_, _, .set, _, rfl, by decide, rfl, by decide, rfl, rfl, by decide⟩,
      by decide, by decide, by decide⟩
  have get : Routable emptyCluster.setting (lit "a") (some (lit "GET")) (some (lit "x")) [] :=
    ⟨by decide, by decide, ⟨_, _, .get, _, rfl, by decide, rfl, by decide, rfl, rfl, by decide⟩,
      by decide, by decide, by decide⟩
  have mirrors : Mirrors emptyCluster.setting emptyCluster.nodes emptyCluster.whole :=
    ⟨fun _ _ _ => rfl, fun _ _ => rfl⟩
  exact (cluster_serves_like_one_server 0 _ (forall_mem_cons.mpr ⟨⟨_, _, _, _, rfl, set⟩,
    forall_mem_cons.mpr ⟨⟨_, _, _, _, rfl, get⟩, List.forall_mem_singleton.mpr ⟨_, _, _, _, rfl, get⟩⟩⟩)
    mirrors (forall_mem_cons.mpr ⟨⟨.ok, rfl⟩, forall_mem_cons.mpr ⟨⟨.bulk (some (lit "v")), rfl⟩,
      List.forall_mem_singleton.mpr ⟨.nullBulk, rfl⟩⟩⟩)).1.trans rfl

end Godis.Cluster
