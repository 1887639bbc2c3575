import Godis.Cluster.Dispatch

/-!
# Rounds of messages

The nodes of a command with their keys, a message to one node, and the messages of a transaction
when every node prepares and commits it.
-/

namespace Godis.Cluster

open Golang Program Database Dict Redis List
open Prog (andThen_ok)

/-! ## Routes -/

variable {β : Type}

theorem lookup_cons_ite {name other : Str} {value : β} (rest : List (Str × β)) :
    ((other, value) :: rest).lookup name = if name = other then some value else rest.lookup name := by
  rw [List.lookup_cons]
  by_cases same : name = other
  · rw [if_pos same, beq_iff_eq.mpr same]
  · rw [if_neg same, beq_eq_false_iff_ne.mpr same]

theorem mem_iff_lookup {table : List (Str × β)} (distinct : (table.map Prod.fst).Nodup) {name : Str}
    {value : β} : (name, value) ∈ table ↔ table.lookup name = some value := by
  induction table with
  | nil => simp
  | cons entry rest ih =>
    obtain ⟨_, _⟩ := entry
    obtain ⟨notIn, distinctRest⟩ := nodup_cons.mp distinct
    rw [lookup_cons_ite, mem_cons, ih distinctRest]
    split
    · rename_i same
      subst same
      have absent : rest.lookup name ≠ some value := fun there =>
        notIn (mem_map.mpr ⟨(name, value), (ih distinctRest).mpr there, rfl⟩)
      simp [absent, eq_comm]
    · rename_i different
      simp [different]

section Routes

variable {F : Type} (setting : Setting F)

def ownedBy (node : Str) (keys : List Key) : List Key :=
  keys.filter fun key => setting.owner key = some node

structure RoutesOf (keys : List Key) (routes : RouteMap) : Prop where
  distinct : (routes.map Prod.fst).Nodup
  lookup_eq : ∀ node, routes.lookup node =
    if ownedBy setting node keys = [] then none else some (ownedBy setting node keys)

theorem lookup_addRoute {node : Str} {key : Key} (routes : RouteMap) {name : Str} :
    (addRoute node key routes).lookup name =
      if name = node then some ((routes.lookup node).getD [] ++ [key]) else routes.lookup name := by
  induction routes with
  | nil => rw [addRoute, lookup_cons_ite]; rfl
  | cons route rest ih =>
    obtain ⟨other, -⟩ := route
    rw [addRoute]
    split
    · rename_i same
      subst same
      rw [lookup_cons_ite, lookup_cons_ite, lookup_cons_ite, if_pos rfl]
      split
      · rfl
      · rfl
    · rename_i different
      rw [lookup_cons_ite, ih, lookup_cons_ite, lookup_cons_ite, if_neg (Ne.symm different)]
      by_cases isOther : name = other
      · rw [if_pos isOther, if_neg (isOther ▸ different), if_pos isOther]
      · rw [if_neg isOther, if_neg isOther]

variable {key : Key} {node : Str} {routes : RouteMap} {keys : List Key}

theorem mem_names_addRoute {name : Str} (member : name ∈ (addRoute node key routes).map Prod.fst) :
    name = node ∨ name ∈ routes.map Prod.fst := by
  induction routes with
  | nil => exact .inl (mem_singleton.mp member)
  | cons route rest ih =>
    obtain ⟨other, _⟩ := route
    rw [addRoute] at member
    split at member
    · exact .inr member
    · rcases mem_cons.mp member with same | later
      · exact .inr (same ▸ mem_cons_self)
      · exact (ih later).imp_right (mem_cons_of_mem other)

theorem nodup_addRoute (distinct : (routes.map Prod.fst).Nodup) :
    ((addRoute node key routes).map Prod.fst).Nodup := by
  induction routes with
  | nil => exact List.nodup_singleton node
  | cons route rest ih =>
    obtain ⟨notIn, distinctRest⟩ := nodup_cons.mp distinct
    rw [addRoute]
    split
    · exact distinct
    · rename_i different
      refine nodup_cons.mpr ⟨fun member => ?_, ih distinctRest⟩
      rcases mem_names_addRoute member with same | later
      · exact different same
      · exact notIn later

variable {setting}

theorem RoutesOf.addRoute (of : RoutesOf setting keys routes)
    (owner : setting.owner key = some node) :
    RoutesOf setting (keys ++ [key]) (addRoute node key routes) := by
  refine ⟨nodup_addRoute of.distinct, fun name => ?_⟩
  rw [lookup_addRoute, of.lookup_eq, of.lookup_eq]
  have split : ownedBy setting name (keys ++ [key]) =
      ownedBy setting name keys ++ if name = node then [key] else [] := by
    rw [ownedBy, List.filter_append, ownedBy]
    rw [List.filter_singleton, owner]
    by_cases same : name = node
    · simp [same]
    · simp [same, Ne.symm same]
  rw [split]
  by_cases same : name = node
  · subst same
    have some_ : ownedBy setting name keys ++ [key] ≠ [] := by simp
    rw [if_pos rfl, if_pos rfl, if_neg some_]
    by_cases none_ : ownedBy setting name keys = []
    · rw [none_]
      rfl
    · rw [if_neg none_]
      rfl
  · rw [if_neg same, if_neg same, append_nil]

theorem getRouteMap_eq_none_iff :
    getRouteMap setting keys routes = none ↔ ∃ key ∈ keys, setting.owner key = none := by
  induction keys generalizing routes with
  | nil => simp [getRouteMap]
  | cons key rest ih =>
    rw [getRouteMap, List.exists_mem_cons_iff]
    cases owner : setting.owner key with
    | none => simp
    | some node => simp [ih]

theorem routesOf_getRouteMap (found : getRouteMap setting keys [] = some routes) :
    RoutesOf setting keys routes := by
  have general : ∀ (keys before : List Key) (soFar : RouteMap), RoutesOf setting before soFar →
      getRouteMap setting keys soFar = some routes → RoutesOf setting (before ++ keys) routes := by
    intro keys
    induction keys with
    | nil =>
      intro before soFar of same
      rw [append_nil]
      exact Option.some.inj same ▸ of
    | cons key rest ih =>
      intro before soFar of step
      rw [getRouteMap] at step
      cases owner : setting.owner key with
      | none =>
        rw [owner] at step
        cases step
      | some node =>
        rw [owner] at step
        have later := ih (before ++ [key]) _ (of.addRoute owner) step
        rwa [append_assoc] at later
  exact general keys [] [] ⟨List.nodup_nil, fun _ => rfl⟩ found

namespace RoutesOf

variable {keys : List Key} {routes : RouteMap} (of : RoutesOf setting keys routes)

include of

variable {node : Str}

theorem mem_iff {owned : List Key} :
    (node, owned) ∈ routes ↔ owned = ownedBy setting node keys ∧ owned ≠ [] := by
  rw [mem_iff_lookup of.distinct, of.lookup_eq]
  split
  · rename_i none_
    rw [none_]
    simp
  · rename_i some_
    rw [Option.some_inj]
    constructor
    · rintro rfl
      exact ⟨rfl, some_⟩
    · exact fun both => both.1.symm

theorem mem_names_iff :
    node ∈ routes.map Prod.fst ↔ ∃ key ∈ keys, setting.owner key = some node := by
  constructor
  · intro member
    obtain ⟨⟨_, _⟩, inside, rfl⟩ := mem_map.mp member
    obtain ⟨rfl, some_⟩ := of.mem_iff.mp inside
    obtain ⟨key, isOwned⟩ := List.exists_mem_of_ne_nil _ some_
    have both := mem_filter.mp isOwned
    exact ⟨key, both.1, of_decide_eq_true both.2⟩
  · rintro ⟨_, member, owner⟩
    have some_ : ownedBy setting node keys ≠ [] :=
      List.ne_nil_of_mem (mem_filter.mpr ⟨member, decide_eq_true owner⟩)
    exact mem_map_of_mem (of.mem_iff.mpr ⟨rfl, some_⟩)

end RoutesOf

end Routes

/-! ## Messages -/

def heard (self peer : Str) (reply : Reply) : Reply :=
  if peer = self then reply else arrivedReply reply

theorem arrivedReply_of_round {reply back : Reply}
    (round : parseRound (reply.toBytes ++ []) = .next [.data back] []) :
    arrivedReply reply = back := by
  rw [append_nil] at round
  rw [arrivedReply, parse0_next round]
  rfl

theorem heard_int {self peer : Str} {code : Int} (fits : InInt64 code) :
    heard self peer (.int code) = .int code := by
  rw [heard]
  split
  · rfl
  · exact arrivedReply_of_round (Reply.parseRound_int fits)

theorem heard_error {self peer : Str} {text : Str} (line : Reply.OneLine text) :
    heard self peer (.error text) = .error text := by
  rw [heard]
  split
  · rfl
  · exact arrivedReply_of_round (Reply.parseRound_error line)

theorem heard_ok {self peer : Str} : heard self peer .ok = .ok := by
  rw [heard]
  split
  · rfl
  · rfl

/-- A relay has a line executed by a peer, which replies and becomes as given. -/
def Answers {F : Type} (relay : Relay F) (peer : Str) (line : Line) (before : Node F)
    (reply : Reply) (after : Node F) : Prop :=
  ∀ nodes : Nodes F, nodes peer = before →
    relay peer line nodes = (.ok reply, Function.update nodes peer after)

section Messages

variable {F : Type} [Float64 F] (setting : Setting F) (fuel : Nat) (self peer : Str)
variable {before after : Node F} {reply : Reply}

theorem recovered_atNode {F : Type} {peer : Str} (handler : Node F → Except Halt Reply × Node F)
    {nodes : Nodes F} :
    recovered (atNode peer handler nodes) =
      ((recovered (handler (nodes peer))).1,
        Function.update nodes peer (recovered (handler (nodes peer))).2) := by
  rw [atNode]
  generalize handler (nodes peer) = ended
  obtain ⟨reply | -, _⟩ := ended
  · cases reply with
    | panic => rfl
    | _ => rfl
  · rfl

variable {args : List Bytes} {handler : Node F → Except Halt Reply × Node F} {head : Bytes}

theorem exec_message {func : CmdFunc}
    (inTable : notInTable.any (fun candidate => lit candidate = toLower (str head)) = false)
    (named : CmdFunc.ofName (toLower (str head)) = some func)
    (runs : ∀ relay nodes, func.run setting peer relay head args nodes = atNode peer handler nodes)
    (ended : recovered (handler before) = (.ok reply, after)) {nodes : Nodes F}
    (here : nodes peer = before) :
    exec setting (fuel + 1) peer (head :: args) nodes =
      (.ok reply, Function.update nodes peer after) := by
  rw [exec]
  simp only [inTable, Bool.false_eq_true, if_false, named, runs]
  rw [recovered_atNode, here, ended]

theorem answers_message (func : CmdFunc)
    (inTable : notInTable.any (fun candidate => lit candidate = toLower (str head)) = false)
    (named : CmdFunc.ofName (toLower (str head)) = some func)
    (runs : ∀ relay nodes, func.run setting peer relay head args nodes = atNode peer handler nodes)
    (full : none ∉ head :: args) (sized : Sized (head :: args))
    (ended : recovered (handler before) = (.ok reply, after)) :
    Answers (relayWith (exec setting (fuel + 1)) self) peer (head :: args) before
      (heard self peer reply) after := by
  intro nodes here
  have done := exec_message setting fuel peer inTable named runs ended here
  rw [relayWith, heard]
  split
  · rename_i same
    rw [← same, done]
  · rw [arrivedLine_of_sized (cons_ne_nil _ _) sized, Reply.map_str_eq_self full]
    dsimp only
    rw [done]
    rfl

variable {args : List Bytes} (full : none ∉ args)

include full

theorem full_toCmdLine (name : String) : none ∉ toCmdLine name args := by
  rw [toCmdLine, mem_cons, not_or]
  exact ⟨(Option.some_ne_none _).symm, full⟩

theorem answers_prepare (sized : Sized (toCmdLine "prepare" args))
    (ended : recovered (execPrepare setting.env setting.spread args before) = (.ok reply, after)) :
    Answers (relayWith (exec setting (fuel + 1)) self) peer (toCmdLine "prepare" args) before
      (heard self peer reply) after :=
  answers_message setting fuel self peer .prepare rfl rfl (fun _ _ => rfl)
    (full_toCmdLine full "prepare") sized ended

theorem answers_commit (sized : Sized (toCmdLine "commit" args))
    (ended : recovered (execCommit setting.env setting.spread args before) = (.ok reply, after)) :
    Answers (relayWith (exec setting (fuel + 1)) self) peer (toCmdLine "commit" args) before
      (heard self peer reply) after :=
  answers_message setting fuel self peer .commit rfl rfl (fun _ _ => rfl)
    (full_toCmdLine full "commit") sized ended

theorem answers_local {message name : String} {atLeast : Nat}
    (inTable : notInTable.any (fun candidate => lit candidate = toLower (lit message)) = false)
    (named : CmdFunc.ofName (toLower (lit message)) = some (.inLocal name atLeast))
    (enough : atLeast ≤ args.length) (sized : Sized (toCmdLine message args))
    (ended : localExec setting.env setting.spread (toCmdLine name args) before =
      (.ok reply, after)) :
    Answers (relayWith (exec setting (fuel + 1)) self) peer (toCmdLine message args) before
      (heard self peer reply) after :=
  answers_message setting fuel self peer (.inLocal name atLeast) inTable named
    (fun _ _ => if_neg (Nat.not_lt.mpr enough)) (full_toCmdLine full message) sized
    (congrArg recovered ended)

end Messages

/-! ## Rounds -/

def advance {F : Type} (names : List Str) (after nodes : Nodes F) : Nodes F := fun id =>
  if id ∈ names then after id else nodes id

section Rounds

variable {F : Type} {relay : Relay F} {txId : Str} {nodes after : Nodes F}

theorem advance_nil : advance [] after nodes = nodes :=
  funext fun _ => if_neg not_mem_nil

theorem advance_update {name : Str} (rest : List Str) :
    advance rest after (Function.update nodes name (after name)) =
      advance (name :: rest) after nodes := by
  funext id
  by_cases isName : id = name
  · subst isName
    simp [advance]
  · simp [advance, isName]

theorem Answers.update {name peer : Str} {line : Line} {reply : Reply} {node : Node F}
    (answers : Answers relay peer line (nodes peer) reply node) (apart : peer ≠ name)
    (changed : Node F) :
    Answers relay peer line (Function.update nodes name changed peer) reply node := by
  rwa [Function.update_of_ne apart]

variable {lines : List (Str × Line)}

theorem prepareAll_ok (distinct : (lines.map Prod.fst).Nodup) {replies : Str → Reply}
    (fine : ∀ entry ∈ lines, tryError (replies entry.1) = none)
    (answers : ∀ entry ∈ lines, Answers relay entry.1 (toCmdLine "prepare" (some txId :: entry.2))
      (nodes entry.1) (replies entry.1) (after entry.1)) :
    prepareAll relay txId lines nodes = (.ok none, advance (lines.map Prod.fst) after nodes) := by
  induction lines generalizing nodes with
  | nil => rw [prepareAll, map_nil, advance_nil]
  | cons entry rest ih =>
    obtain ⟨notIn, distinctRest⟩ := nodup_cons.mp distinct
    obtain ⟨fineFirst, fineRest⟩ := forall_mem_cons.mp fine
    obtain ⟨first, later⟩ := forall_mem_cons.mp answers
    have step := first nodes rfl
    change Prog.andThen (relay entry.1 (toCmdLine "prepare" (some txId :: entry.2)) nodes) _ = _
    rw [step, andThen_ok, fineFirst]
    refine (ih distinctRest fineRest fun other member => (later other member).update
      (fun same : _ = entry.1 => notIn (same ▸ mem_map_of_mem member)) _).trans ?_
    rw [advance_update, map_cons]

theorem prepareAll_refused (distinct : (lines.map Prod.fst).Nodup) {replies : Str → Reply}
    (refused : ∃ entry ∈ lines, tryError (replies entry.1) ≠ none)
    (answers : ∀ entry ∈ lines, Answers relay entry.1 (toCmdLine "prepare" (some txId :: entry.2))
      (nodes entry.1) (replies entry.1) (after entry.1)) :
    ∃ error reached, prepareAll relay txId lines nodes = (.ok (some error), reached) := by
  induction lines generalizing nodes with
  | nil =>
    obtain ⟨_, impossible, -⟩ := refused
    cases impossible
  | cons entry rest ih =>
    obtain ⟨notIn, distinctRest⟩ := nodup_cons.mp distinct
    obtain ⟨first, later⟩ := forall_mem_cons.mp answers
    have step := first nodes rfl
    change ∃ error reached, Prog.andThen
      (relay entry.1 (toCmdLine "prepare" (some txId :: entry.2)) nodes) _ = _
    rw [step, andThen_ok]
    cases told : tryError (replies entry.1) with
    | some error => exact ⟨error, _, rfl⟩
    | none =>
      refine ih distinctRest ?_ fun other member => ?_
      · obtain ⟨bad, member, isError⟩ := refused
        rcases mem_cons.mp member with rfl | inside
        · exact absurd told isError
        · exact ⟨bad, inside, isError⟩
      · exact (later other member).update (fun same : _ = entry.1 =>
          notIn (same ▸ mem_map_of_mem member)) _

theorem commitAll_ok {names : List Str} (distinct : names.Nodup) {replies : Str → Reply}
    (fine : ∀ name ∈ names, tryError (replies name) = none)
    (answers : ∀ name ∈ names, Answers relay name (toCmdLine "commit" [some txId]) (nodes name)
      (replies name) (after name)) (results : List (Str × Reply)) :
    commitAll relay txId names results nodes =
      (.ok (.ok (results ++ names.map fun name => (name, replies name))),
        advance names after nodes) := by
  induction names generalizing nodes results with
  | nil => rw [commitAll, map_nil, append_nil, advance_nil]
  | cons name rest ih =>
    obtain ⟨notIn, distinctRest⟩ := nodup_cons.mp distinct
    obtain ⟨fineFirst, fineRest⟩ := forall_mem_cons.mp fine
    obtain ⟨first, later⟩ := forall_mem_cons.mp answers
    have step := first nodes rfl
    change Prog.andThen (relay name (toCmdLine "commit" [some txId]) nodes) _ = _
    rw [step, andThen_ok, fineFirst]
    refine (ih distinctRest fineRest (fun other member => (later other member).update
      (fun same : _ = name => notIn (same ▸ member)) _) _).trans ?_
    rw [advance_update, append_assoc]
    rfl

theorem map_fst_inNodeOrder (order : List Str → List Str)
    (perm : (order (lines.map Prod.fst)).Perm (lines.map Prod.fst)) :
    (inNodeOrder order lines).map Prod.fst = order (lines.map Prod.fst) := by
  have there : ∀ name ∈ order (lines.map Prod.fst), (lines.lookup name).isSome := by
    intro name member
    rw [List.lookup_isSome_iff]
    obtain ⟨entry, inside, rfl⟩ := mem_map.mp (perm.mem_iff.mp member)
    exact ⟨entry, inside, beq_self_eq_true _⟩
  rw [inNodeOrder]
  generalize order (lines.map Prod.fst) = names at there
  induction names with
  | nil => rfl
  | cons name rest ih =>
    obtain ⟨first, later⟩ := forall_mem_cons.mp there
    obtain ⟨_, found⟩ := Option.isSome_iff_exists.mp first
    rw [List.filterMap_cons, found]
    exact congrArg (name :: ·) (ih later)

theorem mem_of_mem_inNodeOrder {order : List Str → List Str} (distinct : (lines.map Prod.fst).Nodup)
    {entry : Str × Line} (member : entry ∈ inNodeOrder order lines) : entry ∈ lines := by
  obtain ⟨_, _, found⟩ := List.mem_filterMap.mp member
  obtain ⟨_, looked, rfl⟩ := Option.map_eq_some_iff.mp found
  exact (mem_iff_lookup distinct).mpr looked

theorem inNodeOrder_distinct (setting : Setting F) (distinct : (lines.map Prod.fst).Nodup) :
    ((inNodeOrder setting.prepareOrder lines).map Prod.fst).Nodup := by
  rw [map_fst_inNodeOrder _ (setting.prepare_perm _)]
  exact (setting.prepare_perm _).nodup_iff.mpr distinct

theorem doTcc_refused {setting : Setting F} (distinct : (lines.map Prod.fst).Nodup)
    {replies : Str → Reply} (refused : ∃ entry ∈ lines, tryError (replies entry.1) ≠ none)
    (answers : ∀ entry ∈ lines, Answers relay entry.1
      (toCmdLine "prepare" (some setting.txId :: entry.2)) (nodes entry.1) (replies entry.1)
      (after entry.1)) {done : Except Reply (List (Str × Reply))}
    (ended : (doTcc setting relay lines nodes).1 = .ok done) :
    ∃ text, done = .error (.error text) := by
  have refusedInOrder : ∃ entry ∈ inNodeOrder setting.prepareOrder lines,
      tryError (replies entry.1) ≠ none := by
    obtain ⟨entry, member, isError⟩ := refused
    have inOrder : entry.1 ∈ (inNodeOrder setting.prepareOrder lines).map Prod.fst := by
      rw [map_fst_inNodeOrder _ (setting.prepare_perm _), (setting.prepare_perm _).mem_iff]
      exact mem_map_of_mem member
    obtain ⟨same, inside, name⟩ := mem_map.mp inOrder
    exact ⟨same, inside, name ▸ isError⟩
  obtain ⟨_, reached, failed⟩ := prepareAll_refused (inNodeOrder_distinct setting distinct) refusedInOrder fun entry member =>
      answers entry (mem_of_mem_inNodeOrder distinct member)
  rw [doTcc, failed, andThen_ok] at ended
  generalize requestRollback relay setting.txId _ reached = rolledBack at ended
  obtain ⟨_ | _, _⟩ := rolledBack
  · cases ended
  · cases ended
    exact ⟨_, rfl⟩

theorem doTcc_ok (setting : Setting F) (distinct : (lines.map Prod.fst).Nodup) {middle : Nodes F}
    (prepared committed : Str → Reply)
    (finePrepared : ∀ entry ∈ lines, tryError (prepared entry.1) = none)
    (fineCommitted : ∀ entry ∈ lines, tryError (committed entry.1) = none)
    (prepares : ∀ entry ∈ lines, Answers relay entry.1
      (toCmdLine "prepare" (some setting.txId :: entry.2)) (nodes entry.1) (prepared entry.1)
      (middle entry.1))
    (commits : ∀ entry ∈ lines, Answers relay entry.1 (toCmdLine "commit" [some setting.txId])
      (middle entry.1) (committed entry.1) (after entry.1)) :
    doTcc setting relay lines nodes =
      (.ok (.ok ((setting.commitOrder (lines.map Prod.fst)).map fun name => (name, committed name))),
        advance (lines.map Prod.fst) after nodes) := by
  have inOrder := map_fst_inNodeOrder setting.prepareOrder
    (setting.prepare_perm (lines.map Prod.fst))
  have first := prepareAll_ok (inNodeOrder_distinct setting distinct)
    (fun entry member => finePrepared entry (mem_of_mem_inNodeOrder distinct member))
    fun entry member => prepares entry (mem_of_mem_inNodeOrder distinct member)
  rw [inOrder] at first
  have ready : ∀ name ∈ setting.commitOrder (lines.map Prod.fst),
      tryError (committed name) = none ∧
        Answers relay name (toCmdLine "commit" [some setting.txId])
          (advance (setting.prepareOrder (lines.map Prod.fst)) middle nodes name) (committed name)
          (after name) := by
    intro name member
    have onLine := (setting.commit_perm (lines.map Prod.fst)).mem_iff.mp member
    have reached := (setting.prepare_perm (lines.map Prod.fst)).mem_iff.mpr onLine
    obtain ⟨entry, inside, rfl⟩ := mem_map.mp onLine
    rw [advance, if_pos reached]
    exact ⟨fineCommitted entry inside, commits entry inside⟩
  have second := commitAll_ok ((setting.commit_perm (lines.map Prod.fst)).nodup_iff.mpr distinct) (fun name member => (ready name member).1) (fun name member => (ready name member).2) []
  rw [doTcc, first, andThen_ok]
  rw [second, andThen_ok]
  refine Prod.ext rfl (funext fun id => ?_)
  simp only [advance, (setting.prepare_perm _).mem_iff, (setting.commit_perm _).mem_iff]
  split
  · rfl
  · rfl

end Rounds

end Godis.Cluster
