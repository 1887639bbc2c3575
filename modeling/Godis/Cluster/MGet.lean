import Godis.Cluster.Union
import Godis.Database.Several

/-!
# `MGET` on a cluster

The values of the keys come from their owners and are put together in the order of the arguments.
On their way from another node missing values turn into empty ones.
-/

namespace Godis.Cluster

open Golang Program Database Dict Redis List

section MGet

variable {F : Type} [Float64 F]

variable {args : List Bytes} {id head : Str} {key : Key} {keys : List Key} {words : Words}

theorem execNormalCommand_mget (env : Env F) {head : Bytes}
    (named : toLower (str head) = lit "mget") (filled : args ≠ []) (db : Space F) :
    ∃ after, execNormalCommand env (head :: args) db =
      (.ok (.multiBulk (args.map fun arg => stringAt env.now db (str arg))), after) := by
  rw [execNormalCommand_eq env db (congrArg Name.ofText named) rfl (validateArity_of_two filled)]
  exact run_execMGet

/-! ## Replies from other nodes -/

/-- A string as the node that asked for it gets it. -/
def heardBytes (self peer : Str) (bytes : Bytes) : Bytes :=
  if peer = self then bytes else some (str bytes)

theorem heardBytes_eq_self_iff {self peer : Str} {bytes : Bytes} :
    heardBytes self peer bytes = bytes ↔ (bytes = none → peer = self) := by
  rw [heardBytes]
  split
  · rename_i same
    exact iff_of_true rfl fun _ => same
  · rename_i other
    cases bytes with
    | none => simp [other]
    | some text => exact iff_of_true rfl fun impossible => by cases impossible

theorem heard_multiBulk {self peer : Str} (filled : args ≠ []) (sized : Sized args) :
    heard self peer (.multiBulk args) = .multiBulk (args.map (heardBytes self peer)) := by
  rw [heard]
  by_cases same : peer = self
  · have asIs : heardBytes self peer = id := funext fun bytes => if_pos same
    rw [if_pos same, asIs, map_id]
  · have round := parse0_next (parseRound_multiBulkBytes args filled sized [])
    have asText : heardBytes self peer = fun arg => some (str arg) :=
      funext fun bytes => if_neg same
    have bytes : (Reply.multiBulk args).toBytes = multiBulkBytes args := rfl
    rw [append_nil] at round
    rw [if_neg same, arrivedReply, bytes, round, asText]
    rfl

/-! ## The values put together -/

theorem foldl_update_values {found : Key → Bytes} {asked : List Key} {values : Key → Bytes} :
    (((asked.map some).zip (asked.map found)).foldl
      (fun values entry => Function.update values (str entry.1) entry.2) values) key =
        if key ∈ asked then found key else values key := by
  induction asked generalizing values with
  | nil => rfl
  | cons first rest ih =>
    rw [map_cons, map_cons, List.zip_cons_cons, foldl_cons, ih]
    by_cases later : key ∈ rest
    · rw [if_pos later, if_pos (mem_cons_of_mem _ later)]
    · rw [if_neg later]
      by_cases isFirst : key = first
      · rw [if_pos (isFirst ▸ mem_cons_self), isFirst]
        exact Function.update_self _ _ _
      · rw [if_neg (by simp [isFirst, later])]
        exact Function.update_of_ne isFirst _ _

theorem collectValues_eq {lines : List (Str × Line)} (found : Key → Bytes)
    {asked : Str → List Key} {names : List Str}
    (isAsked : ∀ name ∈ names, ((lines.lookup name).getD []).tail = (asked name).map some)
    (values : Key → Bytes) :
    collectValues lines (names.map fun name => (name, .multiBulk ((asked name).map found))) values =
      .ok (.ok fun key => if ∃ name ∈ names, key ∈ asked name then found key else values key) := by
  induction names generalizing values with
  | nil => simp [collectValues]
  | cons name rest ih =>
    obtain ⟨first, others⟩ := forall_mem_cons.mp isAsked
    have counted : ¬ ((asked name).map found).length ≠ ((asked name).map some).length := by
      simp only [length_map, ne_eq, not_true_eq_false, not_false_eq_true]
    rw [map_cons, collectValues, first, if_neg counted, ih others]
    congr 2
    funext key
    rw [foldl_update_values]
    simp only [List.exists_mem_cons_iff]
    by_cases later : ∃ name ∈ rest, key ∈ asked name
    · rw [if_pos later, if_pos (.inr later)]
    · rw [if_neg later]
      simp only [later, or_false]

/-! ## The command -/

variable (cluster : Resting F) (fuel : Nat) (self : Str)

omit [Float64 F] in
theorem Resting.stringAt_owner (owner : cluster.setting.owner key = some id) :
    stringAt cluster.setting.env.now (cluster.nodes id).db key =
      stringAt cluster.setting.env.now cluster.whole key :=
  stringAt_congr (Slot.seen_congr (cluster.owned key id owner).1 (cluster.owned key id owner).2)

omit [Float64 F] in
theorem Resting.sized_stringAt (now : Int) (key : Key) :
    (str (stringAt now cluster.whole key)).length < 2 ^ 63 := by
  rw [stringAt]
  cases there : cluster.whole.seen now key with
  | none => exact Nat.two_pow_pos 63
  | some entry =>
    obtain ⟨value, _⟩ := entry
    cases value with
    | string bytes => exact cluster.sized key bytes (Slot.live_of_seen there).2.1
    | _ => exact Nat.two_pow_pos 63

def Resting.toldString (key : Key) : Bytes :=
  heardBytes self ((cluster.setting.owner key).getD [])
    (stringAt cluster.setting.env.now cluster.whole key)

omit [Float64 F] in
theorem Resting.heard_strings (filled : keys ≠ []) (few : keys.length < 2 ^ 63)
    (owner : ∀ key ∈ keys, cluster.setting.owner key = some id) :
    heard self id (.multiBulk ((keys.map some).map fun arg =>
      stringAt cluster.setting.env.now (cluster.nodes id).db (str arg))) =
        .multiBulk (keys.map (cluster.toldString self)) := by
  have same : ((keys.map some).map fun arg =>
      stringAt cluster.setting.env.now (cluster.nodes id).db (str arg)) =
        keys.map fun key => stringAt cluster.setting.env.now cluster.whole key := by
    rw [map_map]
    exact map_congr_left fun key member => cluster.stringAt_owner (owner key member)
  have sized : Sized (keys.map fun key => stringAt cluster.setting.env.now cluster.whole key) := by
    refine ⟨(length_map _).trans_lt few, fun arg member => ?_⟩
    obtain ⟨key, _, rfl⟩ := mem_map.mp member
    exact cluster.sized_stringAt _ key
  rw [same, heard_multiBulk (fun empty => filled (map_eq_nil_iff.mp empty)) sized,
    map_map]
  congr 1
  refine map_congr_left fun key member => ?_
  simp only [Function.comp_apply, Resting.toldString, Option.getD_some, owner key member]

theorem answers_mget_local (filled : keys ≠ []) (sized : Sized (toCmdLine "mget_" (keys.map some)))
    (owner : ∀ key ∈ keys, cluster.setting.owner key = some id) :
    ∃ after, Answers (relayWith (exec cluster.setting (fuel + 1)) self) id
      (toCmdLine "mget_" (keys.map some)) (cluster.nodes id)
      (.multiBulk (keys.map (cluster.toldString self))) after := by
  have filledArgs : keys.map some ≠ [] := fun empty => filled (map_eq_nil_iff.mp empty)
  have positive := length_pos_iff.mpr filledArgs
  have name : toLower (str (some (lit "mget"))) = lit "mget" := rfl
  obtain ⟨_, executed⟩ := execNormalCommand_mget cluster.setting.env name filledArgs
    (cluster.nodes id).db
  have done := localExec_eq cluster.setting.env cluster.setting.spread (cluster.unlocked id) executed
  have few : keys.length < 2 ^ 63 := by
    have counted := sized.1
    rw [toCmdLine, length_cons, length_map] at counted
    omega
  have answers := answers_local cluster.setting fuel self id (by simp) rfl rfl positive sized done
  rw [cluster.heard_strings self filled few owner] at answers
  exact ⟨_, answers⟩

theorem answers_mget_tcc (filled : keys ≠ []) (sized : Sized (toCmdLine "prepare"
      (some cluster.setting.txId :: toCmdLineOfStr "mget" keys)))
    (owner : ∀ key ∈ keys, cluster.setting.owner key = some id) :
    Transacts (relayWith (exec cluster.setting (fuel + 1)) self) cluster.setting id
      (toCmdLineOfStr "mget" keys) (cluster.nodes id)
      (.multiBulk (keys.map (cluster.toldString self))) fun _ => True := by
  have filledArgs : keys.map some ≠ [] := fun empty => filled (map_eq_nil_iff.mp empty)
  have name : toLower (str (some (lit "mget"))) = lit "mget" := rfl
  obtain ⟨_, executed⟩ := run_exec_mget cluster.setting.env name filledArgs (cluster.nodes id).db
  obtain ⟨middle, after, prepares, commits, -, -⟩ := cluster.answers_tcc fuel self id
    (full_toCmdLine (by simp) "mget") sized rfl rfl (fun _ => rfl) executed
  have few : keys.length < 2 ^ 63 := by
    have counted := sized.1
    simp only [toCmdLine, toCmdLineOfStr, length_cons, length_map] at counted
    omega
  rw [cluster.heard_strings self filled few owner] at commits
  exact ⟨middle, after, prepares, commits, trivial⟩

omit [Float64 F] in
theorem sized_prepare (name : String) (short : (lit name).length ≤ 16) (words : Words)
    {part : List Str} (few : part.length ≤ words.list.length) (inside : ∀ word ∈ part, word ∈ words.list) :
    Sized (toCmdLine "prepare" (some cluster.setting.txId :: toCmdLineOfStr name part)) := by
  have counted := words.counted
  have shortId := cluster.setting.txId_length
  refine ⟨?_, fun arg member => ?_⟩
  · simp only [toCmdLine, toCmdLineOfStr, length_cons, length_map]
    omega
  · simp only [toCmdLine, toCmdLineOfStr, mem_cons, mem_map] at member
    rcases member with rfl | rfl | rfl | ⟨word, isPart, rfl⟩
    · decide
    · exact shortId.trans_lt (by norm_num)
    · exact short.trans_lt (by norm_num)
    · exact words.sized word (inside word isPart)

omit [Float64 F] in
theorem tail_lookup_linesOf {setting : Setting F} {routes : RouteMap}
    (of : RoutesOf setting keys routes) (routed : id ∈ routes.map Prod.fst) :
    (((linesOf (toCmdLineOfStr "mget") routes).lookup id).getD []).tail =
      (ownedBy setting id keys).map some := by
  rw [of.lookup_linesOf _ routed]
  rfl

theorem answers_mget_part (words : Words) (filled : ownedBy cluster.setting id words.list ≠ []) :
    Transacts (relayWith (exec cluster.setting (fuel + 1)) self) cluster.setting id
      (toCmdLineOfStr "mget" (ownedBy cluster.setting id words.list)) (cluster.nodes id)
      (.multiBulk ((ownedBy cluster.setting id words.list).map (cluster.toldString self)))
      fun _ => True := by
  have sized : Sized (toCmdLine "prepare" (some cluster.setting.txId ::
      toCmdLineOfStr "mget" (ownedBy cluster.setting id words.list))) :=
    sized_prepare cluster "mget" (by decide) words (List.length_filter_le _ _)
      fun word inside => (mem_ownedBy.mp inside).1
  exact answers_mget_tcc cluster fuel self filled sized
    fun key inside => (mem_ownedBy.mp inside).2

theorem execMGet_eq (words : Words) (filled : words.list ≠ [])
    (defined : ∀ key ∈ words.list, cluster.setting.owner key ≠ none) :
    ∃ after, execMGet cluster.setting (relayWith (exec cluster.setting (fuel + 1)) self) words.args
      cluster.nodes = (.ok (.multiBulk (words.list.map (cluster.toldString self))), after) := by
  have notEmpty : words.args.isEmpty = false := by
    rw [Words.args, List.isEmpty_map]
    exact isEmpty_eq_false_iff.mpr filled
  rw [execMGet, notEmpty, Words.map_str_args]
  by_cases one : OnOneNode cluster.setting words.list
  · obtain ⟨_, owner⟩ := one
    have short : ∀ word ∈ [lit "mget_"], word.length ≤ 16 := by decide
    have sized : Sized (toCmdLine "mget_" words.args) := words.sized_append (by decide) short
    obtain ⟨_, answers⟩ := answers_mget_local cluster fuel self filled sized owner
    rw [execSeveral_one filled owner]
    exact ⟨_, answers cluster.nodes rfl⟩
  · obtain ⟨routes, _, of, done, -⟩ := execSeveral_many "mget_" (toCmdLineOfStr "mget")
      (mgetReply words.args) words.args defined one _ (fun _ _ => True) (fun _ => rfl) fun id asked => answers_mget_part cluster fuel self words asked
    have perm := cluster.setting.commit_perm (routes.map Prod.fst)
    have collected := collectValues_eq (cluster.toldString self)
      (fun id routed => tail_lookup_linesOf of (perm.mem_iff.mp routed)) fun _ => none
    rw [done, mgetReply, collected]
    refine ⟨_, Prod.ext (congrArg Except.ok (congrArg Reply.multiBulk ?_)) rfl⟩
    rw [Words.args, map_map]
    refine map_congr_left fun key member => if_pos ?_
    obtain ⟨id, owner⟩ := Option.ne_none_iff_exists'.mp (defined key member)
    exact ⟨id, perm.mem_iff.mpr (of.mem_names_iff.mpr ⟨key, member, owner⟩),
      mem_filter.mpr ⟨member, decide_eq_true owner⟩⟩

theorem exec_mget (named : toLower (str (some head)) = lit "mget") (args : List Bytes) (nodes : Nodes F) :
    exec cluster.setting (fuel + 2) self (some head :: args) nodes =
      recovered (execMGet cluster.setting (relayWith (exec cluster.setting (fuel + 1)) self) args
        nodes) := by
  rw [exec, named]
  rfl

theorem exec_mget_eq (named : toLower (str (some head)) = lit "mget") (filled : words.list ≠ [])
    (defined : ∀ key ∈ words.list, cluster.setting.owner key ≠ none) :
    (exec cluster.setting (fuel + 2) self (some head :: words.args) cluster.nodes).1 =
      .ok (.multiBulk (words.list.map (cluster.toldString self))) := by
  obtain ⟨_, done⟩ := execMGet_eq cluster fuel self words filled defined
  rw [exec_mget cluster fuel self named, done]
  rfl

theorem serve_mget_eq (named : toLower (str (some head)) = lit "mget") (filled : words.list ≠ []) {env : Env F}
    {space : Space F} :
    (execNormalCommand env (some head :: words.args) space).1 =
      .ok (.multiBulk (words.list.map (stringAt env.now space))) := by
  have filledArgs : words.args ≠ [] := fun empty => filled (map_eq_nil_iff.mp empty)
  obtain ⟨_, done⟩ := execNormalCommand_mget env named filledArgs space
  rw [done, Words.args, map_map]
  rfl

omit [Float64 F] in
theorem toldString_eq_iff (defined : cluster.setting.owner key ≠ none) :
    cluster.toldString self key = stringAt cluster.setting.env.now cluster.whole key ↔
      (stringAt cluster.setting.env.now cluster.whole key = none →
        cluster.setting.owner key = some self) := by
  obtain ⟨_, owner⟩ := Option.ne_none_iff_exists'.mp defined
  rw [Resting.toldString, heardBytes_eq_self_iff, owner, Option.getD_some, Option.some_inj]

/-- `MGET` on a cluster replies as on a single server exactly if every key has an owner and every
key that shows no string is on the node that was asked. -/
theorem mget_matches_union_iff {head : Str} (named : toLower head = lit "mget") (words : Words) :
    (exec cluster.setting (fuel + 2) self (some head :: words.args) cluster.nodes).1 =
        (execNormalCommand cluster.setting.env (some head :: words.args)
          cluster.whole).1.mapError Halt.ofStop ↔
      ∀ key ∈ words.list, cluster.setting.owner key ≠ none ∧
        (stringAt cluster.setting.env.now cluster.whole key = none →
          cluster.setting.owner key = some self) := by
  have name : toLower (str (some head)) = lit "mget" := named
  by_cases filled : words.list = []
  · have noArgs : words.args = [] := by rw [Words.args, filled, map_nil]
    rw [filled, noArgs]
    refine iff_of_true ?_ fun key member => absurd member not_mem_nil
    rw [exec_mget cluster fuel self name, execNormalCommand, name]
    rfl
  · rw [serve_mget_eq name filled]
    by_cases defined : ∀ key ∈ words.list, cluster.setting.owner key ≠ none
    · rw [exec_mget_eq cluster fuel self name filled defined]
      change Except.ok (Reply.multiBulk _) = Except.ok (Reply.multiBulk _) ↔ _
      rw [Except.ok.injEq, Reply.multiBulk.injEq, List.map_inj_left]
      refine forall₂_congr fun key member => ?_
      rw [toldString_eq_iff cluster self (defined key member), and_iff_right (defined key member)]
    · obtain ⟨key, member, undefined⟩ : ∃ key ∈ words.list, cluster.setting.owner key = none := by
        simpa using defined
      refine iff_of_false ?_ fun all => (all key member).1 undefined
      have notEmpty : words.args.isEmpty = false := by
        rw [Words.args, List.isEmpty_map]
        exact isEmpty_eq_false_iff.mpr filled
      rw [exec_mget cluster fuel self name, execMGet, notEmpty, Words.map_str_args,
        execSeveral_undefined ⟨key, member, undefined⟩]
      intro impossible
      cases impossible

end MGet

/-- Nodes that hold nothing; the node `a` owns every slot. -/
def emptyCluster : Resting Digit where
  setting := soloSetting
  nodes _ := Node.initial
  whole := Space.empty
  owned _ _ _ := ⟨rfl, rfl⟩
  elsewhere _ _ _ := rfl
  nowhere _ _ := rfl
  unlocked _ _ := rfl
  fresh _ := rfl
  sized _ _ impossible := by cases impossible

def wordX : Words where
  list := [lit "x"]
  counted := by decide
  sized := by decide

/-- The keys that one node of several owns. -/
def restrict {F : Type} (space : Space F) (owned : Key → Bool) : Space F where
  slots key := if owned key then space.slots key else ⟨none, none, 0⟩
  keys := space.keys.filter (owned ·)
  mem_keys key := by cases isOwned : owned key <;> simp [isOwned, space.mem_keys]
  events := []

/-- A server that holds `x` and `yy`. -/
def serverXY : Space Digit :=
  (Space.empty.write (lit "x") ⟨⟨some (.string (some (lit "1"))), none, 0⟩, []⟩).write (lit "yy")
    ⟨⟨some (.string (some (lit "2"))), none, 0⟩, []⟩

/-- The node `a` owns `x`, and the node `b` owns `yy`. -/
def twoNodes : Resting Digit where
  setting := { soloSetting with
    getSlot := fun key => some key.length
    pickNode := fun slot => if slot = 1 then lit "a" else lit "b" }
  nodes id := { (Node.initial : Node Digit) with
    db := restrict serverXY fun key => (if key.length = 1 then lit "a" else lit "b") = id }
  whole := serverXY
  owned key _ owner := by
    cases owner
    simp [restrict, Agrees]
  elsewhere key id other := by
    have notOwned : ¬ (if key.length = 1 then lit "a" else lit "b") = id := fun same =>
      other (congrArg some same)
    simp [restrict, notOwned]
  nowhere _ unowned := by cases unowned
  unlocked _ _ := rfl
  fresh _ := rfl
  sized key bytes isString := by
    rw [serverXY, Space.write_slots, Space.write_slots] at isString
    split at isString
    · cases isString
      decide
    · split at isString
      · cases isString
        decide
      · cases isString

def wordsXY : Words where
  list := [lit "x", lit "yy"]
  counted := by decide
  sized := by decide

theorem mget_on_owner_matches :
    (exec twoNodes.setting 2 (lit "a") (some (lit "mget") :: wordsXY.args) twoNodes.nodes).1 =
      .ok (.multiBulk [some (lit "1"), some (lit "2")]) :=
  ((mget_matches_union_iff twoNodes 0 (lit "a") rfl wordsXY).mpr (by decide)).trans rfl

/-- `MGET x`, asked on another node: the key is missing, and the reply an empty string. -/
theorem mget_elsewhere_shows_missing_key :
    (exec emptyCluster.setting 2 (lit "b") (some (lit "mget") :: wordX.args) emptyCluster.nodes).1 =
        .ok (.multiBulk [some []]) ∧
      (execNormalCommand emptyCluster.setting.env (some (lit "mget") :: wordX.args)
        emptyCluster.whole).1 = .ok (.multiBulk [none]) := by
  exact ⟨rfl, rfl⟩

end Godis.Cluster
