import Godis.Cluster.Del
import Godis.Database.Dump

/-!
# `MSET` on a cluster

Each owner gets its keys with their last values.
-/

namespace Godis.Cluster

open Golang Program Database Dict Redis List

section Slots

variable {F : Type}

theorem Agrees.msetSlot {first second : Slot F} (same : Agrees first second)
    (entries : List (Bytes × Bytes)) (key : Key) :
    Agrees (Database.msetSlot entries key first) (Database.msetSlot entries key second) := by
  unfold Database.msetSlot
  split
  · exact same
  · exact ⟨rfl, same.2⟩

end Slots

section Local

variable {F : Type} [Float64 F] (env : Env F)

theorem execNormalCommand_mset {head : Bytes} {args : List Bytes}
    (named : toLower (str head) = lit "mset") (filled : 2 ≤ args.length)
    (even : args.length % 2 = 0) (db : Space F) :
    ∃ after, execNormalCommand env (head :: args) db = (.ok .ok, after) ∧
      ∀ key, Agrees (after.slots key) (msetSlot (pairs args) key (db.slots key)) := by
  obtain ⟨after, done, slots⟩ := run_execMSet_slots even
  have bumped := db.addVersion_slot (prepareMSet args).1
  rw [execNormalCommand_eq env db (congrArg Name.ofText named) rfl (validateArity_of_three filled)]
  refine ⟨after, done, fun key => ?_⟩
  rw [slots]
  exact Agrees.msetSlot (bumped key) _ key

end Local

section Entries

def msetKeys (args : List Bytes) : List Key :=
  (pairs args).map fun pair => str pair.1

theorem lastPut_eq {entries : List (Bytes × Bytes)} {key : Key} :
    lastPut entries key =
      if key ∈ entries.map (fun pair => str pair.1) then some (keyValues entries key) else none := by
  induction entries with
  | nil => rfl
  | cons entry rest ih =>
    obtain ⟨first, _⟩ := entry
    rw [lastPut, ih, map_cons, keyValues]
    by_cases later : key ∈ rest.map fun pair => str pair.1
    · rw [if_pos later, if_pos (mem_cons_of_mem _ later), if_pos later]
      rfl
    · by_cases isFirst : key = str first
      · subst isFirst
        simp [later]
      · simp [later, isFirst, Ne.symm isFirst]

theorem lastPut_map (keys : List Key) (values : Key → Bytes) (key : Key) :
    lastPut (keys.map fun key => (some key, values key)) key =
      if key ∈ keys then some (values key) else none := by
  induction keys with
  | nil => rfl
  | cons first rest ih =>
    rw [map_cons, lastPut, ih]
    by_cases later : key ∈ rest
    · rw [if_pos later, if_pos (mem_cons_of_mem _ later)]
      rfl
    · rw [if_neg later]
      by_cases isFirst : key = first
      · subst isFirst
        simp [str]
      · simp [later, isFirst, Ne.symm isFirst, str]

theorem length_pairs {args : List Bytes} : (pairs args).length = args.length / 2 := by
  induction args using pairs.induct with
  | case1 first second rest ih =>
    rw [pairs, length_cons, length_cons, length_cons]
    omega
  | case2 args short =>
    rcases args with _ | ⟨first, _ | ⟨second, rest⟩⟩
    · rfl
    · rw [pairs]
      · simp
      · exact fun _ _ _ impossible => by cases impossible
    · exact absurd rfl (short first second rest)

theorem mem_of_mem_pairs {args : List Bytes} {pair : Bytes × Bytes} (member : pair ∈ pairs args) :
    pair.1 ∈ args ∧ pair.2 ∈ args := by
  induction args using pairs.induct with
  | case1 first second rest ih =>
    rcases mem_cons.mp member with rfl | later
    · simp
    · exact ⟨by simp [(ih later).1], by simp [(ih later).2]⟩
  | case2 args short =>
    rw [pairs] at member
    · cases member
    · exact short

theorem keyValues_mem {entries : List (Bytes × Bytes)} {key : Key}
    (member : key ∈ entries.map fun pair => str pair.1) :
    ∃ pair ∈ entries, str pair.1 = key ∧ pair.2 = keyValues entries key := by
  induction entries with
  | nil => cases member
  | cons entry rest ih =>
    obtain ⟨first, value⟩ := entry
    rw [keyValues]
    by_cases later : key ∈ rest.map fun pair => str pair.1
    · obtain ⟨pair, inside, isKey, isValue⟩ := ih later
      rw [if_pos later]
      exact ⟨pair, mem_cons_of_mem _ inside, isKey, isValue⟩
    · have isFirst : key = str first := by
        rcases mem_cons.mp member with same | inside
        · exact same
        · exact absurd inside later
      rw [if_neg later, if_pos isFirst]
      exact ⟨(first, value), mem_cons_self, isFirst.symm, rfl⟩

end Entries

section Refinement

variable {F : Type} [Float64 F] (cluster : Resting F) (fuel : Nat) (self : Str)

section MSet

omit [Float64 F] in
theorem slotwise_msetSlot {args : List Bytes} : Slotwise (msetKeys args) (msetSlot (F := F) (pairs args)) := by
  refine ⟨fun key _ _ same => same.msetSlot (pairs args) key, fun key slot outside => ?_⟩
  have notPut : lastPut (pairs args) key = none := by
    rw [lastPut_eq]
    exact if_neg outside
  rw [msetSlot, notPut]

def valueWord (words : Words) (key : Key) : Str :=
  str (keyValues (pairs words.args) key)

theorem keyValues_eq {words : Words} {key : Key} (member : key ∈ msetKeys words.args) :
    keyValues (pairs words.args) key = some (valueWord words key) ∧
      valueWord words key ∈ words.list := by
  obtain ⟨_, inside, -, isValue⟩ := keyValues_mem member
  obtain ⟨_, isWord, shape⟩ := mem_map.mp (mem_of_mem_pairs inside).2
  rw [valueWord, ← isValue, ← shape]
  exact ⟨rfl, isWord⟩

theorem mem_of_mem_msetKeys {words : Words} {key : Key} (member : key ∈ msetKeys words.args) :
    key ∈ words.list := by
  obtain ⟨_, inside, rfl⟩ := mem_map.mp member
  obtain ⟨_, isWord, shape⟩ := mem_map.mp (mem_of_mem_pairs inside).1
  rw [← shape]
  exact isWord

theorem msetLine_eq {words : Words} {keys : List Key}
    (inside : ∀ key ∈ keys, key ∈ msetKeys words.args) :
    msetLine (keyValues (pairs words.args)) keys =
      toCmdLineOfStr "mset" (keys.flatMap fun key => [key, valueWord words key]) := by
  rw [msetLine, toCmdLineOfStr, List.map_flatMap]
  congr 1
  refine List.flatMap_congr fun key member => ?_
  rw [(keyValues_eq (inside key member)).1]
  rfl

def msetPart (words : Words) (keys : List Key) : List Str :=
  keys.flatMap fun key => [key, valueWord words key]

theorem pairs_msetPart {words : Words} {keys : List Key} :
    pairs ((msetPart words keys).map some) =
      keys.map fun key => (some key, some (valueWord words key)) := by
  rw [← pairs_flatMap, msetPart, List.map_flatMap]
  rfl

theorem length_msetPart (words : Words) (keys : List Key) :
    (msetPart words keys).length = 2 * keys.length := by
  induction keys with
  | nil => rfl
  | cons first rest ih =>
    change (msetPart words rest).length + 2 = 2 * (rest.length + 1)
    rw [ih, Nat.mul_succ]

theorem mem_msetPart {words : Words} {keys : List Key}
    (inside : ∀ key ∈ keys, key ∈ msetKeys words.args) {word : Str}
    (member : word ∈ msetPart words keys) : word ∈ words.list := by
  obtain ⟨key, isKey, isWord⟩ := List.mem_flatMap.mp member
  have put := inside key isKey
  rcases mem_cons.mp isWord with rfl | isValue
  · exact mem_of_mem_msetKeys put
  · cases mem_singleton.mp isValue
    exact (keyValues_eq put).2

variable {head : Str} (words : Words)

theorem mset_part (id : Str) :
    Part cluster id (ownedBy cluster.setting id (msetKeys words.args)) (some (lit "mset"))
      ((msetPart words (ownedBy cluster.setting id (msetKeys words.args))).map some) where
  owner key member := (mem_ownedBy.mp member).2
  full := full_toCmdLine (by simp) "mset"
  sized := by
    refine sized_prepare cluster "mset" (by decide) words ?_ fun word =>
      mem_msetPart fun key member => (mem_ownedBy.mp member).1
    have short : (ownedBy cluster.setting id (msetKeys words.args)).length ≤
        (msetKeys words.args).length := List.length_filter_le _ _
    rw [msetKeys, length_map, length_pairs, Words.args, length_map] at short
    rw [length_msetPart]
    exact (Nat.mul_le_mul_left 2 short).trans (Nat.mul_div_le _ _)
  related := ⟨_, rfl⟩
  undo := by
    have keys : (pairs ((msetPart words (ownedBy cluster.setting id (msetKeys words.args))).map
        some)).map (fun pair => str pair.1) = ownedBy cluster.setting id (msetKeys words.args) := by
      rw [pairs_msetPart, map_map]
      exact map_id _
    nth_rewrite 2 [← keys]
    rfl
  plain _ := rfl

theorem answers_mset_part {id : Str}
    (asked : ownedBy cluster.setting id (msetKeys words.args) ≠ [])
    (dumps : ∀ key ∈ ownedBy cluster.setting id (msetKeys words.args), cluster.Dumps key) :
    Transacts (relayWith (exec cluster.setting (fuel + 1)) self) cluster.setting id
      (msetLine (keyValues (pairs words.args)) (ownedBy cluster.setting id (msetKeys words.args)))
      (cluster.nodes id) .ok fun after =>
      after.shards = (cluster.nodes id).shards ∧ ∀ key, after.db.slots key =
        if key ∈ ownedBy cluster.setting id (msetKeys words.args) then
          (((cluster.nodes id).db.slots key).opened cluster.setting.env.now).withValue
            (.string (some (valueWord words key)))
        else (cluster.nodes id).db.slots key := by
  have part := mset_part cluster words id
  rw [msetLine_eq fun key member => (mem_ownedBy.mp member).1]
  generalize ownedBy cluster.setting id (msetKeys words.args) = keys at *
  have counted := length_msetPart words keys
  have name : toLower (str (some (lit "mset"))) = lit "mset" := rfl
  have filled : 2 ≤ ((msetPart words keys).map some).length := by
    rw [length_map]
    have := length_pos_iff.mpr asked
    omega
  have even : ((msetPart words keys).map some).length % 2 = 0 := by
    rw [length_map, counted, Nat.mul_mod_right]
  obtain ⟨prepared, preparedSlots, answers⟩ := part.answers fuel self dumps
  obtain ⟨_, executed, dbSlots⟩ := run_exec_mset cluster.setting.env name filled even prepared
  obtain ⟨middle, after, prepares, commits, afterDb, afterShards⟩ := answers _ _ executed
  rw [heard_ok] at commits
  refine ⟨middle, after, prepares, commits, afterShards, fun key => ?_⟩
  rw [afterDb, dbSlots, preparedSlots, pairs_msetPart, msetSlot,
    lastPut_map keys fun key => some (valueWord words key)]
  by_cases member : key ∈ keys
  · simp only [if_pos member]
  · simp only [if_neg member]

omit [Float64 F] in
theorem msetSlot_of_mem {words : Words} {key : Key} (member : key ∈ msetKeys words.args)
    {slot : Slot F} :
    msetSlot (pairs words.args) key slot = slot.withValue (.string (some (valueWord words key))) := by
  have put : lastPut (pairs words.args) key = some (some (valueWord words key)) := by
    rw [lastPut_eq, ← (keyValues_eq member).1]
    exact if_pos member
  rw [msetSlot, put]

variable (named : toLower (str (some head)) = lit "mset") (filled : 2 ≤ words.list.length)
variable (even : words.list.length % 2 = 0)

include filled in
theorem msetKeys_ne_nil : msetKeys words.args ≠ [] := by
  intro empty
  have counted := congrArg List.length empty
  rw [msetKeys, length_map, length_pairs, Words.args, length_map, length_nil] at counted
  omega

include named filled even

theorem exec_mset (nodes : Nodes F) :
    exec cluster.setting (fuel + 2) self (some head :: words.args) nodes =
      recovered (execSeveral cluster.setting (relayWith (exec cluster.setting (fuel + 1)) self)
        (msetKeys words.args) "mset_" (msetLine (keyValues (pairs words.args))) msetReply words.args
        nodes) := by
  rw [exec_of_name fuel self named rfl rfl, CmdFunc.run, execMSet, words.length_args,
    if_neg (by omega)]
  rfl

theorem mset_one {id : Str} (owner : ∀ key ∈ msetKeys words.args, cluster.setting.owner key = some id) :
    MatchesUnion cluster fuel self (some head :: words.args) := by
  have nodeName : toLower (str (some (lit "mset"))) = lit "mset" := rfl
  obtain ⟨_, served, wholeSlots⟩ := execNormalCommand_mset cluster.setting.env named
    (words.length_args ▸ filled) (words.length_args ▸ even) cluster.whole
  obtain ⟨db, executed, dbSlots⟩ := execNormalCommand_mset cluster.setting.env nodeName
    (words.length_args ▸ filled) (words.length_args ▸ even) (cluster.nodes id).db
  have done := localExec_eq cluster.setting.env cluster.setting.spread (cluster.unlocked id) executed
  have short : ∀ word ∈ [lit "mset_"], word.length ≤ 16 := by decide
  have sized : Sized (toCmdLine "mset_" words.args) := words.sized_append (by decide) short
  have answers := answers_local cluster.setting fuel self id words.full_args rfl rfl
    (words.length_args ▸ filled) sized done
  rw [heard_ok] at answers
  have ended : exec cluster.setting (fuel + 2) self (some head :: words.args) cluster.nodes =
      (.ok .ok, Function.update cluster.nodes id { cluster.nodes id with db := db }) := by
    rw [exec_mset cluster fuel self words named filled even,
      execSeveral_one (msetKeys_ne_nil words filled) owner, answers cluster.nodes rfl]
    rfl
  rw [MatchesUnion, ended, served]
  refine ⟨rfl, ?_, cluster.unlocked_update rfl⟩
  exact (slotwise_msetSlot).shows_one wholeSlots owner dbSlots

theorem mset_many_iff (dumps : ∀ key ∈ msetKeys words.args, cluster.Dumps key)
    (defined : ∀ key ∈ msetKeys words.args, cluster.setting.owner key ≠ none)
    (several : ¬ OnOneNode cluster.setting (msetKeys words.args)) :
    MatchesUnion cluster fuel self (some head :: words.args) ↔
      ∀ key ∈ msetKeys words.args, ¬ Stale cluster.setting.env.now (cluster.whole.slots key) := by
  obtain ⟨whole, served, wholeSlots⟩ := execNormalCommand_mset cluster.setting.env named
    (words.length_args ▸ filled) (words.length_args ▸ even) cluster.whole
  obtain ⟨routes, after, of, done, good⟩ := execSeveral_many "mset_"
    (msetLine (keyValues (pairs words.args))) msetReply words.args defined several _ _ (fun _ => rfl)
    fun id asked => answers_mset_part cluster fuel self words asked fun key member =>
      dumps key (mem_ownedBy.mp member).1
  have ended : exec cluster.setting (fuel + 2) self (some head :: words.args) cluster.nodes =
      (.ok .ok, advance (routes.map Prod.fst) after cluster.nodes) := by
    rw [exec_mset cluster fuel self words named filled even, done]
    rfl
  rw [MatchesUnion, ended, served]
  constructor
  · rintro ⟨-, shown, -⟩ key member ⟨there, expired⟩
    obtain ⟨id, owner⟩ := Option.ne_none_iff_exists'.mp (defined key member)
    have routed := of.mem_names_iff.mpr ⟨key, member, owner⟩
    have stale : Stale cluster.setting.env.now ((cluster.nodes id).db.slots key) := by
      have same := cluster.owned key id owner
      exact stale_of_agrees ⟨same.1.symm, same.2.symm⟩ ⟨there, expired⟩
    have here : (advance (routes.map Prod.fst) after cluster.nodes id).db.seen
        cluster.setting.env.now key = some (.string (some (valueWord words key)), none) := by
      rw [advance, if_pos routed, Space.seen, (good id routed).2 key,
        if_pos (mem_ownedBy.mpr ⟨member, owner⟩), Slot.opened_of_expired stale.1 stale.2]
      rfl
    have gone : whole.seen cluster.setting.env.now key = none := by
      have put := (wholeSlots key).seen cluster.setting.env.now
      rw [msetSlot_of_mem member] at put
      exact put.trans (Slot.seen_of_expired expired)
    have same := shown.owned key id owner
    rw [here, gone] at same
    cases same
  · intro fresh
    refine ⟨rfl, ?_, cluster.unlocked_advance fun id routed => (good id routed).1⟩
    refine (slotwise_msetSlot).shows_many wholeSlots defined of
      (fun id routed key owner => ?_) fun id routed key notOwner => ?_
    · rw [(good id routed).2 key]
      by_cases member : key ∈ msetKeys words.args
      · have opened := opened_of_not_stale fun stale =>
          fresh key member (stale_of_agrees (cluster.owned key id owner) stale)
        rw [if_pos (mem_ownedBy.mpr ⟨member, owner⟩), opened, msetSlot_of_mem member]
        exact ⟨rfl, rfl⟩
      · rw [if_neg fun isOwned => member (mem_ownedBy.mp isOwned).1,
          (slotwise_msetSlot).outside key _ member]
        exact ⟨rfl, rfl⟩
    · rw [(good id routed).2 key, if_neg fun isOwned => notOwner (mem_ownedBy.mp isOwned).2]
      exact ⟨rfl, rfl⟩

end MSet

variable {head : Str} (words : Words)

theorem exec_mset_refused (named : toLower (str (some head)) = lit "mset")
    (refused : words.list.length < 2 ∨ words.list.length % 2 ≠ 0) :
    exec cluster.setting (fuel + 2) self (some head :: words.args) cluster.nodes =
      (.ok (.argNumErr (lit "mset")), cluster.nodes) := by
  rw [exec_of_name fuel self named rfl rfl, CmdFunc.run, execMSet, words.length_args,
    if_pos refused]
  rfl

theorem mset_few (named : toLower (str (some head)) = lit "mset") (few : words.list.length < 2) :
    MatchesUnion cluster fuel self (some head :: words.args) := by
  have arity : validateArity (-3) (some head :: words.args) = false := by
    simp only [validateArity, length_cons]
    rw [if_neg (by decide), decide_eq_false_iff_not, words.length_args]
    omega
  have served : execNormalCommand cluster.setting.env (some head :: words.args) cluster.whole =
      (.ok (.argNumErr (lit "mset")), cluster.whole) := by
    rw [execNormalCommand_refused (congrArg Name.ofText named) arity, named]
  rw [MatchesUnion, exec_mset_refused cluster fuel self words named (Or.inl few), served]
  exact ⟨rfl, cluster.shows, cluster.unlocked⟩

theorem mset_odd (named : toLower (str (some head)) = lit "mset") (filled : 2 ≤ words.list.length)
    (odd : words.list.length % 2 ≠ 0) :
    ¬ MatchesUnion cluster fuel self (some head :: words.args) := by
  have served : (execNormalCommand cluster.setting.env (some head :: words.args) cluster.whole).1 =
      .ok .syntaxErr := by
    rw [execNormalCommand_eq _ _ (congrArg Name.ofText named) rfl
      (validateArity_of_three (words.length_args ▸ filled))]
    change ((Database.execMSet words.args).run _ _).1 = _
    rw [Database.execMSet, if_pos (words.length_args ▸ odd)]
    rfl
  rw [MatchesUnion, exec_mset_refused cluster fuel self words named (Or.inr odd), served]
  rintro ⟨same, -, -⟩
  have sameText := Reply.error.inj (Except.ok.inj same)
  revert sameText
  decide

theorem mset_matches_iff (named : toLower (str (some head)) = lit "mset") :
    MatchesUnion cluster fuel self (some head :: words.args) ↔
      words.list.length = 1 ∨
        (words.list.length % 2 = 0 ∧ Undisturbed cluster (msetKeys words.args)) := by
  by_cases few : words.list.length < 2
  · refine iff_of_true (mset_few cluster fuel self words named few) ?_
    by_cases one : words.list.length = 1
    · exact Or.inl one
    · have empty : words.list = [] := List.length_eq_zero_iff.mp (by omega)
      have noKeys : msetKeys words.args = [] := by rw [Words.args, empty]; rfl
      rw [empty, noKeys]
      exact Or.inr ⟨rfl, by simp, Or.inr (by simp)⟩
  have filled : 2 ≤ words.list.length := Nat.not_lt.mp few
  have notOne : words.list.length ≠ 1 := by omega
  rw [or_iff_right notOne]
  by_cases even : words.list.length % 2 = 0
  · rw [and_iff_right even]
    obtain ⟨_, served, -⟩ := execNormalCommand_mset cluster.setting.env named
      (words.length_args ▸ filled) (words.length_args ▸ even) cluster.whole
    refine several_matches_iff cluster fuel self (fun id _ => ?_) (fun id asked dumps => ?_) served
      (fun _ impossible => by cases impossible)
      (exec_mset cluster fuel self words named filled even cluster.nodes)
      (fun id owner => mset_one cluster fuel self words named filled even owner)
      fun dumps defined several =>
        mset_many_iff cluster fuel self words named filled even dumps defined several
    · exact ⟨_, _, msetLine_eq fun key member => (mem_ownedBy.mp member).1,
        mset_part cluster words id⟩
    · obtain ⟨middle, -, prepares, -⟩ := answers_mset_part cluster fuel self words asked dumps
      exact ⟨middle, prepares⟩
  · exact iff_of_false (mset_odd cluster fuel self words named filled even) fun both => even both.1

/-- `MSET` and `DEL` do on a cluster what they do on a single server with the union of the contents
exactly if the arguments are complete and the keys undisturbed. -/
theorem mset_del_match_union_iff :
    (toLower head = lit "mset" →
      (MatchesUnion cluster fuel self (some head :: words.args) ↔
        words.list.length = 1 ∨
          (words.list.length % 2 = 0 ∧ Undisturbed cluster (msetKeys words.args)))) ∧
    (toLower head = lit "del" →
      (MatchesUnion cluster fuel self (some head :: words.args) ↔
        Undisturbed cluster words.list)) :=
  ⟨mset_matches_iff cluster fuel self words, del_matches_iff cluster fuel self words⟩

end Refinement

def oddWords : Words where
  list := [lit "a", lit "1", lit "b"]
  counted := by decide
  sized := by decide

theorem del_on_owner_matches :
    MatchesUnion twoNodes 0 (lit "b") (some (lit "del") :: wordsXY.args) := by
  refine ((mset_del_match_union_iff twoNodes 0 (lit "b") wordsXY).2 rfl).mpr ⟨by decide, .inr ?_⟩
  refine forall_mem_cons.mpr ⟨⟨fun stale => ?_, ?_⟩, List.forall_mem_singleton.mpr
    ⟨fun stale => ?_, ?_⟩⟩
  · cases stale.2
  · rintro _ _ ⟨⟩
    trivial
  · cases stale.2
  · rintro _ _ ⟨⟩
    trivial

/-- `MSET a 1 b`: the cluster misses an argument, the single server complains of the syntax. -/
theorem mset_odd_replies_differ :
    (exec emptyCluster.setting 2 (lit "a") (some (lit "mset") :: oddWords.args)
        emptyCluster.nodes).1 = .ok (.argNumErr (lit "mset")) ∧
      (execNormalCommand emptyCluster.setting.env (some (lit "mset") :: oddWords.args)
        emptyCluster.whole).1 = .ok .syntaxErr := by
  refine ⟨?_, rfl⟩
  rw [exec_mset_refused emptyCluster 0 (lit "a") oddWords rfl (Or.inr (by decide))]

end Godis.Cluster
