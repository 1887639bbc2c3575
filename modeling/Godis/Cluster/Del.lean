import Godis.Cluster.Matches

/-!
# `DEL` on a cluster

The counts of the nodes add up to the number of keys that were there, if none of them was stored
past its deadline.
-/

namespace Godis.Cluster

open Golang Program Database Dict Redis List

section Slots

variable {F : Type}

theorem Agrees.delSlot {first second : Slot F} (same : Agrees first second) (keys : List Key)
    (key : Key) : Agrees (Database.delSlot keys key first) (Database.delSlot keys key second) := by
  unfold Database.delSlot
  split
  · unfold Slot.removeIfPresent
    rw [same.1]
    split
    · exact ⟨rfl, rfl⟩
    · exact same
  · exact same

theorem stored_congr {first second : Space F} {keys : List Key}
    (same : ∀ key ∈ keys, (first.slots key).value = (second.slots key).value) :
    stored first keys = stored second keys := by
  refine Finset.filter_congr fun key member => ?_
  rw [same key (mem_toFinset.mp member)]

end Slots

theorem Words.inInt64_card (words : Words) {some_ : Finset Str}
    (inside : some_ ⊆ words.list.toFinset) : InInt64 some_.card := by
  have counted := words.counted
  have few := (Finset.card_le_card inside).trans words.list.toFinset_card_le
  constructor
  · omega
  · omega

section Local

variable {F : Type} [Float64 F] (env : Env F)

theorem execNormalCommand_del {head : Bytes} {args : List Bytes}
    (named : toLower (str head) = lit "del") (filled : args ≠ []) (db : Space F) :
    ∃ after, execNormalCommand env (head :: args) db =
        (.ok (.int (stored db (args.map str)).card), after) ∧
      ∀ key, Agrees (after.slots key) (delSlot (args.map str) key (db.slots key)) := by
  obtain ⟨after, done, -, slots⟩ := run_execDel
  have bumped := db.addVersion_slot (args.map str)
  rw [stored_congr fun key _ => (bumped key).1] at done
  rw [execNormalCommand_eq env db (congrArg Name.ofText named) rfl (validateArity_of_two filled)]
  refine ⟨after, done, fun key => ?_⟩
  rw [slots]
  exact Agrees.delSlot (bumped key) _ key

end Local

section Refinement

variable {F : Type} [Float64 F] (cluster : Resting F) (fuel : Nat) (self : Str)

omit [Float64 F] in
theorem slotwise_delSlot {keys : List Key} : Slotwise keys (delSlot (F := F) keys) :=
  ⟨fun key _ _ same => same.delSlot keys key, fun _ _ outside => if_neg outside⟩

section Del

variable {head : Str} (named : toLower (str (some head)) = lit "del") (words : Words)

include named

variable {id : Str} {keys : List Key}

theorem exec_del (filled : words.list ≠ []) (nodes : Nodes F) :
    exec cluster.setting (fuel + 2) self (some head :: words.args) nodes =
      recovered (execSeveral cluster.setting (relayWith (exec cluster.setting (fuel + 1)) self)
        words.list "del_" (toCmdLineOfStr "del") delReply words.args nodes) := by
  have notEmpty : words.args.isEmpty = false :=
    isEmpty_eq_false_iff.mpr fun empty => filled (map_eq_nil_iff.mp empty)
  rw [exec_of_name fuel self named rfl rfl, CmdFunc.run, execDel, notEmpty,
    if_neg Bool.false_ne_true, Words.map_str_args]

theorem del_one (filled : words.list ≠ [])
    (owner : ∀ key ∈ words.list, cluster.setting.owner key = some id) :
    MatchesUnion cluster fuel self (some head :: words.args) := by
  have filledArgs : words.args ≠ [] := fun empty => filled (map_eq_nil_iff.mp empty)
  have nodeName : toLower (str (some (lit "del"))) = lit "del" := rfl
  obtain ⟨_, served, wholeSlots⟩ := execNormalCommand_del cluster.setting.env named
    filledArgs cluster.whole
  obtain ⟨db, executed, dbSlots⟩ := execNormalCommand_del cluster.setting.env nodeName filledArgs
    (cluster.nodes id).db
  rw [Words.map_str_args] at served wholeSlots executed dbSlots
  have done := localExec_eq cluster.setting.env cluster.setting.spread (cluster.unlocked id) executed
  have short : ∀ word ∈ [lit "del_"], word.length ≤ 16 := by decide
  have sized : Sized (toCmdLine "del_" words.args) := words.sized_append (by decide) short
  have answers := answers_local cluster.setting fuel self id words.full_args rfl rfl
    (length_pos_iff.mpr filledArgs) sized done
  have counted : stored (cluster.nodes id).db words.list = stored cluster.whole words.list :=
    stored_congr fun key member => (cluster.owned key id (owner key member)).1
  have fits : InInt64 (stored cluster.whole words.list).card :=
    words.inInt64_card (Finset.filter_subset _ _)
  rw [counted, heard_int fits] at answers
  have ended : exec cluster.setting (fuel + 2) self (some head :: words.args) cluster.nodes =
      (.ok (.int (stored cluster.whole words.list).card),
        Function.update cluster.nodes id { cluster.nodes id with db := db }) := by
    rw [exec_del cluster fuel self named words filled, execSeveral_one filled owner,
      answers cluster.nodes rfl]
    rfl
  rw [MatchesUnion, ended, served]
  refine ⟨rfl, ?_, cluster.unlocked_update rfl⟩
  exact (slotwise_delSlot).shows_one wholeSlots owner dbSlots

omit named

def alive (now : Int) (space : Space F) (keys : List Key) : Finset Key :=
  keys.toFinset.filter fun key => ((space.slots key).opened now).value.isSome

omit [Float64 F] in
theorem Resting.alive_owner (owner : ∀ key ∈ keys, cluster.setting.owner key = some id) (now : Int) :
    alive now (cluster.nodes id).db keys = alive now cluster.whole keys := by
  refine Finset.filter_congr fun key member => ?_
  have same := (cluster.owned key id (owner key (mem_toFinset.mp member))).opened now
  rw [same.1]

theorem del_part (id : Str) :
    Part cluster id (ownedBy cluster.setting id words.list) (some (lit "del"))
      ((ownedBy cluster.setting id words.list).map some) where
  owner key member := (mem_ownedBy.mp member).2
  full := full_toCmdLine (by simp) "del"
  sized := sized_prepare cluster "del" (by decide) words (List.length_filter_le _ _)
    fun word inside => (mem_ownedBy.mp inside).1
  related := ⟨_, rfl⟩
  undo := by
    nth_rewrite 2 [← map_str_some (ownedBy cluster.setting id words.list)]
    rfl
  plain _ := rfl

theorem answers_del_part (asked : ownedBy cluster.setting id words.list ≠ [])
    (dumps : ∀ key ∈ ownedBy cluster.setting id words.list, cluster.Dumps key) :
    Transacts (relayWith (exec cluster.setting (fuel + 1)) self) cluster.setting id
      (toCmdLineOfStr "del" (ownedBy cluster.setting id words.list)) (cluster.nodes id)
      (.int (alive cluster.setting.env.now cluster.whole
        (ownedBy cluster.setting id words.list)).card) fun after =>
      after.shards = (cluster.nodes id).shards ∧ ∀ key, after.db.slots key =
        delSlot (ownedBy cluster.setting id words.list) key
          (if key ∈ ownedBy cluster.setting id words.list then
            ((cluster.nodes id).db.slots key).opened cluster.setting.env.now
          else (cluster.nodes id).db.slots key) := by
  have part := del_part cluster words id
  have filledArgs : (ownedBy cluster.setting id words.list).map some ≠ [] := fun empty =>
    asked (map_eq_nil_iff.mp empty)
  have name : toLower (str (some (lit "del"))) = lit "del" := rfl
  obtain ⟨prepared, preparedSlots, answers⟩ := part.answers fuel self dumps
  obtain ⟨_, executed, dbSlots⟩ := run_exec_del cluster.setting.env name filledArgs prepared
  obtain ⟨middle, after, prepares, commits, afterDb, afterShards⟩ := answers _ _ executed
  rw [map_str_some] at commits dbSlots
  have counted : stored prepared (ownedBy cluster.setting id words.list) =
      alive cluster.setting.env.now cluster.whole (ownedBy cluster.setting id words.list) := by
    rw [← cluster.alive_owner part.owner]
    refine Finset.filter_congr fun key member => ?_
    rw [preparedSlots, if_pos (mem_toFinset.mp member)]
  have fits : InInt64 (alive cluster.setting.env.now cluster.whole
      (ownedBy cluster.setting id words.list)).card := by
    refine words.inInt64_card ((Finset.filter_subset _ _).trans fun key member => ?_)
    exact mem_toFinset.mpr (mem_ownedBy.mp (mem_toFinset.mp member)).1
  rw [counted, heard_int fits] at commits
  refine ⟨middle, after, prepares, commits, afterShards, fun key => ?_⟩
  rw [afterDb, dbSlots, preparedSlots]

omit [Float64 F] in
theorem sum_alive (now : Int) {routes : RouteMap} (of : RoutesOf cluster.setting keys routes)
    (defined : ∀ key ∈ keys, cluster.setting.owner key ≠ none) (order : List Str)
    (perm : order.Perm (routes.map Prod.fst)) :
    (order.map fun id => ((alive now cluster.whole (ownedBy cluster.setting id keys)).card : Int)).sum =
      (alive now cluster.whole keys).card := by
  have distinct : order.Nodup := perm.nodup_iff.mpr of.distinct
  have part : ∀ id, alive now cluster.whole (ownedBy cluster.setting id keys) =
      (alive now cluster.whole keys).filter fun key => (cluster.setting.owner key).getD [] = id := by
    intro id
    ext key
    simp only [alive, ownedBy, mem_toFinset, mem_filter, Finset.mem_filter,
      decide_eq_true_eq]
    constructor
    · rintro ⟨⟨member, owner⟩, found⟩
      exact ⟨⟨member, found⟩, by rw [owner]; rfl⟩
    · rintro ⟨⟨member, found⟩, isOwner⟩
      obtain ⟨_, owner⟩ := Option.ne_none_iff_exists'.mp (defined key member)
      rw [owner] at isOwner
      exact ⟨⟨member, owner.trans (congrArg some isOwner)⟩, found⟩
  have maps : Set.MapsTo (fun key => (cluster.setting.owner key).getD [])
      (alive now cluster.whole keys) order.toFinset := by
    intro key member
    have inside := mem_toFinset.mp (Finset.mem_filter.mp member).1
    obtain ⟨_, owner⟩ := Option.ne_none_iff_exists'.mp (defined key inside)
    change (cluster.setting.owner key).getD [] ∈ order.toFinset
    rw [owner, mem_toFinset]
    exact perm.mem_iff.mpr (of.mem_names_iff.mpr ⟨key, inside, owner⟩)
  rw [Finset.card_eq_sum_card_fiberwise maps, List.sum_toFinset _ distinct]
  simp only [part]
  rw [Nat.cast_list_sum, map_map]
  rfl

omit [Float64 F] in
theorem not_stale_of_card {now : Int} {space : Space F}
    (same : (alive now space keys).card = (stored space keys).card) :
    ∀ key ∈ keys, ¬ Stale now (space.slots key) := by
  have inside : alive now space keys ⊆ stored space keys := by
    intro key member
    obtain ⟨isKey, found⟩ := Finset.mem_filter.mp member
    refine Finset.mem_filter.mpr ⟨isKey, ?_⟩
    by_contra none_
    rw [Slot.opened_of_none (Option.not_isSome_iff_eq_none.mp none_)] at found
    exact none_ found
  have all := Finset.eq_of_subset_of_card_le inside same.ge
  rintro key member ⟨there, expired⟩
  have isStored : key ∈ stored space keys :=
    Finset.mem_filter.mpr ⟨mem_toFinset.mpr member, Option.isSome_iff_ne_none.mpr there⟩
  have found := (Finset.mem_filter.mp (all ▸ isStored)).2
  rw [Slot.opened_of_expired there expired] at found
  cases found

include named

theorem del_many_iff (dumps : ∀ key ∈ words.list, cluster.Dumps key)
    (defined : ∀ key ∈ words.list, cluster.setting.owner key ≠ none)
    (several : ¬ OnOneNode cluster.setting words.list) :
    MatchesUnion cluster fuel self (some head :: words.args) ↔
      ∀ key ∈ words.list, ¬ Stale cluster.setting.env.now (cluster.whole.slots key) := by
  have filled : words.list ≠ [] := by
    intro empty
    refine several ⟨[], fun key member => ?_⟩
    rw [empty] at member
    cases member
  have filledArgs : words.args ≠ [] := fun empty => filled (map_eq_nil_iff.mp empty)
  obtain ⟨_, served, wholeSlots⟩ := execNormalCommand_del cluster.setting.env named
    filledArgs cluster.whole
  rw [Words.map_str_args] at served wholeSlots
  obtain ⟨routes, after, of, done, good⟩ := execSeveral_many "del_" (toCmdLineOfStr "del") delReply
    words.args defined several _ _ (fun _ => rfl) fun id asked =>
      answers_del_part cluster fuel self words asked fun key member =>
        dumps key (mem_ownedBy.mp member).1
  have perm := cluster.setting.commit_perm (routes.map Prod.fst)
  have summed := sum_alive cluster cluster.setting.env.now of defined _ perm
  have fits : InInt64 (alive cluster.setting.env.now cluster.whole words.list).card :=
    words.inInt64_card (Finset.filter_subset _ _)
  have ended : exec cluster.setting (fuel + 2) self (some head :: words.args) cluster.nodes =
      (.ok (.int (alive cluster.setting.env.now cluster.whole words.list).card),
        advance (routes.map Prod.fst) after cluster.nodes) := by
    rw [exec_del cluster fuel self named words filled, done, delReply, map_map]
    simp only [Function.comp_def, countOf]
    rw [summed, wrap64_of_inInt64 fits]
    rfl
  rw [MatchesUnion, ended, served]
  constructor
  · rintro ⟨sameReply, -, -⟩
    have same : (alive cluster.setting.env.now cluster.whole words.list).card =
        (stored cluster.whole words.list).card :=
      Int.ofNat.inj (Reply.int.inj (Except.ok.inj sameReply))
    exact not_stale_of_card same
  · intro fresh
    have opened : ∀ id key, key ∈ ownedBy cluster.setting id words.list →
        ((cluster.nodes id).db.slots key).opened cluster.setting.env.now =
          (cluster.nodes id).db.slots key := by
      intro id key member
      obtain ⟨isWord, owner⟩ := mem_ownedBy.mp member
      refine opened_of_not_stale fun stale => fresh key isWord ?_
      exact stale_of_agrees (cluster.owned key id owner) stale
    have counted : alive cluster.setting.env.now cluster.whole words.list =
        stored cluster.whole words.list :=
      Finset.filter_congr fun key member => by
        rw [opened_of_not_stale (fresh key (mem_toFinset.mp member))]
    refine ⟨by rw [counted]; rfl, ?_, cluster.unlocked_advance fun id routed => (good id routed).1⟩
    refine (slotwise_delSlot).shows_many wholeSlots defined of
      (fun id routed key owner => ?_) fun id routed key notOwner => ?_
    · rw [(good id routed).2 key]
      by_cases member : key ∈ ownedBy cluster.setting id words.list
      · rw [if_pos member, opened id key member, delSlot, if_pos member, delSlot,
          if_pos (mem_ownedBy.mp member).1]
        exact ⟨rfl, rfl⟩
      · have notWord : key ∉ words.list := fun isWord =>
          member (mem_ownedBy.mpr ⟨isWord, owner⟩)
        rw [if_neg member, delSlot, if_neg member, delSlot, if_neg notWord]
        exact ⟨rfl, rfl⟩
    · have notOwned : key ∉ ownedBy cluster.setting id words.list := fun member =>
        notOwner (mem_ownedBy.mp member).2
      rw [(good id routed).2 key, if_neg notOwned, delSlot, if_neg notOwned]
      exact ⟨rfl, rfl⟩

end Del

variable {head : Str} (words : Words)

theorem del_empty (named : toLower (str (some head)) = lit "del") (empty : words.list = []) :
    MatchesUnion cluster fuel self (some head :: words.args) := by
  have noArgs : words.args = [] := by rw [Words.args, empty, map_nil]
  have served : execNormalCommand cluster.setting.env [some head] cluster.whole =
      (.ok (.argNumErr (lit "del")), cluster.whole) := by
    rw [execNormalCommand, named]
    rfl
  have ended : exec cluster.setting (fuel + 2) self [some head] cluster.nodes =
      (.ok (.argNumErr (lit "del")), cluster.nodes) := by
    rw [exec_of_name fuel self named rfl rfl]
    rfl
  rw [noArgs, MatchesUnion, ended, served]
  exact ⟨rfl, cluster.shows, cluster.unlocked⟩

theorem del_matches_iff (named : toLower (str (some head)) = lit "del") :
    MatchesUnion cluster fuel self (some head :: words.args) ↔ Undisturbed cluster words.list := by
  by_cases empty : words.list = []
  · refine iff_of_true (del_empty cluster fuel self words named empty) ?_
    rw [empty]
    exact ⟨by simp, Or.inr (by simp)⟩
  have filledArgs : words.args ≠ [] := fun noArgs => empty (map_eq_nil_iff.mp noArgs)
  obtain ⟨_, served, -⟩ := execNormalCommand_del cluster.setting.env named filledArgs
    cluster.whole
  refine several_matches_iff cluster fuel self
    (fun id _ => ⟨_, _, rfl, del_part cluster words id⟩) (fun id asked dumps => ?_)
    served (fun _ impossible => by cases impossible)
    (exec_del cluster fuel self named words empty cluster.nodes)
    (fun id owner => del_one cluster fuel self named words empty owner)
    fun dumps defined several => del_many_iff cluster fuel self named words dumps defined several
  obtain ⟨middle, -, prepares, -⟩ := answers_del_part cluster fuel self words asked dumps
  exact ⟨middle, prepares⟩

end Refinement

end Godis.Cluster
