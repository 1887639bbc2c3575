import Godis.Cluster.Migration

/-!
# Mutexes of slots taken twice

`dropSlot` and `execFinishExport` hold the mutex of a slot while they delete or read its keys.  To
remove a key, an expired one that is read included, calls the delete callback, which takes the mutex
of the key's slot.
-/

namespace Godis.Cluster.Host

open Golang Program Database Raft List

variable {F : Type} [Float64 F] {getSlot : Key → Option Nat}

/-! ## Reading a key -/

/-- The key is a sorted set without members, which `EntityToCmd` panics at. -/
def Undumpable (now : Int) (host : Host F getSlot) (key : Key) : Prop :=
  ∃ value deadline, host.space.seen now key = some (value, deadline) ∧ ¬ value.Dumpable

/-- The key has passed its deadline and is still there. -/
def Overdue (now : Int) (host : Host F getSlot) (key : Key) : Prop :=
  (host.space.slots key).value.isSome ∧ (host.space.slots key).expired now = true

variable {value : Value F}

theorem eval_dumpKey {env : Env F} {key : Key} {slot : Slot F} {deadline : Option Int}
    (there : slot.seen env.now = some (value, deadline)) :
    (dumpKey key).eval env slot =
      ((entityToCmd key value).eval env slot).map fun cmd => withExpire key cmd deadline := by
  obtain ⟨live, isValue, rfl⟩ := Slot.live_of_seen there
  have entity : liveAnswer env slot (.look .getEntity) = some value :=
    (answer_getEntity live).trans isValue
  change SlotReader.eval env slot (dumpEntity key (liveAnswer env slot (.look .getEntity))) = _
  rw [entity, dumpEntity]
  unfold SlotReader.eval
  rw [Prog.run_bind]
  generalize Prog.run (fun op (_ : Unit) => (liveAnswer env slot op, ())) (entityToCmd key value) () =
    dumped
  obtain ⟨outcome, _⟩ := dumped
  cases outcome with
  | error reason => rfl
  | ok cmd => rfl

theorem eval_entityToCmd {env : Env F} {key : Key} {slot : Slot F} (dumpable : value.Dumpable) :
    (entityToCmd key value).eval env slot = .ok (dumpLine env key value) := by
  cases value with
  | zset scores =>
    rw [entityToCmd, if_neg dumpable]
    rfl
  | _ => rfl

theorem eval_entityToCmd_panics {env : Env F} {key : Key} {slot : Slot F} (bad : ¬ value.Dumpable) :
    (entityToCmd key value).eval env slot = .error .panic := by
  cases value with
  | zset scores =>
    rw [entityToCmd, if_pos (not_not.mp bad)]
    rfl
  | _ => exact absurd trivial bad

section Reading

variable {held : List Nat} {env : Env F} {key : Key}

theorem perform_read (held : List Nat) (env : Env F) (key : Key) (state : Indexed F getSlot)
    {effect : Effect F (Option (Value F))}
    (entity : Look.exec env.now (state.db.space.slots key) .getEntity = effect) :
    (lookAt key (dumpKey key)).perform (Indexed.handle held env) state =
      Prog.andThen (state.act held key effect) fun entity =>
        (lookAt key (dumpEntity key entity)).perform (Indexed.handle held env) := by
  rw [← entity]
  rfl

variable {now : Int} {slot : Slot F}

omit [Float64 F] in
theorem exec_getEntity_absent (absent : slot.value = none) :
    Look.exec now slot .getEntity = (⟨none, slot, []⟩ : Effect F (Option (Value F))) := by
  simp only [Look.exec, absent]
  rfl

omit [Float64 F] in
theorem exec_getEntity_overdue (there : slot.value.isSome) (expired : slot.expired now = true) :
    Look.exec now slot .getEntity =
      (⟨none, slot.remove, [.deleted true]⟩ : Effect F (Option (Value F))) := by
  obtain ⟨_, isValue⟩ := Option.isSome_iff_exists.mp there
  simp only [Look.exec, isValue, if_pos expired]
  rfl

variable {host : Host F getSlot}

theorem perform_dumpKey {value : Value F} {deadline : Option Int}
    (there : host.space.seen env.now key = some (value, deadline)) (dumpable : value.Dumpable) :
    host.perform held env 0 (lookAt key (dumpKey key)) =
      (.ok (withExpire key (dumpLine env key value) deadline), host) := by
  rw [perform_lookAt (Slot.live_of_seen there).1, eval_dumpKey there,
    eval_entityToCmd dumpable]
  rfl

theorem perform_dumpKey_undumpable (bad : host.Undumpable env.now key) :
    host.perform held env 0 (lookAt key (dumpKey key)) = (.error .panic, host) := by
  obtain ⟨_, _, there, bad⟩ := bad
  rw [perform_lookAt (Slot.live_of_seen there).1, eval_dumpKey there,
    eval_entityToCmd_panics bad]
  rfl

theorem perform_dumpKey_absent (absent : (host.space.slots key).value = none) :
    host.perform held env 0 (lookAt key (dumpKey key)) = (.ok [], host) := by
  have read := perform_read held env key (host.indexed 0) (exec_getEntity_absent absent)
  rw [Indexed.act_silent rfl rfl] at read
  rw [perform_of_indexed read]
  exact Prod.ext rfl (host.withIndexed_indexed 0)

theorem perform_dumpKey_overdue {index : Nat} (hooked : (host.dbSet 0).hooked = true)
    (overdue : host.Overdue env.now key) (found : getSlot key = some index) (own : index ∈ held) :
    (host.perform held env 0 (lookAt key (dumpKey key))).1 = .error .blocked := by
  have read := perform_read held env key (host.indexed 0)
    (exec_getEntity_overdue overdue.1 overdue.2)
  have blocked : ((host.indexed 0).act held key (⟨none, (host.space.slots key).remove,
      [.deleted true]⟩ : Effect F (Option (Value F)))).1 = .error .blocked :=
    Indexed.act_held hooked found own rfl
  rw [perform_of_indexed read]
  exact Prog.andThen_fst_error blocked

theorem perform_dumpKey_unhooked (unhooked : (host.dbSet 0).hooked = false)
    (overdue : host.Overdue env.now key) :
    host.perform held env 0 (lookAt key (dumpKey key)) =
      (.ok [], host.setDb 0 ⟨host.space.write key
        ⟨(host.space.slots key).remove, [.note (.deleted true)]⟩, false⟩) := by
  have read := perform_read held env key (host.indexed 0)
    (exec_getEntity_overdue overdue.1 overdue.2)
  rw [Indexed.act_unhooked unhooked] at read
  rw [perform_of_indexed read, ← unhooked]
  rfl

structure Beside (keys : List Key) (host after : Host F getSlot) : Prop where
  role : after.role = host.role
  requirePass : after.requirePass = host.requirePass
  slotsManager : after.slotsManager = host.slotsManager
  hooked : (after.dbSet 0).hooked = (host.dbSet 0).hooked
  slots : ∀ key ∉ keys, after.space.slots key = host.space.slots key

omit [Float64 F] in
theorem Beside.refl (keys : List Key) (host : Host F getSlot) : Beside keys host host :=
  ⟨rfl, rfl, rfl, rfl, fun _ _ => rfl⟩

omit [Float64 F] in
theorem Beside.cons {key : Key} {rest : List Key} {host between after : Host F getSlot}
    (first : Beside [key] host between) (later : Beside rest between after) :
    Beside (key :: rest) host after where
  role := later.role.trans first.role
  requirePass := later.requirePass.trans first.requirePass
  slotsManager := later.slotsManager.trans first.slotsManager
  hooked := later.hooked.trans first.hooked
  slots other outside := by
    rw [mem_cons, not_or] at outside
    exact (later.slots other outside.2).trans
      (first.slots other fun same => outside.1 (mem_singleton.mp same))

theorem perform_dumpKey_passes (held : List Nat)
    (spared : (host.dbSet 0).hooked = true → ¬ host.Overdue env.now key)
    (dumpable : ¬ host.Undumpable env.now key) :
    ∃ lines after, host.perform held env 0 (lookAt key (dumpKey key)) = (.ok lines, after) ∧
      Beside [key] host after := by
  cases isValue : (host.space.slots key).value with
  | none => exact ⟨[], host, perform_dumpKey_absent isValue, Beside.refl _ host⟩
  | some value =>
    have there : (host.space.slots key).value.isSome := by rw [isValue]; rfl
    by_cases expired : (host.space.slots key).expired env.now = true
    · have unhooked : (host.dbSet 0).hooked = false :=
        Bool.eq_false_iff.mpr fun hooked => spared hooked ⟨there, expired⟩
      refine ⟨[], _, perform_dumpKey_unhooked unhooked ⟨there, expired⟩, rfl, rfl, rfl, ?_, ?_⟩
      · simp only [setDb, Function.update_self, unhooked]
      · intro other outside
        exact host.space.write_slots_ne _ fun same => outside (same ▸ List.mem_singleton_self _)
    · have live : (host.space.slots key).Live env.now := Bool.eq_false_iff.mpr expired
      have seen : host.space.seen env.now key = some (value, (host.space.slots key).deadline) := by
        rw [Space.seen, Slot.seen_of_live live, isValue]
        rfl
      have fine : value.Dumpable := not_not.mp fun bad => dumpable ⟨value, _, seen, bad⟩
      exact ⟨_, host, perform_dumpKey seen fine, Beside.refl _ host⟩

end Reading

/-! ## Reading the keys of a slot -/

section Dumping

/-- No key that the loop comes to has passed its deadline; it comes no further than a sorted set
without members. -/
def Readable (course : Course F) (host : Host F getSlot) : List Key → Prop
  | [] => True
  | key :: rest =>
    ((host.dbSet 0).hooked = true → ¬ host.Overdue (course.keys key).now key) ∧
      (host.Undumpable (course.keys key).now key ∨ Readable course host rest)

def Panics (course : Course F) (host : Host F getSlot) (keys : List Key) : Prop :=
  ∃ key ∈ keys, host.Undumpable (course.keys key).now key

variable {host other : Host F getSlot} {key : Key} {now : Int}

omit [Float64 F] in
theorem Overdue.congr (same : other.space.slots key = host.space.slots key) :
    other.Overdue now key ↔ host.Overdue now key := by
  unfold Overdue
  rw [same]

omit [Float64 F] in
theorem Undumpable.congr (same : other.space.slots key = host.space.slots key) :
    other.Undumpable now key ↔ host.Undumpable now key := by
  unfold Undumpable Space.seen
  rw [same]

theorem dumpData_ends (held : List Nat) (course : Course F) (host : Host F getSlot)
    (keys : List Key) (nodup : keys.Nodup)
    (own : ∀ key ∈ keys, ∃ index ∈ held, getSlot key = some index) (sending : Sending F getSlot)
    (hooked : (sending.host.dbSet 0).hooked = (host.dbSet 0).hooked)
    (alike : ∀ key ∈ keys, sending.host.space.slots key = host.space.slots key) :
    ¬ Readable course host keys ∧ (dumpData held course keys sending).1 = .error .blocked ∨
      Readable course host keys ∧ Panics course host keys ∧
        (dumpData held course keys sending).1 = .error .panic ∨
      Readable course host keys ∧ ¬ Panics course host keys ∧
        (dumpData held course keys sending).1 = .ok () ∧
        Beside keys sending.host (dumpData held course keys sending).2.host := by
  induction keys generalizing sending with
  | nil =>
    refine .inr (.inr ⟨trivial, ?_, rfl, Beside.refl _ _⟩)
    rintro ⟨_, inside, _⟩
    cases inside
  | cons key rest ih =>
    have here := alike key mem_cons_self
    obtain ⟨_, isHeld, found⟩ := own key mem_cons_self
    rw [dumpData]
    by_cases blocks : (host.dbSet 0).hooked = true ∧ host.Overdue (course.keys key).now key
    · refine .inl ⟨fun readable => readable.1 blocks.1 blocks.2, ?_⟩
      exact Prog.andThen_fst_error (perform_dumpKey_overdue (hooked.trans blocks.1)
        ((Overdue.congr here).mpr blocks.2) found isHeld)
    have passes : (host.dbSet 0).hooked = true → ¬ host.Overdue (course.keys key).now key :=
      fun isHooked overdue => blocks ⟨isHooked, overdue⟩
    by_cases bad : host.Undumpable (course.keys key).now key
    · refine .inr (.inl ⟨⟨passes, .inl bad⟩, ⟨key, mem_cons_self, bad⟩, ?_⟩)
      simp only [perform_dumpKey_undumpable ((Undumpable.congr here).mpr bad), Prog.andThen_error]
    obtain ⟨lines, after, read, beside⟩ := perform_dumpKey_passes held
      (fun isHooked overdue => passes (hooked.symm.trans isHooked) ((Overdue.congr here).mp overdue))
      (fun undumpable => bad ((Undumpable.congr here).mp undumpable))
    simp only [read, Prog.andThen_ok]
    have fresh := (nodup_cons.mp nodup).1
    have others : ∀ other ∈ rest, after.space.slots other = host.space.slots other :=
      fun other inside => (beside.slots other fun same =>
        fresh (mem_singleton.mp same ▸ inside)).trans
          (alike other (mem_cons_of_mem key inside))
    rcases ih (nodup_cons.mp nodup).2
        (fun other inside => own other (mem_cons_of_mem key inside))
        ⟨after, sending.sent ++ lines⟩ (beside.hooked.trans hooked) others with
      ⟨unreadable, ended⟩ | ⟨readable, ⟨other, inside, stops⟩, ended⟩ |
        ⟨readable, never, ended, further⟩
    · exact .inl ⟨fun readable => readable.2.elim bad unreadable, ended⟩
    · exact .inr (.inl ⟨⟨passes, .inr readable⟩, ⟨other, mem_cons_of_mem key inside, stops⟩,
        ended⟩)
    · refine .inr (.inr ⟨⟨passes, .inr readable⟩, ?_, ended, beside.cons further⟩)
      rintro ⟨other, inside, stops⟩
      rcases mem_cons.mp inside with rfl | inside
      · exact bad stops
      · exact never ⟨other, inside, stops⟩

end Dumping

/-! ## Finishing an export -/

section Finishing

variable {course : Course F} {host : Host F getSlot}

def dirtyOf (course : Course F) (host : Host F getSlot) (index : Nat) : List Key :=
  course.sets.order (host.slotsManager.statusOf index).state.dirtyKeys

/-- The slots that the loop comes to are distinct and their dirty keys can be read; it comes no
further than a key that makes it panic. -/
def Finishable (course : Course F) (host : Host F getSlot) : List Nat → List Nat → Prop
  | _, [] => True
  | locked, index :: rest =>
    index ∉ locked ∧ Readable course host (host.dirtyOf course index) ∧
      (Panics course host (host.dirtyOf course index) ∨
        Finishable course host (index :: locked) rest)

/-- The second node is the first one as far as slots that are not locked go. -/
structure Unlocked (locked : List Nat) (host after : Host F getSlot) : Prop where
  hooked : (after.dbSet 0).hooked = (host.dbSet 0).hooked
  status : ∀ index ∉ locked, after.slotsManager.statusOf index = host.slotsManager.statusOf index
  slots : ∀ key index, getSlot key = some index → index ∉ locked →
    after.space.slots key = host.space.slots key

variable {index : Nat} {locked : List Nat}

omit [Float64 F] in
theorem slot_of_dirtyOf {key : Key} (dirty : key ∈ host.dirtyOf course index) :
    getSlot key = some index :=
  host.slotsManager.slot_of_statusOf (.inr (.inr ((course.sets.mem_order _ key).mp dirty)))

omit [Float64 F] in
theorem Unlocked.finish {between after : Host F getSlot} (unlocked : Unlocked locked host between)
    (beside : Beside (host.dirtyOf course index) between after) :
    Unlocked (index :: locked) host
      (after.withManager (after.slotsManager.finishExporting index)) where
  hooked := beside.hooked.trans unlocked.hooked
  status other free := by
    rw [mem_cons, not_or] at free
    rw [← unlocked.status other free.2, ← beside.slotsManager]
    exact (after.slotsManager.finishExporting_statusOf index other).trans (if_neg free.1)
  slots key other found free := by
    rw [mem_cons, not_or] at free
    rw [← unlocked.slots key other found free.2]
    refine beside.slots key fun dirty => free.1 ?_
    exact Option.some.inj (found.symm.trans (slot_of_dirtyOf dirty))

theorem finishSlots_blocked_iff {slots : List Nat} (sending : Sending F getSlot)
    (unlocked : Unlocked locked host sending.host) :
    (finishSlots course locked slots sending).1 = .error .blocked ↔
      ¬ Finishable course host locked slots := by
  induction slots generalizing locked sending with
  | nil =>
    refine iff_of_false (fun blocked => ?_) (not_not.mpr trivial)
    cases blocked
  | cons index rest ih =>
    rw [finishSlots]
    by_cases again : index ∈ locked
    · rw [if_pos again]
      exact iff_of_true rfl fun finishable => finishable.1 again
    rw [if_neg again]
    have ends := dumpData_ends (index :: locked) course host (host.dirtyOf course index)
      (course.sets.order_nodup _)
      (fun key dirty => ⟨index, mem_cons_self, slot_of_dirtyOf dirty⟩) sending
      unlocked.hooked (fun key dirty => unlocked.slots key index (slot_of_dirtyOf dirty) again)
    rw [unlocked.status index again]
    change (Prog.andThen (dumpData (index :: locked) course (host.dirtyOf course index) sending)
      _).1 = _ ↔ _
    generalize dumpData (index :: locked) course (host.dirtyOf course index) sending = dumped
      at ends ⊢
    obtain ⟨_, _⟩ := dumped
    rcases ends with ⟨unreadable, rfl⟩ | ⟨readable, panics, rfl⟩ | ⟨readable, never, rfl, beside⟩
    · exact iff_of_true rfl fun finishable => unreadable finishable.2.1
    · refine iff_of_false (fun blocked => ?_) (not_not.mpr ⟨again, readable, .inl panics⟩)
      cases blocked
    · rw [Prog.andThen_ok, ih _ (unlocked.finish beside)]
      refine not_congr ⟨fun later => ⟨again, readable, .inr later⟩, fun finishable => ?_⟩
      exact finishable.2.2.resolve_left never

end Finishing

/-! ## Deleting the keys of a slot -/

section Dropping

variable {held : List Nat} {env : Env F} {key : Key}

omit [Float64 F] in
theorem perform_peek {state : Indexed F getSlot} :
    (lookAt key peek).perform (Indexed.handle held env) state =
      (.ok (state.db.space.slots key).value, state) := by
  have silent : state.act held key (Look.exec env.now (state.db.space.slots key) .peek) = _ :=
    Indexed.act_silent rfl rfl
  change Prog.andThen (state.act held key (Look.exec env.now (state.db.space.slots key) .peek)) _ = _
  rw [silent]
  rfl

omit [Float64 F] in
theorem perform_del_absent (held : List Nat) (env : Env F) (state : Indexed F getSlot)
    (absent : (state.db.space.slots key).value = none) :
    (execDel [some key]).perform (Indexed.handle held env) state = (.ok (.int 0), state) := by
  rw [execDel, Prog.perform_bind, show [some key].map str = [key] from rfl, removes,
    Prog.perform_bind, perform_peek, absent]
  rfl

omit [Float64 F] in
theorem perform_del (held : List Nat) (env : Env F) (state : Indexed F getSlot)
    (there : (state.db.space.slots key).value.isSome) :
    (execDel [some key]).perform (Indexed.handle held env) state =
      Prog.andThen (state.act held key (Change.exec (state.db.space.slots key) .remove)) fun _ after =>
        (.ok (.int 1), after.withSpace { after.db.space with
          events := after.db.space.events ++ [.logged (toCmdLine "del" [some key])] }) := by
  obtain ⟨_, isValue⟩ := Option.isSome_iff_exists.mp there
  rw [execDel, Prog.perform_bind, show [some key].map str = [key] from rfl, removes,
    Prog.perform_bind, perform_peek, isValue]
  change Prog.andThen (Prog.andThen (state.act held key
    (Change.exec (state.db.space.slots key) .remove)) _) _ = _
  generalize state.act held key (Change.exec (state.db.space.slots key) .remove) = removed
  obtain ⟨outcome, _⟩ := removed
  cases outcome with
  | ok done => rfl
  | error reason => rfl

def bumped (host : Host F getSlot) (key : Key) : Host F getSlot :=
  host.setDb 0 { host.dbSet 0 with space := host.space.addVersion [key] }

theorem execNormalCommand_del (held : List Nat) (env : Env F) (key : Key) (host : Host F getSlot) :
    host.execNormalCommand held env (toCmdLineOfStr "del" [key]) =
      (host.bumped key).perform held env 0 (execDel [some key]) :=
  rfl

def Deletes (host : Host F getSlot) : Prop :=
  host.requirePass = [] ∧ host.role = .masterRole ∧ (host.dbSet 0).hooked = true

variable {keys : List Key}

omit [Float64 F] in
theorem Beside.deletes {host after : Host F getSlot} (beside : Beside keys host after) :
    after.Deletes ↔ host.Deletes := by
  unfold Deletes
  rw [beside.requirePass, beside.role, beside.hooked]

variable {host : Host F getSlot}

omit [Float64 F] in
theorem bumped_value (host : Host F getSlot) (key : Key) :
    ((host.bumped key).space.slots key).value = (host.space.slots key).value := by
  exact (host.space.addVersion_slot [key] key).1

omit [Float64 F] in
theorem Beside.bumped (host : Host F getSlot) (key : Key) : Beside [key] host (host.bumped key) where
  role := rfl
  requirePass := rfl
  slotsManager := rfl
  hooked := by
    simp only [Host.bumped, setDb, Function.update_self]
  slots other outside := by
    exact Function.update_of_ne (fun same => outside (mem_singleton.mpr same)) _ _

theorem localExec_del_blocked {index : Nat} (deletes : host.Deletes)
    (there : (host.space.slots key).value.isSome) (found : getSlot key = some index)
    (own : index ∈ held) :
    (host.localExec held env (toCmdLineOfStr "del" [key])).1 = .error .blocked := by
  obtain ⟨noPass, master, hooked⟩ := deletes
  have executed : (host.execNormalCommand held env (toCmdLineOfStr "del" [key])).1 =
      .error .blocked := by
    have there' : ((host.bumped key).space.slots key).value.isSome := by
      rw [bumped_value]
      exact there
    rw [execNormalCommand_del, perform_of_indexed (perform_del held env ((host.bumped key).indexed 0) there')]
    exact Prog.andThen_fst_error (Indexed.act_held ((Beside.bumped host key).hooked.trans hooked)
      found own rfl)
  unfold localExec
  rw [if_neg (not_not.mpr noPass), if_neg]
  · generalize host.execNormalCommand held env (toCmdLineOfStr "del" [key]) = ended at executed ⊢
    obtain ⟨_, _⟩ := ended
    cases executed
    rfl
  · rintro ⟨slave, _⟩
    rw [master] at slave
    cases slave

theorem execNormalCommand_del_passes
    (spared : (host.dbSet 0).hooked = true → (host.space.slots key).value = none) :
    ∃ reply after, host.execNormalCommand held env (toCmdLineOfStr "del" [key]) =
      (.ok reply, after) ∧ Beside [key] host after := by
  have bumped := Beside.bumped host key
  rw [execNormalCommand_del]
  cases isValue : (host.space.slots key).value with
  | none =>
    have performed := perform_of_indexed (perform_del_absent held env ((host.bumped key).indexed 0)
      ((bumped_value host key).trans isValue))
    rw [performed]
    refine ⟨_, _, rfl, ?_⟩
    rw [withIndexed_indexed]
    exact bumped
  | some value =>
    have unhooked : (host.dbSet 0).hooked = false := Bool.eq_false_iff.mpr fun hooked => by
      rw [spared hooked] at isValue
      cases isValue
    have there : ((host.bumped key).space.slots key).value.isSome := by
      rw [bumped_value, isValue]
      rfl
    have performed := perform_of_indexed (perform_del held env ((host.bumped key).indexed 0) there)
    have unhooked' : ((host.bumped key).indexed 0).db.hooked = false := bumped.hooked.trans unhooked
    rw [Indexed.act_unhooked unhooked'] at performed
    rw [performed]
    refine ⟨_, _, rfl, rfl, rfl, rfl, ?_, fun other outside => ?_⟩
    · exact bumped.hooked
    · rw [← bumped.slots other outside]
      exact Space.write_slots_ne _ _ fun same => outside (mem_singleton.mpr same)

theorem localExec_del_passes (held : List Nat) (env : Env F) (host : Host F getSlot) (key : Key)
    (spared : host.Deletes → (host.space.slots key).value = none) :
    ∃ reply after, host.localExec held env (toCmdLineOfStr "del" [key]) = (.ok reply, after) ∧
      Beside [key] host after := by
  unfold localExec
  by_cases noPass : host.requirePass = []
  · rw [if_neg (not_not.mpr noPass)]
    split
    · exact ⟨_, host, rfl, Beside.refl _ host⟩
    · rename_i notSlave
      have master : host.role = .masterRole := by
        cases isRole : host.role with
        | masterRole => rfl
        | slaveRole => exact absurd ⟨isRole, rfl⟩ notSlave
      obtain ⟨reply, after, ended, beside⟩ := execNormalCommand_del_passes
        fun hooked => spared ⟨noPass, master, hooked⟩
      rw [ended]
      exact ⟨reply, after, rfl, beside⟩
  · rw [if_pos noPass]
    exact ⟨_, host, rfl, Beside.refl _ host⟩

theorem dropKeys_blocked_iff (held : List Nat) (course : Course F) (host : Host F getSlot)
    (nodup : keys.Nodup) (own : ∀ key ∈ keys, ∃ index ∈ held, getSlot key = some index)
    (between : Host F getSlot) (deletes : between.Deletes ↔ host.Deletes)
    (alike : ∀ key ∈ keys, between.space.slots key = host.space.slots key) :
    (dropKeys held course keys between).1 = .error .blocked ↔
      host.Deletes ∧ ∃ key ∈ keys, (host.space.slots key).value.isSome := by
  induction keys generalizing between with
  | nil =>
    refine iff_of_false (fun blocked => ?_) ?_
    · cases blocked
    · rintro ⟨_, _, inside, _⟩
      cases inside
  | cons key rest ih =>
    rw [dropKeys]
    have here := alike key mem_cons_self
    obtain ⟨_, isHeld, found⟩ := own key mem_cons_self
    by_cases blocks : host.Deletes ∧ (host.space.slots key).value.isSome
    · refine iff_of_true (Prog.andThen_fst_error ?_) ⟨blocks.1, key, mem_cons_self, blocks.2⟩
      exact localExec_del_blocked (deletes.mpr blocks.1) (here ▸ blocks.2) found isHeld
    have spared : between.Deletes → (between.space.slots key).value = none := by
      intro isDeleting
      rw [here]
      exact Option.not_isSome_iff_eq_none.mp fun there => blocks ⟨deletes.mp isDeleting, there⟩
    obtain ⟨_, after, ended, beside⟩ :=
      localExec_del_passes held (course.keys key) between key spared
    have fresh := (nodup_cons.mp nodup).1
    rw [ended, Prog.andThen_ok, ih (nodup_cons.mp nodup).2
      (fun other inside => own other (mem_cons_of_mem key inside)) after
      (beside.deletes.trans deletes) fun other inside =>
        (beside.slots other fun same => fresh (mem_singleton.mp same ▸ inside)).trans
          (alike other (mem_cons_of_mem key inside))]
    refine and_congr_right fun isDeleting => ?_
    constructor
    · rintro ⟨other, inside, there⟩
      exact ⟨other, mem_cons_of_mem key inside, there⟩
    · rintro ⟨other, inside, there⟩
      rcases mem_cons.mp inside with rfl | inside
      · exact absurd ⟨isDeleting, there⟩ blocks
      · exact ⟨other, inside, there⟩

theorem dropSlot_blocked_iff {course : Course F} {index : Nat} :
    (host.dropSlot course index).1 = .error .blocked ↔
      host.Deletes ∧ ∃ key ∈ (host.slotsManager.statusOf index).keys,
        (host.space.slots key).value.isSome := by
  unfold dropSlot SlotsManager.statusOf
  cases found : host.slotsManager.slots index with
  | none =>
    refine iff_of_false (fun blocked => ?_) ?_
    · cases blocked
    · rintro ⟨_, _, inside, _⟩
      cases inside
  | some status =>
    have drops := dropKeys_blocked_iff [index] course host
      (course.sets.order_nodup status.keys) (fun key inside => ⟨index, List.mem_singleton_self index,
        host.slotsManager.slot_of_names index status key found
          (.inl ((course.sets.mem_order _ key).mp inside))⟩) host Iff.rfl fun _ _ => rfl
    simp only [course.sets.mem_order] at drops
    simp only [Option.getD_some]
    rw [← drops]
    exact Prog.andThen_fst_error_iff fun _ _ => ⟨(), rfl⟩

end Dropping

/-! ## Both -/

theorem execFinishExport_blocked_iff {course : Course F} (polled : Option MigratingTask)
    (leader : Except Str Reply) {line : Line} {host : Host F getSlot} :
    (host.execFinishExport course polled leader line).1 = .error .blocked ↔
      line.length = 2 ∧ ∃ task, polled = some task ∧ ¬ Finishable course host [] task.slots := by
  unfold execFinishExport
  by_cases arity : line.length = 2
  · rw [if_neg (not_not.mpr arity)]
    cases polled with
    | none =>
      refine iff_of_false (fun blocked => ?_) ?_
      · cases blocked
      · rintro ⟨_, _, isTask, _⟩
        cases isTask
    | some task =>
      have start : Unlocked [] host (⟨host, []⟩ : Sending F getSlot).host :=
        ⟨rfl, fun _ _ => rfl, fun _ _ _ _ => rfl⟩
      rw [Prog.andThen_fst_error_iff fun _ _ => ⟨_, rfl⟩, finishSlots_blocked_iff _ start]
      constructor
      · exact fun unfinishable => ⟨arity, task, rfl, unfinishable⟩
      · rintro ⟨_, _, isTask, unfinishable⟩
        cases isTask
        exact unfinishable
  · rw [if_pos arity]
    refine iff_of_false (fun blocked => ?_) fun found => arity found.1
    cases blocked

/-- Neither function takes the mutex of a slot it holds, unless it deletes a key that is there,
comes to a slot that the task lists a second time, or reads a dirty key that has passed its
deadline. -/
theorem never_relocks_iff (course : Course F) (index : Nat) (polled : Option MigratingTask)
    (leader : Except Str Reply) (line : Line) (host : Host F getSlot) :
    (host.dropSlot course index).1 ≠ .error .blocked ∧
        (host.execFinishExport course polled leader line).1 ≠ .error .blocked ↔
      (host.Deletes → ∀ key ∈ (host.slotsManager.statusOf index).keys,
          (host.space.slots key).value = none) ∧
        (line.length = 2 → ∀ task, polled = some task → Finishable course host [] task.slots) := by
  rw [ne_eq, ne_eq, dropSlot_blocked_iff, execFinishExport_blocked_iff]
  refine and_congr ⟨fun spared deletes key inside => ?_, ?_⟩ ⟨fun spared arity task isTask => ?_, ?_⟩
  · exact Option.not_isSome_iff_eq_none.mp fun there => spared ⟨deletes, key, inside, there⟩
  · rintro spared ⟨deletes, key, inside, there⟩
    rw [spared deletes key inside] at there
    cases there
  · exact not_not.mp fun unfinishable => spared ⟨arity, task, isTask, unfinishable⟩
  · rintro spared ⟨arity, task, isTask, unfinishable⟩
    exact unfinishable (spared arity task isTask)

def oneClock (now : Int) : Course Digit :=
  ⟨Env.plain now, fun _ => Env.plain now⟩

def slotZero : MigratingTask :=
  ⟨lit "task", lit "source", lit "target", [0]⟩

/-- A key is set for one millisecond while its slot is exported. -/
def dirtied : Host Digit fun _ => some 0 :=
  let started : Host Digit fun _ => some 0 := .start [] fun _ => .empty
  let exporting := started.execExport (oneClock 0) (some slotZero)
    (toCmdLineOfStr "cluster.migration.export" [lit "task"])
  (exporting.2.host.execNormalCommand [] (Env.plain 0)
    (toCmdLineOfStr "set" [lit "k", lit "v", lit "px", lit "1"])).2

theorem slot_mutex_taken_twice :
    (dirtied.dropSlot (oneClock 0) 0).1 = .error .blocked ∧
      (dirtied.execFinishExport (oneClock 2000000) (some slotZero) (.ok .ok)
        (toCmdLineOfStr "cluster.migration.done" [lit "task"])).1 = .error .blocked :=
  ⟨rfl, rfl⟩

end Godis.Cluster.Host


