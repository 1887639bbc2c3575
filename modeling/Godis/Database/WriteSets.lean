import Godis.Database.Careful

/-!
# Declared keys

The prepare function of a command names the keys it writes and those it reads.  Here the
executors are compared with these lists.
-/

namespace Godis.Database

open Golang Program List

variable {F α : Type}

/-- The operation changes keys of the first list and looks at keys of both. -/
def DbOp.Within (written read : List Key) : DbOp F → Prop
  | .look key _ => key ∈ written ++ read
  | .change key _ => key ∈ written
  | .move source dest => source ∈ written ∧ dest ∈ written
  | .replace source dest => source ∈ written ∧ dest ∈ written
  | .log _ => True
  | .survey _ => False
  | .ask _ => True

def DbLook.Within (read : List Key) : DbLook F → Prop
  | .look key _ => key ∈ read
  | .survey _ => False
  | .ask _ => True

/-! ## What such operations do -/

namespace Space

theorem act_slots_ne (space : Space F) {key other : Key} (effect : Effect F α)
    (different : other ≠ key) : (space.act key effect).2.slots other = space.slots other :=
  space.write_slots_ne _ different

theorem move_slots_ne (space : Space F) {source dest other : Key} (notSource : other ≠ source)
    (notDest : other ≠ dest) : (space.move source dest).slots other = space.slots other := by
  unfold move
  split
  · rfl
  · exact (act_slots_ne _ _ notSource).trans (act_slots_ne _ _ notDest)

theorem removeIfPresent_slots_ne {space : Space F} {key other : Key} (different : other ≠ key) :
    (space.removeIfPresent key).slots other = space.slots other := by
  unfold removeIfPresent
  split
  · exact act_slots_ne _ _ different
  · rfl

theorem replace_slots_ne (space : Space F) {source dest other : Key} (notSource : other ≠ source)
    (notDest : other ≠ dest) : (space.replace source dest).slots other = space.slots other := by
  unfold replace
  split
  · rfl
  · exact (act_slots_ne _ _ notDest).trans ((removeIfPresent_slots_ne notDest).trans
      (removeIfPresent_slots_ne notSource))

/-- The spaces agree on the keys, and the same has happened in both since they were as given. -/
structure Agree (known : Key → Prop) (start start' : Space F) (space space' : Space F) : Prop where
  slots : ∀ key, known key → space.slots key = space'.slots key
  events : ∃ new, space.events = start.events ++ new ∧ space'.events = start'.events ++ new

variable {known : Key → Prop} {start start' space space' : Space F}

variable (agree : Agree known start start' space space')
include agree

theorem Agree.act (key : Key) (effect : Effect F α) :
    Agree known start start' (space.act key effect).2 (space'.act key effect).2 := by
  constructor
  · intro other member
    change (space.write key _).slots other = (space'.write key _).slots other
    rw [write_slots, write_slots, agree.slots other member]
  · obtain ⟨new, here, there⟩ := agree.events
    refine ⟨new ++ (effect.notes.map SlotEvent.note).map (·.at key), ?_, ?_⟩
    · change space.events ++ _ = _
      rw [here, append_assoc]
    · change space'.events ++ _ = _
      rw [there, append_assoc]

theorem Agree.removeIfPresent {key : Key} (member : known key) :
    Agree known start start' (space.removeIfPresent key) (space'.removeIfPresent key) := by
  unfold Space.removeIfPresent
  rw [agree.slots key member]
  split
  · exact agree.act key _
  · exact agree

theorem Agree.move {source dest : Key} (sourceKnown : known source) (destKnown : known dest) :
    Agree known start start' (space.move source dest) (space'.move source dest) := by
  unfold Space.move
  rw [agree.slots source sourceKnown]
  split
  · exact agree
  · rw [agree.slots dest destKnown]
    have placed := agree.act dest ((space'.slots dest).putEntity ‹_›)
    dsimp only
    rw [placed.slots source sourceKnown]
    exact placed.act source _

theorem Agree.replace {source dest : Key} (sourceKnown : known source) (destKnown : known dest) :
    Agree known start start' (space.replace source dest) (space'.replace source dest) := by
  unfold Space.replace
  rw [agree.slots source sourceKnown]
  split
  · exact agree
  · have cleared := (agree.removeIfPresent sourceKnown).removeIfPresent destKnown
    dsimp only
    rw [cleared.slots dest destKnown]
    exact cleared.act dest _

end Space

section Operations

variable {written read : List Key} (env : Env F)

theorem seen_of_within {op : DbOp F} (within : op.Within written read) (space : Space F) {key : Key}
    (outside : key ∉ written) :
    (dbHandle env op space).2.seen env.now key = space.seen env.now key := by
  have different : ∀ {other}, other ∈ written → key ≠ other := fun member same =>
    outside (same ▸ member)
  cases op with
  | look target method => exact seen_of_look env (.look target method) space trivial key
  | change target method =>
    exact congrArg (Slot.seen env.now) (space.act_slots_ne _ (different within))
  | move source dest =>
    exact congrArg (Slot.seen env.now)
      (space.move_slots_ne (different within.1) (different within.2))
  | replace source dest =>
    exact congrArg (Slot.seen env.now)
      (space.replace_slots_ne (different within.1) (different within.2))
  | log line => rfl
  | survey question => exact absurd within id
  | ask question => rfl

theorem agree_of_within {op : DbOp F} (within : op.Within written read) {known : Key → Prop}
    (all : ∀ key ∈ written ++ read, known key) {start start' space space' : Space F}
    (agree : Space.Agree known start start' space space') :
    (dbHandle env op space).1 = (dbHandle env op space').1 ∧
      Space.Agree known start start' (dbHandle env op space).2 (dbHandle env op space').2 := by
  have isKnown : ∀ {key}, key ∈ written → known key := fun member => all _ (mem_append_left _ member)
  cases op with
  | look target method =>
    simp only [dbHandle, agree.slots target (all target within)]
    exact ⟨rfl, agree.act target _⟩
  | change target method =>
    simp only [dbHandle, agree.slots target (isKnown within)]
    exact ⟨rfl, agree.act target _⟩
  | move source dest => exact ⟨rfl, agree.move (isKnown within.1) (isKnown within.2)⟩
  | replace source dest => exact ⟨rfl, agree.replace (isKnown within.1) (isKnown within.2)⟩
  | log line =>
    refine ⟨rfl, agree.slots, ?_⟩
    obtain ⟨new, here, there⟩ := agree.events
    refine ⟨new ++ [.logged line], ?_, ?_⟩
    · change space.events ++ _ = _
      rw [here, append_assoc]
    · change space'.events ++ _ = _
      rw [there, append_assoc]
  | survey question => exact absurd within id
  | ask question => exact ⟨rfl, agree⟩

theorem seen_of_uses_within {program : DbProg F α} (uses : program.Uses (DbOp.Within written read))
    (space : Space F) {key : Key} (outside : key ∉ written) :
    (program.run (dbHandle env) space).2.seen env.now key = space.seen env.now key :=
  uses.run_preserves (fun reached : Space F => reached.seen env.now key = space.seen env.now key)
    (fun _ state within holds => (seen_of_within env within state outside).trans holds) rfl

end Operations

/-! ## Executors -/

section Rules

variable {written read keys : List Key}

theorem within_mono {written' read' : List Key} (more : ∀ key ∈ written, key ∈ written')
    (all : ∀ key ∈ written ++ read, key ∈ written' ++ read') (op : DbOp F)
    (within : op.Within written read) : op.Within written' read' := by
  cases op with
  | look key method => exact all key within
  | change key method => exact more key within
  | move source dest | replace source dest => exact ⟨more source within.1, more dest within.2⟩
  | log line | ask question => trivial
  | survey question => exact within

theorem within_onKey {key : Key} (member : key ∈ written) {program : SlotProg F α} :
    (onKey key program).Uses (DbOp.Within written read) := by
  refine Prog.Uses.of_sent fun op => ?_
  cases op with
  | look method => exact mem_append_left _ member
  | change method => exact member
  | log line | ask question => trivial

theorem within_lookup {program : DbReader F α} (uses : program.Uses (DbLook.Within keys))
    (known : ∀ key ∈ keys, key ∈ written ++ read) :
    (lookup program).Uses (DbOp.Within written read) := by
  refine uses.translate fun op within => ?_
  cases op with
  | look key method => exact known key within
  | survey question => exact within
  | ask question => trivial

theorem within_readAt {key : Key} (member : key ∈ keys) {program : SlotReader F α} :
    (readAt key program).Uses (DbLook.Within keys) := by
  refine Prog.Uses.of_sent fun op => ?_
  cases op with
  | look method => exact member
  | ask question => trivial

theorem within_lookAt {key : Key} (member : key ∈ written ++ read) {program : SlotReader F α} :
    (lookAt key program).Uses (DbOp.Within written read) :=
  within_lookup (within_readAt (mem_singleton.mpr rfl)) (by simpa using member)

end Rules

section Readers

variable {keys : List Key}

variable {args : List Bytes} (known : ∀ arg ∈ args, str arg ∈ keys)
include known

theorem within_getStrings : (getStrings args : DbReader F _).Uses (DbLook.Within keys) := by
  induction args with
  | nil => trivial
  | cons key rest ih =>
    obtain ⟨here, later⟩ := forall_mem_cons.mp known
    exact (within_readAt here).bind fun bytes => (ih later).bind fun others => trivial

theorem within_countExisting : (countExisting args : DbReader F _).Uses (DbLook.Within keys) := by
  induction args with
  | nil => trivial
  | cons key rest ih =>
    obtain ⟨here, later⟩ := forall_mem_cons.mp known
    exact (within_readAt here).bind fun entity => (ih later).bind fun others => trivial

theorem within_anyExists : (anyExists args : DbReader F _).Uses (DbLook.Within keys) := by
  induction args with
  | nil => trivial
  | cons key rest ih =>
    obtain ⟨here, later⟩ := forall_mem_cons.mp known
    refine (within_readAt here).bind fun entity => ?_
    cases entity with
    | none => exact ih later
    | some value => trivial

omit known

theorem within_replyWith {members : Finset Str} :
    (replyWith members : DbReader F _).Uses (DbLook.Within keys) :=
  ⟨trivial, fun _ => trivial⟩

end Readers

section Changers

variable {written read : List Key}

theorem within_removes {keys : List Key} (known : ∀ key ∈ keys, key ∈ written) :
    (removes keys : DbProg F _).Uses (DbOp.Within written read) := by
  induction keys with
  | nil => trivial
  | cons key rest ih =>
    obtain ⟨here, later⟩ := forall_mem_cons.mp known
    refine (within_lookAt (mem_append_left _ here)).bind fun entity => ?_
    cases entity with
    | none => exact ih later
    | some value =>
      exact (within_onKey here).bind fun _ => (ih later).bind fun count => trivial

theorem within_putAll {entries : List (Bytes × Bytes)}
    (known : ∀ entry ∈ entries, str entry.1 ∈ written) :
    (putAll entries : DbProg F _).Uses (DbOp.Within written read) := by
  induction entries with
  | nil => trivial
  | cons entry rest ih =>
    obtain ⟨here, later⟩ := forall_mem_cons.mp known
    exact (within_onKey here).bind fun _ => ih later

theorem within_log {line : Line} :
    (Prog.ask (DbOp.log line) : DbProg F _).Uses (DbOp.Within written read) :=
  ⟨trivial, fun _ => trivial⟩

variable (args : List Bytes)

theorem within_execDel :
    (execDel args : DbProg F _).Uses (DbOp.Within (args.map str) read) := by
  refine (within_removes fun key member => member).bind fun deleted => ?_
  split
  · exact (within_log).bind fun _ => trivial
  · trivial

theorem within_execMSet :
    (execMSet args : DbProg F _).Uses
      (DbOp.Within ((pairs args).map fun pair => str pair.1) read) := by
  have known : ∀ entry ∈ pairs args, str entry.1 ∈ (pairs args).map fun pair => str pair.1 :=
    fun entry member => mem_map_of_mem (f := fun pair : Bytes × Bytes => str pair.1) member
  unfold execMSet
  split
  · trivial
  · exact (within_putAll known).bind fun _ => (within_log).bind fun _ => trivial

theorem within_execMSetNX :
    (execMSetNX args : DbProg F _).Uses
      (DbOp.Within ((pairs args).map fun pair => str pair.1) read) := by
  have known : ∀ entry ∈ pairs args, str entry.1 ∈ (pairs args).map fun pair => str pair.1 :=
    fun entry member => mem_map_of_mem (f := fun pair : Bytes × Bytes => str pair.1) member
  have asked : ∀ arg ∈ (pairs args).map Prod.fst,
      str arg ∈ (pairs args).map fun pair => str pair.1 := by
    intro arg member
    obtain ⟨pair, inside, rfl⟩ := mem_map.mp member
    exact known pair inside
  unfold execMSetNX
  split
  · trivial
  · refine (within_lookup (within_anyExists asked) fun key member =>
      mem_append_left _ member).bind fun found => ?_
    cases found with
    | true => trivial
    | false => exact (within_putAll known).bind fun _ => (within_log).bind fun _ => trivial

theorem within_execRPopLPush :
    (execRPopLPush args : DbProg F _).Uses
      (DbOp.Within (firstKey args ++ firstKey args.tail) read) := by
  unfold execRPopLPush
  split
  · rename_i source dest more
    have hasSource : str source ∈ firstKey (source :: dest :: more) ++ firstKey (dest :: more) := by
      simp [firstKey]
    have hasDest : str dest ∈ firstKey (source :: dest :: more) ++ firstKey (dest :: more) := by
      simp [firstKey]
    refine (within_lookAt (mem_append_left _ hasSource)).bind fun found => ?_
    split
    · trivial
    · trivial
    · refine (within_onKey hasDest).bind fun created => ?_
      split
      · trivial
      · refine (within_onKey hasSource).bind fun _ =>
          (within_lookAt (mem_append_left _ hasDest)).bind fun destination =>
            (within_onKey hasDest).bind fun _ =>
              (within_lookAt (mem_append_left _ hasSource)).bind fun left => ?_
        split
        · exact (within_onKey hasSource).bind fun _ => (within_log).bind fun _ => trivial
        · exact (within_log).bind fun _ => trivial
  · trivial

theorem within_execSInterStore :
    (execSInterStore args : DbProg F _).Uses
      (DbOp.Within (firstKey args) (args.tail.map str)) := by
  unfold execSInterStore
  split
  · refine (within_lookup (uses_getNonEmptySets fun arg member =>
      within_readAt (mem_map_of_mem member)) fun key member => mem_append_right _ member).bind
        fun found => ?_
    split
    · trivial
    · exact within_onKey (by simp [firstKey])
  · trivial

theorem within_storeSet {name : String} {combine : List (Finset Str) → Finset Str}
    {args : List Bytes} :
    (storeSet name combine args : DbProg F _).Uses
      (DbOp.Within (firstKey args) (args.tail.map str)) := by
  unfold storeSet
  split
  · refine (within_lookup (uses_getSets fun arg member =>
      within_readAt (mem_map_of_mem member)) fun key member => mem_append_right _ member).bind fun found => ?_
    split
    · trivial
    · exact within_onKey (by simp [firstKey])
  · trivial

theorem within_moveDeadline {source dest : Key} (hasSource : source ∈ written)
    (hasDest : dest ∈ written) {deadline : Option Int} :
    (moveDeadline source dest deadline : DbProg F _).Uses (DbOp.Within written read) := by
  cases deadline with
  | none => trivial
  | some deadline =>
    exact (within_onKey hasSource).bind fun _ => (within_onKey hasDest).bind fun _ =>
      within_onKey hasDest

theorem within_execRename :
    (execRename args : DbProg F _).Uses
      (DbOp.Within (firstKey args.tail ++ firstKey args) read) := by
  unfold execRename
  split
  · rename_i source dest
    have hasSource : str source ∈ firstKey [dest] ++ firstKey [source, dest] := by
      simp [firstKey]
    have hasDest : str dest ∈ firstKey [dest] ++ firstKey [source, dest] := by
      simp [firstKey]
    refine (within_lookAt (mem_append_left _ hasSource)).bind fun found => ?_
    split
    · trivial
    · refine (within_lookAt (mem_append_left _ hasSource)).bind fun deadline => ?_
      refine Prog.Uses.bind ⟨⟨hasSource, hasDest⟩, fun _ => trivial⟩ fun _ => ?_
      exact (within_moveDeadline hasSource hasDest).bind fun _ =>
        (within_log).bind fun _ => trivial
  · trivial

theorem within_execRenameNx :
    (execRenameNx args : DbProg F _).Uses
      (DbOp.Within (firstKey args.tail ++ firstKey args) read) := by
  unfold execRenameNx
  split
  · rename_i source dest more
    have hasSource : str source ∈ firstKey (dest :: more) ++ firstKey (source :: dest :: more) := by
      simp [firstKey]
    have hasDest : str dest ∈ firstKey (dest :: more) ++ firstKey (source :: dest :: more) := by
      simp [firstKey]
    refine (within_lookAt (mem_append_left _ hasDest)).bind fun found => ?_
    split
    · trivial
    · refine (within_lookAt (mem_append_left _ hasSource)).bind fun found => ?_
      split
      · trivial
      · refine (within_lookAt (mem_append_left _ hasSource)).bind fun deadline => ?_
        refine Prog.Uses.bind ⟨⟨hasSource, hasDest⟩, fun _ => trivial⟩ fun _ => ?_
        exact (within_moveDeadline hasSource hasDest).bind fun _ =>
          (within_log).bind fun _ => trivial
  · trivial

end Changers

end Godis.Database
