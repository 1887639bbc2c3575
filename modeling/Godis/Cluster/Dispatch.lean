import Godis.Cluster.Exec
import Godis.Redis.Framing
import Godis.Redis.ParserV2

/-!
# How deep commands of the cluster are dispatched

A node that hands a command over changes its name to one that is executed where it arrives, or the
node it is handed to owns the key.  Renaming a key to one of the same node is the exception: it
goes around for ever.
-/

namespace Godis.Cluster

open Golang Program Database Dict Redis List

/-! ## What arrives -/

variable {line : Line} {name : String}

theorem sized_map_str (sized : Sized line) :
    Sized (line.map fun arg => some (str arg)) := by
  refine ⟨(length_map _).trans_lt sized.1, fun arg member => ?_⟩
  obtain ⟨word, inside, rfl⟩ := mem_map.mp member
  exact sized.2 word inside

theorem arrivedLine_of_sized (filled : line ≠ []) (sized : Sized line) :
    arrivedLine line = some (line.map fun arg => some (str arg)) := by
  have round := parse0_next (parseRound_multiBulkBytes line filled sized [])
  rw [append_nil] at round
  rw [arrivedLine, round]
  rfl

theorem prefix_of_parseStrings {count : Nat} {strings made : List Bytes} {data : Str}
    (first : (Redis.Round.sent (parseStrings count strings data)).head? =
      some (.data (.multiBulk made))) : strings <+: made := by
  induction count generalizing strings data with
  | zero =>
    cases Option.some.inj first
    exact List.prefix_rfl
  | succ count ih =>
    have step := parseStrings_succ count strings data
    cases next : element data with
    | cutOff =>
      rw [next] at step
      exact absurd (List.mem_of_mem_head? first) (step made)
    | noHeader =>
      rw [next] at step
      obtain ⟨_, _, shape⟩ := step
      rw [shape] at first
      cases first
    | present string terminated rest =>
      rw [next] at step
      rw [step] at first
      exact (List.prefix_append strings [string]).trans (ih first)

theorem parseStrings_ne_next_nil (count : Nat) (strings : List Bytes) (data rest : Str) :
    parseStrings count strings data ≠ .next [] rest := by
  induction count generalizing strings data with
  | zero => exact fun same => by cases same
  | succ count ih =>
    rw [parseStrings]
    split
    · exact fun same => by cases same
    · split
      · exact fun same => by cases same
      · split
        · exact fun same => by cases same
        · split
          · exact fun same => by cases same
          · split
            · exact ih _ _
            · split
              · exact ih _ _
              · exact fun same => by cases same
              · exact fun same => by cases same

theorem arrivedLine_eq_some {arrived : Line} :
    arrivedLine line = some arrived ↔
      (parse0 (multiBulkBytes line)).1.head? = some (.data (.multiBulk arrived)) := by
  rw [arrivedLine]
  split
  · rename_i args first
    rw [first, Option.some_inj, Option.some_inj, Payload.data.injEq, Reply.multiBulk.injEq]
  · rename_i others
    exact iff_of_false (Option.some_ne_none arrived).symm (others arrived)

theorem head_of_parse0 {input : Str} {round : Round} (isRound : parseRound input = round)
    (sends : ∀ rest, round ≠ .next [] rest) :
    (parse0 input).1.head? = (Redis.Round.sent round).head? := by
  cases round with
  | closed sent => rw [parse0_closed isRound, Redis.Round.sent]
  | panicked sent => rw [parse0_panicked isRound, Redis.Round.sent]
  | next sent rest =>
    rw [parse0_next isRound]
    cases sent with
    | nil => exact absurd rfl (sends rest)
    | cons payload sent => rfl

theorem arrivedLine_head {head : Str} {rest arrived : List Bytes} (fits : head.length < 2 ^ 63)
    (arrives : arrivedLine (some head :: rest) = some arrived) :
    ∃ more, arrived = some head :: more := by
  have shape : multiBulkBytes (some head :: rest) = 42 :: formatNat (rest.length + 1) ++ crlf ++
      (bulkBytes (some head) ++ rest.flatMap bulkBytes) := by
    rfl
  have oneLine : (10 : UInt8) ∉ 42 :: formatNat (rest.length + 1) :=
    newline_not_mem_header (by decide)
  have round := parseRound_line oneLine (bulkBytes (some head) ++ rest.flatMap bulkBytes)
  rw [← shape] at round
  change _ = parseArray (42 :: formatNat (rest.length + 1)) _ at round
  rw [arrivedLine_eq_some] at arrives
  rw [parseArray] at round
  split at round
  · rw [head_of_parse0 round fun _ same => by cases same] at arrives
    cases arrives
  · rename_i count _
    split at round
    · rw [head_of_parse0 round fun _ same => by cases same] at arrives
      cases arrives
    · split at round
      · rw [head_of_parse0 round fun _ same => by cases same] at arrives
        cases arrives
      · split at round
        · rw [head_of_parse0 round fun _ same => by cases same] at arrives
          cases arrives
        · have positive : count.toNat = count.toNat - 1 + 1 := by omega
          rw [positive, parseStrings_some fits] at round
          rw [head_of_parse0 round (parseStrings_ne_next_nil _ _ _)] at arrives
          obtain ⟨more, rfl⟩ := prefix_of_parseStrings arrives
          exact ⟨more, rfl⟩

/-! ## Handlers that call no others -/

def Shallow {α σ : Type} (ended : Except Halt α × σ) : Prop :=
  ended.1 ≠ .error .tooDeep

section Shallow

variable {F α β σ : Type}

theorem shallow_ok (value : α) (state : σ) : Shallow (.ok value, state) := by
  intro impossible
  cases impossible

theorem Shallow.andThen {ended : Except Halt α × σ} {rest : α → σ → Except Halt β × σ}
    (first : Shallow ended) (later : ∀ value state, Shallow (rest value state)) :
    Shallow (Prog.andThen ended rest) := by
  obtain ⟨done, state⟩ := ended
  cases done with
  | ok value => exact later value state
  | error halt => exact fun deep => first (congrArg Except.error (Except.error.inj deep))

theorem shallow_mapError (ended : Except Stop α) {state : σ} :
    Shallow (ended.mapError Halt.ofStop, state) := by
  cases ended with
  | ok value => exact shallow_ok value state
  | error stop =>
    cases stop with
    | panic | blocked | nan => exact fun deep => by cases deep

theorem Shallow.recovered {ended : Except Halt Reply × σ} (shallow : Shallow ended) :
    Shallow (Cluster.recovered ended) := by
  rw [Cluster.recovered]
  split
  · exact shallow_ok _ _
  · exact shallow

theorem Shallow.atNode {handler : Node F → Except Halt Reply × Node F}
    (shallow : ∀ node, Shallow (handler node)) (self : Str) (nodes : Nodes F) :
    Shallow (Cluster.atNode self handler nodes) :=
  shallow (nodes self)

variable [Float64 F] (env : Env F) (spread : Str → Nat) (node : Node F)

theorem shallow_localExec (line : Line) : Shallow (localExec env spread line node) := by
  rw [localExec]
  split
  · exact fun deep => by cases deep
  · exact (shallow_mapError _).recovered

theorem shallow_prepareFunc {name : Str} {args : List Bytes} :
    Shallow (prepareFunc env spread name args node) := by
  unfold prepareFunc
  split
  · refine Shallow.andThen (shallow_mapError _) fun exist node => ?_
    split
    · exact shallow_ok _ _
    · exact shallow_ok _ _
  · split
    · unfold prepareRenameFrom
      split
      · refine Shallow.andThen (shallow_localExec env spread node _) fun reply node => ?_
        split
        · exact shallow_ok _ _
        · exact shallow_ok _ _
        · exact shallow_mapError _
        · exact fun deep => by cases deep
      · exact shallow_ok _ _
    · split
      · unfold prepareRenameNxTo
        split
        · refine Shallow.andThen (shallow_mapError _) fun exist node => ?_
          split
          · exact shallow_ok _ _
          · exact shallow_ok _ _
        · exact shallow_ok _ _
      · exact shallow_ok _ _

variable {ptr : Nat}

omit [Float64 F] in
theorem shallow_unlockTx : Shallow (unlockTx spread ptr node) := by
  rw [unlockTx]
  split
  · exact fun deep => by cases deep
  · exact shallow_ok _ _

omit [Float64 F] in
theorem shallow_lockTx : Shallow (lockTx spread ptr node) := by
  rw [lockTx]
  split
  · exact fun deep => by cases deep
  · exact shallow_ok _ _

theorem shallow_finishPrepare {head : Bytes} {args : List Bytes} :
    Shallow (finishPrepare env spread ptr head args node) := by
  refine Shallow.andThen (shallow_mapError _) fun undoLogs node => ?_
  refine Shallow.andThen (shallow_prepareFunc _ _ _) fun result node => ?_
  split
  · exact Shallow.andThen (shallow_unlockTx _ _) fun _ _ => shallow_ok _ _
  · exact shallow_ok _ _

theorem shallow_execPrepare (args : List Bytes) : Shallow (execPrepare env spread args node) := by
  unfold execPrepare
  split
  · refine Shallow.andThen ?_ fun entered node => ?_
    · unfold enterPrepare
      split
      · exact shallow_ok _ _
      · split
        · exact fun deep => by cases deep
        · exact shallow_ok _ _
    · split
      · exact shallow_ok _ _
      · exact Shallow.andThen (shallow_lockTx _ _) fun _ node =>
          shallow_finishPrepare _ _ _
  · exact shallow_ok _ _

theorem shallow_execCommit (args : List Bytes) : Shallow (execCommit env spread args node) := by
  unfold execCommit
  split
  · split
    · exact shallow_ok _ _
    · refine Shallow.andThen (shallow_mapError _) fun resp node => ?_
      refine Shallow.andThen (shallow_unlockTx _ _) fun _ node => ?_
      split
      · exact shallow_ok _ _
      · exact shallow_ok _ _
  · exact shallow_ok _ _

theorem shallow_finishRollback (txId : Str) (ptr : Nat) :
    Shallow (finishRollback env spread txId ptr node) := by
  refine Shallow.andThen (shallow_mapError _) fun _ node => ?_
  exact Shallow.andThen (shallow_unlockTx _ _) fun _ _ => shallow_ok _ _

theorem shallow_execRollback (args : List Bytes) :
    Shallow (execRollback env spread args node) := by
  unfold execRollback
  split
  · split
    · exact shallow_ok _ _
    · split
      · exact shallow_finishRollback env spread node _ _
      · refine Shallow.andThen (Shallow.andThen (shallow_lockTx _ _) fun _ _ =>
          shallow_ok _ _) fun _ node => ?_
        exact shallow_finishRollback env spread node _ _
  · exact shallow_ok _ _

end Shallow

/-! ## The command table -/

def CmdFunc.IsLocal : CmdFunc → Prop
  | .prepare | .commit | .rollback | .inLocal _ _ => True
  | _ => False

def messageNames : List String :=
  ["prepare", "Prepare", "commit", "rollback", "mset_", "mget_", "del_"]

theorem isLocal_of_message (message : name ∈ messageNames) :
    ∃ func, CmdFunc.ofName (toLower (str (some (lit name)))) = some func ∧ func.IsLocal := by
  simp only [messageNames, mem_cons, not_mem_nil, or_false] at message
  rcases message with rfl | rfl | rfl | rfl | rfl | rfl | rfl
  · exact ⟨_, rfl, trivial⟩
  · exact ⟨_, rfl, trivial⟩
  · exact ⟨_, rfl, trivial⟩
  · exact ⟨_, rfl, trivial⟩
  · exact ⟨_, rfl, trivial⟩
  · exact ⟨_, rfl, trivial⟩
  · exact ⟨_, rfl, trivial⟩

theorem length_of_message (message : name ∈ messageNames) :
    (lit name).length < 2 ^ 63 := by
  have short : ∀ name ∈ messageNames, (lit name).length < 2 ^ 63 := by decide
  exact short name message

section Commands

variable {F : Type}

/-- Messages between nodes are not handed on too deeply. -/
def Calm (relay : Relay F) : Prop :=
  ∀ name ∈ messageNames, ∀ peer args nodes, Shallow (relay peer (toCmdLine name args) nodes)

theorem shallow_arrivedEnd {ended : Except Halt Reply × Nodes F} (shallow : Shallow ended) :
    Shallow (arrivedEnd ended.1, ended.2) := by
  obtain ⟨done, _⟩ := ended
  cases done with
  | ok reply => exact shallow_ok _ _
  | error halt =>
    cases halt with
    | tooDeep => exact absurd rfl shallow
    | aborted => exact fun deep => by cases deep
    | panic | blocked | nan => exact shallow_ok _ _

theorem collectValues_ne_tooDeep (lines : List (Str × Line)) (results : List (Str × Reply))
    (values : Key → Bytes) : collectValues lines results values ≠ .error .tooDeep := by
  induction results generalizing values with
  | nil => exact fun deep => by cases deep
  | cons result rest ih =>
    obtain ⟨-, reply⟩ := result
    cases reply with
    | multiBulk found =>
      rw [collectValues]
      split
      · exact fun deep => by cases deep
      · exact ih _
    | _ => exact fun deep => by cases deep

theorem mgetReply_ne_tooDeep (args : List Bytes) (lines : List (Str × Line))
    (results : List (Str × Reply)) : mgetReply args lines results ≠ .error .tooDeep := by
  rw [mgetReply]
  split
  · rename_i halt stopped
    intro deep
    cases deep
    exact collectValues_ne_tooDeep _ _ _ stopped
  · exact fun deep => by cases deep
  · exact fun deep => by cases deep

variable (setting : Setting F) {relay : Relay F} (calm : Calm relay)

include calm

variable (txId : Str)

theorem shallow_requestRollback (names : List Str) (nodes : Nodes F) :
    Shallow (requestRollback relay txId names nodes) := by
  induction names generalizing nodes with
  | nil => exact shallow_ok _ _
  | cons node rest ih =>
    exact Shallow.andThen (calm "rollback" (by decide) node [some txId] nodes) fun _ nodes =>
      ih nodes

theorem shallow_prepareAll (lines : List (Str × Line)) (nodes : Nodes F) :
    Shallow (prepareAll relay txId lines nodes) := by
  induction lines generalizing nodes with
  | nil => exact shallow_ok _ _
  | cons line rest ih =>
    refine Shallow.andThen (calm "prepare" (by decide) line.1 (some txId :: line.2) nodes)
      fun reply nodes => ?_
    split
    · exact shallow_ok _ _
    · exact ih nodes

theorem shallow_commitAll (names : List Str) (results : List (Str × Reply))
    (nodes : Nodes F) : Shallow (commitAll relay txId names results nodes) := by
  induction names generalizing results nodes with
  | nil => exact shallow_ok _ _
  | cons node rest ih =>
    refine Shallow.andThen (calm "commit" (by decide) node [some txId] nodes) fun reply nodes => ?_
    split
    · exact shallow_ok _ _
    · exact ih _ nodes

theorem shallow_doTcc (lines : List (Str × Line)) (nodes : Nodes F) :
    Shallow (doTcc setting relay lines nodes) := by
  refine Shallow.andThen (shallow_prepareAll calm _ _ nodes) fun failed nodes => ?_
  split
  · exact Shallow.andThen (shallow_requestRollback calm _ _ nodes) fun _ _ => shallow_ok _ _
  · refine Shallow.andThen (shallow_commitAll calm _ _ _ nodes) fun committed nodes => ?_
    split
    · exact shallow_ok _ _
    · exact Shallow.andThen (shallow_requestRollback calm _ _ nodes) fun _ _ => shallow_ok _ _

theorem shallow_execSeveral (keys : List Key) {message : String} (isMessage : message ∈ messageNames)
    (lineOf : List Key → Line)
    {finish : List (Str × Line) → List (Str × Reply) → Except Halt Reply}
    (finishes : ∀ lines results, finish lines results ≠ .error .tooDeep) (args : List Bytes)
    (nodes : Nodes F) :
    Shallow (execSeveral setting relay keys message lineOf finish args nodes) := by
  rw [execSeveral]
  split
  · exact fun deep => by cases deep
  · exact calm message isMessage _ args nodes
  · refine Shallow.andThen (shallow_doTcc setting calm _ nodes) fun done nodes => ?_
    split
    · exact shallow_ok _ _
    · exact finishes _ _

theorem shallow_execMSet (args : List Bytes) (nodes : Nodes F) :
    Shallow (execMSet setting relay args nodes) := by
  rw [execMSet]
  split
  · exact shallow_ok _ _
  · exact shallow_execSeveral setting calm _ (by decide) _ (fun _ _ deep => by cases deep) args nodes

theorem shallow_execMGet (args : List Bytes) (nodes : Nodes F) :
    Shallow (execMGet setting relay args nodes) := by
  rw [execMGet]
  split
  · exact shallow_ok _ _
  · exact shallow_execSeveral setting calm _ (by decide) _ (mgetReply_ne_tooDeep args) args nodes

theorem shallow_execDel (args : List Bytes) (nodes : Nodes F) :
    Shallow (execDel setting relay args nodes) := by
  rw [execDel]
  split
  · exact shallow_ok _ _
  · exact shallow_execSeveral setting calm _ (by decide) _ (fun _ _ deep => by cases deep) args nodes

theorem shallow_renameBetween (toName : String) (refused : Str → Reply) (done : Reply)
    (src target : Key) (srcNode targetNode : Str) (nodes : Nodes F) :
    Shallow (renameBetween setting relay toName refused done src target srcNode targetNode
      nodes) := by
  refine Shallow.andThen (calm "Prepare" (by decide) _
    [some setting.txId, some (lit "RenameFrom"), some src] nodes) fun dumped nodes => ?_
  split
  · exact Shallow.andThen (shallow_requestRollback calm _ _ nodes) fun _ _ => shallow_ok _ _
  · refine Shallow.andThen (calm "Prepare" (by decide) _ _ nodes) fun prepared nodes => ?_
    split
    · exact Shallow.andThen (shallow_requestRollback calm _ _ nodes) fun _ _ => shallow_ok _ _
    · refine Shallow.andThen (shallow_commitAll calm _ _ _ nodes) fun committed nodes => ?_
      split
      · exact shallow_ok _ _
      · exact Shallow.andThen (shallow_requestRollback calm _ _ nodes) fun _ _ => shallow_ok _ _
  · exact Shallow.andThen (shallow_requestRollback calm _ _ nodes) fun _ _ => shallow_ok _ _

end Commands

section Dispatch

variable {F : Type} [Float64 F] (setting : Setting F)

theorem shallow_run_of_isLocal (func : CmdFunc) (isLocal : func.IsLocal) (self : Str)
    (relay : Relay F) (head : Bytes) (args : List Bytes) (nodes : Nodes F) :
    Shallow (func.run setting self relay head args nodes) := by
  cases func with
  | prepare => exact Shallow.atNode (fun node => shallow_execPrepare _ _ node args) self nodes
  | commit => exact Shallow.atNode (fun node => shallow_execCommit _ _ node args) self nodes
  | rollback => exact Shallow.atNode (fun node => shallow_execRollback _ _ node args) self nodes
  | inLocal name atLeast =>
    rw [CmdFunc.run]
    split
    · exact shallow_ok _ _
    · exact Shallow.atNode (fun node => shallow_localExec _ _ node _) self nodes
  | _ => exact isLocal.elim

variable {func : CmdFunc} {head src target : Bytes} {args : List Bytes} {name node : Str}

theorem shallow_exec_of_isLocal (isLocal : func.IsLocal) (fuel : Nat) (self : Str)
    (named : CmdFunc.ofName (toLower (str head)) = some func) (args : List Bytes) (nodes : Nodes F) :
    Shallow (exec setting (fuel + 1) self (head :: args) nodes) := by
  rw [exec]
  split
  · exact shallow_ok _ _
  · rw [named]
    exact (shallow_run_of_isLocal setting func isLocal self _ head args nodes).recovered

variable (fuel : Nat)
variable (self : Str)

theorem calm_relayWith :
    Calm (relayWith (exec setting (fuel + 1)) self) := by
  intro name message peer args nodes
  obtain ⟨_, named, isLocal⟩ := isLocal_of_message message
  rw [relayWith]
  split
  · exact shallow_exec_of_isLocal setting isLocal fuel self named args nodes
  · split
    · exact shallow_ok _ _
    · rename_i arrived arrives
      obtain ⟨more, rfl⟩ := arrivedLine_head (length_of_message message) arrives
      exact shallow_arrivedEnd (shallow_exec_of_isLocal setting isLocal fuel peer named more nodes)

/-- The line renames a key to one of the same node. -/
def RenamesInPlace (setting : Setting F) : Line → Prop
  | [head, src, target] =>
    (toLower (str head) = lit "rename" ∨ toLower (str head) = lit "renamenx") ∧
      ∃ node, setting.owner (str src) = some node ∧ setting.owner (str target) = some node
  | _ => False

omit [Float64 F] in
theorem shallow_renameWith (toName : String) (refused : Str → Reply) (done : Reply)
    {relay : Relay F} (calm : Calm relay)
    (rename : toLower (str head) = lit "rename" ∨ toLower (str head) = lit "renamenx")
    (apart : ¬ RenamesInPlace setting (head :: args)) (nodes : Nodes F) :
    Shallow (renameWith setting relay toName refused done args nodes) := by
  unfold renameWith
  split
  · split
    · rename_i srcNode targetNode srcOwner targetOwner
      split
      · rename_i same
        exact absurd ⟨rename, srcNode, srcOwner, same ▸ targetOwner⟩ apart
      · exact shallow_renameBetween setting calm _ _ _ _ _ _ _ nodes
    · exact fun deep => by cases deep
  · exact shallow_ok _ _

theorem shallow_default_of_owner
    (named : CmdFunc.ofName (toLower (str head)) = some .default) {key : Bytes}
    (owned : setting.owner (str key) = some self) (rest : List Bytes) (nodes : Nodes F) :
    Shallow (exec setting (fuel + 1) self (head :: key :: rest) nodes) := by
  rw [exec]
  split
  · exact shallow_ok _ _
  · rw [named]
    refine Shallow.recovered ?_
    rw [CmdFunc.run, defaultFunc, owned]
    dsimp only
    rw [if_pos rfl]
    exact Shallow.atNode (fun node => shallow_localExec _ _ node _) self nodes

theorem shallow_exec_default
    (named : CmdFunc.ofName (toLower (str head)) = some .default) (sized : Sized (head :: args))
    (nodes : Nodes F) : Shallow (defaultFunc setting self
      (relayWith (exec setting (fuel + 1)) self) head args nodes) := by
  cases args with
  | nil => exact fun deep => by cases deep
  | cons key rest =>
    rw [defaultFunc]
    split
    · exact fun deep => by cases deep
    · rename_i peer owned
      split
      · exact Shallow.atNode (fun node => shallow_localExec _ _ node _) self nodes
      · rename_i other
        have arrivedName : CmdFunc.ofName (toLower (str (some (str head)))) = some .default := named
        have arrivedKey : setting.owner (str (some (str key))) = some peer := owned
        rw [relayWith, if_neg other, arrivedLine_of_sized (cons_ne_nil _ _) sized]
        exact shallow_arrivedEnd
          (shallow_default_of_owner setting fuel peer arrivedName arrivedKey _ nodes)

theorem mem_commands_of_ofName (named : CmdFunc.ofName name = some func) :
    ∃ text, (text, func) ∈ commands ∧ lit text = name := by
  obtain ⟨entry, found, rfl⟩ := Option.map_eq_some_iff.mp named
  have fits := List.find?_some found
  exact ⟨entry.1, List.mem_of_find?_eq_some found, of_decide_eq_true fits⟩

theorem eq_of_ofName_rename (named : CmdFunc.ofName name = some .rename) :
    name = lit "rename" := by
  have only : ∀ entry ∈ commands, entry.2 = .rename → entry.1 = "rename" := by decide
  obtain ⟨_, member, rfl⟩ := mem_commands_of_ofName named
  exact congrArg lit (only _ member rfl)

theorem eq_of_ofName_renameNx (named : CmdFunc.ofName name = some .renameNx) :
    name = lit "renamenx" := by
  have only : ∀ entry ∈ commands, entry.2 = .renameNx → entry.1 = "renamenx" := by decide
  obtain ⟨_, member, rfl⟩ := mem_commands_of_ofName named
  exact congrArg lit (only _ member rfl)

theorem shallow_exec (sized : Sized (head :: args))
    (apart : ¬ RenamesInPlace setting (head :: args)) (nodes : Nodes F) :
    Shallow (exec setting 2 self (head :: args) nodes) := by
  have calm := calm_relayWith setting 0 self
  rw [exec]
  split
  · exact shallow_ok _ _
  · split
    · exact shallow_ok _ _
    · rename_i func named
      refine Shallow.recovered ?_
      cases func with
      | mset => exact shallow_execMSet setting calm args nodes
      | mget => exact shallow_execMGet setting calm args nodes
      | del => exact shallow_execDel setting calm args nodes
      | rename =>
        exact shallow_renameWith setting _ _ _ calm (.inl (eq_of_ofName_rename named)) apart nodes
      | renameNx =>
        exact shallow_renameWith setting _ _ _ calm (.inr (eq_of_ofName_renameNx named)) apart
          nodes
      | default => exact shallow_exec_default setting 0 self named sized nodes
      | prepare => exact shallow_run_of_isLocal setting .prepare trivial self _ _ _ _
      | commit => exact shallow_run_of_isLocal setting .commit trivial self _ _ _ _
      | rollback => exact shallow_run_of_isLocal setting .rollback trivial self _ _ _ _
      | inLocal name atLeast =>
        exact shallow_run_of_isLocal setting (.inLocal name atLeast) trivial self _ _ _ _

theorem exec_rename
    (rename : toLower (str head) = lit "rename" ∨ toLower (str head) = lit "renamenx")
    (srcOwner : setting.owner (str src) = some node)
    (targetOwner : setting.owner (str target) = some node) (nodes : Nodes F) :
    exec setting (fuel + 1) self [head, src, target] nodes =
      recovered (relayWith (exec setting fuel) self node (toCmdLine "rename" [src, target])
        nodes) := by
  have inPlace : ∀ toName refused done,
      renameWith setting (relayWith (exec setting fuel) self) toName refused done [src, target]
        nodes = relayWith (exec setting fuel) self node (toCmdLine "rename" [src, target]) nodes := by
    intro toName refused done
    rw [renameWith, srcOwner, targetOwner]
    exact if_pos rfl
  rw [exec]
  rcases rename with named | named
  · rw [named]
    exact congrArg recovered (inPlace _ _ _)
  · rw [named]
    exact congrArg recovered (inPlace _ _ _)

theorem tooDeep_of_renamesInPlace
    (rename : toLower (str head) = lit "rename" ∨ toLower (str head) = lit "renamenx")
    (srcOwner : setting.owner (str src) = some node)
    (targetOwner : setting.owner (str target) = some node)
    (sized : Sized (toCmdLine "rename" [src, target])) (nodes : Nodes F) :
    (exec setting fuel self [head, src, target] nodes).1 = .error .tooDeep := by
  induction fuel generalizing self head src target with
  | zero => rfl
  | succ fuel ih =>
    have deeper : (relayWith (exec setting fuel) self node (toCmdLine "rename" [src, target])
        nodes).1 = .error .tooDeep := by
      rw [relayWith]
      split
      · exact ih self (.inl rfl) srcOwner targetOwner sized
      · have arrives : arrivedLine (toCmdLine "rename" [src, target]) =
            some (toCmdLine "rename" [some (str src), some (str target)]) :=
          arrivedLine_of_sized (cons_ne_nil _ _) sized
        have again : (exec setting fuel node
            (toCmdLine "rename" [some (str src), some (str target)]) nodes).1 = .error .tooDeep :=
          ih node (.inl rfl) srcOwner targetOwner (sized_map_str sized)
        rw [arrives]
        exact congrArg arrivedEnd again
    rw [exec_rename setting fuel self rename srcOwner targetOwner nodes, recovered, deeper]
    exact deeper

/-- The dispatch of a command ends, unless it renames a key to one of the same node. -/
theorem dispatch_ends_iff (self : Str) (command : CommandLine) (nodes : Nodes F) :
    (∃ fuel, (exec setting fuel self command.line nodes).1 ≠ .error .tooDeep) ↔
      ¬ RenamesInPlace setting command.line := by
  have sized := command.sized_line
  refine ⟨fun ends inPlace => ?_, fun apart => ⟨2, ?_⟩⟩
  · obtain ⟨fuel, shallow⟩ := ends
    revert inPlace sized shallow
    rw [RenamesInPlace.eq_def]
    split
    · rename_i head src target shape
      rw [shape]
      rintro sized ⟨rename, _, srcOwner, targetOwner⟩ shallow
      have short : Sized (toCmdLine "rename" [src, target]) := by
        refine ⟨sized.1, forall_mem_cons.mpr ⟨by decide, ?_⟩⟩
        exact fun arg member => sized.2 arg (mem_cons_of_mem head member)
      exact shallow (tooDeep_of_renamesInPlace setting fuel self rename srcOwner targetOwner short
        nodes)
    · exact fun _ impossible _ => impossible
  · cases shape : command.line with
    | nil => exact absurd (map_eq_nil_iff.mp shape) command.filled
    | cons head args =>
      rw [shape] at sized apart
      exact shallow_exec setting self sized apart nodes

end Dispatch

def soloSetting : Setting Digit where
  env := Env.plain 0
  spread _ := 0
  getSlot := defaultGetSlot fun _ => 0
  pickNode _ := lit "a"
  txId := lit "bcdefg"
  txId_length := by decide
  prepareOrder names := names
  prepare_perm _ := List.Perm.refl _
  commitOrder names := names
  commit_perm _ := List.Perm.refl _
  rollbackOrder names := names
  rollback_perm _ := List.Perm.refl _
  aside _ _ := .ok

theorem rename_on_one_node_never_ends :
    ¬ ∃ fuel, (exec soloSetting fuel (lit "a")
      [some (lit "rename"), some (lit "x"), some (lit "y")] fun _ => Node.initial).1 ≠
        .error .tooDeep := by
  rintro ⟨fuel, shallow⟩
  have owned : ∀ key ∈ [lit "x", lit "y"], soloSetting.owner key = some (lit "a") := by decide
  have sized : Sized (toCmdLine "rename" [some (lit "x"), some (lit "y")]) :=
    ⟨by decide, by decide⟩
  exact shallow (tooDeep_of_renamesInPlace soloSetting fuel (lit "a") (.inl rfl)
    (owned _ (by decide)) (owned _ (by decide)) sized _)

end Godis.Cluster
