import Godis.Database.Server
import Godis.Redis.Parser

/-!
# The append only file (`aof/aof.go`)

`writeAof` appends the bytes of a command line, behind a `SELECT` where the file is in another
database.  `LoadAof` executes what it reads on a connection of its own.
-/

namespace Godis.Database

open Golang Program List

variable {F : Type}

/-! ## Commands of the table go to the selected database -/

section Selected

variable [Float64 F]

variable (F) in
def isPrepared (name : Str) : Bool :=
  match Name.ofText name with
  | none => false
  | some found => (command (F := F) found).prepare.isSome

theorem not_prepared : ∀ special ∈ Server.ownNames, isPrepared F (lit special) = false :=
  of_decide_eq_true rfl

theorem ne_of_prepared {name : Str} (prepared : isPrepared F name = true) {special : String}
    (unprepared : isPrepared F (lit special) = false) : name ≠ lit special := by
  rintro rfl
  exact Bool.false_ne_true (unprepared.symm.trans prepared)

def Server.Writable (server : Server F) (conn : Conn) : Prop :=
  server.role = .slaveRole → conn.isMaster = true

variable {server : Server F} {conn : Conn} {head : Bytes}

omit [Float64 F] in
theorem Server.writable_of_masterRole (role : server.role = .masterRole) (conn : Conn) :
    server.Writable conn := by
  intro slave
  cases role.symm.trans slave

omit [Float64 F] in
theorem Server.Writable.not_readOnly (writable : server.Writable conn) {unread : Prop} :
    ¬ (server.role = .slaveRole ∧ conn.isMaster = false ∧ unread) := by
  rintro ⟨slave, notMaster, _⟩
  exact Bool.false_ne_true (notMaster.symm.trans (writable slave))

theorem Server.exec_prepared (moments : Moments F) (args : List Bytes)
    (prepared : isPrepared F (toLower (str head)) = true)
    (authenticated : server.isAuthenticated conn = true) (outside : conn.inMultiState = false)
    (writable : server.Writable conn) {space : Space F}
    (selected : server.dbSet[conn.selectedDB]? = some space) :
    server.exec moments conn (head :: args) =
      ⟨.ofEnd (execNormalCommand (moments 0) (head :: args) space).1,
        server.withDb conn.selectedDB (execNormalCommand (moments 0) (head :: args) space).2, conn⟩ := by
  have others : ∀ special ∈ Server.ownNames, toLower (str head) ≠ lit special := fun special own =>
    ne_of_prepared prepared (not_prepared special own)
  simp only [Server.ownNames, forall_mem_cons] at others
  simp only [Server.exec, others, authenticated, writable.not_readOnly, if_false, Bool.not_true,
    Bool.false_eq_true, Server.dispatch, selected, Space.exec, outside]

theorem Server.exec_unauthenticated (moments : Moments F) (args : List Bytes)
    (notPing : toLower (str head) ≠ lit "ping") (notAuth : toLower (str head) ≠ lit "auth")
    (refused : server.isAuthenticated conn = false) :
    server.exec moments conn (head :: args) =
      server.replied conn (.err "NOAUTH Authentication required") := by
  simp only [Server.exec, notPing, notAuth, refused, if_false, Bool.not_false, if_true]

end Selected

/-! ## Writing -/

def selectLine (dbIndex : Nat) : Line :=
  toCmdLineOfStr "SELECT" [formatNat dbIndex]

theorem length_formatNat_lt {n : Nat} (fits : n < 2 ^ 63) : (formatNat n).length < 2 ^ 63 := by
  unfold formatNat
  split
  · decide
  · rename_i positive
    rw [length_map, List.length_reverse, Nat.length_digits 10 n (by decide) positive]
    have small := Nat.log_lt_self 10 positive
    omega

variable {dbIndex : Nat}

theorem sized_selectLine (fits : dbIndex < 2 ^ 63) : Sized (selectLine dbIndex) := by
  refine ⟨(by decide : 2 < 2 ^ 63), ?_⟩
  intro arg member
  rcases mem_pair.mp member with rfl | rfl
  · decide
  · exact length_formatNat_lt fits

theorem Server.exec_select [Float64 F] {server : Server F} {conn : Conn} (moments : Moments F)
    (fits : dbIndex < 2 ^ 63) (inside : dbIndex < server.dbSet.length)
    (authenticated : server.isAuthenticated conn = true) (outside : conn.inMultiState = false)
    (writable : server.Writable conn) :
    server.exec moments conn (selectLine dbIndex) =
      ⟨.reply .ok, server, { conn with selectedDB := dbIndex }⟩ := by
  have read : parseInt (str (some (formatNat dbIndex))) = .ok dbIndex := parseInt_formatNat fits
  have selects : server.execSelect conn (some (formatNat dbIndex)) =
      (.ok, { conn with selectedDB := dbIndex }) := by
    rw [Server.execSelect, read]
    dsimp only
    rw [if_neg (by omega), Int.toNat_natCast]
  have run : server.exec moments conn (selectLine dbIndex) =
      ⟨.reply (server.execSelect conn (some (formatNat dbIndex))).1, server,
        (server.execSelect conn (some (formatNat dbIndex))).2⟩ := by
    simp only [Server.exec, authenticated, outside, writable.not_readOnly, Server.dispatch]
    rfl
  rw [run, selects]

/-- The file, and the database its last command is in. -/
structure Persister where
  aofFile : Str
  currentDB : Int

namespace Persister

def fresh : Persister where
  aofFile := []
  currentDB := 0

/-- The lines that come to the file, and to the listeners, for a command. -/
def buffer (currentDB : Int) (dbIndex : Nat) (line : Line) : List Line :=
  if dbIndex = currentDB then [line] else [selectLine dbIndex, line]

def writeAof (persister : Persister) (dbIndex : Nat) (line : Line) : Persister where
  aofFile := persister.aofFile ++ (buffer persister.currentDB dbIndex line).flatMap multiBulkBytes
  currentDB := dbIndex

/-- The lines that come to the file for commands in turn. -/
def written : Int → List (Nat × Line) → List Line
  | _, [] => []
  | currentDB, (dbIndex, line) :: rest => buffer currentDB dbIndex line ++ written dbIndex rest

def writeAll (persister : Persister) (commands : List (Nat × Line)) : Persister :=
  commands.foldl (fun persister command => persister.writeAof command.1 command.2) persister

variable {commands : List (Nat × Line)}

theorem mem_written {line : Line} {currentDB : Int} (member : line ∈ written currentDB commands) :
    ∃ command ∈ commands, line = selectLine command.1 ∨ line = command.2 := by
  induction commands generalizing currentDB with
  | nil => exact absurd member not_mem_nil
  | cons command rest ih =>
    obtain ⟨dbIndex, own⟩ := command
    rcases mem_append.mp member with here | later
    · refine ⟨(dbIndex, own), mem_cons_self, ?_⟩
      unfold buffer at here
      split at here
      · exact .inr (mem_singleton.mp here)
      · exact mem_pair.mp here
    · obtain ⟨command, inside, isLine⟩ := ih later
      exact ⟨command, mem_cons_of_mem _ inside, isLine⟩

theorem written_unselected {dbIndex : Nat} (one : ∀ command ∈ commands, command.1 = dbIndex) :
    written dbIndex commands = commands.map Prod.snd := by
  induction commands with
  | nil => rfl
  | cons command rest ih =>
    obtain ⟨same, later⟩ := forall_mem_cons.mp one
    cases same
    rw [written, buffer, if_pos rfl, ih later]
    rfl

theorem writeAll_aofFile (persister : Persister) (commands : List (Nat × Line)) :
    (persister.writeAll commands).aofFile =
      persister.aofFile ++ (written persister.currentDB commands).flatMap multiBulkBytes := by
  induction commands generalizing persister with
  | nil => exact (append_nil _).symm
  | cons command rest ih =>
    obtain ⟨dbIndex, line⟩ := command
    refine (ih (persister.writeAof dbIndex line)).trans ?_
    rw [written, flatMap_append, ← append_assoc]
    rfl

end Persister

/-! ## Loading -/

section Loading

variable [Float64 F]

def fakeConn (selectedDB : Nat) : Conn :=
  ⟨false, false, [], [], ∅, [], selectedDB⟩

structure Loading (F : Type) where
  server : Server F
  conn : Conn
  currentDB : Int

/-- The database of the file behind a line; `SELECT` without an argument makes the loop panic. -/
def noteSelect (currentDB : Int) (head : Bytes) (args : List Bytes) : Option Int :=
  if toLower (str head) = lit "select" then
    match args with
    | [] => none
    | rawIndex :: _ =>
      match parseInt (str rawIndex) with
      | .error _ => some currentDB
      | .ok dbIndex => some dbIndex
  else some currentDB

variable {head : Bytes} {dbIndex : Nat} {lines : List Line} {loading : Loading F}
  {args : List Bytes} {moments : Moments F} {reply : Reply}

variable {currentDB : Int}

omit [Float64 F] in
theorem noteSelect_other (other : toLower (str head) ≠ lit "select") : noteSelect currentDB head args = some currentDB := by
  unfold noteSelect
  rw [if_neg other]

omit [Float64 F] in
theorem noteSelect_select (fits : dbIndex < 2 ^ 63) :
    noteSelect currentDB (some (lit "SELECT")) [some (formatNat dbIndex)] = some (dbIndex : Int) := by
  have read : parseInt (str (some (formatNat dbIndex))) = .ok dbIndex := parseInt_formatNat fits
  have isName : toLower (str (some (lit "SELECT"))) = lit "select" := rfl
  simp only [noteSelect, isName, if_true, read]

/-- One round of the loop; without a result it panics or does not come to its end. -/
def Loading.exec (moments : Moments F) (args : Line) (loading : Loading F) : Option (Loading F) :=
  match args with
  | [] => none
  | head :: more =>
    let answered := loading.server.exec moments loading.conn (head :: more)
    match answered.answer with
    | .never => none
    | .reply _ | .handled _ =>
      (noteSelect loading.currentDB head more).map fun currentDB =>
        ⟨answered.server, answered.conn, currentDB⟩

def loadPayloads (clock : Nat → Moments F) : Nat → List Payload → Loading F → Option (Loading F)
  | _, [], loading => some loading
  | round, .failed error :: rest, loading =>
    if error = eof then some loading else loadPayloads clock round rest loading
  | round, .data (.multiBulk args) :: rest, loading =>
    (loading.exec (clock round) args).bind (loadPayloads clock (round + 1) rest)
  | round, .data _ :: rest, loading => loadPayloads clock round rest loading

/-- `LoadAof` for a file without a preamble. -/
def loadAof (clock : Nat → Moments F) (maxBytes : Nat) (aofFile : Str) (server : Server F) :
    Option (Loading F) :=
  let parsed := parse0 (if 0 < maxBytes then aofFile.take maxBytes else aofFile)
  if parsed.2 then loadPayloads clock 0 parsed.1 ⟨server, fakeConn 0, 0⟩ else none

def loadLines (clock : Nat → Moments F) : Nat → List Line → Loading F → Option (Loading F)
  | _, [], loading => some loading
  | round, line :: rest, loading =>
    (loading.exec (clock round) line).bind (loadLines clock (round + 1) rest)

/-- A line as it is read back: nil is read as the empty string. -/
def readBack (line : Line) : Line :=
  line.map fun arg => some (str arg)

theorem parse0_lines (sound : ∀ line ∈ lines, line ≠ [] ∧ Sized line) (rest : Str) :
    parse0 (lines.flatMap multiBulkBytes ++ rest) =
      (lines.map (fun line => .data (.multiBulk (readBack line))) ++ (parse0 rest).1,
        (parse0 rest).2) := by
  induction lines with
  | nil => rfl
  | cons line others ih =>
    obtain ⟨⟨filled, sized⟩, later⟩ := forall_mem_cons.mp sound
    rw [flatMap_cons, append_assoc,
      parse0_next (parseRound_multiBulkBytes line filled sized _), ih later]
    rfl

theorem loadPayloads_lines (clock : Nat → Moments F) (round : Nat) (lines : List Line)
    (loading : Loading F) :
    loadPayloads clock round
        (lines.map (fun line => .data (.multiBulk (readBack line))) ++ [.failed eof]) loading =
      loadLines clock round (lines.map readBack) loading := by
  induction lines generalizing round loading with
  | nil => rfl
  | cons line rest ih =>
    refine congrArg (Option.bind _) (funext fun next => ?_)
    exact ih (round + 1) next

theorem loadAof_read (clock : Nat → Moments F) (sound : ∀ line ∈ lines, line ≠ [] ∧ Sized line)
    {maxBytes : Nat} {aofFile rest : Str}
    (read : (if 0 < maxBytes then aofFile.take maxBytes else aofFile) =
      lines.flatMap multiBulkBytes ++ rest) (ended : parse0 rest = ([.failed eof], true))
    (server : Server F) :
    loadAof clock maxBytes aofFile server =
      loadLines clock 0 (lines.map readBack) ⟨server, fakeConn 0, 0⟩ := by
  rw [loadAof, read, parse0_lines sound, ended]
  exact loadPayloads_lines clock 0 lines _

theorem loadAof_lines {clock : Nat → Moments F} (sound : ∀ line ∈ lines, line ≠ [] ∧ Sized line)
    {server : Server F} :
    loadAof clock 0 (lines.flatMap multiBulkBytes) server =
      loadLines clock 0 (lines.map readBack) ⟨server, fakeConn 0, 0⟩ :=
  loadAof_read clock sound (append_nil _).symm rfl server

/-! ## Lines on the connection of `LoadAof` -/

structure Loading.Ready (loading : Loading F) (dbIndex : Nat) : Prop where
  conn : loading.conn = fakeConn dbIndex
  role : loading.server.role = .masterRole
  requirePass : loading.server.requirePass = []

omit [Float64 F] in
theorem Loading.Ready.authenticated (ready : loading.Ready dbIndex) :
    loading.server.isAuthenticated loading.conn = true := by
  rw [Server.isAuthenticated, ready.requirePass]
  rfl

theorem Loading.exec_of_answered {server : Server F} {conn : Conn}
    (answered : loading.server.exec moments loading.conn (head :: args) = ⟨.reply reply, server, conn⟩) :
    loading.exec moments (head :: args) =
      (noteSelect loading.currentDB head args).map fun currentDB => ⟨server, conn, currentDB⟩ := by
  rw [Loading.exec, answered]

theorem Loading.exec_select {before : Nat} (ready : loading.Ready before) (fits : dbIndex < 2 ^ 63)
    (inside : dbIndex < loading.server.dbSet.length) (moments : Moments F) :
    loading.exec moments (selectLine dbIndex) =
      some ⟨loading.server, fakeConn dbIndex, dbIndex⟩ := by
  have outside : loading.conn.inMultiState = false := by
    rw [ready.conn]
    rfl
  have answered := Server.exec_select moments fits inside ready.authenticated outside
    (Server.writable_of_masterRole ready.role _)
  refine (exec_of_answered answered).trans ?_
  rw [ready.conn]
  exact congrArg (Option.map _) (noteSelect_select fits)

theorem Loading.exec_prepared (ready : loading.Ready dbIndex) {space after : Space F}
    (selected : loading.server.dbSet[dbIndex]? = some space)
    (prepared : isPrepared F (toLower (str head)) = true)
    (ended : execNormalCommand (moments 0) (head :: args) space = (.ok reply, after)) :
    loading.exec moments (head :: args) =
      some ⟨loading.server.withDb dbIndex after, loading.conn, loading.currentDB⟩ := by
  have here : loading.server.dbSet[loading.conn.selectedDB]? = some space := by
    rw [ready.conn]
    exact selected
  have outside : loading.conn.inMultiState = false := by
    rw [ready.conn]
    rfl
  have answered := Server.exec_prepared moments args prepared ready.authenticated outside
    (Server.writable_of_masterRole ready.role _) here
  rw [ended] at answered
  rw [exec_of_answered answered, noteSelect_other (ne_of_prepared prepared rfl), ready.conn]
  rfl

theorem Loading.exec_prepared_elsewhere {next : Loading F} (ready : loading.Ready dbIndex)
    (inside : dbIndex < loading.server.dbSet.length)
    (prepared : isPrepared F (toLower (str head)) = true)
    (ended : loading.exec moments (head :: args) = some next) :
    next.Ready dbIndex ∧ ∃ after, next.server = loading.server.withDb dbIndex after := by
  have here : loading.server.dbSet[loading.conn.selectedDB]? = some loading.server.dbSet[dbIndex] := by
    rw [ready.conn]
    exact getElem?_eq_getElem inside
  have outside : loading.conn.inMultiState = false := by
    rw [ready.conn]
    rfl
  have answered := Server.exec_prepared moments args prepared ready.authenticated outside
    (Server.writable_of_masterRole ready.role _) here
  rw [Loading.exec, answered, noteSelect_other (ne_of_prepared prepared rfl)] at ended
  split at ended
  · cases ended
  all_goals
    cases ended
    exact ⟨⟨ready.conn, ready.role, ready.requirePass⟩, _, by rw [ready.conn]; rfl⟩

theorem Loading.exec_refused (refused : loading.server.isAuthenticated loading.conn = false)
    (known : isPrepared F (toLower (str head)) = true) (moments : Moments F) :
    loading.exec moments (head :: args) = some loading := by
  rw [exec_of_answered (Server.exec_unauthenticated moments args (ne_of_prepared known rfl)
    (ne_of_prepared known rfl) refused), noteSelect_other (ne_of_prepared known rfl)]
  rfl

theorem Loading.exec_select_refused (refused : loading.server.isAuthenticated loading.conn = false)
    (fits : dbIndex < 2 ^ 63) (moments : Moments F) :
    loading.exec moments (selectLine dbIndex) = some { loading with currentDB := dbIndex } := by
  have notPing : toLower (str (some (lit "SELECT"))) ≠ lit "ping" := by decide
  have notAuth : toLower (str (some (lit "SELECT"))) ≠ lit "auth" := by decide
  have answered := Server.exec_unauthenticated moments [some (formatNat dbIndex)] notPing notAuth
    refused
  refine (exec_of_answered answered).trans ?_
  exact congrArg (Option.map _) (noteSelect_select fits)

end Loading

end Godis.Database
