import Godis.Redis.ParserV2

/-!
# The two servers (`redis/server/std`, `redis/server/gnet`)

Both read commands from a connection.  The first pulls them out of one buffered stream, the second
looks for one command with each arrival of bytes.
-/

namespace Godis.Redis

open Golang Database List

/-! ## Commands on the wire -/

structure InlineCommand where
  kind : UInt8
  text : Str
  plain : kind ∉ ([43, 45, 58, 36, 42] : List UInt8)
  noReturn : (13 : UInt8) ∉ kind :: text
  noNewline : (10 : UInt8) ∉ kind :: text

inductive Command where
  | array (line : CommandLine)
  | inline (line : InlineCommand)

namespace Command

def toBytes : Command → Str
  | .array line => line.toBytes
  | .inline line => line.kind :: line.text ++ crlf

def line : Command → Line
  | .array line => line.line
  | .inline line => (splitSpaces (line.kind :: line.text)).map some

theorem splitSpaces_ne_nil {text : Str} : splitSpaces text ≠ [] := by
  cases text with
  | nil => exact cons_ne_nil _ _
  | cons byte rest =>
    rw [splitSpaces]
    split
    · exact cons_ne_nil _ _
    · split
      · exact cons_ne_nil _ _
      · exact cons_ne_nil _ _

variable (command : Command)

theorem line_ne_nil : command.line ≠ [] := by
  cases command with
  | array line => exact fun empty => line.filled (map_eq_nil_iff.mp empty)
  | inline line => exact fun empty => splitSpaces_ne_nil (map_eq_nil_iff.mp empty)

theorem parseRound_toBytes (rest : Str) :
    parseRound (command.toBytes ++ rest) = .next [.data (.multiBulk command.line)] rest := by
  cases command with
  | array line => exact line.parseRound_toBytes rest
  | inline line =>
    have plain := line.plain
    simp only [mem_cons, not_mem_nil, or_false, not_or] at plain
    obtain ⟨notStatus, notError, notInt, notBulk, notArray⟩ := plain
    refine (parseRound_line line.noNewline rest).trans ?_
    unfold parseContent
    split
    · exact absurd ‹_› notStatus
    · exact absurd ‹_› notError
    · exact absurd ‹_› notInt
    · exact absurd ‹_› notBulk
    · exact absurd ‹_› notArray
    · rfl

theorem parseV2_toBytes (rest : Str) :
    parseV2 (command.toBytes ++ rest) = .done command.line rest := by
  cases command with
  | array line => exact line.parseV2_toBytes rest
  | inline line =>
    have notArray : line.kind ≠ 42 := by
      intro same
      exact line.plain (by rw [same]; decide)
    have noReturn : (13 : UInt8) ∉ line.text := fun member =>
      line.noReturn (mem_cons_of_mem _ member)
    have read : readByte (line.kind :: (line.text ++ crlf ++ rest)) =
      .done line.kind (line.text ++ crlf ++ rest) := rfl
    change parseV2 (line.kind :: (line.text ++ crlf ++ rest)) = _
    rw [parseV2, Reader.bind_done read, if_pos notArray,
      Reader.bind_done (readLine_append noReturn rest)]
    rfl

end Command

def wire (commands : List Command) : Str :=
  commands.flatMap Command.toBytes

/-! ## The std server -/

def isClosing (error : Str) : Bool :=
  error = eof || error = unexpectedEof ||
    error.tails.any fun tail => (lit "use of closed network connection").isPrefixOf tail

/-- `Handler.Handle`: the command lines handed to `db.Exec`. -/
def handle : List Payload → List Line
  | [] => []
  | .failed error :: payloads => if isClosing error then [] else handle payloads
  | .data (.multiBulk args) :: payloads => args :: handle payloads
  | .data _ :: payloads => handle payloads

/-- The segments are one stream for the buffered reader of `ParseStream`. -/
def stdExecuted (segments : List Str) : List Line :=
  handle (parse0 segments.flatten).1

theorem handle_commands {commands : List Command} :
    handle (commands.map (fun command => .data (.multiBulk command.line)) ++ [.failed eof]) =
      commands.map Command.line := by
  induction commands with
  | nil => rfl
  | cons command commands ih => exact congrArg (command.line :: ·) ih

theorem parse0_wire {commands : List Command} :
    parse0 (wire commands) =
      (commands.map (fun command => .data (.multiBulk command.line)) ++ [.failed eof], true) := by
  induction commands with
  | nil => rfl
  | cons command commands ih =>
    rw [wire, flatMap_cons, parse0_next (command.parseRound_toBytes _)]
    change (_ ++ (parse0 (wire commands)).1, (parse0 (wire commands)).2) = _
    rw [ih]
    rfl

/-! ## The gnet server -/

inductive Status where
  | running
  | closed
  | crashed
  deriving DecidableEq

/-- A connection of the gnet server: the bytes not read yet and the command lines handed to
`db.Exec`. -/
structure GnetConn where
  status : Status
  buffered : Str
  executed : List Line

/-- `OnTraffic`, called when a segment has arrived. -/
def onTraffic (conn : GnetConn) (segment : Str) : GnetConn :=
  match conn.status with
  | .running =>
    match parseV2 (conn.buffered ++ segment) with
    | .failed _ => { conn with status := .closed }
    | .panicked => { conn with status := .crashed }
    | .done [] rest => { conn with buffered := rest }
    | .done cmdLine rest =>
      { conn with buffered := rest, executed := conn.executed ++ [cmdLine] }
  | _ => conn

def gnetRun (segments : List Str) : GnetConn :=
  segments.foldl onTraffic ⟨.running, [], []⟩

theorem foldl_of_not_running {conn : GnetConn} (stopped : conn.status ≠ .running)
    {segments : List Str} : segments.foldl onTraffic conn = conn := by
  induction segments with
  | nil => rfl
  | cons segment segments ih =>
    have same : onTraffic conn segment = conn := by
      unfold onTraffic
      split
      · exact absurd ‹_› stopped
      · rfl
    rw [foldl_cons, same, ih]

variable {buffered segment : Str} {commands : List Command}

theorem onTraffic_command (command : Command) {rest : Str} (executed : List Line)
    (arrived : buffered ++ segment = command.toBytes ++ rest) :
    onTraffic ⟨.running, buffered, executed⟩ segment =
      ⟨.running, rest, executed ++ [command.line]⟩ := by
  have read := command.parseV2_toBytes rest
  rw [← arrived] at read
  obtain ⟨_, _, shape⟩ := List.exists_cons_of_ne_nil command.line_ne_nil
  rw [shape] at read ⊢
  simp only [onTraffic, read]

theorem onTraffic_short (command : Command) {missing : Str} (executed : List Line)
    (cut : missing ≠ []) (arrived : buffered ++ segment ++ missing = command.toBytes) :
    (onTraffic ⟨.running, buffered, executed⟩ segment).status ≠ .running := by
  have whole : parseV2 (buffered ++ segment ++ missing) = .done command.line [] := by
    have read := command.parseV2_toBytes []
    rwa [append_nil, ← arrived] at read
  have never := incremental_parseV2.not_done_of_short whole cut
  unfold onTraffic
  cases read : parseV2 (buffered ++ segment) with
  | done early rest => exact absurd read (never early rest)
  | failed error => simp
  | panicked => simp

/-! ## Segmentation -/

abbrev Segment := { bytes : Str // bytes ≠ [] }

def arrived (segments : List Segment) : Str :=
  (segments.map Subtype.val).flatten

/-- As many segments as commands, and the first segments bring the first commands each time, with
`ahead` bytes there before. -/
def InStepFrom (ahead : Nat) (commands : List Command) (segments : List Segment) : Prop :=
  segments.length = commands.length ∧
    ∀ count ≤ commands.length,
      (wire (commands.take count)).length ≤ ahead + (arrived (segments.take count)).length

def InStep (commands : List Command) (segments : List Segment) : Prop :=
  InStepFrom 0 commands segments

theorem length_wire_cons (command : Command) :
    (wire (command :: commands)).length = command.toBytes.length + (wire commands).length := by
  rw [wire, flatMap_cons, length_append]
  rfl

theorem length_arrived_cons (segment : Segment) (segments : List Segment) :
    (arrived (segment :: segments)).length = segment.val.length + (arrived segments).length := by
  rw [arrived, map_cons, List.flatten_cons, length_append]
  rfl

variable {segments : List Segment}

theorem inStepFrom_cons {ahead left : Nat} {command : Command} {segment : Segment}
    (enough : ahead + segment.val.length = command.toBytes.length + left) :
    InStepFrom ahead (command :: commands) (segment :: segments) ↔
      InStepFrom left commands segments := by
  unfold InStepFrom
  rw [length_cons, length_cons, Nat.add_right_cancel_iff]
  refine and_congr_right fun _ => ?_
  constructor
  · intro each count within
    have later := each (count + 1) (by omega)
    rw [take_succ_cons, take_succ_cons, length_wire_cons, length_arrived_cons] at later
    omega
  · intro each count within
    cases count with
    | zero => exact Nat.zero_le _
    | succ count =>
      have now := each count (by omega)
      rw [take_succ_cons, take_succ_cons, length_wire_cons, length_arrived_cons]
      omega

theorem gnet_executes_iff (commands : List Command) (segments : List Segment) (buffered : Str)
    (executed : List Line) (whole : buffered ++ arrived segments = wire commands) :
    ((segments.map Subtype.val).foldl onTraffic ⟨.running, buffered, executed⟩).status = .running ∧
        ((segments.map Subtype.val).foldl onTraffic ⟨.running, buffered, executed⟩).executed =
          executed ++ commands.map Command.line ↔
      InStepFrom buffered.length commands segments := by
  induction segments generalizing commands buffered executed with
  | nil =>
    cases commands with
    | nil => simp [InStepFrom, wire]
    | cons command commands =>
      refine iff_of_false ?_ fun inStep => by cases inStep.1
      rintro ⟨-, same⟩
      exact absurd (congrArg List.length same) (by simp)
  | cons segment segments ih =>
    cases commands with
    | nil =>
      have empty : segment.val = [] := by
        have none := whole
        simp only [arrived, map_cons, List.flatten_cons, wire, List.flatMap_nil,
          List.append_eq_nil_iff] at none
        exact none.2.1
      exact absurd empty segment.property
    | cons command commands =>
      have whole' : buffered ++ segment.val ++ arrived segments =
          command.toBytes ++ wire commands := by
        rw [append_assoc]
        exact whole
      rw [map_cons, foldl_cons]
      rcases List.append_eq_append_iff.mp whole' with
        ⟨missing, bytes, later⟩ | ⟨rest, bytes, later⟩
      · by_cases cut : missing = []
        · subst cut
          rw [append_nil] at bytes
          rw [onTraffic_command command executed (by rw [append_nil]; exact bytes.symm)]
          have inner := ih commands [] (executed ++ [command.line]) later
          rw [append_assoc] at inner
          refine inner.trans (inStepFrom_cons ?_).symm
          rw [bytes, length_append]
          rfl
        · have stopped := onTraffic_short command executed cut bytes.symm
          rw [foldl_of_not_running stopped]
          refine iff_of_false (fun both => stopped both.1) fun inStep => ?_
          have first := inStep.2 1 (by simp)
          have positive := length_pos_iff.mpr cut
          have sizes := congrArg List.length bytes
          rw [take_succ_cons, take_succ_cons, length_wire_cons, length_arrived_cons,
            List.take_zero, List.take_zero] at first
          simp only [length_append] at sizes
          simp only [wire, arrived, List.flatMap_nil, map_nil, List.flatten_nil,
            length_nil] at first
          omega
      · rw [onTraffic_command command executed bytes]
        have inner := ih commands rest (executed ++ [command.line]) later.symm
        rw [append_assoc] at inner
        refine inner.trans (inStepFrom_cons ?_).symm
        have sizes := congrArg List.length bytes
        simpa only [length_append] using sizes

theorem stdExecuted_wire (whole : arrived segments = wire commands) :
    stdExecuted (segments.map Subtype.val) = commands.map Command.line := by
  change handle (parse0 (arrived segments)).1 = _
  rw [whole, parse0_wire, handle_commands]

/-- The gnet server executes what the std server does exactly where segments and commands keep
step. -/
theorem servers_agree_iff (commands : List Command) (segments : List Segment)
    (whole : arrived segments = wire commands) :
    (gnetRun (segments.map Subtype.val)).status = .running ∧
        (gnetRun (segments.map Subtype.val)).executed = stdExecuted (segments.map Subtype.val) ↔
      InStep commands segments := by
  rw [stdExecuted_wire whole]
  exact gnet_executes_iff commands segments [] [] whole

def ping : Command :=
  .array ⟨[lit "PING"], by decide, by decide, by decide⟩

theorem servers_agree_on_two_pings :
    (gnetRun [lit "*1\r\n$4\r\nPING\r\n", lit "*1\r\n$4\r\nPING\r\n"]).executed =
      stdExecuted [lit "*1\r\n$4\r\nPING\r\n", lit "*1\r\n$4\r\nPING\r\n"] :=
  ((servers_agree_iff [ping, ping]
    [⟨lit "*1\r\n$4\r\nPING\r\n", by decide⟩, ⟨lit "*1\r\n$4\r\nPING\r\n", by decide⟩]
    (by decide)).mpr ⟨rfl, by decide⟩).2

/-- Two commands in one segment: the second waits for bytes that need not come. -/
theorem pipelined_command_is_left :
    arrived [⟨wire [ping, ping], by decide⟩] = wire [ping, ping] ∧
      stdExecuted [wire [ping, ping]] = [ping.line, ping.line] ∧
      (gnetRun [wire [ping, ping]]).executed = [ping.line] ∧
      (gnetRun [lit "*1\r\n$4", lit "\r\nPING\r\n"]).status = .closed := by
  refine ⟨by decide, ?_, ?_, ?_⟩
  · rfl
  · rfl
  · rfl

end Godis.Redis
