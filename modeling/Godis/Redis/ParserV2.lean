import Godis.Golang.Reader
import Godis.Redis.Parser

/-!
# Reading one command (`redis/parser/parserv2.go`)

`ParseV2` takes one command from a connection byte by byte.  It and `parse0` read back every
series of command lines from what `MultiBulkReply.ToBytes` makes of them.
-/

namespace Godis.Redis

open Golang Database Reader List

inductive ParseError where
  | short (error : Short)
  | eofAfterReturn
  | noNewline
  | number (error : NumError)
  | unsupported
  deriving DecidableEq

/-- `io.ReadFull` into a buffer of one byte. -/
def readByte : Reader ParseError UInt8
  | [] => .failed (.short .eof)
  | byte :: rest => .done byte rest

def readLine : Reader ParseError Str
  | [] => .failed (.short .eof)
  | byte :: rest =>
    if byte = 13 then
      match rest with
      | [] => .failed .eofAfterReturn
      | newline :: rest => if newline = 10 then .done [] rest else .failed .noNewline
    else
      match readLine rest with
      | .done line rest => .done (byte :: line) rest
      | .failed error => .failed error
      | .panicked => .panicked

def atoi (text : Str) : Reader ParseError Int :=
  match parseInt text with
  | .ok n => pure n
  | .error error => fail (.number error)

def readInteger : Reader ParseError Int := do
  let line ← readLine
  atoi line

/-- `make` for that many bytes: larger than the address space is not possible, unless so much
data is there. -/
def allocate (size : Nat) (filled : Nat) : Reader ParseError Unit := fun input =>
  if maxAlloc < size ∧ input.length < filled then .panicked else .done () input

def readArgument : Reader ParseError Bytes := do
  let kind ← readByte
  if kind = 36 then
    let strLen ← readInteger
    if strLen < 0 then return none
    else
      allocate (strLen.toNat + 2) (strLen.toNat + 2)
      let data ← (readFull (strLen.toNat + 2)).mapError ParseError.short
      return some (data.take strLen.toNat)
  else fail .unsupported

def readArguments : Nat → Reader ParseError (List Bytes)
  | 0 => return []
  | count + 1 => do
    let argument ← readArgument
    let others ← readArguments count
    return argument :: others

/-- `ParseV2`; no arguments stand for the nil slice too. -/
def parseV2 : Reader ParseError (List Bytes) := do
  let first ← readByte
  if first ≠ 42 then
    let line ← readLine
    return (splitSpaces (first :: line)).map some
  else
    let count ← readInteger
    if count < 0 then return []
    else
      allocate (24 * count.toNat) count.toNat
      readArguments count.toNat

/-! ## Bytes that arrive later -/

theorem incremental_readByte : Incremental readByte := by
  intro input value rest more read
  cases input with
  | nil => cases read
  | cons byte input =>
    cases read
    rfl

variable {rest : Str}

theorem readLine_cons {byte : UInt8} (differs : byte ≠ 13) :
    readLine (byte :: rest) =
      match readLine rest with
      | .done line rest => .done (byte :: line) rest
      | .failed error => .failed error
      | .panicked => .panicked :=
  if_neg differs

theorem incremental_readLine : Incremental readLine := by
  intro input
  induction input with
  | nil =>
    intro value rest more read
    cases read
  | cons byte input ih =>
    intro value rest more read
    by_cases isReturn : byte = 13
    · subst isReturn
      cases input with
      | nil => cases read
      | cons newline input =>
        by_cases isNewline : newline = 10
        · subst isNewline
          cases read
          rfl
        · have failed : readLine (13 :: newline :: input) = .failed .noNewline :=
            if_neg isNewline
          rw [failed] at read
          cases read
    · rw [readLine_cons isReturn] at read
      rw [cons_append, readLine_cons isReturn]
      cases later : readLine input with
      | done line left =>
        rw [later] at read
        cases read
        rw [ih _ _ more later]
      | failed error | panicked =>
        rw [later] at read
        cases read

theorem incremental_readInteger : Incremental readInteger := by
  refine incremental_readLine.bind fun line => ?_
  unfold atoi
  split
  · exact incremental_pure
  · exact incremental_fail _

theorem incremental_allocate {size filled : Nat} : Incremental (allocate size filled) := by
  intro input value rest more read
  unfold allocate at read ⊢
  split at read
  · cases read
  · rename_i room
    cases read
    rw [if_neg fun huge => room ⟨huge.1, by
      have short := huge.2
      rw [length_append] at short
      omega⟩]

theorem incremental_readArgument : Incremental readArgument := by
  refine incremental_readByte.bind fun kind => ?_
  split
  · refine incremental_readInteger.bind fun strLen => ?_
    split
    · exact incremental_pure
    · refine (incremental_allocate).bind fun _ => ?_
      exact ((incremental_readFull).mapError _).bind fun data => incremental_pure
  · exact incremental_fail _

theorem incremental_readArguments {count : Nat} : Incremental (readArguments count) := by
  induction count with
  | zero => exact incremental_pure
  | succ count ih =>
    exact incremental_readArgument.bind fun argument => ih.bind fun others => incremental_pure

theorem incremental_parseV2 : Incremental parseV2 := by
  refine incremental_readByte.bind fun first => ?_
  split
  · exact incremental_readLine.bind fun line => incremental_pure
  · refine incremental_readInteger.bind fun count => ?_
    split
    · exact incremental_pure
    · exact (incremental_allocate).bind fun _ => incremental_readArguments

/-! ## What is written is read back -/

theorem readLine_append {line : Str} (inside : (13 : UInt8) ∉ line) (rest : Str) :
    readLine (line ++ crlf ++ rest) = .done line rest := by
  induction line with
  | nil => rfl
  | cons byte line ih =>
    have differs : byte ≠ 13 := fun same => inside (same ▸ mem_cons_self)
    have later := ih fun member => inside (mem_cons_of_mem byte member)
    rw [cons_append, cons_append, readLine_cons differs, later]

theorem return_not_mem_formatNat {n : Nat} : (13 : UInt8) ∉ formatNat n := fun member =>
  absurd (formatNat_digits 13 member) (by decide)

theorem readInteger_formatNat {n : Nat} (fits : n < 2 ^ 63) :
    readInteger (formatNat n ++ crlf ++ rest) = .done (n : Int) rest := by
  rw [readInteger, bind_done (readLine_append return_not_mem_formatNat rest), atoi,
    parseInt_formatNat fits]
  rfl

theorem allocate_of_enough {size filled : Nat} {input : Str} (enough : filled ≤ input.length) :
    allocate size filled input = .done () input := by
  rw [allocate, if_neg (by omega)]

theorem readArgument_bulkBytes {arg : Str} (fits : arg.length < 2 ^ 63) :
    readArgument (bulkBytes (some arg) ++ rest) = .done (some arg) rest := by
  have shape : bulkBytes (some arg) ++ rest =
      36 :: (formatNat arg.length ++ crlf ++ ((arg ++ crlf) ++ rest)) := by
    simp only [bulkBytes, append_assoc]
    rfl
  have size : arg.length + 2 = (arg ++ crlf).length := by
    rw [length_append]
    rfl
  have read : readByte (36 :: (formatNat arg.length ++ crlf ++ ((arg ++ crlf) ++ rest))) =
    .done 36 (formatNat arg.length ++ crlf ++ ((arg ++ crlf) ++ rest)) := rfl
  rw [shape, readArgument, bind_done read, if_pos rfl, bind_done (readInteger_formatNat fits),
    if_neg (by omega), Int.toNat_natCast, size,
    bind_done (allocate_of_enough (by simp only [length_append]; omega))]
  have body : (readFull (arg ++ crlf).length).mapError ParseError.short ((arg ++ crlf) ++ rest) =
      .done (arg ++ crlf) rest := by
    rw [Reader.mapError, readFull_append]
  rw [bind_done body, List.take_left]
  rfl

theorem readArguments_bulkBytes {args : List Str} (sized : ∀ arg ∈ args, arg.length < 2 ^ 63) :
    readArguments args.length ((args.map some).flatMap bulkBytes ++ rest) =
      .done (args.map some) rest := by
  induction args with
  | nil => rfl
  | cons arg args ih =>
    rw [map_cons, flatMap_cons, append_assoc, length_cons, readArguments,
      bind_done (readArgument_bulkBytes (sized arg mem_cons_self)),
      bind_done (ih fun other member => sized other (mem_cons_of_mem arg member))]
    rfl

/-- A command line: a non-empty slice of byte slices, their lengths being an `int`. -/
structure CommandLine where
  args : List Str
  filled : args ≠ []
  counted : args.length < 2 ^ 63
  sized : ∀ arg ∈ args, arg.length < 2 ^ 63

namespace CommandLine

def line (command : CommandLine) : Line :=
  command.args.map some

def toBytes (command : CommandLine) : Str :=
  multiBulkBytes command.line

theorem sized_line (command : CommandLine) : Sized command.line := by
  refine ⟨by simpa [line] using command.counted, ?_⟩
  intro arg member
  obtain ⟨bytes, inside, rfl⟩ := mem_map.mp member
  exact command.sized bytes inside

theorem map_str_line {command : CommandLine} :
    (command.line.map fun arg => some (str arg)) = command.line := by
  rw [line, map_map]
  rfl

theorem parseRound_toBytes (command : CommandLine) (rest : Str) :
    parseRound (command.toBytes ++ rest) = .next [.data (.multiBulk command.line)] rest := by
  have filled : command.line ≠ [] := fun empty => command.filled (map_eq_nil_iff.mp empty)
  rw [toBytes, parseRound_multiBulkBytes command.line filled command.sized_line rest,
    map_str_line]

theorem parseV2_toBytes (command : CommandLine) (rest : Str) :
    parseV2 (command.toBytes ++ rest) = .done command.line rest := by
  have shape : command.toBytes ++ rest = 42 :: (formatNat command.args.length ++ crlf ++
      (command.line.flatMap bulkBytes ++ rest)) := by
    simp only [toBytes, multiBulkBytes, line, length_map, append_assoc]
    rfl
  have read : readByte (42 :: (formatNat command.args.length ++ crlf ++
      (command.line.flatMap bulkBytes ++ rest))) =
    .done 42 (formatNat command.args.length ++ crlf ++
      (command.line.flatMap bulkBytes ++ rest)) := rfl
  have room : command.args.length ≤ (command.line.flatMap bulkBytes ++ rest).length := by
    have least := length_le_flatMap_bulkBytes command.line
    rw [line, length_map] at least
    rw [length_append]
    exact Nat.le_trans least (Nat.le_add_right _ _)
  rw [shape, parseV2, bind_done read, if_neg (not_not.mpr rfl),
    bind_done (readInteger_formatNat command.counted), if_neg (by omega), Int.toNat_natCast,
    bind_done (allocate_of_enough room)]
  exact readArguments_bulkBytes command.sized

end CommandLine

def stream (commands : List CommandLine) : Str :=
  commands.flatMap CommandLine.toBytes

variable (commands : List CommandLine)

theorem parse0_stream_append (rest : Str) :
    parse0 (stream commands ++ rest) =
      (commands.map (fun command => .data (.multiBulk command.line)) ++ (parse0 rest).1,
        (parse0 rest).2) := by
  induction commands with
  | nil => rfl
  | cons command commands ih =>
    rw [stream, flatMap_cons, append_assoc,
      parse0_next (command.parseRound_toBytes _)]
    change (_ ++ (parse0 (stream commands ++ rest)).1, (parse0 (stream commands ++ rest)).2) = _
    rw [ih]
    rfl

/-- `calls` calls of `ParseV2`, one behind the other. -/
def parseTimes : Nat → Reader ParseError (List (List Bytes))
  | 0 => return []
  | calls + 1 => do
    let args ← parseV2
    let later ← parseTimes calls
    return args :: later

theorem parseTimes_stream (rest : Str) :
    parseTimes commands.length (stream commands ++ rest) =
      .done (commands.map CommandLine.line) rest := by
  induction commands with
  | nil => rfl
  | cons command commands ih =>
    rw [stream, flatMap_cons, append_assoc, length_cons, parseTimes,
      bind_done (command.parseV2_toBytes _)]
    change (parseTimes commands.length >>= fun later => pure (command.line :: later))
      (stream commands ++ rest) = _
    rw [bind_done ih]
    rfl

/-- Both parsers read a series of command lines back, `ParseV2` one with each call. -/
theorem command_codec_round_trip (commands : List CommandLine) :
    parse0 (stream commands) =
        (commands.map (fun command => .data (.multiBulk command.line)) ++ [.failed eof], true) ∧
      ∀ calls : Fin (commands.length + 1), parseTimes calls (stream commands) =
        .done ((commands.take calls).map CommandLine.line) (stream (commands.drop calls)) := by
  constructor
  · have whole := parse0_stream_append commands []
    rwa [append_nil] at whole
  · rintro ⟨calls, within⟩
    have split : stream commands = stream (commands.take calls) ++ stream (commands.drop calls) := by
      rw [stream, stream, stream, ← flatMap_append, take_append_drop]
    have counted : (commands.take calls).length = calls := List.length_take_of_le (Nat.le_of_lt_succ within)
    have read := parseTimes_stream (commands.take calls) (stream (commands.drop calls))
    rwa [counted, ← split] at read

end Godis.Redis
