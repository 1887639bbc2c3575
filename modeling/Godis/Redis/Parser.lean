import Godis.Database.Value

/-!
# Redis serialization protocol (`redis/protocol/reply.go`, `redis/parser/parser.go`)
-/

namespace Godis.Database

open Golang List

def crlf : Str :=
  [13, 10]

/-! ## Writing -/

def bulkBytes : Bytes → Str
  | none => lit "$-1" ++ crlf
  | some arg => lit "$" ++ formatNat arg.length ++ crlf ++ arg ++ crlf

def multiBulkBytes (args : List Bytes) : Str :=
  lit "*" ++ formatNat args.length ++ crlf ++ args.flatMap bulkBytes

/-! ## Reading -/

inductive Payload where
  | data (reply : Reply)
  | failed (error : Str)

/-- `ReadBytes('\n')`: the line with its end, and what follows; nothing at the end of the data. -/
def readLine : Str → Option (Str × Str)
  | [] => none
  | byte :: rest =>
    if byte = 10 then some ([byte], rest)
    else (readLine rest).map fun found => (byte :: found.1, found.2)

def eof : Str :=
  lit "EOF"

def unexpectedEof : Str :=
  lit "unexpected EOF"

def protocolError (text : Str) : Payload :=
  .failed (lit "protocol error: " ++ text)

/-- The body of a bulk string and the line end behind it. -/
inductive Body where
  | read (bytes rest : Str)
  | failed (error : Str)
  | panicked

/-- `make([]byte, strLen+2)` and `io.ReadFull`. -/
def readBody (size : Nat) (input : Str) : Body :=
  if size + 2 ≤ input.length then .read (input.take size) (input.drop (size + 2))
  else if maxAlloc < size + 2 then .panicked
  else if input.isEmpty then .failed eof
  else .failed unexpectedEof

/-- One round of the loop of `parse0`: what is sent, and how the loop goes on. -/
inductive Round where
  | next (sent : List Payload) (rest : Str)
  | closed (sent : List Payload)
  | panicked (sent : List Payload)

def trimEnd (line : Str) : Str :=
  line.take (line.length - 2)

/-- `length > 2` and the line ends with `\r\n`, the last byte being `\n` anyway. -/
def isLine (line : Str) : Bool :=
  2 < line.length && line.getD (line.length - 2) 0 = 13

def parseBulkString (header rest : Str) : Round :=
  match parseInt header.tail with
  | .error _ => .next [protocolError (lit "illegal bulk string header: " ++ header)] rest
  | .ok size =>
    if size < -1 then .next [protocolError (lit "illegal bulk string header: " ++ header)] rest
    else if size = -1 then .next [.data .nullBulk] rest
    else
      match readBody size.toNat rest with
      | .read bytes rest => .next [.data (.bulk (some bytes))] rest
      | .failed error => .closed [.failed error]
      | .panicked => .panicked []

/-- The loop of `parseArray` over the strings still to come. -/
def parseStrings : Nat → List Bytes → Str → Round
  | 0, strings, input => .next [.data (.multiBulk strings)] input
  | count + 1, strings, input =>
    match readLine input with
    | none => .closed [.failed eof]
    | some (line, rest) =>
      if line.length < 4 || line.getD (line.length - 2) 0 ≠ 13 || line.head? ≠ some 36 then
        .next [protocolError (lit "illegal bulk string header " ++ line),
          .data (.multiBulk strings)] rest
      else
        match parseInt (trimEnd line).tail with
        | .error _ =>
          .next [protocolError (lit "illegal bulk string length " ++ line),
            .data (.multiBulk strings)] rest
        | .ok size =>
          if size < -1 then
            .next [protocolError (lit "illegal bulk string length " ++ line),
              .data (.multiBulk strings)] rest
          else if size = -1 then parseStrings count (strings ++ [some []]) rest
          else
            match readBody size.toNat rest with
            | .read bytes rest => parseStrings count (strings ++ [some bytes]) rest
            | .failed error => .closed [.failed error]
            | .panicked => .panicked []

/-- `make([][]byte, 0, nStrs)` makes room for slices of 24 bytes. -/
def parseArray (header rest : Str) : Round :=
  match parseInt header.tail with
  | .error _ => .next [protocolError (lit "illegal array header " ++ header.tail)] rest
  | .ok count =>
    if count < 0 then .next [protocolError (lit "illegal array header " ++ header.tail)] rest
    else if count = 0 then .next [.data .emptyMultiBulk] rest
    else if maxAlloc < 24 * count.toNat ∧ rest.length < count.toNat then .panicked []
    else parseStrings count.toNat [] rest

def splitSpaces : Str → List Str
  | [] => [[]]
  | byte :: rest =>
    if byte = 32 then [] :: splitSpaces rest
    else
      match splitSpaces rest with
      | [] => [[byte]]
      | first :: others => (byte :: first) :: others

def parseRDBBulkString (status : Payload) (input : Str) : Round :=
  match readLine input with
  | none => .closed [status, .failed (lit "failed to read bytes")]
  | some (line, rest) =>
    let header := if isLine line || line = crlf then trimEnd line else line
    if header.isEmpty then .closed [status, .failed (lit "empty header")]
    else
      match parseInt header.tail with
      | .error _ => .closed [status, .failed (lit "illegal bulk header: " ++ header)]
      | .ok size =>
        if size ≤ 0 then .closed [status, .failed (lit "illegal bulk header: " ++ header)]
        else if size.toNat ≤ rest.length then
          .next [status, .data (.bulk (some (rest.take size.toNat)))] (rest.drop size.toNat)
        else if maxAlloc < size.toNat then .panicked [status]
        else if rest.isEmpty then .closed [status, .failed eof]
        else .closed [status, .failed unexpectedEof]

/-- The `switch` of `parse0` on a line without its end. -/
def parseContent (content rest : Str) : Round :=
  match content.headD 0 with
  | 43 =>
    if (lit "FULLRESYNC").isPrefixOf content.tail then
      parseRDBBulkString (.data (.status content.tail)) rest
    else .next [.data (.status content.tail)] rest
  | 45 => .next [.data (.error content.tail)] rest
  | 58 =>
    match parseInt content.tail with
    | .error _ => .next [protocolError (lit "illegal number " ++ content.tail)] rest
    | .ok number => .next [.data (.int number)] rest
  | 36 => parseBulkString content rest
  | 42 => parseArray content rest
  | _ => .next [.data (.multiBulk ((splitSpaces content).map some))] rest

/-- One round of the loop of `parse0`. -/
def parseRound (input : Str) : Round :=
  match readLine input with
  | none => .closed [.failed eof]
  | some (line, rest) => if !isLine line then .next [] rest else parseContent (trimEnd line) rest

/-- The payloads of a stream, and whether the channel is closed behind them. -/
def parseStream : Nat → Str → List Payload × Bool
  | 0, _ => ([], false)
  | fuel + 1, input =>
    match parseRound input with
    | .closed sent => (sent, true)
    | .panicked sent => (sent, false)
    | .next sent rest =>
      let later := parseStream fuel rest
      (sent ++ later.1, later.2)

/-- `ParseOne`: the first payload; without one it waits for ever. -/
def parseOne (input : Str) : Option Payload :=
  (parseStream (input.length + 1) input).1.head?

/-! ## What is written is read back -/

variable {header text input line rest : Str} {kind : UInt8} {sent : List Payload}

theorem readLine_append (inside : (10 : UInt8) ∉ header) (rest : Str) :
    readLine (header ++ 10 :: rest) = some (header ++ [10], rest) := by
  induction header with
  | nil => rfl
  | cons byte header ih =>
    have differs : byte ≠ 10 := fun same => inside (same ▸ mem_cons_self)
    rw [cons_append, readLine, if_neg differs,
      ih fun member => inside (mem_cons_of_mem byte member)]
    rfl

theorem trimEnd_header : trimEnd (kind :: text ++ crlf) = kind :: text := by
  simp [trimEnd, crlf]

theorem getD_header : (kind :: text ++ crlf).getD ((kind :: text ++ crlf).length - 2) 0 = 13 := by
  simp [crlf, getD_eq_getElem?_getD]

theorem readLine_line (inside : (10 : UInt8) ∉ kind :: text) :
    readLine (kind :: text ++ crlf ++ rest) = some (kind :: text ++ crlf, rest) := by
  have inLine : (10 : UInt8) ∉ kind :: text ++ [13] := by
    rw [mem_append, not_or]
    exact ⟨inside, by decide⟩
  simpa [crlf] using readLine_append inLine rest

theorem parseRound_line (inside : (10 : UInt8) ∉ kind :: text) (rest : Str) :
    parseRound (kind :: text ++ crlf ++ rest) = parseContent (kind :: text) rest := by
  have isOne : isLine (kind :: text ++ crlf) = true := by
    rw [isLine]
    simp [crlf]
  rw [parseRound, readLine_line inside]
  simp only [isOne, Bool.not_true, Bool.false_eq_true, if_false, trimEnd_header]

theorem newline_not_mem_header (isKind : kind ≠ 10) {n : Nat} :
    (10 : UInt8) ∉ kind :: formatNat n := by
  rw [mem_cons, not_or]
  refine ⟨isKind.symm, fun member => ?_⟩
  exact absurd (formatNat_digits 10 member) (by decide)

theorem formatNat_length_pos (n : Nat) : 0 < (formatNat n).length := by
  obtain ⟨_, _, shape, _⟩ := formatNat_head n
  simp [shape]

def Sized (args : List Bytes) : Prop :=
  args.length < 2 ^ 63 ∧ ∀ arg ∈ args, (str arg).length < 2 ^ 63

theorem readBody_append {bytes : Str} :
    readBody bytes.length (bytes ++ crlf ++ rest) = .read bytes rest := by
  rw [readBody]
  simp [crlf]

variable {count : Nat} {strings : List Bytes}

theorem parseStrings_some {bytes : Str} (fits : bytes.length < 2 ^ 63) :
    parseStrings (count + 1) strings (bulkBytes (some bytes) ++ rest) =
      parseStrings count (strings ++ [some bytes]) rest := by
  have shape : bulkBytes (some bytes) ++ rest =
      36 :: formatNat bytes.length ++ crlf ++ (bytes ++ crlf ++ rest) := by
    simp only [bulkBytes, append_assoc]
    rfl
  have long : ¬ (36 :: formatNat bytes.length ++ crlf).length < 4 := by
    have positive := formatNat_length_pos bytes.length
    simp only [cons_append, length_cons, length_append, crlf, length_nil]
    omega
  rw [shape, parseStrings, readLine_line (newline_not_mem_header (by decide))]
  dsimp only
  have first : (36 :: formatNat bytes.length ++ crlf).head? = some 36 := rfl
  rw [if_neg (by simp only [long, getD_header, first]; decide), trimEnd_header, tail_cons, parseInt_formatNat fits]
  dsimp only
  rw [if_neg (by omega), if_neg (by omega), Int.toNat_natCast, readBody_append]

theorem parseStrings_none :
    parseStrings (count + 1) strings (bulkBytes none ++ rest) =
      parseStrings count (strings ++ [some []]) rest :=
  rfl

variable (args : List Bytes)

theorem parseStrings_bulkBytes (count : Nat) (strings : List Bytes) (rest : Str)
    (sized : ∀ arg ∈ args, (str arg).length < 2 ^ 63) :
    parseStrings (args.length + count) strings (args.flatMap bulkBytes ++ rest) =
      parseStrings count (strings ++ args.map fun arg => some (str arg)) rest := by
  induction args generalizing strings with
  | nil => simp
  | cons arg args ih =>
    have later := ih (strings ++ [some (str arg)])
      fun other member => sized other (mem_cons_of_mem arg member)
    rw [append_assoc] at later
    rw [flatMap_cons, append_assoc, length_cons, Nat.add_right_comm]
    cases arg with
    | none => exact (parseStrings_none).trans later
    | some bytes =>
      exact (parseStrings_some (sized (some bytes) mem_cons_self)).trans later

theorem length_le_flatMap_bulkBytes :
    args.length ≤ (args.flatMap bulkBytes).length := by
  induction args with
  | nil => exact Nat.le_refl 0
  | cons arg args ih =>
    have some_ : 0 < (bulkBytes arg).length := by
      cases arg with
      | none => decide
      | some bytes => simp [bulkBytes, crlf]
    rw [flatMap_cons, length_append, length_cons]
    omega

theorem parseRound_multiBulkBytes (filled : args ≠ []) (sized : Sized args)
    (rest : Str) :
    parseRound (multiBulkBytes args ++ rest) =
      .next [.data (.multiBulk (args.map fun arg => some (str arg)))] rest := by
  have shape : multiBulkBytes args ++ rest =
      42 :: formatNat args.length ++ crlf ++ (args.flatMap bulkBytes ++ rest) := by
    simp only [multiBulkBytes, append_assoc]
    rfl
  have counted : 0 < args.length := length_pos_iff.mpr filled
  rw [shape, parseRound_line (newline_not_mem_header (by decide))]
  change parseArray (42 :: formatNat args.length) _ = _
  rw [parseArray, tail_cons, parseInt_formatNat sized.1]
  dsimp only
  have room : ¬ (args.flatMap bulkBytes ++ rest).length < args.length := by
    have least := length_le_flatMap_bulkBytes args
    rw [length_append]
    omega
  rw [if_neg (by omega), if_neg (by omega), Int.toNat_natCast, if_neg fun both => room both.2,
    ← Nat.add_zero args.length, parseStrings_bulkBytes args 0 [] rest sized.2]
  rfl

theorem parseOne_multiBulkBytes (filled : args ≠ []) (sized : Sized args) :
    parseOne (multiBulkBytes args) =
      some (.data (.multiBulk (args.map fun arg => some (str arg)))) := by
  have round := parseRound_multiBulkBytes args filled sized []
  rw [append_nil] at round
  rw [parseOne, parseStream, round]
  rfl

/-! ## The whole stream -/

/-- `parse0`: everything it sends, and whether it closes the channel in the end. -/
def parse0 (input : Str) : List Payload × Bool :=
  parseStream (input.length + 1) input

theorem readLine_eq_some (read : readLine input = some (line, rest)) :
    ∃ content, (10 : UInt8) ∉ content ∧ line = content ++ [10] ∧ input = line ++ rest := by
  induction input generalizing line with
  | nil => cases read
  | cons byte input ih =>
    rw [readLine] at read
    split at read
    · rename_i isEnd
      cases read
      exact ⟨[], not_mem_nil, by rw [isEnd]; rfl, rfl⟩
    · rename_i differs
      obtain ⟨⟨_, _⟩, readLater, same⟩ := Option.map_eq_some_iff.mp read
      cases same
      obtain ⟨content, inside, shape, whole⟩ := ih readLater
      refine ⟨byte :: content, ?_, by rw [shape]; rfl, by rw [whole]; rfl⟩
      rw [mem_cons, not_or]
      exact ⟨fun same => differs same.symm, inside⟩

theorem length_of_readLine (read : readLine input = some (line, rest)) :
    rest.length < input.length := by
  obtain ⟨_, -, shape, whole⟩ := readLine_eq_some read
  rw [whole, shape]
  simp only [length_append, length_cons, length_nil]
  omega

theorem length_of_readBody {size : Nat} {bytes : Str}
    (read : readBody size input = .read bytes rest) : rest.length ≤ input.length := by
  unfold readBody at read
  split at read
  · cases read
    rw [length_drop]
    omega
  · split at read
    · cases read
    · split at read
      · cases read
      · cases read

/-- A round that goes on has fewer than `limit` bytes left, and one that closes the channel has sent an
error last. -/
def Round.Sound (limit : Nat) : Round → Prop
  | .next _ rest => rest.length < limit
  | .closed sent => ∃ before error, sent = before ++ [.failed error]
  | .panicked _ => True

theorem Round.Sound.mono {round : Round} {limit larger : Nat} (sound : round.Sound limit)
    (le : limit ≤ larger) : round.Sound larger := by
  cases round with
  | next sent rest => exact Nat.lt_of_lt_of_le sound le
  | closed sent | panicked sent => exact sound

theorem sound_parseBulkString : (parseBulkString header rest).Sound (rest.length + 1) := by
  unfold parseBulkString
  split
  · exact Nat.lt_succ_self _
  · split
    · exact Nat.lt_succ_self _
    · split
      · exact Nat.lt_succ_self _
      · split
        · rename_i body
          exact Nat.lt_succ_of_le (length_of_readBody body)
        · exact ⟨[], _, rfl⟩
        · trivial

theorem sound_parseStrings (count : Nat) (strings : List Bytes) (input : Str) :
    (parseStrings count strings input).Sound (input.length + 1) := by
  induction count generalizing strings input with
  | zero => exact Nat.lt_succ_self _
  | succ count ih =>
    rw [parseStrings]
    split
    · exact ⟨[], _, rfl⟩
    · rename_i line rest read
      have shorter := length_of_readLine read
      have less := Nat.lt_succ_of_lt shorter
      split
      · exact less
      · split
        · exact less
        · split
          · exact less
          · split
            · exact (ih _ _).mono less
            · split
              · rename_i body
                have within := length_of_readBody body
                exact (ih _ _).mono (by omega)
              · exact ⟨[], _, rfl⟩
              · trivial

theorem sound_parseArray : (parseArray header rest).Sound (rest.length + 1) := by
  unfold parseArray
  split
  · exact Nat.lt_succ_self _
  · split
    · exact Nat.lt_succ_self _
    · split
      · exact Nat.lt_succ_self _
      · split
        · trivial
        · exact sound_parseStrings _ _ _

theorem sound_parseRDBBulkString (status : Payload) :
    (parseRDBBulkString status input).Sound (input.length + 1) := by
  unfold parseRDBBulkString
  split
  · exact ⟨[status], _, rfl⟩
  · rename_i line behind read
    have shorter := length_of_readLine read
    dsimp only
    generalize (if isLine line || line = crlf then trimEnd line else line) = header
    split
    · exact ⟨[status], _, rfl⟩
    · split
      · exact ⟨[status], _, rfl⟩
      · split
        · exact ⟨[status], _, rfl⟩
        · split
          · rw [Round.Sound, length_drop]
            omega
          · split
            · trivial
            · split
              · exact ⟨[status], _, rfl⟩
              · exact ⟨[status], _, rfl⟩

theorem sound_parseRound (input : Str) : (parseRound input).Sound input.length := by
  unfold parseRound
  split
  · exact ⟨[], _, rfl⟩
  · rename_i line rest read
    have shorter := length_of_readLine read
    split
    · exact shorter
    · unfold parseContent
      split
      · split
        · exact (sound_parseRDBBulkString _).mono shorter
        · exact shorter
      · exact shorter
      · split
        · exact shorter
        · exact shorter
      · exact (sound_parseBulkString).mono shorter
      · exact (sound_parseArray).mono shorter
      · exact shorter

theorem length_of_parseRound (round : parseRound input = .next sent rest) :
    rest.length < input.length := by
  have sound := sound_parseRound input
  rwa [round] at sound

theorem rounds_induction {motive : Str → Prop} (input : Str)
    (step : ∀ input, (∀ sent rest, parseRound input = .next sent rest → motive rest) →
      motive input) : motive input := by
  induction size : input.length using Nat.strong_induction_on generalizing input with
  | _ size ih =>
    subst size
    exact step input fun sent rest round => ih _ (length_of_parseRound round) rest rfl

theorem parseStream_eq_parse0 {fuel : Nat} (enough : input.length < fuel) :
    parseStream fuel input = parse0 input := by
  have agree : ∀ first second, input.length < first → input.length < second →
      parseStream first input = parseStream second input := by
    induction input using rounds_induction with
    | step input ih =>
      intro first second less less'
      obtain ⟨first, rfl⟩ : ∃ n, first = n + 1 := ⟨first - 1, by omega⟩
      obtain ⟨second, rfl⟩ : ∃ n, second = n + 1 := ⟨second - 1, by omega⟩
      rw [parseStream, parseStream]
      cases round : parseRound input with
      | closed sent | panicked sent => rfl
      | next sent rest =>
        have shorter := length_of_parseRound round
        dsimp only
        rw [ih sent rest round (by omega) first second (by omega) (by omega)]
  exact agree fuel (input.length + 1) enough (Nat.lt_succ_self _)

theorem parse0_next (round : parseRound input = .next sent rest) :
    parse0 input = (sent ++ (parse0 rest).1, (parse0 rest).2) := by
  rw [parse0, parseStream, round]
  dsimp only
  rw [parseStream_eq_parse0 (length_of_parseRound round)]

theorem parse0_closed (round : parseRound input = .closed sent) : parse0 input = (sent, true) := by
  rw [parse0, parseStream, round]

theorem parse0_panicked (round : parseRound input = .panicked sent) :
    parse0 input = (sent, false) := by
  rw [parse0, parseStream, round]

end Godis.Database

