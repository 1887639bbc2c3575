import Godis.Redis.Parser

/-!
# Arrays in a byte stream

What `parse0` makes of an array depends on how the elements stand in the data behind its header.
`element` looks at one of them without reading on, and `parseStrings` is compared with it.
-/

namespace Godis.Redis

open Golang Database List

def bulkHeader (line : Str) : Option Int :=
  if line.length < 4 || line.getD (line.length - 2) 0 ≠ 13 || line.head? ≠ some 36 then none
  else
    match parseInt (trimEnd line).tail with
    | .error _ => none
    | .ok size => if size < -1 then none else some size

inductive Element where
  | cutOff
  | noHeader
  | present (string : Bytes) (terminated : Bool) (rest : Str)

def element (data : Str) : Element :=
  match readLine data with
  | none => .cutOff
  | some (line, rest) =>
    match bulkHeader line with
    | none => .noHeader
    | some size =>
      if size = -1 then .present (some []) true rest
      else if size.toNat + 2 ≤ rest.length then
        .present (some (rest.take size.toNat)) ((rest.drop size.toNat).take 2 = crlf)
          (rest.drop (size.toNat + 2))
      else .cutOff

def HeadersPresent : Nat → Str → Prop
  | 0, _ => True
  | count + 1, data =>
    match element data with
    | .cutOff => True
    | .noHeader => False
    | .present _ _ rest => HeadersPresent count rest

/-- Every body that is there is followed by `\r\n`. -/
def BodiesTerminated : Nat → Str → Prop
  | 0, _ => True
  | count + 1, data =>
    match element data with
    | .present _ terminated rest => terminated = true ∧ BodiesTerminated count rest
    | _ => True

def CutOff : Nat → Str → Prop
  | 0, _ => False
  | count + 1, data =>
    match element data with
    | .cutOff => True
    | .noHeader => False
    | .present _ _ rest => CutOff count rest

def Oversized (count : Nat) (data : Str) : Prop :=
  maxAlloc < 24 * count ∧ data.length < count

instance (count : Nat) (data : Str) : Decidable (Oversized count data) :=
  inferInstanceAs (Decidable (_ ∧ _))

/-- The strings as they have to stand in the data, null being read as the empty string. -/
inductive Encoded : List Bytes → Str → Str → Prop
  | nil (rest : Str) : Encoded [] rest rest
  | string {strings : List Bytes} {data rest : Str} (digits bytes : Str) :
      parseInt digits = .ok (bytes.length : Int) → Encoded strings data rest →
      Encoded (some bytes :: strings) (36 :: digits ++ crlf ++ (bytes ++ crlf ++ data)) rest
  | null {strings : List Bytes} {data rest : Str} (digits : Str) :
      parseInt digits = .ok (-1) → Encoded strings data rest →
      Encoded (some [] :: strings) (36 :: digits ++ crlf ++ data) rest

/-! ## One element -/

variable {text digits data behind input position : Str} {n size : Int} {string : Bytes}
  {round : Round} {payload : Payload} {count : Nat}

theorem isDigit_of_parseDigits {soFar n : Nat} (read : parseDigits soFar text = .ok n) :
    ∀ byte ∈ text, isDigit byte = true := by
  induction text generalizing soFar with
  | nil => exact fun _ member => absurd member not_mem_nil
  | cons byte text ih =>
    rw [parseDigits] at read
    split at read
    · split at read
      · intro other member
        rcases mem_cons.mp member with same | later
        · rwa [same]
        · exact ih read other later
      · cases read
    · cases read

theorem digits_of_signed {negative : Bool} (read : signed negative text = .ok n) :
    text ≠ [] ∧ ∀ byte ∈ text, isDigit byte = true := by
  unfold signed at read
  cases digits : parseUint text with
  | error error =>
    rw [digits] at read
    cases read
  | ok value =>
    cases text with
    | nil => cases digits
    | cons byte text => exact ⟨cons_ne_nil _ _, isDigit_of_parseDigits digits⟩

theorem newline_not_mem_of_parseInt (read : parseInt text = .ok n) :
    text ≠ [] ∧ (10 : UInt8) ∉ text := by
  have notDigit : isDigit 10 = false := by decide
  have none : ∀ {negative : Bool} {digits : Str}, signed negative digits = .ok n →
      digits ≠ [] ∧ (10 : UInt8) ∉ digits := by
    intro negative digits number
    obtain ⟨filled, all⟩ := digits_of_signed number
    exact ⟨filled, fun member => Bool.false_ne_true (notDigit.symm.trans (all 10 member))⟩
  unfold parseInt at read
  split at read
  · refine ⟨cons_ne_nil _ _, ?_⟩
    rw [mem_cons, not_or]
    exact ⟨by decide, (none read).2⟩
  · refine ⟨cons_ne_nil _ _, ?_⟩
    rw [mem_cons, not_or]
    exact ⟨by decide, (none read).2⟩
  · exact none read

theorem bulkHeader_of_parseInt (number : parseInt digits = .ok size) (atLeast : -1 ≤ size) :
    bulkHeader (36 :: digits ++ crlf) = some size := by
  have long : ¬ (36 :: digits ++ crlf).length < 4 := by
    have positive := length_pos_iff.mpr (newline_not_mem_of_parseInt number).1
    simp only [cons_append, length_cons, length_append, crlf, length_nil]
    omega
  have first : (36 :: digits ++ crlf).head? = some 36 := rfl
  rw [bulkHeader, if_neg (by simp only [long, getD_header, first]; decide), trimEnd_header,
    tail_cons, number]
  exact if_neg (by omega)

theorem eq_trimEnd_append {content : Str} (long : 2 ≤ (content ++ [10]).length)
    (ended : (content ++ [10]).getD ((content ++ [10]).length - 2) 0 = 13) :
    content ++ [10] = trimEnd (content ++ [10]) ++ crlf := by
  rcases List.eq_nil_or_concat content with rfl | ⟨_, byte, rfl⟩
  · simp at long
  · have isReturn : byte = 13 := by
      simpa [getD_eq_getElem?_getD] using ended
    subst isReturn
    simp [trimEnd, crlf]

theorem parseInt_of_bulkHeader {line rest : Str} (read : readLine data = some (line, rest))
    (header : bulkHeader line = some size) :
    -1 ≤ size ∧ ∃ digits, parseInt digits = .ok size ∧ data = 36 :: digits ++ crlf ++ rest := by
  obtain ⟨content, -, shape, whole⟩ := readLine_eq_some read
  unfold bulkHeader at header
  split at header
  · cases header
  · rename_i fine
    simp only [Bool.or_eq_true, decide_eq_true_eq, not_or, not_lt, ne_eq, not_not] at fine
    obtain ⟨⟨_, ended⟩, first⟩ := fine
    split at header
    · cases header
    · rename_i number
      split at header
      · cases header
      · cases header
        refine ⟨by omega, (trimEnd line).tail, number, ?_⟩
        subst shape
        have split := eq_trimEnd_append (by omega) ended
        have head : trimEnd (content ++ [10]) = 36 :: (trimEnd (content ++ [10])).tail := by
          cases front : trimEnd (content ++ [10]) with
          | nil =>
            have short : (content ++ [10]).length = (trimEnd (content ++ [10])).length + 2 := by
              rw [split]
              simp [trimEnd, crlf]
            rw [front, length_nil] at short
            omega
          | cons byte others =>
            rw [split, front] at first
            rw [Option.some.inj first]
            rfl
        rw [whole, ← head]
        exact congrArg (· ++ rest) split

theorem newline_not_mem_number {kind : UInt8} (isKind : kind ≠ 10)
    (number : parseInt digits = .ok n) : (10 : UInt8) ∉ kind :: digits := by
  rw [mem_cons, not_or]
  exact ⟨isKind.symm, (newline_not_mem_of_parseInt number).2⟩

variable {count : Nat} {strings : List Bytes} {data rest : Str}

theorem Encoded.present (encoded : Encoded (string :: strings) data rest) :
    ∃ behind, element data = .present string true behind ∧ Encoded strings behind rest := by
  cases encoded with
  | @string _ behind _ digits bytes number later =>
    refine ⟨behind, ?_, later⟩
    rw [element, readLine_line (newline_not_mem_number (by decide) number)]
    dsimp only
    rw [bulkHeader_of_parseInt number (by omega)]
    simp [crlf]
  | @null _ behind _ digits number later =>
    refine ⟨behind, ?_, later⟩
    rw [element, readLine_line (newline_not_mem_number (by decide) number)]
    dsimp only
    rw [bulkHeader_of_parseInt number (by omega)]
    rfl

theorem Encoded.cons (found : element data = .present string true behind)
    (later : Encoded strings behind rest) :
    Encoded (string :: strings) data rest := by
  unfold element at found
  split at found
  · cases found
  · rename_i line after read
    split at found
    · cases found
    · rename_i size header
      obtain ⟨_, digits, number, whole⟩ := parseInt_of_bulkHeader read header
      split at found
      · rename_i isNull
        cases found
        subst isNull
        exact whole ▸ .null digits number later
      · split at found
        · injection found with same terminated left
          subst same
          have ended : (after.drop size.toNat).take 2 = crlf := of_decide_eq_true terminated
          have body : after = after.take size.toNat ++ crlf ++ behind := by
            rw [← ended, ← left, ← List.drop_drop, append_assoc, take_append_drop,
              take_append_drop]
          have number' : parseInt digits = .ok ((after.take size.toNat).length : Int) := by
            rw [number, length_take]
            congr 1
            omega
          have encoded := Encoded.string digits _ number' later
          rwa [← body, ← whole] at encoded
        · cases found

/-! ## The whole array -/

def Round.sent : Round → List Payload
  | .next sent _ => sent
  | .closed sent => sent
  | .panicked sent => sent

def Silent (round : Round) : Prop :=
  ∀ made, Payload.data (.multiBulk made) ∉ Round.sent round

theorem silent_failed {error : Str} : Silent (.closed [.failed error]) := by
  intro made member
  cases mem_singleton.mp member

theorem silent_panicked : Silent (.panicked []) := fun _ member =>
  absurd member not_mem_nil

theorem parseStrings_succ (count : Nat) (strings : List Bytes) (data : Str) :
    match element data with
    | .cutOff => Silent (parseStrings (count + 1) strings data)
    | .noHeader => ∃ error rest, parseStrings (count + 1) strings data =
        .next [.failed error, .data (.multiBulk strings)] rest
    | .present string _ rest =>
      parseStrings (count + 1) strings data = parseStrings count (strings ++ [string]) rest := by
  rw [parseStrings, element]
  cases read : readLine data with
  | none => exact silent_failed
  | some found =>
    obtain ⟨line, rest⟩ := found
    dsimp only
    rw [bulkHeader]
    by_cases bad : (line.length < 4 || line.getD (line.length - 2) 0 ≠ 13 ||
      line.head? ≠ some 36) = true
    · rw [if_pos bad, if_pos bad]
      exact ⟨_, rest, rfl⟩
    · rw [if_neg bad, if_neg bad]
      cases number : parseInt (trimEnd line).tail with
      | error error => exact ⟨_, rest, rfl⟩
      | ok size =>
        dsimp only
        by_cases low : size < -1
        · rw [if_pos low, if_pos low]
          exact ⟨_, rest, rfl⟩
        · rw [if_neg low, if_neg low]
          dsimp only
          by_cases null : size = -1
          · rw [if_pos null, if_pos null]
          · rw [if_neg null, if_neg null, readBody]
            by_cases enough : size.toNat + 2 ≤ rest.length
            · rw [if_pos enough, if_pos enough]
            · rw [if_neg enough, if_neg enough]
              dsimp only
              split
              · rename_i body
                split at body
                · cases body
                · split at body
                  · cases body
                  · cases body
              · exact silent_failed
              · exact silent_panicked

theorem silent_iff_cutOff (count : Nat) (strings : List Bytes) (data : Str) :
    Silent (parseStrings count strings data) ↔ CutOff count data := by
  induction count generalizing strings data with
  | zero =>
    refine ⟨fun silent => silent strings ?_, False.elim⟩
    exact mem_singleton.mpr rfl
  | succ count ih =>
    have step := parseStrings_succ count strings data
    rw [CutOff]
    cases next : element data with
    | cutOff =>
      rw [next] at step
      exact iff_of_true step trivial
    | noHeader =>
      rw [next] at step
      obtain ⟨_, _, made⟩ := step
      rw [made]
      refine ⟨fun silent => silent strings ?_, False.elim⟩
      exact mem_cons_of_mem _ (mem_singleton.mpr rfl)
    | present string terminated rest =>
      rw [next] at step
      rw [step]
      exact ih _ _

/-- Every payload made of the array has all the strings, as the data have them. -/
def WellMade (count : Nat) (strings : List Bytes) (data : Str) (round : Round) : Prop :=
  ∀ made, Payload.data (.multiBulk made) ∈ Round.sent round →
    ∃ later rest, made = strings ++ later ∧ later.length = count ∧ Encoded later data rest

theorem wellMade_present (next : element data = .present string true behind) :
    WellMade (count + 1) strings data round ↔
      WellMade count (strings ++ [string]) behind round := by
  constructor
  · intro well made member
    obtain ⟨later, rest, shape, counted, encoded⟩ := well made member
    cases later with
    | nil => cases counted
    | cons first later =>
      obtain ⟨_, found, encodedLater⟩ := encoded.present
      rw [next] at found
      cases found
      refine ⟨later, rest, ?_, Nat.succ.inj counted, encodedLater⟩
      rw [shape, append_assoc]
      rfl
  · intro well made member
    obtain ⟨later, rest, shape, counted, encoded⟩ := well made member
    refine ⟨string :: later, rest, ?_, congrArg Nat.succ counted, encoded.cons next⟩
    rw [shape, append_assoc]
    rfl

theorem wellMade_unterminated (next : element data = .present string false behind) :
    WellMade (count + 1) strings data round ↔ Silent round := by
  constructor
  · intro well made member
    obtain ⟨later, _, -, counted, encoded⟩ := well made member
    cases later with
    | nil => cases counted
    | cons first later =>
      obtain ⟨_, found, -⟩ := encoded.present
      rw [next] at found
      cases found
  · exact fun silent made member => absurd member (silent made)

theorem wellMade_parseStrings_iff :
    WellMade count strings data (parseStrings count strings data) ↔
      CutOff count data ∨ HeadersPresent count data ∧ BodiesTerminated count data := by
  induction count generalizing strings data with
  | zero =>
    refine iff_of_true ?_ (.inr ⟨trivial, trivial⟩)
    intro made member
    cases mem_singleton.mp member
    exact ⟨[], data, (append_nil _).symm, rfl, .nil data⟩
  | succ count ih =>
    have step := parseStrings_succ count strings data
    rw [CutOff, HeadersPresent, BodiesTerminated]
    cases next : element data with
    | cutOff =>
      rw [next] at step
      exact iff_of_true (fun made member => absurd member (step made)) (.inl trivial)
    | noHeader =>
      rw [next] at step
      obtain ⟨_, _, made⟩ := step
      rw [made]
      refine iff_of_false ?_ (by simp)
      intro well
      obtain ⟨_, _, shape, _, _⟩ :=
        well strings (mem_cons_of_mem _ (mem_singleton.mpr rfl))
      have size := congrArg List.length shape
      rw [length_append] at size
      omega
    | present string terminated rest =>
      rw [next] at step
      rw [step]
      cases terminated with
      | true =>
        rw [wellMade_present next, ih]
        simp
      | false =>
        rw [wellMade_unterminated next, silent_iff_cutOff]
        simp

/-! ## The arrays of a stream -/

/-- The places of a stream where `parse0` starts a round. -/
inductive Visited (input : Str) : Str → Prop
  | start : Visited input input
  | next {position rest : Str} {sent : List Payload} : Visited input position →
      parseRound position = .next sent rest → Visited input rest

theorem Visited.trans {middle : Str} (first : Visited input middle)
    (second : Visited middle position) : Visited input position := by
  induction second with
  | start => exact first
  | next _ round ih => exact ih.next round

theorem mem_parse0_of_visited (visited : Visited input position)
    (member : payload ∈ (parse0 position).1) : payload ∈ (parse0 input).1 := by
  induction visited with
  | start => exact member
  | next _ round ih =>
    refine ih ?_
    rw [parse0_next round]
    exact mem_append_right _ member

theorem sent_subset_parse0 (member : payload ∈ Round.sent (parseRound position)) :
    payload ∈ (parse0 position).1 := by
  cases round : parseRound position with
  | next sent rest =>
    rw [round] at member
    rw [parse0_next round]
    exact mem_append_left _ member
  | closed sent =>
    rw [round] at member
    rwa [parse0_closed round]
  | panicked sent =>
    rw [round] at member
    rwa [parse0_panicked round]

theorem exists_visited_of_mem_parse0 (member : payload ∈ (parse0 input).1) :
    ∃ position, Visited input position ∧ payload ∈ Round.sent (parseRound position) := by
  induction input using rounds_induction with
  | step input ih =>
    cases round : parseRound input with
    | next sent rest =>
      rw [parse0_next round] at member
      rcases mem_append.mp member with now | later
      · exact ⟨input, .start, by rw [round]; exact now⟩
      · obtain ⟨position, visited, found⟩ := ih sent rest round later
        exact ⟨position, (Visited.start.next round).trans visited, found⟩
    | closed sent =>
      rw [parse0_closed round] at member
      exact ⟨input, .start, by rw [round]; exact member⟩
    | panicked sent =>
      rw [parse0_panicked round] at member
      exact ⟨input, .start, by rw [round]; exact member⟩

theorem mem_parse0_iff :
    payload ∈ (parse0 input).1 ↔
      ∃ position, Visited input position ∧ payload ∈ Round.sent (parseRound position) := by
  refine ⟨exists_visited_of_mem_parse0, ?_⟩
  rintro ⟨_, visited, member⟩
  exact mem_parse0_of_visited visited (sent_subset_parse0 member)

/-- An array header of `count` strings at a place that `parse0` visits, and the data behind. -/
structure ArrayAt (input position : Str) (count : Nat) (data : Str) : Prop where
  visited : Visited input position
  header : ∃ digits, parseInt digits = .ok (count : Int) ∧
    position = 42 :: digits ++ crlf ++ data
  positive : 0 < count

def SentFor (position : Str) (strings : List Bytes) : Prop :=
  Payload.data (.multiBulk strings) ∈ Round.sent (parseRound position)

theorem ArrayAt.mem_parse0 {strings : List Bytes} (array : ArrayAt input position count data)
    (sent : SentFor position strings) :
    .data (.multiBulk strings) ∈ (parse0 input).1 :=
  mem_parse0_iff.mpr ⟨position, array.visited, sent⟩

theorem ArrayAt.parseRound_eq (array : ArrayAt input position count data) :
    parseRound position =
      if Oversized count data then .panicked [] else parseStrings count [] data := by
  obtain ⟨digits, number, rfl⟩ := array.header
  rw [parseRound_line (newline_not_mem_number (by decide) number)]
  change parseArray (42 :: digits) _ = _
  have positive := array.positive
  rw [parseArray, tail_cons, number]
  dsimp only
  rw [if_neg (by omega), if_neg (by omega)]
  rfl

/-- The payload of an array is right exactly where the room for the array cannot be made, the data
end before the array does, or every element is a bulk header with a terminated body. -/
theorem array_sent_iff {input position data : Str} {count : Nat}
    (array : ArrayAt input position count data) :
    (∀ strings, SentFor position strings →
        strings.length = count ∧ ∃ rest, Encoded strings data rest) ↔
      Oversized count data ∨ CutOff count data ∨
        HeadersPresent count data ∧ BodiesTerminated count data := by
  unfold SentFor
  rw [array.parseRound_eq]
  by_cases huge : Oversized count data
  · rw [if_pos huge]
    exact iff_of_true (fun strings member => absurd member (silent_panicked strings)) (.inl huge)
  · rw [if_neg huge, or_iff_right huge, ← wellMade_parseStrings_iff]
    constructor
    · intro right made member
      obtain ⟨counted, rest, encoded⟩ := right made member
      exact ⟨made, rest, rfl, counted, encoded⟩
    · intro well made member
      obtain ⟨_, rest, rfl, counted, encoded⟩ := well made member
      exact ⟨counted, rest, encoded⟩

/-- Two strings, behind another command. -/
theorem ping_sent_as_encoded :
    SentFor (lit "*2\r\n$4\r\nPING\r\n$2\r\nhi\r\n") [some (lit "PING"), some (lit "hi")] ∧
      [some (lit "PING"), some (lit "hi")].length = 2 ∧
        ∃ rest, Encoded [some (lit "PING"), some (lit "hi")] (lit "$4\r\nPING\r\n$2\r\nhi\r\n") rest := by
  have array : ArrayAt (lit "PING\r\n*2\r\n$4\r\nPING\r\n$2\r\nhi\r\n")
      (lit "*2\r\n$4\r\nPING\r\n$2\r\nhi\r\n") 2 (lit "$4\r\nPING\r\n$2\r\nhi\r\n") :=
    ⟨Visited.start.next rfl, ⟨lit "2", rfl, rfl⟩, Nat.two_pos⟩
  have sent : SentFor (lit "*2\r\n$4\r\nPING\r\n$2\r\nhi\r\n") [some (lit "PING"), some (lit "hi")] :=
    mem_singleton.mpr rfl
  exact ⟨sent, (array_sent_iff array).mpr (.inr (.inr ⟨trivial, rfl, rfl, trivial⟩)) _ sent⟩

/-- An integer in the place of the second string: the first is sent as a command of its own. -/
theorem truncated_command_is_sent :
    ArrayAt (lit "*2\r\n$8\r\nFLUSHALL\r\n:1\r\n") (lit "*2\r\n$8\r\nFLUSHALL\r\n:1\r\n") 2
        (lit "$8\r\nFLUSHALL\r\n:1\r\n") ∧
      SentFor (lit "*2\r\n$8\r\nFLUSHALL\r\n:1\r\n") [some (lit "FLUSHALL")] ∧
      .data (.multiBulk [some (lit "FLUSHALL")]) ∈
        (parse0 (lit "*2\r\n$8\r\nFLUSHALL\r\n:1\r\n")).1 := by
  have array : ArrayAt (lit "*2\r\n$8\r\nFLUSHALL\r\n:1\r\n")
      (lit "*2\r\n$8\r\nFLUSHALL\r\n:1\r\n") 2 (lit "$8\r\nFLUSHALL\r\n:1\r\n") :=
    ⟨.start, ⟨lit "2", rfl, rfl⟩, Nat.two_pos⟩
  have sent : SentFor (lit "*2\r\n$8\r\nFLUSHALL\r\n:1\r\n") [some (lit "FLUSHALL")] :=
    mem_cons_of_mem _ (mem_singleton.mpr rfl)
  exact ⟨array, sent, array.mem_parse0 sent⟩

/-! ## The end of a stream -/

def Exceeds (size : Int) (rest : Str) : Prop :=
  maxAlloc < size ∧ rest.length < size

/-- One of the strings of an array announces a body that cannot be allocated. -/
def HugeElement : Nat → Str → Prop
  | 0, _ => False
  | count + 1, data =>
    match readLine data with
    | none => False
    | some (line, rest) =>
      match bulkHeader line with
      | none => False
      | some size =>
        if size = -1 then HugeElement count rest
        else Exceeds (size + 2) rest ∨ HugeElement count (rest.drop (size.toNat + 2))

/-- The line that follows a `FULLRESYNC` status announces an RDB file that cannot be allocated. -/
def HugeRdb (data : Str) : Prop :=
  ∃ line rest size, readLine data = some (line, rest) ∧
    parseInt (if isLine line || line = crlf then trimEnd line else line).tail = .ok size ∧
    Exceeds size rest

/-- The header at a place of the stream, or one of a string of its array, announces a size for which
`make` panics. -/
def Unallocatable (position : Str) : Prop :=
  ∃ line rest, readLine position = some (line, rest) ∧ isLine line = true ∧
    match (trimEnd line).headD 0 with
    | 43 => (lit "FULLRESYNC").isPrefixOf (trimEnd line).tail = true ∧ HugeRdb rest
    | 36 => ∃ size, parseInt (trimEnd line).tail = .ok size ∧ Exceeds (size + 2) rest
    | 42 => ∃ count, parseInt (trimEnd line).tail = .ok count ∧ 0 < count ∧
        (Oversized count.toNat rest ∨ HugeElement count.toNat rest)
    | _ => False

def Panics : Round → Prop
  | .panicked _ => True
  | _ => False

theorem panics_parseBulkString (header rest : Str) :
    Panics (parseBulkString header rest) ↔
      ∃ size, parseInt header.tail = .ok size ∧ Exceeds (size + 2) rest := by
  unfold parseBulkString readBody
  cases number : parseInt header.tail with
  | error error => grind [Panics]
  | ok size => grind [Panics, Exceeds, maxAlloc]

theorem hugeElement_nil (count : Nat) : ¬ HugeElement count [] := by
  cases count with
  | zero | succ count => exact id

theorem panics_parseStrings (count : Nat) (strings : List Bytes) (data : Str) :
    Panics (parseStrings count strings data) ↔ HugeElement count data := by
  induction count generalizing strings data with
  | zero => exact Iff.rfl
  | succ count ih =>
    unfold parseStrings HugeElement bulkHeader readBody
    cases read : readLine data with
    | none => exact Iff.rfl
    | some found => grind [Panics, Exceeds, maxAlloc, hugeElement_nil, List.drop_of_length_le]

theorem panics_parseArray (header rest : Str) :
    Panics (parseArray header rest) ↔ ∃ count, parseInt header.tail = .ok count ∧ 0 < count ∧
      (Oversized count.toNat rest ∨ HugeElement count.toNat rest) := by
  unfold parseArray
  cases number : parseInt header.tail with
  | error error => grind [Panics]
  | ok count => grind [Panics, Oversized, panics_parseStrings]

theorem panics_parseRDBBulkString (status : Payload) (data : Str) :
    Panics (parseRDBBulkString status data) ↔ HugeRdb data := by
  have empty : ∀ size, parseInt [] ≠ .ok size := by
    rintro _ ⟨⟩
  unfold parseRDBBulkString HugeRdb
  cases read : readLine data with
  | none => grind [Panics]
  | some found => grind [Panics, Exceeds, maxAlloc]

theorem panics_parseRound (position : Str) :
    Panics (parseRound position) ↔ Unallocatable position := by
  unfold parseRound parseContent Unallocatable
  cases read : readLine position with
  | none => grind [Panics]
  | some found =>
    grind [Panics, panics_parseRDBBulkString, panics_parseBulkString, panics_parseArray]

theorem closed_of_visited (visited : Visited input position) :
    (parse0 input).2 = (parse0 position).2 := by
  induction visited with
  | start => rfl
  | next _ round ih => rw [ih, parse0_next round]

theorem ends_of_allocatable (input : Str)
    (fine : ∀ position, Visited input position → ¬ Panics (parseRound position)) :
    (parse0 input).2 = true ∧ ∃ before error, (parse0 input).1 = before ++ [.failed error] := by
  induction input using rounds_induction with
  | step input ih =>
    have sound := sound_parseRound input
    cases round : parseRound input with
    | next sent rest =>
      obtain ⟨closed, before, error, last⟩ := ih sent rest round fun position visited =>
        fine position ((Visited.start.next round).trans visited)
      rw [parse0_next round, last]
      exact ⟨closed, sent ++ before, error, (List.append_assoc _ _ _).symm⟩
    | closed sent =>
      rw [round] at sound
      rw [parse0_closed round]
      exact ⟨rfl, sound⟩
    | panicked sent =>
      refine absurd ?_ (fine input .start)
      rw [round]
      trivial

/-- `parse0` closes its channel, with an error as the last payload, exactly if no header it comes to
announces a size for which `make` panics. -/
theorem stream_ends_iff (input : Str) :
    ((parse0 input).2 = true ∧ ∃ before error, (parse0 input).1 = before ++ [.failed error]) ↔
      ∀ position, Visited input position → ¬ Unallocatable position := by
  simp only [← panics_parseRound]
  refine ⟨fun ends position visited panics => ?_, ends_of_allocatable input⟩
  have closed := (closed_of_visited visited).symm.trans ends.1
  cases round : parseRound position with
  | next sent rest | closed sent =>
    rw [round] at panics
    exact panics
  | panicked sent =>
    rw [parse0_panicked round] at closed
    cases closed

/-- A bulk string of 2⁶³ - 1 bytes is announced: nothing is sent and the channel stays open. -/
theorem huge_header_leaves_channel_open :
    parse0 (lit "$9223372036854775807\r\n") = ([], false) := by
  rfl

end Godis.Redis
