import Godis.Redis.Parser

/-!
# Replies on a connection between nodes

`reply.ToBytes()` and what `parse0` makes of it at the other end.
-/

namespace Godis.Database

open Golang List

namespace Reply

mutual

def toBytes : Reply → Str
  | .status text => lit "+" ++ text ++ crlf
  | .error text => lit "-" ++ text ++ crlf
  | .int code => lit ":" ++ formatInt code ++ crlf
  | .bulk arg => bulkBytes arg
  | .nullBulk => lit "$-1" ++ crlf
  | .multiBulk args => multiBulkBytes args
  | .emptyMultiBulk => lit "*0" ++ crlf
  | .multiRaw replies => lit "*" ++ formatNat replies.length ++ crlf ++ toBytesAll replies

def toBytesAll : List Reply → Str
  | [] => []
  | reply :: replies => toBytes reply ++ toBytesAll replies

end

def OneLine (text : Str) : Prop :=
  (13 : UInt8) ∉ text ∧ (10 : UInt8) ∉ text

mutual

/-- The replies of the executors: lines of text, numbers of 64 bits, lengths that are an `int`. -/
def Returned : Reply → Prop
  | .status text => OneLine text
  | .error text => OneLine text
  | .int code => InInt64 code
  | .bulk arg => (str arg).length < 2 ^ 63
  | .multiBulk args => Sized args
  | .multiRaw replies => replies.length < 2 ^ 63 ∧ ReturnedAll replies
  | .nullBulk | .emptyMultiBulk => True

def ReturnedAll : List Reply → Prop
  | [] => True
  | reply :: replies => Returned reply ∧ ReturnedAll replies

end

/-- The bytes are read as one payload, and it has the same bytes. -/
def Survives (reply : Reply) : Prop :=
  ∃ back, parse0 reply.toBytes = ([.data back, .failed eof], true) ∧
    back.toBytes = reply.toBytes

/-- No status that announces a snapshot, no null in a list, and in a nested list nothing but
strings. -/
def Relayable : Reply → Prop
  | .status text => ¬ lit "FULLRESYNC" <+: text
  | .multiBulk args => none ∉ args
  | .multiRaw replies => ∀ reply ∈ replies, ∃ bytes, reply = .bulk (some bytes)
  | _ => True

/-! ## One line -/

variable {reply : Reply} {kind : UInt8} {text : Str} {code : Int} {arg : Bytes} {args : List Bytes}
  {replies : List Reply}

theorem survives_of_round {back : Reply}
    (round : parseRound (reply.toBytes ++ []) = .next [.data back] [])
    (same : back.toBytes = reply.toBytes) : Survives reply := by
  rw [append_nil] at round
  exact ⟨back, parse0_next round, same⟩

theorem newline_not_mem_formatInt : (10 : UInt8) ∉ formatInt code := by
  have none : (10 : UInt8) ∉ formatNat code.natAbs := fun member =>
    absurd (formatNat_digits 10 member) (by decide)
  unfold formatInt
  split
  · rw [mem_cons, not_or]
    exact ⟨by decide, none⟩
  · exact none

theorem newline_not_mem_cons (isKind : kind ≠ 10) (inside : (10 : UInt8) ∉ text) :
    (10 : UInt8) ∉ kind :: text := by
  rw [mem_cons, not_or]
  exact ⟨isKind.symm, inside⟩

variable {rest : Str}

theorem parseRound_error (line : OneLine text) :
    parseRound ((error text).toBytes ++ rest) = .next [.data (.error text)] rest :=
  parseRound_line (newline_not_mem_cons (by decide) line.2) rest

theorem parseRound_int (fits : InInt64 code) :
    parseRound ((int code).toBytes ++ rest) = .next [.data (.int code)] rest := by
  refine (parseRound_line (newline_not_mem_cons (by decide) newline_not_mem_formatInt)
    rest).trans ?_
  dsimp only [parseContent, List.headD_cons, tail_cons]
  rw [parseInt_formatInt fits]
  rfl

theorem survives_error (line : OneLine text) : Survives (.error text) :=
  survives_of_round (parseRound_error line) rfl

theorem survives_int (fits : InInt64 code) : Survives (.int code) :=
  survives_of_round (parseRound_int fits) rfl

theorem parseRound_status (line : OneLine text) (rest : Str) :
    parseRound ((status text).toBytes ++ rest) =
      if (lit "FULLRESYNC").isPrefixOf text then parseRDBBulkString (.data (.status text)) rest
      else .next [.data (.status text)] rest :=
  parseRound_line (newline_not_mem_cons (by decide) line.2) rest

theorem survives_status_iff (line : OneLine text) :
    Survives (.status text) ↔ ¬ lit "FULLRESYNC" <+: text := by
  have round := parseRound_status line []
  by_cases announces : lit "FULLRESYNC" <+: text
  · rw [if_pos (List.isPrefixOf_iff_prefix.mpr announces)] at round
    refine iff_of_false ?_ (not_not.mpr announces)
    rintro ⟨_, read, -⟩
    rw [append_nil] at round
    rw [parse0_closed round] at read
    cases read
  · rw [if_neg (mt List.isPrefixOf_iff_prefix.mp announces)] at round
    exact iff_of_true (survives_of_round round rfl) announces

theorem survives_bulk (fits : (str arg).length < 2 ^ 63) : Survives (.bulk arg) := by
  cases arg with
  | none => exact survives_of_round rfl rfl
  | some bytes =>
    refine survives_of_round ?_ rfl
    have shape : (bulk (some bytes)).toBytes ++ [] =
        36 :: formatNat bytes.length ++ crlf ++ (bytes ++ crlf ++ []) := by
      simp only [toBytes, bulkBytes, append_assoc]
      rfl
    rw [shape, parseRound_line (newline_not_mem_header (by decide))]
    change parseBulkString (36 :: formatNat bytes.length) _ = _
    change bytes.length < 2 ^ 63 at fits
    rw [parseBulkString, tail_cons, parseInt_formatNat fits]
    dsimp only
    rw [if_neg (by omega), if_neg (by omega), Int.toNat_natCast, readBody_append]

/-! ## Lists of strings -/

theorem length_bulkBytes_str (args : List Bytes) :
    (args.flatMap bulkBytes).length + args.count none =
      ((args.map fun arg => some (str arg)).flatMap bulkBytes).length := by
  induction args with
  | nil => rfl
  | cons arg args ih =>
    rw [map_cons, flatMap_cons, flatMap_cons, length_append,
      length_append]
    cases arg with
    | none =>
      rw [List.count_cons_self]
      have one : (bulkBytes (some (str none))).length = (bulkBytes none).length + 1 := by
        decide
      omega
    | some bytes =>
      rw [List.count_cons_of_ne (by simp)]
      change _ = (bulkBytes (some bytes)).length + _
      omega

theorem map_str_eq_self (filled : none ∉ args) :
    (args.map fun arg => some (str arg)) = args := by
  refine (map_congr_left fun arg member => ?_).trans (map_id args)
  cases arg with
  | none => exact absurd member filled
  | some bytes => rfl

theorem multiBulkBytes_str_iff :
    multiBulkBytes (args.map fun arg => some (str arg)) = multiBulkBytes args ↔ none ∉ args := by
  constructor
  · intro same
    have size := congrArg List.length same
    simp only [multiBulkBytes, length_append, length_map] at size
    have more := length_bulkBytes_str args
    exact List.count_eq_zero.mp (by omega)
  · intro filled
    rw [map_str_eq_self filled]

theorem survives_multiBulk_iff (sized : Sized args) :
    Survives (.multiBulk args) ↔ none ∉ args := by
  by_cases filled : args = []
  · subst filled
    exact iff_of_true (survives_of_round rfl rfl) not_mem_nil
  · have round := parseRound_multiBulkBytes args filled sized []
    rw [← multiBulkBytes_str_iff]
    constructor
    · rintro ⟨_, read, same⟩
      rw [append_nil] at round
      change parse0 (multiBulkBytes args) = _ at read
      rw [parse0_next round] at read
      cases read
      exact same
    · intro same
      rw [append_nil] at round
      exact ⟨.multiBulk (args.map fun arg => some (str arg)), parse0_next round, same⟩

/-! ## Nested lists -/

theorem toBytesAll_eq (replies : List Reply) : toBytesAll replies = replies.flatMap toBytes := by
  induction replies with
  | nil => rfl
  | cons reply replies ih => rw [toBytesAll, ih, flatMap_cons]

theorem returnedAll_iff :
    ReturnedAll replies ↔ ∀ reply ∈ replies, Returned reply := by
  induction replies with
  | nil => exact iff_of_true trivial (by simp)
  | cons reply replies ih => rw [ReturnedAll, ih, forall_mem_cons]

def element : Reply → Option Bytes
  | .bulk arg => some arg
  | .nullBulk => some none
  | _ => none

theorem toBytes_of_element (isOne : reply.element = some arg) :
    reply.toBytes = bulkBytes arg := by
  cases reply with
  | bulk arg | nullBulk =>
    cases isOne
    rfl
  | _ => cases isOne

theorem toBytes_of_no_element (returned : Returned reply) (noOne : reply.element = none) :
    ∃ kind text rest, kind ≠ 36 ∧ (10 : UInt8) ∉ kind :: text ∧
      reply.toBytes = kind :: text ++ crlf ++ rest := by
  cases reply with
  | status text =>
    exact ⟨43, text, [], by decide, newline_not_mem_cons (by decide) returned.2,
      (append_nil _).symm⟩
  | error text =>
    exact ⟨45, text, [], by decide, newline_not_mem_cons (by decide) returned.2,
      (append_nil _).symm⟩
  | int code =>
    exact ⟨58, formatInt code, [], by decide,
      newline_not_mem_cons (by decide) newline_not_mem_formatInt, (append_nil _).symm⟩
  | bulk arg | nullBulk => cases noOne
  | multiBulk args =>
    exact ⟨42, formatNat args.length, args.flatMap bulkBytes, by decide,
      newline_not_mem_header (by decide), rfl⟩
  | emptyMultiBulk => exact ⟨42, lit "0", [], by decide, by decide, rfl⟩
  | multiRaw replies =>
    exact ⟨42, formatNat replies.length, toBytesAll replies, by decide,
      newline_not_mem_header (by decide), by rfl⟩

theorem parseStrings_no_header (notBulk : kind ≠ 36) (inside : (10 : UInt8) ∉ kind :: text)
    {count : Nat} {strings : List Bytes} :
    ∃ error, parseStrings (count + 1) strings (kind :: text ++ crlf ++ rest) =
      .next [.failed error, .data (.multiBulk strings)] rest := by
  rw [parseStrings, readLine_line inside]
  dsimp only
  rw [if_pos (by simp [notBulk])]
  exact ⟨_, rfl⟩

theorem elements_or_first (replies : List Reply) :
    (∃ args : List Bytes, replies.map element = args.map some) ∨
      ∃ (args : List Bytes) (front : List Reply) (bad : Reply) (more : List Reply),
        replies = front ++ bad :: more ∧ front.map element = args.map some ∧
          bad.element = none := by
  induction replies with
  | nil => exact .inl ⟨[], rfl⟩
  | cons reply replies ih =>
    cases isOne : reply.element with
    | none => exact .inr ⟨[], [], reply, replies, rfl, rfl, isOne⟩
    | some arg =>
      rcases ih with ⟨args, all⟩ | ⟨args, front, bad, more, rfl, all, noOne⟩
      · exact .inl ⟨arg :: args, by rw [map_cons, map_cons, isOne, all]⟩
      · exact .inr ⟨arg :: args, reply :: front, bad, more, rfl,
          by rw [map_cons, map_cons, isOne, all], noOne⟩

theorem flatMap_toBytes_of_elements (all : replies.map element = args.map some) :
    replies.flatMap toBytes = args.flatMap bulkBytes := by
  induction replies generalizing args with
  | nil =>
    cases args with
    | nil => rfl
    | cons arg args => cases all
  | cons reply replies ih =>
    cases args with
    | nil => cases all
    | cons arg args =>
      injection all with isOne others
      rw [flatMap_cons, flatMap_cons, toBytes_of_element isOne, ih others]

theorem multiRaw_toBytes_of_elements (all : replies.map element = args.map some) :
    (multiRaw replies).toBytes = (multiBulk args).toBytes := by
  have sameLength : replies.length = args.length := by
    simpa using congrArg List.length all
  rw [toBytes, toBytes, multiBulkBytes, toBytesAll_eq, flatMap_toBytes_of_elements all, sameLength]

theorem sized_of_elements (returned : ∀ reply ∈ replies, Returned reply)
    (all : replies.map element = args.map some) :
    ∀ arg ∈ args, (str arg).length < 2 ^ 63 := by
  intro arg member
  have found : some arg ∈ replies.map element := all ▸ mem_map_of_mem member
  obtain ⟨reply, inside, isOne⟩ := mem_map.mp found
  cases reply with
  | bulk other =>
    cases isOne
    exact returned _ inside
  | nullBulk =>
    cases isOne
    decide
  | _ => cases isOne

theorem relayable_iff_of_elements (all : replies.map element = args.map some) :
    Relayable (.multiRaw replies) ↔ none ∉ args := by
  constructor
  · intro strings member
    have found : some none ∈ replies.map element := all ▸ mem_map_of_mem member
    obtain ⟨reply, inside, isOne⟩ := mem_map.mp found
    obtain ⟨_, rfl⟩ := strings reply inside
    cases isOne
  · intro filled reply inside
    have found : reply.element ∈ args.map some := all ▸ mem_map_of_mem inside
    obtain ⟨arg, member, isOne⟩ := mem_map.mp found
    cases arg with
    | none => exact absurd member filled
    | some bytes =>
      cases reply with
      | bulk other =>
        cases isOne
        exact ⟨bytes, rfl⟩
      | _ => cases isOne

theorem toBytes_length_pos (reply : Reply) : 0 < reply.toBytes.length := by
  cases reply with
  | bulk arg => cases arg <;> simp [toBytes, bulkBytes, crlf]
  | _ => simp [toBytes, multiBulkBytes, crlf]

theorem length_le_flatMap_toBytes (replies : List Reply) :
    replies.length ≤ (replies.flatMap toBytes).length := by
  induction replies with
  | nil => exact Nat.le_refl 0
  | cons reply replies ih =>
    have positive := toBytes_length_pos reply
    rw [flatMap_cons, length_append, length_cons]
    omega

theorem parseRound_multiRaw (counted : replies.length < 2 ^ 63) (filled : replies ≠ []) :
    parseRound (multiRaw replies).toBytes =
      parseStrings replies.length [] (replies.flatMap toBytes) := by
  have shape : (multiRaw replies).toBytes =
      42 :: formatNat replies.length ++ crlf ++ replies.flatMap toBytes := by
    rw [toBytes, toBytesAll_eq]
    rfl
  have positive : 0 < replies.length := length_pos_iff.mpr filled
  have room := length_le_flatMap_toBytes replies
  rw [shape, parseRound_line (newline_not_mem_header (by decide))]
  change parseArray (42 :: formatNat replies.length) _ = _
  rw [parseArray, tail_cons, parseInt_formatNat counted]
  dsimp only
  rw [if_neg (by omega), if_neg (by omega), Int.toNat_natCast, if_neg (by omega)]

theorem not_survives_multiRaw {front more : List Reply} {bad : Reply}
    (counted : (front ++ bad :: more).length < 2 ^ 63)
    (returned : ∀ reply ∈ front ++ bad :: more, Returned reply)
    (all : front.map element = args.map some) (noOne : bad.element = none) :
    ¬ Survives (.multiRaw (front ++ bad :: more)) := by
  rintro ⟨_, read, -⟩
  have sized := sized_of_elements
    (fun reply inside => returned reply (mem_append_left _ inside)) all
  obtain ⟨kind, text, rest, notBulk, inside, shape⟩ := toBytes_of_no_element
    (returned bad (mem_append_right _ mem_cons_self)) noOne
  have sameLength : front.length = args.length := by
    simpa using congrArg List.length all
  have length : (front ++ bad :: more).length = args.length + (more.length + 1) := by
    rw [length_append, length_cons, sameLength]
  have bytes : (front ++ bad :: more).flatMap toBytes =
      args.flatMap bulkBytes ++ (kind :: text ++ crlf ++ (rest ++ more.flatMap toBytes)) := by
    rw [flatMap_append, flatMap_cons, flatMap_toBytes_of_elements all, shape]
    simp only [append_assoc]
  have round := parseRound_multiRaw counted (by simp)
  obtain ⟨_, refused⟩ := parseStrings_no_header notBulk inside
  rw [bytes, length, parseStrings_bulkBytes args _ _ _ sized, refused] at round
  rw [parse0_next round] at read
  cases read

theorem survives_multiRaw_iff (counted : replies.length < 2 ^ 63)
    (returned : ∀ reply ∈ replies, Returned reply) :
    Survives (.multiRaw replies) ↔ Relayable (.multiRaw replies) := by
  rcases elements_or_first replies with ⟨args, all⟩ | ⟨_, _, bad, _, rfl, all, noOne⟩
  · have sameLength : replies.length = args.length := by
      simpa using congrArg List.length all
    have sized : Sized args := ⟨sameLength ▸ counted, sized_of_elements returned all⟩
    rw [relayable_iff_of_elements all, ← survives_multiBulk_iff sized, Survives, Survives,
      multiRaw_toBytes_of_elements all]
  · refine iff_of_false (not_survives_multiRaw counted returned all noOne) ?_
    intro strings
    obtain ⟨_, rfl⟩ := strings bad (mem_append_right _ mem_cons_self)
    cases noOne

/-- What is sent over a connection between nodes comes back as it was for exactly these replies. -/
theorem survives_iff_relayable (reply : Reply) (returned : Returned reply) :
    Survives reply ↔ Relayable reply := by
  cases reply with
  | status text => exact survives_status_iff returned
  | error text => exact iff_of_true (survives_error returned) trivial
  | int code => exact iff_of_true (survives_int returned) trivial
  | bulk arg => exact iff_of_true (survives_bulk returned) trivial
  | nullBulk => exact iff_of_true (survives_of_round rfl rfl) trivial
  | multiBulk args => exact survives_multiBulk_iff returned
  | emptyMultiBulk => exact iff_of_true (survives_of_round rfl rfl) trivial
  | multiRaw replies =>
    exact survives_multiRaw_iff returned.1 (returnedAll_iff.mp returned.2)

theorem survives_mget_hit : Survives (.multiBulk [some (lit "a"), some []]) :=
  (survives_iff_relayable (.multiBulk [some (lit "a"), some []]) ⟨by decide, by decide⟩).mpr
    (by simp [Relayable])

/-- `MGET` of an absent key, relayed, answers with an empty string. -/
theorem null_element_is_lost :
    Returned (.multiBulk [none]) ∧ ¬ Survives (.multiBulk [none]) ∧
      parse0 (toBytes (.multiBulk [none])) = ([.data (.multiBulk [some []]), .failed eof], true) := by
  refine ⟨⟨by decide, by decide⟩, ?_, rfl⟩
  rintro ⟨_, read, same⟩
  cases read
  exact absurd (congrArg List.length same) (by decide)

end Reply

end Godis.Database
