import Godis.Database.List
import Godis.Database.Hash

/-!
# Sorted set commands (`database/sortedset.go`, `rollbackZSetFields` of `database/tx_utils.go`)

The methods of a sorted set are read here on the sequence of its elements in order, which the
skip list links at its lowest level.
-/

namespace Godis.Database

open Golang Program

variable {F : Type} [Float64 F]

abbrev Scores (F : Type) := Finmap fun _ : Str => F

/-! ## Methods of a sorted set -/

/-- `SortedSet.RangeByRank`, which refuses bounds that are not those of a slice. -/
def rangeByRank (scores : Scores F) (start stop : Nat) (desc : Bool) :
    SlotReader F (List (Element Str F)) :=
  if scores.keys.card ≤ start ∨ stop < start ∨ scores.keys.card < stop then .stop .panic
  else
    let elements := if desc then (ranked scores).reverse else ranked scores
    return (elements.drop start).take (stop - start)

def countInRange (min max : Border Str F) : List (Element Str F) → Nat
  | [] => 0
  | element :: rest =>
    if !min.less element then countInRange min max rest
    else if !max.greater element then 0
    else countInRange min max rest + 1

/-- `SortedSet.RangeCount`; `ForEachByRank` refuses a sorted set without members. -/
def rangeCount (scores : Scores F) (min max : Border Str F) : SlotReader F Nat :=
  if scores.keys.card = 0 then .stop .panic
  else return countInRange min max (ranked scores)

/-- How many elements the search of the skip list passes.  Scores never decrease along the
elements, so for a border on the score it passes exactly those in front of the first that stops
it; members do not keep to an order across scores, and where the search for a border on the
member stops depends on the heights of the nodes. -/
def passed (border : Border Str F) (skip : Element Str F → Bool)
    (elements : List (Element Str F)) : SlotReader F Nat :=
  match border with
  | .score _ => return (elements.takeWhile skip).length
  | .lex _ => seek elements skip

def hasInRange (elements : List (Element Str F)) (min max : Border Str F) : Bool :=
  match elements.head?, elements.getLast? with
  | some first, some last =>
    min.isIntersected max = some false && min.less last && max.greater first
  | _, _ => false

/-- The elements from the first in range on (`getFirstInRange`), or down from the last one
(`getLastInRange`). -/
def fromRange (elements : List (Element Str F)) (min max : Border Str F) (desc : Bool) :
    SlotReader F (List (Element Str F)) := do
  if !hasInRange elements min max then return []
  else if desc then
    let count ← passed max max.greater elements
    let downwards := (elements.take count).reverse
    return if downwards.head?.any min.less then downwards else []
  else
    let count ← passed min (fun element => !min.less element) elements
    let upwards := elements.drop count
    return if upwards.head?.any max.greater then upwards else []

/-- The loop of `SortedSet.ForEach`: the first element is taken as it is, the others while they
are in range.  Without a limit it is `none`. -/
def takeInRange (min max : Border Str F) :
    Option Nat → List (Element Str F) → List (Element Str F)
  | some 0, _ => []
  | _, [] => []
  | limit, element :: rest =>
    element ::
      match rest with
      | [] => []
      | next :: _ =>
        if min.less next && max.greater next then
          takeInRange min max (limit.map Nat.pred) rest
        else []

def range (scores : Scores F) (min max : Border Str F) (offset limit : Int) (desc : Bool) :
    SlotReader F (List (Element Str F)) := do
  if limit = 0 ∨ offset < 0 then return []
  else
    let elements ← fromRange (ranked scores) min max desc
    return takeInRange min max (if limit < 0 then none else some limit.toNat)
      (elements.drop offset.toNat)

def without (scores : Scores F) (removed : List (Element Str F)) : Scores F :=
  removed.foldl (fun scores element => scores.erase element.member) scores

def inRemoveRange (scores : Scores F) (min max : Border Str F) :
    SlotReader F (List (Element Str F)) := do
  let count ← passed min (fun element => !min.less element) (ranked scores)
  return ((ranked scores).drop count).takeWhile max.greater

/-- The elements `SortedSet.PopMin` removes: a count that is not positive is no limit. -/
def popMin (scores : Scores F) (count : Int) : List (Element Str F) :=
  if 0 < count then (ranked scores).take count.toNat else ranked scores

/-- `ParseScoreBorder`; an empty text panics. -/
def parseScoreBorder (text : Str) : SlotReader F (Except Reply (Border Str F)) :=
  let bound (number : Str) (exclude : Bool) : SlotReader F (Except Reply (Border Str F)) :=
    match (Float64.parse number : Option (Option F)) with
    | none => return .error (.err "ERR min or max is not a float")
    | some none => .stop .nan
    | some (some value) => return .ok (.score ⟨.finite, value, exclude⟩)
  if text = lit "inf" ∨ text = lit "+inf" then
    return .ok (.score ⟨.positive, Float64.zero, false⟩)
  else if text = lit "-inf" then return .ok (.score ⟨.negative, Float64.zero, false⟩)
  else
    match text with
    | [] => .stop .panic
    | 40 :: number => bound number true
    | number => bound number false

/-- `ParseLexBorder`; an empty text panics. -/
def parseLexBorder (text : Str) : SlotReader F (Except Reply (Border Str F)) :=
  if text = lit "+" then return .ok (.lex ⟨.positive, [], false⟩)
  else if text = lit "-" then return .ok (.lex ⟨.negative, [], false⟩)
  else
    match text with
    | [] => .stop .panic
    | 40 :: value => return .ok (.lex ⟨.finite, value, true⟩)
    | 91 :: value => return .ok (.lex ⟨.finite, value, false⟩)
    | _ => return .error (.err "ERR min or max not valid string range item")

theorem parseScoreBorder_eq (text : Str) :
    (∃ reason, (parseScoreBorder text : SlotReader F _) = .stop reason) ∨
      (∃ reply, (parseScoreBorder text : SlotReader F _) = pure (.error reply)) ∨
      ∃ bound, (parseScoreBorder text : SlotReader F _) = pure (.ok (.score bound)) := by
  have number (digits : Str) (exclude : Bool) :
      ∀ program : SlotReader F (Except Reply (Border Str F)),
        program = (match (Float64.parse digits : Option (Option F)) with
          | none => return .error (.err "ERR min or max is not a float")
          | some none => .stop .nan
          | some (some value) => return .ok (.score ⟨.finite, value, exclude⟩)) →
        (∃ reason, program = .stop reason) ∨ (∃ reply, program = pure (.error reply)) ∨
          ∃ bound, program = pure (.ok (.score bound)) := by
    rintro _ rfl
    split
    · exact .inr (.inl ⟨_, rfl⟩)
    · exact .inl ⟨_, rfl⟩
    · exact .inr (.inr ⟨_, rfl⟩)
  unfold parseScoreBorder
  split
  · exact .inr (.inr ⟨_, rfl⟩)
  · split
    · exact .inr (.inr ⟨_, rfl⟩)
    · split
      · exact .inl ⟨_, rfl⟩
      · exact number _ true _ rfl
      · exact number _ false _ rfl

omit [Float64 F] in
theorem parseLexBorder_eq (text : Str) :
    (∃ reason, (parseLexBorder text : SlotReader F _) = .stop reason) ∨
      (∃ reply, (parseLexBorder text : SlotReader F _) = pure (.error reply)) ∨
      ∃ bound, (parseLexBorder text : SlotReader F _) = pure (.ok (.lex bound)) := by
  unfold parseLexBorder
  split
  · exact .inr (.inr ⟨_, rfl⟩)
  · split
    · exact .inr (.inr ⟨_, rfl⟩)
    · split
      · exact .inl ⟨_, rfl⟩
      · exact .inr (.inr ⟨_, rfl⟩)
      · exact .inr (.inr ⟨_, rfl⟩)
      · exact .inr (.inl ⟨_, rfl⟩)

/-! ## Executors -/

/-- The elements `ZADD` and `GEOADD` are given, read one by one; an invalid one ends it. -/
def parseEach {α : Type} (parse : α → SlotReader F (Except Reply (Element Str F))) :
    List α → SlotReader F (Except Reply (List (Element Str F)))
  | [] => return .ok []
  | item :: rest => do
    match ← parse item with
    | .error reply => return .error reply
    | .ok element =>
      match ← parseEach parse rest with
      | .error reply => return .error reply
      | .ok elements => return .ok (element :: elements)

omit [Float64 F] in
theorem settled_parseEach {α : Type} {parse : α → SlotReader F (Except Reply (Element Str F))}
    (each : ∀ item, (parse item).Settled) (items : List α) : (parseEach parse items).Settled := by
  induction items with
  | nil => exact Prog.settled_pure
  | cons item rest ih =>
    refine (each item).bind fun first => ?_
    cases first with
    | error reply => exact Prog.settled_pure
    | ok element =>
      refine ih.bind fun parsed => ?_
      cases parsed with
      | error reply | ok elements => exact Prog.settled_pure

/-- An element of `ZADD`, score first. -/
def parseElement (pair : Bytes × Bytes) : SlotReader F (Except Reply (Element Str F)) :=
  match (Float64.parse (str pair.1) : Option (Option F)) with
  | none => return .error .notFloat
  | some none => .stop .nan
  | some (some score) => return .ok ⟨str pair.2, score⟩

theorem settled_parseElement (pair : Bytes × Bytes) :
    (parseElement pair : SlotReader F _).Settled := by
  unfold parseElement
  split
  · exact Prog.settled_pure
  · exact Prog.settled_stop _
  · exact Prog.settled_pure

/-- The elements are added and the command is logged. -/
def addElements (name : String) (args : List Bytes) (elements : List (Element Str F)) :
    SlotProg F Reply := do
  match ← getOrInitSortedSet with
  | .error reply => return reply
  | .ok scores =>
    let grown := elements.foldl
      (fun scores element => scores.insert element.member element.score) scores
    mutate (.zset grown)
    addAof (toCmdLine name args)
    return .int (grown.keys.card - scores.keys.card)

/-- What `ZADD` and `GEOADD` do once their arguments are counted. -/
def addParsed (name : String) (args : List Bytes)
    (parsed : SlotReader F (Except Reply (List (Element Str F)))) : SlotProg F Reply := do
  match ← look parsed with
  | .error reply => return reply
  | .ok elements => addElements name args elements

def execZAdd : List Bytes → SlotProg F Reply
  | key :: more =>
    if more.length % 2 ≠ 0 then return .syntaxErr
    else addParsed "zadd" (key :: more) (parseEach parseElement (pairs more))
  | [] => return .syntaxErr

def rollbackZSetFields (key : Str) (names : List Str) : SlotReader F (List Line) := do
  match ← getAsSortedSet with
  | .error _ => return []
  | .ok none => return [toCmdLineOfStr "DEL" [key]]
  | .ok (some scores) =>
    return names.map fun name =>
      match scores.lookup name with
      | none => toCmdLineOfStr "ZREM" [key, name]
      | some score => toCmdLineOfStr "ZADD" [key, Float64.format score, name]

def undoZAdd : List Bytes → SlotReader F (List Line)
  | key :: more => rollbackZSetFields (str key) ((pairs more).map fun pair => str pair.2)
  | [] => .stop .panic

def execZScore : List Bytes → SlotReader F Reply
  | _ :: member :: _ => do
    match ← getAsSortedSet with
    | .error reply => return reply
    | .ok none => return .nullBulk
    | .ok (some scores) =>
      match scores.lookup (str member) with
      | none => return .nullBulk
      | some score => return .bulk (some (Float64.format score))
  | _ => .stop .panic

/-- The rank of the element behind `index` others, from 1 on.  The header is taken for the empty
member if the first node of the top level, which may be any, stands behind it. -/
def getRank (elements : List (Element Str F)) (member : Str) (index : Nat) : SlotReader F Nat := do
  let top ← randomDistinct (elements.map Element.member).toFinset 1
  return if member = [] ∧ index < elements.findIdx (·.member ∈ top) then 0 else index + 1

def rankOf (desc : Bool) : List Bytes → SlotReader F Reply
  | _ :: member :: _ => do
    match ← getAsSortedSet with
    | .error reply => return reply
    | .ok none => return .nullBulk
    | .ok (some scores) =>
      match (ranked scores).findIdx? fun element => element.member = str member with
      | none => return .nullBulk
      | some index =>
        let r ← getRank (ranked scores) (str member) index
        let rank : Int := if desc then scores.keys.card - r else r - 1
        return if rank < 0 then .nullBulk else .int rank
  | _ => .stop .panic

def execZRank (args : List Bytes) : SlotReader F Reply :=
  rankOf false args

def execZRevRank (args : List Bytes) : SlotReader F Reply :=
  rankOf true args

def execZCard (_ : List Bytes) : SlotReader F Reply := do
  match ← getAsSortedSet with
  | .error reply => return reply
  | .ok none => return .int 0
  | .ok (some scores) => return .int scores.keys.card

def elementsReply (elements : List (Element Str F)) (withScores : Bool) : Reply :=
  .multiBulk (elements.flatMap fun element =>
    if withScores then [some element.member, some (Float64.format element.score)]
    else [some element.member])

def range0 (start stop : Int) (withScores desc : Bool) : SlotReader F Reply := do
  match ← getAsSortedSet with
  | .error reply => return reply
  | .ok none => return .emptyMultiBulk
  | .ok (some scores) =>
    match sliceBounds start stop scores.keys.card with
    | none => return .emptyMultiBulk
    | some (first, last) =>
      return elementsReply (← rangeByRank scores first last desc) withScores

/-- `execZRange` and `execZRevRange`: only the first takes `WITHSCORES` in any case. -/
def zRange (name : String) (isWithScores : Str → Bool) (desc : Bool) :
    List Bytes → SlotReader F Reply
  | _ :: rawStart :: rawStop :: modes => do
    if 1 < modes.length then return .argNumErr (lit name)
    else if modes.any fun mode => !isWithScores (str mode) then return .err "syntax error"
    else
      match parseInt (str rawStart) with
      | .error _ => return .notInteger
      | .ok start =>
        match parseInt (str rawStop) with
        | .error _ => return .notInteger
        | .ok stop => range0 start stop (!modes.isEmpty) desc
  | _ => return .argNumErr (lit name)

def execZRange (args : List Bytes) : SlotReader F Reply :=
  zRange "zrange" (fun mode => toUpper mode = lit "WITHSCORES") false args

def execZRevRange (args : List Bytes) : SlotReader F Reply :=
  zRange "zrevrange" (fun mode => mode = lit "WITHSCORES") true args

def execZCount : List Bytes → SlotReader F Reply
  | _ :: rawMin :: rawMax :: _ => do
    match ← parseScoreBorder (str rawMin) with
    | .error reply => return reply
    | .ok min =>
      match ← parseScoreBorder (str rawMax) with
      | .error reply => return reply
      | .ok max =>
        match ← getAsSortedSet with
        | .error reply => return reply
        | .ok none => return .int 0
        | .ok (some scores) => return .int (← rangeCount scores min max)
  | _ => .stop .panic

def rangeByScore0 (min max : Border Str F) (offset limit : Int) (withScores desc : Bool) :
    SlotReader F Reply := do
  match ← getAsSortedSet with
  | .error reply => return reply
  | .ok none => return .emptyMultiBulk
  | .ok (some scores) =>
    return elementsReply (← range scores min max offset limit desc) withScores

/-- The options of `ZRANGEBYSCORE`: whether scores are wanted, the offset and the limit. -/
def rangeOptions : List Bytes → Bool → Int → Int → Except Reply (Bool × Int × Int)
  | [], withScores, offset, limit => .ok (withScores, offset, limit)
  | option :: rest, withScores, offset, limit =>
    if toUpper (str option) = lit "WITHSCORES" then rangeOptions rest true offset limit
    else if toUpper (str option) = lit "LIMIT" then
      match rest with
      | rawOffset :: rawLimit :: rest =>
        match parseInt (str rawOffset) with
        | .error _ => .error .notInteger
        | .ok offset =>
          match parseInt (str rawLimit) with
          | .error _ => .error .notInteger
          | .ok limit => rangeOptions rest withScores offset limit
      | _ => .error (.err "ERR syntax error")
    else .error (.err "ERR syntax error")

/-- `execZRangeByScore` and `execZRevRangeByScore`, given the borders in the order in which they
are read. -/
def zRangeByScore (rawMin rawMax : Bytes) (options : List Bytes) (desc : Bool) :
    SlotReader F Reply := do
  match ← parseScoreBorder (str rawMin) with
  | .error reply => return reply
  | .ok min =>
    match ← parseScoreBorder (str rawMax) with
    | .error reply => return reply
    | .ok max =>
      match rangeOptions options false 0 (-1) with
      | .error reply => return reply
      | .ok (withScores, offset, limit) => rangeByScore0 min max offset limit withScores desc

def execZRangeByScore : List Bytes → SlotReader F Reply
  | _ :: rawMin :: rawMax :: options => zRangeByScore rawMin rawMax options false
  | _ => return .argNumErr (lit "zrangebyscore")

def execZRevRangeByScore : List Bytes → SlotReader F Reply
  | _ :: rawMax :: rawMin :: options => zRangeByScore rawMin rawMax options true
  | _ => return .argNumErr (lit "zrangebyscore")

def execZRemRangeByScore : List Bytes → SlotProg F Reply
  | [key, rawMin, rawMax] => do
    match ← look (parseScoreBorder (str rawMin)) with
    | .error reply => return reply
    | .ok min =>
      match ← look (parseScoreBorder (str rawMax)) with
      | .error reply => return reply
      | .ok max =>
        match ← look getAsSortedSet with
        | .error reply => return reply
        | .ok none => return .emptyMultiBulk
        | .ok (some scores) =>
          let removed ← look (inRemoveRange scores min max)
          mutate (.zset (without scores removed))
          if 0 < removed.length then
            addAof (toCmdLine "zremrangebyscore" [key, rawMin, rawMax])
          return .int removed.length
  | _ => return .argNumErr (lit "zremrangebyscore")

def execZRemRangeByRank : List Bytes → SlotProg F Reply
  | key :: rawStart :: rawStop :: more => do
    match parseInt (str rawStart) with
    | .error _ => return .notInteger
    | .ok start =>
      match parseInt (str rawStop) with
      | .error _ => return .notInteger
      | .ok stop =>
        match ← look getAsSortedSet with
        | .error reply => return reply
        | .ok none => return .int 0
        | .ok (some scores) =>
          match sliceBounds start stop scores.keys.card with
          | none => return .int 0
          | some (first, last) =>
            let removed := ((ranked scores).drop first).take (last - first)
            mutate (.zset (without scores removed))
            if 0 < removed.length then
              addAof (toCmdLine "zremrangebyrank" (key :: rawStart :: rawStop :: more))
            return .int removed.length
  | _ => .stop .panic

def execZPopMin : List Bytes → SlotProg F Reply
  | key :: more => do
    match more.head?.elim (.ok 1) fun rawCount => parseInt (str rawCount) with
    | .error _ => return .notInteger
    | .ok count =>
      match ← look getAsSortedSet with
      | .error reply => return reply
      | .ok none => return .emptyMultiBulk
      | .ok (some scores) =>
        let removed := popMin scores count
        mutate (.zset (without scores removed))
        if 0 < removed.length then addAof (toCmdLine "zpopmin" (key :: more))
        return elementsReply removed true
  | [] => .stop .panic

/-- A sorted set that lost its last member stays. -/
def execZRem : List Bytes → SlotProg F Reply
  | key :: names => do
    match ← look getAsSortedSet with
    | .error reply => return reply
    | .ok none => return .int 0
    | .ok (some scores) =>
      let rest := names.foldl (fun scores name => scores.erase (str name)) scores
      mutate (.zset rest)
      if rest.keys.card < scores.keys.card then addAof (toCmdLine "zrem" (key :: names))
      return .int (scores.keys.card - rest.keys.card)
  | [] => .stop .panic

def undoZRem : List Bytes → SlotReader F (List Line)
  | key :: names => rollbackZSetFields (str key) (names.map str)
  | [] => .stop .panic

def execZIncrBy : List Bytes → SlotProg F Reply
  | key :: rawDelta :: member :: more => do
    match (Float64.parse (str rawDelta) : Option (Option F)) with
    | none => return .notFloat
    | some delta =>
      match ← getOrInitSortedSet with
      | .error reply => return reply
      | .ok scores =>
        match scores.lookup (str member), delta with
        | none, some delta =>
          mutate (.zset (scores.insert (str member) delta))
          addAof (toCmdLine "zincrby" (key :: rawDelta :: member :: more))
          return .bulk rawDelta
        | some score, some delta =>
          match Float64.add score delta with
          | none => .stop .nan
          | some sum =>
            mutate (.zset (scores.insert (str member) sum))
            addAof (toCmdLine "zincrby" (key :: rawDelta :: member :: more))
            return .bulk (some (Float64.format sum))
        | _, none => .stop .nan
  | _ => .stop .panic

def undoZIncr : List Bytes → SlotReader F (List Line)
  | key :: _ :: member :: _ => rollbackZSetFields (str key) [str member]
  | _ => .stop .panic

def execZLexCount : List Bytes → SlotReader F Reply
  | _ :: rawMin :: rawMax :: _ => do
    match ← getAsSortedSet with
    | .error reply => return reply
    | .ok none => return .int 0
    | .ok (some scores) =>
      match ← parseLexBorder (str rawMin) with
      | .error reply => return reply
      | .ok min =>
        match ← parseLexBorder (str rawMax) with
        | .error reply => return reply
        | .ok max => return .int (← rangeCount scores min max)
  | _ => .stop .panic

/-- The offset and the limit behind `LIMIT`, the most there is without them; a negative offset
is answered at once. -/
def lexLimit : List Bytes → Except Reply (Int × Int)
  | [_, rawOffset, rawCount] =>
    match parseInt (str rawOffset) with
    | .error _ => .error .notInteger
    | .ok offset =>
      if offset < 0 then .error .emptyMultiBulk
      else
        match parseInt (str rawCount) with
        | .error _ => .error .notInteger
        | .ok count => .ok (offset, if 0 ≤ count then count else 2 ^ 63 - 1)
  | _ => .ok (0, 2 ^ 63 - 1)

/-- `execZRangeByLex` and `execZRevRangeByLex`, given the borders in the order in which they are
read. -/
def zRangeByLex (rawMin rawMax : Bytes) (options : List Bytes) (desc : Bool) :
    SlotReader F Reply := do
  if options.head?.any fun option => toLower (str option) ≠ lit "limit" then
    return .err "ERR syntax error"
  else if options.length ≠ 0 ∧ options.length ≠ 3 then return .argNumErr (lit "zrangebylex")
  else
    match ← getAsSortedSet with
    | .error reply => return reply
    | .ok none => return .int 0
    | .ok (some scores) =>
      match ← parseLexBorder (str rawMin) with
      | .error reply => return reply
      | .ok min =>
        match ← parseLexBorder (str rawMax) with
        | .error reply => return reply
        | .ok max =>
          match lexLimit options with
          | .error reply => return reply
          | .ok (offset, limit) =>
            let elements ← range scores min max offset limit desc
            if elements.isEmpty then return .emptyMultiBulk
            else return elementsReply elements false

def execZRangeByLex : List Bytes → SlotReader F Reply
  | _ :: rawMin :: rawMax :: options => zRangeByLex rawMin rawMax options false
  | _ => return .argNumErr (lit "zrangebylex")

/-- No line is logged. -/
def execZRemRangeByLex : List Bytes → SlotProg F Reply
  | [_, rawMin, rawMax] => do
    match ← look getAsSortedSet with
    | .error reply => return reply
    | .ok none => return .int 0
    | .ok (some scores) =>
      match ← look (parseLexBorder (str rawMin)) with
      | .error reply => return reply
      | .ok min =>
        match ← look (parseLexBorder (str rawMax)) with
        | .error reply => return reply
        | .ok max =>
          let removed ← look (inRemoveRange scores min max)
          mutate (.zset (without scores removed))
          return .int removed.length
  | _ => return .argNumErr (lit "zremrangebylex")

def execZRevRangeByLex : List Bytes → SlotReader F Reply
  | _ :: rawMax :: rawMin :: options => zRangeByLex rawMin rawMax options true
  | _ => return .argNumErr (lit "zrangebylex")

def execZScan : List Bytes → SlotReader F Reply :=
  scanCollection getAsSortedSet (·.keys) fun scores names => names.flatMap fun name =>
    [some name, (scores.lookup name).map Float64.formatFixed]

end Godis.Database
