import Godis.Golang.Strconv
import Mathlib.Data.Finmap

/-!
# Values, replies and scores

The data a key may hold, the replies of the executors (`redis/protocol`) and the floating point
numbers of sorted sets.
-/

namespace Godis.Database

open Golang

/-- A byte slice, nil or not. -/
abbrev Bytes := Option Str

abbrev Key := Str

abbrev Line := List Bytes

/-- `string(bytes)`: nil and the empty slice give the same string. -/
def str (bytes : Bytes) : Str :=
  bytes.getD []

def toCmdLine (name : String) (args : List Bytes) : Line :=
  some (lit name) :: args

def toCmdLineOfStr (name : String) (args : List Str) : Line :=
  some (lit name) :: args.map some

/-- The data behind a `DataEntity`.  A list is kept as the sequence of its elements, a hash as
the map of its fields, and a sorted set as the map from members to scores; members in order are
`ranked`. -/
inductive Value (F : Type) where
  | string (bytes : Bytes)
  | list (elements : List Bytes)
  | hash (fields : Finmap fun _ : Str => Str)
  | set (members : Finset Str)
  | zset (scores : Finmap fun _ : Str => F)
  deriving DecidableEq

inductive Reply where
  | status (text : Str)
  | error (text : Str)
  | int (code : Int)
  | bulk (arg : Bytes)
  | nullBulk
  | multiBulk (args : List Bytes)
  | emptyMultiBulk
  | multiRaw (replies : List Reply)

namespace Reply

/-- `protocol.IsErrorReply`: the first byte written is `-`. -/
def isError : Reply → Bool
  | .error _ => true
  | _ => false

def ok : Reply :=
  .status (lit "OK")

def err (text : String) : Reply :=
  .error (lit text)

def syntaxErr : Reply :=
  .err "Err syntax error"

def wrongTypeErr : Reply :=
  .err "WRONGTYPE Operation against a key holding the wrong kind of value"

def notInteger : Reply :=
  .err "ERR value is not an integer or out of range"

def notFloat : Reply :=
  .err "ERR value is not a valid float"

def argNumErr (name : Str) : Reply :=
  .error (lit "ERR wrong number of arguments for '" ++ name ++ lit "' command")

def unknownCommand (name : Str) : Reply :=
  .error (lit "ERR unknown command '" ++ name ++ lit "'")

end Reply

/-- The `float64` numbers as the commands use them.  Negative zero is zero here, and a computation
that gives NaN has no result.  What depends on the bits of a number only is left open. -/
class Float64 (F : Type) extends LinearOrder F where
  zero : F
  /-- `strconv.ParseFloat`: `none` for an error, `some none` for NaN. -/
  parse : Str → Option (Option F)
  /-- `strconv.FormatFloat(x, 'f', -1, 64)`. -/
  format : F → Str
  parse_format : ∀ x, parse (format x) = some (some x)
  /-- `strconv.FormatFloat(x, 'f', 10, 64)`. -/
  formatFixed : F → Str
  add : F → F → Option F
  /-- `math.Round` of a duration of that many nanoseconds in seconds. -/
  roundSeconds : Int → Int
  /-- `lat < -90 || lat > 90 || lng < -180 || lng > 180`, the latitude first; as below, either may
  be NaN. -/
  offGlobe : Option F → Option F → Bool
  /-- `float64(geohash.Encode(lat, lng))`. -/
  geoEncode : Option F → Option F → F
  /-- `geohash.Decode(uint64(score))`: latitude and longitude. -/
  geoDecode : F → F × F
  /-- `geohash.ToString(geohash.FromInt(uint64(score)))`. -/
  geoHash : F → Str
  /-- `geohash.Distance` of two points, NaN left out. -/
  geoDistance : F × F → F × F → Option F
  perThousand : F → F
  thousandTimes : F → F
  /-- `geohash.GetNeighbours(lat, lng, radius)`, the borders as numbers; `none` for a radius that
  is doubled for ever. -/
  geoNeighbours : Option F → Option F → Option F → Option (List (F × F))

/-- Single digits, numbers small enough to compute with. -/
abbrev Digit := Fin 10

instance : Float64 Digit where
  zero := 0
  parse text :=
    match text with
    | [byte] => if 48 ≤ byte.toNat ∧ byte.toNat < 58 then some (some (Fin.ofNat 10 (byte.toNat - 48)))
        else none
    | _ => none
  format digit := [UInt8.ofNat (48 + digit.val)]
  parse_format := by decide
  formatFixed digit := [UInt8.ofNat (48 + digit.val)]
  add first second := if first.val + second.val < 10 then some (first + second) else none
  roundSeconds nanoseconds := nanoseconds / 1000000000
  offGlobe _ _ := false
  geoEncode _ _ := 0
  geoDecode digit := (digit, digit)
  geoHash _ := []
  geoDistance _ _ := none
  perThousand _ := 0
  thousandTimes digit := digit
  geoNeighbours _ _ _ := none

namespace Value

variable {F : Type}

def isEmptyCollection : Value F → Bool
  | .string _ => false
  | .list elements => elements.isEmpty
  | .hash fields => fields.keys.card = 0
  | .set members => members.card = 0
  | .zset scores => scores.keys.card = 0

def typeName : Value F → String
  | .string _ => "string"
  | .list _ => "list"
  | .hash _ => "hash"
  | .set _ => "set"
  | .zset _ => "zset"

end Value

end Godis.Database
