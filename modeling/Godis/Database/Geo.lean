import Godis.Database.SortedSet

/-!
# Geo commands (`database/geo.go`)
-/

namespace Godis.Database

open Golang Program

variable {F : Type} [Float64 F]

/-- Arguments taken three by three; what is left over is dropped. -/
def triples : List Bytes → List (Bytes × Bytes × Bytes)
  | first :: second :: third :: rest => (first, second, third) :: triples rest
  | _ => []

def parseLocation (triple : Bytes × Bytes × Bytes) : SlotReader F (Except Reply (Element Str F)) :=
  match (Float64.parse (str triple.1) : Option (Option F)),
      (Float64.parse (str triple.2.1) : Option (Option F)) with
  | some lng, some lat =>
    if Float64.offGlobe lat lng then
      return .error (.error (lit "ERR invalid longitude,latitude pair " ++ str triple.2.1 ++
        lit "," ++ str triple.1))
    else return .ok ⟨str triple.2.2, Float64.geoEncode lat lng⟩
  | _, _ => return .error .notFloat

theorem settled_parseLocation (triple : Bytes × Bytes × Bytes) :
    (parseLocation triple : SlotReader F _).Settled := by
  unfold parseLocation
  split
  · split
    · exact Prog.settled_pure
    · exact Prog.settled_pure
  · exact Prog.settled_pure

def execGeoAdd : List Bytes → SlotProg F Reply
  | key :: more =>
    if more.length < 3 ∨ more.length % 3 ≠ 0 then return .argNumErr (lit "geoadd")
    else addParsed "geoadd" (key :: more) (parseEach parseLocation (triples more))
  | [] => return .argNumErr (lit "geoadd")

def undoGeoAdd : List Bytes → SlotReader F (List Line)
  | key :: more => rollbackZSetFields (str key) ((triples more).map fun triple => str triple.2.2)
  | [] => .stop .panic

def execGeoPos : List Bytes → SlotReader F Reply
  | _ :: members => do
    match ← getAsSortedSet with
    | .error reply => return reply
    | .ok none => return .nullBulk
    | .ok (some scores) =>
      return .multiRaw (members.map fun member =>
        match scores.lookup (str member) with
        | none => .emptyMultiBulk
        | some score =>
          .multiBulk [some (Float64.format (Float64.geoDecode score).2),
            some (Float64.format (Float64.geoDecode score).1)])
  | [] => return .argNumErr (lit "geopos")

def inUnit (distance : Option F) (unit : Str) : SlotReader F Reply :=
  if unit = lit "m" then
    return .bulk (some ((distance.map Float64.format).getD (lit "NaN")))
  else if unit = lit "km" then
    return .bulk (some ((distance.map fun metres =>
      Float64.format (Float64.perThousand metres)).getD (lit "NaN")))
  else return .err "ERR unsupported unit provided. please use m, km"

def execGeoDist : List Bytes → SlotReader F Reply
  | _ :: first :: second :: units => do
    if 1 < units.length then return .argNumErr (lit "geodist")
    else
      match ← getAsSortedSet with
      | .error reply => return reply
      | .ok none => return .nullBulk
      | .ok (some scores) =>
        match scores.lookup (str first), scores.lookup (str second) with
        | some start, some stop =>
          inUnit (Float64.geoDistance (Float64.geoDecode start) (Float64.geoDecode stop))
            (units.head?.elim (lit "m") fun unit => toLower (str unit))
        | _, _ => return .nullBulk
  | _ => return .argNumErr (lit "geodist")

def execGeoHash : List Bytes → SlotReader F Reply
  | _ :: members => do
    match ← getAsSortedSet with
    | .error reply => return reply
    | .ok none => return .nullBulk
    | .ok (some scores) =>
      return .multiBulk (members.map fun member =>
        match scores.lookup (str member) with
        | none => some (lit "*0\r\n")
        | some score => some (Float64.geoHash score))
  | [] => return .argNumErr (lit "geohash")

def geoRadius0 (scores : Scores F) (lat lng radius : Option F) : SlotReader F Reply :=
  let rec collect : List (F × F) → SlotReader F (List (Element Str F))
    | [] => return []
    | (lower, upper) :: areas => do
      let elements ← range scores (.score ⟨.finite, lower, false⟩)
        (.score ⟨.finite, upper, false⟩) 0 (-1) true
      return elements ++ (← collect areas)
  match Float64.geoNeighbours lat lng radius with
  | none => .stop .blocked
  | some areas => do
    return elementsReply (← collect areas) false

def inMetres (radius : Option F) (unit : Str) : Except Reply (Option F) :=
  if unit = lit "m" then .ok radius
  else if unit = lit "km" then .ok (radius.map Float64.thousandTimes)
  else .error (.err "ERR unsupported unit provided. please use m, km")

def execGeoRadius : List Bytes → SlotReader F Reply
  | _ :: rawLng :: rawLat :: rawRadius :: unit :: _ => do
    match ← getAsSortedSet with
    | .error reply => return reply
    | .ok none => return .nullBulk
    | .ok (some scores) =>
      match (Float64.parse (str rawLng) : Option (Option F)),
          (Float64.parse (str rawLat) : Option (Option F)),
          (Float64.parse (str rawRadius) : Option (Option F)) with
      | some lng, some lat, some radius =>
        match inMetres radius (toLower (str unit)) with
        | .error reply => return reply
        | .ok radius => geoRadius0 scores lat lng radius
      | _, _, _ => return .notFloat
  | _ => return .argNumErr (lit "georadius")

def execGeoRadiusByMember : List Bytes → SlotReader F Reply
  | _ :: member :: rawRadius :: units => do
    match ← getAsSortedSet with
    | .error reply => return reply
    | .ok none => return .nullBulk
    | .ok (some scores) =>
      match scores.lookup (str member) with
      | none => return .nullBulk
      | some score =>
        match (Float64.parse (str rawRadius) : Option (Option F)) with
        | none => return .notFloat
        | some radius =>
          match inMetres radius
              (units.head?.elim (lit "m") fun unit => toLower (str unit)) with
          | .error reply => return reply
          | .ok radius =>
            geoRadius0 scores (some (Float64.geoDecode score).1)
              (some (Float64.geoDecode score).2) radius
  | _ => return .argNumErr (lit "georadiusbymember")

end Godis.Database
