import Godis.Datastruct.Skiplist
import Mathlib.Data.Finmap

/-!
# Sorted set (`datastruct/sortedset/sortedset.go`, `border.go`)

A dictionary from members to elements and a skip list of the same elements.  The height
of a new node is an argument, any value that `randomLevel` may return.
-/

namespace Godis

variable {M S : Type}

inductive Inf where
  | finite
  | negative
  | positive
  deriving DecidableEq

/-- A bound on a value, included or excluded; `value` is ignored next to an infinity. -/
structure Bound (V : Type) where
  inf : Inf
  value : V
  exclude : Bool

namespace Bound

variable {V : Type} [LinearOrder V]

def greater (border : Bound V) (value : V) : Bool :=
  match border.inf with
  | .negative => false
  | .positive => true
  | .finite => if border.exclude then border.value > value else border.value ≥ value

def less (border : Bound V) (value : V) : Bool :=
  match border.inf with
  | .negative => true
  | .positive => false
  | .finite => if border.exclude then border.value < value else border.value ≤ value

/-- Both `isIntersected` methods compare the values like this. -/
def crosses (min max : Bound V) : Bool :=
  min.value > max.value ∨ min.value = max.value ∧ (min.exclude ∨ max.exclude)

end Bound

/-- `ScoreBorder` bounds the score and `LexBorder` the member. -/
inductive Border (M S : Type) where
  | score (bound : Bound S)
  | lex (bound : Bound M)

namespace Border

variable [LinearOrder M] [LinearOrder S]

def greater : Border M S → Element M S → Bool
  | .score bound, element => bound.greater element.score
  | .lex bound, element => bound.greater element.member

def less : Border M S → Element M S → Bool
  | .score bound, element => bound.less element.score
  | .lex bound, element => bound.less element.member

/-- The type assertion on the other border fails if it is of the other kind. -/
def isIntersected : Border M S → Border M S → Option Bool
  | .score min, .score max => some (min.crosses max)
  | .lex min, .lex max => some (min.inf = .positive || min.crosses max)
  | _, _ => none

def scorePositiveInfBorder [Inhabited S] : Border M S :=
  .score ⟨.positive, default, false⟩

def scoreNegativeInfBorder [Inhabited S] : Border M S :=
  .score ⟨.negative, default, false⟩

end Border

namespace Skiplist

variable [LinearOrder M] [LinearOrder S]

def hasInRange (sl : Skiplist M S) (min max : Border M S) : Option Bool := do
  if ← min.isIntersected max then some false
  else
    match sl.tail with
    | none => some false
    | some last =>
      if !min.less (← sl.elemAt last) then some false
      else
        match (← sl.levelAt 0 0).forward with
        | none => some false
        | some first => some (max.greater (← sl.elemAt first))

/-- The pointer to the first node in range, `none` inside for nil. -/
def getFirstInRange (sl : Skiplist M S) (min max : Border M S) : Option (Option Nat) := do
  if !(← sl.hasInRange min max) then some none
  else
    let update ← sl.search fun _ next => !min.less next
    let (last, _) ← update.head?
    let first ← (← sl.levelAt last 0).forward
    if !max.greater (← sl.elemAt first) then some none else some (some first)

end Skiplist

structure Height where
  val : Nat
  positive : 0 < val
  bound : val ≤ maxLevel

theorem randomLevel_bounds {random : Nat} :
    0 < Skiplist.randomLevel random ∧ Skiplist.randomLevel random ≤ maxLevel := by
  have positive : 0 < (random % (2 ^ maxLevel - 1) + 1).size :=
    Nat.size_pos.mpr (Nat.succ_pos _)
  unfold Skiplist.randomLevel
  have some_level : 0 < maxLevel := by
    decide
  omega

def Height.random (random : Nat) : Height :=
  ⟨Skiplist.randomLevel random, (randomLevel_bounds).1, (randomLevel_bounds).2⟩

structure SortedSet (M S : Type) where
  dict : Finmap fun _ : M => Element M S
  skiplist : Skiplist M S

/-- An `int64` sum wraps around. -/
def addInt64 (first second : Int) : Int :=
  (first + second + 2 ^ 63) % 2 ^ 64 - 2 ^ 63

namespace SortedSet

variable [LinearOrder M] [LinearOrder S]

def make [Inhabited M] [Inhabited S] : SortedSet M S :=
  ⟨∅, Skiplist.makeSkiplist⟩

def add (set : SortedSet M S) (member : M) (score : S) (height : Height) :
    Option (Bool × SortedSet M S) := do
  let dict := set.dict.insert member ⟨member, score⟩
  match set.dict.lookup member with
  | some element =>
    if score ≠ element.score then
      let (_, skiplist) ← set.skiplist.remove member element.score
      let skiplist ← skiplist.insert member score height.val
      some (false, ⟨dict, skiplist⟩)
    else some (false, ⟨dict, set.skiplist⟩)
  | none =>
    let skiplist ← set.skiplist.insert member score height.val
    some (true, ⟨dict, skiplist⟩)

def remove (set : SortedSet M S) (member : M) : Option (Bool × SortedSet M S) :=
  match set.dict.lookup member with
  | some element => do
    let (_, skiplist) ← set.skiplist.remove member element.score
    some (true, ⟨set.dict.erase member, skiplist⟩)
  | none => some (false, set)

def forget (dict : Finmap fun _ : M => Element M S) (removed : List (Element M S)) :
    Finmap fun _ : M => Element M S :=
  removed.foldl (fun dict element => dict.erase element.member) dict

def removeRange (set : SortedSet M S) (min max : Border M S) : Option (Int × SortedSet M S) := do
  let (removed, skiplist) ← set.skiplist.removeRange min.less max.greater 0
  some (removed.length, ⟨forget set.dict removed, skiplist⟩)

def popMin [Inhabited S] (set : SortedSet M S) (count : Int) :
    Option (List (Element M S) × SortedSet M S) := do
  match ← set.skiplist.getFirstInRange Border.scoreNegativeInfBorder
      Border.scorePositiveInfBorder with
  | none => some ([], set)
  | some first =>
    let element ← set.skiplist.elemAt first
    let border : Border M S := .score ⟨.finite, element.score, false⟩
    let (removed, skiplist) ← set.skiplist.removeRange border.less
      (Border.scorePositiveInfBorder (M := M) (S := S)).greater count
    some (removed, ⟨forget set.dict removed, skiplist⟩)

/-- Removes the members of ranks from `start` on and below `stop`, starting from 0. -/
def removeByRank (set : SortedSet M S) (start stop : Int) : Option (Int × SortedSet M S) := do
  let (removed, skiplist) ←
    set.skiplist.removeRangeByRank (addInt64 start 1) (addInt64 stop 1)
  some (removed.length, ⟨forget set.dict removed, skiplist⟩)

/-! ## Runs -/

inductive Op (M S : Type) where
  | add (member : M) (score : S) (height : Height)
  | remove (member : M)
  | removeRange (min max : Border M S)
  | removeByRank (start stop : Int)
  | popMin (count : Int)

def exec [Inhabited S] (set : SortedSet M S) : Op M S → Option (SortedSet M S)
  | .add member score height => (set.add member score height).map (·.2)
  | .remove member => (set.remove member).map (·.2)
  | .removeRange min max => (set.removeRange min max).map (·.2)
  | .removeByRank start stop => (set.removeByRank start stop).map (·.2)
  | .popMin count => (set.popMin count).map (·.2)

def run [Inhabited S] (set : SortedSet M S) (ops : List (Op M S)) : Option (SortedSet M S) :=
  ops.foldlM exec set

end SortedSet

end Godis
