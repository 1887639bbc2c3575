import Mathlib.Order.Defs.LinearOrder
import Mathlib.Data.Nat.Size
import Mathlib.Tactic

/-!
# Skip list (`datastruct/sortedset/skiplist.go`)

Nodes live on a heap that only grows; a pointer is a position on it and the header
is node 0.  Members and scores come from linear orders.  An operation is `none`
where the code dereferences nil; loops take fuel, and running out of it is `none`
as well.
-/

namespace Godis

def maxLevel : Nat := 16

structure Element (M S : Type) where
  member : M
  score : S
  deriving DecidableEq

namespace Element

variable {M S : Type} [LinearOrder M] [LinearOrder S]

/-- The comparison written out in every search loop. -/
def less (first second : Element M S) : Bool :=
  first.score < second.score ∨ first.score = second.score ∧ first.member < second.member

end Element

structure Level where
  forward : Option Nat
  span : Int

structure Node (M S : Type) where
  elem : Element M S
  backward : Option Nat
  level : List Level

structure Skiplist (M S : Type) where
  nodes : List (Node M S)
  tail : Option Nat
  length : Int
  level : Nat

namespace Skiplist

variable {M S : Type}

def makeNode (level : Nat) (elem : Element M S) : Node M S :=
  ⟨elem, none, List.replicate level ⟨none, 0⟩⟩

/-- The header holds the zero score and the empty member. -/
def makeSkiplist [Inhabited M] [Inhabited S] : Skiplist M S :=
  ⟨[makeNode maxLevel ⟨default, default⟩], none, 0, 1⟩

/-- `randomLevel`, given the value of `rand.Uint64()`. -/
def randomLevel (random : Nat) : Nat :=
  maxLevel - (random % (2 ^ maxLevel - 1) + 1).size + 1

/-! ## Heap access -/

def elemAt (sl : Skiplist M S) (ptr : Nat) : Option (Element M S) :=
  sl.nodes[ptr]?.map (·.elem)

def backwardAt (sl : Skiplist M S) (ptr : Nat) : Option (Option Nat) :=
  sl.nodes[ptr]?.map (·.backward)

def heightAt (sl : Skiplist M S) (ptr : Nat) : Option Nat :=
  sl.nodes[ptr]?.map (·.level.length)

def levelAt (sl : Skiplist M S) (ptr i : Nat) : Option Level :=
  sl.nodes[ptr]?.bind fun node => node.level[i]?

def setLevel (sl : Skiplist M S) (ptr i : Nat) (level : Level) : Skiplist M S :=
  { sl with nodes := sl.nodes.modify ptr fun node => { node with level := node.level.set i level } }

def setBackward (sl : Skiplist M S) (ptr : Nat) (backward : Option Nat) : Skiplist M S :=
  { sl with nodes := sl.nodes.modify ptr fun node => { node with backward := backward } }

/-! ## Search -/

/-- The inner search loop: follow level `i` while `goOn` holds of the next node and of
the rank reached there. -/
def traverse (sl : Skiplist M S) (goOn : Int → Element M S → Bool) (i : Nat) :
    Nat → Nat → Int → Option (Nat × Int)
  | 0, _, _ => none
  | fuel + 1, node, rank => do
    let level ← sl.levelAt node i
    match level.forward with
    | none => some (node, rank)
    | some next =>
      if goOn (rank + level.span) (← sl.elemAt next) then
        traverse sl goOn i fuel next (rank + level.span)
      else some (node, rank)

/-- The outer search loop over the levels below `i`: for each level, from 0 on, the
last node before the position looked for and its rank. -/
def descend (sl : Skiplist M S) (goOn : Int → Element M S → Bool) :
    Nat → Nat → Int → Option (List (Nat × Int))
  | 0, _, _ => some []
  | i + 1, node, rank => do
    let (node, rank) ← sl.traverse goOn i sl.nodes.length node rank
    let update ← descend sl goOn i node rank
    some (update ++ [(node, rank)])

def search (sl : Skiplist M S) (goOn : Int → Element M S → Bool) : Option (List (Nat × Int)) :=
  sl.descend goOn sl.level 0 0

/-! ## Insertion -/

/-- Link the new node behind `update[i]` on the levels from `i` on. -/
def linkLevels (node : Nat) (rank : Int) :
    Nat → List (Nat × Int) → Skiplist M S → Option (Skiplist M S)
  | _, [], sl => some sl
  | i, (updated, rankI) :: rest, sl => do
    let level ← sl.levelAt updated i
    let _ ← sl.levelAt node i
    let sl := sl.setLevel node i ⟨level.forward, level.span - (rank - rankI)⟩
    linkLevels node rank (i + 1) rest (sl.setLevel updated i ⟨some node, rank - rankI + 1⟩)

def widenLevels : Nat → List (Nat × Int) → Skiplist M S → Option (Skiplist M S)
  | _, [], sl => some sl
  | i, (updated, _) :: rest, sl => do
    let level ← sl.levelAt updated i
    widenLevels (i + 1) rest (sl.setLevel updated i { level with span := level.span + 1 })

/-- The new levels start at the header with the length of the list as their span. -/
def extendLevels (sl : Skiplist M S) : Nat → Nat → Skiplist M S
  | 0, _ => sl
  | count + 1, i =>
    let forward := (sl.levelAt 0 i).bind (·.forward)
    extendLevels (sl.setLevel 0 i ⟨forward, sl.length⟩) count (i + 1)

/-- The successor, or the tail if there is none, gets the given predecessor. -/
def setPredecessor (sl : Skiplist M S) (successor predecessor : Option Nat) : Skiplist M S :=
  match successor with
  | some next => sl.setBackward next predecessor
  | none => { sl with tail := predecessor }

/-- The second half of `insert`: make a node and link it into the skip list. -/
def link (sl : Skiplist M S) (update : List (Nat × Int)) (level : Nat) (elem : Element M S) :
    Option (Skiplist M S) := do
  let (first, rank) ← update.head?
  let node := sl.nodes.length
  let sl := { sl with nodes := sl.nodes ++ [makeNode level elem] }
  let sl ← linkLevels node rank 0 (update.take level) sl
  let sl ← widenLevels level (update.drop level) sl
  let sl := sl.setBackward node (if first = 0 then none else some first)
  let own ← sl.levelAt node 0
  let sl := sl.setPredecessor own.forward (some node)
  some { sl with length := sl.length + 1 }

/-- `level` is the value of `randomLevel()`. -/
def insert [LinearOrder M] [LinearOrder S] (sl : Skiplist M S) (member : M) (score : S)
    (level : Nat) : Option (Skiplist M S) := do
  let update ← sl.search fun _ next => next.less ⟨member, score⟩
  let update := update ++ List.replicate (level - sl.level) (0, 0)
  let sl := { sl.extendLevels (level - sl.level) sl.level with level := max sl.level level }
  sl.link update level ⟨member, score⟩

/-! ## Removal -/

def unlinkLevels (node : Nat) : Nat → List (Nat × Int) → Skiplist M S → Option (Skiplist M S)
  | _, [], sl => some sl
  | i, (updated, _) :: rest, sl => do
    let level ← sl.levelAt updated i
    if level.forward = some node then
      let own ← sl.levelAt node i
      unlinkLevels node (i + 1) rest
        (sl.setLevel updated i ⟨own.forward, level.span + (own.span - 1)⟩)
    else
      unlinkLevels node (i + 1) rest
        (sl.setLevel updated i { level with span := level.span - 1 })

def shrinkLevel (sl : Skiplist M S) : Nat → Option Nat
  | 0 => some 0
  | 1 => some 1
  | level + 2 => do
    let top ← sl.levelAt 0 (level + 1)
    if top.forward = none then shrinkLevel sl (level + 1) else some (level + 2)

def removeNode (sl : Skiplist M S) (node : Nat) (update : List (Nat × Int)) :
    Option (Skiplist M S) := do
  let sl ← unlinkLevels node 0 (update.take sl.level) sl
  let own ← sl.levelAt node 0
  let backward ← sl.backwardAt node
  let sl := sl.setPredecessor own.forward backward
  let level ← sl.shrinkLevel sl.level
  some { sl with level := level, length := sl.length - 1 }

/-- Returns whether the node has been found and removed. -/
def remove [LinearOrder M] [LinearOrder S] (sl : Skiplist M S) (member : M) (score : S) :
    Option (Bool × Skiplist M S) := do
  let update ← sl.search fun _ next => next.less ⟨member, score⟩
  let (last, _) ← update.head?
  let level ← sl.levelAt last 0
  match level.forward with
  | none => some (false, sl)
  | some node =>
    let elem ← sl.elemAt node
    if elem.score = score ∧ elem.member = member then
      let sl ← sl.removeNode node update
      some (true, sl)
    else some (false, sl)

/-- The loop of `RemoveRange` and `RemoveRangeByRank`: remove nodes while `inRange`
holds of the number removed so far and of the next node, and stop after `limit` if that
is positive. -/
def removeWhile (update : List (Nat × Int)) (inRange : Nat → Element M S → Bool) (limit : Int) :
    Nat → Option Nat → Nat → Skiplist M S → Option (List (Element M S) × Skiplist M S)
  | 0, _, _, _ => none
  | _ + 1, none, _, sl => some ([], sl)
  | fuel + 1, some node, removed, sl => do
    let elem ← sl.elemAt node
    if inRange removed elem then
      let level ← sl.levelAt node 0
      let sl ← sl.removeNode node update
      if limit > 0 ∧ (removed + 1 : Int) = limit then some ([elem], sl)
      else
        let (rest, sl) ← removeWhile update inRange limit fuel level.forward (removed + 1) sl
        some (elem :: rest, sl)
    else some ([], sl)

/-- The nodes from the position found on are removed as long as they are in range. -/
def removeFrom (sl : Skiplist M S) (update : List (Nat × Int))
    (inRange : Nat → Element M S → Bool) (limit : Int) :
    Option (List (Element M S) × Skiplist M S) := do
  let (last, _) ← update.head?
  let level ← sl.levelAt last 0
  removeWhile update inRange limit (sl.nodes.length + 1) level.forward 0 sl

/-- `less` and `greater` are those of the lower and the upper border. -/
def removeRange (sl : Skiplist M S) (less greater : Element M S → Bool) (limit : Int) :
    Option (List (Element M S) × Skiplist M S) := do
  let update ← sl.search fun _ next => !less next
  sl.removeFrom update (fun _ elem => greater elem) limit

/-- Ranks are 1-based, `start` included and `stop` excluded. -/
def removeRangeByRank (sl : Skiplist M S) (start stop : Int) :
    Option (List (Element M S) × Skiplist M S) := do
  let update ← sl.search fun rank _ => rank < start
  let (_, rank) ← update.head?
  sl.removeFrom update (fun removed _ => rank + 1 + removed < stop) 0

end Skiplist

end Godis
