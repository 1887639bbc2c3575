import Mathlib.Data.List.Induction
import Mathlib.Tactic

/-!
# QuickList (`datastruct/list/quicklist.go`)

A linked list of pages.  A page is a Go slice, seen here through its elements
and its capacity: `Add` asks for the capacity, and when `append` outgrows it
the runtime picks a new one, which is an argument of every operation that
appends.  No two pages share an array: a page is cut in two by copying its
second half.

An element pointer of `container/list` is the position of its page, `none`
being the nil pointer.  An operation is `none` where the code panics; a loop
takes fuel, and running out of it is `none` as well.
-/

namespace Godis

/-- A page must hold an even number of elements, since a full one is halved. -/
def pageSize : Nat := 1024

/-- A slice of elements within an array of `cap` cells. -/
structure Page (α : Type) where
  elems : List α
  cap : Nat
  fits : elems.length ≤ cap

namespace Page

variable {α : Type}

def len (page : Page α) : Nat := page.elems.length

def make : Page α := ⟨[], pageSize, Nat.zero_le _⟩

def empty : Page α := ⟨[], 0, Nat.le_refl _⟩

/-- `append(page, vals...)` writes into the array while the capacity lasts and
otherwise moves to an array whose capacity the runtime picks. -/
def append (page : Page α) (vals : List α) (grown : Nat) : Page α :=
  ⟨page.elems ++ vals,
    if page.len + vals.length ≤ page.cap then page.cap else max grown (page.len + vals.length), by
    rw [List.length_append, len]
    split <;> omega⟩

/-- `page[:n]` keeps the capacity of the array. -/
def slice (page : Page α) (n : Nat) : Page α :=
  ⟨page.elems.take n, page.cap, Nat.le_trans (List.length_take_le' _ _) page.fits⟩

def set (page : Page α) (i : Nat) (val : α) : Page α :=
  ⟨page.elems.set i val, page.cap, by simpa using page.fits⟩

/-- `page = append(page[:i+1], page[i:]...); page[i] = val` -/
def insertAt (page : Page α) (i : Nat) (val : α) (grown : Nat) : Page α :=
  ((page.slice (i + 1)).append (page.elems.drop i) grown).set i val

/-- `append(page[:i], page[i+1:]...)`, which never outgrows the array. -/
def removeAt (page : Page α) (i : Nat) : Page α :=
  ⟨page.elems.take i ++ page.elems.drop (i + 1), page.cap, by
    have := page.fits
    simp only [List.length_append, List.length_take, List.length_drop]
    omega⟩

end Page

/-- `QuickList` is a linked list of pages. -/
structure QuickList (α : Type) where
  data : List (Page α)
  size : Nat

/-- An iterator moves between `-1` and the length of the list. -/
structure Iterator where
  node : Option Nat
  offset : Int

namespace QuickList

variable {α : Type}

def newQuickList : QuickList α := ⟨[], 0⟩

def front (ql : QuickList α) : Option Nat :=
  if ql.data.length = 0 then none else some 0

def back (ql : QuickList α) : Option Nat :=
  if ql.data.length = 0 then none else some (ql.data.length - 1)

def add (ql : QuickList α) (val : α) (grown : Nat) : Option (QuickList α) :=
  match ql.data.getLast? with
  | none => some ⟨[Page.make.append [val] grown], ql.size + 1⟩
  | some backPage =>
    if backPage.len = backPage.cap then -- full page, create new page
      some ⟨ql.data ++ [Page.make.append [val] grown], ql.size + 1⟩
    else
      some ⟨ql.data.dropLast ++ [backPage.append [val] grown], ql.size + 1⟩

/-- The loop of `find` from the front: the page holding `index` and the index
of its first element. -/
def findFront (index : Int) : List (Page α) → Nat → Int → Option (Nat × Int)
  | [], _, _ => none
  | page :: rest, node, pageBeg =>
    if pageBeg + page.len > index then some (node, pageBeg)
    else findFront index rest (node + 1) (pageBeg + page.len)

/-- The loop of `find` from the back, over the pages in reverse order. -/
def findBack (index : Int) : List (Page α) → Nat → Int → Option (Nat × Int)
  | [], _, _ => none
  | page :: rest, node, pageBeg =>
    if pageBeg - page.len ≤ index then some (node, pageBeg - page.len)
    else findBack index rest (node - 1) (pageBeg - page.len)

def find (ql : QuickList α) (index : Int) : Option Iterator :=
  if index < 0 ∨ index ≥ ql.size then none
  else
    (if index < (ql.size / 2 : Nat) then findFront index ql.data 0 0
      else findBack index ql.data.reverse (ql.data.length - 1) ql.size).map
      fun (node, pageBeg) => ⟨some node, index - pageBeg⟩

def page (ql : QuickList α) (iter : Iterator) : Option (Page α) :=
  iter.node.bind fun node => ql.data[node]?

def iterGet (ql : QuickList α) (iter : Iterator) : Option α := do
  let page ← ql.page iter
  if iter.offset < 0 then none else page.elems[iter.offset.toNat]?

/-- `iter.next()` returns whether the iterator is in bound. -/
def next (ql : QuickList α) (iter : Iterator) : Option (Bool × Iterator) := do
  let page ← ql.page iter
  if iter.offset < (page.len : Int) - 1 then some (true, { iter with offset := iter.offset + 1 })
  else if iter.node = ql.back then -- already at last node
    some (false, { iter with offset := page.len })
  else some (true, ⟨iter.node.map (· + 1), 0⟩)

/-- `iter.prev()` returns whether the iterator is in bound. -/
def prev (ql : QuickList α) (iter : Iterator) : Option (Bool × Iterator) :=
  if iter.offset > 0 then some (true, { iter with offset := iter.offset - 1 })
  else if iter.node = ql.front then -- already at first page
    some (false, { iter with offset := -1 })
  else do
    let node ← iter.node
    let prevPage ← if node = 0 then none else ql.data[node - 1]?
    some (true, ⟨some (node - 1), (prevPage.len : Int) - 1⟩)

def atEnd (ql : QuickList α) (iter : Iterator) : Option Bool :=
  if ql.data.length = 0 then some true
  else if iter.node ≠ ql.back then some false
  else (ql.page iter).map fun page => iter.offset = page.len

def atBegin (ql : QuickList α) (iter : Iterator) : Bool :=
  if ql.data.length = 0 then true
  else if iter.node ≠ ql.front then false
  else iter.offset = -1

def get (ql : QuickList α) (index : Int) : Option α := do
  let iter ← ql.find index
  ql.iterGet iter

def set (ql : QuickList α) (index : Int) (val : α) : Option (QuickList α) := do
  let iter ← ql.find index
  let node ← iter.node
  let page ← ql.page iter
  some { ql with data := ql.data.set node (page.set iter.offset.toNat val) }

/-- `grown` gives the capacities picked by the two `append` calls. -/
def insert (ql : QuickList α) (index : Int) (val : α) (grown : Nat × Nat) :
    Option (QuickList α) :=
  if index = ql.size then ql.add val grown.1
  else do
    let iter ← ql.find index
    let node ← iter.node
    let page ← ql.page iter
    let offset := iter.offset.toNat
    if page.len < pageSize then -- insert into not full page
      some ⟨ql.data.set node (page.insertAt offset val grown.1), ql.size + 1⟩
    else
      -- a full page is split into two half pages
      let nextPage := Page.empty.append (page.elems.drop (pageSize / 2)) grown.1
      let page := page.slice (pageSize / 2)
      if offset < page.len then
        some ⟨ql.data.take node ++ page.insertAt offset val grown.2 :: nextPage ::
          ql.data.drop (node + 1), ql.size + 1⟩
      else
        some ⟨ql.data.take node ++
          page :: nextPage.insertAt (offset - pageSize / 2) val grown.2 ::
          ql.data.drop (node + 1), ql.size + 1⟩

/-- `iter.remove()` removes the element under the iterator and moves the
iterator to the element behind it. -/
def iterRemove (ql : QuickList α) (iter : Iterator) : Option (α × Iterator × QuickList α) := do
  let node ← iter.node
  let page ← ql.page iter
  let val ← ql.iterGet iter
  let page := page.removeAt iter.offset.toNat
  if page.len > 0 then
    let ql' := ⟨ql.data.set node page, ql.size - 1⟩
    if iter.offset = page.len ∧ iter.node ≠ ql.back then
      -- removed page[-1], node should move to next page
      some (val, ⟨some (node + 1), 0⟩, ql')
    else some (val, iter, ql')
  else
    let ql' := ⟨ql.data.eraseIdx node, ql.size - 1⟩
    if iter.node = ql.back then
      -- move iter so iter.atEnd() can be true
      match if node = 0 then none else ql.data[node - 1]? with
      | some prevPage => some (val, ⟨some (node - 1), prevPage.len⟩, ql')
      | none => some (val, ⟨none, 0⟩, ql') -- removed last element, ql is empty now
    else some (val, ⟨some node, 0⟩, ql')

def remove (ql : QuickList α) (index : Int) : Option (α × QuickList α) := do
  let iter ← ql.find index
  let (val, _, ql') ← ql.iterRemove iter
  some (val, ql')

def length (ql : QuickList α) : Nat := ql.size

def removeLast (ql : QuickList α) : Option (Option α × QuickList α) :=
  if ql.length = 0 then some (none, ql)
  else do
    let lastPage ← ql.data.getLast?
    let val ← lastPage.elems.getLast?
    if lastPage.len = 1 then some (some val, ⟨ql.data.dropLast, ql.size - 1⟩)
    else
      some (some val,
        ⟨ql.data.dropLast ++ [lastPage.slice (lastPage.len - 1)], ql.size - 1⟩)

/-- The loop of `RemoveAllByVal` and `RemoveByVal`; `limit = none` removes every
match. -/
def removeLoop (expected : α → Bool) (limit : Option Nat) :
    Nat → QuickList α → Iterator → Nat → Option (Nat × QuickList α)
  | 0, _, _, _ => none
  | fuel + 1, ql, iter, removed => do
    if ← ql.atEnd iter then some (removed, ql)
    else if expected (← ql.iterGet iter) then
      let (_, iter, ql) ← ql.iterRemove iter
      if some (removed + 1) = limit then some (removed + 1, ql)
      else removeLoop expected limit fuel ql iter (removed + 1)
    else
      let (_, iter) ← ql.next iter
      removeLoop expected limit fuel ql iter removed

def removeAllByVal (ql : QuickList α) (expected : α → Bool) : Option (Nat × QuickList α) := do
  let iter ← ql.find 0
  removeLoop expected none (ql.size + 1) ql iter 0

/-- Remove at most `count` values, scanning from left to right. -/
def removeByVal (ql : QuickList α) (expected : α → Bool) (count : Nat) :
    Option (Nat × QuickList α) :=
  if ql.size = 0 then some (0, ql)
  else do
    let iter ← ql.find 0
    removeLoop expected (some count) (ql.size + 1) ql iter 0

/-- The loop of `ReverseRemoveByVal`: the iterator moves back after a removal
as well. -/
def reverseRemoveLoop (expected : α → Bool) (count : Nat) :
    Nat → QuickList α → Iterator → Nat → Option (Nat × QuickList α)
  | 0, _, _, _ => none
  | fuel + 1, ql, iter, removed => do
    if ql.atBegin iter then some (removed, ql)
    else if expected (← ql.iterGet iter) then
      let (_, iter, ql) ← ql.iterRemove iter
      if removed + 1 = count then some (removed + 1, ql)
      else
        let (_, iter) ← ql.prev iter
        reverseRemoveLoop expected count fuel ql iter (removed + 1)
    else
      let (_, iter) ← ql.prev iter
      reverseRemoveLoop expected count fuel ql iter removed

def reverseRemoveByVal (ql : QuickList α) (expected : α → Bool) (count : Nat) :
    Option (Nat × QuickList α) :=
  if ql.size = 0 then some (0, ql)
  else do
    let iter ← ql.find ((ql.size : Int) - 1)
    reverseRemoveLoop expected count (ql.size + 1) ql iter 0

/-- The loop of `ForEach`; the consumer is a closure, so it carries a state. -/
def forEachLoop {σ : Type} (ql : QuickList α) (consumer : σ → Nat → α → σ × Bool) :
    Nat → Iterator → Nat → σ → Option σ
  | 0, _, _, _ => none
  | fuel + 1, iter, i, state => do
    let (state, goNext) := consumer state i (← ql.iterGet iter)
    if !goNext then some state
    else
      let (inBound, iter) ← ql.next iter
      if !inBound then some state
      else forEachLoop ql consumer fuel iter (i + 1) state

/-- Visit each element until the consumer returns false. -/
def forEach {σ : Type} (ql : QuickList α) (consumer : σ → Nat → α → σ × Bool) (state : σ) :
    Option σ :=
  if ql.length = 0 then some state
  else do
    let iter ← ql.find 0
    forEachLoop ql consumer ql.size iter 0 state

def contains (ql : QuickList α) (expected : α → Bool) : Option Bool :=
  ql.forEach
    (fun contains _ actual => if expected actual then (true, false) else (contains, true)) false

/-- The loop of `Range`, which calls `next` after the last element as well. -/
def rangeLoop (ql : QuickList α) : Nat → Iterator → Option (List α)
  | 0, _ => some []
  | count + 1, iter => do
    let val ← ql.iterGet iter
    let (_, iter) ← ql.next iter
    let rest ← rangeLoop ql count iter
    some (val :: rest)

/-- Elements whose index lies within `[start, stop)`. -/
def range (ql : QuickList α) (start stop : Int) : Option (List α) :=
  if start < 0 ∨ start ≥ ql.length then none
  else if stop < start ∨ stop > ql.length then none
  else do
    let iter ← ql.find start
    rangeLoop ql (stop - start).toNat iter

end QuickList

end Godis
