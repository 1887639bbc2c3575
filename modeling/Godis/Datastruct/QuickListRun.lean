import Godis.Datastruct.QuickListRefine

/-!
# Scans of a QuickList and whole runs

The scanning loops are inductions on their fuel, which the number of elements
still ahead bounds.  A run of operations on a QuickList is then compared with
the same run on a plain list.
-/

namespace Godis.QuickList

variable {α : Type}

/-! ## Removal by value -/

/-- The list without its first `count` elements that satisfy `expected`. -/
def removeFirst (expected : α → Bool) : Nat → List α → List α
  | 0, elems => elems
  | _ + 1, [] => []
  | count + 1, elem :: rest =>
    if expected elem then removeFirst expected count rest
    else elem :: removeFirst expected (count + 1) rest

theorem removeFirst_nil (expected : α → Bool) (count : Nat) : removeFirst expected count [] = [] := by
  cases count <;> rfl

theorem removeFirst_sublist (expected : α → Bool) (count : Nat) (elems : List α) :
    (removeFirst expected count elems).Sublist elems := by
  induction elems generalizing count with
  | nil => rw [removeFirst_nil]
  | cons elem rest ih =>
    cases count with
    | zero => exact List.Sublist.refl _
    | succ count =>
      rw [removeFirst]
      split
      · exact (ih count).cons elem
      · exact (ih (count + 1)).cons_cons elem

theorem removeFirst_eq_filter (expected : α → Bool) (count : Nat) (elems : List α)
    (enough : elems.countP expected ≤ count) :
    removeFirst expected count elems = elems.filter fun elem => !expected elem := by
  induction elems generalizing count with
  | nil => exact removeFirst_nil expected count
  | cons elem rest ih =>
    cases matches? : expected elem with
    | true =>
      rw [List.countP_cons_of_pos matches?] at enough
      obtain ⟨count, rfl⟩ : ∃ n, count = n + 1 := ⟨count - 1, by omega⟩
      simp [removeFirst, matches?, ih count (by omega)]
    | false =>
      rw [List.countP_cons_of_neg (by simp [matches?])] at enough
      cases count with
      | zero =>
        have rest_eq := ih 0 enough
        rw [removeFirst] at rest_eq ⊢
        simp [matches?, ← rest_eq]
      | succ count => simp [removeFirst, matches?, ih (count + 1) enough]

variable {iter : Iterator} {k : Nat} {σ : Type}

theorem iterGet_eq (ql : QuickList α) (pos : Pos ql.data iter k) (below : k < (flatten ql).length) :
    ql.iterGet iter = some (flatten ql)[k] :=
  (iterGet_spec pos below).trans (List.getElem?_eq_getElem below)

theorem iterRemove_parts (ql : QuickList α) (inv : ql.Inv) (pos : Pos ql.data iter k)
    (below : k < (flatten ql).length) :
    ∃ val iter' ql', ql.iterRemove iter = some (val, iter', ql') ∧ ql'.Inv ∧
      Pos ql'.data iter' k ∧ (flatten ql').take k = (flatten ql).take k ∧
      (flatten ql').drop k = (flatten ql).drop (k + 1) := by
  obtain ⟨val, iter', ql', eq, -, flat', inv', pos'⟩ := iterRemove_spec inv pos below
  replace flat' : flatten ql' = (flatten ql).eraseIdx k := flat'
  refine ⟨val, iter', ql', eq, inv', pos', ?_, ?_⟩
  · rw [flat']
    exact List.take_eraseIdx_eq_take_of_le _ _ _ (Nat.le_refl k)
  · rw [flat', List.eraseIdx_eq_take_drop_succ]
    exact List.drop_left' (List.length_take_of_le (Nat.le_of_lt below))

theorem removeLoop_spec (expected : α → Bool) (count fuel : Nat) (ql : QuickList α) (inv : ql.Inv)
    (pos : Pos ql.data iter k) (removed : Nat) (quota : removed < count)
    (enough : (flatten ql).length - k < fuel) :
    ∃ ql', removeLoop expected (some count) fuel ql iter removed =
        some (min count (removed + ((flatten ql).drop k).countP expected), ql') ∧
      ql'.Inv ∧ flatten ql' = (flatten ql).take k ++
        removeFirst expected (count - removed) ((flatten ql).drop k) := by
  induction fuel generalizing ql iter k removed with
  | zero => omega
  | succ fuel ih =>
    rw [removeLoop, atEnd_spec pos]
    simp only [Option.bind_eq_bind, Option.bind_some]
    by_cases done : k = (flat ql.data).length
    · rw [if_pos (by simpa using done)]
      have rest : (flatten ql).drop k = [] := by rw [done]; exact List.drop_length
      refine ⟨ql, ?_, inv, ?_⟩
      · rw [rest, List.countP_nil, Nat.add_zero, Nat.min_eq_right (Nat.le_of_lt quota)]
      · rw [rest, removeFirst_nil, List.append_nil, done]
        exact List.take_length.symm
    · have below : k < (flatten ql).length := Nat.lt_of_le_of_ne pos.le_length done
      have rest : (flatten ql).drop k = (flatten ql)[k] :: (flatten ql).drop (k + 1) :=
        List.drop_eq_getElem_cons below
      obtain ⟨left, left_eq⟩ : ∃ left, count - removed = left + 1 :=
        ⟨count - removed - 1, by omega⟩
      rw [if_neg (by simpa using done), iterGet_eq ql pos below, rest, left_eq]
      simp only [Option.bind_some]
      cases matched : expected (flatten ql)[k] with
      | true =>
        obtain ⟨_, _, ql', eq, inv', pos', take', drop'⟩ :=
          iterRemove_parts ql inv pos below
        rw [if_pos rfl, eq, List.countP_cons_of_pos matched, removeFirst, if_pos matched]
        simp only [Option.bind_some, Option.some_inj]
        by_cases last : removed + 1 = count
        · obtain rfl : left = 0 := by omega
          rw [if_pos last, removeFirst]
          refine ⟨ql', ?_, inv', ?_⟩
          · rw [Nat.min_eq_left (by omega), last]
          · rw [← take', ← drop', List.take_append_drop]
        · have shorter := congrArg List.length drop'
          rw [List.length_drop, List.length_drop] at shorter
          obtain ⟨ql'', eq', inv'', flat''⟩ :=
            ih ql' inv' pos' (removed + 1) (by omega) (by omega)
          rw [if_neg last, eq', drop', Nat.add_right_comm]
          refine ⟨ql'', rfl, inv'', ?_⟩
          rw [flat'', take', drop', show count - (removed + 1) = left by omega]
      | false =>
        obtain ⟨_, eq, pos'⟩ := next_spec inv pos below
        obtain ⟨ql', eq', inv', flat'⟩ := ih ql inv pos' removed quota (by omega)
        rw [if_neg (by simp), eq, List.countP_cons_of_neg (by simp [matched]), removeFirst,
          if_neg (by simp [matched])]
        refine ⟨ql', eq', inv', ?_⟩
        rw [flat', left_eq, List.take_succ_eq_append_getElem below, List.append_assoc]
        rfl

theorem removeLoop_none (expected : α → Bool) (count fuel : Nat) (ql : QuickList α)
    (iter : Iterator) (removed : Nat) (far : removed + fuel < count) :
    removeLoop expected none fuel ql iter removed =
      removeLoop expected (some count) fuel ql iter removed := by
  induction fuel generalizing ql iter removed with
  | zero => rfl
  | succ fuel ih =>
    have notLast : ¬ removed + 1 = count := by omega
    have afterRemoval := fun ql iter => ih ql iter (removed + 1) (by omega)
    have afterStep := fun iter => ih ql iter removed (by omega)
    simp only [removeLoop, Option.some_inj, notLast, reduceCtorEq, if_false, afterRemoval,
      afterStep]

variable (ql : QuickList α)

theorem removeByVal_spec (inv : ql.Inv) (expected : α → Bool) (count : Nat)
    (positive : 1 ≤ count) :
    ∃ ql', ql.removeByVal expected count =
        some (min count ((flatten ql).countP expected), ql') ∧
      ql'.Inv ∧ flatten ql' = removeFirst expected count (flatten ql) := by
  have size_eq : ql.size = (flatten ql).length := inv.size_eq
  rw [removeByVal]
  by_cases none : ql.size = 0
  · have noElems : flatten ql = [] := List.length_eq_zero_iff.mp (by omega)
    rw [if_pos none, noElems]
    exact ⟨ql, by simp, inv, by rw [removeFirst_nil, noElems]⟩
  · rw [if_neg none]
    obtain ⟨_, found, pos⟩ := find_spec inv 0 (by omega)
    obtain ⟨ql', eq, inv', flat'⟩ := removeLoop_spec expected count (ql.size + 1) ql inv pos 0
      positive (by omega)
    rw [Nat.cast_zero] at found
    refine ⟨ql', ?_, inv', by simpa using flat'⟩
    simp [found, eq]

theorem removeAllByVal_spec (inv : ql.Inv) (some_elem : 0 < ql.size)
    (expected : α → Bool) :
    ∃ ql', ql.removeAllByVal expected = some ((flatten ql).countP expected, ql') ∧
      ql'.Inv ∧ flatten ql' = (flatten ql).filter fun elem => !expected elem := by
  have size_eq : ql.size = (flatten ql).length := inv.size_eq
  have matches_le := List.countP_le_length (p := expected) (l := flatten ql)
  obtain ⟨_, found, pos⟩ := find_spec inv 0 some_elem
  obtain ⟨ql', eq, inv', flat'⟩ := removeLoop_spec expected (ql.size + 2) (ql.size + 1) ql inv pos 0
    (by omega) (by omega)
  rw [Nat.cast_zero] at found
  refine ⟨ql', ?_, inv', ?_⟩
  · rw [removeAllByVal, found]
    simp only [Option.bind_eq_bind, Option.bind_some]
    rw [removeLoop_none expected (ql.size + 2) _ _ _ _ (by omega), eq, List.drop_zero, Nat.zero_add,
      Nat.min_eq_right (by omega)]
  · rw [flat', List.drop_zero, List.take_zero, List.nil_append,
      removeFirst_eq_filter expected _ _ (by omega)]

def ahead : Option Nat → Nat
  | none => 0
  | some k => k + 1

theorem reverseRemoveLoop_spec (expected : α → Bool) (count fuel : Nat) (ql : QuickList α)
    (inv : ql.Inv) {k : Option Nat} (pos : Back ql.data iter k) (removed : Nat)
    (quota : removed < count) (enough : ahead k < fuel) :
    ∃ ql', reverseRemoveLoop expected count fuel ql iter removed =
        some (min count (removed + ((flatten ql).take (ahead k)).countP expected), ql') ∧
      ql'.Inv ∧ flatten ql' =
        (removeFirst expected (count - removed) ((flatten ql).take (ahead k)).reverse).reverse ++
          (flatten ql).drop (ahead k) := by
  induction fuel generalizing ql iter k removed with
  | zero => omega
  | succ fuel ih =>
    rw [reverseRemoveLoop, atBegin_spec pos]
    cases pos with
    | start offset place =>
      refine ⟨ql, ?_, inv, ?_⟩
      · simp [ahead, Nat.le_of_lt quota]
      · simp [ahead, removeFirst_nil]
    | @element k pos below =>
      have below' : k < (flatten ql).length := below
      have front : (flatten ql).take (k + 1) = (flatten ql).take k ++ [(flatten ql)[k]] :=
        List.take_succ_eq_append_getElem below'
      obtain ⟨left, left_eq⟩ : ∃ left, count - removed = left + 1 :=
        ⟨count - removed - 1, by omega⟩
      have previous : ahead (if k = 0 then none else some (k - 1)) = k := by
        split <;> simp only [ahead] <;> omega
      simp only [ahead] at enough ⊢
      rw [iterGet_eq ql pos below', front, left_eq, List.reverse_concat]
      simp only [Option.isNone_some, Bool.false_eq_true, if_false, Option.bind_eq_bind,
        Option.bind_some]
      cases matched : expected (flatten ql)[k] with
      | true =>
        obtain ⟨val, iter', ql', eq, inv', pos', take', drop'⟩ :=
          iterRemove_parts ql inv pos below
        rw [if_pos rfl, eq, removeFirst, if_pos matched, List.countP_append,
          List.countP_singleton, if_pos matched]
        simp only [Option.bind_some]
        by_cases last : removed + 1 = count
        · obtain rfl : left = 0 := by omega
          rw [if_pos last, removeFirst, List.reverse_reverse]
          refine ⟨ql', ?_, inv', ?_⟩
          · rw [Nat.min_eq_left (by omega), last]
          · rw [← take', ← drop', List.take_append_drop]
        · obtain ⟨_, _, stepped, back⟩ := prev_spec inv' pos'
          obtain ⟨ql'', eq', inv'', flat''⟩ :=
            ih ql' inv' back (removed + 1) (by omega) (by omega)
          rw [previous] at eq' flat''
          rw [if_neg last, stepped]
          simp only [Option.bind_some]
          rw [eq', take', Nat.add_right_comm]
          refine ⟨ql'', rfl, inv'', ?_⟩
          rw [flat'', take', drop', show count - (removed + 1) = left by omega]
      | false =>
        obtain ⟨_, _, stepped, back⟩ := prev_spec inv pos
        obtain ⟨ql', eq', inv', flat'⟩ := ih ql inv back removed quota (by omega)
        rw [previous] at eq' flat'
        rw [if_neg (by simp), stepped, removeFirst, if_neg (by simp [matched]),
          List.countP_append, List.countP_singleton, if_neg (by simp [matched])]
        refine ⟨ql', eq', inv', ?_⟩
        rw [flat', left_eq, List.reverse_cons, List.append_assoc, List.singleton_append,
          List.drop_eq_getElem_cons below']

theorem reverseRemoveByVal_spec (inv : ql.Inv) (expected : α → Bool)
    (count : Nat) (positive : 1 ≤ count) :
    ∃ ql', ql.reverseRemoveByVal expected count =
        some (min count ((flatten ql).countP expected), ql') ∧
      ql'.Inv ∧ flatten ql' = (removeFirst expected count (flatten ql).reverse).reverse := by
  have size_eq : ql.size = (flatten ql).length := inv.size_eq
  rw [reverseRemoveByVal]
  by_cases none : ql.size = 0
  · have noElems : flatten ql = [] := List.length_eq_zero_iff.mp (by omega)
    rw [if_pos none, noElems]
    exact ⟨ql, by simp, inv, by simp [removeFirst_nil, noElems]⟩
  · rw [if_neg none]
    obtain ⟨iter, found, pos⟩ := find_spec inv (ql.size - 1) (by omega)
    rw [Nat.cast_sub (by omega), Nat.cast_one] at found
    have whole : ahead (some (ql.size - 1)) = (flatten ql).length := by
      simp only [ahead]
      omega
    have back : Back ql.data iter (some (ql.size - 1)) :=
      .element pos (by rw [← inv.size_eq]; omega)
    obtain ⟨ql', eq, inv', flat'⟩ :=
      reverseRemoveLoop_spec expected count (ql.size + 1) ql inv back 0 positive (by omega)
    rw [whole, List.take_length, List.drop_length, List.append_nil] at flat'
    rw [whole] at eq
    exact ⟨ql', by simp [found, eq], inv', flat'⟩

/-! ## Traversal -/

/-- Visiting the elements of a plain list in order, from index `i` on, until the
consumer returns false. -/
def visit {σ : Type} (consumer : σ → Nat → α → σ × Bool) : Nat → List α → σ → σ
  | _, [], state => state
  | i, elem :: rest, state =>
    let (state, goNext) := consumer state i elem
    if goNext then visit consumer (i + 1) rest state else state

theorem forEachLoop_spec (inv : ql.Inv) (consumer : σ → Nat → α → σ × Bool)
    (fuel : Nat) (pos : Pos ql.data iter k) (below : k < (flatten ql).length)
    (enough : (flatten ql).length - k ≤ fuel) (state : σ) :
    ql.forEachLoop consumer fuel iter k state =
      some (visit consumer k ((flatten ql).drop k) state) := by
  induction fuel generalizing iter k state with
  | zero => omega
  | succ fuel ih =>
    obtain ⟨_, stepped, pos'⟩ := next_spec inv pos below
    rw [forEachLoop, iterGet_eq ql pos below, stepped, List.drop_eq_getElem_cons below]
    simp only [Option.bind_eq_bind, Option.bind_some, visit]
    cases goNext : (consumer state k (flatten ql)[k]).2 with
    | false => rfl
    | true =>
      by_cases last : k + 1 < (flat ql.data).length
      · simpa [last] using ih pos' last (by omega) _
      · have noRest : (flatten ql).drop (k + 1) = [] :=
          List.drop_eq_nil_of_le (Nat.le_of_not_lt last)
        simp [last, noRest, visit]

theorem forEach_spec (inv : ql.Inv) (consumer : σ → Nat → α → σ × Bool)
    (state : σ) :
    ql.forEach consumer state = some (visit consumer 0 (flatten ql) state) := by
  have size_eq : ql.size = (flatten ql).length := inv.size_eq
  rw [forEach, length]
  by_cases none : ql.size = 0
  · have noElems : flatten ql = [] := List.length_eq_zero_iff.mp (by omega)
    rw [if_pos none, noElems, visit]
  · obtain ⟨_, found, pos⟩ := find_spec inv 0 (by omega)
    have loop := forEachLoop_spec ql inv consumer ql.size pos (by omega) (by omega) state
    rw [Nat.cast_zero] at found
    rw [if_neg none, found]
    exact loop

theorem contains_spec (inv : ql.Inv) (expected : α → Bool) :
    ql.contains expected = some ((flatten ql).any expected) := by
  rw [contains, forEach_spec ql inv]
  generalize 0 = i
  induction flatten ql generalizing i with
  | nil => rfl
  | cons elem rest ih =>
    rw [visit, List.any_cons]
    cases matched : expected elem with
    | true => rfl
    | false => simpa [matched] using ih (i + 1)

theorem rangeLoop_spec (inv : ql.Inv) (count : Nat) (pos : Pos ql.data iter k)
    (bound : k + count ≤ (flatten ql).length) :
    ql.rangeLoop count iter = some (((flatten ql).drop k).take count) := by
  induction count generalizing iter k with
  | zero => simp [rangeLoop]
  | succ count ih =>
    have below : k < (flatten ql).length := by omega
    obtain ⟨_, stepped, pos'⟩ := next_spec inv pos below
    rw [rangeLoop, iterGet_eq ql pos below, stepped, List.drop_eq_getElem_cons below,
      List.take_succ_cons]
    simp only [Option.bind_eq_bind, Option.bind_some, ih pos' (by omega)]

theorem range_spec (inv : ql.Inv) (start stop : Nat) (below : start < ql.size)
    (ordered : start ≤ stop) (upper : stop ≤ ql.size) :
    ql.range start stop = some (((flatten ql).drop start).take (stop - start)) := by
  obtain ⟨_, found, pos⟩ := find_spec inv start below
  have size_eq : ql.size = (flatten ql).length := inv.size_eq
  rw [range, length, if_neg (by omega), if_neg (by omega), found,
    show ((stop : Int) - start).toNat = stop - start by omega]
  exact rangeLoop_spec ql inv (stop - start) pos (by omega)

/-! ## Runs -/

/-- A call of the list interface.  What the consumer of `forEach` answers may
depend on everything it has been given so far. -/
inductive Op (α : Type)
  | add (val : α)
  | get (index : Int)
  | set (index : Int) (val : α)
  | insert (index : Int) (val : α)
  | remove (index : Int)
  | removeLast
  | removeAllByVal (expected : α → Bool)
  | removeByVal (expected : α → Bool) (count : Nat)
  | reverseRemoveByVal (expected : α → Bool) (count : Nat)
  | len
  | forEach (goNext : List (Nat × α) → Bool)
  | contains (expected : α → Bool)
  | range (start stop : Int)

inductive Res (α : Type)
  | done
  | value (val : α)
  | last (val : Option α)
  | count (n : Nat)
  | visited (seen : List (Nat × α))
  | found (contains : Bool)
  | slice (vals : List α)

def record (goNext : List (Nat × α) → Bool) (seen : List (Nat × α)) (i : Nat) (val : α) :
    List (Nat × α) × Bool :=
  (seen ++ [(i, val)], goNext (seen ++ [(i, val)]))

def exec (grown : Nat × Nat) (ql : QuickList α) : Op α → Option (Res α × QuickList α)
  | .add val => (ql.add val grown.1).map fun ql' => (.done, ql')
  | .get index => (ql.get index).map fun val => (.value val, ql)
  | .set index val => (ql.set index val).map fun ql' => (.done, ql')
  | .insert index val => (ql.insert index val grown).map fun ql' => (.done, ql')
  | .remove index => (ql.remove index).map fun (val, ql') => (.value val, ql')
  | .removeLast => ql.removeLast.map fun (val, ql') => (.last val, ql')
  | .removeAllByVal expected =>
    (ql.removeAllByVal expected).map fun (n, ql') => (.count n, ql')
  | .removeByVal expected count =>
    (ql.removeByVal expected count).map fun (n, ql') => (.count n, ql')
  | .reverseRemoveByVal expected count =>
    (ql.reverseRemoveByVal expected count).map fun (n, ql') => (.count n, ql')
  | .len => some (.count ql.length, ql)
  | .forEach goNext => (ql.forEach (record goNext) []).map fun seen => (.visited seen, ql)
  | .contains expected => (ql.contains expected).map fun found => (.found found, ql)
  | .range start stop => (ql.range start stop).map fun vals => (.slice vals, ql)

def listExec (elems : List α) : Op α → Option (Res α × List α)
  | .add val => some (.done, elems ++ [val])
  | .get index => elems[index.toNat]?.map fun val => (.value val, elems)
  | .set index val => some (.done, elems.set index.toNat val)
  | .insert index val => some (.done, elems.insertIdx index.toNat val)
  | .remove index => elems[index.toNat]?.map fun val => (.value val, elems.eraseIdx index.toNat)
  | .removeLast => some (.last elems.getLast?, elems.dropLast)
  | .removeAllByVal expected =>
    some (.count (elems.countP expected), elems.filter fun elem => !expected elem)
  | .removeByVal expected count =>
    some (.count (min count (elems.countP expected)), removeFirst expected count elems)
  | .reverseRemoveByVal expected count =>
    some (.count (min count (elems.countP expected)),
      (removeFirst expected count elems.reverse).reverse)
  | .len => some (.count elems.length, elems)
  | .forEach goNext => some (.visited (visit (record goNext) 0 elems []), elems)
  | .contains expected => some (.found (elems.any expected), elems)
  | .range start stop =>
    some (.slice ((elems.drop start.toNat).take (stop.toNat - start.toNat)), elems)

/-- What a call asks of its arguments when the list has `size` elements. -/
def Op.Allowed (size : Nat) : Op α → Prop
  | .get index | .set index _ | .remove index => 0 ≤ index ∧ index < size
  | .insert index _ => 0 ≤ index ∧ index ≤ size
  | .removeAllByVal _ => 0 < size
  | .removeByVal _ count | .reverseRemoveByVal _ count => 1 ≤ count
  | .range start stop => 0 ≤ start ∧ start < size ∧ start ≤ stop ∧ stop ≤ size
  | _ => True

theorem exec_spec (grown : Nat × Nat) (ql : QuickList α) (inv : ql.Inv) (op : Op α)
    (allowed : op.Allowed ql.size) :
    ∃ res ql', ql.exec grown op = some (res, ql') ∧ ql'.Inv ∧
      listExec (flatten ql) op = some (res, flatten ql') := by
  have size_eq : ql.size = (flatten ql).length := inv.size_eq
  cases op with
  | add val =>
    obtain ⟨ql', eq, inv', flat'⟩ := add_spec inv val grown.1
    exact ⟨.done, ql', by simp [exec, eq], inv', by simp [listExec, flat']⟩
  | get index =>
    obtain ⟨lower, _⟩ := allowed
    lift index to Nat using lower
    have below : index < (flatten ql).length := by omega
    have eq := get_spec inv index (by omega)
    rw [List.getElem?_eq_getElem below] at eq
    exact ⟨_, ql, by rw [exec, eq]; rfl, inv, by simp [listExec, below]⟩
  | set index val =>
    obtain ⟨lower, _⟩ := allowed
    lift index to Nat using lower
    obtain ⟨ql', eq, inv', flat'⟩ := set_spec inv index (by omega) val
    exact ⟨.done, ql', by simp [exec, eq], inv', by simp [listExec, flat']⟩
  | insert index val =>
    obtain ⟨lower, _⟩ := allowed
    lift index to Nat using lower
    obtain ⟨ql', eq, inv', flat'⟩ := insert_spec inv index (by omega) val grown
    exact ⟨.done, ql', by simp [exec, eq], inv', by simp [listExec, flat']⟩
  | remove index =>
    obtain ⟨lower, _⟩ := allowed
    lift index to Nat using lower
    obtain ⟨val, ql', eq, inv', value, flat'⟩ := remove_spec inv index (by omega)
    exact ⟨.value val, ql', by simp [exec, eq], inv', by simp [listExec, value, flat']⟩
  | removeLast =>
    obtain ⟨ql', eq, inv', flat'⟩ := removeLast_spec inv
    exact ⟨_, ql', by rw [exec, eq]; rfl, inv', by simp [listExec, flat']⟩
  | removeAllByVal expected =>
    obtain ⟨ql', eq, inv', flat'⟩ := removeAllByVal_spec ql inv allowed expected
    exact ⟨_, ql', by rw [exec, eq]; rfl, inv', by simp [listExec, flat']⟩
  | removeByVal expected count =>
    obtain ⟨ql', eq, inv', flat'⟩ := removeByVal_spec ql inv expected count allowed
    exact ⟨_, ql', by rw [exec, eq]; rfl, inv', by simp [listExec, flat']⟩
  | reverseRemoveByVal expected count =>
    obtain ⟨ql', eq, inv', flat'⟩ := reverseRemoveByVal_spec ql inv expected count allowed
    exact ⟨_, ql', by rw [exec, eq]; rfl, inv', by simp [listExec, flat']⟩
  | len => exact ⟨_, ql, rfl, inv, by rw [listExec, length, size_eq]⟩
  | forEach goNext =>
    have eq := forEach_spec ql inv (record goNext) []
    exact ⟨_, ql, by rw [exec, eq]; rfl, inv, rfl⟩
  | contains expected =>
    have eq := contains_spec ql inv expected
    exact ⟨_, ql, by rw [exec, eq]; rfl, inv, rfl⟩
  | range start stop =>
    obtain ⟨lower, _, _, _⟩ := allowed
    lift start to Nat using lower
    lift stop to Nat using by omega
    have eq := range_spec ql inv start stop (by omega) (by omega) (by omega)
    exact ⟨_, ql, by rw [exec, eq]; rfl, inv, by simp [listExec]⟩

def run (ql : QuickList α) : List (Op α × Nat × Nat) → Option (List (Res α) × QuickList α)
  | [] => some ([], ql)
  | (op, grown) :: rest => do
    let (res, ql) ← ql.exec grown op
    let (results, ql) ← run ql rest
    some (res :: results, ql)

def listRun (elems : List α) : List (Op α × Nat × Nat) → Option (List (Res α) × List α)
  | [] => some ([], elems)
  | (op, _) :: rest => do
    let (res, elems) ← listExec elems op
    let (results, elems) ← listRun elems rest
    some (res :: results, elems)

/-- Each call of a run meets its precondition on the plain list reached there. -/
def Allowed (elems : List α) : List (Op α × Nat × Nat) → Prop
  | [] => True
  | (op, _) :: rest =>
    op.Allowed elems.length ∧
      ∀ res elems', listExec elems op = some (res, elems') → Allowed elems' rest

theorem run_spec (calls : List (Op α × Nat × Nat)) (ql : QuickList α) (inv : ql.Inv)
    (allowed : Allowed (flatten ql) calls) :
    ∃ results ql', ql.run calls = some (results, ql') ∧ ql'.Inv ∧
      listRun (flatten ql) calls = some (results, flatten ql') := by
  induction calls generalizing ql with
  | nil => exact ⟨[], ql, rfl, inv, rfl⟩
  | cons call rest ih =>
    obtain ⟨op, grown⟩ := call
    obtain ⟨here, later⟩ := allowed
    obtain ⟨res, ql', eq, inv', list_eq⟩ :=
      exec_spec grown ql inv op (by rw [inv.size_eq]; exact here)
    obtain ⟨results, ql'', eq', inv'', list_eq'⟩ := ih ql' inv' (later _ _ list_eq)
    exact ⟨res :: results, ql'', by simp [run, eq, eq'], inv'', by simp [listRun, list_eq, list_eq']⟩

/-- QuickList refines a plain list: no run of allowed calls on a new list panics,
its results and the flattening of the pages are those of the plain list, no page
is empty and the size is the sum of the page lengths. -/
theorem quickList_refines_list (calls : List (Op α × Nat × Nat)) (allowed : Allowed [] calls) :
    ∃ results ql, newQuickList.run calls = some (results, ql) ∧
      listRun [] calls = some (results, flatten ql) ∧
      (∀ page ∈ ql.data, 0 < page.len) ∧ ql.size = (ql.data.map Page.len).sum := by
  obtain ⟨results, ql, eq, inv, list_eq⟩ := run_spec calls newQuickList newQuickList_inv allowed
  refine ⟨results, ql, eq, list_eq, inv.nonempty, ?_⟩
  rw [inv.size_eq, flat, List.length_flatMap]
  rfl

/-- Two elements are put in front of each other, the list is scanned from its end
and emptied. -/
def sampleCalls : List (Op Nat × Nat × Nat) :=
  [(.add 7, 0, 0), (.insert 0 5, 0, 0), (.range 0 2, 0, 0), (.reverseRemoveByVal (· == 7) 1, 0, 0),
    (.remove 0, 0, 0), (.removeLast, 0, 0)]

theorem sampleCalls_refine :
    Allowed [] sampleCalls ∧
      ∃ results ql, newQuickList.run sampleCalls = some (results, ql) ∧
        listRun [] sampleCalls = some (results, flatten ql) ∧
        (∀ page ∈ ql.data, 0 < page.len) ∧ ql.size = (ql.data.map Page.len).sum := by
  have allowed : Allowed [] sampleCalls := by
    simp [sampleCalls, Allowed, Op.Allowed, listExec, removeFirst]
  exact ⟨allowed, quickList_refines_list sampleCalls allowed⟩

end Godis.QuickList
