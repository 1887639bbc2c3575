import Godis.Datastruct.QuickList

/-!
# QuickList refines a plain list

The iterator is related to the index it stands at (`Pos`): inside a page, just
behind the last page, or nowhere in an empty list.  Every movement and every
removal is described once in terms of that index, and the loops of the list
operations are then inductions over the remaining elements.
-/

namespace Godis.QuickList

variable {α : Type}

def flat (pages : List (Page α)) : List α := pages.flatMap Page.elems

@[simp] theorem flat_nil : flat ([] : List (Page α)) = [] := rfl

@[simp] theorem flat_cons (page : Page α) (rest : List (Page α)) :
    flat (page :: rest) = page.elems ++ flat rest := rfl

@[simp] theorem flat_append (first second : List (Page α)) :
    flat (first ++ second) = flat first ++ flat second := by
  simp [flat]

def flatten (ql : QuickList α) : List α := flat ql.data

/-- Pages are never empty and the size counts the elements of all pages. -/
structure Inv (ql : QuickList α) : Prop where
  nonempty : ∀ page ∈ ql.data, 0 < page.len
  size_eq : ql.size = (flat ql.data).length

/-- `iter` stands at index `k` of the pages `data`. -/
inductive Pos (data : List (Page α)) : Iterator → Nat → Prop
  | inside (before : List (Page α)) (page : Page α) (after : List (Page α)) (offset : Nat) :
      data = before ++ page :: after → offset < page.len →
      Pos data ⟨some before.length, offset⟩ ((flat before).length + offset)
  | behind (before : List (Page α)) (page : Page α) :
      data = before ++ [page] → Pos data ⟨some before.length, page.len⟩ (flat data).length
  | empty : data = [] → Pos data ⟨none, 0⟩ 0

variable {ql : QuickList α} {data after before : List (Page α)} {page : Page α} {iter : Iterator}
  {k size : Nat}

theorem Pos.le_length (pos : Pos data iter k) : k ≤ (flat data).length := by
  cases pos with
  | inside before page after offset split bound =>
    subst split
    simp only [flat_append, flat_cons, List.length_append]
    simp only [Page.len] at bound
    omega
  | behind => exact Nat.le_refl _
  | empty => exact Nat.zero_le _

theorem Pos.inside_of_lt (pos : Pos data iter k) (below : k < (flat data).length) :
    ∃ before page after offset, data = before ++ page :: after ∧ offset < page.len ∧
      iter = ⟨some before.length, (offset : Nat)⟩ ∧ k = (flat before).length + offset := by
  cases pos with
  | inside before page after offset split bound =>
    exact ⟨before, page, after, offset, split, bound, rfl, rfl⟩
  | behind => omega
  | empty none => simp [none] at below

theorem Pos.of_inside (offset : Nat) (split : data = before ++ page :: after)
    (bound : offset < page.len) (at_iter : iter = ⟨some before.length, offset⟩)
    (index : k = (flat before).length + offset) :
    Pos data iter k := by
  subst at_iter index
  exact .inside before page after offset split bound

theorem Pos.of_behind (split : data = before ++ [page])
    (at_iter : iter = ⟨some before.length, page.len⟩) (index : k = (flat data).length) :
    Pos data iter k := by
  subst at_iter index
  exact .behind before page split

theorem length_of_split (split : data = before ++ page :: after) :
    (flat data).length = (flat before).length + page.len + (flat after).length := by
  simp [split, Page.len, Nat.add_assoc]

/-! ## Lookup -/

theorem findFront_spec (index : Nat) (pages before : List (Page α)) (pageBeg : Nat)
    (lower : pageBeg ≤ index) (upper : index < pageBeg + (flat pages).length) :
    ∃ mid page after, pages = mid ++ page :: after ∧
      findFront index pages before.length pageBeg =
        some (before.length + mid.length, (pageBeg : Int) + (flat mid).length) ∧
      pageBeg + (flat mid).length ≤ index ∧
      index < pageBeg + (flat mid).length + page.len := by
  induction pages generalizing before pageBeg with
  | nil => simp at upper; omega
  | cons page rest ih =>
    by_cases here : index < pageBeg + page.len
    · refine ⟨[], page, rest, rfl, ?_, by simpa using lower, by simpa using here⟩
      have : (pageBeg : Int) + page.len > index := by omega
      simp [findFront, this]
    · have upper' : index < (pageBeg + page.len) + (flat rest).length := by
        simpa [Page.len, Nat.add_assoc] using upper
      obtain ⟨mid, found, after, split, eq, low, high⟩ :=
        ih (before ++ [page]) (pageBeg + page.len) (by omega) upper'
      refine ⟨page :: mid, found, after, by simp [split], ?_, ?_, ?_⟩
      · have : ¬ ((pageBeg : Int) + page.len > index) := by omega
        simp only [findFront, this, if_false]
        rw [List.length_append, List.length_singleton, Nat.cast_add] at eq
        rw [eq, flat_cons, List.length_append, List.length_cons, ← Page.len]
        push_cast
        congr 2 <;> ring
      · simp only [flat_cons, List.length_append, Page.len] at low ⊢
        omega
      · simp only [flat_cons, List.length_append, Page.len] at high ⊢
        omega

theorem findBack_spec {index : Nat} {pages : List (Page α)} (upper : index < (flat pages).length) :
    ∃ before page after, pages = before ++ page :: after ∧
      findBack index pages.reverse (pages.length - 1) (flat pages).length =
        some (before.length, ((flat before).length : Int)) ∧
      (flat before).length ≤ index ∧ index < (flat before).length + page.len := by
  induction pages using List.reverseRecOn with
  | nil => simp at upper
  | append_singleton init page ih =>
    have len : (flat (init ++ [page])).length = (flat init).length + page.len := by
      simp [Page.len]
    rw [len] at upper ⊢
    simp only [List.reverse_append, List.reverse_singleton, List.singleton_append,
      List.length_append, List.length_singleton, Nat.add_sub_cancel, findBack]
    by_cases here : (flat init).length ≤ index
    · refine ⟨init, page, [], rfl, ?_, here, upper⟩
      have : ((flat init).length + page.len : Nat) - (page.len : Int) ≤ index := by omega
      simp only [this, if_true]
      congr 2
      omega
    · obtain ⟨before, found, after, split, eq, low, high⟩ := ih (by omega)
      refine ⟨before, found, after ++ [page], by simp [split], ?_, low, high⟩
      have : ¬ (((flat init).length + page.len : Nat) - (page.len : Int) ≤ index) := by omega
      simp only [this, if_false]
      rw [← eq]
      congr 1
      omega

theorem find_spec (inv : ql.Inv) (index : Nat) (below : index < ql.size) :
    ∃ iter, ql.find index = some iter ∧ Pos ql.data iter index := by
  have upper : index < (flat ql.data).length := inv.size_eq ▸ below
  have inRange : ¬ ((index : Int) < 0 ∨ (index : Int) ≥ ql.size) := by omega
  simp only [find, inRange, if_false]
  by_cases half : (index : Int) < (ql.size / 2 : Nat)
  · obtain ⟨mid, _, _, split, eq, low, high⟩ :=
      findFront_spec index ql.data [] 0 (Nat.zero_le _) (by simpa using upper)
    simp only [List.length_nil, Nat.cast_zero, zero_add] at eq low high
    rw [if_pos half, eq]
    refine ⟨_, rfl, .of_inside (index - (flat mid).length) split (by omega) ?_ (by omega)⟩
    rw [Nat.cast_sub low]
  · obtain ⟨before, _, _, split, eq, low, _⟩ :=
      findBack_spec upper
    rw [if_neg half, inv.size_eq, eq]
    refine ⟨_, rfl, .of_inside (index - (flat before).length) split (by omega) ?_ (by omega)⟩
    rw [Nat.cast_sub low]

variable {i grown : Nat} {vals : List α}

theorem page_of_split (split : ql.data = before ++ page :: after) {offset : Int} :
    ql.page ⟨some before.length, offset⟩ = some page := by
  simp [QuickList.page, split]

theorem iterGet_spec (pos : Pos ql.data iter k) (below : k < (flat ql.data).length) :
    ql.iterGet iter = (flat ql.data)[k]? := by
  obtain ⟨_, _, _, _, split, bound, rfl, rfl⟩ := pos.inside_of_lt below
  simp only [Page.len] at bound
  simp [iterGet, page_of_split split, split, List.getElem?_append_right,
    List.getElem?_append_left, bound]

/-! ## Movement -/

theorem back_of_split (split : ql.data = before ++ page :: after) :
    (some before.length = ql.back) ↔ after = [] := by
  simp only [back, split, List.length_append, List.length_cons]
  rw [if_neg (by omega), Option.some_inj]
  constructor
  · intro eq
    exact List.length_eq_zero_iff.mp (by omega)
  · intro eq
    subst eq
    simp

theorem front_of_split (split : ql.data = before ++ page :: after) :
    (some before.length = ql.front) ↔ before = [] := by
  simp only [front, split, List.length_append, List.length_cons]
  rw [if_neg (by omega), Option.some_inj]
  exact List.length_eq_zero_iff

theorem next_spec (inv : ql.Inv) (pos : Pos ql.data iter k) (below : k < (flat ql.data).length) :
    ∃ iter', ql.next iter = some (decide (k + 1 < (flat ql.data).length), iter') ∧
      Pos ql.data iter' (k + 1) := by
  obtain ⟨before, page, after, offset, split, _, rfl, rfl⟩ := pos.inside_of_lt below
  simp only [next, page_of_split split, Option.bind_eq_bind, Option.bind_some]
  have total := length_of_split split
  by_cases last : offset + 1 < page.len
  · rw [if_pos (by omega), decide_eq_true (by omega)]
    exact ⟨_, rfl, .of_inside (offset + 1) split last rfl rfl⟩
  · rw [if_neg (by omega)]
    cases after with
    | nil =>
      simp only [flat_nil, List.length_nil] at total
      rw [if_pos ((back_of_split split).mpr rfl), decide_eq_false (by omega)]
      exact ⟨_, rfl, .of_behind split rfl (by omega)⟩
    | cons nextPage rest =>
      have split' : ql.data = (before ++ [page]) ++ nextPage :: rest := by simp [split]
      have filled : 0 < nextPage.len := inv.nonempty nextPage (by simp [split])
      have total' := length_of_split split'
      have grown : (flat (before ++ [page])).length = (flat before).length + page.len := by
        simp [Page.len]
      rw [if_neg (fun eq => by simpa using (back_of_split split).mp eq),
        decide_eq_true (by omega)]
      exact ⟨_, rfl, .of_inside 0 split' filled (by simp) (by omega)⟩

theorem atEnd_spec (pos : Pos ql.data iter k) :
    ql.atEnd iter = some (decide (k = (flat ql.data).length)) := by
  cases pos with
  | inside before page after offset split bound =>
    have total := length_of_split split
    rw [atEnd, if_neg (by simp [split]), decide_eq_false (by omega)]
    by_cases last : some before.length = ql.back
    · rw [if_neg (by simpa using last), page_of_split split]
      have ahead : ¬ (offset : Int) = page.len := by omega
      rw [Option.map_some, decide_eq_false ahead]
    · rw [if_pos last]
  | behind before page split =>
    have last := (back_of_split split).mpr rfl
    rw [atEnd, if_neg (by simp [split]), if_neg (by simpa using last), page_of_split split]
    simp
  | empty none => simp [atEnd, none]

inductive Back (data : List (Page α)) : Iterator → Option Nat → Prop
  | element {iter : Iterator} {k : Nat} : Pos data iter k → k < (flat data).length →
      Back data iter (some k)
  | start {iter : Iterator} : iter.offset = -1 → data = [] ∨ iter.node = some 0 →
      Back data iter none

theorem prev_spec (inv : ql.Inv) (pos : Pos ql.data iter k) :
    ∃ inBound iter', ql.prev iter = some (inBound, iter') ∧
      Back ql.data iter' (if k = 0 then none else some (k - 1)) := by
  cases pos with
  | inside before page after offset split bound =>
    have total := length_of_split split
    cases offset with
    | zero =>
      rw [prev, if_neg (by simp)]
      cases before using List.reverseRecOn with
      | nil =>
        rw [if_pos ((front_of_split split).mpr rfl)]
        exact ⟨_, _, rfl, .start rfl (.inr rfl)⟩
      | append_singleton init last =>
        have split' : ql.data = init ++ last :: page :: after := by simp [split]
        have filled : 0 < last.len := inv.nonempty last (by simp [split])
        have grown : (flat (init ++ [last])).length = (flat init).length + last.len := by
          simp [Page.len]
        rw [if_neg (fun eq => by simpa using (front_of_split split).mp eq),
          if_neg (by omega)]
        have found : ql.data[init.length]? = some last := by simp [split']
        simp only [List.length_append, List.length_singleton, Option.bind_eq_bind,
          Option.bind_some, Nat.add_one_ne_zero, if_false, Nat.add_sub_cancel, found]
        refine ⟨_, _, rfl, .element (.of_inside (last.len - 1) split' ?_ ?_ ?_) ?_⟩
        · omega
        · rw [Nat.cast_sub filled, Nat.cast_one]
        · omega
        · omega
    | succ offset =>
      rw [prev, if_pos (by simp)]
      refine ⟨_, _, rfl, .element (.of_inside offset split (by omega) ?_ (by omega)) (by omega)⟩
      simp
  | behind before page split =>
    have filled : 0 < page.len := inv.nonempty page (by simp [split])
    have total := length_of_split split
    simp only [flat_nil, List.length_nil] at total
    rw [prev, if_pos (by simpa using filled), if_neg (by omega)]
    refine ⟨_, _, rfl, .element (.of_inside (page.len - 1) split ?_ ?_ ?_) ?_⟩
    · omega
    · rw [Nat.cast_sub filled, Nat.cast_one]
    · omega
    · omega
  | empty none =>
    rw [prev, if_neg (by simp), if_pos (by simp [front, none])]
    exact ⟨_, _, rfl, .start rfl (.inl none)⟩

theorem atBegin_spec {k : Option Nat} (pos : Back ql.data iter k) : ql.atBegin iter = k.isNone := by
  cases pos with
  | element pos below =>
    obtain ⟨_, _, _, offset, split, _, rfl, rfl⟩ := pos.inside_of_lt below
    have ahead : ¬ (offset : Int) = -1 := by omega
    simp [atBegin, split, ahead]
  | start offset place =>
    rcases place with none | first
    · simp [atBegin, none]
    · simp [atBegin, front, first, offset]

/-! ## Removal under the iterator -/

theorem flat_eraseIdx {offset : Nat} (bound : offset < page.len) :
    (flat (before ++ page :: after)).eraseIdx ((flat before).length + offset) =
      flat before ++ page.elems.eraseIdx offset ++ flat after := by
  rw [flat_append, flat_cons, List.eraseIdx_append_of_length_le (Nat.le_add_right _ _),
    Nat.add_sub_cancel_left, List.eraseIdx_append_of_lt_length bound, List.append_assoc]

theorem removeAt_elems : (page.removeAt i).elems = page.elems.eraseIdx i := by
  rw [Page.removeAt, List.eraseIdx_eq_take_drop_succ]

theorem Inv.of_parts (nonempty : ∀ page ∈ data, 0 < page.len) (size_eq : size = (flat data).length) :
    Inv ⟨data, size⟩ := ⟨nonempty, size_eq⟩

theorem Inv.splice {ql : QuickList α} (inv : ql.Inv) (split : ql.data = before ++ page :: after)
    (mid : List (Page α)) (filled : ∀ new ∈ mid, 0 < new.len)
    (size_eq : size = (flat (before ++ mid ++ after)).length) :
    Inv ⟨before ++ mid ++ after, size⟩ := by
  refine .of_parts ?_ size_eq
  intro other mem
  rcases List.mem_append.mp mem with mem | mem
  · rcases List.mem_append.mp mem with mem | mem
    · exact inv.nonempty other (by simp [split, mem])
    · exact filled other mem
  · exact inv.nonempty other (by simp [split, mem])

theorem iterRemove_spec (inv : ql.Inv) (pos : Pos ql.data iter k)
    (below : k < (flat ql.data).length) :
    ∃ val iter' ql', ql.iterRemove iter = some (val, iter', ql') ∧
      (flat ql.data)[k]? = some val ∧ flat ql'.data = (flat ql.data).eraseIdx k ∧
      ql'.Inv ∧ Pos ql'.data iter' k := by
  have value := iterGet_spec pos below
  rw [List.getElem?_eq_getElem below] at value ⊢
  have shorter := List.length_eraseIdx_of_lt below
  rw [← inv.size_eq] at shorter
  obtain ⟨before, page, after, offset, split, bound, rfl, rfl⟩ := pos.inside_of_lt below
  have erased : (flat ql.data).eraseIdx ((flat before).length + offset) =
      flat before ++ (page.removeAt offset).elems ++ flat after := by
    rw [split, flat_eraseIdx bound, removeAt_elems]
  have removedLen : (page.removeAt offset).len = page.len - 1 := by
    rw [Page.len, removeAt_elems, List.length_eraseIdx_of_lt bound, Page.len]
  have others : ∀ other ∈ before ++ after, 0 < other.len := by
    intro other mem
    refine inv.nonempty other ?_
    rw [split]
    rcases List.mem_append.mp mem with mem | mem <;> simp [mem]
  rw [erased] at shorter ⊢
  simp only [iterRemove, page_of_split split, value, Option.bind_eq_bind, Option.bind_some,
    Int.toNat_natCast]
  generalize page.removeAt offset = removed at *
  by_cases filled : removed.len > 0
  · have data' : ql.data.set before.length removed = before ++ removed :: after := by
      simp [split]
    have inv' : Inv ⟨before ++ removed :: after, ql.size - 1⟩ := by
      have flat' : ql.size - 1 = (flat (before ++ [removed] ++ after)).length := by
        simpa using shorter.symm
      simpa using inv.splice split [removed] (by simpa using filled) flat'
    rw [if_pos filled, data']
    by_cases moves : (offset : Int) = removed.len ∧ some before.length ≠ ql.back
    · rw [if_pos moves]
      refine ⟨_, _, _, rfl, rfl, by simp, inv', ?_⟩
      cases after with
      | nil => exact absurd ((back_of_split split).mpr rfl) moves.2
      | cons nextPage rest =>
        have grown : (flat (before ++ [removed])).length = (flat before).length + removed.len := by
          simp [Page.len]
        have split' : before ++ removed :: nextPage :: rest =
            (before ++ [removed]) ++ nextPage :: rest := by simp
        exact .of_inside 0 split' (others nextPage (by simp)) (by simp) (by omega)
    · rw [if_neg moves]
      refine ⟨_, _, _, rfl, rfl, by simp, inv', ?_⟩
      by_cases last : offset < removed.len
      · exact .of_inside offset rfl last rfl rfl
      · have atLast : some before.length = ql.back := by
          by_contra other
          exact moves ⟨by omega, other⟩
        rw [(back_of_split split).mp atLast]
        refine .of_behind rfl ?_ ?_
        · rw [show offset = removed.len by omega]
        · simp only [flat_append, flat_cons, flat_nil, List.append_nil, List.length_append]
          rw [← Page.len]
          omega
  · have none : removed.elems = [] := List.length_eq_zero_iff.mp (by rw [← Page.len]; omega)
    have data' : ql.data.eraseIdx before.length = before ++ after := by
      rw [split, List.eraseIdx_append_of_length_le (Nat.le_refl _)]
      simp
    have inv' : Inv ⟨before ++ after, ql.size - 1⟩ :=
      .of_parts others (by simpa [none] using shorter.symm)
    obtain rfl : offset = 0 := by omega
    rw [if_neg filled, data']
    by_cases atLast : some before.length = ql.back
    · obtain rfl := (back_of_split split).mp atLast
      rw [if_pos atLast]
      cases before using List.reverseRecOn with
      | nil => exact ⟨_, _, _, rfl, rfl, by simp [none], inv', .empty rfl⟩
      | append_singleton init last =>
        have found : ql.data[init.length]? = some last := by simp [split]
        simp only [List.length_append, List.length_singleton, Nat.add_one_ne_zero, if_false,
          Nat.add_sub_cancel, found]
        exact ⟨_, _, _, rfl, rfl, by simp [none], inv', .of_behind (by simp) rfl (by simp)⟩
    · rw [if_neg atLast]
      cases after with
      | nil => exact absurd ((back_of_split split).mpr rfl) atLast
      | cons nextPage rest =>
        exact ⟨_, _, _, rfl, rfl, by simp [none], inv',
          .of_inside 0 rfl (others nextPage (by simp)) rfl rfl⟩

/-! ## Operations -/

theorem newQuickList_inv : (newQuickList : QuickList α).Inv :=
  .of_parts (by simp) rfl

theorem append_elems : (page.append vals grown).elems = page.elems ++ vals := rfl

theorem append_len : (page.append vals grown).len = page.len + vals.length := by
  rw [Page.len, append_elems, List.length_append, Page.len]

variable (first second : List α)

theorem insertIdx_append_left (i : Nat) (val : α)
    (bound : i ≤ first.length) :
    (first ++ second).insertIdx i val = first.insertIdx i val ++ second := by
  induction first generalizing i with
  | nil =>
    obtain rfl : i = 0 := by simpa using bound
    simp
  | cons head tail ih =>
    cases i with
    | zero => simp
    | succ i => simpa using ih i (by simpa using bound)

theorem insertIdx_append_right (i : Nat) (val : α) :
    (first ++ second).insertIdx (first.length + i) val = first ++ second.insertIdx i val := by
  induction first with
  | nil => simp
  | cons head tail ih =>
    rw [List.length_cons, Nat.add_right_comm]
    simpa using ih

theorem set_take_append_drop (elems : List α) (i : Nat) (val : α) (bound : i < elems.length) :
    (elems.take (i + 1) ++ elems.drop i).set i val = elems.insertIdx i val := by
  induction elems generalizing i with
  | nil => simp at bound
  | cons head tail ih =>
    cases i with
    | zero => simp
    | succ i => simpa using ih i (by simpa using bound)

theorem insertAt_elems (page : Page α) (i : Nat) (val : α) (grown : Nat) (bound : i < page.len) :
    (page.insertAt i val grown).elems = page.elems.insertIdx i val :=
  set_take_append_drop page.elems i val bound

theorem insertAt_len {val : α} (bound : i < page.len) :
    (page.insertAt i val grown).len = page.len + 1 := by
  rw [Page.len, insertAt_elems page i val grown bound,
    List.length_insertIdx_of_le_length (Nat.le_of_lt bound), Page.len]

theorem add_spec (inv : ql.Inv) (val : α) (grown : Nat) :
    ∃ ql', ql.add val grown = some ql' ∧ ql'.Inv ∧ flatten ql' = flatten ql ++ [val] := by
  have added : ∀ data : List (Page α), (∀ page ∈ data, 0 < page.len) →
      flat data = flatten ql ++ [val] → Inv ⟨data, ql.size + 1⟩ := by
    intro data nonempty flat'
    exact .of_parts nonempty (by rw [flat', inv.size_eq, List.length_append]; rfl)
  have fresh : ∀ page ∈ ql.data ++ [Page.make.append [val] grown], 0 < page.len := by
    intro page mem
    rcases List.mem_append.mp mem with mem | mem
    · exact inv.nonempty page mem
    · obtain rfl := List.mem_singleton.mp mem
      simp [append_len]
  have flat_fresh : flat (ql.data ++ [Page.make.append [val] grown]) = flatten ql ++ [val] := by
    simp [flatten, append_elems, Page.make]
  rw [add]
  cases backPage : ql.data.getLast? with
  | none =>
    obtain none := List.getLast?_eq_none_iff.mp backPage
    rw [none] at fresh flat_fresh
    exact ⟨_, rfl, added _ fresh flat_fresh, flat_fresh⟩
  | some last =>
    obtain ⟨init, split⟩ := List.getLast?_eq_some_iff.mp backPage
    by_cases full : last.len = last.cap
    · simp only [if_pos full]
      exact ⟨_, rfl, added _ fresh flat_fresh, flat_fresh⟩
    · simp only [if_neg full, split, List.dropLast_concat]
      have flat' : flat (init ++ [last.append [val] grown]) = flatten ql ++ [val] := by
        simp [flatten, split, append_elems]
      refine ⟨_, rfl, added _ ?_ flat', flat'⟩
      intro page mem
      rcases List.mem_append.mp mem with mem | mem
      · exact inv.nonempty page (by simp [split, mem])
      · obtain rfl := List.mem_singleton.mp mem
        simp [append_len]

theorem get_spec (inv : ql.Inv) (index : Nat) (below : index < ql.size) :
    ql.get index = (flatten ql)[index]? := by
  obtain ⟨_, found, pos⟩ := find_spec inv index below
  rw [get, found]
  exact iterGet_spec pos (inv.size_eq ▸ below)

theorem set_spec (inv : ql.Inv) (index : Nat) (below : index < ql.size) (val : α) :
    ∃ ql', ql.set index val = some ql' ∧ ql'.Inv ∧
      flatten ql' = (flatten ql).set index val := by
  obtain ⟨_, found, pos⟩ := find_spec inv index below
  obtain ⟨before, page, after, offset, split, bound, rfl, rfl⟩ :=
    pos.inside_of_lt (inv.size_eq ▸ below)
  have data' : ql.data.set before.length (page.set offset val) =
      before ++ [page.set offset val] ++ after := by
    simp [split]
  have flat' : flat (before ++ [page.set offset val] ++ after) =
      (flat ql.data).set ((flat before).length + offset) val := by
    simp only [Page.len] at bound
    simp [split, Page.set, bound]
  simp only [set, found, page_of_split split, Option.bind_eq_bind, Option.bind_some,
    Int.toNat_natCast, data']
  refine ⟨_, rfl, inv.splice split _ ?_ ?_, flat'⟩
  · intro new mem
    obtain rfl := List.mem_singleton.mp mem
    simpa [Page.set, Page.len] using Nat.lt_of_le_of_lt (Nat.zero_le _) bound
  · rw [flat', List.length_set, inv.size_eq]

/-! A full page is cut into its first `pageSize / 2` elements and the rest. -/

section FullPage

variable {page : Page α} (full : ¬ page.len < pageSize)
include full

theorem firstHalf_len : (page.slice (pageSize / 2)).len = pageSize / 2 := by
  simp only [Page.len] at full
  rw [Page.len, Page.slice, List.length_take]
  omega

omit full in
theorem secondHalf_len {grown : Nat} :
    (Page.empty.append (page.elems.drop (pageSize / 2)) grown).len = page.len - pageSize / 2 := by
  rw [append_len, List.length_drop]
  exact Nat.zero_add _

variable {offset : Nat}

theorem insert_firstHalf (inFirst : offset < (page.slice (pageSize / 2)).len) (val : α)
    (grown : Nat × Nat) :
    (∀ half ∈ [(page.slice (pageSize / 2)).insertAt offset val grown.2,
        Page.empty.append (page.elems.drop (pageSize / 2)) grown.1], 0 < half.len) ∧
      flat [(page.slice (pageSize / 2)).insertAt offset val grown.2,
        Page.empty.append (page.elems.drop (pageSize / 2)) grown.1] =
        page.elems.insertIdx offset val := by
  constructor
  · intro half mem
    rcases List.mem_pair.mp mem with rfl | rfl
    · simp [insertAt_len inFirst]
    · rw [secondHalf_len]
      rw [pageSize] at *
      omega
  · have halves := insertIdx_append_left (page.elems.take (pageSize / 2))
      (page.elems.drop (pageSize / 2)) offset val (Nat.le_of_lt inFirst)
    rw [List.take_append_drop] at halves
    simp only [flat_cons, flat_nil, List.append_nil, append_elems,
      insertAt_elems _ offset val grown.2 inFirst]
    exact halves.symm

theorem insert_secondHalf (bound : offset < page.len)
    (inSecond : ¬ offset < (page.slice (pageSize / 2)).len) (val : α) (grown : Nat × Nat) :
    (∀ half ∈ [page.slice (pageSize / 2),
        (Page.empty.append (page.elems.drop (pageSize / 2)) grown.1).insertAt
          (offset - pageSize / 2) val grown.2], 0 < half.len) ∧
      flat [page.slice (pageSize / 2),
        (Page.empty.append (page.elems.drop (pageSize / 2)) grown.1).insertAt
          (offset - pageSize / 2) val grown.2] = page.elems.insertIdx offset val := by
  have firstLen := firstHalf_len full
  have inRest : offset - pageSize / 2 <
      (Page.empty.append (page.elems.drop (pageSize / 2)) grown.1).len := by
    rw [secondHalf_len]
    omega
  constructor
  · intro half mem
    rcases List.mem_pair.mp mem with rfl | rfl
    · rw [firstLen]
      decide
    · simp [insertAt_len inRest]
  · have halves := insertIdx_append_right (page.elems.take (pageSize / 2))
      (page.elems.drop (pageSize / 2)) (offset - pageSize / 2) val
    have taken : (page.elems.take (pageSize / 2)).length = pageSize / 2 := firstLen
    rw [List.take_append_drop, taken, Nat.add_sub_cancel' (by omega)] at halves
    simp only [flat_cons, flat_nil, List.append_nil, append_elems,
      insertAt_elems _ _ val grown.2 inRest]
    exact halves.symm

end FullPage

theorem insert_spec (inv : ql.Inv) (index : Nat) (upper : index ≤ ql.size) (val : α)
    (grown : Nat × Nat) :
    ∃ ql', ql.insert index val grown = some ql' ∧ ql'.Inv ∧
      flatten ql' = (flatten ql).insertIdx index val := by
  by_cases last : index = ql.size
  · obtain ⟨ql', eq, inv', flat'⟩ := add_spec inv val grown.1
    refine ⟨ql', by rw [insert, if_pos (by omega), eq], inv', ?_⟩
    have size_eq : index = (flatten ql).length := last.trans inv.size_eq
    rw [flat', size_eq, List.insertIdx_length_self]
  · obtain ⟨_, found, pos⟩ := find_spec inv index (by omega)
    obtain ⟨before, page, after, offset, split, bound, rfl, rfl⟩ :=
      pos.inside_of_lt (by rw [← inv.size_eq]; omega)
    have inserted : (flatten ql).insertIdx ((flat before).length + offset) val =
        flat before ++ page.elems.insertIdx offset val ++ flat after := by
      rw [flatten, split, flat_append, insertIdx_append_right, flat_cons,
        insertIdx_append_left _ _ _ _ (Nat.le_of_lt bound), List.append_assoc]
    have replaced : ∀ mid : List (Page α), (∀ new ∈ mid, 0 < new.len) →
        flat mid = page.elems.insertIdx offset val →
        Inv ⟨before ++ mid ++ after, ql.size + 1⟩ ∧
        flat (before ++ mid ++ after) = (flatten ql).insertIdx ((flat before).length + offset) val := by
      intro mid filled flat_mid
      have flat' : flat (before ++ mid ++ after) =
          (flatten ql).insertIdx ((flat before).length + offset) val := by
        rw [inserted, flat_append, flat_append, flat_mid]
      refine ⟨inv.splice split mid filled ?_, flat'⟩
      rw [flat', List.length_insertIdx_of_le_length (by rw [flatten, ← inv.size_eq]; omega),
        inv.size_eq, flatten]
    have notLast : ¬ (((flat before).length + offset : Nat) : Int) = ql.size := by omega
    have split_set : ∀ new : Page α, ql.data.set before.length new = before ++ [new] ++ after := by
      simp [split]
    have split_take : ql.data.take before.length = before := by simp [split]
    have split_drop : ql.data.drop (before.length + 1) = after := by simp [split]
    simp only [insert, notLast, if_false, found, page_of_split split, Option.bind_eq_bind,
      Option.bind_some, Int.toNat_natCast, split_set, split_take, split_drop]
    by_cases room : page.len < pageSize
    · rw [if_pos room]
      obtain ⟨inv', flat'⟩ := replaced [page.insertAt offset val grown.1]
        (by simp [insertAt_len bound])
        (by simp [insertAt_elems page offset val grown.1 bound])
      exact ⟨_, rfl, inv', flat'⟩
    · rw [if_neg room]
      by_cases first : offset < (page.slice (pageSize / 2)).len
      · rw [if_pos first]
        obtain ⟨filled, halves⟩ := insert_firstHalf room first val grown
        obtain ⟨inv', flat'⟩ := replaced _ filled halves
        rw [List.append_assoc] at inv' flat'
        exact ⟨_, rfl, inv', flat'⟩
      · rw [if_neg first]
        obtain ⟨filled, halves⟩ := insert_secondHalf room bound first val grown
        obtain ⟨inv', flat'⟩ := replaced _ filled halves
        rw [List.append_assoc] at inv' flat'
        exact ⟨_, rfl, inv', flat'⟩

theorem remove_spec (inv : ql.Inv) (index : Nat) (below : index < ql.size) :
    ∃ val ql', ql.remove index = some (val, ql') ∧ ql'.Inv ∧
      (flatten ql)[index]? = some val ∧ flatten ql' = (flatten ql).eraseIdx index := by
  obtain ⟨_, found, pos⟩ := find_spec inv index below
  obtain ⟨val, _, ql', eq, value, flat', inv', -⟩ :=
    iterRemove_spec inv pos (inv.size_eq ▸ below)
  exact ⟨val, ql', by simp [remove, found, eq], inv', value, flat'⟩

theorem removeLast_spec (inv : ql.Inv) :
    ∃ ql', ql.removeLast = some ((flatten ql).getLast?, ql') ∧ ql'.Inv ∧
      flatten ql' = (flatten ql).dropLast := by
  have size_eq : ql.size = (flatten ql).length := inv.size_eq
  rw [removeLast, length]
  by_cases none : ql.size = 0
  · have noElems : flatten ql = [] := List.length_eq_zero_iff.mp (by omega)
    rw [if_pos none, noElems]
    exact ⟨ql, rfl, inv, noElems⟩
  · rw [if_neg none]
    cases backPage : ql.data.getLast? with
    | none =>
      rw [flatten, List.getLast?_eq_none_iff.mp backPage] at size_eq
      exact absurd size_eq none
    | some lastPage =>
      obtain ⟨init, split⟩ := List.getLast?_eq_some_iff.mp backPage
      have filled : 0 < lastPage.len := inv.nonempty lastPage (by simp [split])
      have some_elem : lastPage.elems ≠ [] := by
        intro noElems
        simp [Page.len, noElems] at filled
      have flat_split : flatten ql = flat init ++ lastPage.elems := by simp [flatten, split]
      have value : (flatten ql).getLast? = lastPage.elems.getLast? := by
        rw [flat_split, List.getLast?_append_of_ne_nil _ some_elem]
      have shorter : (flatten ql).dropLast = flat init ++ lastPage.elems.dropLast := by
        rw [flat_split, List.dropLast_append_of_ne_nil some_elem]
      have others : ∀ page ∈ init, 0 < page.len :=
        fun page mem => inv.nonempty page (by simp [split, mem])
      have removed : ∀ data : List (Page α), (∀ page ∈ data, 0 < page.len) →
          flat data = (flatten ql).dropLast → Inv ⟨data, ql.size - 1⟩ := by
        intro data nonempty flat'
        exact .of_parts nonempty (by rw [flat', List.length_dropLast, size_eq])
      rw [value]
      simp only [Option.bind_eq_bind, Option.bind_some, List.getLast?_eq_some_getLast some_elem,
        split, List.dropLast_concat]
      by_cases single : lastPage.len = 1
      · rw [if_pos single]
        have flat' : flat init = (flatten ql).dropLast := by
          obtain ⟨_, eq⟩ := List.length_eq_one_iff.mp single
          rw [shorter, eq]
          simp
        exact ⟨_, rfl, removed _ others flat', flat'⟩
      · rw [if_neg single]
        have flat' : flat (init ++ [lastPage.slice (lastPage.len - 1)]) =
            (flatten ql).dropLast := by
          rw [shorter, List.dropLast_eq_take]
          simp [Page.slice, Page.len]
        refine ⟨_, rfl, removed _ ?_ flat', flat'⟩
        intro page mem
        rcases List.mem_append.mp mem with mem | mem
        · exact others page mem
        · obtain rfl := List.mem_singleton.mp mem
          rw [Page.len, Page.slice, List.length_take, ← Page.len]
          omega

end Godis.QuickList
