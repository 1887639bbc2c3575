import Godis.Datastruct.SkiplistRemove
import Godis.Datastruct.SortedSet

/-!
# The invariant of sorted sets

The skip list represents a list of entries that increases by score and member, and the
dictionary holds exactly its elements.
-/

namespace Godis

variable {M S : Type} [LinearOrder M]

namespace Element

variable [LinearOrder S] {first second third : Element M S}

theorem less_iff : first.less second = true ↔
    first.score < second.score ∨ first.score = second.score ∧ first.member < second.member := by
  simp [less]

theorem less_irrefl (element : Element M S) : ¬ element.less element = true := by
  simp [less]

theorem less_trans (lower : first.less second = true) (upper : second.less third = true) :
    first.less third = true := by
  rw [less_iff] at *
  rcases lower with lower | ⟨lower, lower'⟩ <;> rcases upper with upper | ⟨upper, upper'⟩
  · exact Or.inl (lower.trans upper)
  · exact Or.inl (upper ▸ lower)
  · exact Or.inl (lower ▸ upper)
  · exact Or.inr ⟨lower.trans upper, lower'.trans upper'⟩

theorem less_of_not_less (ne : first ≠ second) (not_less : first.less second = false) :
    second.less first = true := by
  have not_less' : ¬ first.less second = true := by
    simp [not_less]
  rw [less_iff] at *
  push Not at not_less'
  rcases lt_or_eq_of_le not_less'.1 with lower | same
  · exact Or.inl lower
  · rcases lt_or_eq_of_le (not_less'.2 same.symm) with lower | _
    · exact Or.inr ⟨same, lower⟩
    · cases second
      simp_all

end Element

namespace SortedSet

open Skiplist

def Increasing [LinearOrder S] (entries : List (Entry M S)) : Prop :=
  entries.Pairwise fun first second => first.elem.less second.elem = true

def Exact (dict : Finmap fun _ : M => Element M S) (entries : List (Entry M S)) : Prop :=
  ∀ member element, dict.lookup member = some element ↔
    element.member = member ∧ ∃ entry ∈ entries, entry.elem = element

structure Holds [LinearOrder S] [Inhabited M] [Inhabited S] (set : SortedSet M S)
    (entries : List (Entry M S)) : Prop where
  repr : Repr ⟨default, default⟩ set.skiplist entries
  increasing : Increasing entries
  exact : Exact set.dict entries

section Lists

variable [LinearOrder S] {passed rest : List (Entry M S)} {elem : Element M S}

theorem Increasing.passed_less (increasing : Increasing (passed ++ rest))
    (goes : ∀ low last, passed = low ++ [last] → last.elem.less elem = true) :
    ∀ other ∈ passed, other.elem.less elem = true := by
  intro other mem
  rcases List.eq_nil_or_concat passed with rfl | ⟨init, last, rfl⟩
  · simp at mem
  · have last_less := goes init last (List.concat_eq_append ..)
    rw [List.concat_eq_append] at mem increasing
    rcases List.mem_append.mp mem with mem | mem
    · have below := (List.pairwise_append.mp (List.pairwise_append.mp increasing).1).2.2
        other mem last (by simp)
      exact Element.less_trans below last_less
    · rw [List.mem_singleton.mp mem]
      exact last_less

variable {entry : Entry M S}

theorem Increasing.insert (increasing : Increasing (passed ++ rest))
    (goes : ∀ low last, passed = low ++ [last] → last.elem.less entry.elem = true)
    (stops : ∀ first after, rest = first :: after → first.elem.less entry.elem = false)
    (new : ∀ other ∈ passed ++ rest, other.elem ≠ entry.elem) :
    Increasing (passed ++ entry :: rest) := by
  have below := increasing.passed_less goes
  have parts := List.pairwise_append.mp increasing
  have above : ∀ other ∈ rest, entry.elem.less other.elem = true := by
    cases rest with
    | nil => simp
    | cons first after =>
      have first_above : entry.elem.less first.elem = true :=
        Element.less_of_not_less (new first (by simp)) (stops first after rfl)
      intro other mem
      rcases List.mem_cons.mp mem with rfl | mem
      · exact first_above
      · exact Element.less_trans first_above ((List.pairwise_cons.mp parts.2.1).1 other mem)
  refine List.pairwise_append.mpr ⟨parts.1, List.pairwise_cons.mpr ⟨above, parts.2.1⟩, ?_⟩
  intro first mem second mem'
  rcases List.mem_cons.mp mem' with rfl | mem'
  · exact below first mem
  · exact parts.2.2 first mem second mem'

theorem Increasing.found (increasing : Increasing (passed ++ rest))
    (goes : ∀ low last, passed = low ++ [last] → last.elem.less entry.elem = true)
    (stops : ∀ first after, rest = first :: after → first.elem.less entry.elem = false)
    (mem : entry ∈ passed ++ rest) : ∃ after, rest = entry :: after := by
  rcases List.mem_append.mp mem with mem | mem
  · exact absurd (increasing.passed_less goes entry mem) (Element.less_irrefl entry.elem)
  · cases rest with
    | nil => simp at mem
    | cons first after =>
      rcases List.mem_cons.mp mem with rfl | mem
      · exact ⟨after, rfl⟩
      · have later := (List.pairwise_cons.mp (List.pairwise_append.mp increasing).2.1).1 entry mem
        rw [stops first after rfl] at later
        cases later

theorem Increasing.sublist {entries entries' : List (Entry M S)} (increasing : Increasing entries)
    (shorter : entries'.Sublist entries) : Increasing entries' :=
  List.Pairwise.sublist shorter increasing

end Lists

section Dict

variable {dict : Finmap fun _ : M => Element M S} {entries : List (Entry M S)}

theorem Exact.lookup_of_mem {entry : Entry M S} (exact : Exact dict entries) (mem : entry ∈ entries) :
    dict.lookup entry.elem.member = some entry.elem :=
  (exact _ _).mpr ⟨rfl, entry, mem, rfl⟩

theorem Exact.elem_eq {first second : Entry M S} (exact : Exact dict entries)
    (mem : first ∈ entries) (mem' : second ∈ entries)
    (same : first.elem.member = second.elem.member) : first.elem = second.elem := by
  have lookup := exact.lookup_of_mem mem
  rw [same, exact.lookup_of_mem mem'] at lookup
  exact (Option.some.inj lookup).symm

theorem Exact.fresh {member : M} (exact : Exact dict entries) (absent : dict.lookup member = none) :
    ∀ entry ∈ entries, entry.elem.member ≠ member := by
  intro entry mem same
  have lookup := exact.lookup_of_mem mem
  rw [same, absent] at lookup
  cases lookup

theorem Exact.congr {dict' : Finmap fun _ : M => Element M S} (exact : Exact dict entries)
    (same : ∀ member, dict'.lookup member = dict.lookup member) : Exact dict' entries := by
  intro member element
  rw [same, exact member element]

variable {passed rest : List (Entry M S)}

theorem Exact.insert (entry : Entry M S) (exact : Exact dict (passed ++ rest))
    (fresh : ∀ other ∈ passed ++ rest, other.elem.member ≠ entry.elem.member) :
    Exact (dict.insert entry.elem.member entry.elem) (passed ++ entry :: rest) := by
  intro member element
  by_cases same : member = entry.elem.member
  · subst same
    rw [Finmap.lookup_insert]
    refine ⟨?_, ?_⟩
    · intro eq
      cases eq
      exact ⟨rfl, entry, by simp, rfl⟩
    · rintro ⟨member_eq, other, mem, rfl⟩
      rcases List.mem_cons.mp (List.perm_middle.mem_iff.mp mem) with rfl | mem
      · rfl
      · exact absurd member_eq (fresh other mem)
  · rw [Finmap.lookup_insert_of_ne dict same, exact member element]
    refine and_congr_right fun member_eq => ?_
    refine ⟨?_, ?_⟩
    · rintro ⟨other, mem, elem_eq⟩
      exact ⟨other, List.perm_middle.mem_iff.mpr (List.mem_cons_of_mem entry mem), elem_eq⟩
    · rintro ⟨other, mem, elem_eq⟩
      rcases List.mem_cons.mp (List.perm_middle.mem_iff.mp mem) with rfl | mem
      · exact absurd (member_eq.symm.trans (congrArg Element.member elem_eq.symm)) same
      · exact ⟨other, mem, elem_eq⟩

theorem lookup_forget (removed : List (Element M S)) (dict : Finmap fun _ : M => Element M S)
    {member : M} : (forget dict removed).lookup member =
      if member ∈ removed.map (·.member) then none else dict.lookup member := by
  induction removed generalizing dict with
  | nil => simp [forget]
  | cons element removed ih =>
    rw [show forget dict (element :: removed) = forget (dict.erase element.member) removed from rfl,
      ih]
    by_cases later : member ∈ removed.map (·.member)
    · simp [later]
    · by_cases same : member = element.member
      · subst same
        rw [if_neg later, Finmap.lookup_erase, if_pos (by simp)]
      · simp only [later, same, if_false, List.map_cons, List.mem_cons, or_self]
        exact Finmap.lookup_erase_ne same

theorem Exact.forget [LinearOrder S] {gone : List (Entry M S)}
    (exact : Exact dict (passed ++ gone ++ rest)) (increasing : Increasing (passed ++ gone ++ rest)) :
    Exact (forget dict (gone.map (·.elem))) (passed ++ rest) := by
  intro member element
  rw [lookup_forget]
  have mem_old {entry : Entry M S} (mem : entry ∈ passed ++ rest) : entry ∈ passed ++ gone ++ rest := by
    simp only [List.mem_append] at mem ⊢
    tauto
  by_cases removed : member ∈ (gone.map (·.elem)).map (·.member)
  · rw [if_pos removed]
    refine ⟨fun eq => (nomatch eq), ?_⟩
    rintro ⟨rfl, entry, mem, rfl⟩
    obtain ⟨_, mem', same⟩ := List.mem_map.mp removed
    obtain ⟨other, other_mem, rfl⟩ := List.mem_map.mp mem'
    have elem_eq : other.elem = entry.elem :=
      exact.elem_eq (by simp [other_mem]) (mem_old mem) same
    have parts := List.pairwise_append.mp increasing
    rcases List.mem_append.mp mem with mem | mem
    · have below := (List.pairwise_append.mp parts.1).2.2 entry mem other other_mem
      rw [elem_eq] at below
      exact absurd below (Element.less_irrefl entry.elem)
    · have below := parts.2.2 other (by simp [other_mem]) entry mem
      rw [elem_eq] at below
      exact absurd below (Element.less_irrefl entry.elem)
  · rw [if_neg removed, exact member element]
    refine and_congr_right fun member_eq => ?_
    refine ⟨?_, ?_⟩
    · rintro ⟨entry, mem, rfl⟩
      refine ⟨entry, ?_, rfl⟩
      have kept : entry ∉ gone := fun mem' =>
        removed (member_eq ▸ List.mem_map_of_mem (List.mem_map_of_mem mem'))
      simp only [List.mem_append] at mem ⊢
      tauto
    · rintro ⟨entry, mem, elem_eq⟩
      exact ⟨entry, mem_old mem, elem_eq⟩

end Dict

/-! ## The operations -/

section Operations

variable [LinearOrder S] [Inhabited M] [Inhabited S] {set : SortedSet M S}
  {entries : List (Entry M S)}

theorem make_holds : Holds (make : SortedSet M S) [] :=
  ⟨makeSkiplist_repr, List.Pairwise.nil, by simp [Exact, make]⟩

variable {member : M} {skiplist : Skiplist M S} {crossed : Bool} {max min : Border M S}

theorem insert_holds {dict : Finmap fun _ : M => Element M S} (score : S) (height : Height)
    (repr : Repr ⟨default, default⟩ skiplist entries) (increasing : Increasing entries)
    (exact : Exact dict entries) (absent : ∀ entry ∈ entries, entry.elem.member ≠ member) :
    ∃ skiplist' entries', skiplist.insert member score height.val = some skiplist' ∧
      Holds ⟨dict.insert member ⟨member, score⟩, skiplist'⟩ entries' := by
  obtain ⟨skiplist', passed, rest, ptr, rfl, run, repr', goes, stops⟩ :=
    insert_spec member score repr height.positive height.bound
  have new : ∀ other ∈ passed ++ rest, other.elem ≠ ⟨member, score⟩ := by
    intro other mem same
    exact absent other mem (congrArg Element.member same)
  have increasing' : Increasing (passed ++ ⟨ptr, height.val, ⟨member, score⟩⟩ :: rest) :=
    increasing.insert goes stops new
  have exact' : Exact (dict.insert member ⟨member, score⟩)
      (passed ++ ⟨ptr, height.val, ⟨member, score⟩⟩ :: rest) :=
    Exact.insert ⟨ptr, height.val, ⟨member, score⟩⟩ exact absent
  exact ⟨skiplist', _, run, repr', increasing', exact'⟩

theorem remove_element {element : Element M S} (holds : Holds set entries)
    (present : set.dict.lookup member = some element) :
    ∃ skiplist passed entry rest, entries = passed ++ entry :: rest ∧ entry.elem = element ∧
      set.skiplist.remove member element.score = some (true, skiplist) ∧
      Repr ⟨default, default⟩ skiplist (passed ++ rest) := by
  obtain ⟨rfl, entry, mem, rfl⟩ := (holds.exact member element).mp present
  obtain ⟨passed, _, rfl, goes, stops, result⟩ :=
    remove_spec entry.elem.member entry.elem.score holds.repr
  obtain ⟨after, rfl⟩ := holds.increasing.found goes stops mem
  rcases result with ⟨skiplist, _, _, eq, -, run, repr⟩ | ⟨missing, _⟩
  · obtain ⟨rfl, rfl⟩ := List.cons.inj eq
    exact ⟨skiplist, passed, entry, after, rfl, rfl, run, repr⟩
  · exact absurd rfl (missing entry after rfl)

theorem forget_holds {passed gone rest : List (Entry M S)}
    (holds : Holds set (passed ++ gone ++ rest))
    (repr : Repr ⟨default, default⟩ skiplist (passed ++ rest)) :
    Holds ⟨forget set.dict (gone.map (·.elem)), skiplist⟩ (passed ++ rest) := by
  have shorter : List.Sublist (passed ++ rest) (passed ++ gone ++ rest) := by
    rw [List.append_assoc]
    exact (List.sublist_append_right gone rest).append_left passed
  exact ⟨repr, holds.increasing.sublist shorter, holds.exact.forget holds.increasing⟩

theorem add_holds (member : M) (score : S) (height : Height) (holds : Holds set entries) :
    ∃ added set' entries', set.add member score height = some (added, set') ∧
      Holds set' entries' := by
  unfold add
  cases lookup : set.dict.lookup member with
  | none =>
    obtain ⟨_, entries', run, holds'⟩ := insert_holds score height holds.repr
      holds.increasing holds.exact (holds.exact.fresh lookup)
    refine ⟨true, _, entries', ?_, holds'⟩
    simp [run]
  | some element =>
    by_cases same : score = element.score
    · subst same
      obtain ⟨rfl, _⟩ := (holds.exact member element).mp lookup
      refine ⟨false, ⟨set.dict.insert element.member element, set.skiplist⟩, entries, by simp,
        holds.repr, holds.increasing, holds.exact.congr ?_⟩
      intro member
      by_cases here : member = element.member
      · rw [here, Finmap.lookup_insert, lookup]
      · exact Finmap.lookup_insert_of_ne _ here
    · obtain ⟨_, passed, entry, rest, rfl, rfl, run, repr⟩ := remove_element holds lookup
      have holds₁ : Holds set (passed ++ [entry] ++ rest) := by
        simpa using holds
      have holds₂ := forget_holds holds₁ repr
      obtain ⟨rfl, _⟩ := (holds.exact member entry.elem).mp lookup
      have absent : (forget set.dict [entry.elem]).lookup entry.elem.member = none := by
        rw [lookup_forget, if_pos (by simp)]
      obtain ⟨skiplist', entries', run', holds₃⟩ := insert_holds score height repr
        holds₂.increasing holds₂.exact (holds₂.exact.fresh absent)
      refine ⟨false, ⟨set.dict.insert entry.elem.member ⟨entry.elem.member, score⟩, skiplist'⟩,
        entries', by simp [same, run, run'], holds₃.repr, holds₃.increasing,
        holds₃.exact.congr ?_⟩
      intro member
      by_cases here : member = entry.elem.member
      · rw [here, Finmap.lookup_insert, Finmap.lookup_insert]
      · rw [Finmap.lookup_insert_of_ne _ here, Finmap.lookup_insert_of_ne _ here,
          lookup_forget, if_neg (by simpa using here)]

theorem remove_holds (member : M) (holds : Holds set entries) :
    ∃ removed set' entries', set.remove member = some (removed, set') ∧ Holds set' entries' := by
  unfold remove
  cases lookup : set.dict.lookup member with
  | none => exact ⟨false, set, entries, rfl, holds⟩
  | some element =>
    obtain ⟨_, passed, entry, rest, rfl, rfl, run, repr⟩ := remove_element holds lookup
    have holds' : Holds set (passed ++ [entry] ++ rest) := by
      simpa using holds
    refine ⟨true, _, passed ++ rest, ?_, forget_holds holds' repr⟩
    have member_eq := ((holds.exact member entry.elem).mp lookup).1
    simp [run, forget, member_eq]

theorem removeRange_holds (less greater : Element M S → Bool) (limit : Int)
    (holds : Holds set entries) :
    ∃ removed skiplist entries', set.skiplist.removeRange less greater limit =
      some (removed, skiplist) ∧ Holds ⟨forget set.dict removed, skiplist⟩ entries' := by
  obtain ⟨passed, _, _, rfl, run, predecessors, _, _⟩ :=
    search_spec (fun _ next => !less next) holds.repr
  obtain ⟨gone, rest', skiplist, rfl, run', repr, _, _⟩ :=
    removeFrom_spec (fun _ elem => greater elem) limit predecessors holds.repr
  refine ⟨gone.map (·.elem), skiplist, passed ++ rest', ?_, ?_⟩
  · simp only [Skiplist.removeRange, run, Option.bind_eq_bind, Option.bind_some, run']
  · exact forget_holds (by simpa using holds) repr

theorem removeRangeByRank_holds (start stop : Int) (holds : Holds set entries) :
    ∃ removed skiplist entries', set.skiplist.removeRangeByRank start stop =
      some (removed, skiplist) ∧ Holds ⟨forget set.dict removed, skiplist⟩ entries' := by
  obtain ⟨passed, _, _, rfl, run, predecessors, _, _⟩ :=
    search_spec (fun rank _ => rank < start) holds.repr
  obtain ⟨_, _, head, _⟩ := predecessors.successor holds.repr
  obtain ⟨gone, rest', skiplist, rfl, run', repr, _, _⟩ :=
    removeFrom_spec (fun removed _ => passed.length + 1 + removed < stop) 0 predecessors holds.repr
  refine ⟨gone.map (·.elem), skiplist, passed ++ rest', ?_, ?_⟩
  · simp only [Skiplist.removeRangeByRank, run, Option.bind_eq_bind, Option.bind_some, head, run']
  · exact forget_holds (by simpa using holds) repr

theorem hasInRange_spec (holds : Holds set entries)
    (comparable : min.isIntersected max = some crossed) :
    ∃ found, set.skiplist.hasInRange min max = some found ∧
      (found = true → ∃ low last, entries = low ++ [last] ∧ min.less last.elem = true) := by
  unfold hasInRange
  rw [comparable]
  cases crossed with
  | true => exact ⟨false, rfl, by simp⟩
  | false =>
    rcases List.eq_nil_or_concat entries with rfl | ⟨low, last, rfl⟩
    · simp [holds.repr.tail]
    · rw [List.concat_eq_append] at holds ⊢
      have last_eq : set.skiplist.elemAt last.ptr = some last.elem :=
        holds.repr.chained.elem last (by simp)
      have tail_eq : set.skiplist.tail = some last.ptr := by
        simp [holds.repr.tail]
      have split : top ⟨default, default⟩ :: (low ++ [last]) =
        [] ++ top ⟨default, default⟩ :: (low ++ [last]) := rfl
      obtain ⟨level, level_eq, forward_eq, _⟩ :=
        holds.repr.chained.link split (Nat.succ_pos 15)
      have level_eq' : set.skiplist.levelAt 0 0 = some level := level_eq
      rw [next_zero fun entry mem => (holds.repr.heights entry mem).1] at forward_eq
      obtain ⟨first, _, first_eq⟩ := List.exists_cons_of_ne_nil (List.append_ne_nil_of_right_ne_nil low
        (List.cons_ne_nil last []))
      have elem_eq : set.skiplist.elemAt first.ptr = some first.elem :=
        holds.repr.chained.elem first (by simp [first_eq])
      rw [first_eq] at forward_eq
      cases inside : min.less last.elem with
      | false =>
        simp [tail_eq, last_eq, inside]
      | true =>
        simp [tail_eq, last_eq, inside, level_eq', forward_eq, elem_eq]

theorem getFirstInRange_spec (holds : Holds set entries)
    (comparable : min.isIntersected max = some crossed) :
    ∃ result, set.skiplist.getFirstInRange min max = some result ∧
      ∀ ptr, result = some ptr → ∃ entry ∈ entries, entry.ptr = ptr := by
  obtain ⟨found, found_eq, last_in⟩ := hasInRange_spec holds comparable
  unfold getFirstInRange
  rw [found_eq]
  cases found with
  | false => exact ⟨none, rfl, by simp⟩
  | true =>
    obtain ⟨low, last, last_eq, last_less⟩ := last_in rfl
    obtain ⟨_, rest, _, split, run, predecessors, goes, _⟩ :=
      search_spec (fun _ next => !min.less next) holds.repr
    subst split
    obtain ⟨_, _, head, level_eq, forward_eq⟩ := predecessors.successor holds.repr
    cases rest with
    | nil =>
      rw [List.append_nil] at last_eq
      have stays := goes low last last_eq
      simp [last_less] at stays
    | cons first after =>
      have elem_eq : set.skiplist.elemAt first.ptr = some first.elem :=
        holds.repr.chained.elem first (by simp)
      simp only [Bool.not_true, Option.bind_eq_bind, Option.bind_some, run, head, level_eq,
        forward_eq, List.head?_cons, Option.map_some, elem_eq]
      cases max.greater first.elem with
      | false => exact ⟨none, rfl, by simp⟩
      | true =>
        refine ⟨some first.ptr, rfl, ?_⟩
        intro ptr' eq
        exact ⟨first, by simp, Option.some.inj eq⟩

theorem popMin_holds (count : Int) (holds : Holds set entries) :
    ∃ removed set' entries', set.popMin count = some (removed, set') ∧ Holds set' entries' := by
  have comparable : (Border.scoreNegativeInfBorder : Border M S).isIntersected
      Border.scorePositiveInfBorder = some _ := rfl
  obtain ⟨result, first_eq, mem⟩ := getFirstInRange_spec holds comparable
  unfold popMin
  rw [first_eq]
  cases result with
  | none => exact ⟨[], set, entries, rfl, holds⟩
  | some ptr =>
    obtain ⟨entry, entry_mem, rfl⟩ := mem ptr rfl
    have elem_eq : set.skiplist.elemAt entry.ptr = some entry.elem :=
      holds.repr.chained.elem entry (List.mem_cons_of_mem _ entry_mem)
    obtain ⟨removed, _, entries', run, holds'⟩ :=
      removeRange_holds (Border.score ⟨.finite, entry.elem.score, false⟩ : Border M S).less
        (Border.scorePositiveInfBorder (M := M) (S := S)).greater count holds
    refine ⟨removed, _, entries', ?_, holds'⟩
    simp [elem_eq, run]

theorem exec_holds (op : Op M S) (holds : Holds set entries) :
    ∃ set' entries', set.exec op = some set' ∧ Holds set' entries' := by
  cases op with
  | add member score height =>
    obtain ⟨_, set', entries', run, holds'⟩ := add_holds member score height holds
    exact ⟨set', entries', by simp [exec, run], holds'⟩
  | remove member =>
    obtain ⟨_, set', entries', run, holds'⟩ := remove_holds member holds
    exact ⟨set', entries', by simp [exec, run], holds'⟩
  | removeRange min max =>
    obtain ⟨_, _, entries', run, holds'⟩ := removeRange_holds min.less max.greater 0 holds
    exact ⟨_, entries', by simp [exec, removeRange, run], holds'⟩
  | removeByRank start stop =>
    obtain ⟨_, _, entries', run, holds'⟩ :=
      removeRangeByRank_holds (addInt64 start 1) (addInt64 stop 1) holds
    exact ⟨_, entries', by simp [exec, removeByRank, run], holds'⟩
  | popMin count =>
    obtain ⟨_, set', entries', run, holds'⟩ := popMin_holds count holds
    exact ⟨set', entries', by simp [exec, run], holds'⟩

theorem run_holds (ops : List (Op M S)) (holds : Holds set entries) :
    ∃ set' entries', set.run ops = some set' ∧ Holds set' entries' := by
  induction ops generalizing set entries with
  | nil => exact ⟨set, entries, rfl, holds⟩
  | cons op ops ih =>
    obtain ⟨_, _, step, holds₁⟩ := exec_holds op holds
    obtain ⟨set₂, entries₂, rest, holds₂⟩ := ih holds₁
    refine ⟨set₂, entries₂, ?_, holds₂⟩
    unfold run at rest ⊢
    rw [List.foldlM_cons, step]
    exact rest

end Operations

end SortedSet

end Godis
