import Mathlib.Data.List.GetD
import Mathlib.Tactic

/-!
# Binary search (`sort.Search`)
-/

namespace Golang

/-- The halving loop of `sort.Search` over `[i, j)`, with fuel for its rounds. -/
def searchLoop (f : Nat → Bool) : Nat → Nat → Nat → Nat
  | 0, i, _ => i
  | fuel + 1, i, j =>
    if i < j then
      if !f ((i + j) / 2) then searchLoop f fuel ((i + j) / 2 + 1) j
      else searchLoop f fuel i ((i + j) / 2)
    else i

/-- The smallest index in `[0, n)` at which `f` is true, `n` if there is none. -/
def search (n : Nat) (f : Nat → Bool) : Nat := searchLoop f n 0 n

variable {f : Nat → Bool} {n : Nat}

theorem searchLoop_spec (mono : ∀ i j, i ≤ j → j < n → f i = true → f j = true)
    (fuel i j : Nat) (ordered : i ≤ j) (upper : j ≤ n) (enough : j - i ≤ fuel)
    (below : ∀ k < i, f k = false) (above : ∀ k, j ≤ k → k < n → f k = true) :
    searchLoop f fuel i j ≤ n ∧ (∀ k < searchLoop f fuel i j, f k = false) ∧
      ∀ k, searchLoop f fuel i j ≤ k → k < n → f k = true := by
  induction fuel generalizing i j with
  | zero =>
    obtain rfl : i = j := by omega
    exact ⟨upper, below, above⟩
  | succ fuel ih =>
    rw [searchLoop]
    by_cases more : i < j
    · rw [if_pos more]
      cases mid : f ((i + j) / 2) with
      | false =>
        refine ih ((i + j) / 2 + 1) j (by omega) upper (by omega) ?_ above
        intro k small
        by_contra met
        have reached := mono k ((i + j) / 2) (by omega) (by omega) (by simpa using met)
        rw [mid] at reached
        cases reached
      | true =>
        refine ih i ((i + j) / 2) (by omega) (by omega) (by omega) below ?_
        intro k large small
        exact mono _ k large small mid
    · obtain rfl : i = j := by omega
      rw [if_neg more]
      exact ⟨upper, below, above⟩

theorem search_le (f : Nat → Bool) : search n f ≤ n := by
  have bounded : ∀ fuel i j, i ≤ j → j ≤ n → searchLoop f fuel i j ≤ n := by
    intro fuel
    induction fuel with
    | zero => exact fun i j ordered upper => ordered.trans upper
    | succ fuel ih =>
      intro i j ordered upper
      rw [searchLoop]
      split_ifs with more
      · exact ih _ _ (by omega) upper
      · exact ih _ _ (by omega) (by omega)
      · exact ordered.trans upper
  exact bounded n 0 n (Nat.zero_le _) (Nat.le_refl _)

theorem search_spec (mono : ∀ i j, i ≤ j → j < n → f i = true → f j = true) :
    search n f ≤ n ∧ (∀ k < search n f, f k = false) ∧
      ∀ k, search n f ≤ k → k < n → f k = true :=
  searchLoop_spec mono n 0 n (Nat.zero_le _) (Nat.le_refl _) (by omega)
    (fun _ small => absurd small (Nat.not_lt_zero _))
    (fun _ large small => absurd small (Nat.not_lt_of_le large))

theorem search_ascending {elems : List Nat} (ascending : elems.Pairwise (· < ·)) {val : Nat} :
    search elems.length (fun i => decide (elems.getD i 0 ≥ val)) ≤ elems.length ∧
      (∀ x ∈ elems.take (search elems.length fun i => decide (elems.getD i 0 ≥ val)), x < val) ∧
      ∀ x ∈ elems.drop (search elems.length fun i => decide (elems.getD i 0 ≥ val)), val ≤ x := by
  have mono : ∀ i j, i ≤ j → j < elems.length → decide (elems.getD i 0 ≥ val) = true →
      decide (elems.getD j 0 ≥ val) = true := by
    intro i j ordered inside reached
    rcases Nat.eq_or_lt_of_le ordered with rfl | before
    · exact reached
    · have larger := List.pairwise_iff_getElem.mp ascending i j (by omega) inside before
      rw [List.getD_eq_getElem _ _ (by omega), decide_eq_true_eq] at reached
      rw [List.getD_eq_getElem _ _ inside, decide_eq_true_eq]
      omega
  obtain ⟨upper, below, above⟩ := search_spec mono
  refine ⟨upper, ?_, ?_⟩
  · intro x mem
    obtain ⟨i, bound, rfl⟩ := List.getElem_of_mem mem
    rw [List.length_take] at bound
    have small := below i (by omega)
    rw [List.getD_eq_getElem _ _ (by omega), decide_eq_false_iff_not] at small
    rw [List.getElem_take]
    omega
  · intro x mem
    obtain ⟨i, bound, rfl⟩ := List.getElem_of_mem mem
    rw [List.length_drop] at bound
    have large := above _ (Nat.le_add_right _ i) (by omega)
    rw [List.getD_eq_getElem _ _ (by omega), decide_eq_true_eq] at large
    rw [List.getElem_drop]
    exact large

end Golang
