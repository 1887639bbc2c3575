import Mathlib.Tactic

/-!
# Search cells (`lib/geohash/neighbor.go`)
-/

namespace Godis.Geohash

def mercatorMax : ℚ := 20037726.37

/-- The loop of `estimatePrecisionByRadius`; `none` when the rounds given are not enough. -/
def double : Nat → ℚ → Nat → Option Nat
  | 0, radius, precision => if radius < mercatorMax then none else some precision
  | fuel + 1, radius, precision =>
    if radius < mercatorMax then double fuel (radius * 2) (precision + 1) else some precision

def minus (precision amount : Nat) : Nat :=
  if amount ≤ precision then precision - amount else precision + 2 ^ 64 - amount

/-- What `estimatePrecisionByRadius` makes of the counter after the loop. -/
def adjust (latitude : ℚ) (precision : Nat) : Nat :=
  let precision := minus precision 2
  let precision :=
    if latitude > 66 ∨ latitude < -66 then
      if latitude > 80 ∨ latitude < -80 then minus (minus precision 1) 1 else minus precision 1
    else precision
  let precision := if precision < 1 then 1 else precision
  let precision := if precision > 32 then 32 else precision
  precision * 2 - 1

def estimatePrecisionByRadius (fuel : Nat) (radius latitude : ℚ) : Option Nat :=
  if radius = 0 then some 63 else (double fuel radius 1).map (adjust latitude)

/-- The call returns the precision. -/
def Estimates (radius latitude : ℚ) (precision : Nat) : Prop :=
  ∃ fuel, estimatePrecisionByRadius fuel radius latitude = some precision

def poleward (latitude : ℚ) : Nat :=
  if latitude > 66 ∨ latitude < -66 then if latitude > 80 ∨ latitude < -80 then 2 else 1 else 0

def Doubled (radius : ℚ) (n : Nat) : Prop :=
  (∀ i < n, radius * 2 ^ i < mercatorMax) ∧ mercatorMax ≤ radius * 2 ^ n

variable {radius larger latitude : ℚ} {n m k precision : Nat}

theorem doubled_zero : Doubled radius 0 ↔ ¬ radius < mercatorMax := by
  simp [Doubled]

theorem doubled_succ : Doubled radius (n + 1) ↔
    radius < mercatorMax ∧ Doubled (radius * 2) n := by
  rw [Doubled, Nat.forall_lt_succ_left]
  simp [Doubled, pow_succ', mul_assoc, and_assoc]

theorem double_iff : (∃ fuel, double fuel radius k = some precision) ↔
    ∃ n, Doubled radius n ∧ k + n = precision := by
  constructor
  · rintro ⟨fuel, run⟩
    induction fuel generalizing radius k with
    | zero =>
      simp only [double, Option.ite_none_left_eq_some, Option.some.injEq] at run
      exact ⟨0, doubled_zero.mpr run.1, run.2⟩
    | succ fuel ih =>
      rw [double] at run
      split at run
      · rename_i less
        obtain ⟨n, doubled, rfl⟩ := ih run
        exact ⟨n + 1, doubled_succ.mpr ⟨less, doubled⟩, by omega⟩
      · rename_i enough
        exact ⟨0, doubled_zero.mpr enough, Option.some.inj run⟩
  · rintro ⟨n, doubled, rfl⟩
    refine ⟨n, ?_⟩
    induction n generalizing radius k with
    | zero => rw [double, if_neg (doubled_zero.mp doubled), Nat.add_zero]
    | succ n ih =>
      obtain ⟨less, doubled⟩ := doubled_succ.mp doubled
      rw [double, if_pos less, ih doubled, Nat.add_assoc, Nat.add_comm 1]

theorem exists_doubled (positive : 0 < radius) : ∃ n, Doubled radius n := by
  have reached : ∃ n : Nat, mercatorMax ≤ radius * 2 ^ n := by
    obtain ⟨n, less⟩ := pow_unbounded_of_one_lt (mercatorMax / radius) one_lt_two
    exact ⟨n, ((div_lt_iff₀' positive).mp less).le⟩
  exact ⟨Nat.find reached, fun i less => not_le.mp (Nat.find_min reached less),
    Nat.find_spec reached⟩

theorem mercatorMax_pos : 0 < mercatorMax := by
  norm_num [mercatorMax]

theorem Doubled.positive (doubled : Doubled radius n) : 0 < radius :=
  pos_of_mul_pos_left (mercatorMax_pos.trans_le doubled.2) (by positivity)

theorem Doubled.lt_iff (doubled : Doubled radius n) : radius * 2 ^ k < mercatorMax ↔ k < n := by
  refine ⟨fun less => ?_, doubled.1 k⟩
  by_contra before
  have grown : radius * 2 ^ n ≤ radius * 2 ^ k :=
    mul_le_mul_of_nonneg_left (pow_le_pow_right₀ one_le_two (not_lt.mp before)) doubled.positive.le
  linarith [doubled.2]

theorem Doubled.unique (doubled : Doubled radius n) : Doubled radius m ↔ m = n := by
  refine ⟨fun doubled' => ?_, fun same => same ▸ doubled⟩
  have first : n < m ↔ n < n := doubled'.lt_iff.symm.trans doubled.lt_iff
  have second : m < n ↔ m < m := doubled.lt_iff.symm.trans doubled'.lt_iff
  omega

theorem estimates_iff (nonzero : radius ≠ 0) : Estimates radius latitude precision ↔
    ∃ n, Doubled radius n ∧ adjust latitude (1 + n) = precision := by
  simp only [Estimates, estimatePrecisionByRadius, if_neg nonzero, Option.map_eq_some_iff]
  rw [exists_comm]
  simp only [exists_and_right, double_iff]
  grind

/-- The counter wraps below zero when the radius is large. -/
theorem adjust_eq (latitude : ℚ) (n : Nat) : adjust latitude (1 + n) =
    if n ≤ poleward latitude then 63 else 2 * min 32 (max 1 (n - 1 - poleward latitude)) - 1 := by
  unfold adjust poleward minus
  grind

/-- Both calls return a precision in range, and the larger radius does not get a larger one. -/
def Falls (radius larger latitude : ℚ) : Prop :=
  ∃ p q, Estimates radius latitude p ∧ Estimates larger latitude q ∧
    1 ≤ p ∧ p ≤ 63 ∧ 1 ≤ q ∧ q ≤ 63 ∧ q ≤ p

theorem precision_falls_iff (le : radius ≤ larger) : Falls radius larger latitude ↔
    0 ≤ radius ∧ (larger * 2 ^ poleward latitude < mercatorMax ∨
      mercatorMax ≤ radius * 2 ^ poleward latitude ∨
      radius * 2 ^ (32 + poleward latitude) < mercatorMax) := by
  have zero : ∀ p, Estimates 0 latitude p ↔ p = 63 := by
    simp [Estimates, estimatePrecisionByRadius, eq_comm]
  rcases lt_trichotomy radius 0 with negative | rfl | above
  · refine iff_of_false ?_ fun condition => absurd condition.1 (not_le.mpr negative)
    rintro ⟨p, q, estimated, -⟩
    obtain ⟨n, doubled, -⟩ := (estimates_iff negative.ne).mp estimated
    exact lt_asymm doubled.positive negative
  · refine iff_of_true ?_ ⟨le_rfl, .inr (.inr (by simpa using mercatorMax_pos))⟩
    rcases le.eq_or_lt with rfl | above
    · exact ⟨63, 63, (zero _).mpr rfl, (zero _).mpr rfl, by decide⟩
    · obtain ⟨m, doubled⟩ := exists_doubled above
      refine ⟨63, _, (zero _).mpr rfl, (estimates_iff above.ne').mpr ⟨m, doubled, rfl⟩, ?_⟩
      rw [adjust_eq]
      grind
  · have above' := above.trans_le le
    obtain ⟨n, doubled⟩ := exists_doubled above
    obtain ⟨m, doubled'⟩ := exists_doubled above'
    have only : ∀ n', Doubled radius n' ↔ n' = n := fun n' => doubled.unique
    have only' : ∀ m', Doubled larger m' ↔ m' = m := fun m' => doubled'.unique
    have fewer : m ≤ n := by
      have grown : radius * 2 ^ n ≤ larger * 2 ^ n := mul_le_mul_of_nonneg_right le (by positivity)
      exact not_lt.mp (doubled'.lt_iff.not.mp (not_lt.mpr (doubled.2.trans grown)))
    rw [← not_lt (b := mercatorMax), doubled'.lt_iff, doubled.lt_iff, doubled.lt_iff]
    simp only [Falls, estimates_iff above.ne', estimates_iff above'.ne', only, only', exists_eq_left, ↓existsAndEq,
      adjust_eq, above.le, true_and]
    grind

theorem precision_falls_for_kilometres : (1000 : ℚ) ≤ 2000 ∧ Falls 1000 2000 0 := by
  have le : (1000 : ℚ) ≤ 2000 := by norm_num
  exact ⟨le, (precision_falls_iff le).mpr (by norm_num [poleward, mercatorMax])⟩

/-- A kilometre is searched in cells of 27 bits, thirty thousand in cells of 63. -/
theorem precision_rises : estimatePrecisionByRadius 15 1000 0 = some 27 ∧
    estimatePrecisionByRadius 0 30000000 0 = some 63 := by
  norm_num [estimatePrecisionByRadius, double, mercatorMax, adjust, minus]

end Godis.Geohash
