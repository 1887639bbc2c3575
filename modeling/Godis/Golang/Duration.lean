import Mathlib.Data.Int.Log
import Mathlib.Data.Rat.Floor
import Mathlib.Tactic

/-!
# Durations and their seconds

`Duration.Seconds` adds the whole seconds and the rest as `float64`, each rounded to 53 bits.
-/

namespace Golang

def roundEven (x : ℚ) : ℤ :=
  if Int.fract x < 1 / 2 ∨ Int.fract x = 1 / 2 ∧ Even ⌊x⌋ then ⌊x⌋ else ⌊x⌋ + 1

/-- The nearest `float64` to a number that is not negative, and neither too large nor too small. -/
def nearest (x : ℚ) : ℚ :=
  let unit : ℚ := 2 ^ (Int.log 2 x - 52)
  roundEven (x / unit) * unit

/-- `int(d.Seconds())` of a duration in nanoseconds. -/
def seconds (d : Nat) : Nat :=
  ⌊nearest ((d / 10 ^ 9 : Nat) + nearest ((d % 10 ^ 9 : Nat) / 10 ^ 9))⌋₊

/-- The next full second is nearer than any `float64` before it. -/
def RoundsUp (d : Nat) : Prop :=
  (10 ^ 9 - d % 10 ^ 9) * 2 ^ 53 ≤ 10 ^ 9 * 2 ^ Nat.log 2 (d / 10 ^ 9)

instance instDecidableRoundsUp (d : Nat) : Decidable (RoundsUp d) :=
  inferInstanceAs (Decidable (_ ≤ _))

/-- The nanoseconds a duration has beyond the seconds it counts as, below zero if it is rounded up. -/
def beyond (d : Nat) : ℤ :=
  if RoundsUp d then d % 10 ^ 9 - 10 ^ 9 else d % 10 ^ 9

theorem roundEven_bounds (x : ℚ) : x - 1 / 2 ≤ roundEven x ∧ roundEven x ≤ x + 1 / 2 := by
  have whole : (⌊x⌋ : ℚ) = x - Int.fract x := (Int.self_sub_fract x).symm
  have low := Int.fract_nonneg x
  have high := Int.fract_lt_one x
  unfold roundEven
  split
  · rename_i down
    have half : Int.fract x ≤ 1 / 2 := down.elim le_of_lt fun tie => tie.1.le
    constructor <;> linarith
  · rename_i up
    have half : 1 / 2 ≤ Int.fract x := not_lt.mp fun below => up (.inl below)
    push_cast
    constructor <;> linarith

/-- A tie is rounded to the even number. -/
theorem le_roundEven_iff {n : ℤ} (even : Even n) {x : ℚ} : n ≤ roundEven x ↔ (n : ℚ) - 1 / 2 ≤ x := by
  constructor
  · intro le
    have : (n : ℚ) ≤ roundEven x := by exact_mod_cast le
    linarith [(roundEven_bounds x).2]
  · intro le
    by_contra less
    have below : (roundEven x : ℚ) ≤ n - 1 := by exact_mod_cast Int.le_sub_one_of_lt (not_le.mp less)
    have tie : x = n - 1 / 2 := le_antisymm (by linarith [(roundEven_bounds x).1]) le
    have floor : ⌊x⌋ = n - 1 := by
      rw [Int.floor_eq_iff, tie]
      push_cast
      constructor <;> linarith
    have half : Int.fract x = 1 / 2 := by
      rw [Int.fract, floor, tie]
      push_cast
      ring
    have odd : ¬ Even (n - 1) := by
      rw [Int.not_even_iff_odd]
      exact even.sub_odd odd_one
    rw [roundEven, floor, half] at less
    simp [odd] at less

theorem nearest_bounds {x : ℚ} {e : ℤ} (small : Int.log 2 x ≤ e) :
    x - 2 ^ (e - 53) ≤ nearest x ∧ nearest x ≤ x + 2 ^ (e - 53) := by
  have positive : (0 : ℚ) < 2 ^ (Int.log 2 x - 52) := by positivity
  have unit : (2 : ℚ) ^ (Int.log 2 x - 52) ≤ 2 * 2 ^ (e - 53) := by
    rw [← zpow_one_add₀ (by norm_num)]
    exact zpow_le_zpow_right₀ (by norm_num) (by omega)
  obtain ⟨low, high⟩ := roundEven_bounds (x / 2 ^ (Int.log 2 x - 52))
  have back : x / 2 ^ (Int.log 2 x - 52) * 2 ^ (Int.log 2 x - 52) = x :=
    div_mul_cancel₀ x positive.ne'
  have := mul_le_mul_of_nonneg_right low positive.le
  have := mul_le_mul_of_nonneg_right high positive.le
  simp only [nearest]
  constructor <;> linarith

/-- A whole number has an even number of units. -/
theorem le_nearest_iff {n k : Nat} {x : ℚ} (log : Int.log 2 x = k) (small : k < 52) :
    n ≤ nearest x ↔ (n : ℚ) - 2 ^ ((k : ℤ) - 53) ≤ x := by
  have unit : (2 : ℚ) ^ ((k : ℤ) - 52) = 2 * 2 ^ ((k : ℤ) - 53) := by
    rw [← zpow_one_add₀ (by norm_num)]
    ring_nf
  have positive : (0 : ℚ) < 2 ^ ((k : ℤ) - 53) := by positivity
  have units : (n : ℚ) / 2 ^ ((k : ℤ) - 52) = (n * 2 ^ (52 - k) : ℤ) := by
    rw [div_eq_mul_inv, ← zpow_neg, neg_sub]
    push_cast
    rw [← zpow_natCast, Nat.cast_sub small.le]
    rfl
  have even : Even (n * 2 ^ (52 - k) : ℤ) :=
    Even.mul_left (Int.even_pow.mpr ⟨even_two, by omega⟩) _
  simp only [nearest, log]
  rw [← div_le_iff₀ (by rw [unit]; positivity), units, Int.cast_le, le_roundEven_iff even, ← units, unit,
    sub_le_iff_le_add, div_le_iff₀ (by positivity), add_mul, div_mul_cancel₀ _ (by positivity)]
  constructor <;> intro le <;> linarith

theorem floor_nearest {s : Nat} {x : ℚ} (some_ : s ≠ 0) (small : Nat.log 2 s < 52) (low : s ≤ x)
    (high : x < s + 1) :
    ⌊nearest x⌋₊ = if s + 1 - 2 ^ ((Nat.log 2 s : ℤ) - 53) ≤ x then s + 1 else s := by
  have floor : ⌊x⌋₊ = s := (Nat.floor_eq_iff ((Nat.cast_nonneg s).trans low)).mpr ⟨low, high⟩
  have one : (1 : ℚ) ≤ x := le_trans (by exact_mod_cast Nat.one_le_iff_ne_zero.mpr some_) low
  have log : Int.log 2 x = Nat.log 2 s := by rw [Int.log_of_one_le_right 2 one, floor]
  have reaches (n : Nat) := le_nearest_iff (n := n) log small
  have positive : (0 : ℚ) < 2 ^ ((Nat.log 2 s : ℤ) - 53) := by positivity
  have unit : (2 : ℚ) ^ ((Nat.log 2 s : ℤ) - 53) ≤ 1 := zpow_le_one_of_nonpos₀ (by norm_num) (by omega)
  have least : (s : ℚ) ≤ nearest x := (reaches s).mpr (by linarith)
  split
  · rename_i up
    refine (Nat.floor_eq_iff ((Nat.cast_nonneg s).trans least)).mpr
      ⟨(reaches (s + 1)).mpr (by push_cast; exact up), not_le.mp fun more => ?_⟩
    have := (reaches (s + 2)).mp (by push_cast at more ⊢; linarith)
    push_cast at this
    linarith
  · rename_i down
    refine (Nat.floor_eq_iff ((Nat.cast_nonneg s).trans least)).mpr ⟨least, not_le.mp fun more => down ?_⟩
    exact_mod_cast (reaches (s + 1)).mp (by exact_mod_cast more)

/-- A number of nanoseconds times 2 ^ 53 is not near 10 ^ 9 times a smaller power of two. -/
theorem far_from_half_unit {m k : Nat} (some_ : 0 < m) (small : k ≤ 33) :
    m * 2 ^ 53 + 10 ^ 9 ≤ 10 ^ 9 * 2 ^ k ∨ 10 ^ 9 * 2 ^ k + 10 ^ 9 < m * 2 ^ 53 := by
  interval_cases k <;> simp only [Nat.reducePow, Nat.reduceMul] <;> omega

theorem nearest_of_fraction {x : ℚ} (small : x < 1) :
    x - 2⁻¹ ^ 53 ≤ nearest x ∧ nearest x ≤ x + 2⁻¹ ^ 53 := by
  have log : Int.log 2 x ≤ 0 := by
    rw [Int.log_of_right_le_one 2 small.le]
    exact neg_nonpos.mpr (Int.natCast_nonneg _)
  have bounds := nearest_bounds log
  norm_num at bounds ⊢
  exact bounds

theorem seconds_eq {d : Nat} (short : d < 2 ^ 63) :
    seconds d = d / 10 ^ 9 + if RoundsUp d then 1 else 0 := by
  have log : Nat.log 2 (d / 10 ^ 9) ≤ 33 := by
    refine Nat.lt_succ_iff.mp (Nat.log_lt_of_lt_pow' (by decide) ?_)
    omega
  obtain ⟨m, isM, some_⟩ : ∃ m, d % 10 ^ 9 + m = 10 ^ 9 ∧ 0 < m := ⟨10 ^ 9 - d % 10 ^ 9, by omega⟩
  have fraction : ((d % 10 ^ 9 : Nat) : ℚ) / 10 ^ 9 = 1 - m / 10 ^ 9 := by
    have : ((d % 10 ^ 9 : Nat) : ℚ) + m = 10 ^ 9 := by exact_mod_cast isM
    rw [eq_sub_iff_add_eq, ← add_div, this, div_self (by norm_num)]
  have up : RoundsUp d ↔ m * 2 ^ 53 ≤ 10 ^ 9 * 2 ^ Nat.log 2 (d / 10 ^ 9) := by
    rw [RoundsUp, show 10 ^ 9 - d % 10 ^ 9 = m by omega]
  have one : (1 : ℚ) ≤ m := by exact_mod_cast some_
  obtain ⟨low, high⟩ := nearest_of_fraction (x := 1 - m / 10 ^ 9) (by linarith)
  have nonneg : 0 ≤ nearest ((d % 10 ^ 9 : Nat) / 10 ^ 9) := by
    refine mul_nonneg (Int.cast_nonneg ((le_roundEven_iff Even.zero).mpr ?_)) (by positivity)
    exact le_trans (by norm_num) (by positivity : (0 : ℚ) ≤ _)
  rw [seconds]
  rw [fraction] at nonneg ⊢
  generalize nearest (1 - m / 10 ^ 9) = y at low high nonneg
  by_cases zero : d / 10 ^ 9 = 0
  · have less := (nearest_of_fraction (x := 0 + y) (by linarith)).2
    rw [zero] at up ⊢
    rw [if_neg (mt up.mp (by simp; omega)), Nat.cast_zero]
    exact Nat.floor_eq_zero.mpr (by linarith)
  · have near : (d / 10 ^ 9 : Nat) + 1 - 2 ^ ((Nat.log 2 (d / 10 ^ 9) : ℤ) - 53) ≤ (d / 10 ^ 9 : Nat) + y ↔
        RoundsUp d := by
      rw [up, add_sub_assoc, add_le_add_iff_left, zpow_sub₀ (by norm_num), zpow_natCast]
      rcases far_from_half_unit some_ log with below | above
      · have far : (m * 2 ^ 53 + 10 ^ 9 : ℚ) ≤ 10 ^ 9 * 2 ^ Nat.log 2 (d / 10 ^ 9) := by exact_mod_cast below
        exact iff_of_true (by linarith) (le_of_add_le_left below)
      · have far : (10 ^ 9 * 2 ^ Nat.log 2 (d / 10 ^ 9) + 10 ^ 9 : ℚ) < m * 2 ^ 53 := by exact_mod_cast above
        exact iff_of_false (by linarith) (not_le.mpr (lt_of_le_of_lt (Nat.le_add_right _ _) above))
    rw [floor_nearest zero (by omega) (by linarith) (by linarith)]
    simp only [near]
    split <;> rfl

theorem beyond_eq {d : Nat} (short : d < 2 ^ 63) : (d : ℤ) = 10 ^ 9 * seconds d + beyond d := by
  rw [seconds_eq short, beyond]
  have parts := Nat.div_add_mod d (10 ^ 9)
  split <;> omega

end Golang
