import Godis.Golang.Duration

/-!
# The time wheel (`lib/timewheel/timewheel.go`)

Durations are in nanoseconds.
-/

namespace Godis

open Golang

structure TimeWheel where
  interval : Nat
  currentPos : Nat
  slotNum : Nat

namespace TimeWheel

/-- `nil` for an interval or a slot number that is not positive. -/
def new (interval slotNum : Nat) : Option TimeWheel :=
  if interval = 0 ∨ slotNum = 0 then none else some ⟨interval, 0, slotNum⟩

/-- Without a result it divides by zero. -/
def getPositionAndCircle (tw : TimeWheel) (d : Nat) : Option (Nat × Nat) :=
  let delaySeconds := seconds d
  let intervalSeconds := seconds tw.interval
  if intervalSeconds = 0 ∨ tw.slotNum = 0 then none
  else
    some ((tw.currentPos + delaySeconds / intervalSeconds) % tw.slotNum,
      delaySeconds / intervalSeconds / tw.slotNum)

/-- The position and the circle count say how many whole intervals the delay has if these last a
second at least, and the rest of the delay and what the intervals have beyond their seconds, less what
the delay has beyond its own, are shorter than the seconds of an interval, and not below zero. -/
theorem whole_intervals_iff (tw : TimeWheel) (positive : 0 < tw.slotNum) (d : Nat)
    (short : tw.interval < 2 ^ 63) (short' : d < 2 ^ 63) :
    (∃ pos circle, tw.getPositionAndCircle d = some (pos, circle) ∧ pos < tw.slotNum ∧
      (circle * tw.slotNum + (pos - tw.currentPos : ℤ) % tw.slotNum : ℤ) = (d / tw.interval : Nat)) ↔
    10 ^ 9 ≤ tw.interval ∧
      beyond d ≤ (d % tw.interval : Nat) + (d / tw.interval : Nat) * beyond tw.interval ∧
      (d % tw.interval : Nat) + (d / tw.interval : Nat) * beyond tw.interval - beyond d <
        tw.interval - beyond tw.interval := by
  have some_ : tw.slotNum ≠ 0 := Nat.ne_of_gt positive
  have number : ∀ q : Nat, (((q / tw.slotNum : Nat) : ℤ) * tw.slotNum +
      (((tw.currentPos + q) % tw.slotNum : Nat) - tw.currentPos : ℤ) % tw.slotNum : ℤ) = q := by
    intro q
    push_cast
    rw [Int.emod_sub_emod, add_sub_cancel_left, mul_comm, Int.mul_ediv_add_emod]
  have isZero : seconds tw.interval = 0 ↔ tw.interval < 10 ^ 9 := by
    rw [seconds_eq short, Nat.add_eq_zero_iff, Nat.div_eq_zero_iff_lt (by decide), and_iff_left_of_imp]
    intro less
    rw [if_neg]
    rw [RoundsUp, Nat.div_eq_of_lt less, Nat.log_zero_right, Nat.mod_eq_of_lt less]
    omega
  unfold getPositionAndCircle
  by_cases zero : seconds tw.interval = 0
  · simp only [zero, true_or, if_true, reduceCtorEq, false_and, exists_false, false_iff]
    exact fun lasts => absurd (isZero.mp zero) (not_lt.mpr lasts.1)
  · have quotient : seconds d / seconds tw.interval = d / tw.interval ↔
        beyond d ≤ (d % tw.interval : Nat) + (d / tw.interval : Nat) * beyond tw.interval ∧
          (d % tw.interval : Nat) + (d / tw.interval : Nat) * beyond tw.interval - beyond d <
            tw.interval - beyond tw.interval := by
      have whole := beyond_eq short
      have parts : (d : ℤ) = tw.interval * (d / tw.interval : Nat) + (d % tw.interval : Nat) := by
        exact_mod_cast (Nat.div_add_mod d tw.interval).symm
      have excess : (d % tw.interval : Nat) + (d / tw.interval : Nat) * beyond tw.interval - beyond d =
          10 ^ 9 * (seconds d - (d / tw.interval : Nat) * seconds tw.interval : ℤ) := by
        linear_combination beyond_eq short' - parts - (d / tw.interval : Nat) * whole
      rw [← sub_nonneg, excess, ← eq_sub_of_add_eq whole.symm, mul_lt_mul_iff_right₀ (by norm_num),
        mul_nonneg_iff_of_pos_left (by norm_num), le_antisymm_iff, ← Nat.lt_succ_iff,
        Nat.div_lt_iff_lt_mul (Nat.pos_of_ne_zero zero),
        Nat.le_div_iff_mul_le (Nat.pos_of_ne_zero zero), Nat.succ_mul]
      omega
    simp only [zero, some_, or_self, if_false, Option.some.injEq, Prod.mk.injEq]
    rw [and_iff_right (not_lt.mp (mt isZero.mpr zero)), ← quotient]
    constructor
    · rintro ⟨_, _, ⟨rfl, rfl⟩, -, same⟩
      rw [number] at same
      exact Int.ofNat_inj.mp same
    · intro same
      refine ⟨_, _, ⟨rfl, rfl⟩, Nat.mod_lt _ positive, ?_⟩
      rw [number, same]

theorem whole_intervals_of_minute : ∃ tw, new 1000000000 3600 = some tw ∧
    ∃ pos circle, tw.getPositionAndCircle 60000000000 = some (pos, circle) ∧ pos < 3600 ∧
      (circle * 3600 + (pos - 0 : ℤ) % 3600 : ℤ) = 60 :=
  ⟨⟨1000000000, 0, 3600⟩, rfl, (whole_intervals_iff ⟨1000000000, 0, 3600⟩ (by decide) 60000000000
    (by decide) (by decide)).mpr (by decide +kernel)⟩

/-- Half a second is no second. -/
theorem half_second_divides_by_zero : ∃ tw, new 500000000 10 = some tw ∧ tw.getPositionAndCircle 0 = none :=
  ⟨⟨500000000, 0, 10⟩, rfl, by decide +kernel⟩

end TimeWheel

end Godis
