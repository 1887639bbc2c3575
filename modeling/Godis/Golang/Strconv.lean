import Godis.Golang.Str
import Mathlib.Data.Nat.Digits.Defs
import Mathlib.Data.Nat.Digits.Lemmas

/-!
# Decimal integers

`strconv.ParseInt(s, 10, 64)` and `strconv.FormatInt(n, 10)`, and the machine arithmetic of
`int64` they serve.
-/

namespace Golang

def wrap64 (n : Int) : Int :=
  (n + 2 ^ 63) % 2 ^ 64 - 2 ^ 63

def InInt64 (n : Int) : Prop :=
  -2 ^ 63 ≤ n ∧ n < 2 ^ 63

instance (n : Int) : Decidable (InInt64 n) :=
  inferInstanceAs (Decidable (_ ∧ _))

theorem wrap64_of_inInt64 {n : Int} (fits : InInt64 n) : wrap64 n = n := by
  unfold wrap64
  have low := fits.1
  have high := fits.2
  omega

theorem inInt64_wrap64 {n : Int} : InInt64 (wrap64 n) := by
  unfold InInt64 wrap64
  omega

inductive NumError where
  | invalid
  | range
  deriving DecidableEq, Repr

def isDigit (byte : UInt8) : Bool :=
  48 ≤ byte.toNat && byte.toNat ≤ 57

/-- `strconv.ParseUint`: a number that no longer fits is refused at the digit that overflows. -/
def parseDigits (soFar : Nat) : Str → Except NumError Nat
  | [] => .ok soFar
  | byte :: rest =>
    if isDigit byte then
      if soFar * 10 + (byte.toNat - 48) < 2 ^ 64 then
        parseDigits (soFar * 10 + (byte.toNat - 48)) rest
      else .error .range
    else .error .invalid

def parseUint : Str → Except NumError Nat
  | [] => .error .invalid
  | text => parseDigits 0 text

def signed (negative : Bool) (digits : Str) : Except NumError Int :=
  match parseUint digits with
  | .error error => .error error
  | .ok n =>
    if negative then
      if n ≤ 2 ^ 63 then .ok (-n) else .error .range
    else if n < 2 ^ 63 then .ok n else .error .range

def parseInt : Str → Except NumError Int
  | 43 :: digits => signed false digits
  | 45 :: digits => signed true digits
  | text => signed false text

def formatNat (n : Nat) : Str :=
  if n = 0 then [48] else (Nat.digits 10 n).reverse.map fun digit => (48 + digit).toUInt8

def formatInt (n : Int) : Str :=
  if n < 0 then 45 :: formatNat n.natAbs else formatNat n.natAbs

variable {digit n : Nat} {rest : Str}

theorem digit_byte (small : digit < 10) :
    (48 + digit).toUInt8.toNat = 48 + digit := by
  rw [UInt8.toNat_ofNat']
  omega

theorem parseDigits_digit {soFar : Nat} (small : digit < 10) (fits : soFar * 10 + digit < 2 ^ 64) :
    parseDigits soFar ((48 + digit).toUInt8 :: rest) = parseDigits (soFar * 10 + digit) rest := by
  have shape := digit_byte small
  have isOne : isDigit (48 + digit).toUInt8 = true := by
    simp only [isDigit, shape, Bool.and_eq_true, decide_eq_true_eq]
    omega
  rw [parseDigits, if_pos isOne, shape, Nat.add_sub_cancel_left, if_pos fits]

theorem parseDigits_digits (n soFar : Nat) (rest : Str) {width : Nat}
    (count : (Nat.digits 10 n).length = width)
    (fits : soFar * 10 ^ width + n < 2 ^ 64) :
    parseDigits soFar (((Nat.digits 10 n).reverse.map fun digit => (48 + digit).toUInt8) ++ rest) =
      parseDigits (soFar * 10 ^ width + n) rest := by
  induction n using Nat.strong_induction_on generalizing soFar rest width with
  | _ n ih =>
    by_cases zero : n = 0
    · subst zero
      subst count
      simp
    · have positive : 0 < n := Nat.pos_of_ne_zero zero
      have unfoldDigits := Nat.digits_def' (b := 10) (by norm_num) positive
      rw [unfoldDigits] at count ⊢
      simp only [List.length_cons] at count
      subst count
      have split : soFar * 10 ^ ((Nat.digits 10 (n / 10)).length + 1) + n =
          (soFar * 10 ^ (Nat.digits 10 (n / 10)).length + n / 10) * 10 + n % 10 := by
        have parts := Nat.div_add_mod n 10
        rw [pow_succ]
        linarith [parts]
      have smaller : soFar * 10 ^ (Nat.digits 10 (n / 10)).length + n / 10 < 2 ^ 64 := by
        omega
      rw [List.reverse_cons, List.map_append, List.append_assoc,
        ih (n / 10) (Nat.div_lt_self positive (by norm_num)) soFar _ rfl smaller]
      simp only [List.map_cons, List.map_nil, List.cons_append, List.nil_append]
      rw [parseDigits_digit (Nat.mod_lt _ (by norm_num)) (by omega), split]

theorem parseUint_formatNat (fits : n < 2 ^ 64) : parseUint (formatNat n) = .ok n := by
  unfold formatNat
  by_cases zero : n = 0
  · subst zero
    rfl
  · rw [if_neg zero]
    have read := parseDigits_digits n 0 [] rfl (by simpa using fits)
    rw [List.append_nil, Nat.zero_mul, Nat.zero_add] at read
    have notEmpty : (Nat.digits 10 n).reverse.map (fun digit => (48 + digit).toUInt8) ≠ [] := by
      simpa using Nat.digits_ne_nil_iff_ne_zero.mpr zero
    unfold parseUint
    split
    · exact absurd ‹_› notEmpty
    · exact read

theorem formatNat_head (n : Nat) :
    ∃ byte rest, formatNat n = byte :: rest ∧ isDigit byte = true := by
  unfold formatNat
  by_cases zero : n = 0
  · exact ⟨48, [], by rw [if_pos zero], rfl⟩
  · rw [if_neg zero]
    have notEmpty : (Nat.digits 10 n).reverse ≠ [] := by
      simpa using Nat.digits_ne_nil_iff_ne_zero.mpr zero
    obtain ⟨digit, rest, shape⟩ := List.exists_cons_of_ne_nil notEmpty
    have member : digit ∈ Nat.digits 10 n := by
      rw [← List.mem_reverse, shape]
      exact List.mem_cons_self
    have small := Nat.digits_lt_base (b := 10) (by norm_num) member
    refine ⟨(48 + digit).toUInt8, rest.map _, by rw [shape, List.map_cons], ?_⟩
    simp only [isDigit, digit_byte small, Bool.and_eq_true, decide_eq_true_eq]
    omega

theorem parseInt_of_digit {byte : UInt8} (digit : isDigit byte = true) :
    parseInt (byte :: rest) = signed false (byte :: rest) := by
  unfold parseInt
  split
  · rename_i shape
    cases shape
    cases digit
  · rename_i shape
    cases shape
    cases digit
  · rfl

theorem parseInt_formatInt {n : Int} (fits : InInt64 n) : parseInt (formatInt n) = .ok n := by
  obtain ⟨_, _⟩ := fits
  unfold formatInt
  by_cases negative : n < 0
  · rw [if_pos negative]
    change signed true (formatNat n.natAbs) = _
    unfold signed
    rw [parseUint_formatNat (by omega)]
    simp only [if_true]
    rw [if_pos (by omega)]
    congr 1
    omega
  · rw [if_neg negative]
    obtain ⟨_, _, shape, digit⟩ := formatNat_head n.natAbs
    rw [shape, parseInt_of_digit digit, ← shape]
    unfold signed
    rw [parseUint_formatNat (by omega)]
    simp only [Bool.false_eq_true, if_false]
    rw [if_pos (by omega)]
    congr 1
    omega

theorem parseInt_formatNat (fits : n < 2 ^ 63) : parseInt (formatNat n) = .ok n := by
  have read := parseInt_formatInt (n := n) ⟨by omega, by omega⟩
  rwa [formatInt] at read

theorem formatNat_digits : ∀ byte ∈ formatNat n, isDigit byte = true := by
  unfold formatNat
  split
  · intro byte member
    cases List.mem_singleton.mp member
    rfl
  · intro byte member
    obtain ⟨_, inside, rfl⟩ := List.mem_map.mp member
    have small := Nat.digits_lt_base (b := 10) (by norm_num) (List.mem_reverse.mp inside)
    simp only [isDigit, digit_byte small, Bool.and_eq_true, decide_eq_true_eq]
    omega

end Golang

