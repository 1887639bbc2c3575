import Mathlib.Tactic
import Mathlib.Data.List.Sort
import Mathlib.Data.Finset.Sort
import Mathlib.Order.Lex
import Mathlib.Data.UInt

/-!
# Byte strings
-/

namespace Golang


/-- A Go string, or a byte slice that nothing writes to. -/
abbrev Str := List UInt8

/-- The largest block of memory the runtime tries to allocate: `make` and `append` panic above it. -/
def maxAlloc : Nat :=
  2 ^ 48

instance instLawfulBEqStr : LawfulBEq Str :=
  inferInstance

def lit (text : String) : Str :=
  text.toByteArray.data.toList

def lowerByte (byte : UInt8) : UInt8 :=
  if 65 ≤ byte.toNat ∧ byte.toNat ≤ 90 then byte + 32 else byte

def upperByte (byte : UInt8) : UInt8 :=
  if 97 ≤ byte.toNat ∧ byte.toNat ≤ 122 then byte - 32 else byte

/-- `strings.ToLower` as far as the result can be ASCII: of the characters outside ASCII only
the Kelvin sign and the capital I with a dot become ASCII letters. -/
def toLower : Str → Str
  | 0xE2 :: 0x84 :: 0xAA :: rest => 107 :: toLower rest
  | 0xC4 :: 0xB0 :: rest => 105 :: toLower rest
  | byte :: rest => lowerByte byte :: toLower rest
  | [] => []

/-- `strings.ToUpper` as far as the result can be ASCII: of the characters outside ASCII only
the long s and the dotless i become ASCII letters. -/
def toUpper : Str → Str
  | 0xC5 :: 0xBF :: rest => 83 :: toUpper rest
  | 0xC4 :: 0xB1 :: rest => 73 :: toUpper rest
  | byte :: rest => upperByte byte :: toUpper rest
  | [] => []

instance linearOrderByte : LinearOrder UInt8 :=
  LinearOrder.lift' UInt8.toNat fun _ _ same => UInt8.toNat_inj.mp same

section Sorted

variable {α : Type} [LinearOrder α]

theorem insertionSort_eq_of_perm {first second : List α} (perm : first.Perm second) :
    first.insertionSort (· ≤ ·) = second.insertionSort (· ≤ ·) := by
  have samePerm : (first.insertionSort (· ≤ ·)).Perm (second.insertionSort (· ≤ ·)) :=
    ((List.perm_insertionSort _ first).trans perm).trans (List.perm_insertionSort _ second).symm
  exact samePerm.eq_of_pairwise (fun _ _ _ _ le ge => le_antisymm le ge)
    (List.pairwise_insertionSort (· ≤ ·) first) (List.pairwise_insertionSort (· ≤ ·) second)

def sorted (members : Finset α) : List α :=
  Quot.liftOn members.val (fun list => list.insertionSort (· ≤ ·))
    fun _ _ perm => insertionSort_eq_of_perm perm

variable (members : Finset α)

theorem sorted_spec :
    (sorted members : Multiset α) = members.val ∧ (sorted members).Pairwise (· ≤ ·) := by
  obtain ⟨values, _⟩ := members
  induction values using Quot.inductionOn with
  | h list =>
    exact ⟨Multiset.coe_eq_coe.mpr (List.perm_insertionSort _ list),
      List.pairwise_insertionSort (· ≤ ·) list⟩

@[simp]
theorem mem_sorted {members : Finset α} {member : α} :
    member ∈ sorted members ↔ member ∈ members := by
  rw [← Multiset.mem_coe, (sorted_spec members).1, Finset.mem_val]

theorem nodup_sorted : (sorted members).Nodup := by
  rw [← Multiset.coe_nodup, (sorted_spec members).1]
  exact members.nodup

theorem length_sorted : (sorted members).length = members.card := by
  rw [← Multiset.coe_card, (sorted_spec members).1, Finset.card_val]

end Sorted

end Golang

