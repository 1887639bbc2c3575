import Godis.Golang.Str

/-!
# Bitmaps (`datastruct/bitmap`)
-/

namespace Godis

open Golang

abbrev BitMap := Str

namespace BitMap

def toByteSize (bitSize : Nat) : Nat :=
  if bitSize % 8 = 0 then bitSize / 8 else bitSize / 8 + 1

/-- Without a result `make` or `append` panics. -/
def grow (b : BitMap) (bitSize : Nat) : Option BitMap :=
  let byteSize := toByteSize bitSize
  if byteSize ≤ b.length then some b
  else if maxAlloc < byteSize then none
  else some (b ++ List.replicate (byteSize - b.length) 0)

def setBit (b : BitMap) (offset : Nat) (val : UInt8) : Option BitMap := do
  let byteIndex := offset / 8
  let bitOffset := offset % 8
  let mask : UInt8 := 1 <<< bitOffset.toUInt8
  let b ← grow b (offset + 1)
  return if val > 0 then b.modify byteIndex (· ||| mask) else b.modify byteIndex (· &&& ~~~ mask)

def getBit (b : BitMap) (offset : Nat) : UInt8 :=
  let byteIndex := offset / 8
  let bitOffset := offset % 8
  if byteIndex ≥ b.length then 0 else b.getD byteIndex 0 >>> bitOffset.toUInt8 &&& 1

theorem bits_of_byte (byte : UInt8) {bit other : Nat} (low : bit < 8) (low' : other < 8) :
    (byte ||| 1 <<< bit.toUInt8) >>> other.toUInt8 &&& 1 =
        (if other = bit then 1 else byte >>> other.toUInt8 &&& 1) ∧
      (byte &&& ~~~ (1 <<< bit.toUInt8)) >>> other.toUInt8 &&& 1 =
        if other = bit then 0 else byte >>> other.toUInt8 &&& 1 := by
  have all : ∀ (byte : Fin 256) (bit other : Fin 8),
      (UInt8.ofFin byte ||| 1 <<< bit.val.toUInt8) >>> other.val.toUInt8 &&& 1 =
          (if other.val = bit then 1 else UInt8.ofFin byte >>> other.val.toUInt8 &&& 1) ∧
        (UInt8.ofFin byte &&& ~~~ (1 <<< bit.val.toUInt8)) >>> other.val.toUInt8 &&& 1 =
          if other.val = bit then 0 else UInt8.ofFin byte >>> other.val.toUInt8 &&& 1 := by
    decide +kernel
  exact all byte.toFin ⟨bit, low⟩ ⟨other, low'⟩

theorem getBit_eq (b : BitMap) (offset : Nat) :
    b.getBit offset = b.getD (offset / 8) 0 >>> (offset % 8).toUInt8 &&& 1 := by
  by_cases beyond : b.length ≤ offset / 8
  · rw [getBit, if_pos beyond, List.getD_eq_getElem?_getD, List.getElem?_eq_none beyond,
      Option.getD_none, UInt8.zero_shiftRight]
    rfl
  · rw [getBit, if_neg beyond]

theorem toByteSize_succ (offset : Nat) : toByteSize (offset + 1) = offset / 8 + 1 := by
  unfold toByteSize
  split <;> omega

theorem grow_spec {b after : BitMap} {bitSize : Nat} (grown : b.grow bitSize = some after) :
    after.length = max b.length (toByteSize bitSize) ∧ ∀ i, after.getD i 0 = b.getD i 0 := by
  dsimp only [grow] at grown
  split at grown
  · rename_i large
    cases grown
    exact ⟨(max_eq_left large).symm, fun _ => rfl⟩
  · split at grown
    · cases grown
    · cases grown
      constructor
      · simp only [List.length_append, List.length_replicate]
        omega
      intro i
      rw [List.getD_eq_getElem?_getD, List.getD_eq_getElem?_getD]
      by_cases inside : i < b.length
      · rw [List.getElem?_append_left inside]
      · rw [List.getElem?_append_right (by omega), List.getElem?_replicate,
          List.getElem?_eq_none (by omega)]
        split <;> rfl

theorem isSome_setBit (b : BitMap) (offset : Nat) (val : UInt8) :
    (b.setBit offset val).isSome ↔ offset / 8 + 1 ≤ max b.length maxAlloc := by
  have isGrown : (b.setBit offset val).isSome = (b.grow (offset + 1)).isSome := by
    unfold setBit
    cases b.grow (offset + 1) <;> rfl
  rw [isGrown, grow, toByteSize_succ]
  split
  · rename_i large
    exact iff_of_true rfl (le_max_of_le_left large)
  · split
    · exact iff_of_false (by simp) (by omega)
    · exact iff_of_true rfl (by omega)

theorem setBit_spec {b after : BitMap} {offset : Nat} {val : UInt8}
    (written : b.setBit offset val = some after) :
    after.length = max b.length (offset / 8 + 1) ∧ ∀ i, after.getD i 0 =
      if i = offset / 8 then
        if val > 0 then b.getD i 0 ||| 1 <<< (offset % 8).toUInt8
        else b.getD i 0 &&& ~~~ (1 <<< (offset % 8).toUInt8)
      else b.getD i 0 := by
  obtain ⟨grown, isGrown, same⟩ := Option.bind_eq_some_iff.mp written
  cases same
  obtain ⟨size, bytes⟩ := grow_spec isGrown
  rw [toByteSize_succ] at size
  have modified : ∀ change : UInt8 → UInt8,
      (grown.modify (offset / 8) change).length = max b.length (offset / 8 + 1) ∧
      ∀ i, (grown.modify (offset / 8) change).getD i 0 =
        if i = offset / 8 then change (b.getD i 0) else b.getD i 0 := by
    intro change
    refine ⟨by rw [List.length_modify, size], fun i => ?_⟩
    rw [← bytes]
    by_cases same : i = offset / 8
    · have there : offset / 8 < grown.length := by omega
      subst same
      simp [there]
    · simp [same, Ne.symm same]
  by_cases set : val > 0
  · simpa only [set, if_true] using modified _
  · simpa only [set, if_false] using modified _

theorem getBit_setBit {b after : BitMap} {offset : Nat} {val : UInt8}
    (written : b.setBit offset val = some after) (other : Nat) :
    after.getBit other = if other = offset then if val > 0 then 1 else 0 else b.getBit other := by
  rw [getBit_eq, getBit_eq, (setBit_spec written).2]
  by_cases same : other / 8 = offset / 8
  · have isOffset : other % 8 = offset % 8 ↔ other = offset := by omega
    obtain ⟨set, cleared⟩ := bits_of_byte (b.getD (other / 8) 0) (Nat.mod_lt offset (by decide))
      (Nat.mod_lt other (by decide))
    rw [if_pos same]
    by_cases positive : val > 0
    · simp only [positive, if_true, set, isOffset]
    · simp only [positive, if_false, cleared, isOffset]
  · have different : other ≠ offset := fun equal => same (congrArg (· / 8) equal)
    rw [if_neg same, if_neg different]

def setBits (b : BitMap) (calls : List (Nat × UInt8)) : Option BitMap :=
  calls.foldlM (fun b call => setBit b call.1 call.2) b

theorem isSome_setBits (b : BitMap) (calls : List (Nat × UInt8)) :
    (b.setBits calls).isSome ↔ ∀ call ∈ calls, call.1 / 8 + 1 ≤ max b.length maxAlloc := by
  induction calls generalizing b with
  | nil => exact iff_of_true rfl (by simp)
  | cons call calls ih =>
    have fits := isSome_setBit b call.1 call.2
    rw [List.forall_mem_cons, ← fits, setBits, List.foldlM_cons]
    cases written : b.setBit call.1 call.2 with
    | none => simp
    | some after =>
      rw [written] at fits
      -- The first call leaves a slice that is not longer than what the others may need anyway.
      have length := (setBit_spec written).1
      have same : max after.length maxAlloc = max b.length maxAlloc := by
        have := fits.mp rfl
        omega
      rw [← same, ← ih after]
      exact (and_iff_right rfl).symm

theorem bits_after_calls {b after : BitMap} {calls : List (Nat × UInt8)}
    (written : b.setBits calls = some after) :
    (∀ offset, getBit after offset =
      (calls.reverse.find? (·.1 = offset)).elim (b.getBit offset)
        fun call => if call.2 > 0 then 1 else 0) ∧
    after.length = calls.foldl (fun length call => max length (call.1 / 8 + 1)) b.length := by
  induction calls using List.reverseRecOn generalizing after with
  | nil =>
    cases written
    exact ⟨fun offset => rfl, rfl⟩
  | append_singleton calls last ih =>
    rw [setBits, List.foldlM_append] at written
    obtain ⟨before, calls_, last_⟩ := Option.bind_eq_some_iff.mp written
    rw [List.foldlM_cons] at last_
    obtain ⟨_, last_, same⟩ := Option.bind_eq_some_iff.mp last_
    cases same
    obtain ⟨bits, length⟩ := ih calls_
    rw [List.foldl_append, ← length, (setBit_spec last_).1]
    refine ⟨fun offset => ?_, rfl⟩
    rw [getBit_setBit last_, bits, List.reverse_append]
    by_cases same : last.1 = offset
    · simp [same]
    · simp [same, Ne.symm same]

end BitMap

end Godis
