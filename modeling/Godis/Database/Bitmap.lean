import Godis.Database.NoEffect

/-!
# `SETBIT` and `GETBIT`
-/

namespace Godis.Database

open Golang Program

variable {F : Type}

/-- `SETBIT` stores the bitmap with the bit written and replies what `GETBIT` does before, if the
bitmap can be allocated; otherwise it panics. -/
theorem run_execSetBit {env : Env F} (slot : Slot F) (key : Bytes) {rawOffset rawBit : Bytes}
    (more : List Bytes) {offset : Nat} {bit : UInt8} {bytes : Bytes}
    (seen : stringSeen (slot.seen env.now) = .ok bytes) (read : parseInt (str rawOffset) = .ok offset)
    (isBit : parseBit (str rawBit) = some bit) :
    let args := key :: rawOffset :: rawBit :: more
    let former : Reply := .int (BitMap.getBit (str bytes) offset).toNat
    ((look (execGetBit args)).run (slotHandle env) ⟨slot, []⟩).1 = .ok former ∧
      ((execSetBit args).run (slotHandle env) ⟨slot, []⟩).1 =
        match BitMap.setBit (str bytes) offset bit with
        | none => .error .panic
        | some _ => .ok former := by
  have looked := run_getAsString env slot []
  have bits : ∀ bytes : Str, (getBit bytes offset : SlotReader F Nat) = pure (BitMap.getBit bytes offset).toNat := by
    intro bytes
    have same : ((bytes.length : Int) ≤ (offset : Int).tdiv 8) ↔ bytes.length ≤ offset / 8 := by
      rw [Int.tdiv_eq_ediv_of_nonneg (Int.natCast_nonneg _)]
      omega
    unfold getBit
    split
    · rename_i beyond
      rw [BitMap.getBit, if_pos (same.mp beyond)]
      rfl
    · rw [if_neg (by omega), Int.toNat_natCast]
  dsimp only [execSetBit, execGetBit]
  rw [read, isBit, Prog.run_bind]
  rw [look_bind, Prog.run_bind, looked, Prog.andThen_ok, Prog.andThen_ok, seen]
  generalize (Look.exec env.now slot .getEntity).slot = reached
  obtain ⟨value, -, -⟩ := reached
  dsimp only
  rw [if_neg (by omega), Int.toNat_natCast, bits]
  cases BitMap.setBit (str bytes) offset bit with
  | none =>
    cases bytes with
    | none => exact ⟨rfl, rfl⟩
    | some bytes =>
      dsimp only
      rw [bits]
      exact ⟨rfl, rfl⟩
  | some changed =>
    cases bytes with
    | none => cases value <;> exact ⟨rfl, rfl⟩
    | some bytes =>
      dsimp only
      rw [bits]
      cases value <;> exact ⟨rfl, rfl⟩

/-- If the bytes up to the largest offset can be allocated, a bit is as the last call for it left it,
or as it was, and the length is what the offsets need; and `SETBIT` replies what `GETBIT` does before.
Otherwise there is no bitmap and no reply. -/
theorem bitmap_update_law_iff (b : BitMap) (calls : List (Nat × UInt8)) :
    ((∃ after, b.setBits calls = some after ∧
      (∀ offset, BitMap.getBit after offset =
        (calls.reverse.find? (·.1 = offset)).elim (BitMap.getBit b offset)
          fun call => if call.2 > 0 then 1 else 0) ∧
      after.length = calls.foldl (fun length call => max length (call.1 / 8 + 1)) b.length) ↔
    ∀ call ∈ calls, call.1 / 8 + 1 ≤ max b.length maxAlloc) ∧
    ∀ (env : Env F) (slot : Slot F) (bytes key rawOffset rawBit : Bytes) (more : List Bytes)
      (offset : Nat) (bit : UInt8), stringSeen (slot.seen env.now) = .ok bytes →
      parseInt (str rawOffset) = .ok offset → parseBit (str rawBit) = some bit →
      (((execSetBit (key :: rawOffset :: rawBit :: more)).run (slotHandle env) ⟨slot, []⟩).1 =
        ((look (execGetBit (key :: rawOffset :: more))).run (slotHandle env) ⟨slot, []⟩).1 ↔
      offset / 8 + 1 ≤ max (str bytes).length maxAlloc) := by
  constructor
  · rw [← BitMap.isSome_setBits, Option.isSome_iff_exists]
    constructor
    · rintro ⟨after, written, -⟩
      exact ⟨after, written⟩
    · rintro ⟨after, written⟩
      exact ⟨after, written, BitMap.bits_after_calls written⟩
  · intro env slot bytes key rawOffset rawBit more offset bit seen read isBit
    obtain ⟨got, set⟩ := run_execSetBit slot key more seen read isBit
    rw [← BitMap.isSome_setBit _ _ bit, set]
    change _ = ((look (execGetBit (key :: rawOffset :: rawBit :: more))).run (slotHandle env) ⟨slot, []⟩).1 ↔ _
    rw [got]
    cases BitMap.setBit (str bytes) offset bit with
    | none => simp
    | some after => simp

/-- No bitmap of 2^49 + 1 bytes is made. -/
theorem setBit_panics : (BitMap.setBits [] [(2 ^ 52, 1)]) = none := by
  decide

end Godis.Database
