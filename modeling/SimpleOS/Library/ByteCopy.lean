import SimpleOS.Library.ByteMemory

/-!
# Copying bytes forwards

A loop that copies one byte after the other reads what it has written itself
when the target lies above the source and the ranges overlap.
-/

namespace SimpleOS.Library.ByteMemory

/-- The byte stores `dest[0] = src[0], ..., dest[count - 1] = src[count - 1]` in loop order. -/
def copyLoop (dest src : Word) : Nat → Memory → Memory
  | 0, memory => memory
  | count + 1, memory => fun target =>
      if target = dest + BitVec.ofNat 32 count then
        copyLoop dest src count memory (src + BitVec.ofNat 32 count)
      else copyLoop dest src count memory target

/-- Where the loop finds the byte that it stores at an offset: the distance between the ranges
is the period in which the first bytes are repeated. -/
def copiedFrom (dest src : Word) (offset : Nat) : Word :=
  src + BitVec.ofNat 32 (offset % (dest - src).toNat)

/-- The source of an offset as seen from the target. -/
theorem offset_between (dest src : Word) {count : Nat} (small : count < 2 ^ 32) :
    (src + BitVec.ofNat 32 count - dest).toNat =
      if (dest - src).toNat ≤ count then count - (dest - src).toNat
      else 2 ^ 32 + count - (dest - src).toNat := by
  have place : src + BitVec.ofNat 32 count - dest = BitVec.ofNat 32 count - (dest - src) := by
    bv_omega
  have bound := (dest - src).isLt
  rw [place, BitVec.toNat_sub, BitVec.toNat_ofNat, Nat.mod_eq_of_lt small]
  split <;> omega

/-- The memory after the loop, whatever the two ranges have in common. -/
theorem copyLoop_apply (dest src : Word) (memory : Memory) {size : Nat} (small : size ≤ 2 ^ 32)
    (target : Word) :
    copyLoop dest src size memory target =
      if InRange dest size target then memory (copiedFrom dest src (target - dest).toNat)
      else memory target := by
  induction size generalizing target with
  | zero => exact (if_neg (Nat.not_lt_zero _)).symm
  | succ count ih =>
      change (if target = dest + BitVec.ofNat 32 count then
        copyLoop dest src count memory (src + BitVec.ofNat 32 count)
          else copyLoop dest src count memory target) = _
      rcases Classical.em (target = dest + BitVec.ofNat 32 count) with rfl | other
      · have inside : InRange dest (count + 1) (dest + BitVec.ofNat 32 count) :=
          inRange_offset (Nat.lt_succ_self count) small
        have between := offset_between dest src (show count < 2 ^ 32 by omega)
        rw [if_pos rfl, if_pos inside, ih (by omega), copiedFrom, copiedFrom,
          offset_toNat dest (by omega)]
        rcases Nat.lt_or_ge count (dest - src).toNat with fresh | again
        · rw [if_neg (Nat.not_le.mpr fresh)] at between
          have unwritten : ¬ InRange dest count (src + BitVec.ofNat 32 count) := by
            rw [InRange]
            omega
          rw [if_neg unwritten, Nat.mod_eq_of_lt fresh]
        · rw [if_pos again] at between
          rcases Nat.eq_zero_or_pos (dest - src).toNat with same | positive
          · have unwritten : ¬ InRange dest count (src + BitVec.ofNat 32 count) := by
              rw [InRange]
              omega
            rw [if_neg unwritten, same, Nat.mod_zero]
          · have written : InRange dest count (src + BitVec.ofNat 32 count) := by
              rw [InRange]
              omega
            rw [if_pos written, between, Nat.mod_eq_sub_mod again]
      · have notLast : (target - dest).toNat ≠ count := by
          intro same
          apply other
          rw [← same, base_add_offset]
        have same : InRange dest (count + 1) target ↔ InRange dest count target := by
          rw [InRange, InRange]
          omega
        rw [if_neg other, ih (by omega)]
        simp only [same]

end SimpleOS.Library.ByteMemory
