import SimpleOS.Library.GuardedRun
import SimpleOS.Kernel.Allocator

/-!
# The heap and its clients

The allocator on its own: the bump pointer, the bytes of memory, and a record
of every block `kmalloc` has returned, which the code does not keep.  Clients
may write bytes between the calls.
-/

namespace SimpleOS

open Library.ByteMemory Library.BumpArena Library.GuardedRun

/-- A block `kmalloc` returned, with the size its caller asked for. -/
structure Grant where
  pointer : Word
  size : Word
  deriving DecidableEq

namespace Grant

/-- The address of the header word. -/
def header (grant : Grant) : Word := grant.pointer - 4

/-- The requested size, rounded up to a multiple of four. -/
def rounded (grant : Grant) : Nat := roundUp 4 grant.size.toNat

/-- The block as a span of the arena. -/
def span (grant : Grant) : Span := ⟨grant.header.toNat, grant.rounded⟩

/-- The address belongs to the header or to the payload. -/
def Holds (grant : Grant) (address : Word) : Prop :=
  InRange grant.header 4 address ∨ InRange grant.pointer grant.rounded address

/-- The two ranges of addresses of the block. -/
def ranges (grant : Grant) : List (Word × Nat) :=
  [(grant.header, 4), (grant.pointer, grant.rounded)]

end Grant

structure Heap where
  heapCurrent : Word
  memory : Memory
  /-- Every block returned so far, the newest first; no variable of the code. -/
  granted : List Grant

namespace Heap

/-- After `memory_init`, which leaves the bytes of the heap as they are. -/
def init (memory : Memory) : Heap where
  heapCurrent := heapStart
  memory := memory
  granted := []

/-- `kmalloc(size)`: the returned pointer and the heap after it. -/
def kmalloc (h : Heap) (size : Word) : Word × Heap :=
  match SimpleOS.kmalloc h.heapCurrent size with
  | none => (null, h)
  | some allocation =>
      (allocation.pointer,
        { heapCurrent := allocation.heapCurrent
          memory := patched h.memory allocation.patch
          granted := ⟨allocation.pointer, size⟩ :: h.granted })

/-- `kfree(pointer)`. -/
def kfree (h : Heap) (pointer : Word) : Heap :=
  { h with memory := patched h.memory (SimpleOS.kfree h.memory pointer) }

/-- What can happen to the heap: a call of the allocator, or a byte written by a client. -/
inductive Action where
  | kmalloc (size : Word)
  | kfree (pointer : Word)
  | write (address : Word) (byte : Byte)

def step (h : Heap) : Action → Heap
  | .kmalloc size => (h.kmalloc size).2
  | .kfree pointer => h.kfree pointer
  | .write address byte => { h with memory := Function.update h.memory address byte }

/-- The bytes `kmalloc` or `kfree` writes in a step; a client's write is not theirs. -/
def written (h : Heap) : Action → Patch
  | .kmalloc size =>
      match SimpleOS.kmalloc h.heapCurrent size with
      | none => noPatch
      | some allocation => allocation.patch
  | .kfree pointer => SimpleOS.kfree h.memory pointer
  | .write _ _ => noPatch

/-! ## What `kmalloc` does to a heap within its bounds -/

/-- The bytes a request takes: the header and the rounded size. -/
def blockSize (size : Word) : Nat := roundUp 4 size.toNat + 4

/-- The heap after a block has been granted at the bump pointer. -/
def grant (h : Heap) (size : Word) : Heap where
  heapCurrent := h.heapCurrent + BitVec.ofNat 32 (blockSize size)
  memory := patched h.memory (blockPatch h.heapCurrent (roundUp 4 size.toNat % 2 ^ 32))
  granted := ⟨h.heapCurrent + 4, size⟩ :: h.granted

/-- `kmalloc` for every size. -/
theorem kmalloc_eq (h : Heap) (size : Word) :
    h.kmalloc size =
      if heapEnd.toNat < (h.heapCurrent.toNat + blockSize size) % 2 ^ 32 then (null, h)
      else (h.heapCurrent + 4, h.grant size) := by
  rw [kmalloc, SimpleOS.kmalloc_eq, blockSize, ← Nat.add_assoc]
  by_cases refused :
      heapEnd.toNat < (h.heapCurrent.toNat + roundUp 4 size.toNat + 4) % 2 ^ 32
  · rw [if_pos refused, if_pos refused]
  · rw [if_neg refused, if_neg refused]
    rfl

/-- The end of a block inside the heap does not wrap. -/
theorem grant_heapCurrent {h : Heap} {size : Word}
    (room : h.heapCurrent.toNat + blockSize size ≤ heapEnd.toNat) :
    (h.grant size).heapCurrent.toNat = h.heapCurrent.toNat + blockSize size := by
  have top := heapEnd_toNat
  rw [grant, BitVec.toNat_add, BitVec.toNat_ofNat, Nat.add_mod_mod]
  exact Nat.mod_eq_of_lt (by omega)

/-- The block a grant records starts at the bump pointer. -/
theorem grant_span (h : Heap) (size : Word) :
    (⟨h.heapCurrent + 4, size⟩ : Grant).span = ⟨h.heapCurrent.toNat, roundUp 4 size.toNat⟩ := by
  rw [Grant.span, Grant.header, BitVec.add_sub_cancel]
  rfl

/--
The request leaves the comparison with `heap_end` meaningful: the end of the
block does not wrap, or the rounding wraps to zero with no room for a header.
-/
def Fits (h : Heap) (size : Word) : Prop :=
  h.heapCurrent.toNat + blockSize size < 2 ^ 32 ∨
    (2 ^ 32 ≤ roundUp 4 size.toNat ∧ heapEnd.toNat < h.heapCurrent.toNat + 4)

instance (h : Heap) (size : Word) : Decidable (h.Fits size) :=
  inferInstanceAs (Decidable (_ ∨ _))

theorem roundUp_size_le (size : Word) : roundUp 4 size.toNat ≤ 2 ^ 32 := by
  have small := size.isLt
  rw [roundUp]
  omega

/-- The blocks fill the heap from `heap_start` to `heap_current`. -/
structure Packed (h : Heap) : Prop where
  stacked : Stacked 4 heapStart.toNat (h.granted.map Grant.span) h.heapCurrent.toNat
  below : h.heapCurrent.toNat ≤ heapEnd.toNat
  aligned : h.heapCurrent.toNat % 4 = 0

theorem init_packed (memory : Memory) : (init memory).Packed where
  stacked := rfl
  below := show heapStart.toNat ≤ heapEnd.toNat by decide
  aligned := show heapStart.toNat % 4 = 0 by decide

namespace Packed

variable {h : Heap} (packed : h.Packed)

include packed

theorem above : heapStart.toNat ≤ h.heapCurrent.toNat := packed.stacked.low_le

/-- A request that fits is granted exactly when its block ends inside the heap. -/
theorem kmalloc_fits {size : Word} (fits : h.Fits size) :
    h.kmalloc size =
      if h.heapCurrent.toNat + blockSize size ≤ heapEnd.toNat then
        (h.heapCurrent + 4, h.grant size)
      else (null, h) := by
  have top := heapEnd_toNat
  have below := packed.below
  have largest := roundUp_size_le size
  have exceeds : heapEnd.toNat < (h.heapCurrent.toNat + blockSize size) % 2 ^ 32 ↔
      ¬ h.heapCurrent.toNat + blockSize size ≤ heapEnd.toNat := by
    rcases fits with small | ⟨wraps, full⟩
    · rw [Nat.mod_eq_of_lt small]
      omega
    · rw [blockSize]
      omega
  rw [kmalloc_eq]
  by_cases room : h.heapCurrent.toNat + blockSize size ≤ heapEnd.toNat
  · rw [if_neg fun refused => exceeds.mp refused room, if_pos room]
  · rw [if_pos (exceeds.mpr room), if_neg room]

theorem pointer_toNat : (h.heapCurrent + 4).toNat = h.heapCurrent.toNat + 4 := by
  have top := heapEnd_toNat
  have below := packed.below
  rw [BitVec.toNat_add, show (4 : Word).toNat = 4 by decide]
  exact Nat.mod_eq_of_lt (by omega)

/-- Granting a block that ends inside the heap keeps the heap packed. -/
theorem grant {size : Word} (room : h.heapCurrent.toNat + blockSize size ≤ heapEnd.toNat) :
    (h.grant size).Packed where
  stacked := by
    rw [grant_heapCurrent room, blockSize, Nat.add_comm (roundUp 4 size.toNat), ← Nat.add_assoc]
    change Stacked 4 _ (Grant.span ⟨h.heapCurrent + 4, size⟩ :: _) _
    rw [grant_span]
    exact packed.stacked.push (roundUp 4 size.toNat)
  below := by
    rw [grant_heapCurrent room]
    exact room
  aligned := by
    have multiple := roundUp_mod 4 size.toNat
    have aligned := packed.aligned
    rw [grant_heapCurrent room, blockSize]
    omega

theorem kmalloc {size : Word} (fits : h.Fits size) : (h.kmalloc size).2.Packed := by
  rw [packed.kmalloc_fits fits]
  split
  · next room => exact packed.grant room
  · exact packed

end Packed

end Heap

end SimpleOS
