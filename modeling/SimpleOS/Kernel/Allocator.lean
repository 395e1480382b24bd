import SimpleOS.Library.BumpArena
import SimpleOS.Kernel.State

/-!
# The allocator of `memory.c`

`kmalloc` bumps `heap_current`; `kfree` trusts the word before its argument as
the length of the block and fills that many bytes.  The two routines are given
by the bytes they overwrite, so that they act alike on any view of memory.
-/

namespace SimpleOS

open Library.ByteMemory Library.BumpArena

def heapStart : Word := 0x100000
def heapSize : Word := 0x100000
def heapEnd : Word := heapStart + heapSize

theorem heapStart_toNat : heapStart.toNat = 0x100000 := by decide

theorem heapEnd_toNat : heapEnd.toNat = 0x200000 := by decide

/-- What a successful `kmalloc` does. -/
structure Allocation where
  pointer : Word
  heapCurrent : Word
  patch : Patch

/-- `size = (size + 3) & ~3`. -/
def alignedSize (size : Word) : Word := (size + 3) &&& ~~~ 3

/-- `kmalloc(size)` with the bump pointer at `heapCurrent`; `none` is the NULL return. -/
def kmalloc (heapCurrent size : Word) : Option Allocation :=
  let size := alignedSize size
  let totalSize := size + 4
  if heapCurrent + totalSize > heapEnd then none
  else
    some
      { pointer := heapCurrent + 4
        heapCurrent := heapCurrent + totalSize
        patch := (wordPatch heapCurrent size).andThen (fillPatch (heapCurrent + 4) size.toNat 0) }

/-- Masking out the two low bits rounds down to a multiple of four. -/
theorem toNat_and_not_three (word : Word) :
    (word &&& ~~~ (3 : Word)).toNat = word.toNat / 4 * 4 := by
  have shifts : word &&& ~~~ (3 : Word) = (word >>> 2) <<< 2 := by
    apply BitVec.eq_of_getLsbD_eq
    intro index bound
    have mask : (~~~ (3 : Word)).getLsbD index = decide (2 ≤ index) := by
      revert index
      decide
    rw [BitVec.getLsbD_and, mask, BitVec.getLsbD_shiftLeft, BitVec.getLsbD_ushiftRight]
    by_cases high : 2 ≤ index
    · simp [high, bound, Nat.not_lt.mpr high]
    · have low : index < 2 := Nat.lt_of_not_le high
      simp [high, low]
  have small := word.isLt
  rw [shifts, BitVec.toNat_shiftLeft, BitVec.toNat_ushiftRight, Nat.shiftLeft_eq,
    Nat.shiftRight_eq_div_pow]
  omega

/-- The rounding is the mathematical one up to a wrap of the sum. -/
theorem alignedSize_toNat (size : Word) :
    (alignedSize size).toNat = roundUp 4 size.toNat % 2 ^ 32 := by
  have small := size.isLt
  rw [alignedSize, toNat_and_not_three, BitVec.toNat_add, show (3 : Word).toNat = 3 by decide,
    roundUp]
  omega

/-- What granting a block at `base` writes: the header, then zeros. -/
def blockPatch (base : Word) (size : Nat) : Patch :=
  (wordPatch base (BitVec.ofNat 32 size)).andThen (fillPatch (base + 4) size 0)

/-- `kmalloc` for every size: both sums wrap at 32 bits, and the limit check sees that. -/
theorem kmalloc_eq (heapCurrent size : Word) :
    kmalloc heapCurrent size =
      if heapEnd.toNat < (heapCurrent.toNat + roundUp 4 size.toNat + 4) % 2 ^ 32 then none
      else
        some
          { pointer := heapCurrent + 4
            heapCurrent := heapCurrent + BitVec.ofNat 32 (roundUp 4 size.toNat + 4)
            patch := blockPatch heapCurrent (roundUp 4 size.toNat % 2 ^ 32) } := by
  have aligned := alignedSize_toNat size
  have word : alignedSize size = BitVec.ofNat 32 (roundUp 4 size.toNat % 2 ^ 32) := by
    rw [← aligned, BitVec.ofNat_toNat, BitVec.setWidth_eq]
  have total : alignedSize size + 4 = BitVec.ofNat 32 (roundUp 4 size.toNat + 4) := by
    apply BitVec.eq_of_toNat_eq
    rw [BitVec.toNat_add, aligned, show (4 : Word).toNat = 4 by decide, BitVec.toNat_ofNat,
      Nat.mod_add_mod]
  have exceeds : heapCurrent + BitVec.ofNat 32 (roundUp 4 size.toNat + 4) > heapEnd ↔
      heapEnd.toNat < (heapCurrent.toNat + roundUp 4 size.toNat + 4) % 2 ^ 32 := by
    rw [gt_iff_lt, BitVec.lt_def, BitVec.toNat_add, BitVec.toNat_ofNat, Nat.add_mod_mod,
      ← Nat.add_assoc]
  simp only [kmalloc, aligned, total, exceeds, blockPatch, ← word]

/-- What allocating a stack at `base` writes: the header, then zeros. -/
def stackPatch (base : Word) : Patch :=
  (wordPatch base 4096).andThen (fillPatch (base + 4) 4096 0)

/-- With room for a stack, `kmalloc` puts a header word in front of it and clears it. -/
theorem kmalloc_stack {heapCurrent : Word} (room : heapCurrent.toNat + 4100 ≤ heapEnd.toNat) :
    kmalloc heapCurrent 4096 =
      some
        { pointer := heapCurrent + 4
          heapCurrent := heapCurrent + 4100
          patch := stackPatch heapCurrent } := by
  have small : heapEnd.toNat + 4100 < 2 ^ 32 := by decide
  have rounded : roundUp 4 (4096 : Word).toNat = 4096 := by decide
  rw [kmalloc_eq, rounded, if_neg (by rw [Nat.mod_eq_of_lt (by omega)]; omega)]
  rfl

/-- The bytes `kfree(pointer)` overwrites, reading the header through `memory`. -/
def kfree (memory : Memory) (pointer : Word) : Patch :=
  if pointer = null then noPatch
  else fillPatch pointer (load memory (pointer - 4)).toNat 0xDE

@[simp] theorem kfree_null (memory : Memory) : kfree memory null = noPatch := rfl

/-- A block whose header word is zero loses no byte. -/
theorem kfree_of_zero {memory : Memory} {pointer : Word} (zero : load memory (pointer - 4) = 0) :
    kfree memory pointer = noPatch := by
  unfold kfree
  split
  · rfl
  · rw [zero]
    exact fillPatch_zero pointer 0xDE

namespace Kernel

/-- `kmalloc` on the kernel state: the returned pointer and the state after it. -/
def kmalloc (image : Image) (s : Kernel) (size : Word) : Word × Kernel :=
  match SimpleOS.kmalloc s.heapCurrent size with
  | none => (null, s)
  | some allocation =>
      (allocation.pointer,
        { s.overwrite image allocation.patch with heapCurrent := allocation.heapCurrent })

/-- What a successful stack allocation leaves. -/
def stackAllocated (image : Image) (s : Kernel) : Kernel :=
  { s.overwrite image (stackPatch s.heapCurrent) with heapCurrent := s.heapCurrent + 4100 }

theorem kmalloc_stack (image : Image) (s : Kernel)
    (room : s.heapCurrent.toNat + 4100 ≤ heapEnd.toNat) :
    s.kmalloc image 4096 = (s.heapCurrent + 4, s.stackAllocated image) := by
  rw [kmalloc, SimpleOS.kmalloc_stack room]
  rfl

/-- `kfree` on the kernel state. -/
def kfree (image : Image) (s : Kernel) (pointer : Word) : Kernel :=
  s.overwrite image (SimpleOS.kfree (s.read image) pointer)

@[simp] theorem kfree_null (image : Image) (s : Kernel) : s.kfree image null = s := by
  rw [kfree, SimpleOS.kfree_null, overwrite_noPatch]

/-- The last words of the static stacks are as they were loaded. -/
def StacksLoaded (image : Image) (s : Kernel) : Prop :=
  ∀ offset, Image.EndsStack offset →
    s.memory (BitVec.ofNat 32 (image.staticStacks + offset)) =
      image.memory (BitVec.ofNat 32 (image.staticStacks + offset))

/--
The word before a static stack other than the first is the last word of the
stack below it, which is clear while it is as loaded.
-/
theorem kfree_testStack_patch (image : Image) (s : Kernel) (loaded : s.StacksLoaded image)
    {index : Nat} (positive : 0 < index) (bound : index < 10) :
    SimpleOS.kfree (s.read image) (image.testStack index) = noPatch := by
  refine kfree_of_zero (ofBytes_zero fun byte byteBound => ?_)
  have place : image.testStack index - 4 + BitVec.ofNat 32 byte =
      BitVec.ofNat 32 (image.staticStacks + (stackSizeDefault * index - 4 + byte)) := by
    apply BitVec.eq_of_toNat_eq
    have room := image.stacks_end
    have value : (image.testStack index).toNat = image.staticStacks + stackSizeDefault * index :=
      Image.testStack_toNat bound
    simp only [stackSizeDefault] at room value ⊢
    simp only [BitVec.toNat_add, BitVec.toNat_sub, value, BitVec.toNat_ofNat,
      BitVec.ofNat_eq_ofNat]
    omega
  have ends : Image.EndsStack (stackSizeDefault * index - 4 + byte) := by
    simp only [Image.EndsStack, stackSizeDefault]
    omega
  rw [place, s.read_stack image ends.1, loaded _ ends]
  exact image.stacks_cleared _ ends.1

/-- Freeing such a stack changes nothing. -/
theorem kfree_testStack (image : Image) (s : Kernel) (loaded : s.StacksLoaded image)
    {index : Nat} (positive : 0 < index) (bound : index < 10) :
    s.kfree image (image.testStack index) = s := by
  rw [kfree, s.kfree_testStack_patch image loaded positive bound, overwrite_noPatch]

end Kernel

/-! ## The blocks of the heap -/

/-- `heap_current` after `index` stack allocations. -/
def heapMark (index : Nat) : Word := BitVec.ofNat 32 (heapStart.toNat + 4100 * index)

/-- The stack that the allocation with `heap_current` at that mark returns. -/
def heapStack (index : Nat) : Word := heapMark index + 4

/-- The address lies in one of the ten blocks `process_create` can ask for. -/
def InHeap (address : Word) : Prop :=
  heapStart.toNat ≤ address.toNat ∧ address.toNat < heapStart.toNat + 10 * 4100

/-- Those blocks hold no part of the static records or stacks. -/
def Image.HeapApart (image : Image) : Prop :=
  (image.createProcesses + 10 * processSize ≤ heapStart.toNat ∨
    heapStart.toNat + 10 * 4100 ≤ image.createProcesses) ∧
  (image.testProcesses + 10 * processSize ≤ heapStart.toNat ∨
    heapStart.toNat + 10 * 4100 ≤ image.testProcesses) ∧
  (image.staticStacks + 10 * stackSizeDefault ≤ heapStart.toNat ∨
    heapStart.toNat + 10 * 4100 ≤ image.staticStacks)

instance (image : Image) : Decidable image.HeapApart :=
  inferInstanceAs (Decidable (_ ∧ _ ∧ _))

theorem heapMark_toNat {index : Nat} (bound : index ≤ 10) :
    (heapMark index).toNat = heapStart.toNat + 4100 * index := by
  rw [heapMark, BitVec.toNat_ofNat, heapStart_toNat]
  exact Nat.mod_eq_of_lt (by omega)

theorem heapMark_succ (index : Nat) : heapMark (index + 1) = heapMark index + 4100 := by
  rw [heapMark, heapMark, Nat.mul_succ, ← Nat.add_assoc, BitVec.ofNat_add]
  rfl

theorem heapStack_toNat {index : Nat} (bound : index < 10) :
    (heapStack index).toNat = heapStart.toNat + 4100 * index + 4 := by
  have start := heapStart_toNat
  rw [heapStack, BitVec.toNat_add, heapMark_toNat (Nat.le_of_lt bound),
    show (4 : Word).toNat = 4 by decide]
  exact Nat.mod_eq_of_lt (by omega)

theorem heapStack_header (index : Nat) : heapStack index - 4 = heapMark index :=
  BitVec.add_sub_cancel _ _

theorem heapStack_ne_null {index : Nat} (bound : index < 10) : heapStack index ≠ null := by
  intro isNull
  have value := heapStack_toNat bound
  rw [isNull] at value
  simp only [null, BitVec.ofNat_eq_ofNat, BitVec.toNat_ofNat, Nat.zero_mod] at value
  omega

theorem heapStack_inj {first second : Nat} (firstBound : first < 10) (secondBound : second < 10)
    (same : heapStack first = heapStack second) : first = second := by
  have firstPlace := heapStack_toNat firstBound
  rw [same, heapStack_toNat secondBound] at firstPlace
  omega

/-- The header word of a block. -/
theorem header_range {index : Nat} (bound : index < 10) {address : Word} :
    InRange (heapMark index) 4 address ↔
      heapStart.toNat + 4100 * index ≤ address.toNat ∧
        address.toNat < heapStart.toNat + 4100 * index + 4 := by
  have start := heapStart_toNat
  have place := heapMark_toNat (Nat.le_of_lt bound)
  rw [inRange_iff (by omega), place]

/-- The stack behind it. -/
theorem heapStack_range {index : Nat} (bound : index < 10) {address : Word} :
    InRange (heapStack index) 4096 address ↔
      heapStart.toNat + 4100 * index + 4 ≤ address.toNat ∧
        address.toNat < heapStart.toNat + 4100 * (index + 1) := by
  have start := heapStart_toNat
  have place := heapStack_toNat bound
  rw [inRange_iff (by omega), place]
  omega

theorem fillPatch_of_not {base target : Word} {size : Nat} (outside : ¬ InRange base size target)
    (byte : Byte) : fillPatch base size byte target = none := if_neg outside

/-- What a stack allocation writes stays in its block. -/
theorem stackPatch_inHeap {index : Nat} (bound : index < 10) {target : Word}
    (written : stackPatch (heapMark index) target ≠ none) :
    heapStart.toNat + 4100 * index ≤ target.toNat ∧
      target.toNat < heapStart.toNat + 4100 * (index + 1) := by
  by_cases inStack : InRange (heapStack index) 4096 target
  · have place := (heapStack_range bound).mp inStack
    omega
  · by_cases inHeader : InRange (heapMark index) 4 target
    · have place := (header_range bound).mp inHeader
      omega
    · refine absurd ?_ written
      rw [stackPatch, Patch.andThen, ← heapStack, fillPatch_of_not inStack, wordPatch,
        if_neg inHeader]
      rfl

namespace Image.HeapApart

variable {image : Image} (apart : image.HeapApart)

include apart

/-- The heap blocks hold no record. -/
theorem slotAt?_none {address : Word} (inHeap : InHeap address) :
    Kernel.slotAt? image address = none := by
  refine List.find?_eq_none.mpr fun slot member => ?_
  obtain ⟨createApart, testApart, _⟩ := apart
  obtain ⟨index, bound, here⟩ := (mem_slots_iff slot).mp member
  have createEnd := image.create_end
  have testEnd := image.test_end
  obtain ⟨low, high⟩ := inHeap
  simp only [decide_eq_true_eq]
  rcases here with rfl | rfl
  · have place : (image.createSlot index).toNat = image.createProcesses + processSize * index :=
      createSlot_toNat bound
    simp only [processSize] at *
    rw [inRange_iff (by omega), place]
    omega
  · have place : (image.testSlot index).toNat = image.testProcesses + processSize * index :=
      testSlot_toNat bound
    simp only [processSize] at *
    rw [inRange_iff (by omega), place]
    omega

/-- The heap blocks hold no static stack. -/
theorem not_inHeap_stack {offset : Nat} (bound : offset < 10 * stackSizeDefault) :
    ¬ InHeap (BitVec.ofNat 32 (image.staticStacks + offset)) := by
  obtain ⟨_, _, stacksApart⟩ := apart
  have stacksEnd := image.stacks_end
  have place : (BitVec.ofNat 32 (image.staticStacks + offset)).toNat =
      image.staticStacks + offset := by
    rw [BitVec.toNat_ofNat]
    exact Nat.mod_eq_of_lt (by omega)
  rw [InHeap, place]
  omega

/-- A patch inside the heap blocks changes plain memory only. -/
theorem overwrite_eq (s : Kernel) {patch : Patch}
    (confined : ∀ target, patch target ≠ none → InHeap target) :
    s.overwrite image patch = { s with memory := patched s.memory patch } := by
  refine s.overwrite_of_untouched image fun slot member => ?_
  rw [Kernel.touches, List.any_eq_false]
  intro offset bound
  have inside : InRange slot processSize (slot + BitVec.ofNat 32 offset) :=
    inRange_offset (List.mem_range.mp bound) (by decide)
  have untouched : patch (slot + BitVec.ofNat 32 offset) = none := by
    by_contra written
    have none := apart.slotAt?_none (confined _ written)
    exact List.find?_eq_none.mp none slot member (decide_eq_true inside)
  rw [untouched]
  simp

/-- Such a patch leaves the static stacks as they were. -/
theorem stacksLoaded {s : Kernel} (loaded : s.StacksLoaded image) {patch : Patch}
    (confined : ∀ target, patch target ≠ none → InHeap target) :
    Kernel.StacksLoaded image { s with memory := patched s.memory patch } := by
  intro offset ends
  have untouched : patch (BitVec.ofNat 32 (image.staticStacks + offset)) = none := by
    by_contra written
    exact apart.not_inHeap_stack ends.1 (confined _ written)
  change (patch _).getD _ = _
  rw [untouched]
  exact loaded offset ends

/-- A stack allocation at a mark writes its block and moves the mark. -/
theorem stackAllocated_eq (s : Kernel) {index : Nat} (bound : index < 10)
    (mark : s.heapCurrent = heapMark index) :
    s.stackAllocated image =
      { s with
        heapCurrent := heapMark (index + 1)
        memory := patched s.memory (stackPatch (heapMark index)) } := by
  have confined : ∀ target, stackPatch (heapMark index) target ≠ none → InHeap target := by
    intro target written
    have place := stackPatch_inHeap bound written
    have start := heapStart_toNat
    exact ⟨by omega, by omega⟩
  rw [Kernel.stackAllocated, mark, apart.overwrite_eq s confined, heapMark_succ]

/-- Freeing a heap stack with its header intact fills just that stack. -/
theorem kfree_eq (s : Kernel) {index : Nat} (bound : index < 10)
    (header : load s.memory (heapMark index) = 4096) :
    s.kfree image (heapStack index) =
      { s with memory := patched s.memory (fillPatch (heapStack index) 4096 0xDE) } := by
  have start := heapStart_toNat
  have read : load (s.read image) (heapStack index - 4) = 4096 := by
    rw [heapStack_header, ← header]
    refine load_congr fun target inside => ?_
    have place := (header_range bound).mp inside
    rw [Kernel.read, apart.slotAt?_none ⟨by omega, by omega⟩]
  have confined : ∀ target, fillPatch (heapStack index) 4096 0xDE target ≠ none →
      InHeap target := by
    intro target written
    have inside : InRange (heapStack index) 4096 target := by
      by_contra outside
      exact written (fillPatch_of_not outside _)
    have place := (heapStack_range bound).mp inside
    exact ⟨by omega, by omega⟩
  rw [Kernel.kfree, SimpleOS.kfree, if_neg (heapStack_ne_null bound), read]
  exact apart.overwrite_eq s confined

end Image.HeapApart

/-! ## The headers of the blocks -/

/-- The first `count` blocks still carry their length. -/
def HeadersIntact (memory : Memory) (count : Nat) : Prop :=
  ∀ index < count, load memory (heapMark index) = 4096

/-- An allocation writes a further header and leaves the others alone. -/
theorem HeadersIntact.allocate {memory : Memory} {count : Nat} (intact : HeadersIntact memory count)
    (bound : count < 10) :
    HeadersIntact (patched memory (stackPatch (heapMark count))) (count + 1) := by
  have start := heapStart_toNat
  intro index before
  by_cases last : index = count
  · rw [last, stackPatch, patched_andThen, patched_wordPatch]
    refine (load_congr fun target inside => ?_).trans (load_store_same memory (heapMark count) 4096)
    have place := (header_range bound).mp inside
    have outside : ¬ InRange (heapStack count) 4096 target := fun hit => by
      have := (heapStack_range bound).mp hit
      omega
    rw [patched, ← heapStack, fillPatch_of_not outside]
    rfl
  · have older : index < count := by omega
    refine (load_congr fun target inside => ?_).trans (intact index older)
    have place := (header_range (Nat.lt_trans older bound)).mp inside
    have untouched : stackPatch (heapMark count) target = none := by
      by_contra written
      have := stackPatch_inHeap bound written
      omega
    rw [patched, untouched]
    rfl

/-- Freeing a stack leaves all headers alone. -/
theorem HeadersIntact.free {memory : Memory} {count : Nat} (intact : HeadersIntact memory count)
    (small : count ≤ 10) {freed : Nat} (bound : freed < 10) :
    HeadersIntact (patched memory (fillPatch (heapStack freed) 4096 0xDE)) count := by
  have start := heapStart_toNat
  intro index before
  refine (load_congr fun target inside => ?_).trans (intact index before)
  have place := (header_range (Nat.lt_of_lt_of_le before small)).mp inside
  have outside : ¬ InRange (heapStack freed) 4096 target := fun hit => by
    have := (heapStack_range bound).mp hit
    omega
  rw [patched, fillPatch_of_not outside]
  rfl

end SimpleOS
