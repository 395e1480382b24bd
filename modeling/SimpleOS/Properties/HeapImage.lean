import SimpleOS.Kernel.Heap

/-!
# The heap and the kernel image start at the same address

`memory.c` puts the heap at `0x100000`, and `linker.ld` puts the kernel there
too.  The first block the allocator grants has its header on the first word of
the image.
-/

namespace SimpleOS

open Library.ByteMemory Library.BumpArena Library.GuardedRun

/-- `. = 1M` of the linker script. -/
def imageStart : Word := 0x100000

/-- The sections of the linked kernel as one range of bytes from `imageStart` on. -/
structure LoadedImage where
  size : Nat
  nonempty : 0 < size
  fits : imageStart.toNat + size ≤ 2 ^ 32

namespace LoadedImage

def Contains (image : LoadedImage) (address : Word) : Prop := InRange imageStart image.size address

instance (image : LoadedImage) (address : Word) : Decidable (image.Contains address) :=
  inferInstanceAs (Decidable (InRange _ _ _))

/-- The first byte of the image. -/
theorem contains_start (image : LoadedImage) : image.Contains imageStart :=
  inRange_start imageStart image.nonempty

/-- A kernel of sixteen pages. -/
def sample : LoadedImage where
  size := 0x10000
  nonempty := by decide
  fits := by decide

end LoadedImage

namespace Heap

/-- No byte the call writes belongs to the image. -/
def Spares (image : LoadedImage) (h : Heap) (action : Action) : Prop :=
  ∀ address, h.written action address ≠ none → ¬ image.Contains address

/--
The call is one of those that write nothing into the image: a request that the
fresh heap refuses, or a free of a block that lies apart from the image.
-/
def Misses (image : LoadedImage) (h : Heap) : Action → Prop
  | .kmalloc size => 0xFFFFD ≤ size.toNat ∧ size.toNat ≤ 0xFFEFFFF8
  | .kfree pointer =>
      pointer = null ∨ load h.memory (pointer - 4) = 0 ∨
        ((load h.memory (pointer - 4)).toNat ≤ (imageStart - pointer).toNat ∧
          image.size ≤ (pointer - imageStart).toNat)
  | .write _ _ => True

instance (image : LoadedImage) (h : Heap) : (action : Action) → Decidable (h.Misses image action)
  | .kmalloc _ => inferInstanceAs (Decidable (_ ∧ _))
  | .kfree _ => inferInstanceAs (Decidable (_ ∨ _))
  | .write _ _ => inferInstanceAs (Decidable True)

/-- The bytes of a request. -/
theorem written_kmalloc (h : Heap) (size : Word) :
    h.written (.kmalloc size) =
      if heapEnd.toNat < (h.heapCurrent.toNat + blockSize size) % 2 ^ 32 then noPatch
      else blockPatch h.heapCurrent (roundUp 4 size.toNat % 2 ^ 32) := by
  rw [written, SimpleOS.kmalloc_eq, blockSize, ← Nat.add_assoc]
  by_cases refused :
      heapEnd.toNat < (h.heapCurrent.toNat + roundUp 4 size.toNat + 4) % 2 ^ 32
  · rw [if_pos refused, if_pos refused]
  · rw [if_neg refused, if_neg refused]

/-- A granted block has a byte at the bump pointer. -/
theorem blockPatch_start (base : Word) (size : Nat) : blockPatch base size base ≠ none := by
  have header : InRange base 4 base := inRange_start base (by decide)
  rw [blockPatch, Patch.andThen, wordPatch, if_pos header]
  cases fillPatch (base + 4) size 0 base <;> exact Option.some_ne_none _

/-- What the fresh heap refuses. -/
theorem refused_iff (size : Word) :
    heapEnd.toNat < (heapStart.toNat + blockSize size) % 2 ^ 32 ↔
      0xFFFFD ≤ size.toNat ∧ size.toNat ≤ 0xFFEFFFF8 := by
  have small := size.isLt
  have start := heapStart_toNat
  have top := heapEnd_toNat
  rw [blockSize, roundUp]
  omega

/-- From the fresh bump pointer, a request spares the image only by being refused. -/
theorem spares_kmalloc {image : LoadedImage} {h : Heap} (fresh : h.heapCurrent = heapStart)
    (size : Word) : h.Spares image (.kmalloc size) ↔ h.Misses image (.kmalloc size) := by
  rw [Misses, ← refused_iff, Spares, written_kmalloc, fresh]
  by_cases refused : heapEnd.toNat < (heapStart.toNat + blockSize size) % 2 ^ 32
  · rw [if_pos refused]
    exact ⟨fun _ => refused, fun _ address writes => absurd rfl writes⟩
  · rw [if_neg refused]
    refine ⟨fun spares => absurd image.contains_start ?_, fun misses => absurd misses refused⟩
    exact spares imageStart (blockPatch_start heapStart _)

/-- The bytes of a free are the block its header word describes. -/
theorem spares_kfree {image : LoadedImage} {h : Heap} (pointer : Word) :
    h.Spares image (.kfree pointer) ↔ h.Misses image (.kfree pointer) := by
  have fill : ∀ (size : Nat) (address : Word),
      fillPatch pointer size 0xDE address ≠ none ↔ InRange pointer size address := by
    intro size address
    rw [fillPatch]
    by_cases inside : InRange pointer size address <;> simp [inside]
  rw [Misses, Spares, written, SimpleOS.kfree]
  by_cases isNull : pointer = null
  · rw [if_pos isNull]
    exact ⟨fun _ => Or.inl isNull, fun _ address writes => absurd rfl writes⟩
  · rw [if_neg isNull]
    simp only [isNull, false_or, fill]
    by_cases empty : load h.memory (pointer - 4) = 0
    · refine ⟨fun _ => Or.inl empty, fun _ address inside => ?_⟩
      rw [empty] at inside
      exact absurd inside (Nat.not_lt_zero _)
    · have positive : 0 < (load h.memory (pointer - 4)).toNat :=
        Nat.pos_of_ne_zero fun zero => empty (BitVec.eq_of_toNat_eq zero)
      simp only [empty, false_or]
      exact apart_iff_distance positive image.nonempty

/-- Nothing is granted by calls that miss the image. -/
theorem misses_step {image : LoadedImage} (h : Heap) (action : Action)
    (fresh : h.heapCurrent = heapStart) (misses : h.Misses image action) :
    (h.step action).heapCurrent = heapStart := by
  cases action with
  | kmalloc size =>
      rw [step, kmalloc_eq, fresh, if_pos ((refused_iff size).mpr misses)]
      exact fresh
  | kfree pointer => exact fresh
  | write address byte => exact fresh

theorem spares_iff {image : LoadedImage} (h : Heap) (action : Action)
    (fresh : h.heapCurrent = heapStart) : h.Spares image action ↔ h.Misses image action := by
  cases action with
  | kmalloc size => exact spares_kmalloc fresh size
  | kfree pointer => exact spares_kfree pointer
  | write address byte => exact ⟨fun _ => trivial, fun _ _ writes => absurd rfl writes⟩

/--
The allocator writes no byte of the image exactly in the runs that are granted
no block at all and free nothing that reaches into the image.
-/
theorem image_spared_iff (image : LoadedImage) (memory : Memory) (actions : List Action) :
    Along step (Spares image) (init memory) actions ↔
      Along step (Misses image) (init memory) actions := by
  have anyAction : ∀ action ∈ actions, (fun _ : Action => True) action := fun _ _ => trivial
  exact along_iff_along (fun h action _ => misses_step h action)
    (fun h action _ => spares_iff h action) (show (init memory).heapCurrent = heapStart from rfl)
    anyAction

/-- The first block the kernel asks for lands on the start of the image. -/
theorem image_overwritten :
    ¬ ∀ (image : LoadedImage) (memory : Memory) (actions : List Action),
      Along step (Spares image) (init memory) actions := by
  intro spared
  have first := (spared .sample (fun _ => 0) [.kmalloc 4096]).1
  have misses := (spares_iff _ _ rfl).mp first
  exact absurd misses (by decide)

end Heap

end SimpleOS
