import SimpleOS.Library.ByteCopy
import SimpleOS.Properties.FreeDiscipline

/-!
# The memory routines of the C library

`memset` and `memcpy` of `string.c` for every size and every overlap, and the
one call that the kernel makes: `process_cleanup` clears a process control block
byte by byte.  A record and the bytes it occupies determine each other.
-/

namespace SimpleOS

open Library.ByteMemory

/-- `memset(ptr, value, size)`. -/
def memset (memory : Memory) (ptr value size : Word) : Memory :=
  fillLoop ptr (value.setWidth 8) size.toNat memory

/-- `memcpy(dest, src, size)`. -/
def memcpy (memory : Memory) (dest src size : Word) : Memory :=
  copyLoop dest src size.toNat memory

theorem memset_apply (memory : Memory) (ptr value size target : Word) :
    memset memory ptr value size target =
      if InRange ptr size.toNat target then value.setWidth 8 else memory target := by
  rw [memset, ← patched_fillPatch memory ptr _ size.isLt.le, patched, fillPatch]
  split <;> rfl

theorem memcpy_apply (memory : Memory) (dest src size target : Word) :
    memcpy memory dest src size target =
      if InRange dest size.toNat target then memory (copiedFrom dest src (target - dest).toNat)
      else memory target :=
  copyLoop_apply dest src memory size.isLt.le target

/-- The target holds what the source held before. -/
def Moves (memory after : Memory) (dest src size : Word) : Prop :=
  ∀ index < size.toNat,
    after (dest + BitVec.ofNat 32 index) = memory (src + BitVec.ofNat 32 index)

/-- `memcpy` writes the target range only, where it repeats the bytes between the two pointers; it
moves the source for every content of memory exactly if the target does not start inside the
source behind its first byte. -/
theorem memcpy_moves_iff (dest src size : Word) :
    (∀ memory target, memcpy memory dest src size target =
        if InRange dest size.toNat target then memory (copiedFrom dest src (target - dest).toNat)
        else memory target) ∧
      ((∀ memory, Moves memory (memcpy memory dest src size) dest src size) ↔
        ¬ (dest ≠ src ∧ InRange src size.toNat dest)) := by
  have limit := size.isLt
  refine ⟨fun memory target => memcpy_apply memory dest src size target, ?_, ?_⟩
  · rintro moves ⟨different, inside⟩
    have moved := moves (fun target => if target = src then 1 else 0) (dest - src).toNat inside
    rw [memcpy_apply, if_pos (inRange_offset inside limit.le), copiedFrom,
      offset_toNat dest (dest - src).isLt, Nat.mod_self, BitVec.add_zero, base_add_offset] at moved
    simp only [if_true, if_neg different] at moved
    exact absurd moved (by decide)
  · intro apart memory index bound
    rw [memcpy_apply, if_pos (inRange_offset bound limit.le), copiedFrom,
      offset_toNat dest (by omega)]
    rcases Classical.em (dest = src) with rfl | different
    · rw [BitVec.sub_self]
      exact congrArg (fun offset => memory (dest + BitVec.ofNat 32 offset)) (Nat.mod_zero index)
    · have above : ¬ (dest - src).toNat < size.toNat := fun inside => apart ⟨different, inside⟩
      rw [Nat.mod_eq_of_lt (by omega)]

/-! ## The bytes of a record -/

section Record

variable (bytes : Nat → Byte)

/-- The word at an index of the record. -/
def wordAt (index : Nat) : Word := ofBytes fun byte => bytes (4 * index + byte)

theorem state_code_ofCode (code : Word) : (ProcessState.ofCode code).code = code := by
  unfold ProcessState.ofCode
  split
  · rfl
  · next small =>
      have bound : code.toNat ≤ 3 := Nat.not_lt.mp small
      have cases : code = 0 ∨ code = 1 ∨ code = 2 ∨ code = 3 := by bv_omega
      rcases cases with rfl | rfl | rfl | rfl <;> rfl

theorem priority_code_ofCode (code : Word) : (ProcessPriority.ofCode code).code = code := by
  unfold ProcessPriority.ofCode
  split
  · rfl
  · next small =>
      have bound : code.toNat ≤ 2 := Nat.not_lt.mp small
      have cases : code = 0 ∨ code = 1 ∨ code = 2 := by bv_omega
      rcases cases with rfl | rfl | rfl <;> rfl

theorem words_ofMemory :
    (Process.ofMemory bytes).words = (List.range 67).map (wordAt bytes) := by
  have names : (List.range 16).map (fun index =>
      ofBytes fun byte => (Process.ofMemory bytes).name (4 * index + byte)) =
      (List.range 16).map fun index => wordAt bytes (2 + index) := by
    refine List.map_congr_left fun index member => ofBytes_congr fun byte bound => ?_
    have inside : 4 * index + byte < 64 := by
      have small := List.mem_range.mp member
      omega
    have place : 8 + (4 * index + byte) = 4 * (2 + index) + byte := by omega
    have read : (Process.ofMemory bytes).name (4 * index + byte) =
        bytes (8 + (4 * index + byte)) := if_pos inside
    rw [read, place]
  have files : (List.range 16).map (Process.ofMemory bytes).fileDescriptors =
      (List.range 16).map fun index => wordAt bytes (46 + index) := by
    refine List.map_congr_left fun index member => ?_
    exact if_pos (List.mem_range.mp member)
  rw [Process.words, names, files]
  simp only [Process.ofMemory, state_code_ofCode, priority_code_ofCode]
  rfl

/-- A record is read back from its bytes, its arrays cut to their size, and any 268 bytes are the
bytes of the record that is read from them. -/
theorem record_bytes_exact :
    (∀ process : Process, Process.ofMemory process.byte =
      { process with
        name := fun index => if index < 64 then process.name index else 0
        fileDescriptors := fun index =>
          if index < 16 then process.fileDescriptors index else 0 }) ∧
      ∀ (bytes : Nat → Byte) (offset : Nat), offset < processSize →
        (Process.ofMemory bytes).byte offset = bytes offset := by
  refine ⟨Process.ofMemory_byte, fun bytes offset bound => ?_⟩
  have index : offset / 4 < 67 := by
    rw [processSize] at bound
    omega
  have split : 4 * (offset / 4) + offset % 4 = offset := Nat.div_add_mod offset 4
  rw [Process.byte, words_ofMemory, List.getD_eq_getElem?_getD, List.getElem?_map,
    List.getElem?_range index, Option.map_some, Option.getD_some, wordAt,
    byteOf_ofBytes _ (Nat.mod_lt offset (by decide)), split]

end Record

/-! ## Clearing a record -/

theorem cleared_words : Process.cleared.words = List.replicate 67 0 := rfl

/-- All bytes of a cleared record are zero. -/
theorem cleared_byte (offset : Nat) : Process.cleared.byte offset = 0 := by
  have zero : Process.cleared.words.getD (offset / 4) 0 = 0 := by
    rw [cleared_words, List.getD_eq_getElem?_getD, List.getElem?_replicate]
    split <;> rfl
  rw [Process.byte, zero, byteOf]
  simp

namespace Kernel

/-- Clearing a record is `memset` on its bytes. -/
theorem cleared_read (image : Image) (s : Kernel) (slot : Slot) :
    (s.modify (image.address slot) fun _ => .cleared).read image =
      memset (s.read image) (image.address slot) 0 (BitVec.ofNat 32 processSize) := by
  funext target
  rw [memset_apply, read, read]
  have size : (BitVec.ofNat 32 processSize).toNat = processSize := rfl
  rw [size]
  rcases Classical.em (InRange (image.address slot) processSize target) with inside | outside
  · rw [if_pos inside, Image.slotAt?_address inside]
    simp only [modify_self]
    exact cleared_byte _
  · rw [if_neg outside]
    cases found : slotAt? image target with
    | none => rfl
    | some other =>
        have hit : InRange other processSize target := of_decide_eq_true
          (List.find?_some (p := fun slot => decide (InRange slot processSize target)) found)
        have different : other ≠ image.address slot := by
          rintro rfl
          exact outside hit
        simp only [modify_other s _ different]

/-- What `process_cleanup` does before the `memset`. -/
def unregistered (s : Kernel) (process : Word) : Kernel :=
  let s :=
    if (s.process process).pid.toNat < maxProcesses then
      s.setTable (s.process process).pid.toNat null
    else s
  s.removeFromReadyQueue process

/-- The last line of `process_cleanup`, on the bytes of memory: the record is cleared, and no other
byte of any record, stack or heap block changes. -/
theorem cleanup_clears_bytes (image : Image) (s : Kernel) (slot : Slot) :
    (s.processCleanup (image.address slot)).read image =
        memset ((s.unregistered (image.address slot)).read image) (image.address slot) 0
          (BitVec.ofNat 32 processSize) ∧
      ∀ target, (s.processCleanup (image.address slot)).read image target =
        if InRange (image.address slot) processSize target then 0
        else (s.unregistered (image.address slot)).read image target := by
  have nonnull : image.address slot ≠ null := by
    cases slot with
    | create index => exact Image.createSlot_ne_null index.isLt
    | test index => exact Image.testSlot_ne_null index.isLt
  have cleared : (s.processCleanup (image.address slot)).read image =
      memset ((s.unregistered (image.address slot)).read image) (image.address slot) 0
        (BitVec.ofNat 32 processSize) := by
    rw [processCleanup, if_neg nonnull]
    exact cleared_read image (s.unregistered (image.address slot)) slot
  refine ⟨cleared, fun target => ?_⟩
  rw [cleared, memset_apply]
  rfl

end Kernel

end SimpleOS
