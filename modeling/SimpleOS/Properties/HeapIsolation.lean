import SimpleOS.Kernel.Heap

/-!
# Blocks of the heap keep to themselves

`kfree` reads the length of a block from the word in front of it.  While the
clients write into their own blocks only, that word is still the one `kmalloc`
wrote, so a free clears its own payload however often it is repeated.
-/

namespace SimpleOS.Heap

open Library.ByteMemory Library.BumpArena Library.GuardedRun

/-- Requests of at most the heap's size, frees of returned pointers, writes into payloads. -/
def Allowed (h : Heap) : Action → Prop
  | .kmalloc size => size.toNat ≤ heapSize.toNat
  | .kfree pointer => pointer = null ∨ ∃ grant ∈ h.granted, grant.pointer = pointer
  | .write address _ => ∃ grant ∈ h.granted, InRange grant.pointer grant.rounded address

instance (h : Heap) : (action : Action) → Decidable (h.Allowed action)
  | .kmalloc _ => inferInstanceAs (Decidable (_ ≤ _))
  | .kfree _ => inferInstanceAs (Decidable (_ ∨ _))
  | .write _ _ => inferInstanceAs (Decidable (∃ grant ∈ h.granted, _))

/-- No two headers or payloads overlap, and every header records the size of its block. -/
structure Isolated (h : Heap) : Prop where
  disjoint : (h.granted.flatMap Grant.ranges).Pairwise fun first second =>
    Apart first.1 first.2 second.1 second.2
  headers : ∀ grant ∈ h.granted, load h.memory grant.header = BitVec.ofNat 32 grant.rounded

/-- What a call of the allocator does to the blocks. -/
def Contained (h : Heap) : Action → Prop
  | .kmalloc size =>
      ((h.kmalloc size).1 ≠ null → ∀ address,
        InRange (h.kmalloc size).1 (roundUp 4 size.toNat) address →
          (h.kmalloc size).2.memory address = 0) ∧
      ∀ grant ∈ h.granted, ∀ address, grant.Holds address →
        (h.kmalloc size).2.memory address = h.memory address
  | .kfree pointer =>
      (pointer = null → (h.kfree pointer).memory = h.memory) ∧
      (∀ grant ∈ h.granted, grant.pointer = pointer → ∀ address,
        (h.kfree pointer).memory address =
          if InRange pointer grant.rounded address then 0xDE else h.memory address) ∧
      ∀ grant ∈ h.granted, grant.pointer ≠ pointer → ∀ address, grant.Holds address →
        (h.kfree pointer).memory address = h.memory address
  | .write _ _ => True

/-! ## Where the blocks lie -/

namespace Packed

variable {h : Heap} (packed : h.Packed) {grant other : Grant}

include packed

/-- A granted block lies between `heap_start` and `heap_current`. -/
theorem place (member : grant ∈ h.granted) :
    heapStart.toNat ≤ grant.header.toNat ∧
      grant.header.toNat + 4 + grant.rounded ≤ h.heapCurrent.toNat ∧
      grant.pointer.toNat = grant.header.toNat + 4 := by
  obtain ⟨low, high⟩ := packed.stacked.within (List.mem_map_of_mem member)
  have below := packed.below
  have top := heapEnd_toNat
  have pointer : grant.pointer = grant.header + 4 := (BitVec.sub_add_cancel _ _).symm
  simp only [Grant.span] at low high
  refine ⟨low, high, ?_⟩
  rw [pointer, BitVec.toNat_add, show (4 : Word).toNat = 4 by decide]
  exact Nat.mod_eq_of_lt (by omega)

theorem header_range (member : grant ∈ h.granted) {address : Word} :
    InRange grant.header 4 address ↔
      grant.header.toNat ≤ address.toNat ∧ address.toNat < grant.header.toNat + 4 := by
  have place := packed.place member
  have below := packed.below
  have top := heapEnd_toNat
  exact inRange_iff (by omega)

theorem payload_range (member : grant ∈ h.granted) {address : Word} :
    InRange grant.pointer grant.rounded address ↔
      grant.header.toNat + 4 ≤ address.toNat ∧
        address.toNat < grant.header.toNat + 4 + grant.rounded := by
  have place := packed.place member
  have below := packed.below
  have top := heapEnd_toNat
  rw [inRange_iff (by omega), place.2.2]

/-- Two granted blocks are the same one, or one ends before the other starts. -/
theorem separate (member : grant ∈ h.granted) (member' : other ∈ h.granted) :
    grant = other ∨ grant.header.toNat + 4 + grant.rounded ≤ other.header.toNat ∨
      other.header.toNat + 4 + other.rounded ≤ grant.header.toNat := by
  have ordered := List.pairwise_map.mp packed.stacked.pairwise
  refine List.Pairwise.forall_of_forall_of_flip
    (R := fun grant other : Grant => grant = other ∨
      grant.header.toNat + 4 + grant.rounded ≤ other.header.toNat ∨
        other.header.toNat + 4 + other.rounded ≤ grant.header.toNat)
    (fun _ _ => Or.inl rfl) ?_ ?_ member member'
  · exact ordered.imp fun older => Or.inr (Or.inr older)
  · exact ordered.imp fun older => Or.inr (Or.inl older)

/-- An address in a payload is in no header. -/
theorem payload_not_header (member : grant ∈ h.granted) (member' : other ∈ h.granted)
    {address : Word} (inside : InRange grant.pointer grant.rounded address) :
    ¬ InRange other.header 4 address := by
  rw [packed.payload_range member] at inside
  rw [packed.header_range member']
  rcases packed.separate member member' with rfl | apart | apart <;> omega

/-- An address in one block is in no other. -/
theorem not_holds_of_payload (member : grant ∈ h.granted) (member' : other ∈ h.granted)
    (different : other ≠ grant) {address : Word} (holds : other.Holds address) :
    ¬ InRange grant.pointer grant.rounded address := by
  rw [Grant.Holds, packed.header_range member', packed.payload_range member'] at holds
  rw [packed.payload_range member]
  rcases packed.separate member member' with rfl | apart | apart
  · exact absurd rfl different
  · omega
  · omega

/-- An address in the header or the payload of a block is in the block. -/
theorem block_range (member : grant ∈ h.granted) {range : Word × Nat}
    (part : range ∈ grant.ranges) {address : Word} (inside : InRange range.1 range.2 address) :
    grant.header.toNat ≤ address.toNat ∧
      address.toNat < grant.header.toNat + 4 + grant.rounded := by
  simp only [Grant.ranges, List.mem_cons, List.not_mem_nil, or_false] at part
  rcases part with rfl | rfl
  · have header := (packed.header_range member).mp inside
    omega
  · have payload := (packed.payload_range member).mp inside
    omega

/-- All headers and payloads are pairwise disjoint. -/
theorem disjoint :
    (h.granted.flatMap Grant.ranges).Pairwise fun first second =>
      Apart first.1 first.2 second.1 second.2 := by
  refine List.pairwise_flatMap.mpr ⟨fun grant member => ?_, ?_⟩
  · refine List.Pairwise.cons (fun range part address header inside => ?_)
      (List.pairwise_singleton _ _)
    obtain rfl := List.mem_singleton.mp part
    exact packed.payload_not_header member member inside header
  · refine (List.pairwise_map.mp packed.stacked.pairwise).imp_of_mem ?_
    intro newer older newerIn olderIn ordered first firstPart second secondPart address
      inFirst inSecond
    have above := packed.block_range newerIn firstPart inFirst
    have below := packed.block_range olderIn secondPart inSecond
    simp only [Grant.span] at ordered
    omega

end Packed

/-! ## One step -/

/-- The blocks fill the heap and every header records the size of its block. -/
structure Sound (h : Heap) : Prop where
  packed : h.Packed
  headers : ∀ grant ∈ h.granted, load h.memory grant.header = BitVec.ofNat 32 grant.rounded

theorem Sound.isolated {h : Heap} (sound : h.Sound) : h.Isolated where
  disjoint := sound.packed.disjoint
  headers := sound.headers

theorem init_sound (memory : Memory) : (init memory).Sound where
  packed := init_packed memory
  headers _ member := absurd member List.not_mem_nil

section Granting

variable {h : Heap} {size : Word}
  (room : h.heapCurrent.toNat + blockSize size ≤ heapEnd.toNat)

include room

/-- The rounded size of a block inside the heap is no wrapped one. -/
theorem grant_memory :
    (h.grant size).memory = patched h.memory (blockPatch h.heapCurrent (roundUp 4 size.toNat)) := by
  have top := heapEnd_toNat
  simp only [blockSize] at room
  rw [grant, Nat.mod_eq_of_lt (by omega)]

theorem grant_header_range {address : Word} :
    InRange h.heapCurrent 4 address ↔
      h.heapCurrent.toNat ≤ address.toNat ∧ address.toNat < h.heapCurrent.toNat + 4 := by
  have top := heapEnd_toNat
  simp only [blockSize] at room
  exact inRange_iff (by omega)

/-- The payload of a fresh block is zero. -/
theorem grant_payload {address : Word}
    (inside : InRange (h.heapCurrent + 4) (roundUp 4 size.toNat) address) :
    (h.grant size).memory address = 0 := by
  rw [grant_memory room]
  simp only [patched, blockPatch, Patch.andThen, fillPatch, if_pos inside]
  rfl

variable (packed : h.Packed)

include packed

theorem grant_payload_range {address : Word} :
    InRange (h.heapCurrent + 4) (roundUp 4 size.toNat) address ↔
      h.heapCurrent.toNat + 4 ≤ address.toNat ∧
        address.toNat < h.heapCurrent.toNat + blockSize size := by
  have top := heapEnd_toNat
  have place := packed.pointer_toNat
  simp only [blockSize] at room ⊢
  rw [inRange_iff (by omega), place]
  omega

/-- Nothing below the bump pointer changes. -/
theorem grant_below {address : Word} (below : address.toNat < h.heapCurrent.toNat) :
    (h.grant size).memory address = h.memory address := by
  have outPayload : ¬ InRange (h.heapCurrent + 4) (roundUp 4 size.toNat) address := by
    rw [grant_payload_range room packed]
    omega
  have outHeader : ¬ InRange h.heapCurrent 4 address := by
    rw [grant_header_range room]
    omega
  rw [grant_memory room]
  simp only [patched, blockPatch, Patch.andThen, fillPatch, wordPatch, if_neg outPayload,
    if_neg outHeader]
  rfl

/-- The header of a fresh block records its rounded size. -/
theorem grant_header :
    load (h.grant size).memory h.heapCurrent = BitVec.ofNat 32 (roundUp 4 size.toNat) := by
  rw [grant_memory room, blockPatch, patched_andThen, patched_wordPatch]
  refine (load_congr fun target inHeader => ?_).trans (load_store_same h.memory h.heapCurrent _)
  have outPayload : ¬ InRange (h.heapCurrent + 4) (roundUp 4 size.toNat) target := by
    rw [grant_header_range room] at inHeader
    rw [grant_payload_range room packed]
    omega
  simp only [patched, fillPatch, if_neg outPayload]
  rfl

end Granting

theorem fits_of_small {h : Heap} (packed : h.Packed) {size : Word}
    (small : size.toNat ≤ heapSize.toNat) : h.Fits size := by
  have rounded := roundUp_lt (show 0 < 4 by decide) size.toNat
  have below := packed.below
  have top := heapEnd_toNat
  have length : heapSize.toNat = 0x100000 := by decide
  refine Or.inl ?_
  rw [blockSize]
  omega

namespace Sound

variable {h : Heap} (sound : h.Sound)

include sound

/-- A granted block is recorded in its header, and the others keep theirs. -/
theorem grant {size : Word} (room : h.heapCurrent.toNat + blockSize size ≤ heapEnd.toNat) :
    (h.grant size).Sound where
  packed := sound.packed.grant room
  headers other member := by
    rcases List.mem_cons.mp member with rfl | older
    · rw [Grant.header, BitVec.add_sub_cancel]
      exact grant_header room sound.packed
    · rw [← sound.headers other older]
      refine load_congr fun target inHeader => grant_below room sound.packed ?_
      have place := sound.packed.place older
      have range := (sound.packed.header_range older).mp inHeader
      omega

/-- Bytes written inside a payload leave every header alone. -/
theorem write_payload {grant : Grant} (member : grant ∈ h.granted) {memory : Memory}
    (outside : ∀ address, ¬ InRange grant.pointer grant.rounded address →
      memory address = h.memory address) :
    Sound { h with memory := memory } where
  packed := ⟨sound.packed.stacked, sound.packed.below, sound.packed.aligned⟩
  headers other member' := by
    rw [← sound.headers other member']
    refine load_congr fun target inHeader => outside target fun inPayload => ?_
    exact sound.packed.payload_not_header member member' inPayload inHeader

variable {grant : Grant} (member : grant ∈ h.granted)

include member

theorem pointer_ne_null : grant.pointer ≠ null := by
  intro isNull
  have place := sound.packed.place member
  rw [isNull, show null.toNat = 0 by decide] at place
  omega

/-- A free finds the size of its block in the header. -/
theorem kfree_memory (address : Word) :
    (h.kfree grant.pointer).memory address =
      if InRange grant.pointer grant.rounded address then 0xDE else h.memory address := by
  have place := sound.packed.place member
  have below := sound.packed.below
  have top := heapEnd_toNat
  have length : (load h.memory (grant.pointer - 4)).toNat = grant.rounded := by
    rw [show grant.pointer - 4 = grant.header from rfl, sound.headers grant member,
      BitVec.toNat_ofNat]
    exact Nat.mod_eq_of_lt (by omega)
  simp only [kfree, SimpleOS.kfree, if_neg (sound.pointer_ne_null member), length, patched,
    fillPatch]
  split <;> rfl

theorem kfree : (h.kfree grant.pointer).Sound :=
  sound.write_payload member fun address outside =>
    (sound.kfree_memory member address).trans (if_neg outside)

end Sound

theorem kfree_null (h : Heap) : h.kfree null = h := by
  rw [kfree, SimpleOS.kfree_null, patched_noPatch]

/-- An allowed action keeps the headers true. -/
theorem sound_step (h : Heap) (action : Action) (sound : h.Sound) (allowed : h.Allowed action) :
    (h.step action).Sound := by
  cases action with
  | kmalloc size =>
      rw [step, sound.packed.kmalloc_fits (fits_of_small sound.packed allowed)]
      split
      · next room => exact sound.grant room
      · exact sound
  | kfree pointer =>
      rcases allowed with rfl | ⟨grant, member, rfl⟩
      · rw [step, kfree_null]
        exact sound
      · exact sound.kfree member
  | write address byte =>
      obtain ⟨grant, member, inside⟩ := allowed
      refine sound.write_payload member fun other outside => ?_
      have elsewhere : other ≠ address := by
        rintro rfl
        exact outside inside
      exact Function.update_of_ne elsewhere byte h.memory

/-- An allowed action touches no block but its own. -/
theorem contained_step (h : Heap) (action : Action) (sound : h.Sound) (allowed : h.Allowed action) :
    h.Contained action := by
  cases action with
  | kmalloc size =>
      rw [Contained, sound.packed.kmalloc_fits (fits_of_small sound.packed allowed)]
      by_cases room : h.heapCurrent.toNat + blockSize size ≤ heapEnd.toNat
      · rw [if_pos room]
        refine ⟨fun _ address inside => grant_payload room inside, ?_⟩
        intro grant member address holds
        refine grant_below room sound.packed ?_
        have place := sound.packed.place member
        rw [Grant.Holds, sound.packed.header_range member, sound.packed.payload_range member]
          at holds
        omega
      · rw [if_neg room]
        exact ⟨fun nonnull => absurd rfl nonnull, fun _ _ _ _ => rfl⟩
  | kfree pointer =>
      refine ⟨?_, ?_, ?_⟩
      · rintro rfl
        rw [kfree_null]
      · rintro grant member rfl address
        exact sound.kfree_memory member address
      · intro other member' different address holds
        rcases allowed with rfl | ⟨grant, member, rfl⟩
        · rw [kfree_null]
        · have apart : other ≠ grant := fun same => different (congrArg Grant.pointer same)
          rw [sound.kfree_memory member,
            if_neg (sound.packed.not_holds_of_payload member member' apart holds)]
  | write address byte => exact trivial

/-- In every allowed run the blocks stay isolated and every call stays in its block. -/
theorem heap_isolated (memory : Memory) (actions : List Action)
    (allowed : Along step Allowed (init memory) actions) :
    Always step Isolated (init memory) actions ∧ Along step Contained (init memory) actions :=
  ⟨always_of_along sound_step (fun _ sound => sound.isolated) (init_sound memory) allowed,
    along_of_along sound_step contained_step (init_sound memory) allowed⟩

/-- Two blocks, one of them freed twice and then written again by its client. -/
theorem heap_isolated_sample :
    Always step Isolated (init fun _ => 0xFF)
        [.kmalloc 5, .kmalloc 0x100000, .kmalloc 16, .write 0x100008 7, .kfree 0x100004,
          .kfree 0x100004, .kfree null, .write 0x100004 1] ∧
      Along step Contained (init fun _ => 0xFF)
        [.kmalloc 5, .kmalloc 0x100000, .kmalloc 16, .write 0x100008 7, .kfree 0x100004,
          .kfree 0x100004, .kfree null, .write 0x100004 1] :=
  heap_isolated _ _ (by decide +kernel)

end SimpleOS.Heap
