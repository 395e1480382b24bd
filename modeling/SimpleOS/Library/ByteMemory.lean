import Mathlib.Data.BitVec

/-!
# Little-endian words over byte memory

Memory is a total map from 32-bit addresses to bytes; address arithmetic wraps
at `2 ^ 32`.  A `Patch` lists the bytes an operation overwrites, so that the
same operation can be applied to different stores.
-/

namespace SimpleOS.Library.ByteMemory

abbrev Byte := BitVec 8
abbrev Word := BitVec 32
abbrev Memory := Word → Byte

/-! ## Words and their bytes -/

/-- Byte `index` of a word, the lowest first. -/
def byteOf (word : Word) (index : Nat) : Byte :=
  BitVec.ofNat 8 (word.toNat / 256 ^ index)

/-- The word with the four given bytes, the lowest first. -/
def ofBytes (bytes : Nat → Byte) : Word :=
  BitVec.ofNat 32 ((bytes 0).toNat + 256 * (bytes 1).toNat + 65536 * (bytes 2).toNat +
    16777216 * (bytes 3).toNat)

@[simp] theorem ofBytes_byteOf (word : Word) : ofBytes (byteOf word) = word := by
  apply BitVec.eq_of_toNat_eq
  have bound := word.isLt
  simp only [ofBytes, byteOf, BitVec.toNat_ofNat]
  omega

theorem byteOf_ofBytes (bytes : Nat → Byte) {index : Nat} (bound : index < 4) :
    byteOf (ofBytes bytes) index = bytes index := by
  apply BitVec.eq_of_toNat_eq
  have zero := (bytes 0).isLt
  have one := (bytes 1).isLt
  have two := (bytes 2).isLt
  have three := (bytes 3).isLt
  simp only [ofBytes, byteOf, BitVec.toNat_ofNat]
  rcases (by omega : index = 0 ∨ index = 1 ∨ index = 2 ∨ index = 3) with rfl | rfl | rfl | rfl <;>
    omega

theorem ofBytes_congr {first second : Nat → Byte}
    (agree : ∀ index, index < 4 → first index = second index) : ofBytes first = ofBytes second := by
  simp only [ofBytes, agree 0 (by decide), agree 1 (by decide), agree 2 (by decide),
    agree 3 (by decide)]

/-- A word whose bytes are all zero is zero. -/
theorem ofBytes_zero {bytes : Nat → Byte} (zeros : ∀ index, index < 4 → bytes index = 0) :
    ofBytes bytes = 0 := by
  rw [ofBytes_congr zeros]
  decide

/-! ## Ranges of addresses -/

/-- The address is one of the `size` addresses from `base` on. -/
def InRange (base : Word) (size : Nat) (address : Word) : Prop :=
  (address - base).toNat < size

instance (base : Word) (size : Nat) (address : Word) : Decidable (InRange base size address) :=
  inferInstanceAs (Decidable (_ < _))

/-- No address lies in both ranges. -/
def Apart (base : Word) (size : Nat) (base' : Word) (size' : Nat) : Prop :=
  ∀ address, InRange base size address → ¬ InRange base' size' address

theorem Apart.symm {base base' : Word} {size size' : Nat} (apart : Apart base size base' size') :
    Apart base' size' base size :=
  fun address inside outside => apart address outside inside

/-- Two ranges lie apart when neither reaches the start of the other. -/
theorem apart_of_distance {base base' : Word} {size size' : Nat}
    (above : size ≤ (base' - base).toNat) (below : size' ≤ (base - base').toNat) :
    Apart base size base' size' := by
  intro address inside hit
  rw [InRange] at inside hit
  bv_omega

/-- A range contains its own start. -/
theorem inRange_start (base : Word) {size : Nat} (positive : 0 < size) :
    InRange base size base := by
  rw [InRange, BitVec.sub_self]
  exact positive

/-- Two ranges with a byte in each lie apart only then. -/
theorem apart_iff_distance {base base' : Word} {size size' : Nat} (positive : 0 < size)
    (positive' : 0 < size') :
    Apart base size base' size' ↔
      size ≤ (base' - base).toNat ∧ size' ≤ (base - base').toNat := by
  constructor
  · intro apart
    exact ⟨Nat.le_of_not_lt fun inside => apart base' inside (inRange_start base' positive'),
      Nat.le_of_not_lt (apart base (inRange_start base positive))⟩
  · exact fun distance => apart_of_distance distance.1 distance.2

/-- The distance from a base to the address `index` bytes above it. -/
theorem offset_toNat (base : Word) {index : Nat} (small : index < 2 ^ 32) :
    (base + BitVec.ofNat 32 index - base).toNat = index := by
  rw [BitVec.add_comm, BitVec.add_sub_cancel, BitVec.toNat_ofNat]
  exact Nat.mod_eq_of_lt small

/-- Every address is its distance above the base. -/
theorem base_add_offset (base address : Word) :
    base + BitVec.ofNat 32 (address - base).toNat = address := by
  rw [BitVec.ofNat_toNat, BitVec.setWidth_eq, BitVec.add_comm, BitVec.sub_add_cancel]

theorem inRange_offset {base : Word} {size index : Nat} (bound : index < size)
    (small : size ≤ 2 ^ 32) : InRange base size (base + BitVec.ofNat 32 index) := by
  rw [InRange, offset_toNat base (by omega)]
  exact bound

/-- A range that does not wrap is an interval of natural numbers. -/
theorem inRange_iff {base address : Word} {size : Nat} (fits : base.toNat + size ≤ 2 ^ 32) :
    InRange base size address ↔
      base.toNat ≤ address.toNat ∧ address.toNat < base.toNat + size := by
  have below := address.isLt
  rw [InRange]
  by_cases order : base.toNat ≤ address.toNat
  · rw [BitVec.toNat_sub_of_le (BitVec.le_def.mpr order)]
    omega
  · rw [BitVec.toNat_sub, Nat.mod_eq_of_lt (by omega)]
    omega

/-! ## Loads and stores -/

/-- The little-endian word at an address. -/
def load (memory : Memory) (address : Word) : Word :=
  ofBytes fun index => memory (address + BitVec.ofNat 32 index)

/-- Write a little-endian word at an address. -/
def store (memory : Memory) (address word : Word) : Memory := fun target =>
  if InRange address 4 target then byteOf word (target - address).toNat else memory target

@[simp] theorem load_store_same (memory : Memory) (address word : Word) :
    load (store memory address word) address = word := by
  refine (ofBytes_congr ?_).trans (ofBytes_byteOf word)
  intro index bound
  have offset := offset_toNat address (show index < 2 ^ 32 by omega)
  rw [store, if_pos (inRange_offset bound (by decide)), offset]

/-- A store changes no byte outside its word. -/
theorem store_outside (memory : Memory) {address target : Word} (word : Word)
    (outside : ¬ InRange address 4 target) : store memory address word target = memory target :=
  if_neg outside

theorem load_congr {first second : Memory} {address : Word}
    (agree : ∀ target, InRange address 4 target → first target = second target) :
    load first address = load second address :=
  ofBytes_congr fun _ bound => agree _ (inRange_offset bound (by decide))

/-- A store does not change the words that lie apart from it. -/
theorem load_store_apart (memory : Memory) {address other : Word} (word : Word)
    (apart : Apart address 4 other 4) :
    load (store memory other word) address = load memory address :=
  load_congr fun target inside => if_neg (apart target inside)

/-! ## Patches -/

/-- The bytes an operation overwrites. -/
abbrev Patch := Word → Option Byte

/-- The memory after the patch. -/
def patched (memory : Memory) (patch : Patch) : Memory := fun target =>
  (patch target).getD (memory target)

/-- Overwrite nothing. -/
def noPatch : Patch := fun _ => none

/-- Overwrite a range with one byte, as a loop of `size` byte stores does. -/
def fillPatch (base : Word) (size : Nat) (byte : Byte) : Patch := fun target =>
  if InRange base size target then some byte else none

/-- Overwrite one word. -/
def wordPatch (base word : Word) : Patch := fun target =>
  if InRange base 4 target then some (byteOf word (target - base).toNat) else none

/-- The second patch is written after the first. -/
def Patch.andThen (first second : Patch) : Patch := fun target =>
  (second target).or (first target)

@[simp] theorem patched_noPatch (memory : Memory) : patched memory noPatch = memory := rfl

theorem patched_andThen (memory : Memory) (first second : Patch) :
    patched memory (first.andThen second) = patched (patched memory first) second := by
  funext target
  simp only [patched, Patch.andThen]
  cases second target <;> rfl

theorem patched_wordPatch (memory : Memory) (base word : Word) :
    patched memory (wordPatch base word) = store memory base word := by
  funext target
  simp only [patched, wordPatch, store]
  split <;> rfl

/-- The word at an address after the patch, with the bytes of `word` there before. -/
def patchedWord (patch : Patch) (address word : Word) : Word :=
  ofBytes fun index => (patch (address + BitVec.ofNat 32 index)).getD (byteOf word index)

/-- A word none of whose bytes the patch overwrites stays. -/
theorem patchedWord_of_untouched {patch : Patch} {address : Word} (word : Word)
    (untouched : ∀ index, index < 4 → patch (address + BitVec.ofNat 32 index) = none) :
    patchedWord patch address word = word := by
  refine (ofBytes_congr ?_).trans (ofBytes_byteOf word)
  intro index bound
  rw [untouched index bound]
  rfl

theorem patchedWord_andThen (first second : Patch) (address word : Word) :
    patchedWord (first.andThen second) address word =
      patchedWord second address (patchedWord first address word) := by
  refine ofBytes_congr fun index bound => ?_
  rw [patchedWord, byteOf_ofBytes _ bound, Patch.andThen]
  cases second (address + BitVec.ofNat 32 index) <;> rfl

@[simp] theorem fillPatch_zero (base : Word) (byte : Byte) : fillPatch base 0 byte = noPatch := by
  funext target
  simp [fillPatch, InRange, noPatch]

/-- The byte stores `base[0] = byte, ..., base[count - 1] = byte` in loop order. -/
def fillLoop (base : Word) (byte : Byte) : Nat → Memory → Memory
  | 0, memory => memory
  | count + 1, memory => fun target =>
      if target = base + BitVec.ofNat 32 count then byte else fillLoop base byte count memory target

/-- The fill patch is the result of the loop of byte stores. -/
theorem patched_fillPatch (memory : Memory) (base : Word) (byte : Byte) {size : Nat}
    (small : size ≤ 2 ^ 32) :
    patched memory (fillPatch base size byte) = fillLoop base byte size memory := by
  induction size with
  | zero => rw [fillPatch_zero]; rfl
  | succ count ih =>
      funext target
      have inner := congrFun (ih (by omega)) target
      by_cases here : target = base + BitVec.ofNat 32 count
      · have inside : InRange base (count + 1) target :=
          here ▸ inRange_offset (Nat.lt_succ_self count) small
        simp only [patched, fillPatch, fillLoop, if_pos here, if_pos inside, Option.getD_some]
      · have notLast : (target - base).toNat ≠ count := by
          intro same
          apply here
          rw [← same, base_add_offset]
        have same : InRange base (count + 1) target ↔ InRange base count target := by
          simp only [InRange]
          omega
        simp only [patched, fillPatch, fillLoop, if_neg here, same] at inner ⊢
        exact inner

end SimpleOS.Library.ByteMemory
