import SimpleOS.Kernel.Heap

/-!
# Which requests the limit check of `kmalloc` stops

`kmalloc` compares the wrapped end of the block with `heap_end`.  A request
whose end wraps passes the check and is granted a block that is not there.
-/

namespace SimpleOS.Heap

open Library.ByteMemory Library.BumpArena Library.GuardedRun

/-- The bump pointer stays in the heap and accounts for every granted block. -/
structure Bounded (h : Heap) : Prop where
  above : heapStart.toNat ≤ h.heapCurrent.toNat
  below : h.heapCurrent.toNat ≤ heapEnd.toNat
  total : h.heapCurrent.toNat - heapStart.toNat =
    (h.granted.map fun grant => grant.rounded + 4).sum

/--
The request is refused and changes nothing, or it gets an aligned pointer with
the header and the whole requested block inside the heap.
-/
def Served (h : Heap) (size : Word) : Prop :=
  (h.kmalloc size = (null, h)) ∨
    ((h.kmalloc size).1 ≠ null ∧
      (h.kmalloc size).1.toNat % 4 = 0 ∧
      heapStart.toNat + 4 ≤ (h.kmalloc size).1.toNat ∧
      (h.kmalloc size).1.toNat + size.toNat ≤ heapEnd.toNat)

/-- The state after a request. -/
def request (h : Heap) (size : Word) : Heap := (h.kmalloc size).2

theorem Packed.bounded {h : Heap} (packed : h.Packed) : h.Bounded where
  above := packed.above
  below := packed.below
  total := by
    rw [packed.stacked.total, List.map_map, Nat.add_sub_cancel_left]
    rfl

theorem pointer_ne_null {h : Heap} (packed : h.Packed) : h.heapCurrent + 4 ≠ null := by
  intro isNull
  have place := packed.pointer_toNat
  rw [isNull, show null.toNat = 0 by decide] at place
  omega

theorem served_of_fits {h : Heap} (packed : h.Packed) {size : Word} (fits : h.Fits size) :
    h.Served size := by
  have place := packed.pointer_toNat
  have aligned := packed.aligned
  have above := packed.above
  have covers := le_roundUp (show 0 < 4 by decide) size.toNat
  rw [Served, packed.kmalloc_fits fits]
  by_cases room : h.heapCurrent.toNat + blockSize size ≤ heapEnd.toNat
  · rw [if_pos room]
    refine Or.inr ⟨pointer_ne_null packed, ?_⟩
    simp only [blockSize] at room
    simp only [place]
    omega
  · rw [if_neg room]
    exact Or.inl rfl

/-- A request that does not fit is granted. -/
theorem granted_of_not_fits {h : Heap} (packed : h.Packed) {size : Word} (wraps : ¬ h.Fits size) :
    h.kmalloc size = (h.heapCurrent + 4, h.grant size) := by
  have below := packed.below
  have largest := roundUp_size_le size
  have multiple := roundUp_mod 4 size.toNat
  have top := heapEnd_toNat
  rw [kmalloc_eq, if_neg]
  simp only [Fits, blockSize] at wraps ⊢
  omega

/-- It is longer than the heap. -/
theorem large_of_not_fits {h : Heap} (packed : h.Packed) {size : Word} (wraps : ¬ h.Fits size) :
    heapEnd.toNat < size.toNat := by
  have below := packed.below
  have rounded := roundUp_lt (show 0 < 4 by decide) size.toNat
  have top := heapEnd_toNat
  simp only [Fits, blockSize, not_or] at wraps
  omega

theorem fits_of_served {h : Heap} (packed : h.Packed) {size : Word} (served : h.Served size) :
    h.Fits size := by
  by_contra wraps
  have large := large_of_not_fits packed wraps
  rw [Served, granted_of_not_fits packed wraps] at served
  rcases served with refused | ⟨_, _, _, inside⟩
  · exact pointer_ne_null packed (congrArg Prod.fst refused)
  · dsimp only at inside
    omega

/--
A sequence of requests keeps the heap within its bounds and serves each request
inside them exactly when no request's block end wraps past the limit check.
-/
theorem heap_safe_iff_fits (memory : Memory) (sizes : List Word) :
    (Always request Bounded (init memory) sizes ∧ Along request Served (init memory) sizes) ↔
      Along request Fits (init memory) sizes := by
  have keeps : ∀ (h : Heap) (size : Word), h.Packed → h.Fits size → (h.request size).Packed :=
    fun _ _ packed fits => packed.kmalloc fits
  have anySize : ∀ size ∈ sizes, (fun _ : Word => True) size := fun _ _ => trivial
  have served_iff : Along request Served (init memory) sizes ↔
      Along request Fits (init memory) sizes :=
    along_iff_along (fun h size _ => keeps h size)
      (fun _ _ _ packed => ⟨fits_of_served packed, served_of_fits packed⟩)
      (init_packed memory) anySize
  constructor
  · exact fun safe => served_iff.mp safe.2
  · intro fits
    exact ⟨always_of_along keeps (fun _ packed => packed.bounded) (init_packed memory) fits,
      served_iff.mpr fits⟩

/-- `kmalloc(0xFFFFFFFF)` on the fresh heap returns a pointer to an empty block. -/
theorem heap_unsafe_largest :
    ¬ ∀ (memory : Memory) (sizes : List Word),
      Always request Bounded (init memory) sizes ∧ Along request Served (init memory) sizes := by
  intro safe
  have served : (init fun _ => 0).Served 0xFFFFFFFF := (safe (fun _ => 0) [0xFFFFFFFF]).2.1
  have fits := fits_of_served (init_packed _) served
  exact absurd fits (by decide)

end SimpleOS.Heap
