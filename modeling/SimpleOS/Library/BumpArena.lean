import Mathlib.Algebra.BigOperators.Group.List.Basic
import Mathlib.Algebra.Ring.Nat

/-!
# Arenas filled by a bump pointer

An allocator that only moves a pointer upwards hands out blocks that follow one
another without a gap.  A block is a header of fixed width with a payload
behind it; the blocks are listed with the newest first.
-/

namespace SimpleOS.Library.BumpArena

/-- The least multiple of the unit that is not below the size. -/
def roundUp (unit size : Nat) : Nat := (size + (unit - 1)) / unit * unit

theorem roundUp_mod (unit size : Nat) : roundUp unit size % unit = 0 :=
  Nat.mul_mod_left _ unit

theorem le_roundUp {unit : Nat} (positive : 0 < unit) (size : Nat) : size ≤ roundUp unit size := by
  have split := Nat.div_add_mod (size + (unit - 1)) unit
  have small := Nat.mod_lt (size + (unit - 1)) positive
  have commuted := Nat.mul_comm unit ((size + (unit - 1)) / unit)
  rw [roundUp]
  omega

theorem roundUp_lt {unit : Nat} (positive : 0 < unit) (size : Nat) :
    roundUp unit size < size + unit := by
  have rounded := Nat.div_mul_le_self (size + (unit - 1)) unit
  rw [roundUp]
  omega

/-- Where a block starts and how long its payload is. -/
structure Span where
  start : Nat
  size : Nat

/-- The blocks fill the arena from `low` up to `top`. -/
def Stacked (header low : Nat) : List Span → Nat → Prop
  | [], top => top = low
  | span :: older, top =>
      top = span.start + header + span.size ∧ Stacked header low older span.start

namespace Stacked

variable {header low top : Nat} {spans : List Span}

theorem push (stacked : Stacked header low spans top) (size : Nat) :
    Stacked header low (⟨top, size⟩ :: spans) (top + header + size) :=
  ⟨rfl, stacked⟩

theorem low_le (stacked : Stacked header low spans top) : low ≤ top := by
  induction spans generalizing top with
  | nil => exact Nat.le_of_eq (Eq.symm stacked)
  | cons span older ih =>
      obtain ⟨here, below⟩ := stacked
      have bound := ih below
      omega

/-- Every block lies between the two ends. -/
theorem within (stacked : Stacked header low spans top) {span : Span} (member : span ∈ spans) :
    low ≤ span.start ∧ span.start + header + span.size ≤ top := by
  induction spans generalizing top with
  | nil => cases member
  | cons newest older ih =>
      obtain ⟨here, below⟩ := stacked
      rcases List.mem_cons.mp member with rfl | later
      · exact ⟨below.low_le, Nat.le_of_eq here.symm⟩
      · obtain ⟨above, ends⟩ := ih below later
        exact ⟨above, by omega⟩

/-- An older block ends before a newer one starts. -/
theorem pairwise (stacked : Stacked header low spans top) :
    spans.Pairwise fun newer older => older.start + header + older.size ≤ newer.start := by
  induction spans generalizing top with
  | nil => exact List.Pairwise.nil
  | cons newest older ih =>
      obtain ⟨_, below⟩ := stacked
      exact List.Pairwise.cons (fun span member => (below.within member).2) (ih below)

/-- Nothing is lost between the blocks. -/
theorem total (stacked : Stacked header low spans top) :
    top = low + (spans.map fun span => span.size + header).sum := by
  induction spans generalizing top with
  | nil => exact stacked
  | cons newest older ih =>
      obtain ⟨here, below⟩ := stacked
      have rest := ih below
      rw [List.map_cons, List.sum_cons]
      omega

end Stacked

/-! ## First come, first served -/

end SimpleOS.Library.BumpArena
