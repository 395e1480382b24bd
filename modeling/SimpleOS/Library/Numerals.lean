import Mathlib.Data.List.Induction
import SimpleOS.Library.Words

/-!
# Numerals of a fixed width

The last digits of a number in some base, the most significant first.  Writing
them and reading their value undo each other up to the width.
-/

namespace SimpleOS.Library.Numerals

open Library.Words

/-- The last `width` digits of a number. -/
def digits (base : Nat) : Nat → Nat → List Nat
  | 0, _ => []
  | width + 1, number => digits base width (number / base) ++ [number % base]

@[simp] theorem digits_length (base width number : Nat) :
    (digits base width number).length = width := by
  induction width generalizing number with
  | zero => rfl
  | succ width ih => rw [digits, List.length_append, ih, List.length_singleton]

theorem digits_lt {base : Nat} (positive : 0 < base) {width number digit : Nat}
    (member : digit ∈ digits base width number) : digit < base := by
  induction width generalizing number with
  | zero => cases member
  | succ width ih =>
      rcases List.mem_append.mp member with earlier | last
      · exact ih earlier
      · rw [List.mem_singleton.mp last]
        exact Nat.mod_lt number positive

/-- The digits have the value of the number up to their width. -/
theorem value_digits (base width number : Nat) :
    value base (digits base width number) = number % base ^ width := by
  induction width generalizing number with
  | zero => rw [digits, value_nil, Nat.pow_zero, Nat.mod_one]
  | succ width ih =>
      rw [digits, value_concat, ih, Nat.pow_succ, Nat.mul_comm (base ^ width) base,
        Nat.mod_mul, Nat.mul_comm base, Nat.add_comm]

theorem value_digits_of_lt {base width number : Nat} (bound : number < base ^ width) :
    value base (digits base width number) = number := by
  rw [value_digits, Nat.mod_eq_of_lt bound]

/-- A numeral is below the power of its base that its length gives. -/
theorem value_lt {base : Nat} (wide : 1 < base) {numeral : List Nat}
    (small : ∀ digit ∈ numeral, digit < base) : value base numeral < base ^ numeral.length := by
  have bound := Nat.ofDigits_lt_base_pow_length (l := numeral.reverse) wide fun digit member =>
    small digit (List.mem_reverse.mp member)
  rwa [List.length_reverse] at bound

/-- Every numeral is the numeral of its value. -/
theorem digits_value {base : Nat} {numeral : List Nat} (small : ∀ digit ∈ numeral, digit < base) :
    digits base numeral.length (value base numeral) = numeral := by
  induction numeral using List.reverseRecOn with
  | nil => rfl
  | append_singleton front last ih =>
      have earlier := ih fun digit member => small digit (List.mem_append_left _ member)
      have final := small last (List.mem_append_right _ (List.mem_singleton.mpr rfl))
      have positive : 0 < base := Nat.zero_lt_of_lt final
      rw [value_concat, List.length_append, List.length_singleton, digits,
        Nat.mul_comm, Nat.mul_add_div positive, Nat.div_eq_of_lt final, Nat.add_zero, earlier,
        Nat.mul_add_mod, Nat.mod_eq_of_lt final]

/-- Written from the front: every digit is found by a division by its own power of the base. -/
theorem digits_eq_map (base width number : Nat) :
    digits base width number =
      (List.range width).map fun index => number / base ^ (width - 1 - index) % base := by
  induction width generalizing number with
  | zero => rfl
  | succ width ih =>
      rw [digits, ih, List.range_succ, List.map_append, List.map_singleton, Nat.add_sub_cancel,
        Nat.sub_self, Nat.pow_zero, Nat.div_one]
      refine congrArg (· ++ [number % base]) (List.map_congr_left fun index member => ?_)
      have below := List.mem_range.mp member
      rw [Nat.div_div_eq_div_mul, ← Nat.pow_succ']
      congr 3
      omega

end SimpleOS.Library.Numerals
