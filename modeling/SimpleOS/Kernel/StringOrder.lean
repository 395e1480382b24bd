import Mathlib.Data.List.Lex
import SimpleOS.Kernel.CommandLine

/-!
# Comparing strings

`strcmp` and `strncmp` of `string.c` and `string_compare` of `kernel.c` over
strings in memory.  A string is read cell by cell, its NUL included; there is
nothing to read behind the NUL, so a loop that goes on is a fault.
-/

namespace SimpleOS

open Library.ByteMemory

/-! ## The loops over memory cells -/

/-- `strcmp`; none is a read behind the last cell. -/
def strcmp? : List Byte → List Byte → Option Int
  | char1 :: rest1, char2 :: rest2 =>
      if char1 ≠ 0 ∧ char1 = char2 then strcmp? rest1 rest2
      else some ((char1.toNat : Int) - char2.toNat)
  | _, _ => none

/-- `strncmp`; with `n` used up, no cell is read. -/
def strncmp? : Nat → List Byte → List Byte → Option Int
  | 0, _, _ => some 0
  | n + 1, char1 :: rest1, char2 :: rest2 =>
      if char1 ≠ 0 ∧ char1 = char2 then strncmp? n rest1 rest2
      else some ((char1.toNat : Int) - char2.toNat)
  | _ + 1, _, _ => none

/-- `string_compare`, with its 1 and 0. -/
def stringCompare? : List Byte → List Byte → Option Int
  | char1 :: rest1, char2 :: rest2 =>
      if char1 ≠ 0 ∧ char2 ≠ 0 then
        if char1 ≠ char2 then some 0 else stringCompare? rest1 rest2
      else some (if char1 = char2 then 1 else 0)
  | _, _ => none

/-! ## Strings and their order -/

/-- A string in memory: characters other than NUL, and the NUL behind them. -/
structure TerminatedString where
  chars : CString
  line : 0 ∉ chars

namespace TerminatedString

def cells (text : TerminatedString) : List Byte := text.chars ++ [0]

/-- The characters as unsigned bytes; lists of numbers are ordered lexicographically. -/
def bytes (text : TerminatedString) : List Nat := text.chars.map BitVec.toNat

/-- The string cut to its first characters. -/
def take (n : Nat) (text : TerminatedString) : TerminatedString where
  chars := text.chars.take n
  line := fun inside => text.line (List.mem_of_mem_take inside)

/-- What `strcmp` returns for two strings. -/
def compare (a b : TerminatedString) : Int := strcmp a.chars b.chars

end TerminatedString

/-! ## No loop reads behind a NUL -/

section Reads

variable {str1 str2 : CString} (first : 0 ∉ str1) (second : 0 ∉ str2)

theorem char_ne_zero {char : Byte} {rest : CString} (line : 0 ∉ char :: rest) : char ≠ 0#8 :=
  fun isZero => line (isZero ▸ List.mem_cons_self)

theorem toNat_ne_zero {char : Byte} {rest : CString} (line : 0 ∉ char :: rest) : char.toNat ≠ 0 :=
  fun isZero => char_ne_zero line (BitVec.eq_of_toNat_eq isZero)

theorem rest_line {char : Byte} {rest : CString} (line : 0 ∉ char :: rest) : 0 ∉ rest :=
  fun inside => line (List.mem_cons_of_mem char inside)

theorem strcmp_cons_cons (char1 char2 : Byte) (rest1 rest2 : CString) :
    strcmp (char1 :: rest1) (char2 :: rest2) =
      if char1 ≠ 0 ∧ char1 = char2 then strcmp rest1 rest2
      else (char1.toNat : Int) - char2.toNat := rfl

include first second

theorem strcmp?_cells : strcmp? (str1 ++ [0]) (str2 ++ [0]) = some (strcmp str1 str2) := by
  induction str1 generalizing str2 with
  | nil =>
      cases str2 with
      | nil => rfl
      | cons char2 rest2 => simp [strcmp?, strcmp]
  | cons char1 rest1 ih =>
      cases str2 with
      | nil => simp [strcmp?, strcmp]
      | cons char2 rest2 =>
          have later := ih (rest_line first) (rest_line second)
          by_cases goesOn : char1 ≠ 0 ∧ char1 = char2
          · simp only [List.cons_append, strcmp?, strcmp_cons_cons, if_pos goesOn, later]
          · simp only [List.cons_append, strcmp?, strcmp_cons_cons, if_neg goesOn]

/-- `strncmp` is `strcmp` on the strings cut to `n` characters. -/
theorem strncmp?_cells (n : Nat) :
    strncmp? n (str1 ++ [0]) (str2 ++ [0]) = some (strcmp (str1.take n) (str2.take n)) := by
  induction n generalizing str1 str2 with
  | zero => simp [strncmp?, strcmp]
  | succ n ih =>
      cases str1 with
      | nil =>
          cases str2 with
          | nil => rfl
          | cons char2 rest2 => simp [strncmp?, strcmp]
      | cons char1 rest1 =>
          cases str2 with
          | nil => simp [strncmp?, strcmp]
          | cons char2 rest2 =>
              have later := ih (rest_line first) (rest_line second)
              by_cases goesOn : char1 ≠ 0 ∧ char1 = char2
              · simp only [List.cons_append, List.take_succ_cons, strncmp?, strcmp_cons_cons,
                  if_pos goesOn, later]
              · simp only [List.cons_append, List.take_succ_cons, strncmp?, strcmp_cons_cons,
                  if_neg goesOn]

theorem stringCompare?_cells :
    stringCompare? (str1 ++ [0]) (str2 ++ [0]) =
      some (if stringCompare str1 str2 = true then 1 else 0) := by
  induction str1 generalizing str2 with
  | nil =>
      cases str2 with
      | nil => rfl
      | cons char2 rest2 =>
          have nonzero := char_ne_zero second
          simp [stringCompare?, stringCompare, nonzero, nonzero.symm]
  | cons char1 rest1 ih =>
      have nonzero1 := char_ne_zero first
      cases str2 with
      | nil => simp [stringCompare?, stringCompare]
      | cons char2 rest2 =>
          have nonzero2 := char_ne_zero second
          have later := ih (rest_line first) (rest_line second)
          by_cases same : char1 = char2
          · subst same
            simpa [stringCompare?, stringCompare, nonzero1] using later
          · simp [stringCompare?, stringCompare, nonzero1, nonzero2, same]

/-! ## What `strcmp` decides -/

theorem strcmp_eq_zero_iff : strcmp str1 str2 = 0 ↔ str1 = str2 := by
  induction str1 generalizing str2 with
  | nil =>
      cases str2 with
      | nil => simp [strcmp]
      | cons char2 rest2 =>
          have positive := toNat_ne_zero second
          simp [strcmp]
          omega
  | cons char1 rest1 ih =>
      have nonzero := char_ne_zero first
      cases str2 with
      | nil =>
          have positive := toNat_ne_zero first
          simp [strcmp]
          omega
      | cons char2 rest2 =>
          by_cases same : char1 = char2
          · subst same
            simpa [strcmp, nonzero] using ih (rest_line first) (rest_line second)
          · have apart : char1.toNat ≠ char2.toNat := fun equal =>
              same (BitVec.eq_of_toNat_eq equal)
            simp only [strcmp, List.headD_cons, same, and_false, if_false, List.cons.injEq,
              false_and, iff_false]
            omega

theorem strcmp_neg_iff :
    strcmp str1 str2 < 0 ↔ str1.map BitVec.toNat < str2.map BitVec.toNat := by
  induction str1 generalizing str2 with
  | nil =>
      cases str2 with
      | nil => simp [strcmp]
      | cons char2 rest2 =>
          have positive := toNat_ne_zero second
          simp [strcmp]
          omega
  | cons char1 rest1 ih =>
      have nonzero := char_ne_zero first
      cases str2 with
      | nil => simp [strcmp, nonzero]
      | cons char2 rest2 =>
          rw [List.map_cons, List.map_cons, List.cons_lt_cons_iff]
          by_cases same : char1 = char2
          · subst same
            simpa [strcmp, nonzero] using ih (rest_line first) (rest_line second)
          · have apart : char1.toNat ≠ char2.toNat := fun equal =>
              same (BitVec.eq_of_toNat_eq equal)
            simp only [strcmp, List.headD_cons, same, and_false, if_false, apart, false_and,
              or_false]
            omega

end Reads

/-- Exchanging the strings changes the sign. -/
theorem strcmp_swap (str1 str2 : CString) : strcmp str2 str1 = - strcmp str1 str2 := by
  induction str1 generalizing str2 with
  | nil =>
      cases str2 with
      | nil => rfl
      | cons char2 rest2 => simp [strcmp]
  | cons char1 rest1 ih =>
      cases str2 with
      | nil => simp [strcmp]
      | cons char2 rest2 =>
          by_cases same : char1 = char2
          · subst same
            by_cases isZero : char1 = 0
            · simp [strcmp_cons_cons, isZero]
            · simp only [strcmp_cons_cons, ne_eq, isZero, not_false_eq_true, and_self, if_true]
              exact ih rest2
          · have apart : ¬ char2 = char1 := fun equal => same equal.symm
            simp [strcmp, same, apart]

namespace TerminatedString

theorem ext {a b : TerminatedString} (same : a.chars = b.chars) : a = b := by
  cases a
  cases b
  cases same
  rfl

theorem compare_neg_iff (a b : TerminatedString) : a.compare b < 0 ↔ a.bytes < b.bytes :=
  strcmp_neg_iff a.line b.line

theorem compare_pos_iff (a b : TerminatedString) : 0 < a.compare b ↔ b.bytes < a.bytes := by
  rw [← compare_neg_iff, compare, compare, strcmp_swap a.chars b.chars]
  omega

theorem compare_eq_zero_iff (a b : TerminatedString) : a.compare b = 0 ↔ a = b := by
  rw [compare, strcmp_eq_zero_iff a.line b.line]
  exact ⟨ext, fun same => same ▸ rfl⟩

/-- `strcmp` is not positive exactly for strings in order. -/
theorem compare_nonpos_iff (a b : TerminatedString) : a.compare b ≤ 0 ↔ a.bytes ≤ b.bytes := by
  rw [← not_lt, ← not_lt, compare_pos_iff]

theorem bytes_inj {a b : TerminatedString} (same : a.bytes = b.bytes) : a = b :=
  ext (List.map_injective_iff.mpr (fun _ _ => BitVec.eq_of_toNat_eq) same)

/--
The three comparisons agree: none faults; the sign of `strcmp` is the
lexicographic order of the unsigned bytes, a total order; `strncmp` is `strcmp`
on the strings cut to `n` characters; `string_compare` is 1 exactly where
`strcmp` is 0.
-/
theorem comparisons_agree (a b c : TerminatedString) (n : Nat) :
    (strcmp? a.cells b.cells = some (a.compare b) ∧
      (a.compare b < 0 ↔ a.bytes < b.bytes) ∧ (a.compare b = 0 ↔ a = b) ∧
      (0 < a.compare b ↔ b.bytes < a.bytes)) ∧
    ((a.compare b ≤ 0 ∨ b.compare a ≤ 0) ∧
      (a.compare b ≤ 0 → b.compare a ≤ 0 → a = b) ∧
      (a.compare b ≤ 0 → b.compare c ≤ 0 → a.compare c ≤ 0)) ∧
    strncmp? n a.cells b.cells = some ((a.take n).compare (b.take n)) ∧
    ∃ same, stringCompare? a.cells b.cells = some same ∧ (same = 1 ↔ a.compare b = 0) := by
  refine ⟨⟨?_, compare_neg_iff a b, compare_eq_zero_iff a b, compare_pos_iff a b⟩, ?_, ?_, ?_⟩
  · exact strcmp?_cells a.line b.line
  · simp only [compare_nonpos_iff]
    exact ⟨le_total _ _, fun below above => bytes_inj (le_antisymm below above), le_trans⟩
  · exact strncmp?_cells a.line b.line n
  · refine ⟨_, stringCompare?_cells a.line b.line, ?_⟩
    have agree := stringCompare_iff a.line b.line
    rw [← strcmp_eq_zero_iff a.line b.line] at agree
    split
    · next same => exact ⟨fun _ => agree.mp same, fun _ => rfl⟩
    · next apart =>
      constructor
      · intro impossible
        cases impossible
      · exact fun same => absurd (agree.mpr same) apart

end TerminatedString

/-- A byte above 127 is above every ASCII character, and above the end of the string. -/
example : strcmp? [0x80, 0] [0x61, 0] = some 31 ∧ strcmp? [0x61, 0x80, 0] [0x61, 0] = some 128 := by
  decide

end SimpleOS
