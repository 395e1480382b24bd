import SimpleOS.Library.Numerals
import SimpleOS.Kernel.CommandLine

/-!
# How numbers are printed

The number printers of `process.c` and `kernel.c`, digit by digit: two or
three decimal digits for PIDs, lengths and sizes, and the hexadecimal loop of
`process_print_info` beside `vga_print_hex`.
-/

namespace SimpleOS

open Library.ByteMemory Library.Words Library.Numerals

/-! ## The printers -/

/-- `'0' + n`, converted to `char`. -/
def digitChar (n : Word) : Byte := (48 + n).setWidth 8

/-- One digit below 10 and otherwise two: PIDs, sizes in KB, and the length of a line. -/
def twoDigits (n : Word) : CString :=
  if n < 10 then [digitChar n] else [digitChar (n / 10), digitChar (n % 10)]

/-- One digit below 10 and otherwise three: the sizes of the `memory` command. -/
def threeDigits (n : Word) : CString :=
  if n < 10 then [digitChar n]
  else [digitChar (n / 100), digitChar (n / 10 % 10), digitChar (n % 10)]

/-- The body of the loop of `process_print_info` that prints an address. -/
def hexLoopChar (addr : Word) (i : Nat) : Byte :=
  let digit := (addr >>> i) &&& 0xF
  if digit < 10 then digitChar digit else (65 + digit - 10).setWidth 8

/-- `for (int i = 28; i >= 0; i -= 4)`. -/
def hexLoop (addr : Word) : CString := [28, 24, 20, 16, 12, 8, 4, 0].map (hexLoopChar addr)

/-! ## Decimal digits -/

section Decimal

variable {n : Word}

/-- A digit is printed as the character with its value. -/
theorem digitChar_digit (small : n.toNat < 10) :
    isDigit (digitChar n) = true ∧ digitValue (digitChar n) = n.toNat := by
  have code : (digitChar n).toNat = 48 + n.toNat := by
    rw [digitChar, BitVec.toNat_setWidth, BitVec.toNat_add]
    simp only [BitVec.reduceToNat]
    omega
  rw [isDigit_iff, digitValue, code]
  omega

theorem digits_denote {text : List Word} (nonempty : text ≠ [])
    (small : ∀ digit ∈ text, digit.toNat < 10) :
    Denotes (text.map digitChar) (value 10 (text.map BitVec.toNat)) := by
  refine ⟨fun none => nonempty (List.map_eq_nil_iff.mp none), fun char member => ?_, ?_⟩
  · obtain ⟨digit, inside, rfl⟩ := List.mem_map.mp member
    exact (digitChar_digit (small digit inside)).1
  · rw [decimal, List.map_map]
    congr 1
    exact List.map_congr_left fun digit inside => (digitChar_digit (small digit inside)).2

/-- A text of decimal digits denotes a number with no more digits than the text. -/
theorem Denotes.lt {text : CString} {number : Nat} (denotes : Denotes text number) :
    number < 10 ^ text.length := by
  obtain ⟨_, digits, value⟩ := denotes
  have small : ∀ digit ∈ text.map digitValue, digit < 10 := by
    intro digit member
    obtain ⟨char, inside, rfl⟩ := List.mem_map.mp member
    have range := (isDigit_iff char).mp (digits char inside)
    simp only [digitValue]
    omega
  have bound := value_lt (by decide) small
  rw [List.length_map] at bound
  exact value ▸ bound

theorem twoDigits_length : (twoDigits n).length ≤ 2 := by
  rw [twoDigits]
  split
  · exact Nat.le_succ 1
  · exact Nat.le_refl 2

theorem toNat_lt_ten : n < 10 ↔ n.toNat < 10 := BitVec.lt_def

/-- The two-digit printer prints a number exactly when it is below 100. -/
theorem twoDigits_denotes_iff : Denotes (twoDigits n) n.toNat ↔ n.toNat < 100 := by
  constructor
  · intro denotes
    calc n.toNat < 10 ^ (twoDigits n).length := denotes.lt
      _ ≤ 10 ^ 2 := Nat.pow_le_pow_right (by decide) twoDigits_length
  · intro small
    rw [twoDigits]
    split
    · next one =>
        have denotes := digits_denote (List.cons_ne_nil n []) fun digit member =>
          List.mem_singleton.mp member ▸ toNat_lt_ten.mp one
        simpa [value] using denotes
    · have tens : (n / 10).toNat = n.toNat / 10 := rfl
      have units : (n % 10).toNat = n.toNat % 10 := rfl
      have denotes := digits_denote (List.cons_ne_nil (n / 10) [n % 10]) fun digit member => by
        rcases List.mem_pair.mp member with rfl | rfl
        · omega
        · omega
      have total : value 10 [(n / 10).toNat, (n % 10).toNat] = n.toNat := by
        rw [value]
        simp only [List.reverse_cons, List.reverse_nil, List.nil_append, List.cons_append,
          Nat.ofDigits_cons, Nat.ofDigits_nil]
        omega
      rw [← total]
      exact denotes

end Decimal

/-! ## Hexadecimal digits -/

section Hexadecimal

/-- The character of a hexadecimal digit. -/
def hexChar (digit : Nat) : Byte := Vga.hexChars.getD digit 0

/-- The digit an upper-case hexadecimal character stands for. -/
def hexValue? (char : Byte) : Option Nat :=
  if 48 ≤ char.toNat ∧ char.toNat ≤ 57 then some (char.toNat - 48)
  else if 65 ≤ char.toNat ∧ char.toNat ≤ 70 then some (char.toNat - 55)
  else none

/-- The number a text of hexadecimal characters denotes. -/
def readHex (text : CString) : Option Nat := (text.mapM hexValue?).map (value 16)

theorem hexValue_hexChar {digit : Nat} (small : digit < 16) :
    hexValue? (hexChar digit) = some digit := by
  revert digit
  decide

theorem hexChar_hexValue {char : Byte} {digit : Nat} (reads : hexValue? char = some digit) :
    hexChar digit = char ∧ digit < 16 := by
  have table : ∀ char : Byte,
      (hexValue? char).all (fun digit => decide (hexChar digit = char ∧ digit < 16)) = true := by
    decide +kernel
  have row := table char
  rw [reads] at row
  exact of_decide_eq_true row

/-- The digits of a word are its bits, four at a time. -/
theorem nibble_toNat (word : Word) (index : Nat) :
    ((word >>> (4 * index)) &&& 0xF).toNat = word.toNat / 16 ^ index % 16 := by
  rw [BitVec.toNat_and, BitVec.toNat_ushiftRight, Nat.shiftRight_eq_div_pow, Nat.pow_mul]
  exact Nat.and_two_pow_sub_one_eq_mod _ 4

/-- `vga_print_hex` prints the eight digits of a word. -/
theorem hexString_eq (word : Word) :
    Vga.hexString word = CString.ofString "0x" ++ (digits 16 8 word.toNat).map hexChar := by
  rw [digits_eq_map, List.map_map, Vga.hexString]
  refine congrArg (CString.ofString "0x" ++ ·) ?_
  change [7, 6, 5, 4, 3, 2, 1, 0].map _ = [7, 6, 5, 4, 3, 2, 1, 0].map fun index =>
    hexChar (word.toNat / 16 ^ index % 16)
  refine List.map_congr_left fun index _ => ?_
  rw [hexChar, ← nibble_toNat, Nat.mul_comm]

/-- Both ways to write a digit agree. -/
theorem hexLoopChar_eq (word : Word) (index : Nat) :
    hexLoopChar word (4 * index) = hexChar (word.toNat / 16 ^ index % 16) := by
  have written : ∀ digit < 16, (if BitVec.ofNat 32 digit < 10 then digitChar (BitVec.ofNat 32 digit)
      else (65 + BitVec.ofNat 32 digit - 10).setWidth 8) = hexChar digit := by
    decide +kernel
  have small : word.toNat / 16 ^ index % 16 < 16 := Nat.mod_lt _ (by decide)
  have digit : (word >>> (4 * index)) &&& 0xF =
      BitVec.ofNat 32 (word.toNat / 16 ^ index % 16) := by
    rw [← nibble_toNat, BitVec.ofNat_toNat, BitVec.setWidth_eq]
  rw [hexLoopChar, digit]
  exact written _ small

/-- The loop of `process_print_info` prints them as well. -/
theorem hexLoop_eq (word : Word) : hexLoop word = (digits 16 8 word.toNat).map hexChar := by
  rw [digits_eq_map, List.map_map]
  change [7, 6, 5, 4, 3, 2, 1, 0].map (fun index => hexLoopChar word (4 * index)) =
    [7, 6, 5, 4, 3, 2, 1, 0].map fun index => hexChar (word.toNat / 16 ^ index % 16)
  exact List.map_congr_left fun index _ => hexLoopChar_eq word index

theorem readHex_map {numeral : List Nat} (small : ∀ digit ∈ numeral, digit < 16) :
    (numeral.map hexChar).mapM hexValue? = some numeral := by
  induction numeral with
  | nil => rfl
  | cons digit rest ih =>
      have first := hexValue_hexChar (small digit List.mem_cons_self)
      have later := ih fun other member => small other (List.mem_cons_of_mem digit member)
      rw [List.map_cons, List.mapM_cons, first, later]
      rfl

/-- A text that can be read as hexadecimal digits is made of those digits. -/
theorem map_of_readHex {text : CString} {numeral : List Nat}
    (reads : text.mapM hexValue? = some numeral) :
    numeral.map hexChar = text ∧ ∀ digit ∈ numeral, digit < 16 := by
  induction text generalizing numeral with
  | nil =>
      cases reads
      exact ⟨rfl, fun _ member => nomatch member⟩
  | cons char rest ih =>
      rw [List.mapM_cons] at reads
      obtain ⟨digit, first, reads⟩ := Option.bind_eq_some_iff.mp reads
      obtain ⟨later, others, same⟩ := Option.bind_eq_some_iff.mp reads
      cases same
      obtain ⟨written, small⟩ := hexChar_hexValue first
      obtain ⟨rest, smaller⟩ := ih others
      refine ⟨congrArg₂ List.cons written rest, fun other member => ?_⟩
      rcases List.mem_cons.mp member with rfl | inside
      · exact small
      · exact smaller other inside

/-- Both routines that print a word in hexadecimal print the same eight digits; they read back as
the word, and every text of eight hexadecimal digits is printed for exactly one word. -/
theorem hex_printing_exact :
    (∀ word : Word, Vga.hexString word = CString.ofString "0x" ++ hexLoop word ∧
      (hexLoop word).length = 8 ∧ readHex (hexLoop word) = some word.toNat) ∧
    ∀ text : CString, text.length = 8 → (readHex text).isSome = true →
      ∃! word : Word, hexLoop word = text := by
  have reads (word : Word) : readHex (hexLoop word) = some word.toNat := by
    have small : ∀ digit ∈ digits 16 8 word.toNat, digit < 16 := fun digit member =>
      digits_lt (by decide) member
    rw [readHex, hexLoop_eq, readHex_map small]
    exact congrArg some (value_digits_of_lt word.isLt)
  refine ⟨fun word => ⟨?_, ?_, reads word⟩, fun text eight readable => ?_⟩
  · rw [hexString_eq, hexLoop_eq]
  · rw [hexLoop_eq, List.length_map, digits_length]
  · obtain ⟨number, read⟩ := Option.isSome_iff_exists.mp readable
    obtain ⟨numeral, parsed, rfl⟩ := Option.map_eq_some_iff.mp read
    obtain ⟨rfl, small⟩ := map_of_readHex parsed
    rw [List.length_map] at eight
    have bound : value 16 numeral < 2 ^ 32 := by
      have fits := value_lt (by decide) small
      rw [eight] at fits
      exact fits
    refine ⟨BitVec.ofNat 32 (value 16 numeral), ?_, fun other printed => ?_⟩
    · change hexLoop _ = _
      rw [hexLoop_eq, BitVec.toNat_ofNat, Nat.mod_eq_of_lt bound, ← eight, digits_value small]
    · have known := reads other
      rw [printed, read] at known
      rw [Option.some.inj known, BitVec.ofNat_toNat, BitVec.setWidth_eq]

end Hexadecimal

end SimpleOS
