import SimpleOS.Library.Words
import SimpleOS.Drivers.Keyboard

/-!
# Command lines

The string functions of `kernel.c`, its two ways to read a number, and
`parse_arguments` with every place it writes.
-/

namespace SimpleOS

open Library.ByteMemory Library.Words

/-! ## Strings -/

/-- `string_compare`, structurally on the first string. -/
def stringCompare : CString → CString → Bool
  | [], str2 => str2.headD 0 == 0
  | char :: rest, str2 =>
      if char ≠ 0 ∧ str2.headD 0 ≠ 0 then
        if char ≠ str2.headD 0 then false else stringCompare rest str2.tail
      else char == str2.headD 0

/-- `string_starts_with(str, start)`, structurally on the start. -/
def stringStartsWith : CString → CString → Bool
  | _, [] => true
  | str, char :: rest =>
      if char ≠ 0 then
        if str.headD 0 ≠ char then false else stringStartsWith str.tail rest
      else true

/-- `char >= '0' && char <= '9'`; as a signed `char`, a byte from 0x80 on fails the first test. -/
def isDigit (char : Byte) : Bool := charByte '0' ≤ char ∧ char ≤ charByte '9'

/-- `result * 10 + (char - '0')`. -/
def addDigit (result : Word) (char : Byte) : Word :=
  result * 10 + (char - charByte '0').setWidth 32

/-- The loop of `string_to_uint32`: `i` and `result` at its end, or none for a bad character. -/
def stringToUint32Loop : CString → Nat → Word → Option (Nat × Word)
  | [], i, result => some (i, result)
  | char :: rest, i, result =>
      if char ≠ 0 then
        if isDigit char then stringToUint32Loop rest (i + 1) (addDigit result char) else none
      else some (i, result)

/-- `string_to_uint32(str, out)`: the result, and `*out` afterwards; `none` is a NULL pointer. -/
def stringToUint32 (str : Option CString) (out : Option Word) : Bool × Option Word :=
  match str, out with
  | some str, some old =>
      match stringToUint32Loop str 0 0 with
      | none => (false, some old)
      | some (i, result) => (decide (i > 0), some result)
  | _, _ => (false, out)

/-! ## Arguments -/

def space : Byte := charByte ' '

/-- The arrays of 64 characters that the callers of `parse_arguments` pass. -/
inductive ArgumentBuffer where
  | cmd
  | arg1
  | arg2
  deriving DecidableEq

def argumentBufferSize : Nat := 64

/-- The contents of the three arrays, and the places written so far. -/
structure Arguments where
  buffer : ArgumentBuffer → Nat → Byte
  writes : List (ArgumentBuffer × Nat)

namespace Arguments

/-- `target[index] = char`; whether the index is inside the array is not checked. -/
def store (a : Arguments) (target : ArgumentBuffer) (index : Nat) (char : Byte) : Arguments where
  buffer := Function.update a.buffer target (Function.update (a.buffer target) index char)
  writes := a.writes ++ [(target, index)]

/-- The string in an array, whose NUL is among the places written. -/
def string (a : Arguments) (target : ArgumentBuffer) : CString :=
  ((List.range a.writes.length).map (a.buffer target)).takeWhile (· ≠ 0)

/--
The copy loop `while (command[i] && command[i] != ' ') target[j++] = command[i++]`
and the NUL behind it, with what is left of the command.
-/
def copyToken (target : ArgumentBuffer) : CString → Nat → Arguments → Arguments × CString
  | [], j, a => (a.store target j 0, [])
  | char :: rest, j, a =>
      if char ≠ 0 ∧ char ≠ space then copyToken target rest (j + 1) (a.store target j char)
      else (a.store target j 0, char :: rest)

end Arguments

def isSpace (char : Byte) : Bool := char == space

/-- `command[i] && command[i] != ' '`. -/
def isTokenChar (char : Byte) : Bool := char ≠ 0 ∧ char ≠ space

/-- `while (command[i] == ' ') i++`. -/
def skipSpaces (command : CString) : CString := command.dropWhile isSpace

/-- `parse_arguments`: the number of arguments, and the arrays, whose contents before are given. -/
def parseArguments (before : ArgumentBuffer → Nat → Byte) (command : CString) : Nat × Arguments :=
  let a : Arguments := { buffer := before, writes := [] }
  let a := ((a.store .cmd 0 0).store .arg1 0 0).store .arg2 0 0
  let (a, rest) := a.copyToken .cmd (skipSpaces command) 0
  if a.buffer .cmd 0 = 0 then (0, a)
  else
    let rest := skipSpaces rest
    if rest.headD 0 ≠ 0 then
      let (a, rest) := a.copyToken .arg1 rest 0
      let argCount := if a.buffer .arg1 0 ≠ 0 then 2 else 1
      let rest := skipSpaces rest
      if rest.headD 0 ≠ 0 then
        let (a, _) := a.copyToken .arg2 rest 0
        (if a.buffer .arg2 0 ≠ 0 then 3 else argCount, a)
      else (argCount, a)
    else (1, a)

/-- The loop that reads digits into `pid`: its value, and the text from `pidstr` on. -/
def readPid : CString → Word → Word × CString
  | [], pid => (pid, [])
  | char :: rest, pid =>
      if isDigit char then readPid rest (addDigit pid char) else (pid, char :: rest)

/-! ## What the string functions compute -/

theorem stringCompare_iff {str1 str2 : CString} (first : 0 ∉ str1) (second : 0 ∉ str2) :
    stringCompare str1 str2 = true ↔ str1 = str2 := by
  have nonzero {char : Byte} {rest : CString} (line : 0 ∉ char :: rest) : ¬ char = 0#8 :=
    fun isZero => line (isZero ▸ List.mem_cons_self)
  induction str1 generalizing str2 with
  | nil =>
      cases str2 with
      | nil => simp [stringCompare]
      | cons char rest => simp [stringCompare, nonzero second]
  | cons char rest ih =>
      cases str2 with
      | nil => simp [stringCompare, nonzero first]
      | cons other later =>
          have rests : stringCompare rest later = true ↔ rest = later :=
            ih (fun inside => first (List.mem_cons_of_mem char inside))
              (fun inside => second (List.mem_cons_of_mem other inside))
          by_cases same : char = other
          · subst same
            simpa [stringCompare, nonzero first] using rests
          · simp [stringCompare, nonzero second, same]

/-! ## What the copy loop does -/

namespace Arguments

/-- A token and its NUL, written from an index on. -/
def storeFrom (a : Arguments) (target : ArgumentBuffer) (index : Nat) (token : CString) :
    Arguments where
  buffer := Function.update a.buffer target fun place =>
    if index ≤ place ∧ place ≤ index + token.length then token.getD (place - index) 0
    else a.buffer target place
  writes := a.writes ++ (List.range' index (token.length + 1)).map (Prod.mk target)

theorem storeFrom_buffer (a : Arguments) (target : ArgumentBuffer) (index : Nat) (token : CString)
    (place : Nat) :
    (a.storeFrom target index token).buffer target place =
      if index ≤ place ∧ place ≤ index + token.length then token.getD (place - index) 0
      else a.buffer target place := by
  simp [storeFrom]

theorem storeFrom_buffer_other (a : Arguments) {target other : ArgumentBuffer}
    (different : target ≠ other) (index : Nat) (token : CString) :
    (a.storeFrom other index token).buffer target = a.buffer target := by
  simp [storeFrom, different]

/-- Writing the first character and then the others writes the token. -/
theorem store_storeFrom (a : Arguments) (target : ArgumentBuffer) (index : Nat) (char : Byte)
    (token : CString) :
    (a.store target index char).storeFrom target (index + 1) token =
      a.storeFrom target index (char :: token) := by
  have contents : (fun place =>
      if index + 1 ≤ place ∧ place ≤ index + 1 + token.length then
        token.getD (place - (index + 1)) 0
      else Function.update (a.buffer target) index char place) = fun place =>
      if index ≤ place ∧ place ≤ index + (token.length + 1) then
        (char :: token).getD (place - index) 0
      else a.buffer target place := by
    funext place
    rcases Nat.lt_trichotomy place index with below | same | above
    · rw [if_neg (by omega), if_neg (by omega), Function.update_of_ne (Nat.ne_of_lt below)]
    · subst same
      rw [if_neg (by omega), if_pos (by omega), Function.update_self, Nat.sub_self]
      rfl
    · rw [Function.update_of_ne (Nat.ne_of_gt above),
        show place - index = place - (index + 1) + 1 by omega, List.getD_cons_succ]
      by_cases inside : place ≤ index + 1 + token.length
      · rw [if_pos (by omega), if_pos (by omega)]
      · rw [if_neg (by omega), if_neg (by omega)]
  simp only [store, storeFrom, Function.update_self, Function.update_idem, List.append_assoc,
    List.length_cons, contents]
  rfl

/-- The loop writes the token it has before it and its NUL, and stops behind the token. -/
theorem copyToken_eq (target : ArgumentBuffer) (rest : CString) (j : Nat) (a : Arguments) :
    copyToken target rest j a =
      (a.storeFrom target j (rest.takeWhile isTokenChar), rest.dropWhile isTokenChar) := by
  have stops (a : Arguments) (j : Nat) : a.store target j 0 = a.storeFrom target j [] := by
    have contents : Function.update (a.buffer target) j 0 = fun place =>
        if j ≤ place ∧ place ≤ j + 0 then ([] : CString).getD (place - j) 0
        else a.buffer target place := by
      funext place
      by_cases same : place = j
      · subst same
        simp
      · rw [Function.update_of_ne same, if_neg (by omega)]
    rw [store, contents]
    rfl
  induction rest generalizing j a with
  | nil => rw [copyToken, stops]; rfl
  | cons char rest ih =>
      rw [copyToken]
      split
      · next inside =>
        have inside : isTokenChar char = true := decide_eq_true inside
        rw [ih, store_storeFrom, List.takeWhile_cons_of_pos inside,
          List.dropWhile_cons_of_pos inside]
      · next outside =>
        have outside : ¬ isTokenChar char = true := fun inside => outside (of_decide_eq_true inside)
        rw [stops, List.takeWhile_cons_of_neg outside, List.dropWhile_cons_of_neg outside]

/-- An array holds a string and its NUL, all of it written. -/
structure Holds (a : Arguments) (target : ArgumentBuffer) (text : CString) : Prop where
  chars : ∀ place ≤ text.length, a.buffer target place = text.getD place 0
  written : text.length < a.writes.length

theorem Holds.string_eq {a : Arguments} {target : ArgumentBuffer} {text : CString}
    (holds : a.Holds target text) (line : 0 ∉ text) : a.string target = text := by
  have room := holds.written
  have split : a.writes.length = text.length + (a.writes.length - text.length - 1 + 1) := by omega
  have front : (List.range text.length).map (a.buffer target) = text := by
    refine List.ext_getElem (by simp) fun place low high => ?_
    rw [List.getElem_map, List.getElem_range, holds.chars place (Nat.le_of_lt high)]
    simp [List.getD, high]
  have stop : a.buffer target text.length = 0 := by
    rw [holds.chars _ (Nat.le_refl _)]
    simp [List.getD]
  rw [string, split, List.range_add, List.map_append, front, List.range_succ_eq_map]
  rw [List.takeWhile_append_of_pos fun char inside => ?_]
  · simp [stop]
  · exact decide_eq_true fun isZero => line (isZero ▸ inside)

theorem storeFrom_holds (a : Arguments) (target : ArgumentBuffer) (text : CString) :
    (a.storeFrom target 0 text).Holds target text := by
  constructor
  · intro place bound
    rw [storeFrom_buffer, if_pos (by omega), Nat.sub_zero]
  · change text.length < (a.writes ++ _).length
    simp
    omega

theorem Holds.storeFrom {a : Arguments} {target other : ArgumentBuffer} {text : CString}
    (holds : a.Holds target text) (different : target ≠ other) (token : CString) :
    (a.storeFrom other 0 token).Holds target text := by
  constructor
  · intro place bound
    rw [storeFrom_buffer_other a different]
    exact holds.chars place bound
  · have room := holds.written
    change text.length < (a.writes ++ _).length
    rw [List.length_append]
    omega

/-- The arrays after `parse_arguments` has cleared them. -/
def cleared (before : ArgumentBuffer → Nat → Byte) : Arguments :=
  ((store { buffer := before, writes := [] } .cmd 0 0).store .arg1 0 0).store .arg2 0 0

theorem cleared_holds (before : ArgumentBuffer → Nat → Byte) (target : ArgumentBuffer) :
    (cleared before).Holds target [] := by
  constructor
  · intro place bound
    obtain rfl := Nat.le_zero.mp bound
    cases target <;> rfl
  · cases target <;> exact Nat.zero_lt_succ _

end Arguments

/-! ## `parse_arguments` splits into words -/

section Split

variable {text : CString} (line : 0 ∉ text)

include line

theorem firstRun_line : 0 ∉ firstRun isSpace text := fun inside =>
  line ((List.dropWhile_sublist isSpace).mem ((List.takeWhile_sublist _).mem inside))

theorem afterRun_line : 0 ∉ afterRun isSpace text := fun inside =>
  line ((List.dropWhile_sublist isSpace).mem ((List.dropWhile_sublist _).mem inside))

omit line in
/-- A token of a line without NUL ends with the line or at a space. -/
theorem token_eq {rest : CString} (line : 0 ∉ rest) :
    rest.takeWhile isTokenChar = rest.takeWhile (fun char => !isSpace char) ∧
      rest.dropWhile isTokenChar = rest.dropWhile fun char => !isSpace char := by
  induction rest with
  | nil => exact ⟨rfl, rfl⟩
  | cons char rest ih =>
      have nonzero : ¬ char = 0#8 := fun isZero => line (isZero ▸ List.mem_cons_self)
      have same : isTokenChar char = !isSpace char := by
        rw [Bool.eq_iff_iff]
        simp [isTokenChar, isSpace, nonzero]
      obtain ⟨taken, dropped⟩ := ih fun inside => line (List.mem_cons_of_mem char inside)
      rw [List.takeWhile_cons, List.takeWhile_cons, List.dropWhile_cons, List.dropWhile_cons,
        same, taken, dropped]
      exact ⟨rfl, rfl⟩

/-- Copying behind the spaces copies the first run. -/
theorem copyToken_skipSpaces (target : ArgumentBuffer) (a : Arguments) :
    a.copyToken target (skipSpaces text) 0 =
      (a.storeFrom target 0 (firstRun isSpace text), afterRun isSpace text) := by
  have inLine : 0 ∉ skipSpaces text := fun inside =>
    line ((List.dropWhile_sublist isSpace).mem inside)
  obtain ⟨taken, dropped⟩ := token_eq inLine
  rw [Arguments.copyToken_eq, taken, dropped]
  rfl

/-- There is a character behind the spaces if there is a run. -/
theorem skipSpaces_headD : (skipSpaces text).headD 0 ≠ 0 ↔ firstRun isSpace text ≠ [] := by
  have stopped := List.head?_dropWhile_not isSpace text
  cases skipped : text.dropWhile isSpace with
  | nil => simp [skipSpaces, firstRun, skipped]
  | cons char rest =>
      have inside : char ∈ text :=
        (List.dropWhile_sublist isSpace).mem (skipped ▸ List.mem_cons_self)
      have nonzero : ¬ char = 0#8 := by
        intro isZero
        rw [isZero] at inside
        exact line inside
      rw [skipped] at stopped
      have visible : isSpace char = false := by simpa using stopped
      simp [skipSpaces, firstRun, skipped, nonzero, visible]

end Split

section Parse

variable {command : CString} (before : ArgumentBuffer → Nat → Byte)

/-- The first place of an array is not NUL after a token of a line has been copied to it. -/
theorem storeFrom_first {token : CString} (line : 0 ∉ token) (nonempty : token ≠ [])
    (a : Arguments) (target : ArgumentBuffer) :
    (a.storeFrom target 0 token).buffer target 0 ≠ 0 := by
  cases token with
  | nil => exact absurd rfl nonempty
  | cons char rest =>
      rw [a.storeFrom_buffer, if_pos (by simp)]
      exact fun isZero => line (isZero ▸ List.mem_cons_self)

/-- `parse_arguments` counts the first three words and copies them. -/
theorem parseArguments_eq (line : 0 ∉ command) :
    parseArguments before command =
      match words isSpace command with
      | [] => (0, (Arguments.cleared before).storeFrom .cmd 0 [])
      | [cmd] => (1, (Arguments.cleared before).storeFrom .cmd 0 cmd)
      | [cmd, arg1] =>
          (2, ((Arguments.cleared before).storeFrom .cmd 0 cmd).storeFrom .arg1 0 arg1)
      | cmd :: arg1 :: arg2 :: _ =>
          (3, (((Arguments.cleared before).storeFrom .cmd 0 cmd).storeFrom .arg1 0 arg1).storeFrom
            .arg2 0 arg2) := by
  have afterCmd := afterRun_line line
  have afterArg1 := afterRun_line afterCmd
  have clears : ((Arguments.store { buffer := before, writes := [] } .cmd 0 0).store .arg1 0
      0).store .arg2 0 0 = Arguments.cleared before := rfl
  rw [parseArguments]
  simp only [clears, copyToken_skipSpaces line]
  by_cases noCmd : firstRun isSpace command = []
  · rw [words_eq, if_pos noCmd, noCmd, if_pos]
    rfl
  · rw [if_neg (storeFrom_first (firstRun_line line) noCmd _ _), words_eq, if_neg noCmd]
    by_cases noArg1 : firstRun isSpace (afterRun isSpace command) = []
    · rw [if_neg fun more => (skipSpaces_headD afterCmd).mp more noArg1, words_eq, if_pos noArg1]
    · rw [if_pos ((skipSpaces_headD afterCmd).mpr noArg1), words_eq, if_neg noArg1]
      simp only [copyToken_skipSpaces afterCmd]
      rw [if_pos (storeFrom_first (firstRun_line afterCmd) noArg1 _ _)]
      by_cases noArg2 : firstRun isSpace (afterRun isSpace (afterRun isSpace command)) = []
      · rw [if_neg fun more => (skipSpaces_headD afterArg1).mp more noArg2, words_eq, if_pos noArg2]
      · rw [if_pos ((skipSpaces_headD afterArg1).mpr noArg2), words_eq, if_neg noArg2]
        simp only [copyToken_skipSpaces afterArg1]
        rw [if_pos (storeFrom_first (firstRun_line afterArg1) noArg2 _ _)]

theorem parseArguments_count (line : 0 ∉ command) :
    (parseArguments before command).1 = min 3 (words isSpace command).length := by
  rw [parseArguments_eq before line]
  split
  · next none => rw [none]; rfl
  · next one => rw [one]; rfl
  · next two => rw [two]; rfl
  · next three => rw [three]; simp

/-- The words of a line without NUL are without NUL. -/
theorem words_line {text : CString} (line : 0 ∉ text) :
    ∀ word ∈ words isSpace text, 0 ∉ word := by
  intro word member inside
  exact line (mem_of_mem_words isSpace member inside)

/-- The word that an array receives. -/
def ArgumentBuffer.word (target : ArgumentBuffer) (command : CString) : CString :=
  match target with
  | .cmd => (words isSpace command).getD 0 []
  | .arg1 => (words isSpace command).getD 1 []
  | .arg2 => (words isSpace command).getD 2 []

theorem ArgumentBuffer.word_line (target : ArgumentBuffer) (line : 0 ∉ command) :
    0 ∉ target.word command := by
  have each (index : Nat) : 0 ∉ (words isSpace command).getD index [] := by
    rw [List.getD_eq_getElem?_getD]
    cases found : (words isSpace command)[index]? with
    | none => simp
    | some word => exact words_line line word (List.mem_of_getElem? found)
  cases target with
  | cmd => exact each 0
  | arg1 => exact each 1
  | arg2 => exact each 2

section Stores

variable (a : Arguments) (cmd arg1 arg2 : CString) (empty : ∀ target, a.Holds target [])

include empty

/-- After the command has been copied, the other two arrays are as they were. -/
theorem storeCmd_holds (target : ArgumentBuffer) :
    (a.storeFrom .cmd 0 cmd).Holds target (if target = .cmd then cmd else []) := by
  cases target with
  | cmd => exact Arguments.storeFrom_holds a .cmd cmd
  | arg1 => exact (empty .arg1).storeFrom (by decide) cmd
  | arg2 => exact (empty .arg2).storeFrom (by decide) cmd

theorem storeArg1_holds (target : ArgumentBuffer) :
    ((a.storeFrom .cmd 0 cmd).storeFrom .arg1 0 arg1).Holds target
      (if target = .cmd then cmd else if target = .arg1 then arg1 else []) := by
  have before := storeCmd_holds a cmd empty
  cases target with
  | cmd => exact (before .cmd).storeFrom (by decide) arg1
  | arg1 => exact Arguments.storeFrom_holds _ .arg1 arg1
  | arg2 => exact (before .arg2).storeFrom (by decide) arg1

theorem storeArg2_holds (target : ArgumentBuffer) :
    (((a.storeFrom .cmd 0 cmd).storeFrom .arg1 0 arg1).storeFrom .arg2 0 arg2).Holds target
      (if target = .cmd then cmd else if target = .arg1 then arg1 else arg2) := by
  have before := storeArg1_holds a cmd arg1 empty
  cases target with
  | cmd => exact (before .cmd).storeFrom (by decide) arg2
  | arg1 => exact (before .arg1).storeFrom (by decide) arg2
  | arg2 => exact Arguments.storeFrom_holds _ .arg2 arg2

end Stores

/-- Each array holds its word, or nothing where the line has too few. -/
theorem parseArguments_holds (line : 0 ∉ command) (target : ArgumentBuffer) :
    (parseArguments before command).2.Holds target (target.word command) := by
  have empty := Arguments.cleared_holds before
  rw [parseArguments_eq before line]
  split
  · next none =>
    have held := storeCmd_holds _ [] empty target
    cases target <;> simpa [ArgumentBuffer.word, none] using held
  · next cmd one =>
    have held := storeCmd_holds _ cmd empty target
    cases target <;> simpa [ArgumentBuffer.word, one] using held
  · next cmd arg1 two =>
    have held := storeArg1_holds _ cmd arg1 empty target
    cases target <;> simpa [ArgumentBuffer.word, two] using held
  · next cmd arg1 arg2 rest three =>
    have held := storeArg2_holds _ cmd arg1 arg2 empty target
    cases target <;> simpa [ArgumentBuffer.word, three] using held

theorem parseArguments_arg1 (line : 0 ∉ command) :
    (parseArguments before command).2.string .arg1 = (words isSpace command).getD 1 [] :=
  (parseArguments_holds before line .arg1).string_eq (ArgumentBuffer.arg1.word_line line)

theorem parseArguments_arg2 (line : 0 ∉ command) :
    (parseArguments before command).2.string .arg2 = (words isSpace command).getD 2 [] :=
  (parseArguments_holds before line .arg2).string_eq (ArgumentBuffer.arg2.word_line line)

/-- All places written lie below a bound. -/
def Arguments.Below (a : Arguments) (bound : Nat) : Prop := ∀ place ∈ a.writes, place.2 < bound

theorem Arguments.forall_writes_storeFrom (holds : ArgumentBuffer × Nat → Prop) (a : Arguments)
    (target : ArgumentBuffer) (token : CString) :
    (∀ place ∈ (a.storeFrom target 0 token).writes, holds place) ↔
      (∀ place ∈ a.writes, holds place) ∧ ∀ index ≤ token.length, holds (target, index) := by
  constructor
  · intro all
    constructor
    · exact fun place member => all place (List.mem_append_left _ member)
    · intro index bound
      refine all (target, index) (List.mem_append_right _ ?_)
      exact List.mem_map_of_mem (List.mem_range'_1.mpr (by omega))
  · rintro ⟨earlier, new⟩ place member
    cases List.mem_append.mp member with
    | inl old => exact earlier place old
    | inr added =>
        obtain ⟨index, inside, same⟩ := List.mem_map.mp added
        have upper := (List.mem_range'_1.mp inside).2
        exact same ▸ new index (by omega)

theorem Arguments.below_storeFrom (a : Arguments) (target : ArgumentBuffer) (token : CString)
    (bound : Nat) :
    (a.storeFrom target 0 token).Below bound ↔ a.Below bound ∧ token.length < bound := by
  refine (a.forall_writes_storeFrom (fun place => place.2 < bound) target token).trans ?_
  refine and_congr_right fun _ => ⟨fun all => all _ (Nat.le_refl _), fun room index inside => ?_⟩
  exact Nat.lt_of_le_of_lt inside room

/-- All places written lie within the room each array needs. -/
def Arguments.Within (a : Arguments) (room : ArgumentBuffer → Nat) : Prop :=
  ∀ place ∈ a.writes, place.2 ≤ room place.1

theorem Arguments.within_storeFrom (a : Arguments) (target : ArgumentBuffer) (token : CString)
    (room : ArgumentBuffer → Nat) :
    (a.storeFrom target 0 token).Within room ↔ a.Within room ∧ token.length ≤ room target := by
  refine (a.forall_writes_storeFrom (fun place => place.2 ≤ room place.1) target token).trans ?_
  refine and_congr_right fun _ => ⟨fun all => all _ (Nat.le_refl _), fun fits index inside => ?_⟩
  exact Nat.le_trans inside fits

/-- The first place of each array is all that is written before the command is read. -/
theorem Arguments.cleared_writes : ∀ place ∈ (Arguments.cleared before).writes, place.2 = 0 := by
  intro place member
  simp only [Arguments.cleared, Arguments.store, List.nil_append, List.cons_append,
    List.mem_cons, List.not_mem_nil, or_false] at member
  rcases member with rfl | rfl | rfl <;> rfl

/-- No array is written behind the NUL of its word. -/
theorem parseArguments_within (line : 0 ∉ command) :
    (parseArguments before command).2.Within fun target => (target.word command).length := by
  have cleared (room : ArgumentBuffer → Nat) : (Arguments.cleared before).Within room := by
    intro place member
    rw [Arguments.cleared_writes before place member]
    exact Nat.zero_le _
  rw [parseArguments_eq before line]
  split
  · simp [Arguments.within_storeFrom, cleared]
  · next one => simp [Arguments.within_storeFrom, ArgumentBuffer.word, one, cleared]
  · next two => simp [Arguments.within_storeFrom, ArgumentBuffer.word, two, cleared]
  · next three => simp [Arguments.within_storeFrom, ArgumentBuffer.word, three, cleared]

/-- The indices that `parse_arguments` writes are the lengths of the first three words at most. -/
theorem parseArguments_below (line : 0 ∉ command) {bound : Nat} (positive : 0 < bound) :
    (parseArguments before command).2.Below bound ↔
      ∀ word ∈ (words isSpace command).take 3, word.length < bound := by
  have start : (Arguments.cleared before).Below bound := by
    intro place member
    rw [Arguments.cleared_writes before place member]
    exact positive
  rw [parseArguments_eq before line]
  split
  · next none => simp [none, Arguments.below_storeFrom, start, positive]
  · next one => simp [one, Arguments.below_storeFrom, start]
  · next two => simp [two, Arguments.below_storeFrom, start]
  · next three => simp [three, Arguments.below_storeFrom, start, and_assoc]

end Parse

/-! ## What the number readers compute -/

section Numbers

/-- The value of a digit. -/
def digitValue (char : Byte) : Nat := char.toNat - 48

/-- The number that a string of decimal digits denotes. -/
def decimal (text : CString) : Nat := value 10 (text.map digitValue)

/-- A non-empty string of decimal digits with that value. -/
def Denotes (text : CString) (number : Nat) : Prop :=
  text ≠ [] ∧ (∀ char ∈ text, isDigit char = true) ∧ decimal text = number

theorem isDigit_iff (char : Byte) : isDigit char = true ↔ 48 ≤ char.toNat ∧ char.toNat ≤ 57 := by
  simp [isDigit, charByte, BitVec.le_def]

theorem addDigit_eq (result : Word) {char : Byte} (digit : isDigit char = true) :
    addDigit result char = result * BitVec.ofNat 32 10 + BitVec.ofNat 32 (digitValue char) := by
  have bounds := (isDigit_iff char).mp digit
  have step : (char - charByte '0').setWidth 32 = BitVec.ofNat 32 (digitValue char) := by
    apply BitVec.eq_of_toNat_eq
    rw [BitVec.toNat_setWidth, BitVec.toNat_sub, BitVec.toNat_ofNat, digitValue,
      show (charByte '0').toNat = 48 by decide]
    omega
  rw [addDigit, step]
  rfl

/-- Reading the digits one by one yields the number modulo 2 ^ 32. -/
theorem foldl_addDigit {text : CString} (digits : ∀ char ∈ text, isDigit char = true) :
    text.foldl addDigit 0 = BitVec.ofNat 32 (decimal text) := by
  have steps (start : Word) : text.foldl addDigit start = (text.map digitValue).foldl
      (fun total digit => total * BitVec.ofNat 32 10 + BitVec.ofNat 32 digit) start := by
    rw [List.foldl_map]
    exact List.foldl_ext _ _ start fun total char inside => addDigit_eq total (digits char inside)
  rw [steps]
  exact accumulate_toNat 10 [] (text.map digitValue) 0 rfl

theorem readPid_eq (text : CString) (pid : Word) :
    readPid text pid =
      ((text.takeWhile isDigit).foldl addDigit pid, text.dropWhile isDigit) := by
  induction text generalizing pid with
  | nil => rfl
  | cons char rest ih =>
      rw [readPid]
      split
      · next digit =>
        rw [ih, List.takeWhile_cons_of_pos digit, List.dropWhile_cons_of_pos digit]
        rfl
      · next other =>
        rw [List.takeWhile_cons_of_neg other, List.dropWhile_cons_of_neg other]
        rfl

theorem readPid_digits {text : CString} (digits : ∀ char ∈ text, isDigit char = true) :
    readPid text 0 = (BitVec.ofNat 32 (decimal text), []) := by
  rw [readPid_eq, List.takeWhile_eq_self_iff.mpr digits, foldl_addDigit digits,
    List.dropWhile_eq_nil_iff.mpr digits]

/-- Anything but digits stops the reading before the end. -/
theorem readPid_stops {text : CString} (line : 0 ∉ text)
    (other : ¬ ∀ char ∈ text, isDigit char = true) : (readPid text 0).2.headD 0 ≠ 0 := by
  rw [readPid_eq]
  cases behind : text.dropWhile isDigit with
  | nil => exact absurd (List.dropWhile_eq_nil_iff.mp behind) other
  | cons char rest =>
      have inside : char ∈ text :=
        (List.dropWhile_sublist isDigit).mem (behind ▸ List.mem_cons_self)
      intro isZero
      exact line (isZero ▸ inside)

theorem stringToUint32Loop_eq {text : CString} (line : 0 ∉ text) (i : Nat) (result : Word) :
    stringToUint32Loop text i result =
      if ∀ char ∈ text, isDigit char = true then
        some (i + text.length, text.foldl addDigit result)
      else none := by
  induction text generalizing i result with
  | nil => rw [if_pos (by simp)]; rfl
  | cons char rest ih =>
      have nonzero : char ≠ 0 := fun isZero => line (isZero ▸ List.mem_cons_self)
      rw [stringToUint32Loop, if_pos nonzero]
      by_cases digit : isDigit char = true
      · rw [if_pos digit, ih fun inside => line (List.mem_cons_of_mem char inside)]
        simp [digit, Nat.add_assoc, Nat.add_comm 1]
      · rw [if_neg digit, if_neg fun all => digit (all char List.mem_cons_self)]

theorem stringToUint32_eq {text : CString} (line : 0 ∉ text) (old : Word) :
    stringToUint32 (some text) (some old) =
      if ∀ char ∈ text, isDigit char = true then
        (decide (text ≠ []), some (BitVec.ofNat 32 (decimal text)))
      else (false, some old) := by
  rw [stringToUint32]
  simp only [stringToUint32Loop_eq line]
  by_cases digits : ∀ char ∈ text, isDigit char = true
  · rw [if_pos digits, if_pos digits, foldl_addDigit digits]
    simp [List.length_pos_iff]
  · rw [if_neg digits, if_neg digits]

end Numbers

end SimpleOS
