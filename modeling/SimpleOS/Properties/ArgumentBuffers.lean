import SimpleOS.Kernel.Shell

/-!
# The arrays of `parse_arguments`

`parse_arguments` copies each of the first three words of a command to an
array of 64 characters, with a NUL behind it.  The first word of the commands
that call it is their name; nothing bounds the other two.
-/

namespace SimpleOS

open Library.ByteMemory Library.Words

/--
`parse_arguments` is word splitting: it returns the number of words, at most
three, each array holds its word and a NUL, and nothing behind that NUL is
written.
-/
theorem parseArguments_splits (before : ArgumentBuffer → Nat → Byte) (command : CString)
    (line : 0 ∉ command) :
    (parseArguments before command).1 = min 3 (words isSpace command).length ∧
      ∀ target : ArgumentBuffer,
        0 ∉ target.word command ∧
        (∀ place < (target.word command).length,
          (parseArguments before command).2.buffer target place =
            (target.word command).getD place 0) ∧
        (parseArguments before command).2.buffer target (target.word command).length = 0 ∧
        ∀ place, (target, place) ∈ (parseArguments before command).2.writes →
          place ≤ (target.word command).length := by
  refine ⟨parseArguments_count before line, fun target => ?_⟩
  have held := parseArguments_holds before line target
  refine ⟨target.word_line line, fun place inside => ?_, ?_, fun place written => ?_⟩
  · exact held.chars place (Nat.le_of_lt inside)
  · rw [held.chars _ (Nat.le_refl _)]
    simp [List.getD]
  · exact parseArguments_within before line (target, place) written

/-- Spaces in front, between and behind, and a fourth word. -/
theorem parseArguments_splits_four_words :
    (parseArguments (fun _ _ => 1) (.ofString "  kill 12   now  x ")).1 = 3 ∧
      (parseArguments (fun _ _ => 1) (.ofString "  kill 12   now  x ")).2.buffer .arg2 3 = 0 := by
  obtain ⟨count, arrays⟩ :=
    parseArguments_splits (fun _ _ => 1) (.ofString "  kill 12   now  x ") (by decide)
  have split : words isSpace (CString.ofString "  kill 12   now  x ") =
      [CString.ofString "kill", CString.ofString "12", CString.ofString "now",
        CString.ofString "x"] := by decide
  constructor
  · rw [count, split]
    rfl
  · have ended := (arrays .arg2).2.2.1
    rw [ArgumentBuffer.word, split] at ended
    exact ended

/-- The command line reaches a branch that calls `parse_arguments`. -/
def ParsesArguments (command : CString) : Prop := (shellCommand command).word.isSome = true

instance (command : CString) : Decidable (ParsesArguments command) :=
  inferInstanceAs (Decidable (_ = true))

/-- A second word of 64 characters is followed by a NUL behind the array. -/
theorem long_word_overruns :
    ¬ ∀ (before : ArgumentBuffer → Nat → Byte) (command : CString), 0 ∉ command →
      command.length ≤ 255 → ParsesArguments command →
        (parseArguments before command).2.Below argumentBufferSize := by
  intro allBelow
  have below := allBelow (fun _ _ => 0) (.ofString "spawn " ++ List.replicate 64 (charByte 'a'))
    (by decide) (by decide) (by decide)
  exact absurd (below (.arg1, 64) (by decide)) (by decide)

/-- All writes are inside the arrays exactly when the words behind the name fit. -/
theorem writes_inside_iff (before : ArgumentBuffer → Nat → Byte) (command : CString)
    (line : 0 ∉ command) (parses : ParsesArguments command) :
    (parseArguments before command).2.Below argumentBufferSize ↔
      ∀ word ∈ ((words isSpace command).drop 1).take 2, word.length ≤ 63 := by
  obtain ⟨name, takes⟩ := Option.isSome_iff_exists.mp parses
  have named := isCommandWord_of_shellCommand takes
  have short : name ≠ [] ∧ (∀ char ∈ name, isTokenChar char = true) ∧
      name.length ≤ 63 := by
    generalize shellCommand command = branch at takes
    cases branch <;> cases takes <;> decide
  have split := words_of_isCommandWord line named short.1 short.2.1
  rw [parseArguments_below before line (by decide), split]
  simp only [List.take_succ_cons, List.mem_cons, forall_eq_or_imp, List.drop_succ_cons,
    List.drop_zero, argumentBufferSize, Nat.lt_succ_iff]
  exact and_iff_right short.2.2

/-- A command whose last word just fits stays inside. -/
theorem writes_inside_63 :
    (parseArguments (fun _ _ => 0)
      (.ofString "pkill " ++ List.replicate 63 (charByte '1'))).2.Below argumentBufferSize := by
  refine (writes_inside_iff _ _ (by decide) (by decide)).mpr ?_
  decide

end SimpleOS
