import SimpleOS.Kernel.Shell

/-!
# PID texts

`pkill`, `pstatus` and `pch` read a PID from decimal digits in 32 bits.  They
accept a text by its characters alone, so a number of 2 ^ 32 or more is taken
for its remainder.
-/

namespace SimpleOS

open Library.ByteMemory Library.GuardedRun Library.Words

/-! ## What the three commands perform -/

/-- The PID an operation of the shell works on. -/
def ProcessOp.pid? : ProcessOp → Option Word
  | .killByPid pid => some pid
  | .setStatus pid _ => some pid
  | .changeCurrent pid => some pid
  | _ => none

/-- The text a command takes its PID from. -/
def pidText (command : CString) : CString :=
  if shellCommand command = .pch then command.drop 4 else (words isSpace command).getD 1 []

/-- A text passes the test behind the digit loop. -/
def PidAccepted (text : CString) : Prop :=
  (∀ char ∈ text, isDigit char = true) ∧ BitVec.ofNat 32 (decimal text) ≠ 0

instance (text : CString) : Decidable (PidAccepted text) := inferInstanceAs (Decidable (_ ∧ _))

theorem readPid_refuses_iff {text : CString} (line : 0 ∉ text) :
    ((readPid text 0).1 = 0 ∨ (readPid text 0).2.headD 0 ≠ 0) ↔ ¬ PidAccepted text := by
  by_cases digits : ∀ char ∈ text, isDigit char = true
  · rw [readPid_digits digits, PidAccepted, and_iff_right digits, not_not]
    exact or_iff_left (not_not.mpr rfl)
  · constructor
    · exact fun _ accepted => digits accepted.1
    · exact fun _ => Or.inr (readPid_stops line digits)

namespace Kernel

section Performed

variable (image : Image) (before : ArgumentBuffer → Nat → Byte) (s : Kernel) {command : CString}
variable (line : 0 ∉ command)

include line

omit image s in
theorem argument_line (index : Nat) : 0 ∉ (words isSpace command).getD index [] := by
  rw [List.getD_eq_getElem?_getD]
  cases found : (words isSpace command)[index]? with
  | none => simp
  | some word => exact words_line line word (List.mem_of_getElem? found)

theorem pkillCommand_performed :
    (s.pkillCommand image before command).performed =
      if PidAccepted ((words isSpace command).getD 1 []) then
        [.killByPid (BitVec.ofNat 32 (decimal ((words isSpace command).getD 1 [])))]
      else [] := by
  unfold pkillCommand
  dsimp only
  rw [parseArguments_count before line, parseArguments_arg1 before line]
  by_cases few : (words isSpace command).length < 2
  · have missing : (words isSpace command).getD 1 [] = [] := by
      rw [List.getD_eq_getElem?_getD, List.getElem?_eq_none (by omega)]
      rfl
    rw [if_pos (by omega), missing, if_neg (by decide)]
  · rw [if_neg (by omega)]
    have refuses := readPid_refuses_iff (argument_line line 1)
    by_cases accepted : PidAccepted ((words isSpace command).getD 1 [])
    · rw [if_neg (fun refused => refuses.mp refused accepted), if_pos accepted,
        readPid_digits accepted.1]
    · rw [if_pos (refuses.mpr accepted), if_neg accepted]

theorem pstatusCommand_performed :
    (s.pstatusCommand before command).performed =
      if PidAccepted ((words isSpace command).getD 1 []) then
        ((readStatus ((words isSpace command).getD 2 [])).map fun status =>
          .setStatus (BitVec.ofNat 32 (decimal ((words isSpace command).getD 1 [])))
            status).toList
      else [] := by
  unfold pstatusCommand
  dsimp only
  rw [parseArguments_count before line, parseArguments_arg1 before line,
    parseArguments_arg2 before line]
  by_cases few : (words isSpace command).length < 3
  · have missing : (words isSpace command).getD 2 [] = [] := by
      rw [List.getD_eq_getElem?_getD, List.getElem?_eq_none (by omega)]
      rfl
    have nameless : readStatus [] = none := by decide
    rw [if_pos (by omega), missing, nameless]
    simp
  · rw [if_neg (by omega)]
    have refuses := readPid_refuses_iff (argument_line line 1)
    by_cases accepted : PidAccepted ((words isSpace command).getD 1 [])
    · rw [if_neg (fun refused => refuses.mp refused accepted), if_pos accepted,
        readPid_digits accepted.1]
      cases readStatus ((words isSpace command).getD 2 []) <;> rfl
    · rw [if_pos (refuses.mpr accepted), if_neg accepted]

theorem pchCommand_performed :
    (s.pchCommand command).performed =
      if command.drop 4 ≠ [] ∧ ∀ char ∈ command.drop 4, isDigit char = true then
        [.changeCurrent (BitVec.ofNat 32 (decimal (command.drop 4)))]
      else [] := by
  have textLine : 0 ∉ command.drop 4 := fun inside =>
    line ((List.drop_sublist 4 command).mem inside)
  have reads := stringToUint32_eq textLine 0
  unfold pchCommand
  split
  · next refused =>
    rw [if_neg]
    rintro ⟨nonempty, digits⟩
    -- the character with code 1 is no digit
    cases text : command.drop 4 with
    | nil => exact nonempty text
    | cons char rest =>
        have first : char = 1 := by
          rw [← refused, List.getD_eq_getElem?_getD, ← List.head?_drop, text]
          rfl
        have digit := digits char (text ▸ List.mem_cons_self)
        rw [first] at digit
        exact absurd digit (by decide)
  · rw [reads]
    by_cases digits : ∀ char ∈ command.drop 4, isDigit char = true
    · rw [if_pos digits]
      by_cases nonempty : command.drop 4 ≠ []
      · rw [if_pos ⟨nonempty, digits⟩, decide_eq_true nonempty]
      · rw [if_neg fun both => nonempty both.1, decide_eq_false nonempty]
    · rw [if_neg digits, if_neg fun both => digits both.2]

end Performed

/-! ## What a PID text means -/

/-- The command takes a PID. -/
def TakesPid (command : CString) : Prop :=
  shellCommand command = .pkill ∨ shellCommand command = .pstatus ∨ shellCommand command = .pch

instance (command : CString) : Decidable (TakesPid command) :=
  inferInstanceAs (Decidable (_ ∨ _ ∨ _))

/-- The command works on the PID its text denotes, and changes nothing for any other text. -/
structure PidMeant (s : Kernel) (outcome : Outcome) (text : CString) : Prop where
  named : ∀ op ∈ outcome.performed, ∀ pid, op.pid? = some pid → Denotes text pid.toNat
  rejected : (¬ ∃ number < 2 ^ 32, Denotes text number) → outcome.kernel = s

/-- `string_to_uint32` succeeds for the texts of the numbers below 2 ^ 32, with that number. -/
structure Uint32Meant (str : CString) (old : Word) : Prop where
  succeeds : (stringToUint32 (some str) (some old)).1 = true ↔
    ∃ number < 2 ^ 32, Denotes str number
  yields : ∀ number < 2 ^ 32, Denotes str number →
    (stringToUint32 (some str) (some old)).2 = some (BitVec.ofNat 32 number)

/-- A string of digits whose value does not fit in 32 bits. -/
def TooLarge (text : CString) : Prop :=
  (∀ char ∈ text, isDigit char = true) ∧ 2 ^ 32 ≤ decimal text

/--
The PID text is too large, and nothing else stops the command: its remainder
is not the 0 that `pkill` and `pstatus` refuse, and the status is a known one.
-/
def TakenForRemainder (command : CString) : Prop :=
  TooLarge (pidText command) ∧
    (shellCommand command ≠ .pch → decimal (pidText command) % 2 ^ 32 ≠ 0) ∧
    (shellCommand command = .pstatus →
      (readStatus ((words isSpace command).getD 2 [])).isSome = true)

theorem nonempty_of_large {text : CString} (large : 2 ^ 32 ≤ decimal text) : text ≠ [] := by
  intro empty
  rw [empty] at large
  exact absurd large (by decide)

/-- A command that works on the remainder of its text, if a test succeeds. -/
theorem pidMeant_iff {image : Image} {s : Kernel} {outcome : Outcome} {text : CString}
    {accepts : Prop} [Decidable accepts] {op : ProcessOp}
    (changes : outcome.kernel = run (step image) s outcome.performed)
    (performs : outcome.performed = if accepts then [op] else [])
    (pid : op.pid? = some (BitVec.ofNat 32 (decimal text)))
    (digits : accepts → text ≠ [] ∧ ∀ char ∈ text, isDigit char = true) :
    PidMeant s outcome text ↔ ¬ (accepts ∧ 2 ^ 32 ≤ decimal text) := by
  constructor
  · rintro meant ⟨accepted, large⟩
    rw [if_pos accepted] at performs
    obtain ⟨_, _, number⟩ := meant.named op (performs ▸ List.mem_singleton_self op) _ pid
    have small : decimal text < 2 ^ 32 := number ▸ (BitVec.ofNat 32 (decimal text)).isLt
    omega
  · intro fits
    by_cases accepted : accepts
    · have small : decimal text < 2 ^ 32 := Nat.lt_of_not_le fun large => fits ⟨accepted, large⟩
      obtain ⟨nonempty, chars⟩ := digits accepted
      have denotes : Denotes text (decimal text) := ⟨nonempty, chars, rfl⟩
      rw [if_pos accepted] at performs
      constructor
      · intro performed member number named
        rw [performs] at member
        rw [List.mem_singleton.mp member, pid] at named
        cases named
        rwa [BitVec.toNat_ofNat, Nat.mod_eq_of_lt small]
      · exact fun none => absurd ⟨decimal text, small, denotes⟩ none
    · rw [if_neg accepted] at performs
      constructor
      · intro performed member
        rw [performs] at member
        exact absurd member List.not_mem_nil
      · intro _
        rw [changes, performs]
        rfl

section Commands

variable (image : Image) (before : ArgumentBuffer → Nat → Byte) (s : Kernel) (saved : CpuState)
  {command : CString}

theorem remainder_ne_zero (text : CString) :
    BitVec.ofNat 32 (decimal text) ≠ 0 ↔ decimal text % 2 ^ 32 ≠ 0 := by
  rw [Ne, ← BitVec.toNat_inj, BitVec.toNat_ofNat]
  rfl

theorem digits_of_pidAccepted {text : CString} (accepted : PidAccepted text) :
    text ≠ [] ∧ ∀ char ∈ text, isDigit char = true :=
  ⟨fun empty => accepted.2 (empty ▸ rfl), accepted.1⟩

theorem pkill_pidMeant_iff (line : 0 ∉ command) (pkill : shellCommand command = .pkill) :
    PidMeant s (s.processCommand image before saved command) (pidText command) ↔
      ¬ TakenForRemainder command := by
  have changes := s.processCommand_kernel image before saved command
  have text : pidText command = (words isSpace command).getD 1 [] := by
    rw [pidText, pkill, if_neg (by decide)]
  have branch : s.processCommand image before saved command =
      s.pkillCommand image before command := by
    rw [processCommand, pkill]
  have performs := pkillCommand_performed image before s line
  rw [branch] at changes ⊢
  rw [text, pidMeant_iff changes performs rfl digits_of_pidAccepted]
  refine not_congr ?_
  rw [TakenForRemainder, TooLarge, PidAccepted, text, pkill, remainder_ne_zero]
  constructor
  · rintro ⟨⟨digits, nonzero⟩, large⟩
    exact ⟨⟨digits, large⟩, fun _ => nonzero, fun other => by cases other⟩
  · rintro ⟨⟨digits, large⟩, nonzero, _⟩
    exact ⟨⟨digits, nonzero (by decide)⟩, large⟩

theorem pstatus_pidMeant_iff (line : 0 ∉ command) (pstatus : shellCommand command = .pstatus) :
    PidMeant s (s.processCommand image before saved command) (pidText command) ↔
      ¬ TakenForRemainder command := by
  have changes := s.processCommand_kernel image before saved command
  have text : pidText command = (words isSpace command).getD 1 [] := by
    rw [pidText, pstatus, if_neg (by decide)]
  have branch : s.processCommand image before saved command =
      s.pstatusCommand before command := by
    rw [processCommand, pstatus]
  have performs := pstatusCommand_performed before s line
  rw [branch] at changes ⊢
  rw [TakenForRemainder, TooLarge, text, pstatus]
  cases known : readStatus ((words isSpace command).getD 2 []) with
  | none =>
      -- an unknown status stops every PID
      have nothing : (s.pstatusCommand before command).performed = [] := by
        rw [performs, known]
        exact ite_self _
      constructor
      · rintro _ ⟨_, _, status⟩
        cases status rfl
      · intro _
        constructor
        · intro op member
          rw [nothing] at member
          exact absurd member List.not_mem_nil
        · intro _
          rw [changes, nothing]
          rfl
  | some status =>
      rw [known] at performs
      rw [pidMeant_iff changes performs rfl digits_of_pidAccepted]
      refine not_congr ?_
      rw [PidAccepted, remainder_ne_zero]
      constructor
      · rintro ⟨⟨digits, nonzero⟩, large⟩
        exact ⟨⟨digits, large⟩, fun _ => nonzero, fun _ => rfl⟩
      · rintro ⟨⟨digits, large⟩, nonzero, _⟩
        exact ⟨⟨digits, nonzero (by decide)⟩, large⟩

theorem pch_pidMeant_iff (line : 0 ∉ command) (pch : shellCommand command = .pch) :
    PidMeant s (s.processCommand image before saved command) (pidText command) ↔
      ¬ TakenForRemainder command := by
  have changes := s.processCommand_kernel image before saved command
  have text : pidText command = command.drop 4 := by
    rw [pidText, if_pos pch]
  have branch : s.processCommand image before saved command = s.pchCommand command := by
    rw [processCommand, pch]
  rw [branch] at changes ⊢
  rw [text, pidMeant_iff changes (pchCommand_performed s line) rfl id]
  refine not_congr ?_
  rw [TakenForRemainder, TooLarge, text, pch]
  constructor
  · rintro ⟨⟨_, digits⟩, large⟩
    exact ⟨⟨digits, large⟩, fun other => absurd rfl other, fun other => by cases other⟩
  · rintro ⟨⟨digits, large⟩, _⟩
    exact ⟨⟨nonempty_of_large large, digits⟩, large⟩

theorem processCommand_pidMeant_iff (line : 0 ∉ command) (takes : TakesPid command) :
    PidMeant s (s.processCommand image before saved command) (pidText command) ↔
      ¬ TakenForRemainder command := by
  rcases takes with pkill | pstatus | pch
  · exact s.pkill_pidMeant_iff image before saved line pkill
  · exact s.pstatus_pidMeant_iff image before saved line pstatus
  · exact s.pch_pidMeant_iff image before saved line pch

end Commands

end Kernel

open Kernel

theorem uint32Meant_iff {str : CString} (line : 0 ∉ str) (old : Word) :
    Uint32Meant str old ↔ ¬ TooLarge str := by
  have reads := stringToUint32_eq line old
  by_cases digits : ∀ char ∈ str, isDigit char = true
  · rw [if_pos digits] at reads
    constructor
    · rintro meant ⟨_, large⟩
      have success : (stringToUint32 (some str) (some old)).1 = true := by
        rw [reads]
        exact decide_eq_true (nonempty_of_large large)
      obtain ⟨number, small, _, _, same⟩ := meant.succeeds.mp success
      omega
    · intro fits
      have small : decimal str < 2 ^ 32 := Nat.lt_of_not_le fun large => fits ⟨digits, large⟩
      constructor
      · rw [reads]
        constructor
        · exact fun nonempty => ⟨decimal str, small, of_decide_eq_true nonempty, digits, rfl⟩
        · exact fun ⟨_, _, nonempty, _⟩ => decide_eq_true nonempty
      · rintro number _ ⟨_, _, same⟩
        rw [reads, same]
  · rw [if_neg digits] at reads
    constructor
    · exact fun _ large => digits large.1
    · intro _
      constructor
      · rw [reads]
        constructor
        · exact fun success => by cases success
        · exact fun ⟨_, _, _, chars, _⟩ => absurd chars digits
      · exact fun _ _ denotes => absurd denotes.2.1 digits

/-- `pkill 4294967298` kills process 2. -/
theorem pkill_takes_remainder :
    ¬ ∀ (image : Image) (before : ArgumentBuffer → Nat → Byte) (s : Kernel) (saved : CpuState)
      (command : CString), 0 ∉ command → TakesPid command →
        PidMeant s (s.processCommand image before saved command) (pidText command) := by
  intro allMeant
  have facts : ∀ s, s = (boot Image.sample).step Image.sample .fork →
      s.processTable 2 ≠ null ∧ (s.processCommand Image.sample (fun _ _ => 0) {}
        (.ofString "pkill 4294967298")).kernel.processTable 2 = null := by
    intro s reached
    rw [reached]
    decide +kernel
  obtain ⟨registered, removed⟩ := facts _ rfl
  have meant := allMeant Image.sample (fun _ _ => 0)
    ((boot Image.sample).step Image.sample .fork) {} (.ofString "pkill 4294967298")
    (by decide) (by decide)
  have large : ¬ ∃ number < 2 ^ 32, Denotes (pidText (.ofString "pkill 4294967298")) number := by
    rintro ⟨number, small, _, _, same⟩
    have value : decimal (pidText (.ofString "pkill 4294967298")) = 4294967298 := by decide
    omega
  rw [meant.rejected large] at removed
  exact registered removed

/--
A PID text means what it says exactly when it is not a number of 2 ^ 32 or
more whose remainder the command goes on with.
-/
theorem pid_texts_meant_iff (image : Image) (before : ArgumentBuffer → Nat → Byte) (s : Kernel)
    (saved : CpuState) (command : CString) (line : 0 ∉ command) (takes : TakesPid command)
    (str : CString) (old : Word) (text : 0 ∉ str) :
    (PidMeant s (s.processCommand image before saved command) (pidText command) ↔
      ¬ TakenForRemainder command) ∧ (Uint32Meant str old ↔ ¬ TooLarge str) := by
  constructor
  · exact s.processCommand_pidMeant_iff image before saved line takes
  · exact uint32Meant_iff text old

/-- A PID with ten digits that fits is taken for itself. -/
theorem pid_texts_meant_fits :
    PidMeant (boot Image.sample) ((boot Image.sample).processCommand Image.sample (fun _ _ => 0) {}
        (.ofString "pch 4294967295")) (pidText (.ofString "pch 4294967295")) ∧
      Uint32Meant (.ofString "4294967295") 0 := by
  obtain ⟨command, text⟩ := pid_texts_meant_iff Image.sample (fun _ _ => 0) (boot Image.sample) {}
    (.ofString "pch 4294967295") (by decide) (by decide) (.ofString "4294967295") 0 (by decide)
  constructor
  · refine command.mpr fun taken => ?_
    exact absurd taken.1.2 (by decide)
  · refine text.mpr fun large => ?_
    exact absurd large.2 (by decide)

end SimpleOS
