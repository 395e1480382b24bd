import SimpleOS.System.Safety

/-!
# The shell behind the running system

What the system is for: a shell that reads lines.  It knows no scancodes, no
polling, no cooldown and no screen.  The running system does to the kernel
what this shell does with the lines that the keyboard driver, run by itself,
returns for the same bytes.
-/

namespace SimpleOS

open Library.ByteMemory Library.GuardedRun

/-! ## The driver by itself -/

namespace Session

/-- A byte for a driver that is called again whenever it returns. -/
def read (s : Session) (byte : Byte) : Session :=
  if (s.feed byte).phase = .returned then (s.feed byte).call else s.feed byte

/-- The line it returns with that byte, if any. -/
def line? (s : Session) (byte : Byte) : Option CString :=
  if (s.feed byte).phase = .returned then some (s.feed byte).keyboard.string else none

end Session

/-- The lines a driver returns, each with the input that ended it. -/
def linesRead : Session → List Input → List (Input × CString)
  | _, [] => []
  | s, input :: rest =>
      ((s.line? input.byte).map fun line => (input, line)).toList ++
        linesRead (s.read input.byte) rest

/-! ## The shell -/

/-- The kernel, and who reads the next line. -/
structure Shell where
  kernel : Kernel
  mode : Mode

namespace Shell

/-- A command line that is not empty. -/
def execute (image : Image) (h : Shell) (input : Input) (command : CString) : Shell :=
  if Overruns input.before command then { h with mode := .overrun }
  else if shellCommand command = .keytest then { h with mode := .keytest }
  else
    match if shellCommand command = .schedule then h.kernel.transfer? input.saved else none with
    | some transfer => { kernel := transfer.kernel, mode := .away }
    | none =>
        { h with
          kernel := (h.kernel.processCommand image input.before input.saved command).kernel }

/-- A line. -/
def step (image : Image) (h : Shell) (entry : Input × CString) : Shell :=
  match h.mode with
  | .shell => if entry.2 = [] then h else h.execute image entry.1 entry.2
  | .keytest => if entry.2 = .ofString "exit" then { h with mode := .shell } else h
  | .away => h
  | .overrun => h

/-- Once it is not followed any further it stays as it is. -/
theorem run_stopped {image : Image} {h : Shell} (stopped : ¬ (h.mode = .shell ∨ h.mode = .keytest))
    (entries : List (Input × CString)) : run (step image) h entries = h := by
  have same (entry : Input × CString) : h.step image entry = h := by
    unfold step
    split
    · next shell => exact absurd (Or.inl shell) stopped
    · next keytest => exact absurd (Or.inr keytest) stopped
    · rfl
    · rfl
  induction entries with
  | nil => rfl
  | cons entry rest ih => exact (congrArg (run (step image) · rest) (same entry)).trans ih

end Shell

/-! ## The refinement -/

namespace System

/-- The shell that a system is. -/
def shell (y : System) : Shell := ⟨y.kernel, y.mode⟩

/-- The driver of the system stands where a driver by itself stands. -/
def Reads (y : System) (s : Session) : Prop :=
  y.session.phase = s.phase ∧ y.session.keyboard = s.keyboard

section Reading

variable {image : Image} {y : System} {s : Session}

/-- Drivers that stand alike do alike. -/
theorem feed_alike {t : Session} (phase : t.phase = s.phase) (keyboard : t.keyboard = s.keyboard)
    (byte : Byte) :
    (t.feed byte).phase = (s.feed byte).phase ∧
      (t.feed byte).keyboard = (s.feed byte).keyboard := by
  unfold Session.feed
  rw [phase, keyboard]
  split
  · exact ⟨rfl, rfl⟩
  · exact ⟨rfl, rfl⟩
  · exact ⟨rfl, rfl⟩
  · exact ⟨phase, keyboard⟩

theorem call_alike {t : Session} (phase : t.phase = s.phase) (keyboard : t.keyboard = s.keyboard) :
    t.call.phase = s.call.phase ∧ t.call.keyboard = s.call.keyboard := by
  unfold Session.call
  rw [phase, keyboard]
  split
  · exact ⟨rfl, rfl⟩
  · exact ⟨phase, keyboard⟩

theorem drive_byte (reads : y.Reads s) (byte : Byte) :
    (y.drive (.byte byte)).Reads (s.feed byte) :=
  feed_alike (t := { y.session with calls := [] }) reads.1 reads.2 byte

theorem prompt_reads (reads : y.Reads s) : y.prompt.Reads s.call := call_alike reads.1 reads.2

theorem keytestPrompt_reads (reads : y.Reads s) : y.keytestPrompt.Reads s.call :=
  call_alike reads.1 reads.2

/-- What a command does to the system is what it does to the shell, and a system that is still
followed has called the driver again. -/
theorem execute_shell (reads : y.Reads s) (input : Input) (command : CString) :
    (y.execute image input command).shell = y.shell.execute image input command ∧
      ((y.execute image input command).mode = .shell ∨
          (y.execute image input command).mode = .keytest →
        (y.execute image input command).Reads s.call) := by
  unfold execute Shell.execute
  split
  · exact ⟨rfl, fun follows => by rcases follows with same | same <;> cases same⟩
  · dsimp only
    split
    · next keytest =>
        rw [if_pos keytest]
        exact ⟨rfl, fun _ => keytestPrompt_reads reads⟩
    · next schedule =>
        rw [if_neg (by rw [schedule]; exact fun same => nomatch same), if_pos schedule]
        change _ = (match y.kernel.transfer? input.saved with
          | some transfer => ⟨transfer.kernel, .away⟩
          | none => ⟨_, _⟩ : Shell) ∧ _
        cases y.kernel.transfer? input.saved with
        | some transfer =>
            exact ⟨rfl, fun follows => by rcases follows with same | same <;> cases same⟩
        | none => exact ⟨rfl, fun _ => prompt_reads reads⟩
    · next notKeytest notSchedule =>
        rw [if_neg notKeytest, if_neg notSchedule]
        exact ⟨rfl, fun _ => prompt_reads reads⟩

theorem testLine_shell (reads : y.Reads s) {line : CString} (free : 0 ∉ line) :
    (y.testLine line).shell =
        (if line = .ofString "exit" then { y.shell with mode := .shell } else y.shell) ∧
      (y.testLine line).Reads s.call := by
  unfold testLine
  have exits := stringCompare_iff free (by decide : (0 : Byte) ∉ CString.ofString "exit")
  by_cases exit : line = .ofString "exit"
  · rw [if_pos (exits.mpr exit), if_pos exit]
    exact ⟨rfl, prompt_reads reads⟩
  · rw [if_neg fun same => exit (exits.mp same), if_neg exit]
    exact ⟨rfl, keytestPrompt_reads reads⟩

/-- One byte: the shell makes a step if the driver returns a line, and the drivers stand alike
again as long as the system is followed. -/
theorem step_shell (sound : y.Sound image) (waiting : y.mode = .shell ∨ y.mode = .keytest)
    (reads : y.Reads s) (input : Input) :
    (y.step image input).shell =
        run (Shell.step image) y.shell
          ((s.line? input.byte).map fun line => (input, line)).toList ∧
      ((y.step image input).mode = .shell ∨ (y.step image input).mode = .keytest →
        (y.step image input).Reads (s.read input.byte)) := by
  have driven := drive_byte reads input.byte
  cases taken : y.line? input with
  | none =>
      rcases step_none image taken with ⟨_, stopped⟩ | ⟨same, runs⟩
      · exact absurd waiting stopped
      · have goesOn : (s.feed input.byte).phase ≠ .returned := driven.1 ▸ runs
        have nothing : s.line? input.byte = none := if_neg goesOn
        have reading : s.read input.byte = s.feed input.byte := if_neg goesOn
        rw [same, nothing, reading]
        exact ⟨rfl, fun _ => driven⟩
  | some line =>
      obtain ⟨same, _, ended, string⟩ := step_some image taken
      have free := (line_wellFormed sound taken).1
      have returned : (s.feed input.byte).phase = .returned := driven.1 ▸ ended
      have reading : s.read input.byte = (s.feed input.byte).call := if_pos returned
      have read : s.line? input.byte = some line := by
        rw [Session.line?, if_pos returned, ← driven.2, string]
      rw [same, read, reading, System.returned]
      change _ = (y.shell.step image (input, line)) ∧ _
      rcases waiting with shell | keytest
      · rw [drive_mode, shell]
        have here : y.shell.mode = .shell := shell
        simp only [Shell.step, here]
        by_cases empty : line = []
        · rw [if_neg (by rw [empty]; exact Nat.lt_irrefl 0), if_pos empty]
          exact ⟨rfl, fun _ => prompt_reads driven⟩
        · rw [if_pos (List.length_pos_iff.mpr empty), if_neg empty]
          exact execute_shell driven input line
      · rw [drive_mode, keytest]
        have here : y.shell.mode = .keytest := keytest
        simp only [Shell.step, here]
        obtain ⟨state, later⟩ := testLine_shell driven free
        exact ⟨state, fun _ => later⟩

theorem step_stopped (stopped : ¬ (y.mode = .shell ∨ y.mode = .keytest)) (input : Input) :
    y.step image input = y := if_neg stopped

/-- Any number of bytes. -/
theorem run_shell (sound : y.Sound image)
    (reads : y.mode = .shell ∨ y.mode = .keytest → y.Reads s) (inputs : List Input) :
    (run (step image) y inputs).shell =
      run (Shell.step image) y.shell (linesRead s inputs) := by
  induction inputs generalizing y s with
  | nil => rfl
  | cons input rest ih =>
      by_cases waiting : y.mode = .shell ∨ y.mode = .keytest
      · obtain ⟨state, later⟩ := step_shell sound waiting (reads waiting) input
        have rest := ih (step_sound y input sound) later
        rw [linesRead, run_append, ← state]
        exact rest
      · rw [Shell.run_stopped
          (show ¬ (y.shell.mode = .shell ∨ y.shell.mode = .keytest) from waiting)]
        have same : y.step image input = y := step_stopped waiting input
        have rest := ih (y := y) (s := s) sound reads
        rw [Shell.run_stopped
          (show ¬ (y.shell.mode = .shell ∨ y.shell.mode = .keytest) from waiting)] at rest
        change (run (step image) (y.step image input) _).shell = _
        rw [same]
        exact rest

/-- A system that is still followed stands, with its driver, where the driver by itself stands. -/
theorem run_reads (sound : y.Sound image)
    (reads : y.mode = .shell ∨ y.mode = .keytest → y.Reads s) (inputs : List Input)
    (waits : (run (step image) y inputs).mode = .shell ∨
      (run (step image) y inputs).mode = .keytest) :
    (run (step image) y inputs).Reads (run Session.read s (inputs.map Input.byte)) := by
  induction inputs generalizing y s with
  | nil => exact reads waits
  | cons input rest ih =>
      by_cases waiting : y.mode = .shell ∨ y.mode = .keytest
      · obtain ⟨_, later⟩ := step_shell sound waiting (reads waiting) input
        exact ih (step_sound y input sound) later waits
      · have same : y.step image input = y := step_stopped waiting input
        refine ih (step_sound y input sound) (fun follows => ?_) waits
        rw [same] at follows
        exact absurd follows waiting

/-- The line that comes next. -/
theorem line?_eq (waits : y.mode = .shell ∨ y.mode = .keytest) (reads : y.Reads s)
    (input : Input) : y.line? input = s.line? input.byte := by
  obtain ⟨phase, keyboard⟩ := drive_byte reads input.byte
  rw [System.line?, if_pos waits, Session.line?]
  dsimp only
  rw [phase, keyboard]

end Reading

theorem boot_reads (image : Image) (keyboard : KeyboardState) :
    (boot image keyboard).Reads (Session.init keyboard).call :=
  call_alike rfl rfl

/-- Whatever bytes arrive, the kernel of the running system, and whether the shell, the keyboard
test or nobody reads the next line, are what the shell makes of the lines that the keyboard driver
by itself returns for those bytes. -/
theorem refines_shell (image : Image) (keyboard : KeyboardState) (inputs : List Input) :
    (run (step image) (boot image keyboard) inputs).shell =
      run (Shell.step image) ⟨.boot image, .shell⟩
        (linesRead (Session.init keyboard).call inputs) :=
  run_shell (boot_sound image keyboard) (fun _ => boot_reads image keyboard) inputs

end System

end SimpleOS
