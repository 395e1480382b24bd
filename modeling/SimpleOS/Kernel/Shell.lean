import SimpleOS.Library.GuardedRun
import SimpleOS.Drivers.Vga
import SimpleOS.Kernel.CommandLine
import SimpleOS.Kernel.Operations

/-!
# The shell

`process_command` of `kernel.c`: the branches, the calls they make of the
process manager and the messages they print.  Commands that only print
information are told apart, but their texts are left out.
-/

namespace SimpleOS

open Library.ByteMemory Library.GuardedRun Library.Words

/-! ## Messages -/

/-- What `process_command` prints around its calls of the process manager. -/
inductive Message where
  | spawnUsage
  | creating (name : CString)
  | created
  | createFailed
  | pkillUsage
  | invalidPidFormat
  | killing (pid : CString)
  | killed
  | protectedProcess
  | processNotFound
  | killFailed
  | pstatusUsage
  | invalidStatus
  | setting (pid status : CString)
  | updated
  | updateFailed
  | forking
  | childCreated (pid : Word)
  | forkFailed
  | executing (program : CString)
  | executed
  | execFailed
  | currentPid (pid : Word)
  | triggering
  | scheduled
  | cannotSwitch
  | invalidPid
  | unknown (command : CString)
  | newline
  deriving DecidableEq

namespace Message

/-- `vga_print` of a string literal. -/
def text (line : String) : Vga.Call := .print (.ofString line)

/-- Calls between the choice of a colour and the return to white. -/
def coloured (colour : Byte) (calls : List Vga.Call) : List Vga.Call :=
  [.setColor colour vgaColorBlack] ++ calls ++ [.setColor vgaColorWhite vgaColorBlack]

/-- The calls of the screen driver. -/
def calls : Message → List Vga.Call
  | spawnUsage => coloured vgaColorLightRed
      [text "Usage: spawn <name>\n", text "Example: spawn myprocess\n"]
  | creating name => coloured vgaColorLightGreen
      [text "Creating process '", .print name, text "'...\n"]
  | created => [text "Process created successfully!\n"]
  | createFailed => coloured vgaColorLightRed [text "Failed to create process!\n"]
  | pkillUsage => coloured vgaColorLightRed
      [text "Usage: pkill <pid>\n", text "Example: pkill 1\n"]
  | invalidPidFormat => coloured vgaColorLightRed [text "Invalid PID format!\n"]
  | killing pid => coloured vgaColorLightBrown
      [text "Killing process PID ", .print pid, text "...\n"]
  | killed => [text "Process killed successfully.\n"]
  | protectedProcess => [.setColor vgaColorWhite vgaColorBlack]
  | processNotFound => coloured vgaColorLightRed [text "Process not found!\n"]
  | killFailed => coloured vgaColorLightRed [text "Failed to kill process!\n"]
  | pstatusUsage => coloured vgaColorLightRed
      [text "Usage: pstatus <pid> <status>\n", text "Status options: READY, PAUSED, WAITING\n",
        text "Example: pstatus 1 PAUSED\n"]
  | invalidStatus => coloured vgaColorLightRed
      [text "Invalid status! Use: READY, PAUSED, or WAITING\n"]
  | setting pid status => coloured vgaColorLightCyan
      [text "Setting process PID ", .print pid, text " to ", .print status, text "...\n"]
  | updated => [text "Process status updated successfully.\n"]
  | updateFailed => coloured vgaColorLightRed [text "Failed to update process status!\n"]
  | forking => coloured vgaColorLightGreen [text "Forking current process...\n"]
  | childCreated pid => [text "Child process created with PID: ", .printHex pid, text "\n"]
  | forkFailed => coloured vgaColorLightRed [text "Fork failed!\n"]
  | executing program => coloured vgaColorLightGreen
      [text "Executing program: ", .print program, text "\n"]
  | executed => [text "Program executed successfully\n"]
  | execFailed => coloured vgaColorLightRed [text "Exec failed!\n"]
  | currentPid pid => coloured vgaColorLightCyan
      [text "Current process PID: ", .printHex pid, text "\n"]
  | triggering => coloured vgaColorLightCyan [text "Triggering manual scheduler...\n"]
  | scheduled => [text "Scheduler executed\n"]
  | cannotSwitch => coloured vgaColorLightRed
      [text "ERROR: Cannot switch to kernel process (PID 1)\n"]
  | invalidPid => coloured vgaColorLightRed [text "ERROR: Invalid PID\n"]
  | unknown command => coloured vgaColorLightRed
      [text "Unknown command: ", .print command, text "\n"] ++
      [text "Type 'help' for available commands.\n"]
  | newline => [text "\n"]

end Message

/-! ## Commands -/

/-- The branches of `process_command`. -/
inductive ShellCommand where
  | help
  | about
  | status
  | memory
  | clear
  | version
  | keytest
  | ps
  | proc
  | spawn
  | pkill
  | pstatus
  | fork
  | exec
  | getpid
  | schedule
  | sysinfo
  | pch
  | unknown
  deriving DecidableEq

/-- `command[0] == name[0] && ... && (command[n] == ' ' || command[n] == '\0')`. -/
def isCommandWord (name command : CString) : Bool :=
  ((List.range name.length).all fun index => command.getD index 0 == name.getD index 0) &&
    (command.getD name.length 0 == space || command.getD name.length 0 == 0)

/-- The branch that `process_command` takes. -/
def shellCommand (command : CString) : ShellCommand :=
  if stringCompare command (.ofString "help") then .help
  else if stringCompare command (.ofString "about") then .about
  else if stringCompare command (.ofString "status") then .status
  else if stringCompare command (.ofString "memory") then .memory
  else if stringCompare command (.ofString "clear") then .clear
  else if stringCompare command (.ofString "version") then .version
  else if stringCompare command (.ofString "keytest") then .keytest
  else if stringCompare command (.ofString "ps") then .ps
  else if stringCompare command (.ofString "proc") then .proc
  else if isCommandWord (.ofString "spawn") command then .spawn
  else if isCommandWord (.ofString "pkill") command then .pkill
  else if isCommandWord (.ofString "pstatus") command then .pstatus
  else if stringCompare command (.ofString "fork") then .fork
  else if stringStartsWith command (.ofString "exec ") then .exec
  else if stringCompare command (.ofString "getpid") then .getpid
  else if stringCompare command (.ofString "schedule") then .schedule
  else if stringCompare command (.ofString "sysinfo") then .sysinfo
  else if stringStartsWith command (.ofString "pch ") then .pch
  else .unknown

/-- The word a command with separate arguments begins with. -/
def ShellCommand.word : ShellCommand → Option CString
  | .spawn => some (.ofString "spawn")
  | .pkill => some (.ofString "pkill")
  | .pstatus => some (.ofString "pstatus")
  | _ => none

/-- The state after a command, its calls that may change the state, and its messages. -/
structure Outcome where
  kernel : Kernel
  performed : List ProcessOp := []
  messages : List Message

/-- `status` for the name of a status. -/
def readStatus (name : CString) : Option ProcessState :=
  if stringCompare name (.ofString "READY") then some .ready
  else if stringCompare name (.ofString "PAUSED") then some .blocked
  else if stringCompare name (.ofString "WAITING") then some .blocked
  else none

namespace Kernel

section Commands

variable (image : Image) (before : ArgumentBuffer → Nat → Byte) (s : Kernel)

def spawnCommand (command : CString) : Outcome :=
  let (argc, arguments) := parseArguments before command
  if argc < 2 then { kernel := s, messages := [.spawnUsage] }
  else
    let arg1 := arguments.string .arg1
    let (newProcess, s) :=
      s.processCreateTest image (some arg1) (image.entryPoint .counter) .normal
    { kernel := s
      performed := [.createTest (some arg1) (image.entryPoint .counter) .normal]
      messages :=
        [.creating arg1, if newProcess ≠ null then .created else .createFailed, .newline] }

def pkillCommand (command : CString) : Outcome :=
  let (argc, arguments) := parseArguments before command
  if argc < 2 then { kernel := s, messages := [.pkillUsage] }
  else
    let arg1 := arguments.string .arg1
    let (pid, pidstr) := readPid arg1 0
    if pid = 0 ∨ pidstr.headD 0 ≠ 0 then { kernel := s, messages := [.invalidPidFormat] }
    else
      let (result, s) := s.processKillByPid image pid
      { kernel := s
        performed := [.killByPid pid]
        messages :=
          [.killing arg1,
            if result = processSuccess then .killed
            else if result = processProtected then .protectedProcess
            else if result = processNotFound then .processNotFound
            else .killFailed,
            .newline] }

def pstatusCommand (command : CString) : Outcome :=
  let (argc, arguments) := parseArguments before command
  if argc < 3 then { kernel := s, messages := [.pstatusUsage] }
  else
    let arg1 := arguments.string .arg1
    let arg2 := arguments.string .arg2
    let (pid, pidstr) := readPid arg1 0
    if pid = 0 ∨ pidstr.headD 0 ≠ 0 then { kernel := s, messages := [.invalidPidFormat] }
    else
      match readStatus arg2 with
      | none => { kernel := s, messages := [.invalidStatus] }
      | some status =>
          let (result, s) := s.processSetStatus pid status
          { kernel := s
            performed := [.setStatus pid status]
            messages :=
              [.setting arg1 arg2, if result ≠ 0 then .updated else .updateFailed, .newline] }

/-- The test is for a result other than 0, and a failed `sys_fork` returns -1. -/
def forkCommand : Outcome :=
  let (childPid, s) := s.sysFork image
  { kernel := s
    performed := [.fork]
    messages :=
      [.forking, if childPid > 0 then .childCreated childPid else .forkFailed, .newline] }

def execCommand (command : CString) : Outcome :=
  let programName := command.drop 5
  let (result, s) := s.sysExec image (some programName)
  { kernel := s
    performed := [.exec (some programName)]
    messages :=
      [.executing programName, if result = 0 then .executed else .execFailed, .newline] }

/-- The character with code 1 is refused, not the digit. -/
def pchCommand (command : CString) : Outcome :=
  if command.getD 4 0 = 1 then { kernel := s, messages := [.cannotSwitch] }
  else
    match stringToUint32 (some (command.drop 4)) (some 0) with
    | (true, some pid) =>
        { kernel := s.changeCurrentProcess pid
          performed := [.changeCurrent pid]
          messages := [.newline] }
    | _ => { kernel := s, messages := [.invalidPid, .newline] }

/--
`process_command`.  The arrays of a branch are uninitialised locals, and
`saved` is the CPU state that a switch by `schedule` finds.
-/
def processCommand (saved : CpuState) (command : CString) : Outcome :=
  match shellCommand command with
  | .spawn => s.spawnCommand image before command
  | .pkill => s.pkillCommand image before command
  | .pstatus => s.pstatusCommand before command
  | .fork => s.forkCommand image
  | .exec => s.execCommand image command
  | .getpid => { kernel := s, messages := [.currentPid s.sysGetpid, .newline] }
  | .schedule =>
      { kernel := s.schedule saved
        performed := [.schedule saved]
        messages := [.triggering, .scheduled, .newline] }
  | .pch => s.pchCommand command
  | .unknown => { kernel := s, messages := [.unknown command, .newline] }
  | .help => { kernel := s, messages := [.newline] }
  | .about => { kernel := s, messages := [.newline] }
  | .status => { kernel := s, messages := [.newline] }
  | .memory => { kernel := s, messages := [.newline] }
  | .clear => { kernel := s, messages := [.newline] }
  | .version => { kernel := s, messages := [.newline] }
  | .keytest => { kernel := s, messages := [.newline] }
  | .ps => { kernel := s, messages := [.newline] }
  | .proc => { kernel := s, messages := [.newline] }
  | .sysinfo => { kernel := s, messages := [.newline] }

end Commands

end Kernel

/-! ## The words of a command -/

section CommandWords

variable {name command : CString}

/-- One test of the chain that chooses the branch. -/
theorem word_ite {test : Bool} {first second : ShellCommand}
    (takes : (if test then first else second).word = some name) :
    (test = true ∧ first.word = some name) ∨ second.word = some name := by
  cases test with
  | true => exact Or.inl ⟨rfl, takes⟩
  | false => exact Or.inr takes

theorem isCommandWord_of_shellCommand (takes : (shellCommand command).word = some name) :
    isCommandWord name command = true := by
  unfold shellCommand at takes
  -- nine commands without arguments, the three with them, and the rest
  iterate 9
    obtain ⟨_, other⟩ | takes := word_ite takes
    · cases other
  obtain ⟨spawn, same⟩ | takes := word_ite takes
  · cases same
    exact spawn
  obtain ⟨pkill, same⟩ | takes := word_ite takes
  · cases same
    exact pkill
  obtain ⟨pstatus, same⟩ | takes := word_ite takes
  · cases same
    exact pstatus
  iterate 6
    obtain ⟨_, other⟩ | takes := word_ite takes
    · cases other
  cases takes

/-- A name without NUL is found at the front. -/
theorem append_of_getD (nonzero : 0 ∉ name)
    (same : ∀ index < name.length, command.getD index 0 = name.getD index 0) :
    name ++ command.drop name.length = command := by
  induction name generalizing command with
  | nil => rfl
  | cons char rest ih =>
      have first := same 0 (Nat.zero_lt_succ _)
      cases command with
      | nil =>
          obtain rfl : (0 : Byte) = char := first
          exact absurd List.mem_cons_self nonzero
      | cons other later =>
          obtain rfl : other = char := first
          refine congrArg (List.cons other) (ih (fun inside => ?_) fun index bound => ?_)
          · exact nonzero (List.mem_cons_of_mem other inside)
          · exact same (index + 1) (Nat.succ_lt_succ bound)

/-- A command that begins with a name has that name as its first word. -/
theorem words_of_isCommandWord (line : 0 ∉ command) (named : isCommandWord name command = true)
    (nonempty : name ≠ []) (token : ∀ char ∈ name, isTokenChar char = true) :
    words isSpace command = name :: words isSpace (command.drop name.length) := by
  obtain ⟨chars, stop⟩ := Bool.and_eq_true_iff.mp named
  have nonzero : 0 ∉ name := fun inside => absurd (token 0 inside) (by decide)
  have front : name ++ command.drop name.length = command := by
    refine append_of_getD nonzero fun index bound => ?_
    exact beq_iff_eq.mp (List.all_eq_true.mp chars index (List.mem_range.mpr bound))
  have ends : ∀ char, (command.drop name.length).head? = some char → isSpace char = true := by
    intro char head
    have here : command.getD name.length 0 = char := by
      rw [List.head?_drop] at head
      rw [List.getD_eq_getElem?_getD, head]
      rfl
    have inside : char ∈ command := (List.drop_sublist _ _).mem (List.mem_of_mem_head? head)
    rw [here] at stop
    cases Bool.or_eq_true_iff.mp stop with
    | inl isSpace => exact isSpace
    | inr isZero => exact absurd (beq_iff_eq.mp isZero ▸ inside) line
  have run := words_run isSpace nonempty (fun char inside => ?_) ends
  · rwa [front] at run
  · have visible := token char inside
    simp only [isTokenChar, decide_eq_true_eq] at visible
    exact beq_eq_false_iff_ne.mpr visible.2

end CommandWords

namespace Kernel

section Performed

variable (image : Image) (before : ArgumentBuffer → Nat → Byte) (s : Kernel)

theorem spawnCommand_kernel (command : CString) :
    (s.spawnCommand image before command).kernel =
      run (step image) s (s.spawnCommand image before command).performed := by
  unfold spawnCommand
  dsimp only
  split <;> rfl

theorem pkillCommand_kernel (command : CString) :
    (s.pkillCommand image before command).kernel =
      run (step image) s (s.pkillCommand image before command).performed := by
  unfold pkillCommand
  dsimp only
  split
  · rfl
  · split <;> rfl

theorem pstatusCommand_kernel (command : CString) :
    (s.pstatusCommand before command).kernel =
      run (step image) s (s.pstatusCommand before command).performed := by
  unfold pstatusCommand
  dsimp only
  split
  · rfl
  · split
    · rfl
    · split <;> rfl

theorem pchCommand_kernel (command : CString) :
    (s.pchCommand command).kernel = run (step image) s (s.pchCommand command).performed := by
  unfold pchCommand
  split
  · rfl
  · split <;> rfl

/-- A command changes the state by the operations it performs, and in no other way. -/
theorem processCommand_kernel (saved : CpuState) (command : CString) :
    (s.processCommand image before saved command).kernel =
      run (step image) s (s.processCommand image before saved command).performed := by
  unfold processCommand
  split
  · exact s.spawnCommand_kernel image before command
  · exact s.pkillCommand_kernel image before command
  · exact s.pstatusCommand_kernel image before command
  · rfl
  · rfl
  · rfl
  · rfl
  · exact s.pchCommand_kernel image command
  all_goals rfl

end Performed

end Kernel

end SimpleOS
