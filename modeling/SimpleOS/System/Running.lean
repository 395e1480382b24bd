import SimpleOS.Kernel.Printing
import SimpleOS.Properties.ArgumentBuffers
import SimpleOS.Properties.HandOver

/-!
# The running system

`kernel_main` and the loops of `interactive_shell` and of the `keytest`
command, as one machine: it is fed with the bytes of the keyboard port, reads
lines through the driver, executes them, and calls the screen driver.  It is
followed until `schedule` hands the processor to another process, or until
`parse_arguments` writes behind one of its arrays on the stack.
-/

namespace SimpleOS

open Library.ByteMemory Library.GuardedRun Message

def vgaColorLightMagenta : Byte := 13

/-! ## What a command prints -/

/-- The messages that come before the call they announce. -/
def Message.announces : Message → Bool
  | creating _ => true
  | killing _ => true
  | setting _ _ => true
  | forking => true
  | executing _ => true
  | triggering => true
  | _ => false

namespace Kernel

/-- The `memory` command, up to the blank line. -/
def memoryCalls (s : Kernel) : List Vga.Call :=
  let used := s.heapCurrent - heapStart
  let total := heapEnd - heapStart
  coloured vgaColorLightBrown [text "Memory Information:\n"] ++
    [text "  Kernel loaded at: 0x1000\n", text "  Stack pointer: 0x90000\n",
      text "  VGA buffer: 0xB8000\n", text "  Available RAM: 128MB (QEMU)\n",
      text "  Heap start: 0x100000 (1MB)\n", text "  Heap size: 1MB\n", text "  Heap used: "] ++
    putchars (threeDigits (used / 1024)) ++ [text "KB / "] ++
    putchars (threeDigits (total / 1024)) ++ [text "KB\n"]

/-- The `proc` command. -/
def procCalls (s : Kernel) : List Vga.Call :=
  coloured vgaColorLightCyan [text "Current Process Information:\n"] ++
    if s.currentProcess ≠ null then
      let record := s.process s.currentProcess
      [text "  PID: ", .printHex record.pid, text "\n  Name: ", .print record.nameText,
          text "\n  State: "] ++ stateNameOrUnknown record.state ++
        [text "\n  Priority: "] ++ priorityName record.priority ++ [text "\n"]
    else [text "No current process (kernel mode)\n"]

/-- What the branch of a command prints on its own account. -/
def infoCalls (s : Kernel) : ShellCommand → List Vga.Call
  | .help =>
      coloured vgaColorLightCyan [text "Available Commands:\n"] ++
        [text "  help     - Show this help message\n", text "  about    - About SimpleOS\n",
          text "  status   - System status\n", text "  memory   - Memory information\n",
          text "  clear    - Clear screen\n", text "  version  - Show version info\n",
          text "  keytest  - Test enhanced keyboard features\n",
          text "  ps       - List all processes\n", text "  proc     - Current process info\n",
          text "  spawn <name>    - Create process with name\n",
          text "  pkill <pid>     - Kill process by PID\n",
          text "                    (Note: PID 1 kernel_idle is protected)\n",
          text "  pstatus <pid> <status> - Set process status (READY/PAUSED/WAITING)\n",
          text "  fork            - Fork current process\n",
          text "  exec <prog>     - Execute program\n",
          text "  getpid          - Get current process ID\n",
          text "  schedule        - Trigger manual scheduler\n",
          text "  sysinfo         - Show system protection info\n"]
  | .about =>
      coloured vgaColorLightMagenta [text "About SimpleOS:\n"] ++
        [text "SimpleOS is a custom operating system built\n",
          text "entirely from scratch using x86 assembly and C.\n",
          text "It features a custom bootloader, protected mode\n",
          text "kernel, and interactive command interface.\n"]
  | .status =>
      coloured vgaColorLightGreen [text "System Status:\n"] ++
        [text "  CPU Mode: 32-bit Protected Mode\n", text "  Memory: Initialized\n",
          text "  VGA: 80x25 Text Mode\n", text "  Interrupts: Disabled (safe mode)\n",
          text "  Shell: Active\n"]
  | .memory => s.memoryCalls
  | .clear => [.clear] ++ coloured vgaColorLightCyan [text "Screen cleared.\n"]
  | .version =>
      coloured vgaColorLightCyan [text "SimpleOS Version Information:\n"] ++
        [text "  Kernel: v1.2.2 - Enhanced Keyboard Driver with Special Characters\n",
          text "  Features: Caps Lock, Shift, Tab, Special chars, Full ASCII support\n",
          text "  Previous: v1.2.1 - Full Process Management with Context Switching\n",
          text "  Bootloader: v1.0\n", text "  Architecture: x86 (i386)\n",
          text "  Build: Custom from scratch\n"]
  | .keytest =>
      coloured vgaColorLightCyan [text "Enhanced Keyboard Test Mode:\n"] ++
        [text "Test these features:\n", text "  - Letters: abcdefghijklmnopqrstuvwxyz\n",
          text "  - Numbers: 1234567890\n", text "  - Shift+Numbers: !@#$%^&*()\n",
          text "  - Special chars: []\x7b\x7d\\|;:'\"<>,./?`~-=_+\n",
          text "  - Caps Lock (toggle with Caps Lock key)\n",
          text "  - Tab (inserts 4 spaces)\n", text "  - Backspace (deletes characters)\n",
          text "\nType anything to test, 'exit' to return:\n"]
  | .ps => coloured vgaColorLightCyan [text "Process List:\n"] ++ s.processListAll
  | .proc => s.procCalls
  | .sysinfo =>
      coloured vgaColorLightCyan [text "System Protection Information:\n"] ++
        [text "  Protected Processes:\n", text "    PID 1 (kernel_idle) - Cannot be killed\n",
          text "    Current kernel process - System critical\n", text "\n",
          text "  Security Features:\n", text "    - Kernel process protection enabled\n",
          text "    - Critical PID protection (PID 1)\n",
          text "    - Memory cleanup on process termination\n",
          text "    - Process state validation\n", text "\n", text "  Process Management:\n",
          text "    - Maximum processes: 256\n",
          text "    - Static memory allocation for safety\n",
          text "    - Context switching with timer interrupts\n",
          text "    - Preemptive scheduling at 100Hz\n"]
  | .spawn | .pkill | .pstatus | .fork | .exec | .getpid | .schedule | .pch | .unknown => []

/-- What the operations of a command print, each in the state it is performed in. -/
def performedCalls (image : Image) (s : Kernel) : List ProcessOp → List Vga.Call
  | [] => []
  | op :: rest => s.opCalls op ++ performedCalls image (s.step image op) rest

/-- What `process_command` prints for a command that returns to the shell. -/
def commandCalls (image : Image) (s : Kernel) (command : CString) (outcome : Outcome) :
    List Vga.Call :=
  [.setColor vgaColorWhite vgaColorBlack] ++ s.infoCalls (shellCommand command) ++
    (outcome.messages.takeWhile announces).flatMap Message.calls ++
    performedCalls image s outcome.performed ++
    (outcome.messages.dropWhile announces).flatMap Message.calls

end Kernel

/-! ## Starting up -/

/-- `timer_init`, which sets 100 Hz. -/
def timerInitCalls : List Vga.Call :=
  [text "  Initializing timer (PIT)...\n", text "  Timer initialized at ", .printHex 100,
    text " Hz\n"]

def processInitCalls : List Vga.Call :=
  [text "  Initializing process table...\n", text "  Process table initialized...\n",
    text "  Process management ready\n"]

def schedulerInitCalls : List Vga.Call :=
  [text "  Initializing scheduler...\n", text "  Scheduler ready\n"]

/-- `enable_process_execution`, in a state without a kernel process. -/
def enableProcessExecutionCalls (s : Kernel) : List Vga.Call :=
  [text "Enabling real process execution with context switching!\n"] ++
    (if s.kernelProcess = null then s.processCreateTestCalls else []) ++
    [text "Process execution enabled - ready for multitasking!\n"]

def showWelcomeScreenCalls : List Vga.Call :=
  [text "DEBUG: Starting welcome screen function\n",
    .setColor vgaColorLightCyan vgaColorBlack, text "========= SimpleOS =========\n\n",
    .setColor vgaColorWhite vgaColorBlack,
    text "Commands: help, about, status, memory, version, clear\n",
    text "Process:  ps, proc, spawn <name>, pkill <pid>, pstatus <pid> <status>\n", text "\n",
    .setColor vgaColorLightGreen vgaColorBlack, text "Try any command!\n\n",
    text "DEBUG: Welcome screen completed\n"]

/-- `kernel_main` after `vga_init`, up to the loop of `interactive_shell`. -/
def kernelMainCalls (image : Image) : List Vga.Call :=
  [.clear, text "SimpleOS Kernel Starting...\n", text "Initializing memory...\n",
      text "Initializing IDT...\n", text "Initializing timer...\n"] ++
    timerInitCalls ++
    [text "Initializing keyboard...\n", text "Initializing process management...\n"] ++
    processInitCalls ++ [text "Initializing scheduler...\n"] ++ schedulerInitCalls ++
    [text "Enabling process execution...\n"] ++
    enableProcessExecutionCalls (Kernel.loaded image).memoryInit.processInit.schedulerInit ++
    [text "Showing welcome screen...\n"] ++ showWelcomeScreenCalls ++
    [text "DEBUG: Welcome screen shown, starting shell...\n",
      .setColor vgaColorLightGrey vgaColorBlack, text "Starting interactive shell...\n\n"]

def printPromptCalls : List Vga.Call :=
  [.setColor vgaColorLightGreen vgaColorBlack, text "SimpleOS-v1.2.2",
    .setColor vgaColorWhite vgaColorBlack, text "> "]

/-! ## The machine -/

/--
Who waits for a line, or why the machine is not followed any further: control
was handed over, or a word of the line runs over the array it is copied to.
-/
inductive Mode where
  | shell
  | keytest
  | away
  | overrun
  deriving DecidableEq

/-- A byte of the port, with the stack garbage and the CPU state a command would find. -/
structure Input where
  byte : Byte
  before : ArgumentBuffer → Nat → Byte
  saved : CpuState

/-- The kernel, the driver with the call that is in progress, and all calls of the screen. -/
structure System where
  kernel : Kernel
  session : Session
  output : List Vga.Call
  mode : Mode

/-- A word of the command does not fit into its array. -/
def Overruns (before : ArgumentBuffer → Nat → Byte) (command : CString) : Prop :=
  ParsesArguments command ∧ ¬ (parseArguments before command).2.Below argumentBufferSize

instance (a : Arguments) (bound : Nat) : Decidable (a.Below bound) :=
  inferInstanceAs (Decidable (∀ place ∈ a.writes, place.2 < bound))

instance (before : ArgumentBuffer → Nat → Byte) (command : CString) :
    Decidable (Overruns before command) := inferInstanceAs (Decidable (_ ∧ ¬ _))

namespace System

def display (y : System) (calls : List Vga.Call) : System :=
  { y with output := y.output ++ calls }

/-- A step of the driver; its calls of the screen go behind the others. -/
def drive (y : System) (event : Session.Event) : System :=
  let session := { y.session with calls := [] }.step event
  { y with session, output := y.output ++ session.calls }

/-- The head of the loop of `interactive_shell`. -/
def prompt (y : System) : System := (y.display printPromptCalls).drive .call

/-- The head of the loop of `keytest`. -/
def keytestPrompt (y : System) : System :=
  (y.display (coloured vgaColorLightGreen [text "KeyTest> "])).drive .call

/-- After `kernel_main` has come to the loop of the shell. -/
def boot (image : Image) (keyboard : KeyboardState) : System :=
  prompt
    { kernel := .boot image
      session := .init keyboard
      output := kernelMainCalls image
      mode := .shell }

/--
`process_command`, and back to the prompt.  A command line with an overrunning
word is not performed: what it does depends on what lies behind the array.
-/
def execute (image : Image) (y : System) (input : Input) (command : CString) : System :=
  if Overruns input.before command then { y with mode := .overrun }
  else
    let outcome := y.kernel.processCommand image input.before input.saved command
    let finished : System :=
      { y.display (y.kernel.commandCalls image command outcome) with kernel := outcome.kernel }
    match shellCommand command with
    | .keytest =>
        -- the test loop is entered before the blank line
        let started := y.display
          ([.setColor vgaColorWhite vgaColorBlack] ++ y.kernel.infoCalls .keytest)
        keytestPrompt { started with mode := .keytest }
    | .schedule =>
        match y.kernel.transfer? input.saved with
        | some transfer =>
            let started := y.display
              ([.setColor vgaColorWhite vgaColorBlack] ++ triggering.calls)
            { started with kernel := transfer.kernel, mode := .away }
        | none => finished.prompt
    | _ => finished.prompt

/-- What `keytest` says about a line. -/
def typedCalls (line : CString) : List Vga.Call :=
  [text "You typed: '"] ++ coloured vgaColorLightBrown [.print line] ++ [text "' (length: "] ++
    putchars (twoDigits (BitVec.ofNat 32 line.length)) ++ [text ")\n"]

/-- A line in the loop of `keytest`. -/
def testLine (y : System) (line : CString) : System :=
  if stringCompare line (.ofString "exit") then
    let left := y.display [text "Keyboard test completed!\n", text "\n"]
    prompt { left with mode := .shell }
  else (y.display (typedCalls line)).keytestPrompt

/-- `keyboard_get_input` has returned a line. -/
def returned (image : Image) (y : System) (input : Input) (line : CString) : System :=
  match y.mode with
  | .shell => if line.length > 0 then y.execute image input line else y.prompt
  | .keytest => y.testLine line
  | .away => y
  | .overrun => y

/-- The port returns a byte. -/
def step (image : Image) (y : System) (input : Input) : System :=
  if y.mode = .shell ∨ y.mode = .keytest then
    let y := y.drive (.byte input.byte)
    if y.session.phase = .returned then y.returned image input y.session.keyboard.string else y
  else y

/-- The screen, when the memory held this before `vga_init`. -/
def screen (y : System) (memory : Nat → Cell) : Vga := run Vga.step (.init memory) y.output

end System

end SimpleOS
