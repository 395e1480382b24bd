import SimpleOS.Kernel.Names
import SimpleOS.Kernel.Numbers
import SimpleOS.Kernel.Programs

/-!
# What the process manager prints

The calls of the screen driver that the routines of `process.c` and
`syscalls.c` make, in the state they are called in, and the two reports on
processes.
-/

namespace SimpleOS

open Library.ByteMemory Message

/-- `vga_putchar` for each character. -/
def putchars (chars : List Byte) : List Vga.Call := chars.map .putchar

namespace Kernel

section Routines

variable (image : Image) (s : Kernel)

def processCreateTestCalls : List Vga.Call :=
  text "Creating process without kmalloc...\n" ::
    if 10 ≤ s.testCount then [text "ERROR: Too many processes\n"]
    else
      [text "Initializing process data...\n", text "Setting up CPU state...\n",
        text "Process created successfully with static memory!\n"]

def processKillByPidCalls (pid : Word) : List Vga.Call :=
  if pid = 1 then [text "ERROR: PID 1 is protected - cannot kill kernel process!\n"]
  else
    let process := s.processFindByPid pid
    if process = null then []
    else if process = s.kernelProcess then
      [text "ERROR: Cannot kill kernel_idle process - system critical!\n"]
    else if process = s.currentProcess ∧ s.currentProcess = s.kernelProcess then
      [text "ERROR: Cannot kill the running kernel process!\n"]
    else []

def changeCurrentProcessCalls (pid : Word) : List Vga.Call :=
  if pid = 1 then [text "ERROR: Cannot switch to kernel process (PID 1)\n"]
  else
    let process := s.processFindByPid pid
    if process = null then
      [text "ERROR: Process not found for PID: ", .printHex pid, text "\n"]
    else
      [text "Switched to process PID: ", .printHex pid, text " (Name: ",
        .print (s.process process).nameText, text ")\n"]

def execFindProgramCalls : List Vga.Call := [text "Trying to find program: ", text "\n"]

def sysExecCalls (program : Option CString) : List Vga.Call :=
  match program with
  | none => [text "EXEC: Invalid parameters\n"]
  | some program =>
      if s.currentProcess = null then [text "EXEC: Invalid parameters\n"]
      else
        execFindProgramCalls ++
          match execFindProgram program with
          | none => [text "EXEC: Program not found: ", .print program, text "\n"]
          | some found =>
              [text "EXEC: Replaced process ", .printHex (s.process s.currentProcess).pid,
                text " with program: ", .print program, text "\n"] ++ found.calls

def sysForkCalls : List Vga.Call :=
  if s.currentProcess = null then [] else s.processCreateTestCalls

def sysExitCalls (exitCode : Word) : List Vga.Call :=
  if s.currentProcess ≠ null then
    [text "Process ", .printHex (s.process s.currentProcess).pid, text " exited with code ",
      .printHex exitCode, text "\n"]
  else []

def sysKillCalls (pid signal : Word) : List Vga.Call :=
  if pid = 1 then [text "ERROR: Cannot kill PID 1 (kernel process) - system critical!\n"]
  else
    let target := s.processFindByPid pid
    if target = null then []
    else if target = s.kernelProcess then
      [text "ERROR: Cannot kill kernel_idle process - system critical!\n"]
    else if signal = 9 then [text "Killed process ", .printHex pid, text "\n"]
    else
      [text "Signal ", .printHex signal, text " sent to process ", .printHex pid, text "\n"]

/-- What an operation prints. -/
def opCalls : ProcessOp → List Vga.Call
  | .createTest _ _ _ => s.processCreateTestCalls
  | .fork => s.sysForkCalls
  | .exec program => s.sysExecCalls program
  | .exit _ exitCode => s.sysExitCalls exitCode
  | .processExit _ => []
  | .kill pid signal => s.sysKillCalls pid signal
  | .wait _ => []
  | .killByPid pid => s.processKillByPidCalls pid
  | .setStatus _ _ => []
  | .changeCurrent pid => s.changeCurrentProcessCalls pid
  | .schedule _ => []

end Routines

/-! ## Reports -/

/-- The state names; the `switch` of the `proc` command and of `process_print_info`. -/
def stateName : ProcessState → List Vga.Call
  | .ready => [text "READY"]
  | .running => [text "RUNNING"]
  | .blocked => [text "BLOCKED"]
  | .terminated => [text "TERMINATED"]
  | .unknown _ _ => []

/-- The `proc` command has a default case, `process_print_info` has none. -/
def stateNameOrUnknown : ProcessState → List Vga.Call
  | .unknown _ _ => [text "UNKNOWN"]
  | state => stateName state

def priorityName : ProcessPriority → List Vga.Call
  | .high => [text "HIGH"]
  | .normal => [text "NORMAL"]
  | .low => [text "LOW"]
  | .unknown _ _ => []

/-- The state column of `process_list_all`. -/
def stateColumn : ProcessState → String
  | .ready => "READY\t\t"
  | .running => "RUNNING\t\t"
  | .blocked => "BLOCKED\t\t"
  | .terminated => "TERMINATED\t"
  | .unknown _ _ => "UNKNOWN\t\t"

/-- `process_print_info` of a process that is not NULL. -/
def processPrintInfo (record : Process) : List Vga.Call :=
  [text "Process Info:\n", text "  PID: "] ++ putchars (twoDigits record.pid) ++
    [text "\n", text "  Name: ", .print record.nameText, text "\n", text "  State: "] ++
    stateName record.state ++ [text "\n", text "  Stack: "] ++
    (if record.stackBase ≠ 0 then
      [text "0x"] ++ putchars (hexLoop record.stackBase) ++ [text " ("] ++
        putchars (twoDigits (record.stackSize / 1024)) ++ [text "KB)"]
    else [text "None"]) ++
    [text "\n", text "  Entry Point: 0x"] ++ putchars (hexLoop record.cpuState.eip) ++ [text "\n"]

/-- The loop over the name stops at its NUL or after 12 characters. -/
def listedName (record : Process) : CString :=
  ((List.range 12).map record.name).takeWhile (· ≠ 0)

/-- A line of `process_list_all`; names are padded to 12 characters. -/
def listRow (record : Process) : List Vga.Call :=
  putchars (twoDigits record.pid) ++ [text "\t"] ++ putchars (listedName record) ++
    putchars (List.replicate (12 - (listedName record).length) space) ++ [text "\t"] ++
    [text (stateColumn record.state)] ++
    (if record.stackBase ≠ 0 then
      putchars (twoDigits (record.stackSize / 1024)) ++ [text "KB"]
    else [text "0KB"]) ++
    [text "\n"]

/-- The processes in the table, by their index. -/
def listed (s : Kernel) : List Nat :=
  (List.range maxProcesses).filter fun index => decide (s.processTable index ≠ null)

/-- `process_list_all`. -/
def processListAll (s : Kernel) : List Vga.Call :=
  [text "Process List:\n", text "PID\tNAME\t\tSTATE\t\tMEMORY\n",
      text "---\t----\t\t-----\t\t------\n"] ++
    s.listed.flatMap (fun index => listRow (s.process (s.processTable index))) ++
    (if s.listed.length = 0 then [text "(No processes)\n"] else [])

end Kernel

end SimpleOS
