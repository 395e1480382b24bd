import Mathlib.Tactic.IntervalCases
import SimpleOS.Library.ByteMemory

/-!
# The process control block

`process_t` of `process.h` with its enumerations and constants, the C strings
the process code reads, and the word layout of the record in memory.  Every
field is a 32-bit word except the 64-byte name, so the record is 67 words.
-/

namespace SimpleOS

open Library.ByteMemory

/-- The NULL pointer. -/
def null : Word := 0

/-- `process_state_t`; any other stored code is what `process_list_all` prints as UNKNOWN. -/
inductive ProcessState where
  | ready
  | running
  | blocked
  | terminated
  | unknown (code : Word) (outside : 3 < code.toNat)
  deriving DecidableEq

namespace ProcessState

def code : ProcessState → Word
  | ready => 0
  | running => 1
  | blocked => 2
  | terminated => 3
  | unknown code _ => code

def ofCode (code : Word) : ProcessState :=
  if outside : 3 < code.toNat then unknown code outside
  else if code = 0 then ready
  else if code = 1 then running
  else if code = 2 then blocked
  else terminated

@[simp] theorem ofCode_code (state : ProcessState) : ofCode state.code = state := by
  cases state with
  | unknown code outside => simp [ofCode, ProcessState.code, outside]
  | _ => rfl

end ProcessState

/-- `process_priority_t`. -/
inductive ProcessPriority where
  | high
  | normal
  | low
  | unknown (code : Word) (outside : 2 < code.toNat)
  deriving DecidableEq

namespace ProcessPriority

def code : ProcessPriority → Word
  | high => 0
  | normal => 1
  | low => 2
  | unknown code _ => code

def ofCode (code : Word) : ProcessPriority :=
  if outside : 2 < code.toNat then unknown code outside
  else if code = 0 then high
  else if code = 1 then normal
  else low

@[simp] theorem ofCode_code (priority : ProcessPriority) : ofCode priority.code = priority := by
  cases priority with
  | unknown code outside => simp [ofCode, ProcessPriority.code, outside]
  | _ => rfl

end ProcessPriority

/-- `cpu_state_t`. -/
structure CpuState where
  eax : Word := 0
  ebx : Word := 0
  ecx : Word := 0
  edx : Word := 0
  esi : Word := 0
  edi : Word := 0
  esp : Word := 0
  ebp : Word := 0
  eip : Word := 0
  eflags : Word := 0
  cs : Word := 0
  ds : Word := 0
  es : Word := 0
  fs : Word := 0
  gs : Word := 0
  ss : Word := 0
  deriving DecidableEq

/-- `process_t`; pointers are addresses, and the defaults are cleared memory. -/
structure Process where
  pid : Word := 0
  parentPid : Word := 0
  name : Nat → Byte := fun _ => 0
  state : ProcessState := .ready
  priority : ProcessPriority := .high
  exitCode : Word := 0
  cpuState : CpuState := {}
  pageDirectory : Word := null
  stackBase : Word := 0
  stackSize : Word := 0
  heapBase : Word := 0
  heapSize : Word := 0
  memoryUsed : Word := 0
  timeSlice : Word := 0
  totalRuntime : Word := 0
  sleepUntil : Word := 0
  fileDescriptors : Nat → Word := fun _ => null
  parent : Word := null
  children : Word := null
  nextChild : Word := null
  next : Word := null
  prev : Word := null

/-- A cleared record, as static storage holds it and `memset` leaves it. -/
def Process.cleared : Process := {}

/-- The fields that say who a process is and what memory it owns. -/
structure Process.Identity where
  pid : Word
  parentPid : Word
  stackBase : Word
  stackSize : Word
  heapBase : Word
  deriving DecidableEq

def Process.identity (process : Process) : Process.Identity where
  pid := process.pid
  parentPid := process.parentPid
  stackBase := process.stackBase
  stackSize := process.stackSize
  heapBase := process.heapBase

def maxProcesses : Nat := 256
def defaultTimeSlice : Word := 10
def stackSizeDefault : Nat := 4096

/-- `sizeof(process_t)`. -/
def processSize : Nat := 268

/-! ## C strings -/

/-- The bytes of a C string before its NUL; reading past the list reads NUL. -/
abbrev CString := List Byte

/-- The bytes of a string literal. -/
def CString.ofString (text : String) : CString :=
  text.toList.map fun char => BitVec.ofNat 8 char.toNat

/-- `strcmp`, structurally on the first string: stop at its NUL or at the first difference. -/
def strcmp : CString → CString → Int
  | [], second => - (second.headD 0).toNat
  | char :: rest, second =>
      if char ≠ 0 ∧ char = second.headD 0 then strcmp rest second.tail
      else (char.toNat : Int) - (second.headD 0).toNat

/--
The copy loop `for (i = 0; i < 63 && name && name[i] != '\0'; i++)`, started at
`index`: the destination array and the index where the loop stops.
-/
def copyName : CString → Nat → (Nat → Byte) → (Nat → Byte) × Nat
  | [], index, target => (target, index)
  | char :: rest, index, target =>
      if index < 63 ∧ char ≠ 0 then
        copyName rest (index + 1) (Function.update target index char)
      else (target, index)

/-- `string_copy(dest, src)`: no bound is checked. -/
def stringCopy : CString → Nat → (Nat → Byte) → (Nat → Byte)
  | [], index, target => Function.update target index 0
  | char :: rest, index, target =>
      if char ≠ 0 then stringCopy rest (index + 1) (Function.update target index char)
      else Function.update target index 0

/-- The string a name array holds, as far as a loop bounded by 63 reads it. -/
def Process.nameString (process : Process) : CString :=
  (List.range 63).map process.name

/-! ## The record in memory -/

/-- The 67 words of a record, in the order of the declaration. -/
def Process.words (process : Process) : List Word :=
  [process.pid, process.parentPid] ++
  (List.range 16).map (fun index => ofBytes fun byte => process.name (4 * index + byte)) ++
  [process.state.code, process.priority.code, process.exitCode,
    process.cpuState.eax, process.cpuState.ebx, process.cpuState.ecx, process.cpuState.edx,
    process.cpuState.esi, process.cpuState.edi, process.cpuState.esp, process.cpuState.ebp,
    process.cpuState.eip, process.cpuState.eflags, process.cpuState.cs, process.cpuState.ds,
    process.cpuState.es, process.cpuState.fs, process.cpuState.gs, process.cpuState.ss,
    process.pageDirectory, process.stackBase, process.stackSize, process.heapBase,
    process.heapSize, process.memoryUsed, process.timeSlice, process.totalRuntime,
    process.sleepUntil] ++
  (List.range 16).map process.fileDescriptors ++
  [process.parent, process.children, process.nextChild, process.next, process.prev]

/-- Byte `offset` of the record. -/
def Process.byte (process : Process) (offset : Nat) : Byte :=
  byteOf (process.words.getD (offset / 4) 0) (offset % 4)

/-- The record that 268 bytes of memory are read as. -/
def Process.ofMemory (bytes : Nat → Byte) : Process :=
  let word index := ofBytes fun byte => bytes (4 * index + byte)
  { pid := word 0
    parentPid := word 1
    name := fun index => if index < 64 then bytes (8 + index) else 0
    state := .ofCode (word 18)
    priority := .ofCode (word 19)
    exitCode := word 20
    cpuState :=
      { eax := word 21, ebx := word 22, ecx := word 23, edx := word 24
        esi := word 25, edi := word 26, esp := word 27, ebp := word 28
        eip := word 29, eflags := word 30, cs := word 31, ds := word 32
        es := word 33, fs := word 34, gs := word 35, ss := word 36 }
    pageDirectory := word 37
    stackBase := word 38
    stackSize := word 39
    heapBase := word 40
    heapSize := word 41
    memoryUsed := word 42
    timeSlice := word 43
    totalRuntime := word 44
    sleepUntil := word 45
    fileDescriptors := fun index => if index < 16 then word (46 + index) else 0
    parent := word 62
    children := word 63
    nextChild := word 64
    next := word 65
    prev := word 66 }

/-- Reading four consecutive bytes of a record gives back the word they belong to. -/
theorem Process.word_byte (process : Process) (index : Nat) :
    (ofBytes fun byte => process.byte (4 * index + byte)) = process.words.getD index 0 := by
  refine (ofBytes_congr ?_).trans (ofBytes_byteOf (process.words.getD index 0))
  intro byte bound
  rw [Process.byte, show (4 * index + byte) / 4 = index by omega,
    show (4 * index + byte) % 4 = byte by omega]

theorem Process.words_name (process : Process) {index : Nat} (bound : index < 16) :
    process.words.getD (2 + index) 0 = ofBytes fun byte => process.name (4 * index + byte) := by
  interval_cases index <;> rfl

theorem Process.words_fileDescriptors (process : Process) {index : Nat} (bound : index < 16) :
    process.words.getD (46 + index) 0 = process.fileDescriptors index := by
  interval_cases index <;> rfl

/-- The bytes of the name array inside the record. -/
theorem Process.byte_name (process : Process) {index : Nat} (bound : index < 64) :
    process.byte (8 + index) = process.name index := by
  rw [Process.byte, show (8 + index) / 4 = 2 + index / 4 by omega,
    process.words_name (by omega), byteOf_ofBytes _ (by omega)]
  congr 1
  omega

/-- A record survives being written to memory and read back, array bounds respected. -/
theorem Process.ofMemory_byte (process : Process) :
    Process.ofMemory process.byte =
      { process with
        name := fun index => if index < 64 then process.name index else 0
        fileDescriptors := fun index =>
          if index < 16 then process.fileDescriptors index else 0 } := by
  have name : (fun index => if index < 64 then process.byte (8 + index) else 0) =
      fun index => if index < 64 then process.name index else 0 := by
    funext index
    split
    · next bound => exact process.byte_name bound
    · rfl
  have files : (fun index => if index < 16 then process.words.getD (46 + index) 0 else 0) =
      fun index => if index < 16 then process.fileDescriptors index else 0 := by
    funext index
    split
    · next bound => exact process.words_fileDescriptors bound
    · rfl
  simp only [Process.ofMemory, Process.word_byte, name, files]
  simp [Process.words]

end SimpleOS
