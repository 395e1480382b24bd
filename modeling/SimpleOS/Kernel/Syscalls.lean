import SimpleOS.Kernel.Lifecycle

/-!
# System calls

`syscalls.c`: the six calls and their dispatcher.  A string argument is passed
as its bytes, or read from memory when it comes in a register; the exit code
of a reaped child is written through the caller's status pointer.
-/

namespace SimpleOS

open Library.ByteMemory Library.LinkedChain

def sysExitNumber : Word := 1
def sysForkNumber : Word := 2
def sysExecNumber : Word := 3
def sysWaitNumber : Word := 4
def sysGetpidNumber : Word := 5
def sysKillNumber : Word := 6

/-- `exec_find_program`. -/
def execFindProgram (program : CString) : Option Program :=
  if strcmp program (.ofString "hello") = 0 then some .hello
  else if strcmp program (.ofString "counter") = 0 then some .counter
  else if strcmp program (.ofString "calc") = 0 then some .calc
  else if strcmp program (.ofString "monitor") = 0 then some .monitor
  else none

/-- The bytes at an address, as far as comparing them with a program name reads. -/
def cstringAt (memory : Memory) (address : Word) : CString :=
  (List.range 64).map fun index => memory (address + BitVec.ofNat 32 index)

namespace Kernel

/-- `sys_exit`; the dequeue test comes after the state has been overwritten. -/
def sysExit (s : Kernel) (saved : CpuState) (exitCode : Word) : Kernel :=
  if s.currentProcess ≠ null then
    let s := s.setState s.currentProcess .terminated
    let s := s.setExitCode s.currentProcess exitCode
    let s :=
      if (s.process s.currentProcess).state = .ready then s.removeFromReadyQueue s.currentProcess
      else s
    let s := s.setCurrent null
    s.schedule saved
  else s

def sysFork (image : Image) (s : Kernel) : Word × Kernel :=
  if s.currentProcess = null then (-1, s)
  else
    let (child, s) := s.processCreateCopy image s.currentProcess
    if child = null then (-1, s)
    else
      let s := s.modify child fun record =>
        { record with parentPid := (s.process s.currentProcess).pid }
      let s := s.addToReadyQueue child
      ((s.process child).pid, s)

/-- Every known program prints, computes, and ends in `process_exit(0)`. -/
def runProgram (s : Kernel) : Program → Kernel
  | .hello => s.processExit 0
  | .counter => s.processExit 0
  | .calc => s.processExit 0
  | .monitor => s.processExit 0

/-- `sys_exec(program, argv)`; `none` is a NULL program, and `argv` is not read. -/
def sysExec (image : Image) (s : Kernel) (program : Option CString) : Int × Kernel :=
  match program with
  | none => (-1, s)
  | some program =>
      if s.currentProcess = null then (-1, s)
      else
        match execFindProgram program with
        | none => (-1, s)
        | some found =>
            let s := s.modify s.currentProcess fun record =>
              { record with
                cpuState :=
                  { record.cpuState with
                    eip := image.entryPoint found
                    eax := 0
                    ebx := 0
                    ecx := 0
                    edx := 0
                    esi := 0
                    edi := 0
                    esp := record.stackBase + record.stackSize - 4
                    ebp := record.stackBase + record.stackSize - 4 } }
            let s := s.modify s.currentProcess fun record =>
              { record with name := stringCopy program 0 record.name }
            (0, s.runProgram found)

/-- The test of the search loop in `sys_wait`. -/
def reapable (s : Kernel) (index : Nat) : Bool :=
  let proc := s.processTable index
  decide (proc ≠ null) &&
    decide ((s.process proc).parentPid = (s.process s.currentProcess).pid) &&
    decide ((s.process proc).state = .terminated)

/--
`*status = value`, unless the pointer is NULL.  Records and plain memory are
overwritten; the pointers followed here do not lead to the variables of the
kernel itself (`Image.Outside`).
-/
def storeStatus (image : Image) (s : Kernel) (status value : Word) : Kernel :=
  if status ≠ null then s.overwrite image (wordPatch status value) else s

/-- `sys_wait(status)`. -/
def sysWait (image : Image) (s : Kernel) (status : Word) : Word × Kernel :=
  if s.currentProcess = null then (-1, s)
  else
    match (List.range maxProcesses).find? s.reapable with
    | none => (0, s)
    | some index =>
        let proc := s.processTable index
        let childPid := (s.process proc).pid
        let s := s.storeStatus image status (s.process proc).exitCode
        (childPid, s.processCleanup proc)

def sysGetpid (s : Kernel) : Word :=
  if s.currentProcess ≠ null then (s.process s.currentProcess).pid else 0

def sysKill (s : Kernel) (pid signal : Word) : Int × Kernel :=
  if pid = 1 then (-1, s)
  else
    let target := s.processFindByPid pid
    if target = null then (-1, s)
    else if target = s.kernelProcess then (-1, s)
    else if signal = 9 then
      let s := s.setState target .terminated
      (0, s.setExitCode target (-1))
    else (0, s)

/-- `syscall_handler`; the results of `int` calls are converted to `uint32_t`. -/
def syscallHandler (image : Image) (s : Kernel) (saved : CpuState)
    (number arg1 arg2 _arg3 : Word) : Word × Kernel :=
  if number = sysExitNumber then (0, s.sysExit saved arg1)
  else if number = sysForkNumber then s.sysFork image
  else if number = sysExecNumber then
    let program := if arg1 = null then none else some (cstringAt (s.read image) arg1)
    let (result, s) := s.sysExec image program
    (BitVec.ofInt 32 result, s)
  else if number = sysWaitNumber then s.sysWait image arg1
  else if number = sysGetpidNumber then (s.sysGetpid, s)
  else if number = sysKillNumber then
    let (result, s) := s.sysKill arg1 arg2
    (BitVec.ofInt 32 result, s)
  else (-1, s)

/-! ## What the calls do -/

section Fork

variable (image : Image) (s : Kernel)

/-- A fork that fails changes nothing. -/
theorem sysFork_fails (refused : s.currentProcess = null ∨ 10 ≤ s.testCount) :
    s.sysFork image = (-1, s) := by
  by_cases noCurrent : s.currentProcess = null
  · rw [sysFork, if_pos noCurrent]
  · have full := refused.resolve_left noCurrent
    rw [sysFork, if_neg noCurrent, processCreateCopy, if_neg noCurrent]
    simp [processCreateTest_full image s full]

theorem sysFork_refused (refused : s.currentProcess = null ∨ 10 ≤ s.testCount) :
    (s.sysFork image).2 = s := by
  rw [sysFork_fails image s refused]

/-- The state in which `sys_fork` queues the child. -/
def adopted : Kernel :=
  (s.processCreateCopy image s.currentProcess).2.modify (image.testSlot s.testCount) fun record =>
    { record with
      parentPid := ((s.processCreateCopy image s.currentProcess).2.identity s.currentProcess).pid }

variable (nonnull : s.currentProcess ≠ null) (room : s.testCount < 10)

include nonnull room

/-- A fork is a copy, a parent, and an insertion. -/
theorem sysFork_room :
    (s.sysFork image).2 = (adopted image s).addToReadyQueue (image.testSlot s.testCount) := by
  have child := processCreateCopy_fst image s room s.currentProcess nonnull
  have current := processCreateCopy_currentProcess image s room s.currentProcess nonnull
  have childNonnull : image.testSlot s.testCount ≠ null := Image.testSlot_ne_null room
  rw [sysFork, if_neg nonnull]
  simp only [child, if_neg childNonnull, current]
  rfl

/-- A fork that creates a child returns its pid. -/
theorem sysFork_fst : (s.sysFork image).1 = BitVec.ofNat 32 (s.testCount + 1) := by
  have child := processCreateCopy_fst image s room s.currentProcess nonnull
  have childNonnull : image.testSlot s.testCount ≠ null := Image.testSlot_ne_null room
  have copy := processCreateCopy_identity image s room s.currentProcess nonnull
  rw [sysFork, if_neg nonnull]
  simp only [child, if_neg childNonnull]
  change ((Kernel.addToReadyQueue _ _).identity (image.testSlot s.testCount)).pid = _
  rw [addToReadyQueue_identity, modify_identity, Function.update_self]
  change ((s.processCreateCopy image s.currentProcess).2.identity
    (image.testSlot s.testCount)).pid = _
  rw [copy, Function.update_self]
  rfl

theorem sysFork_states :
    (s.sysFork image).2.states =
      Function.update s.states (image.testSlot s.testCount) .ready := by
  rw [sysFork_room image s nonnull room, addToReadyQueue_states, adopted, modify_states]
  refine (Function.update_eq_self _ _).trans ?_
  exact processCreateCopy_states image s room s.currentProcess nonnull

theorem sysFork_identity (other : s.currentProcess ≠ image.testSlot s.testCount) :
    (s.sysFork image).2.identity =
      Function.update s.identity (image.testSlot s.testCount)
        (image.newIdentity s.testCount (s.identity s.currentProcess).pid) := by
  have copy := processCreateCopy_identity image s room s.currentProcess nonnull
  rw [sysFork_room image s nonnull room, addToReadyQueue_identity, adopted, modify_identity]
  change Function.update (s.processCreateCopy image s.currentProcess).2.identity _
    { (s.processCreateCopy image s.currentProcess).2.identity (image.testSlot s.testCount) with
      parentPid := _ } = _
  rw [copy, Function.update_self, Function.update_of_ne other, Function.update_idem]
  rfl

theorem sysFork_links :
    (s.sysFork image).2.links =
      Links.append null
        { s.links with
          next := Function.update s.links.next (image.testSlot s.testCount) null
          prev := Function.update s.links.prev (image.testSlot s.testCount) null }
        (image.testSlot s.testCount) := by
  have childNonnull : image.testSlot s.testCount ≠ null := Image.testSlot_ne_null room
  have states := processCreateCopy_states image s room s.currentProcess nonnull
  have links := processCreateCopy_links image s room s.currentProcess nonnull
  rw [sysFork_room image s nonnull room, addToReadyQueue_eq _ childNonnull, withLinks_links,
    adopted, modify_links, links]
  · rfl
  · rfl
  · change ((Kernel.modify _ _ _).states (image.testSlot s.testCount)) = .ready
    rw [modify_states, Function.update_self]
    change ((s.processCreateCopy image s.currentProcess).2.states (image.testSlot s.testCount)) = _
    rw [states, Function.update_self]

theorem sysFork_registry :
    (s.sysFork image).2.registry =
      { s.registry with
        testCount := s.testCount + 1
        processTable := Function.update s.processTable (s.testCount + 1)
          (image.testSlot s.testCount) } := by
  rw [sysFork_room image s nonnull room, addToReadyQueue_registry, adopted, modify_registry]
  exact processCreateCopy_registry image s room s.currentProcess nonnull

theorem sysFork_currentProcess : (s.sysFork image).2.currentProcess = s.currentProcess := by
  rw [sysFork_room image s nonnull room, addToReadyQueue_currentProcess, adopted,
    modify_currentProcess]
  exact processCreateCopy_currentProcess image s room s.currentProcess nonnull

end Fork

section Exit

variable (s : Kernel) (saved : CpuState) (exitCode : Word)

/-- The state in which `sys_exit` calls `schedule`. -/
def exited : Kernel :=
  ((s.setState s.currentProcess .terminated).setExitCode s.currentProcess exitCode).setCurrent null

theorem sysExit_null (noCurrent : s.currentProcess = null) : s.sysExit saved exitCode = s := by
  rw [sysExit, if_neg (not_not.mpr noCurrent)]

/-- The dequeue test of `sys_exit` never succeeds. -/
theorem sysExit_eq (current : s.currentProcess ≠ null) :
    s.sysExit saved exitCode = (s.exited exitCode).schedule saved := by
  have notReady : ((s.setState s.currentProcess .terminated).setExitCode s.currentProcess
      exitCode).states s.currentProcess ≠ .ready := by
    simp
  rw [sysExit, if_pos current]
  exact congrArg (fun t : Kernel => (t.setCurrent null).schedule saved) (if_neg notReady)

@[simp] theorem exited_states :
    (s.exited exitCode).states = Function.update s.states s.currentProcess .terminated := by
  simp [exited]

@[simp] theorem exited_identity : (s.exited exitCode).identity = s.identity := by
  simp [exited]

@[simp] theorem exited_links : (s.exited exitCode).links = s.links := by
  simp [exited]

@[simp] theorem exited_registry : (s.exited exitCode).registry = s.registry := rfl

theorem exited_readyQueueHead : (s.exited exitCode).readyQueueHead = s.readyQueueHead :=
  congrArg Links.head (s.exited_links exitCode)

theorem exited_chosen : (s.exited exitCode).chosen = s.chosen := by
  rw [chosen, s.exited_readyQueueHead exitCode]
  rfl

@[simp] theorem exited_currentProcess : (s.exited exitCode).currentProcess = null := rfl

/-- Nobody is current when `sys_exit` schedules, so nobody is requeued. -/
theorem exited_requeueCurrent : (s.exited exitCode).requeueCurrent = s.exited exitCode :=
  requeueCurrent_of_not _ fun preempts => preempts.1 rfl

section Running

variable (current : s.currentProcess ≠ null)

include current

theorem sysExit_states_idle (empty : s.readyQueueHead = null) :
    (s.sysExit saved exitCode).states =
      Function.update s.states s.currentProcess .terminated := by
  rw [sysExit_eq s saved exitCode current, schedule_states_idle _ saved, exited_states]
  exact (s.exited_readyQueueHead exitCode).trans empty

theorem sysExit_states (nonempty : s.readyQueueHead ≠ null) :
    (s.sysExit saved exitCode).states =
      Function.update (Function.update s.states s.currentProcess .terminated)
        s.readyQueueHead .running := by
  have head := s.exited_readyQueueHead exitCode
  rw [sysExit_eq s saved exitCode current, schedule_states _ saved (head.symm ▸ nonempty),
    exited_requeueCurrent, exited_currentProcess, head, if_neg nonempty, exited_states]

theorem sysExit_links_idle (empty : s.readyQueueHead = null) :
    (s.sysExit saved exitCode).links = s.links := by
  rw [sysExit_eq s saved exitCode current, schedule_links_idle _ saved, exited_links]
  exact (s.exited_readyQueueHead exitCode).trans empty

theorem sysExit_links (nonempty : s.readyQueueHead ≠ null) :
    (s.sysExit saved exitCode).links = s.links.unlink null s.readyQueueHead := by
  have head := s.exited_readyQueueHead exitCode
  rw [sysExit_eq s saved exitCode current, schedule_links _ saved (head.symm ▸ nonempty),
    exited_requeueCurrent, exited_currentProcess, head, if_neg nonempty, exited_links]

theorem sysExit_currentProcess : (s.sysExit saved exitCode).currentProcess = s.chosen := by
  rw [sysExit_eq s saved exitCode current, schedule_currentProcess, exited_chosen]

end Running

end Exit

section Exec

variable (image : Image) (s : Kernel) (program : Option CString)

/-- The call runs a program: there is a current process and the program is known. -/
def Execs : Prop :=
  s.currentProcess ≠ null ∧ (program.bind execFindProgram).isSome = true

instance : Decidable (s.Execs program) := inferInstanceAs (Decidable (_ ∧ _))

theorem runProgram_eq (entry : Program) : s.runProgram entry = s.processExit 0 := by
  cases entry <;> rfl

theorem sysExec_refused (refused : ¬ s.Execs program) : (s.sysExec image program).2 = s := by
  cases program with
  | none => rfl
  | some program =>
      by_cases noCurrent : s.currentProcess = null
      · simp [sysExec, noCurrent]
      · cases found : execFindProgram program with
        | none => simp [sysExec, noCurrent, found]
        | some entry => exact absurd ⟨noCurrent, by simp [found]⟩ refused

/-- Running a program changes silent fields and ends in `process_exit`. -/
theorem sysExec_runs (execs : s.Execs program) :
    ∃ change, Silent change ∧
      (s.sysExec image program).2 = (s.modify s.currentProcess change).processExit 0 := by
  cases program with
  | none => exact absurd execs.2 (by simp)
  | some program =>
      cases found : execFindProgram program with
      | none => exact absurd execs.2 (by simp [found])
      | some entry =>
          simp only [sysExec, if_neg execs.1, found, runProgram_eq, modify_currentProcess,
            modify_modify]
          refine ⟨_, ?_, rfl⟩
          exact fun record => ⟨rfl, rfl, rfl, rfl⟩

end Exec

section Kill

variable (s : Kernel) (pid signal : Word)

/-- Signal 9 marks a process that the guards do not protect; all else changes nothing. -/
theorem sysKill_snd :
    (s.sysKill pid signal).2 =
      if s.Killable pid ∧ signal = 9 then
        (s.setState (s.processFindByPid pid) .terminated).setExitCode (s.processFindByPid pid) (-1)
      else s := by
  by_cases killable : s.Killable pid
  · rw [sysKill, if_neg killable.1]
    dsimp only
    rw [if_neg killable.2.1, if_neg killable.2.2]
    by_cases nine : signal = 9
    · rw [if_pos nine, if_pos ⟨killable, nine⟩]
    · rw [if_neg nine, if_neg fun both => nine both.2]
  · rw [if_neg fun both => killable both.1]
    unfold sysKill
    by_cases one : pid = 1
    · rw [if_pos one]
    · rw [if_neg one]
      dsimp only
      by_cases missing : s.processFindByPid pid = null
      · rw [if_pos missing]
      · have isKernel : s.processFindByPid pid = s.kernelProcess := by
          by_contra other
          exact killable ⟨one, missing, other⟩
        rw [if_neg missing, if_pos isKernel]

end Kill

section Wait

variable (image : Image) (s : Kernel)

/-- What storing an exit code in a word that is not the kernel's own leaves alone. -/
structure StatusFrame (image : Image) (before after : Kernel) : Prop where
  states : after.states = before.states
  identity : after.identity = before.identity
  links : after.links = before.links
  table : after.processTable = before.processTable
  kernel : after.kernelProcess = before.kernelProcess
  count : after.testCount = before.testCount
  current : after.currentProcess = before.currentProcess
  loaded : before.StacksLoaded image → after.StacksLoaded image

theorem storeStatus_frame {status : Word} (outside : status = null ∨ image.Outside status)
    (value : Word) : StatusFrame image s (s.storeStatus image status value) := by
  by_cases isNull : status = null
  · rw [storeStatus, if_neg (not_not.mpr isNull)]
    exact ⟨rfl, rfl, rfl, rfl, rfl, rfl, rfl, id⟩
  · obtain ⟨memory, written, same⟩ :=
      s.overwrite_outside image (outside.resolve_left isNull) value
    rw [storeStatus, if_pos isNull, written]
    refine ⟨rfl, rfl, rfl, rfl, rfl, rfl, rfl, fun loaded offset bound => ?_⟩
    exact (same offset bound).trans (loaded offset bound)

/-- A status word outside the records changes nothing but memory. -/
theorem storeStatus_offRecords {status : Word}
    (offRecords : status = null ∨ image.OffRecords status) (value : Word) :
    s.storeStatus image status value =
      { s with memory := if status = null then s.memory else store s.memory status value } := by
  by_cases isNull : status = null
  · rw [storeStatus, if_neg (not_not.mpr isNull), if_pos isNull]
  · rw [storeStatus, if_pos isNull, if_neg isNull,
      s.overwrite_offRecords image (offRecords.resolve_left isNull)]

/-- The process the next `sys_wait` reaps. -/
def reaped? : Option Word :=
  if s.currentProcess = null then none
  else ((List.range maxProcesses).find? s.reapable).map s.processTable

theorem sysWait_none (nothing : s.reaped? = none) (status : Word) :
    (s.sysWait image status).2 = s := by
  by_cases noCurrent : s.currentProcess = null
  · rw [sysWait, if_pos noCurrent]
  · rw [reaped?, if_neg noCurrent, Option.map_eq_none_iff] at nothing
    rw [sysWait, if_neg noCurrent, nothing]

theorem sysWait_some {proc : Word} (reaps : s.reaped? = some proc) (status : Word) :
    (s.sysWait image status).2 =
      (s.storeStatus image status (s.process proc).exitCode).processCleanup proc := by
  have current : s.currentProcess ≠ null := by
    intro noCurrent
    rw [reaped?, if_pos noCurrent] at reaps
    cases reaps
  rw [reaped?, if_neg current] at reaps
  obtain ⟨index, found, same⟩ := Option.map_eq_some_iff.mp reaps
  subst same
  rw [sysWait, if_neg current, found]

/-- A reaped process is a registered, terminated child of the current process. -/
theorem reaped?_spec {proc : Word} (reaps : s.reaped? = some proc) :
    s.currentProcess ≠ null ∧ ∃ index < maxProcesses, s.processTable index = proc ∧ proc ≠ null ∧
      (s.identity proc).parentPid = (s.identity s.currentProcess).pid ∧
      s.states proc = .terminated := by
  have current : s.currentProcess ≠ null := by
    intro noCurrent
    rw [reaped?, if_pos noCurrent] at reaps
    cases reaps
  rw [reaped?, if_neg current] at reaps
  obtain ⟨index, found, same⟩ := Option.map_eq_some_iff.mp reaps
  have passes := List.find?_some found
  have inside := List.mem_range.mp (List.mem_of_find?_eq_some found)
  simp only [reapable, Bool.and_eq_true, decide_eq_true_eq] at passes
  subst same
  exact ⟨current, index, inside, rfl, passes.1.1, passes.1.2, passes.2⟩

theorem sysWait_fst {proc : Word} (reaps : s.reaped? = some proc) (status : Word) :
    (s.sysWait image status).1 = (s.process proc).pid := by
  have current := (s.reaped?_spec reaps).1
  rw [reaped?, if_neg current] at reaps
  obtain ⟨index, found, same⟩ := Option.map_eq_some_iff.mp reaps
  subst same
  rw [sysWait, if_neg current, found]

/-- A wait with a pointer off the records leaves the exit code of the reaped child there. -/
theorem sysWait_stored {status child : Word} (offRecords : image.OffRecords status)
    (nonnull : status ≠ null) (reaps : s.reaped? = some child) :
    load ((s.sysWait image status).2.read image) status = (s.process child).exitCode := by
  obtain ⟨_, _, _, _, childNonnull, _⟩ := s.reaped?_spec reaps
  rw [read_offRecords offRecords, s.sysWait_some image reaps, processCleanup_memory _ childNonnull,
    s.storeStatus_offRecords image (Or.inr offRecords)]
  dsimp only
  rw [if_neg nonnull, load_store_same]

/-- A wait unlinks the child it reaps. -/
theorem sysWait_links {status child : Word}
    (offRecords : status = null ∨ image.OffRecords status) (reaps : s.reaped? = some child) :
    (s.sysWait image status).2.links = s.links.unlink null child := by
  obtain ⟨_, _, _, _, nonnull, _⟩ := s.reaped?_spec reaps
  rw [s.sysWait_some image reaps, processCleanup_links _ nonnull,
    s.storeStatus_offRecords image offRecords]
  rfl

end Wait

end Kernel

end SimpleOS
