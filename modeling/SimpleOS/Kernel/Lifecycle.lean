import SimpleOS.Kernel.Allocator
import SimpleOS.Kernel.Schedule

/-!
# Creating and tearing down processes

The other operations of `process.c`: the two creation routines with their own
static arrays and counters, the copy made for a fork, and the routines that
kill, destroy or clean up a process.
-/

namespace SimpleOS

open Library.ByteMemory Library.LinkedChain

def processSuccess : Int := 1
def processNotFound : Int := 0
def processProtected : Int := -1

/-- The assignments both creation routines make, apart from the name. -/
def Process.initialise (record : Process) (pid entryPoint stack : Word)
    (priority : ProcessPriority) : Process :=
  { record with
    pid := pid
    parentPid := 0
    priority := priority
    state := .ready
    cpuState :=
      { record.cpuState with
        eip := entryPoint
        esp := stack + 4096 - 4
        eflags := 0x202
        cs := 0x08
        ds := 0x10
        es := 0x10
        fs := 0x10
        gs := 0x10
        ss := 0x10 }
    stackBase := stack
    stackSize := 4096
    heapBase := 0
    heapSize := 0
    timeSlice := defaultTimeSlice
    totalRuntime := 0
    sleepUntil := 0
    next := null
    prev := null
    parent := null
    children := null
    nextChild := null
    fileDescriptors := fun _ => null }

/-- The record `process_create` fills in; the terminating NUL of the name is not stored. -/
def Process.fillCreate (record : Process) (name : CString) (pid entryPoint stack : Word)
    (priority : ProcessPriority) : Process :=
  { record.initialise pid entryPoint stack priority with
    name := (copyName name 0 record.name).1 }

/-- The record `process_create_test` fills in; a NULL name is the empty one. -/
def Process.fillTest (record : Process) (name : Option CString) (pid entryPoint stack : Word)
    (priority : ProcessPriority) : Process :=
  let (copied, stop) := copyName (name.getD []) 0 record.name
  { record.initialise pid entryPoint stack priority with
    name := Function.update copied stop 0 }

/-- The identity `process_create_test` gives to its record number `index`. -/
def Image.newIdentity (image : Image) (index : Nat) (parentPid : Word) : Process.Identity where
  pid := BitVec.ofNat 32 (index + 1)
  parentPid := parentPid
  stackBase := image.testStack index
  stackSize := 4096
  heapBase := 0

namespace Kernel

/-! ## Booting -/

/-- The variables as the image is loaded. -/
def loaded (image : Image) : Kernel where
  processTable _ := null
  nextPid := 1
  readyQueueHead := null
  readyQueueTail := null
  currentProcess := null
  kernelProcess := null
  createCount := 0
  testCount := 0
  process _ := .cleared
  heapCurrent := heapStart
  memory := image.memory

def memoryInit (s : Kernel) : Kernel := { s with heapCurrent := heapStart }

def processInit (s : Kernel) : Kernel :=
  { s with
    processTable := fun index => if index < maxProcesses then null else s.processTable index
    currentProcess := null
    kernelProcess := null
    nextPid := 1
    readyQueueHead := null
    readyQueueTail := null }

def schedulerInit (s : Kernel) : Kernel :=
  { s with readyQueueHead := null, readyQueueTail := null }

/-! ## Creation -/

/-- `process_create`: the created record, or NULL. -/
def processCreate (image : Image) (s : Kernel) (name : Option CString) (entryPoint : Word)
    (priority : ProcessPriority) : Word × Kernel :=
  match name with
  | none => (null, s)
  | some name =>
      if 10 ≤ s.createCount then (null, s)
      else
        let process := image.createSlot s.createCount
        let (stack, s) := s.kmalloc image 4096
        if stack = null then (null, s)
        else
          let pid := BitVec.ofNat 32 (s.createCount + 1)
          let s := s.modify process fun record =>
            record.fillCreate name pid entryPoint stack priority
          let s := if pid.toNat < maxProcesses then s.setTable pid.toNat process else s
          (process, { s with createCount := s.createCount + 1 })

/-- `process_create_test`: the created record, or NULL. -/
def processCreateTest (image : Image) (s : Kernel) (name : Option CString) (entryPoint : Word)
    (priority : ProcessPriority) : Word × Kernel :=
  if 10 ≤ s.testCount then (null, s)
  else
    let process := image.testSlot s.testCount
    let stack := image.testStack s.testCount
    let pid := BitVec.ofNat 32 (s.testCount + 1)
    let s := s.modify process fun record =>
      record.fillTest name pid entryPoint stack priority
    let s := if pid.toNat < maxProcesses then s.setTable pid.toNat process else s
    (process, { s with testCount := s.testCount + 1 })

/-- `process_create_copy`: a record like the parent's that returns 0 from the fork. -/
def processCreateCopy (image : Image) (s : Kernel) (parent : Word) : Word × Kernel :=
  if parent = null then (null, s)
  else
    let record := s.process parent
    let (child, s) :=
      s.processCreateTest image (some record.nameString) record.cpuState.eip record.priority
    if child = null then (null, s)
    else
      let s := s.modify child fun record =>
        { record with cpuState := (s.process parent).cpuState }
      let s := s.modify child fun record =>
        { record with cpuState := { record.cpuState with eax := 0 } }
      let s := s.modify child fun record =>
        { record with memoryUsed := (s.process parent).memoryUsed }
      (child, s)

/-- `enable_process_execution` creates the kernel process unless there is one. -/
def enableProcessExecution (image : Image) (s : Kernel) : Kernel :=
  if s.kernelProcess = null then
    let (created, s) := s.processCreateTest image (some (.ofString "kernel_idle"))
      image.processIdleTask .low
    let s := { s with kernelProcess := created }
    if s.kernelProcess ≠ null then
      let s := s.setState s.kernelProcess .running
      s.setCurrent s.kernelProcess
    else s
  else s

/-- The state after the process part of `kernel_main`. -/
def boot (image : Image) : Kernel :=
  ((loaded image).memoryInit.processInit.schedulerInit).enableProcessExecution image

/-! ## Lookup and termination -/

def processFindByPid (s : Kernel) (pid : Word) : Word :=
  if maxProcesses ≤ pid.toNat then null else s.processTable pid.toNat

/-- `process_exit` only marks the current process; its exit code is not stored. -/
def processExit (s : Kernel) (_exitCode : Word) : Kernel :=
  if s.currentProcess ≠ null ∧ s.currentProcess ≠ s.kernelProcess then
    s.setState s.currentProcess .terminated
  else s

/-- Free the stack of a record and forget it. -/
def releaseStack (image : Image) (s : Kernel) (process : Word) : Kernel :=
  if (s.process process).stackBase ≠ 0 then
    (s.kfree image (s.process process).stackBase).modify process fun record =>
      { record with stackBase := 0, stackSize := 0 }
  else s

/-- Free the heap of a record and forget it. -/
def releaseHeap (image : Image) (s : Kernel) (process : Word) : Kernel :=
  if (s.process process).heapBase ≠ 0 then
    (s.kfree image (s.process process).heapBase).modify process fun record =>
      { record with heapBase := 0, heapSize := 0 }
  else s

def processKillByPid (image : Image) (s : Kernel) (pid : Word) : Int × Kernel :=
  if pid = 1 then (processProtected, s)
  else
    let process := s.processFindByPid pid
    if process = null then (processNotFound, s)
    else if process = s.kernelProcess then (processProtected, s)
    else if process = s.currentProcess ∧ s.currentProcess = s.kernelProcess then
      (processProtected, s)
    else
      let s := s.releaseStack image process
      let s := s.releaseHeap image process
      let s := s.setState process .terminated
      let s := if pid.toNat < maxProcesses then s.setTable pid.toNat null else s
      (processSuccess, s)

/-- `process_set_status`: the result is 1 when the status was stored. -/
def processSetStatus (s : Kernel) (pid : Word) (status : ProcessState) : Int × Kernel :=
  let process := s.processFindByPid pid
  if process = null then (0, s)
  else if status ≠ .ready ∧ status ≠ .blocked ∧ status ≠ .terminated then (0, s)
  else (1, s.setState process status)

/-- `process_destroy`; both blocks and the record itself go to `kfree`. -/
def processDestroy (image : Image) (s : Kernel) (process : Word) : Kernel :=
  if process = null then s
  else
    let s := s.removeFromReadyQueue process
    let s :=
      if (s.process process).stackBase ≠ 0 then s.kfree image (s.process process).stackBase
      else s
    let s :=
      if (s.process process).heapBase ≠ 0 then s.kfree image (s.process process).heapBase
      else s
    let s :=
      if (s.process process).pid.toNat < maxProcesses then
        s.setTable (s.process process).pid.toNat null
      else s
    s.kfree image process

/-- `process_cleanup`: unregister, unlink, and clear the record. -/
def processCleanup (s : Kernel) (process : Word) : Kernel :=
  if process = null then s
  else
    let s :=
      if (s.process process).pid.toNat < maxProcesses then
        s.setTable (s.process process).pid.toNat null
      else s
    let s := s.removeFromReadyQueue process
    s.modify process fun _ => .cleared

/-- `change_current_process` of the shell. -/
def changeCurrentProcess (s : Kernel) (pid : Word) : Kernel :=
  if pid = 1 then s
  else
    let process := s.processFindByPid pid
    if process = null then s
    else
      let s := s.setCurrent process
      s.setState s.currentProcess .running

/-! ## What creation does -/

section Creation

variable (image : Image) (s : Kernel)

/-- The assignments of the next `process_create` to its record. -/
def createdHere (name : CString) (entryPoint : Word) (priority : ProcessPriority)
    (record : Process) : Process :=
  record.fillCreate name (BitVec.ofNat 32 (s.createCount + 1)) entryPoint (s.heapCurrent + 4)
    priority

/-- With a free record and room in the heap, `process_create` fills in and registers the record. -/
theorem processCreate_room (free : s.createCount < 10)
    (room : s.heapCurrent.toNat + 4100 ≤ heapEnd.toNat) (nonnull : s.heapCurrent + 4 ≠ null)
    (name : CString) (entryPoint : Word) (priority : ProcessPriority) :
    s.processCreate image (some name) entryPoint priority =
      (image.createSlot s.createCount,
        { ((s.stackAllocated image).modify (image.createSlot s.createCount)
              (s.createdHere name entryPoint priority)).setTable (s.createCount + 1)
                (image.createSlot s.createCount) with
          createCount := s.createCount + 1 }) := by
  have pid : (BitVec.ofNat 32 ((s.stackAllocated image).createCount + 1)).toNat =
      s.createCount + 1 := by
    rw [BitVec.toNat_ofNat]
    exact Nat.mod_eq_of_lt (by change s.createCount + 1 < _; omega)
  have small : s.createCount + 1 < maxProcesses := by
    simp only [maxProcesses]
    omega
  rw [processCreate]
  simp only [if_neg (Nat.not_le.mpr free), kmalloc_stack image s room, if_neg nonnull, pid,
    if_pos small]
  rfl

/-- The first `process_create` with a name takes table entry 1, whatever it holds. -/
theorem processCreate_first (first : s.createCount = 0) (fresh : s.heapCurrent = heapStart)
    (name : CString) (entryPoint : Word) (priority : ProcessPriority) :
    (s.processCreate image (some name) entryPoint priority).2.processTable 1 =
        image.createSlot 0 ∧
      (s.processCreate image (some name) entryPoint priority).2.kernelProcess =
        s.kernelProcess := by
  rw [processCreate_room image s (by omega) (by rw [fresh]; decide) (by rw [fresh]; decide)]
  refine ⟨?_, rfl⟩
  rw [first]
  exact Function.update_self 1 (image.createSlot 0) s.processTable

/-- With ten processes created, creation fails and changes nothing. -/
theorem processCreateTest_full (full : 10 ≤ s.testCount) (name : Option CString)
    (entryPoint : Word) (priority : ProcessPriority) :
    s.processCreateTest image name entryPoint priority = (null, s) := by
  rw [processCreateTest, if_pos full]

theorem processCreateCopy_full (full : 10 ≤ s.testCount) (parent : Word) :
    (s.processCreateCopy image parent).1 = null := by
  rw [processCreateCopy]
  split
  · rfl
  · simp only [processCreateTest_full image s full, if_pos]

/-- The assignments of the next creation to its record. -/
def created (name : Option CString) (entryPoint : Word) (priority : ProcessPriority)
    (record : Process) : Process :=
  record.fillTest name (BitVec.ofNat 32 (s.testCount + 1)) entryPoint (image.testStack s.testCount)
    priority

variable (room : s.testCount < 10) (name : Option CString) (entryPoint : Word)
  (priority : ProcessPriority)

include room

/-- Otherwise it fills in the next static record and registers it. -/
theorem processCreateTest_room :
    s.processCreateTest image name entryPoint priority =
      (image.testSlot s.testCount,
        { (s.modify (image.testSlot s.testCount)
              (created image s name entryPoint priority)).setTable
              (s.testCount + 1) (image.testSlot s.testCount) with
          testCount := s.testCount + 1 }) := by
  have pid : (BitVec.ofNat 32 (s.testCount + 1)).toNat = s.testCount + 1 := by
    rw [BitVec.toNat_ofNat]
    exact Nat.mod_eq_of_lt (by omega)
  have small : s.testCount + 1 < maxProcesses := by
    simp only [maxProcesses]
    omega
  rw [processCreateTest, if_neg (by omega)]
  simp only [pid, if_pos small]
  rfl

theorem processCreateTest_states :
    (s.processCreateTest image name entryPoint priority).2.states =
      Function.update s.states (image.testSlot s.testCount) .ready := by
  rw [processCreateTest_room image s room]
  exact s.modify_states (image.testSlot s.testCount) (created image s name entryPoint priority)

theorem processCreateTest_identity :
    (s.processCreateTest image name entryPoint priority).2.identity =
      Function.update s.identity (image.testSlot s.testCount)
        (image.newIdentity s.testCount 0) := by
  rw [processCreateTest_room image s room]
  exact s.modify_identity (image.testSlot s.testCount) (created image s name entryPoint priority)

theorem processCreateTest_links :
    (s.processCreateTest image name entryPoint priority).2.links =
      { s.links with
        next := Function.update s.links.next (image.testSlot s.testCount) null
        prev := Function.update s.links.prev (image.testSlot s.testCount) null } := by
  rw [processCreateTest_room image s room]
  exact s.modify_links_update (image.testSlot s.testCount)
    (created image s name entryPoint priority)

theorem processCreateTest_registry :
    (s.processCreateTest image name entryPoint priority).2.registry =
      { s.registry with
        testCount := s.testCount + 1
        processTable := Function.update s.processTable (s.testCount + 1)
          (image.testSlot s.testCount) } := by
  rw [processCreateTest_room image s room]
  rfl

theorem processCreateTest_currentProcess :
    (s.processCreateTest image name entryPoint priority).2.currentProcess = s.currentProcess := by
  rw [processCreateTest_room image s room]
  rfl

variable (parent : Word) (nonnull : parent ≠ null)

include nonnull

/-- The state after the plain creation that a copy starts with. -/
def copied : Kernel :=
  (s.processCreateTest image (some (s.process parent).nameString)
    (s.process parent).cpuState.eip (s.process parent).priority).2

/-- A copy differs from a plain creation in fields that no invariant reads. -/
theorem processCreateCopy_room :
    ∃ change, Silent change ∧
      s.processCreateCopy image parent =
        (image.testSlot s.testCount,
          (copied image s parent).modify (image.testSlot s.testCount) change) := by
  have child : (s.processCreateTest image (some (s.process parent).nameString)
      (s.process parent).cpuState.eip (s.process parent).priority).1 =
        image.testSlot s.testCount := by
    rw [processCreateTest_room image s room]
  have childNonnull : image.testSlot s.testCount ≠ null := Image.testSlot_ne_null room
  rw [processCreateCopy, if_neg nonnull]
  simp only [child, if_neg childNonnull, modify_modify]
  refine ⟨_, ?_, rfl⟩
  exact fun record => ⟨rfl, rfl, rfl, rfl⟩

theorem processCreateCopy_fst :
    (s.processCreateCopy image parent).1 = image.testSlot s.testCount := by
  obtain ⟨_, _, copy⟩ := processCreateCopy_room image s room parent nonnull
  rw [copy]

theorem processCreateCopy_states :
    (s.processCreateCopy image parent).2.states =
      Function.update s.states (image.testSlot s.testCount) .ready := by
  obtain ⟨_, silent, copy⟩ := processCreateCopy_room image s room parent nonnull
  rw [copy]
  exact (modify_states_silent _ _ silent).trans (processCreateTest_states image s room _ _ _)

theorem processCreateCopy_identity :
    (s.processCreateCopy image parent).2.identity =
      Function.update s.identity (image.testSlot s.testCount)
        (image.newIdentity s.testCount 0) := by
  obtain ⟨_, silent, copy⟩ := processCreateCopy_room image s room parent nonnull
  rw [copy]
  exact (modify_identity_silent _ _ silent).trans (processCreateTest_identity image s room _ _ _)

theorem processCreateCopy_links :
    (s.processCreateCopy image parent).2.links =
      { s.links with
        next := Function.update s.links.next (image.testSlot s.testCount) null
        prev := Function.update s.links.prev (image.testSlot s.testCount) null } := by
  obtain ⟨_, silent, copy⟩ := processCreateCopy_room image s room parent nonnull
  rw [copy]
  exact (modify_links_silent _ _ silent).trans (processCreateTest_links image s room _ _ _)

theorem processCreateCopy_registry :
    (s.processCreateCopy image parent).2.registry =
      { s.registry with
        testCount := s.testCount + 1
        processTable := Function.update s.processTable (s.testCount + 1)
          (image.testSlot s.testCount) } := by
  obtain ⟨_, _, copy⟩ := processCreateCopy_room image s room parent nonnull
  rw [copy]
  exact processCreateTest_registry image s room _ _ _

theorem processCreateCopy_currentProcess :
    (s.processCreateCopy image parent).2.currentProcess = s.currentProcess := by
  obtain ⟨_, _, copy⟩ := processCreateCopy_room image s room parent nonnull
  rw [copy]
  exact processCreateTest_currentProcess image s room _ _ _

end Creation

/-! ## What termination does -/

section Lookup

variable (s : Kernel)

theorem processFindByPid_of_lt {pid : Word} (small : pid.toNat < maxProcesses) :
    s.processFindByPid pid = s.processTable pid.toNat :=
  if_neg (Nat.not_le.mpr small)

/-- A process found is registered at its index, which is in the table. -/
theorem lt_of_processFindByPid {pid : Word} (found : s.processFindByPid pid ≠ null) :
    pid.toNat < maxProcesses := by
  refine Nat.lt_of_not_le fun large => found ?_
  rw [processFindByPid, if_pos large]

/-- The process `process_exit` marks: the current one, unless it is the kernel process. -/
def Exits : Prop := s.currentProcess ≠ null ∧ s.currentProcess ≠ s.kernelProcess

instance : Decidable s.Exits := inferInstanceAs (Decidable (_ ∧ _))

theorem processExit_of_exits (exits : s.Exits) (exitCode : Word) :
    s.processExit exitCode = s.setState s.currentProcess .terminated := if_pos exits

theorem processExit_of_not (stays : ¬ s.Exits) (exitCode : Word) :
    s.processExit exitCode = s := if_neg stays

/-- The pid passes the guards that protect the kernel process. -/
def Killable (pid : Word) : Prop :=
  pid ≠ 1 ∧ s.processFindByPid pid ≠ null ∧ s.processFindByPid pid ≠ s.kernelProcess

instance (pid : Word) : Decidable (s.Killable pid) := inferInstanceAs (Decidable (_ ∧ _ ∧ _))

variable (image : Image) (pid : Word)

theorem processKillByPid_refused (refused : ¬ s.Killable pid) :
    (s.processKillByPid image pid).2 = s := by
  unfold processKillByPid
  by_cases one : pid = 1
  · rw [if_pos one]
  · rw [if_neg one]
    by_cases missing : s.processFindByPid pid = null
    · simp [missing]
    · have isKernel : s.processFindByPid pid = s.kernelProcess := by
        by_contra other
        exact refused ⟨one, missing, other⟩
      dsimp only
      rw [if_neg missing, if_pos isKernel]

/-- A kill releases both blocks, marks the process and clears its table entry. -/
theorem processKillByPid_of_killable (killable : s.Killable pid) :
    (s.processKillByPid image pid).2 =
      (((s.releaseStack image (s.processFindByPid pid)).releaseHeap image
        (s.processFindByPid pid)).setState (s.processFindByPid pid) .terminated).setTable
          pid.toNat null := by
  have small := s.lt_of_processFindByPid killable.2.1
  have notCurrent : ¬ (s.processFindByPid pid = s.currentProcess ∧
      s.currentProcess = s.kernelProcess) :=
    fun both => killable.2.2 (both.1.trans both.2)
  rw [processKillByPid, if_neg killable.1]
  dsimp only
  rw [if_neg killable.2.1, if_neg killable.2.2, if_neg notCurrent, if_pos small]

/-- `process->stack_base = 0; process->stack_size = 0;` -/
def dropStack (target : Word) : Kernel :=
  s.modify target fun record => { record with stackBase := 0, stackSize := 0 }

@[simp] theorem dropStack_states (target : Word) : (s.dropStack target).states = s.states := by
  rw [dropStack, modify_states]
  exact Function.update_eq_self target s.states

@[simp] theorem dropStack_links (target : Word) : (s.dropStack target).links = s.links :=
  s.modify_links target rfl rfl

@[simp] theorem dropStack_registry (target : Word) :
    (s.dropStack target).registry = s.registry := rfl
@[simp] theorem dropStack_currentProcess (target : Word) :
    (s.dropStack target).currentProcess = s.currentProcess := rfl

theorem dropStack_identity (target : Word) :
    (s.dropStack target).identity =
      Function.update s.identity target
        { s.identity target with stackBase := 0, stackSize := 0 } :=
  s.modify_identity target _

/-- A kill of a process with a stack whose release leaves the records alone, and without a heap. -/
theorem processKillByPid_killed (killable : s.Killable pid)
    (stack : (s.process (s.processFindByPid pid)).stackBase ≠ 0) {freed : Kernel}
    (frees : s.kfree image (s.process (s.processFindByPid pid)).stackBase = freed)
    (records : freed.process = s.process)
    (heap : (s.process (s.processFindByPid pid)).heapBase = 0) :
    (s.processKillByPid image pid).2 =
      ((freed.dropStack (s.processFindByPid pid)).setState
        (s.processFindByPid pid) .terminated).setTable pid.toNat null := by
  have stackReleased : s.releaseStack image (s.processFindByPid pid) =
      freed.dropStack (s.processFindByPid pid) := by
    rw [releaseStack, if_pos stack, frees]
    rfl
  have heapReleased : (freed.dropStack (s.processFindByPid pid)).releaseHeap image
      (s.processFindByPid pid) = freed.dropStack (s.processFindByPid pid) := by
    rw [releaseHeap, if_neg]
    rw [dropStack, modify_self, records]
    exact not_not.mpr heap
  rw [s.processKillByPid_of_killable image pid killable, stackReleased, heapReleased]

/-- `process_set_status` stores the status: the process exists and the status is a legal one. -/
def Settable (status : ProcessState) : Prop :=
  s.processFindByPid pid ≠ null ∧ (status = .ready ∨ status = .blocked ∨ status = .terminated)

instance (status : ProcessState) : Decidable (s.Settable pid status) :=
  inferInstanceAs (Decidable (_ ∧ _))

theorem processSetStatus_snd (status : ProcessState) :
    (s.processSetStatus pid status).2 =
      if s.Settable pid status then s.setState (s.processFindByPid pid) status else s := by
  unfold processSetStatus
  by_cases missing : s.processFindByPid pid = null
  · rw [if_neg fun settable : s.Settable pid status => settable.1 missing]
    simp [missing]
  · by_cases legal : status = .ready ∨ status = .blocked ∨ status = .terminated
    · rw [if_pos (show s.Settable pid status from ⟨missing, legal⟩)]
      rcases legal with rfl | rfl | rfl <;> simp [missing]
    · rw [if_neg fun settable : s.Settable pid status => legal settable.2]
      simp only [not_or] at legal
      simp [missing, legal]

/-- `change_current_process` switches: the process exists and its pid is not 1. -/
def Switchable : Prop := pid ≠ 1 ∧ s.processFindByPid pid ≠ null

instance : Decidable (s.Switchable pid) := inferInstanceAs (Decidable (_ ∧ _))

theorem changeCurrentProcess_eq :
    s.changeCurrentProcess pid =
      if s.Switchable pid then
        (s.setCurrent (s.processFindByPid pid)).setState (s.processFindByPid pid) .running
      else s := by
  unfold changeCurrentProcess
  by_cases one : pid = 1
  · rw [if_pos one, if_neg fun switchable : s.Switchable pid => switchable.1 one]
  · rw [if_neg one]
    by_cases missing : s.processFindByPid pid = null
    · rw [if_neg fun switchable : s.Switchable pid => switchable.2 missing]
      simp [missing]
    · rw [if_pos (show s.Switchable pid from ⟨one, missing⟩)]
      simp [missing]

end Lookup

section Cleanup

variable (s : Kernel) {process : Word} (nonnull : process ≠ null)

include nonnull

/-- A cleanup of a process with a pid inside the table. -/
theorem processCleanup_eq (small : (s.identity process).pid.toNat < maxProcesses) :
    s.processCleanup process =
      ((s.setTable (s.identity process).pid.toNat null).removeFromReadyQueue process).modify
        process fun _ => .cleared := by
  rw [processCleanup, if_neg nonnull]
  exact congrArg (fun t : Kernel => (t.removeFromReadyQueue process).modify process
    fun _ => .cleared) (if_pos small)

theorem processCleanup_states (small : (s.identity process).pid.toNat < maxProcesses) :
    (s.processCleanup process).states = Function.update s.states process .ready := by
  rw [processCleanup_eq s nonnull small, modify_states, removeFromReadyQueue_states]
  rfl

theorem processCleanup_identity (small : (s.identity process).pid.toNat < maxProcesses) :
    (s.processCleanup process).identity =
      Function.update s.identity process Process.cleared.identity := by
  rw [processCleanup_eq s nonnull small, modify_identity, removeFromReadyQueue_identity]
  rfl

/-- Whatever the pid is, the links change as the removal changes them. -/
theorem processCleanup_links :
    (s.processCleanup process).links = s.links.unlink null process := by
  have cleared (t : Kernel) (same : t.links = s.links) :
      ((t.removeFromReadyQueue process).modify process fun _ => .cleared).links =
        s.links.unlink null process := by
    rw [removeFromReadyQueue_eq t nonnull, modify_links, withLinks_links, same]
    · simp [Links.unlink, Process.cleared]
    · simp [Links.unlink, Process.cleared]
  rw [processCleanup, if_neg nonnull]
  dsimp only
  split
  · exact cleared _ (s.setTable_links _ null)
  · exact cleared s rfl

theorem processCleanup_registry (small : (s.identity process).pid.toNat < maxProcesses) :
    (s.processCleanup process).registry =
      { s.registry with
        processTable :=
          Function.update s.processTable (s.identity process).pid.toNat null } := by
  rw [processCleanup_eq s nonnull small, modify_registry, removeFromReadyQueue_registry]
  rfl

theorem processCleanup_currentProcess (small : (s.identity process).pid.toNat < maxProcesses) :
    (s.processCleanup process).currentProcess = s.currentProcess := by
  rw [processCleanup_eq s nonnull small, modify_currentProcess,
    removeFromReadyQueue_currentProcess]
  rfl

theorem processCleanup_memory : (s.processCleanup process).memory = s.memory := by
  have removed (t : Kernel) : (t.removeFromReadyQueue process).memory = t.memory :=
    congrArg Registry.memory (t.removeFromReadyQueue_registry process)
  rw [processCleanup, if_neg nonnull]
  dsimp only
  split
  · exact removed _
  · exact removed s

/-- The other records change in their links at most. -/
theorem processCleanup_other (small : (s.identity process).pid.toNat < maxProcesses) {other : Word}
    (different : other ≠ process) :
    (s.processCleanup process).process other =
      { s.process other with
        next := (s.processCleanup process).links.next other
        prev := (s.processCleanup process).links.prev other } := by
  rw [processCleanup_links s nonnull, processCleanup_eq s nonnull small, modify_other _ _ different,
    removeFromReadyQueue_eq _ nonnull]
  rfl

end Cleanup

end Kernel

end SimpleOS
