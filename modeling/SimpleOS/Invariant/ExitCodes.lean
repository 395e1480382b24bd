import SimpleOS.Invariant.Coherent

/-!
# Who changes an exit code

The exit codes of all records as one component of the state, and what each
operation does to it.  Only `sys_exit` and a kill by `sys_kill` store a code,
and only the cleanup of a reaped child clears one, as long as the freed blocks
hold no record.
-/

namespace SimpleOS

open Library.ByteMemory Library.LinkedChain

namespace Kernel

/-- The exit codes of all records. -/
def exitCodes (s : Kernel) (target : Word) : Word := (s.process target).exitCode

/-! ## The parts of an operation -/

section Parts

variable (image : Image) (s : Kernel)

theorem modify_exitCodes (target : Word) (change : Process → Process) :
    (s.modify target change).exitCodes =
      Function.update s.exitCodes target (change (s.process target)).exitCode := by
  funext other
  by_cases same : other = target
  · subst same
    simp [exitCodes]
  · simp [exitCodes, same]

/-- An assignment to other fields keeps the exit codes. -/
theorem modify_exitCodes_of_kept (target : Word) {change : Process → Process}
    (kept : (change (s.process target)).exitCode = (s.process target).exitCode) :
    (s.modify target change).exitCodes = s.exitCodes := by
  rw [modify_exitCodes, kept]
  exact Function.update_eq_self target s.exitCodes

@[simp] theorem withLinks_exitCodes (links : Links Word) :
    (s.withLinks links).exitCodes = s.exitCodes := rfl

@[simp] theorem setState_exitCodes (target : Word) (state : ProcessState) :
    (s.setState target state).exitCodes = s.exitCodes :=
  s.modify_exitCodes_of_kept target rfl

@[simp] theorem setExitCode_exitCodes (target value : Word) :
    (s.setExitCode target value).exitCodes = Function.update s.exitCodes target value :=
  s.modify_exitCodes target _

@[simp] theorem setCurrent_exitCodes (value : Word) :
    (s.setCurrent value).exitCodes = s.exitCodes := rfl

@[simp] theorem setTable_exitCodes (index : Nat) (value : Word) :
    (s.setTable index value).exitCodes = s.exitCodes := rfl

@[simp] theorem removeFromReadyQueue_exitCodes (process : Word) :
    (s.removeFromReadyQueue process).exitCodes = s.exitCodes := by
  obtain ⟨links, same⟩ := s.removeFromReadyQueue_exists process
  rw [same, withLinks_exitCodes]

@[simp] theorem addToReadyQueue_exitCodes (process : Word) :
    (s.addToReadyQueue process).exitCodes = s.exitCodes := by
  obtain ⟨links, same⟩ := s.addToReadyQueue_exists process
  rw [same, withLinks_exitCodes]

/-- Bytes overwritten outside the records. -/
theorem overwrite_exitCodes {patch : Patch}
    (untouched : ∀ slot ∈ image.slots, touches patch slot = false) :
    (s.overwrite image patch).exitCodes = s.exitCodes := by
  rw [s.overwrite_of_untouched image untouched]
  rfl

end Parts

/-! ## Scheduling -/

section Schedule

variable (s : Kernel) (saved : CpuState)

@[simp] theorem contextSwitch_exitCodes (oldProcess newProcess : Word) :
    (s.contextSwitch saved oldProcess newProcess).exitCodes = s.exitCodes := by
  unfold contextSwitch
  split
  · rfl
  · exact s.modify_exitCodes_of_kept oldProcess rfl

@[simp] theorem requeueCurrent_exitCodes : s.requeueCurrent.exitCodes = s.exitCodes := by
  by_cases preempts : s.Preempts
  · rw [requeueCurrent_of_preempts s preempts]
    split <;> simp
  · rw [requeueCurrent_of_not s preempts]

@[simp] theorem dispatch_exitCodes (nextProcess : Word) :
    (s.dispatch saved nextProcess).exitCodes = s.exitCodes := by
  unfold dispatch switchToProcess
  dsimp only
  split <;> simp

@[simp] theorem schedule_exitCodes : (s.schedule saved).exitCodes = s.exitCodes := by
  unfold schedule
  dsimp only
  split
  · split <;> simp
  · split <;> simp

end Schedule

/-! ## Creation -/

section Creation

variable (image : Image) (s : Kernel)

/-- A creation does not initialise the exit code of its record. -/
theorem processCreateTest_exitCodes (name : Option CString) (entryPoint : Word)
    (priority : ProcessPriority) :
    (s.processCreateTest image name entryPoint priority).2.exitCodes = s.exitCodes := by
  by_cases room : s.testCount < 10
  · rw [processCreateTest_room image s room]
    exact s.modify_exitCodes_of_kept (image.testSlot s.testCount) rfl
  · rw [processCreateTest_full image s (Nat.le_of_not_lt room)]

/-- The bytes of the stack that `process_create` gets lie outside the records. -/
def GrantApart : Prop :=
  ∀ allocation, SimpleOS.kmalloc s.heapCurrent 4096 = some allocation →
    ∀ slot ∈ image.slots, touches allocation.patch slot = false

theorem processCreate_exitCodes (name : Option CString) (entryPoint : Word)
    (priority : ProcessPriority) (apart : s.GrantApart image) :
    (s.processCreate image name entryPoint priority).2.exitCodes = s.exitCodes := by
  have granted : (s.kmalloc image 4096).2.exitCodes = s.exitCodes := by
    unfold kmalloc
    split
    · rfl
    · next allocation grants => exact overwrite_exitCodes image s (apart allocation grants)
  unfold processCreate
  generalize s.kmalloc image 4096 = grant at granted ⊢
  obtain ⟨stack, after⟩ := grant
  split
  · rfl
  · next name =>
    split
    · rfl
    · dsimp only
      split
      · exact granted
      · have filled (pid : Word) :
            (after.modify (image.createSlot s.createCount) fun record =>
              record.fillCreate name pid entryPoint stack priority).exitCodes = s.exitCodes :=
          (modify_exitCodes_of_kept after _ rfl).trans granted
        split
        · exact filled _
        · exact filled _

theorem processCreateCopy_exitCodes (parent : Word) :
    (s.processCreateCopy image parent).2.exitCodes = s.exitCodes := by
  have created := processCreateTest_exitCodes image s (some (s.process parent).nameString)
    (s.process parent).cpuState.eip (s.process parent).priority
  unfold processCreateCopy
  split
  · rfl
  · dsimp only
    split
    · exact created
    · rw [modify_exitCodes_of_kept, modify_exitCodes_of_kept, modify_exitCodes_of_kept]
      · exact created
      · rfl
      · rfl
      · rfl

theorem sysFork_exitCodes : (s.sysFork image).2.exitCodes = s.exitCodes := by
  have copied := processCreateCopy_exitCodes image s s.currentProcess
  unfold sysFork
  split
  · rfl
  · dsimp only
    split
    · exact copied
    · rw [addToReadyQueue_exitCodes, modify_exitCodes_of_kept]
      · exact copied
      · rfl

end Creation

/-! ## Termination -/

section Termination

variable (image : Image) (s : Kernel)

/-- `process_exit` drops its argument. -/
@[simp] theorem processExit_exitCodes (exitCode : Word) :
    (s.processExit exitCode).exitCodes = s.exitCodes := by
  by_cases exits : s.Exits
  · rw [processExit_of_exits s exits, setState_exitCodes]
  · rw [processExit_of_not s exits]

theorem sysExec_exitCodes (program : Option CString) :
    (s.sysExec image program).2.exitCodes = s.exitCodes := by
  unfold sysExec
  split
  · rfl
  · split
    · rfl
    · split
      · rfl
      · dsimp only
        rw [runProgram_eq, processExit_exitCodes, modify_exitCodes_of_kept,
          modify_exitCodes_of_kept]
        · rfl
        · rfl

theorem sysExit_exitCodes (saved : CpuState) (exitCode : Word) :
    (s.sysExit saved exitCode).exitCodes =
      if s.currentProcess ≠ null then Function.update s.exitCodes s.currentProcess exitCode
      else s.exitCodes := by
  by_cases current : s.currentProcess ≠ null
  · rw [sysExit_eq s saved exitCode current, schedule_exitCodes, exited, if_pos current]
    simp
  · rw [sysExit_null s saved exitCode (not_not.mp current), if_neg current]

theorem sysKill_exitCodes (pid signal : Word) :
    (s.sysKill pid signal).2.exitCodes =
      if s.Killable pid ∧ signal = 9 then
        Function.update s.exitCodes (s.processFindByPid pid) (-1)
      else s.exitCodes := by
  rw [sysKill_snd]
  split
  · rw [setExitCode_exitCodes, setState_exitCodes]
  · rfl

/-- The bytes `process_kill_by_pid` fills for a process: its stack, then its heap. -/
def freedBytes (process : Word) : Patch :=
  (SimpleOS.kfree (s.read image) (s.process process).stackBase).andThen
    (SimpleOS.kfree ((s.releaseStack image process).read image)
      ((s.releaseStack image process).process process).heapBase)

/-- The fills of a kill lie outside the records. -/
def FreesApart (process : Word) : Prop :=
  ∀ slot ∈ image.slots, touches (s.freedBytes image process) slot = false

instance (process : Word) : Decidable (s.FreesApart image process) :=
  inferInstanceAs (Decidable (∀ slot ∈ image.slots, _ = _))

/-- Two patches together touch what one of them touches. -/
theorem touches_andThen {first second : Patch} {slot : Word}
    (untouched : touches (first.andThen second) slot = false) :
    touches first slot = false ∧ touches second slot = false := by
  simp only [touches, List.any_eq_false] at untouched ⊢
  refine ⟨fun offset member written => ?_, fun offset member written => ?_⟩
  · refine untouched offset member ?_
    rw [Patch.andThen]
    cases second (slot + BitVec.ofNat 32 offset) with
    | none => exact written
    | some byte => rfl
  · refine untouched offset member ?_
    rw [Patch.andThen]
    cases wrote : second (slot + BitVec.ofNat 32 offset) with
    | none =>
        rw [wrote] at written
        cases written
    | some byte => rfl

theorem processKillByPid_exitCodes (pid : Word)
    (apart : s.Killable pid → s.FreesApart image (s.processFindByPid pid)) :
    (s.processKillByPid image pid).2.exitCodes = s.exitCodes := by
  by_cases killable : s.Killable pid
  · have missed := apart killable
    have stack : (s.releaseStack image (s.processFindByPid pid)).exitCodes = s.exitCodes := by
      unfold releaseStack
      split
      · rw [modify_exitCodes_of_kept _ _ rfl]
        exact overwrite_exitCodes image s fun slot member =>
          (touches_andThen (missed slot member)).1
      · rfl
    have heap : ((s.releaseStack image (s.processFindByPid pid)).releaseHeap image
        (s.processFindByPid pid)).exitCodes = s.exitCodes := by
      rw [← stack]
      unfold releaseHeap
      split
      · rw [modify_exitCodes_of_kept _ _ rfl]
        exact overwrite_exitCodes image _ fun slot member =>
          (touches_andThen (missed slot member)).2
      · rfl
    rw [processKillByPid_of_killable s image pid killable, setTable_exitCodes, setState_exitCodes,
      heap]
  · rw [s.processKillByPid_refused image pid killable]

/-- A cleanup clears the exit code of its record. -/
theorem processCleanup_exitCodes {process : Word} (nonnull : process ≠ null) :
    (s.processCleanup process).exitCodes = Function.update s.exitCodes process 0 := by
  rw [processCleanup, if_neg nonnull]
  dsimp only
  rw [modify_exitCodes, removeFromReadyQueue_exitCodes]
  split <;> rfl

theorem sysWait_exitCodes {status : Word}
    (offRecords : status = null ∨ image.OffRecords status) :
    (s.sysWait image status).2.exitCodes =
      match s.reaped? with
      | some child => Function.update s.exitCodes child 0
      | none => s.exitCodes := by
  cases reaps : s.reaped? with
  | none => rw [s.sysWait_none image reaps]
  | some child =>
      obtain ⟨_, _, _, _, nonnull, _⟩ := s.reaped?_spec reaps
      rw [s.sysWait_some image reaps, processCleanup_exitCodes _ nonnull,
        s.storeStatus_offRecords image offRecords]
      rfl

theorem processSetStatus_exitCodes (pid : Word) (status : ProcessState) :
    (s.processSetStatus pid status).2.exitCodes = s.exitCodes := by
  rw [processSetStatus_snd]
  split
  · exact s.setState_exitCodes _ status
  · rfl

theorem changeCurrentProcess_exitCodes (pid : Word) :
    (s.changeCurrentProcess pid).exitCodes = s.exitCodes := by
  rw [changeCurrentProcess_eq]
  split
  · rw [setState_exitCodes, setCurrent_exitCodes]
  · rfl

end Termination

/-! ## One operation -/

/-- The exit codes after an operation whose fills and stores lie outside the records. -/
def exitCodesAfter (s : Kernel) : ProcessOp → Word → Word
  | .exit _ exitCode =>
      if s.currentProcess ≠ null then Function.update s.exitCodes s.currentProcess exitCode
      else s.exitCodes
  | .kill pid signal =>
      if s.Killable pid ∧ signal = 9 then
        Function.update s.exitCodes (s.processFindByPid pid) (-1)
      else s.exitCodes
  | .wait _ =>
      match s.reaped? with
      | some child => Function.update s.exitCodes child 0
      | none => s.exitCodes
  | _ => s.exitCodes

/-- The bytes an operation overwrites lie outside the records. -/
def SparesRecords (image : Image) (s : Kernel) : ProcessOp → Prop
  | .wait status => status = null ∨ image.OffRecords status
  | .killByPid pid => s.Killable pid → s.FreesApart image (s.processFindByPid pid)
  | _ => True

theorem step_exitCodes (image : Image) (s : Kernel) (op : ProcessOp)
    (spares : s.SparesRecords image op) :
    (s.step image op).exitCodes = s.exitCodesAfter op := by
  cases op with
  | createTest name entryPoint priority =>
      exact processCreateTest_exitCodes image s name entryPoint priority
  | fork => exact sysFork_exitCodes image s
  | exec program => exact sysExec_exitCodes image s program
  | exit saved exitCode => exact s.sysExit_exitCodes saved exitCode
  | processExit exitCode => exact s.processExit_exitCodes exitCode
  | kill pid signal => exact s.sysKill_exitCodes pid signal
  | wait status => exact s.sysWait_exitCodes image spares
  | killByPid pid => exact s.processKillByPid_exitCodes image pid spares
  | setStatus pid status => exact s.processSetStatus_exitCodes pid status
  | changeCurrent pid => exact s.changeCurrentProcess_exitCodes pid
  | schedule saved => exact s.schedule_exitCodes saved

/-- In every run, the stack a kill frees is a static one, and its fill is empty. -/
theorem Coherent.freesApart {image : Image} {s : Kernel} (coherent : s.Coherent image)
    {pid : Word} (killable : s.Killable pid) : s.FreesApart image (s.processFindByPid pid) := by
  obtain ⟨index, bound, positive, _, found, _, parentPid, _, identity⟩ :=
    coherent.killable killable
  have small : index < 10 := Nat.lt_of_lt_of_le bound coherent.count
  have stack : (s.process (image.testSlot index)).stackBase = image.testStack index :=
    congrArg Process.Identity.stackBase identity
  have heap : (s.process (image.testSlot index)).heapBase = 0 :=
    congrArg Process.Identity.heapBase identity
  have released : ((s.releaseStack image (image.testSlot index)).process
      (image.testSlot index)).heapBase = 0 := by
    unfold releaseStack
    split
    · rw [stack, s.kfree_testStack image coherent.loaded positive small, modify_self]
      exact heap
    · exact heap
  have nothing : s.freedBytes image (image.testSlot index) = noPatch := by
    rw [freedBytes, stack, s.kfree_testStack_patch image coherent.loaded positive small, released]
    rfl
  intro slot _
  rw [found, nothing]
  exact touches_noPatch slot

theorem Coherent.sparesRecords {image : Image} {s : Kernel} (coherent : s.Coherent image)
    {op : ProcessOp} (outside : op.StatusOutside image) : s.SparesRecords image op := by
  cases op with
  | wait status => exact outside.imp_right Image.Outside.offRecords
  | killByPid pid => exact fun killable => coherent.freesApart killable
  | _ => trivial

end Kernel

end SimpleOS
