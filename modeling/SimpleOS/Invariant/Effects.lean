import SimpleOS.Invariant.Coherent

/-!
# What the operations change

Under the invariant, each operation's effect on the links, the states and the
current process, in the form the properties use.
-/

namespace SimpleOS

open Library.ByteMemory Library.LinkedChain

namespace Kernel

variable {image : Image} {s t : Kernel}

/-! ## Creation -/

namespace Coherent

theorem processCreateTest_links (coherent : s.Coherent image) (name : Option CString)
    (entryPoint : Word) (priority : ProcessPriority) :
    (s.processCreateTest image name entryPoint priority).2.links = s.links := by
  by_cases room : s.testCount < 10
  · rw [Kernel.processCreateTest_links image s room, coherent.next_links room]
  · rw [processCreateTest_full image s (Nat.le_of_not_lt room)]

/-- A new record is READY before its creation already. -/
theorem processCreateTest_states (coherent : s.Coherent image) (name : Option CString)
    (entryPoint : Word) (priority : ProcessPriority) :
    (s.processCreateTest image name entryPoint priority).2.states = s.states := by
  by_cases room : s.testCount < 10
  · rw [Kernel.processCreateTest_states image s room]
    exact Function.update_eq_self_iff.mpr (coherent.idle _ (next_not_active room)).symm
  · rw [processCreateTest_full image s (Nat.le_of_not_lt room)]

theorem processCreateTest_currentProcess (name : Option CString) (entryPoint : Word)
    (priority : ProcessPriority) :
    (s.processCreateTest image name entryPoint priority).2.currentProcess = s.currentProcess := by
  by_cases room : s.testCount < 10
  · exact Kernel.processCreateTest_currentProcess image s room name entryPoint priority
  · rw [processCreateTest_full image s (Nat.le_of_not_lt room)]

/-- A fork changes nothing but the new record, or appends it to the queue. -/
theorem sysFork_links_cases (coherent : s.Coherent image) :
    (s.sysFork image).2.links = s.links ∨
      s.testCount < 10 ∧
        (s.sysFork image).2.links = s.links.append null (image.testSlot s.testCount) := by
  by_cases refused : s.currentProcess = null ∨ 10 ≤ s.testCount
  · exact Or.inl (by rw [sysFork_refused image s refused])
  · obtain ⟨nonnull, notFull⟩ := not_or.mp refused
    have room := Nat.lt_of_not_le notFull
    exact Or.inr ⟨room, coherent.sysFork_links_append nonnull room⟩

theorem sysFork_states (coherent : s.Coherent image) : (s.sysFork image).2.states = s.states := by
  by_cases refused : s.currentProcess = null ∨ 10 ≤ s.testCount
  · rw [sysFork_refused image s refused]
  · obtain ⟨nonnull, notFull⟩ := not_or.mp refused
    have room := Nat.lt_of_not_le notFull
    rw [Kernel.sysFork_states image s nonnull room]
    exact Function.update_eq_self_iff.mpr (coherent.idle _ (next_not_active room)).symm

theorem sysFork_currentProcess : (s.sysFork image).2.currentProcess = s.currentProcess := by
  by_cases refused : s.currentProcess = null ∨ 10 ≤ s.testCount
  · rw [sysFork_refused image s refused]
  · obtain ⟨nonnull, notFull⟩ := not_or.mp refused
    exact Kernel.sysFork_currentProcess image s nonnull (Nat.lt_of_not_le notFull)

end Coherent

/-! ## Operations that only mark processes -/

section Marks

variable (image : Image) (s : Kernel)

theorem processExit_states (exitCode : Word) :
    (s.processExit exitCode).states =
      if s.Exits then Function.update s.states s.currentProcess .terminated else s.states := by
  by_cases exits : s.Exits
  · rw [processExit_of_exits s exits, if_pos exits, setState_states]
  · rw [processExit_of_not s exits, if_neg exits]

theorem processExit_links (exitCode : Word) : (s.processExit exitCode).links = s.links := by
  by_cases exits : s.Exits
  · rw [processExit_of_exits s exits, setState_links]
  · rw [processExit_of_not s exits]

theorem processExit_identity (exitCode : Word) :
    (s.processExit exitCode).identity = s.identity := by
  by_cases exits : s.Exits
  · rw [processExit_of_exits s exits, setState_identity]
  · rw [processExit_of_not s exits]

theorem processExit_registry (exitCode : Word) :
    (s.processExit exitCode).registry = s.registry := by
  by_cases exits : s.Exits
  · rw [processExit_of_exits s exits, setState_registry]
  · rw [processExit_of_not s exits]

theorem processExit_currentProcess (exitCode : Word) :
    (s.processExit exitCode).currentProcess = s.currentProcess := by
  by_cases exits : s.Exits
  · rw [processExit_of_exits s exits, setState_currentProcess]
  · rw [processExit_of_not s exits]

variable (program : Option CString)

theorem sysExec_states :
    (s.sysExec image program).2.states =
      if s.Execs program ∧ s.Exits then Function.update s.states s.currentProcess .terminated
      else s.states := by
  by_cases execs : s.Execs program
  · obtain ⟨change, silent, runs⟩ := s.sysExec_runs image program execs
    rw [runs, processExit_states, modify_states_silent _ _ silent]
    by_cases exits : s.Exits
    · exact (if_pos (show (s.modify s.currentProcess change).Exits from exits)).trans
        (if_pos ⟨execs, exits⟩).symm
    · exact (if_neg (show ¬ (s.modify s.currentProcess change).Exits from exits)).trans
        (if_neg fun both => exits both.2).symm
  · rw [s.sysExec_refused image program execs, if_neg fun both => execs both.1]

theorem sysExec_links : (s.sysExec image program).2.links = s.links := by
  by_cases execs : s.Execs program
  · obtain ⟨change, silent, runs⟩ := s.sysExec_runs image program execs
    rw [runs, processExit_links, modify_links_silent _ _ silent]
  · rw [s.sysExec_refused image program execs]

theorem sysExec_identity : (s.sysExec image program).2.identity = s.identity := by
  by_cases execs : s.Execs program
  · obtain ⟨change, silent, runs⟩ := s.sysExec_runs image program execs
    rw [runs, processExit_identity, modify_identity_silent _ _ silent]
  · rw [s.sysExec_refused image program execs]

theorem sysExec_registry : (s.sysExec image program).2.registry = s.registry := by
  by_cases execs : s.Execs program
  · obtain ⟨change, _, runs⟩ := s.sysExec_runs image program execs
    rw [runs, processExit_registry, modify_registry]
  · rw [s.sysExec_refused image program execs]

theorem sysExec_currentProcess :
    (s.sysExec image program).2.currentProcess = s.currentProcess := by
  by_cases execs : s.Execs program
  · obtain ⟨change, _, runs⟩ := s.sysExec_runs image program execs
    rw [runs, processExit_currentProcess, modify_currentProcess]
  · rw [s.sysExec_refused image program execs]

variable (pid signal : Word) (status : ProcessState)

theorem sysKill_states :
    (s.sysKill pid signal).2.states =
      if s.Killable pid ∧ signal = 9 then
        Function.update s.states (s.processFindByPid pid) .terminated
      else s.states := by
  rw [sysKill_snd]
  split <;> simp

theorem sysKill_links : (s.sysKill pid signal).2.links = s.links := by
  rw [sysKill_snd]
  split <;> simp

theorem sysKill_identity : (s.sysKill pid signal).2.identity = s.identity := by
  rw [sysKill_snd]
  split <;> simp

theorem sysKill_registry : (s.sysKill pid signal).2.registry = s.registry := by
  rw [sysKill_snd]
  split <;> simp

theorem sysKill_currentProcess : (s.sysKill pid signal).2.currentProcess = s.currentProcess := by
  rw [sysKill_snd]
  split <;> simp

theorem processSetStatus_states :
    (s.processSetStatus pid status).2.states =
      if s.Settable pid status then Function.update s.states (s.processFindByPid pid) status
      else s.states := by
  rw [processSetStatus_snd]
  split <;> simp

theorem processSetStatus_links : (s.processSetStatus pid status).2.links = s.links := by
  rw [processSetStatus_snd]
  split <;> simp

theorem processSetStatus_identity : (s.processSetStatus pid status).2.identity = s.identity := by
  rw [processSetStatus_snd]
  split <;> simp

theorem processSetStatus_registry : (s.processSetStatus pid status).2.registry = s.registry := by
  rw [processSetStatus_snd]
  split <;> simp

theorem processSetStatus_currentProcess :
    (s.processSetStatus pid status).2.currentProcess = s.currentProcess := by
  rw [processSetStatus_snd]
  split <;> simp

theorem changeCurrentProcess_states :
    (s.changeCurrentProcess pid).states =
      if s.Switchable pid then Function.update s.states (s.processFindByPid pid) .running
      else s.states := by
  rw [changeCurrentProcess_eq]
  split <;> simp

theorem changeCurrentProcess_links : (s.changeCurrentProcess pid).links = s.links := by
  rw [changeCurrentProcess_eq]
  split <;> simp

theorem changeCurrentProcess_identity : (s.changeCurrentProcess pid).identity = s.identity := by
  rw [changeCurrentProcess_eq]
  split <;> simp

theorem changeCurrentProcess_registry : (s.changeCurrentProcess pid).registry = s.registry := by
  rw [changeCurrentProcess_eq]
  split <;> simp

theorem changeCurrentProcess_currentProcess :
    (s.changeCurrentProcess pid).currentProcess =
      if s.Switchable pid then s.processFindByPid pid else s.currentProcess := by
  rw [changeCurrentProcess_eq]
  split <;> simp

end Marks

/-! ## Operations that tear a process down -/

namespace Coherent

theorem processKillByPid_states (coherent : s.Coherent image) (pid : Word) :
    (s.processKillByPid image pid).2.states =
      if s.Killable pid then Function.update s.states (s.processFindByPid pid) .terminated
      else s.states := by
  by_cases killable : s.Killable pid
  · rw [coherent.processKillByPid_eq killable, if_pos killable]
    simp
  · rw [processKillByPid_refused s image pid killable, if_neg killable]

theorem processKillByPid_links (coherent : s.Coherent image) (pid : Word) :
    (s.processKillByPid image pid).2.links = s.links := by
  by_cases killable : s.Killable pid
  · rw [coherent.processKillByPid_eq killable]
    simp
  · rw [processKillByPid_refused s image pid killable]

theorem processKillByPid_currentProcess (coherent : s.Coherent image) (pid : Word) :
    (s.processKillByPid image pid).2.currentProcess = s.currentProcess := by
  by_cases killable : s.Killable pid
  · rw [coherent.processKillByPid_eq killable]
    simp
  · rw [processKillByPid_refused s image pid killable]

/-- Reaping unlinks the child and clears its record. -/
theorem sysWait_reaps (coherent : s.Coherent image) {proc status : Word}
    (outside : status = null ∨ image.Outside status) (reaps : s.reaped? = some proc) :
    (s.sysWait image status).2.links = s.links.unlink null proc ∧
      (s.sysWait image status).2.states = Function.update s.states proc .ready ∧
      (s.sysWait image status).2.currentProcess = s.currentProcess := by
  obtain ⟨index, bound, _, rfl, registered, _, _⟩ := coherent.reaped reaps
  have small : index < 10 := Nat.lt_of_lt_of_le bound coherent.count
  have nonnull : image.testSlot index ≠ null := Image.testSlot_ne_null small
  have frame := s.storeStatus_frame image outside (s.process (image.testSlot index)).exitCode
  have inTable : ((s.storeStatus image status
      (s.process (image.testSlot index)).exitCode).identity
        (image.testSlot index)).pid.toNat < maxProcesses := by
    rw [frame.identity, registered_pid small registered, maxProcesses]
    omega
  rw [s.sysWait_some image reaps]
  exact
    ⟨by rw [processCleanup_links _ nonnull, frame.links],
      by rw [processCleanup_states _ nonnull inTable, frame.states],
      by rw [processCleanup_currentProcess _ nonnull inTable, frame.current]⟩

/-- Reaping takes the child out of the table and forgets who it was. -/
theorem sysWait_unhooks (coherent : s.Coherent image) {index : Nat} {status : Word}
    (outside : status = null ∨ image.Outside status) (bound : index < s.testCount)
    (registered : s.Registered image index) (reaps : s.reaped? = some (image.testSlot index)) :
    (s.sysWait image status).2.processTable =
        Function.update s.processTable (index + 1) null ∧
      (s.sysWait image status).2.identity =
        Function.update s.identity (image.testSlot index) Process.cleared.identity := by
  have small : index < 10 := Nat.lt_of_lt_of_le bound coherent.count
  have nonnull : image.testSlot index ≠ null := Image.testSlot_ne_null small
  have frame := s.storeStatus_frame image outside (s.process (image.testSlot index)).exitCode
  have pid : ((s.storeStatus image status
      (s.process (image.testSlot index)).exitCode).identity
        (image.testSlot index)).pid.toNat = index + 1 := by
    rw [frame.identity, registered_pid small registered]
  have inTable := pid.symm ▸ (by simp only [maxProcesses]; omega : index + 1 < maxProcesses)
  have registry := processCleanup_registry _ nonnull inTable
  rw [pid] at registry
  rw [s.sysWait_some image reaps]
  refine ⟨?_, ?_⟩
  · rw [show (Kernel.processCleanup _ _).processTable = _ from
      congrArg Registry.processTable registry, frame.table]
  · rw [processCleanup_identity _ nonnull inTable, frame.identity]

end Coherent

/-! ## The kernel process -/

namespace Coherent

theorem kernel_identity (coherent : s.Coherent image) :
    s.identity s.kernelProcess = image.newIdentity 0 0 := by
  obtain ⟨_, parentPid, older, identity⟩ := coherent.root.2
  have zero : parentPid = 0 := BitVec.eq_of_toNat_eq (Nat.le_zero.mp older)
  rw [coherent.kernel, identity, zero]

/-- Only PID 1 leads to the kernel process. -/
theorem found_kernel_iff (coherent : s.Coherent image) (pid : Word) :
    s.processFindByPid pid = s.kernelProcess ↔ pid = 1 := by
  constructor
  · intro same
    obtain ⟨index, bound, place, found, _⟩ :=
      coherent.found (same.symm ▸ coherent.kernel_ne_null)
    have first : index = 0 := coherent.slot_inj bound coherent.root.1 (by
      rw [← found, same, coherent.kernel])
    apply BitVec.eq_of_toNat_eq
    rw [place, first]
    rfl
  · rintro rfl
    rw [coherent.kernel]
    exact coherent.root.2.1

end Coherent

/-! ## What no process operation assigns -/

/-- The counter of `process_create` and the bump pointer of its stacks. -/
def creation (s : Kernel) : Nat × Word := (s.createCount, s.heapCurrent)

/-- What only creations assign: both counters and the bump pointer. -/
def counters (s : Kernel) : Nat × Nat × Word := (s.createCount, s.testCount, s.heapCurrent)

theorem counters_congr (registry : t.registry = s.registry) : t.counters = s.counters :=
  congrArg (fun r : Registry => (r.createCount, r.testCount, r.heapCurrent)) registry

theorem creation_of_counters (same : t.counters = s.counters) : t.creation = s.creation :=
  congrArg (fun c : Nat × Nat × Word => (c.1, c.2.2)) same

theorem testCount_of_counters (same : t.counters = s.counters) : t.testCount = s.testCount :=
  congrArg (fun c : Nat × Nat × Word => c.2.1) same

section Counters

variable (image : Image) (s : Kernel)

theorem processCleanup_counters (process : Word) :
    (s.processCleanup process).counters = s.counters := by
  unfold processCleanup
  split
  · rfl
  · dsimp only
    rw [counters_congr ((modify_registry _ _ _).trans (removeFromReadyQueue_registry _ _))]
    split <;> rfl

theorem storeStatus_counters (status value : Word) :
    (s.storeStatus image status value).counters = s.counters := by
  unfold storeStatus
  split <;> rfl

theorem releaseStack_counters (process : Word) :
    (s.releaseStack image process).counters = s.counters := by
  unfold releaseStack
  split <;> rfl

theorem releaseHeap_counters (process : Word) :
    (s.releaseHeap image process).counters = s.counters := by
  unfold releaseHeap
  split <;> rfl

theorem processKillByPid_counters (pid : Word) :
    (s.processKillByPid image pid).2.counters = s.counters := by
  have released := (releaseHeap_counters image (s.releaseStack image (s.processFindByPid pid))
    (s.processFindByPid pid)).trans (releaseStack_counters image s (s.processFindByPid pid))
  unfold processKillByPid
  dsimp only
  split
  · rfl
  · split
    · rfl
    · split
      · rfl
      · split
        · rfl
        · split <;> exact released

theorem sysWait_counters (status : Word) : (s.sysWait image status).2.counters = s.counters := by
  cases reaps : s.reaped? with
  | none => rw [s.sysWait_none image reaps]
  | some proc => rw [s.sysWait_some image reaps, processCleanup_counters, storeStatus_counters]

theorem sysExit_counters (saved : CpuState) (exitCode : Word) :
    (s.sysExit saved exitCode).counters = s.counters := by
  by_cases current : s.currentProcess = null
  · rw [sysExit_null s saved exitCode current]
  · rw [sysExit_eq s saved exitCode current]
    exact counters_congr ((schedule_registry _ saved).trans (s.exited_registry exitCode))

/-- An operation that creates nothing keeps them. -/
theorem step_counters (op : ProcessOp) (creates : ¬ op.Creates) :
    (s.step image op).counters = s.counters := by
  cases op with
  | createTest name entryPoint priority => exact absurd trivial creates
  | fork => exact absurd trivial creates
  | exec program => exact counters_congr (sysExec_registry image s program)
  | exit saved exitCode => exact sysExit_counters s saved exitCode
  | processExit exitCode => exact counters_congr (processExit_registry s exitCode)
  | kill pid signal => exact counters_congr (sysKill_registry s pid signal)
  | wait status => exact sysWait_counters image s status
  | killByPid pid => exact processKillByPid_counters image s pid
  | setStatus pid status => exact counters_congr (processSetStatus_registry s pid status)
  | changeCurrent pid => exact counters_congr (changeCurrentProcess_registry s pid)
  | schedule saved => exact counters_congr (schedule_registry s saved)

/-- Only `process_create` counts up its counter and allocates. -/
theorem step_creation (op : ProcessOp) : (s.step image op).creation = s.creation := by
  by_cases creates : op.Creates
  · cases op with
    | createTest name entryPoint priority =>
        change (s.processCreateTest image name entryPoint priority).2.creation = _
        by_cases room : s.testCount < 10
        · have registry := processCreateTest_registry image s room name entryPoint priority
          exact congrArg (fun r : Registry => (r.createCount, r.heapCurrent)) registry
        · rw [processCreateTest_full image s (Nat.le_of_not_lt room)]
    | fork =>
        change (s.sysFork image).2.creation = _
        by_cases refused : s.currentProcess = null ∨ 10 ≤ s.testCount
        · rw [sysFork_refused image s refused]
        · obtain ⟨nonnull, notFull⟩ := not_or.mp refused
          have registry := sysFork_registry image s nonnull (Nat.lt_of_not_le notFull)
          exact congrArg (fun r : Registry => (r.createCount, r.heapCurrent)) registry
    | _ => exact absurd creates id
  · exact creation_of_counters (step_counters image s op creates)

end Counters

end Kernel

end SimpleOS
