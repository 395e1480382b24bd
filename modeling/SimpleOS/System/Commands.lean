import SimpleOS.Invariant.Effects
import SimpleOS.System.Running

/-!
# What commands do to the kernel

The shell performs only some of the process operations.  They keep the kernel
process alive and somebody current, whatever the command line says.
-/

namespace SimpleOS

open Library.ByteMemory Library.LinkedChain Library.GuardedRun

/-- The operations `process_command` performs. -/
def ProcessOp.OfShell : ProcessOp → Prop
  | createTest _ _ _ => True
  | fork => True
  | exec _ => True
  | killByPid _ => True
  | setStatus _ status => status = .ready ∨ status = .blocked
  | changeCurrent _ => True
  | schedule _ => True
  | exit _ _ => False
  | processExit _ => False
  | kill _ _ => False
  | wait _ => False

theorem ProcessOp.OfShell.statusOutside {op : ProcessOp} (ofShell : op.OfShell) (image : Image) :
    op.StatusOutside image := by
  cases op with
  | wait _ => cases ofShell
  | _ => trivial

/-- No status name means TERMINATED. -/
theorem readStatus_ofShell {name : CString} {status : ProcessState}
    (reads : readStatus name = some status) : status = .ready ∨ status = .blocked := by
  unfold readStatus at reads
  split at reads
  · exact Or.inl (Option.some.inj reads).symm
  · split at reads
    · exact Or.inr (Option.some.inj reads).symm
    · split at reads
      · exact Or.inr (Option.some.inj reads).symm
      · cases reads

namespace Kernel

section Performed

variable (image : Image) (before : ArgumentBuffer → Nat → Byte) (saved : CpuState) (s : Kernel)

theorem pstatusCommand_ofShell (command : CString) :
    ∀ op ∈ (s.pstatusCommand before command).performed, op.OfShell := by
  unfold pstatusCommand
  dsimp only
  split
  · exact fun _ member => nomatch member
  · split
    · exact fun _ member => nomatch member
    · split
      · exact fun _ member => nomatch member
      · next legal =>
          intro op member
          rw [List.mem_singleton.mp member]
          exact readStatus_ofShell legal

/-- Whatever the line is, the shell performs its own operations only. -/
theorem processCommand_ofShell (command : CString) :
    ∀ op ∈ (s.processCommand image before saved command).performed, op.OfShell := by
  have one {op : ProcessOp} (ofShell : op.OfShell) : ∀ other ∈ [op], other.OfShell :=
    fun other member => List.mem_singleton.mp member ▸ ofShell
  have none : ∀ other ∈ ([] : List ProcessOp), other.OfShell := fun _ member => nomatch member
  unfold processCommand
  split
  · unfold spawnCommand
    dsimp only
    split
    · exact none
    · exact one trivial
  · unfold pkillCommand
    dsimp only
    split
    · exact none
    · split
      · exact none
      · exact one trivial
  · exact s.pstatusCommand_ofShell before command
  · exact one trivial
  · exact one trivial
  · exact none
  · exact one trivial
  · unfold pchCommand
    split
    · exact none
    · split
      · exact one trivial
      · exact none
  all_goals exact none

end Performed

/-! ## What these operations keep -/

/-- Nobody has ended the kernel process, somebody is current, every state has a name, and nothing
has been allocated from the heap. -/
structure Attended (image : Image) (s : Kernel) : Prop where
  coherent : s.Coherent image
  kernel : s.states s.kernelProcess ≠ .terminated
  current : s.currentProcess ≠ null
  known : ∀ target code outside, s.states target ≠ .unknown code outside
  creation : s.creation = (0, heapStart)

variable {image : Image} {s t : Kernel}

theorem step_kernelProcess (coherent : s.Coherent image) {op : ProcessOp} (ofShell : op.OfShell) :
    (s.step image op).kernelProcess = s.kernelProcess :=
  (coherent.step op (ofShell.statusOutside image)).kernel.trans coherent.kernel.symm

/-- A requeue makes the current process READY at most. -/
theorem requeueCurrent_state (s : Kernel) (target : Word) :
    s.requeueCurrent.states target = .ready ∨ s.requeueCurrent.states target = s.states target := by
  rw [requeueCurrent_states]
  split
  · by_cases same : target = s.currentProcess
    · rw [same, Function.update_self]
      exact Or.inl rfl
    · rw [Function.update_of_ne same]
      exact Or.inr rfl
  · exact Or.inr rfl

/-- A scheduling step makes processes READY or RUNNING. -/
theorem schedule_state (s : Kernel) (saved : CpuState) (target : Word) :
    (s.schedule saved).states target = .ready ∨ (s.schedule saved).states target = .running ∨
      (s.schedule saved).states target = s.states target := by
  by_cases empty : s.readyQueueHead = null
  · rw [schedule_states_idle s saved empty]
    exact Or.inr (Or.inr rfl)
  · rw [schedule_states s saved empty]
    split
    · exact (s.requeueCurrent_state target).imp_right Or.inr
    · by_cases same : target = s.readyQueueHead
      · rw [same, Function.update_self]
        exact Or.inr (Or.inl rfl)
      · rw [Function.update_of_ne same]
        exact (s.requeueCurrent_state target).imp_right Or.inr

/-- An operation of the shell makes a process READY, RUNNING or BLOCKED, and TERMINATED unless it is
the kernel process. -/
theorem step_state (coherent : s.Coherent image) {op : ProcessOp} (ofShell : op.OfShell)
    (target : Word) :
    (s.step image op).states target = .ready ∨ (s.step image op).states target = .running ∨
      (s.step image op).states target = .blocked ∨
      (s.step image op).states target = .terminated ∧ target ≠ s.kernelProcess ∨
      (s.step image op).states target = s.states target := by
  have kept {states : Word → ProcessState} (same : states = s.states) :
      states target = .ready ∨ states target = .running ∨ states target = .blocked ∨
        states target = .terminated ∧ target ≠ s.kernelProcess ∨
        states target = s.states target :=
    Or.inr (Or.inr (Or.inr (Or.inr (congrFun same target))))
  cases op with
  | createTest name entryPoint priority =>
      exact kept (coherent.processCreateTest_states name entryPoint priority)
  | fork => exact kept coherent.sysFork_states
  | exec program =>
      have states := sysExec_states image s program
      split at states
      · next ends =>
          by_cases same : target = s.currentProcess
          · refine Or.inr (Or.inr (Or.inr (Or.inl ⟨?_, same.symm ▸ ends.2.2⟩)))
            exact (congrFun states target).trans (same ▸ Function.update_self _ _ _)
          · exact Or.inr (Or.inr (Or.inr (Or.inr
              ((congrFun states target).trans (Function.update_of_ne same _ _)))))
      · exact kept states
  | killByPid pid =>
      have states := coherent.processKillByPid_states pid
      split at states
      · next killable =>
          by_cases same : target = s.processFindByPid pid
          · refine Or.inr (Or.inr (Or.inr (Or.inl ⟨?_, same.symm ▸ killable.2.2⟩)))
            exact (congrFun states target).trans (same ▸ Function.update_self _ _ _)
          · exact Or.inr (Or.inr (Or.inr (Or.inr
              ((congrFun states target).trans (Function.update_of_ne same _ _)))))
      · exact kept states
  | setStatus pid status =>
      have states := processSetStatus_states s pid status
      split at states
      · by_cases same : target = s.processFindByPid pid
        · have stored : (s.step image (.setStatus pid status)).states target = status :=
            (congrFun states target).trans (same ▸ Function.update_self _ _ _)
          rw [stored]
          rcases ofShell with rfl | rfl
          · exact Or.inl rfl
          · exact Or.inr (Or.inr (Or.inl rfl))
        · exact Or.inr (Or.inr (Or.inr (Or.inr
            ((congrFun states target).trans (Function.update_of_ne same _ _)))))
      · exact kept states
  | changeCurrent pid =>
      have states := changeCurrentProcess_states s pid
      split at states
      · by_cases same : target = s.processFindByPid pid
        · refine Or.inr (Or.inl ?_)
          exact (congrFun states target).trans (same ▸ Function.update_self _ _ _)
        · exact Or.inr (Or.inr (Or.inr (Or.inr
            ((congrFun states target).trans (Function.update_of_ne same _ _)))))
      · exact kept states
  | schedule saved =>
      rcases s.schedule_state saved target with ready | running | same
      · exact Or.inl ready
      · exact Or.inr (Or.inl running)
      · exact Or.inr (Or.inr (Or.inr (Or.inr same)))
  | exit _ _ => cases ofShell
  | processExit _ => cases ofShell
  | kill _ _ => cases ofShell
  | wait _ => cases ofShell

theorem step_currentProcess (coherent : s.Coherent image) {op : ProcessOp} (ofShell : op.OfShell)
    (current : s.currentProcess ≠ null) : (s.step image op).currentProcess ≠ null := by
  cases op with
  | createTest name entryPoint priority =>
      exact (Coherent.processCreateTest_currentProcess name entryPoint priority).symm ▸ current
  | fork => exact Coherent.sysFork_currentProcess.symm ▸ current
  | exec program => exact (sysExec_currentProcess image s program).symm ▸ current
  | killByPid pid => exact (coherent.processKillByPid_currentProcess pid).symm ▸ current
  | setStatus pid status => exact (processSetStatus_currentProcess s pid status).symm ▸ current
  | changeCurrent pid =>
      change (s.changeCurrentProcess pid).currentProcess ≠ null
      rw [changeCurrentProcess_currentProcess]
      split
      · next switchable => exact switchable.2
      · exact current
  | schedule saved =>
      change (s.schedule saved).currentProcess ≠ null
      rw [schedule_currentProcess]
      exact coherent.active_ne_null coherent.chosen_active
  | exit _ _ => cases ofShell
  | processExit _ => cases ofShell
  | kill _ _ => cases ofShell
  | wait _ => cases ofShell

namespace Attended

theorem step (attended : s.Attended image) {op : ProcessOp} (ofShell : op.OfShell) :
    (s.step image op).Attended image := by
  have coherent := attended.coherent
  refine ⟨coherent.step op (ofShell.statusOutside image), ?_,
    step_currentProcess coherent ofShell attended.current, fun target code outside => ?_,
    (step_creation image s op).trans attended.creation⟩
  · rw [step_kernelProcess coherent ofShell]
    rcases step_state coherent ofShell s.kernelProcess with
      ready | running | blocked | ⟨_, other⟩ | same
    · exact fun ended => nomatch ready.symm.trans ended
    · exact fun ended => nomatch running.symm.trans ended
    · exact fun ended => nomatch blocked.symm.trans ended
    · exact absurd rfl other
    · exact same.symm ▸ attended.kernel
  · rcases step_state coherent ofShell target with
      ready | running | blocked | ⟨ended, _⟩ | same
    · exact fun other => nomatch ready.symm.trans other
    · exact fun other => nomatch running.symm.trans other
    · exact fun other => nomatch blocked.symm.trans other
    · exact fun other => nomatch ended.symm.trans other
    · exact same.symm ▸ attended.known target code outside

theorem run (attended : s.Attended image) {ops : List ProcessOp}
    (ofShell : ∀ op ∈ ops, op.OfShell) :
    (Library.GuardedRun.run (Kernel.step image) s ops).Attended image := by
  induction ops generalizing s with
  | nil => exact attended
  | cons op rest ih =>
      have first := ofShell op List.mem_cons_self
      exact ih (attended.step first) fun other member =>
        ofShell other (List.mem_cons_of_mem op member)

/-- A command of any text. -/
theorem processCommand (attended : s.Attended image) (before : ArgumentBuffer → Nat → Byte)
    (saved : CpuState) (command : CString) :
    (s.processCommand image before saved command).kernel.Attended image := by
  rw [s.processCommand_kernel image before saved command]
  exact attended.run (s.processCommand_ofShell image before saved command)

/-- The state in which `schedule` hands over. -/
theorem transfer (attended : s.Attended image) {saved : CpuState} {transfer : Transfer}
    (transfers : s.transfer? saved = some transfer) : transfer.kernel.Attended image := by
  by_cases idle : s.readyQueueHead = null
  · rw [transfer?, if_pos idle] at transfers
    split at transfers
    · cases transfers
      have states := s.contextSwitch_states saved s.currentProcess s.kernelProcess
      have registry := s.contextSwitch_registry saved s.currentProcess s.kernelProcess
      have current := s.contextSwitch_currentProcess saved s.currentProcess s.kernelProcess
      have kernel := congrArg Registry.kernelProcess registry
      have coherent : (s.contextSwitch saved s.currentProcess s.kernelProcess).Coherent image := by
        unfold contextSwitch
        split
        · exact attended.coherent
        · exact attended.coherent.silent _ fun _ => ⟨rfl, rfl, rfl, rfl⟩
      refine ⟨coherent, ?_, current.symm ▸ attended.current, fun target => ?_, ?_⟩
      · rw [states, show (s.contextSwitch saved s.currentProcess s.kernelProcess).kernelProcess = _
          from kernel]
        exact attended.kernel
      · rw [states]
        exact attended.known target
      · exact (congrArg (fun r : Registry => (r.createCount, r.heapCurrent)) registry).trans
          attended.creation
    · cases transfers
  · have same := schedule_eq_afterTransfer s saved
    rw [transfers] at same
    simp only [afterTransfer, if_neg idle] at same
    have scheduled : (s.step image (.schedule saved)).Attended image := attended.step trivial
    exact same ▸ scheduled

end Attended

theorem boot_attended (image : Image) : (boot image).Attended image := by
  have coherent : (boot image).Coherent image := boot_coherent image
  have states := boot_states image
  have here : (boot image).states (boot image).kernelProcess = .running := by
    rw [coherent.kernel, states, Function.update_self]
  refine ⟨coherent, ?_, ?_, fun target code outside => ?_, ?_⟩
  · rw [here]
    exact fun ended => nomatch ended
  · rw [boot_currentProcess]
    exact Image.testSlot_ne_null (by decide)
  · rw [states]
    by_cases same : target = image.testSlot 0
    · rw [same, Function.update_self]
      exact fun other => nomatch other
    · rw [Function.update_of_ne same]
      exact fun other => nomatch other
  · exact congrArg (fun r : Registry => (r.createCount, r.heapCurrent)) (boot_registry image)

end Kernel

end SimpleOS
