import SimpleOS.Kernel.ReadyQueue

/-!
# The scheduler

`schedule` of `process.c`.  The assembly routines are taken at their C
contract: they store a CPU state into the `cpu_state` of the record they are
asked to save, the new one into the program counter, and return when the old
process is resumed; what they store is the argument `saved`.  What the
instructions of `context_switch.asm` store instead, and where, is in
`Machine/ContextSwitch`.
-/

namespace SimpleOS

open Library.ByteMemory Library.LinkedChain

namespace Kernel

/--
`context_switch(old_process, new_process)` as its declaration has it: only the
`cpu_state` of the old process changes.  The offsets of the assembly lead 64 bytes
lower, over the name, the state, the priority and the exit code.  A NULL old
process is not saved.
-/
def contextSwitch (s : Kernel) (saved : CpuState) (oldProcess _newProcess : Word) : Kernel :=
  if oldProcess = null then s
  else s.modify oldProcess fun record => { record with cpuState := saved }

/-- `switch_to_process` reads `current_process` back after setting it. -/
def switchToProcess (s : Kernel) (saved : CpuState) (newProcess : Word) : Kernel :=
  let s := s.setCurrent newProcess
  s.contextSwitch saved s.currentProcess newProcess

/-- The part of `schedule` that moves a running current process to the back of the queue. -/
def requeueCurrent (s : Kernel) : Kernel :=
  if s.currentProcess ≠ null ∧ (s.process s.currentProcess).state = .running then
    let s := s.setState s.currentProcess .ready
    if s.currentProcess ≠ s.readyQueueTail then
      let s := s.removeFromReadyQueue s.currentProcess
      s.addToReadyQueue s.currentProcess
    else s
  else s

/-- The part of `schedule` that takes the chosen process off the queue and runs it. -/
def dispatch (s : Kernel) (saved : CpuState) (nextProcess : Word) : Kernel :=
  let s := s.removeFromReadyQueue nextProcess
  let s := s.setState nextProcess .running
  let oldProcess := s.currentProcess
  let s := s.setCurrent nextProcess
  if oldProcess ≠ null then s.contextSwitch saved oldProcess nextProcess
  else s.switchToProcess saved nextProcess

def schedule (s : Kernel) (saved : CpuState) : Kernel :=
  if s.readyQueueHead = null then
    if s.currentProcess ≠ s.kernelProcess then
      let s := s.contextSwitch saved s.currentProcess s.kernelProcess
      s.setCurrent s.kernelProcess
    else s
  else
    let nextProcess := s.readyQueueHead
    let s := s.requeueCurrent
    if nextProcess = s.currentProcess then s
    else s.dispatch saved nextProcess

/-- The process that a scheduling step leaves current. -/
def chosen (s : Kernel) : Word :=
  if s.readyQueueHead = null then s.kernelProcess else s.readyQueueHead

def schedulerTick (s : Kernel) (saved : CpuState) : Kernel := s.schedule saved

/-! ## Who is chosen -/

theorem chosen_of_idle {s : Kernel} (empty : s.readyQueueHead = null) :
    s.chosen = s.kernelProcess := if_pos empty

theorem chosen_of_queued {s : Kernel} (nonempty : s.readyQueueHead ≠ null) :
    s.chosen = s.readyQueueHead := if_neg nonempty

theorem chosen_iff (s : Kernel) (picked : Word → Prop) :
    picked s.chosen ↔
      (s.readyQueueHead ≠ null → picked s.readyQueueHead) ∧
        (s.readyQueueHead = null → picked s.kernelProcess) := by
  by_cases empty : s.readyQueueHead = null
  · rw [chosen_of_idle empty]
    exact ⟨fun holds => ⟨fun nonempty => absurd empty nonempty, fun _ => holds⟩,
      fun both => both.2 empty⟩
  · rw [chosen_of_queued empty]
    exact ⟨fun holds => ⟨fun _ => holds, fun isNull => absurd isNull empty⟩,
      fun both => both.1 empty⟩

/-! ## A context switch changes only a saved CPU state -/

section ContextSwitch

variable (s : Kernel) (saved : CpuState) (oldProcess newProcess : Word)

@[simp] theorem contextSwitch_states :
    (s.contextSwitch saved oldProcess newProcess).states = s.states := by
  unfold contextSwitch
  split
  · rfl
  · exact s.modify_states_silent oldProcess fun _ => ⟨rfl, rfl, rfl, rfl⟩

@[simp] theorem contextSwitch_identity :
    (s.contextSwitch saved oldProcess newProcess).identity = s.identity := by
  unfold contextSwitch
  split
  · rfl
  · exact s.modify_identity_silent oldProcess fun _ => ⟨rfl, rfl, rfl, rfl⟩

@[simp] theorem contextSwitch_links :
    (s.contextSwitch saved oldProcess newProcess).links = s.links := by
  unfold contextSwitch
  split
  · rfl
  · exact s.modify_links_silent oldProcess fun _ => ⟨rfl, rfl, rfl, rfl⟩

@[simp] theorem contextSwitch_registry :
    (s.contextSwitch saved oldProcess newProcess).registry = s.registry := by
  unfold contextSwitch
  split <;> rfl

@[simp] theorem contextSwitch_currentProcess :
    (s.contextSwitch saved oldProcess newProcess).currentProcess = s.currentProcess := by
  unfold contextSwitch
  split <;> rfl

end ContextSwitch

/-! ## The two parts of a scheduling step -/

/-- The current process is to be moved to the back of the queue. -/
def Preempts (s : Kernel) : Prop :=
  s.currentProcess ≠ null ∧ s.states s.currentProcess = .running

instance (s : Kernel) : Decidable s.Preempts := inferInstanceAs (Decidable (_ ∧ _))

section Parts

variable (s : Kernel)

theorem requeueCurrent_of_not (stays : ¬ s.Preempts) : s.requeueCurrent = s := by
  rw [requeueCurrent]
  exact if_neg stays

theorem requeueCurrent_of_preempts (preempts : s.Preempts) :
    s.requeueCurrent =
      if s.currentProcess ≠ s.readyQueueTail then
        ((s.setState s.currentProcess .ready).removeFromReadyQueue
          s.currentProcess).addToReadyQueue s.currentProcess
      else s.setState s.currentProcess .ready := by
  rw [requeueCurrent]
  refine (if_pos preempts).trans ?_
  simp only [setState_currentProcess, removeFromReadyQueue_currentProcess]
  rfl

theorem requeueCurrent_states :
    s.requeueCurrent.states =
      if s.Preempts then Function.update s.states s.currentProcess .ready else s.states := by
  by_cases preempts : s.Preempts
  · rw [if_pos preempts, requeueCurrent_of_preempts s preempts]
    split <;> simp
  · rw [if_neg preempts, requeueCurrent_of_not s preempts]

theorem requeueCurrent_links :
    s.requeueCurrent.links =
      if s.Preempts ∧ s.currentProcess ≠ s.readyQueueTail then
        (s.links.unlink null s.currentProcess).append null s.currentProcess
      else s.links := by
  by_cases preempts : s.Preempts
  · rw [requeueCurrent_of_preempts s preempts]
    by_cases atTail : s.currentProcess = s.readyQueueTail
    · rw [if_neg fun notTail => notTail atTail, if_neg fun both => both.2 atTail, setState_links]
    · rw [if_pos atTail, if_pos ⟨preempts, atTail⟩]
      have ready : ((s.setState s.currentProcess .ready).removeFromReadyQueue
          s.currentProcess).states s.currentProcess = .ready := by
        simp
      rw [addToReadyQueue_eq _ preempts.1 ready, withLinks_links,
        removeFromReadyQueue_eq _ preempts.1, withLinks_links, setState_links]
  · rw [requeueCurrent_of_not s preempts, if_neg fun both => preempts both.1]

@[simp] theorem requeueCurrent_identity : s.requeueCurrent.identity = s.identity := by
  by_cases preempts : s.Preempts
  · rw [requeueCurrent_of_preempts s preempts]
    split <;> simp
  · rw [requeueCurrent_of_not s preempts]

@[simp] theorem requeueCurrent_registry : s.requeueCurrent.registry = s.registry := by
  by_cases preempts : s.Preempts
  · rw [requeueCurrent_of_preempts s preempts]
    split <;> simp
  · rw [requeueCurrent_of_not s preempts]

@[simp] theorem requeueCurrent_currentProcess :
    s.requeueCurrent.currentProcess = s.currentProcess := by
  by_cases preempts : s.Preempts
  · rw [requeueCurrent_of_preempts s preempts]
    split <;> simp
  · rw [requeueCurrent_of_not s preempts]

variable (saved : CpuState) (nextProcess : Word)

theorem dispatch_states :
    (s.dispatch saved nextProcess).states = Function.update s.states nextProcess .running := by
  unfold dispatch switchToProcess
  dsimp only
  split <;> simp

theorem dispatch_links (nonnull : nextProcess ≠ null) :
    (s.dispatch saved nextProcess).links = s.links.unlink null nextProcess := by
  unfold dispatch switchToProcess
  dsimp only
  split <;> simp [removeFromReadyQueue_eq s nonnull]

@[simp] theorem dispatch_identity : (s.dispatch saved nextProcess).identity = s.identity := by
  unfold dispatch switchToProcess
  dsimp only
  split <;> simp

@[simp] theorem dispatch_registry : (s.dispatch saved nextProcess).registry = s.registry := by
  unfold dispatch switchToProcess
  dsimp only
  split <;> simp

@[simp] theorem dispatch_currentProcess :
    (s.dispatch saved nextProcess).currentProcess = nextProcess := by
  unfold dispatch switchToProcess
  dsimp only
  split <;> simp

end Parts

/-! ## What one scheduling step does -/

section Step

variable (s : Kernel) (saved : CpuState)

@[simp] theorem schedule_identity : (s.schedule saved).identity = s.identity := by
  unfold schedule
  dsimp only
  split
  · split <;> simp
  · split <;> simp

@[simp] theorem schedule_registry : (s.schedule saved).registry = s.registry := by
  unfold schedule
  dsimp only
  split
  · split <;> simp
  · split <;> simp

/-- The head of the queue runs next, and the kernel process when there is none. -/
theorem schedule_currentProcess :
    (s.schedule saved).currentProcess = s.chosen := by
  unfold schedule chosen
  dsimp only
  split
  · split
    · exact congrArg Registry.kernelProcess (s.contextSwitch_registry saved _ _)
    · next idle => exact not_not.mp idle
  · split
    · next same => exact same.symm
    · rw [dispatch_currentProcess]

/-- With an empty queue no record changes its state. -/
theorem schedule_states_idle (empty : s.readyQueueHead = null) :
    (s.schedule saved).states = s.states := by
  rw [schedule, if_pos empty]
  split <;> simp

theorem schedule_states (nonempty : s.readyQueueHead ≠ null) :
    (s.schedule saved).states =
      if s.readyQueueHead = s.currentProcess then s.requeueCurrent.states
      else Function.update s.requeueCurrent.states s.readyQueueHead .running := by
  rw [schedule, if_neg nonempty]
  dsimp only
  rw [requeueCurrent_currentProcess]
  split
  · rfl
  · rw [dispatch_states]

theorem schedule_links_idle (empty : s.readyQueueHead = null) :
    (s.schedule saved).links = s.links := by
  rw [schedule, if_pos empty]
  split <;> simp

theorem schedule_links (nonempty : s.readyQueueHead ≠ null) :
    (s.schedule saved).links =
      if s.readyQueueHead = s.currentProcess then s.requeueCurrent.links
      else s.requeueCurrent.links.unlink null s.readyQueueHead := by
  rw [schedule, if_neg nonempty]
  dsimp only
  rw [requeueCurrent_currentProcess]
  split
  · rfl
  · rw [dispatch_links _ _ _ nonempty]

end Step

end Kernel

end SimpleOS
