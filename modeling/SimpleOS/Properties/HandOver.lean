import SimpleOS.Library.GuardedRun
import SimpleOS.Kernel.Operations

/-!
# Who is current when the scheduler hands over

`schedule` leaves the processor at three calls that return only when the old
process is switched back in.  Two of them come after the assignment to
`current_process`; the switch to the kernel process with nobody ready comes
before it.
-/

namespace SimpleOS

open Library.ByteMemory Library.LinkedChain Library.GuardedRun

/-- A call that transfers control: the variables at the transfer and who resumes. -/
structure Transfer where
  kernel : Kernel
  newProcess : Word

/-- The resumed process is the current one. -/
def Transfer.Right (transfer : Transfer) : Prop :=
  transfer.kernel.currentProcess = transfer.newProcess

instance (transfer : Transfer) : Decidable transfer.Right :=
  inferInstanceAs (Decidable (_ = _))

namespace Kernel

/-- `schedule` up to its transfer of control; `none` when it returns without one. -/
def transfer? (s : Kernel) (saved : CpuState) : Option Transfer :=
  if s.readyQueueHead = null then
    if s.currentProcess ≠ s.kernelProcess then
      -- `context_switch(current_process, kernel_process)` before the assignment
      some ⟨s.contextSwitch saved s.currentProcess s.kernelProcess, s.kernelProcess⟩
    else none
  else
    let nextProcess := s.readyQueueHead
    let s := s.requeueCurrent
    if nextProcess = s.currentProcess then none
    else
      let s := s.removeFromReadyQueue nextProcess
      let s := s.setState nextProcess .running
      let oldProcess := s.currentProcess
      let s := s.setCurrent nextProcess
      if oldProcess ≠ null then some ⟨s.contextSwitch saved oldProcess nextProcess, nextProcess⟩
      else some ⟨s.switchToProcess saved nextProcess, nextProcess⟩

/-- What `schedule` still executes when the old process has been switched back in. -/
def afterTransfer (s : Kernel) (transfer : Transfer) : Kernel :=
  if s.readyQueueHead = null then transfer.kernel.setCurrent s.kernelProcess
  else transfer.kernel

/-- With the transfers taken as ordinary calls, the two parts make up `schedule`. -/
theorem schedule_eq_afterTransfer (s : Kernel) (saved : CpuState) :
    s.schedule saved =
      match s.transfer? saved with
      | some transfer => s.afterTransfer transfer
      | none => if s.readyQueueHead = null then s else s.requeueCurrent := by
  unfold schedule transfer? afterTransfer dispatch
  by_cases idle : s.readyQueueHead = null
  · by_cases changes : s.currentProcess ≠ s.kernelProcess
    · simp only [if_pos idle, if_pos changes]
      congr 1
      exact congrArg Registry.kernelProcess (s.contextSwitch_registry saved _ s.kernelProcess)
    · simp only [if_pos idle, if_neg changes]
  · simp only [if_neg idle]
    split
    · rfl
    · split <;> rfl

section Sites

variable (s : Kernel) (saved : CpuState) {transfer : Transfer}

/-- The transfer with nobody ready leaves the old process current. -/
theorem transfer?_idle (idle : s.readyQueueHead = null)
    (transfers : s.transfer? saved = some transfer) :
    s.currentProcess ≠ s.kernelProcess ∧ transfer.newProcess = s.kernelProcess ∧
      transfer.kernel.currentProcess = s.currentProcess := by
  rw [transfer?, if_pos idle] at transfers
  split at transfers
  · next changes =>
      cases transfers
      exact ⟨changes, rfl, s.contextSwitch_currentProcess saved _ s.kernelProcess⟩
  · cases transfers

/-- The other two make the head of the queue current first. -/
theorem transfer?_ready (ready : s.readyQueueHead ≠ null)
    (transfers : s.transfer? saved = some transfer) : transfer.Right := by
  rw [transfer?, if_neg ready] at transfers
  dsimp only at transfers
  split at transfers
  · cases transfers
  · split at transfers
    · cases transfers
      exact contextSwitch_currentProcess _ saved _ s.readyQueueHead
    · cases transfers
      exact contextSwitch_currentProcess _ saved _ s.readyQueueHead

end Sites

/--
The resumed process is current at the transfer exactly when some process is
ready, or there is no transfer because the kernel process is current already.
-/
theorem transfer_right_iff (s : Kernel) (saved : CpuState) :
    (∀ transfer, s.transfer? saved = some transfer → transfer.Right) ↔
      s.readyQueueHead ≠ null ∨ s.currentProcess = s.kernelProcess := by
  constructor
  · intro right
    by_contra neither
    obtain ⟨notReady, changes⟩ := not_or.mp neither
    have idle := not_not.mp notReady
    have transfers : s.transfer? saved =
        some ⟨s.contextSwitch saved s.currentProcess s.kernelProcess, s.kernelProcess⟩ := by
      rw [transfer?, if_pos idle, if_pos changes]
    have same : (s.contextSwitch saved s.currentProcess s.kernelProcess).currentProcess =
        s.kernelProcess := right _ transfers
    rw [contextSwitch_currentProcess] at same
    exact changes same
  · rintro (ready | same) transfer transfers
    · exact s.transfer?_ready saved ready transfers
    · by_cases idle : s.readyQueueHead = null
      · exact absurd same (s.transfer?_idle saved idle transfers).1
      · exact s.transfer?_ready saved idle transfers

/-- A running child that is alone hands over to the kernel process while still current. -/
theorem idle_transfer_keeps_child :
    ¬ ∀ (s : Kernel) (saved : CpuState), s.kernelProcess ≠ null →
      ∀ transfer, s.transfer? saved = some transfer → transfer.Right := by
  intro right
  have facts : ∀ s, s = run (step Image.sample) (boot Image.sample) [.fork, .schedule {}] →
      s.kernelProcess ≠ null ∧ s.readyQueueHead = null ∧
        s.currentProcess ≠ s.kernelProcess := by
    intro s reached
    rw [reached]
    decide +kernel
  obtain ⟨nonnull, idle, changes⟩ := facts _ rfl
  generalize run (step Image.sample) (boot Image.sample) [.fork, .schedule {}] = s
    at nonnull idle changes
  have transfers : s.transfer? {} =
      some ⟨s.contextSwitch {} s.currentProcess s.kernelProcess, s.kernelProcess⟩ := by
    rw [transfer?, if_pos idle, if_pos changes]
  have same : (s.contextSwitch {} s.currentProcess s.kernelProcess).currentProcess =
      s.kernelProcess := right s {} nonnull _ transfers
  rw [contextSwitch_currentProcess] at same
  exact changes same

end Kernel

end SimpleOS
