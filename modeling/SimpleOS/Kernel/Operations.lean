import Mathlib.Tactic.SplitIfs
import SimpleOS.Kernel.Syscalls

/-!
# Runs of process operations

The operations that the shell, the timer and the processes themselves apply to
the booted kernel, with all their arguments, as one step function.
-/

namespace SimpleOS

open Library.ByteMemory Library.LinkedChain

/-- A process operation; `saved` is the CPU state a context switch stores. -/
inductive ProcessOp where
  | createTest (name : Option CString) (entryPoint : Word) (priority : ProcessPriority)
  | fork
  | exec (program : Option CString)
  | exit (saved : CpuState) (exitCode : Word)
  | processExit (exitCode : Word)
  | kill (pid signal : Word)
  | wait (status : Word)
  | killByPid (pid : Word)
  | setStatus (pid : Word) (status : ProcessState)
  | changeCurrent (pid : Word)
  | schedule (saved : CpuState)

namespace ProcessOp

/-- The status pointer of a wait is NULL or leads to a word that is not the kernel's own. -/
def StatusOutside (image : Image) : ProcessOp → Prop
  | wait status => status = null ∨ image.Outside status
  | _ => True

/-- The operation may create a process. -/
def Creates : ProcessOp → Prop
  | createTest _ _ _ => True
  | fork => True
  | _ => False

end ProcessOp

namespace Kernel

/-- The state after one operation. -/
def step (image : Image) (s : Kernel) : ProcessOp → Kernel
  | .createTest name entryPoint priority => (s.processCreateTest image name entryPoint priority).2
  | .fork => (s.sysFork image).2
  | .exec program => (s.sysExec image program).2
  | .exit saved exitCode => s.sysExit saved exitCode
  | .processExit exitCode => s.processExit exitCode
  | .kill pid signal => (s.sysKill pid signal).2
  | .wait status => (s.sysWait image status).2
  | .killByPid pid => (s.processKillByPid image pid).2
  | .setStatus pid status => (s.processSetStatus pid status).2
  | .changeCurrent pid => s.changeCurrentProcess pid
  | .schedule saved => s.schedule saved

end Kernel

/-! ## System calls among the operations of the shell -/

/-- A system call with its registers, or an operation of the shell, the timer or a process. -/
inductive KernelOp where
  | syscall (saved : CpuState) (number arg1 arg2 arg3 : Word)
  | killByPid (pid : Word)
  | setStatus (pid : Word) (status : ProcessState)
  | changeCurrent (pid : Word)
  | processExit (exitCode : Word)
  | create (name : Option CString) (entryPoint : Word) (priority : ProcessPriority)
  | createTest (name : Option CString) (entryPoint : Word) (priority : ProcessPriority)
  | schedule (saved : CpuState)

namespace KernelOp

/-- The status pointer of a `sys_wait` is NULL or leads to a word that is not the kernel's own. -/
def StatusOutside (image : Image) : KernelOp → Prop
  | syscall _ number arg1 _ _ =>
      number = sysWaitNumber → arg1 = null ∨ image.Outside arg1
  | _ => True

end KernelOp

namespace Kernel

/-- The state after one system call or operation. -/
def kernelStep (image : Image) (s : Kernel) : KernelOp → Kernel
  | .syscall saved number arg1 arg2 arg3 =>
      (s.syscallHandler image saved number arg1 arg2 arg3).2
  | .killByPid pid => (s.processKillByPid image pid).2
  | .setStatus pid status => (s.processSetStatus pid status).2
  | .changeCurrent pid => s.changeCurrentProcess pid
  | .processExit exitCode => s.processExit exitCode
  | .create name entryPoint priority => (s.processCreate image name entryPoint priority).2
  | .createTest name entryPoint priority => (s.processCreateTest image name entryPoint priority).2
  | .schedule saved => s.schedule saved

/-- The process operation a system call performs, if any. -/
def dispatched (image : Image) (s : Kernel) (saved : CpuState) (number arg1 arg2 : Word) :
    Option ProcessOp :=
  if number = sysExitNumber then some (.exit saved arg1)
  else if number = sysForkNumber then some .fork
  else if number = sysExecNumber then
    some (.exec (if arg1 = null then none else some (cstringAt (s.read image) arg1)))
  else if number = sysWaitNumber then some (.wait arg1)
  else if number = sysKillNumber then some (.kill arg1 arg2)
  else none

/-- The dispatcher performs that operation; every other number changes nothing. -/
theorem syscallHandler_snd (image : Image) (s : Kernel) (saved : CpuState)
    (number arg1 arg2 arg3 : Word) :
    (s.syscallHandler image saved number arg1 arg2 arg3).2 =
      match s.dispatched image saved number arg1 arg2 with
      | some op => s.step image op
      | none => s := by
  unfold syscallHandler dispatched
  split
  · rfl
  · split
    · rfl
    · split
      · rfl
      · split
        · rfl
        · split
          · next getpid =>
              rw [if_neg (show number ≠ sysKillNumber by rw [getpid]; decide)]
          · split <;> rfl

/-- Only call number 4 waits, and it passes its argument on. -/
theorem dispatched_wait {image : Image} {s : Kernel} {saved : CpuState}
    {number arg1 arg2 status : Word}
    (performs : s.dispatched image saved number arg1 arg2 = some (.wait status)) :
    number = sysWaitNumber ∧ arg1 = status := by
  unfold dispatched at performs
  split_ifs at performs
  all_goals cases performs
  exact ⟨‹number = sysWaitNumber›, rfl⟩

/-- Only call number 1 exits. -/
theorem dispatched_exit {image : Image} {s : Kernel} {saved later : CpuState}
    {number arg1 arg2 exitCode : Word}
    (performs : s.dispatched image saved number arg1 arg2 = some (.exit later exitCode)) :
    number = sysExitNumber := by
  unfold dispatched at performs
  split_ifs at performs
  all_goals first | assumption | cases performs

/-- A call performs no operation of the shell. -/
theorem dispatched_ne_setStatus (image : Image) (s : Kernel) (saved : CpuState)
    (number arg1 arg2 pid : Word) (status : ProcessState) :
    s.dispatched image saved number arg1 arg2 ≠ some (.setStatus pid status) := by
  intro performs
  unfold dispatched at performs
  split_ifs at performs <;> cases performs

/-- The process operation that a call or operation amounts to, if any. -/
def operation (image : Image) (s : Kernel) : KernelOp → Option ProcessOp
  | .syscall saved number arg1 arg2 _ => s.dispatched image saved number arg1 arg2
  | .killByPid pid => some (.killByPid pid)
  | .setStatus pid status => some (.setStatus pid status)
  | .changeCurrent pid => some (.changeCurrent pid)
  | .processExit exitCode => some (.processExit exitCode)
  | .create _ _ _ => none
  | .createTest name entryPoint priority => some (.createTest name entryPoint priority)
  | .schedule saved => some (.schedule saved)

/-- A creation with a name is the only thing more than that. -/
theorem kernelStep_eq (image : Image) (s : Kernel) {op : KernelOp}
    (unnamed : ∀ name entryPoint priority, op = .create name entryPoint priority → name = none) :
    s.kernelStep image op =
      match s.operation image op with
      | some performed => s.step image performed
      | none => s := by
  cases op with
  | syscall saved number arg1 arg2 arg3 =>
      exact s.syscallHandler_snd image saved number arg1 arg2 arg3
  | create name entryPoint priority =>
      rw [unnamed name entryPoint priority rfl]
      rfl
  | _ => rfl

theorem operation_outside {image : Image} {s : Kernel} {op : KernelOp} {performed : ProcessOp}
    (outside : op.StatusOutside image) (performs : s.operation image op = some performed) :
    performed.StatusOutside image := by
  cases performed with
  | wait status =>
      cases op with
      | syscall saved number arg1 arg2 arg3 =>
          obtain ⟨waits, same⟩ := dispatched_wait performs
          exact same ▸ outside waits
      | _ => cases performs
  | _ => trivial

end Kernel

end SimpleOS
