import SimpleOS.Kernel.Syscalls

/-!
# Creation, tear-down and their ledger

The routines that create processes and the ones that tear them down, run in
any order.  Beside the kernel state the ledger keeps what the source does not
store: which processes have been created and not torn down, and which pointers
`kmalloc` has returned that have not been passed to `kfree` since.
-/

namespace SimpleOS

open Library.ByteMemory Library.LinkedChain

/-- A creation or a tear-down; a process argument is one of the records, or `none` for NULL. -/
inductive LifeOp where
  | create (name : Option CString) (entryPoint : Word) (priority : ProcessPriority)
  | createTest (name : Option CString) (entryPoint : Word) (priority : ProcessPriority)
  | fork
  | killByPid (pid : Word)
  | destroy (process : Option Slot)
  | cleanup (process : Option Slot)
  | wait (status : Word)

namespace LifeOp

/-- The operation destroys a record. -/
def Destroys : LifeOp → Prop
  | destroy process => process ≠ none
  | _ => False

end LifeOp

namespace Image

def pointer (image : Image) : Option Slot → Word
  | none => null
  | some slot => image.address slot

end Image

namespace Kernel

/-- The arguments `process_kill_by_pid` passes to `kfree` for its target, in order. -/
def killFrees (image : Image) (s : Kernel) (process : Word) : List Word :=
  let stackBase := (s.process process).stackBase
  let s := s.releaseStack image process
  [stackBase, (s.process process).heapBase].filter (· ≠ 0)

/-- The arguments `process_destroy` passes to `kfree`, in order; the last is the record. -/
def destroyFrees (image : Image) (s : Kernel) (process : Word) : List Word :=
  let s := s.removeFromReadyQueue process
  let stackBase := (s.process process).stackBase
  let s := if stackBase ≠ 0 then s.kfree image stackBase else s
  [stackBase, (s.process process).heapBase].filter (· ≠ 0) ++ [process]

/-- The non-NULL pointers an operation passes to `kfree`, in order. -/
def frees (image : Image) (s : Kernel) : LifeOp → List Word
  | .killByPid pid =>
      if s.Killable pid then s.killFrees image (s.processFindByPid pid) else []
  | .destroy process =>
      if image.pointer process = null then [] else s.destroyFrees image (image.pointer process)
  | _ => []

/-- The non-NULL pointers `kmalloc` returns in an operation. -/
def allocations (image : Image) (s : Kernel) : LifeOp → List Word
  | .create (some _) _ _ =>
      if 10 ≤ s.createCount then []
      else [(s.kmalloc image 4096).1].filter (· ≠ null)
  | _ => []

/-- The process an operation creates, or NULL. -/
def createdBy (image : Image) (s : Kernel) : LifeOp → Word
  | .create name entryPoint priority => (s.processCreate image name entryPoint priority).1
  | .createTest name entryPoint priority => (s.processCreateTest image name entryPoint priority).1
  | .fork =>
      if s.currentProcess = null then null else (s.processCreateCopy image s.currentProcess).1
  | _ => null

/-- The process an operation tears down, or NULL. -/
def tornDownBy (image : Image) (s : Kernel) : LifeOp → Word
  | .killByPid pid => if s.Killable pid then s.processFindByPid pid else null
  | .destroy process => image.pointer process
  | .cleanup process => image.pointer process
  | .wait _ => s.reaped?.getD null
  | _ => null

/-- The state after an operation. -/
def lifeStep (image : Image) (s : Kernel) : LifeOp → Kernel
  | .create name entryPoint priority => (s.processCreate image name entryPoint priority).2
  | .createTest name entryPoint priority => (s.processCreateTest image name entryPoint priority).2
  | .fork => (s.sysFork image).2
  | .killByPid pid => (s.processKillByPid image pid).2
  | .destroy process => s.processDestroy image (image.pointer process)
  | .cleanup process => s.processCleanup (image.pointer process)
  | .wait status => (s.sysWait image status).2

end Kernel

/-- The kernel with the processes that live and the blocks that are allocated. -/
structure Ledger where
  kernel : Kernel
  live : List Word
  allocated : List Word

namespace Ledger

/-- After booting only the kernel process lives, and nothing is allocated. -/
def boot (image : Image) : Ledger where
  kernel := .boot image
  live := [(Kernel.boot image).kernelProcess]
  allocated := []

/-- The processes that live after `created` and `tornDown` have begun and ended, if not NULL. -/
def livingAfter (live : List Word) (created tornDown : Word) : List Word :=
  ((if created = null then [] else [created]) ++ live).filter (· ≠ tornDown)

theorem mem_filter_ne {live : List Word} {gone process : Word} :
    process ∈ live.filter (· ≠ gone) ↔ process ∈ live ∧ process ≠ gone := by
  rw [List.mem_filter, decide_eq_true_eq]

theorem mem_livingAfter {live : List Word} {created tornDown process : Word} :
    process ∈ livingAfter live created tornDown ↔
      ((process = created ∧ created ≠ null) ∨ process ∈ live) ∧ process ≠ tornDown := by
  rw [livingAfter, mem_filter_ne, List.mem_append]
  by_cases isNull : created = null
  · simp [isNull]
  · simp [isNull]

theorem livingAfter_tornDown (live : List Word) (tornDown : Word) :
    livingAfter live null tornDown = live.filter (· ≠ tornDown) := rfl

section Clean

variable {live : List Word} (clean : null ∉ live)

include clean

theorem livingAfter_idle : livingAfter live null null = live := by
  rw [livingAfter_tornDown, List.filter_eq_self]
  intro process member
  exact decide_eq_true fun isNull => clean (isNull ▸ member)

theorem livingAfter_created {created : Word} (nonnull : created ≠ null) :
    livingAfter live created null = created :: live := by
  have rest := livingAfter_idle clean
  rw [livingAfter_tornDown] at rest
  rw [livingAfter, if_neg nonnull, List.singleton_append, List.filter_cons,
    if_pos (decide_eq_true nonnull), rest]

end Clean

/-- One operation, entered in the ledger. -/
def step (image : Image) (l : Ledger) (op : LifeOp) : Ledger where
  kernel := l.kernel.lifeStep image op
  live := livingAfter l.live (l.kernel.createdBy image op) (l.kernel.tornDownBy image op)
  allocated := (l.kernel.allocations image op ++ l.allocated).diff (l.kernel.frees image op)

end Ledger

end SimpleOS
