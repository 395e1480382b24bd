import SimpleOS.Kernel.Syscalls

/-!
# Failed operations change nothing

Every operation that reports a failure does so before its first assignment.
Two results are ambiguous in states the kernel never reaches: `sys_wait`
reports success by returning a pid, which could be that of an error, and the
block `kmalloc` grants at the very end of the address space has address NULL.
-/

namespace SimpleOS

open Library.ByteMemory

/-- One of the operations that can fail, with all its arguments. -/
inductive Attempt where
  | syscall (saved : CpuState) (number arg1 arg2 arg3 : Word)
  | killByPid (pid : Word)
  | setStatus (pid : Word) (status : ProcessState)
  | create (name : Option CString) (entryPoint : Word) (priority : ProcessPriority)
  | createTest (name : Option CString) (entryPoint : Word) (priority : ProcessPriority)
  | createCopy (parent : Word)

namespace Kernel

/-- The state after an attempt. -/
def after (image : Image) (s : Kernel) : Attempt → Kernel
  | .syscall saved number arg1 arg2 arg3 =>
      (s.syscallHandler image saved number arg1 arg2 arg3).2
  | .killByPid pid => (s.processKillByPid image pid).2
  | .setStatus pid status => (s.processSetStatus pid status).2
  | .create name entryPoint priority => (s.processCreate image name entryPoint priority).2
  | .createTest name entryPoint priority => (s.processCreateTest image name entryPoint priority).2
  | .createCopy parent => (s.processCreateCopy image parent).2

/-- The result of the attempt reports a failure. -/
def Fails (image : Image) (s : Kernel) : Attempt → Prop
  | .syscall saved number arg1 arg2 arg3 =>
      (s.syscallHandler image saved number arg1 arg2 arg3).1 = -1
  | .killByPid pid =>
      (s.processKillByPid image pid).1 = processNotFound ∨
        (s.processKillByPid image pid).1 = processProtected
  | .setStatus pid status => (s.processSetStatus pid status).1 = 0
  | .create name entryPoint priority => (s.processCreate image name entryPoint priority).1 = null
  | .createTest name entryPoint priority =>
      (s.processCreateTest image name entryPoint priority).1 = null
  | .createCopy parent => (s.processCreateCopy image parent).1 = null

instance (image : Image) (s : Kernel) : (attempt : Attempt) → Decidable (s.Fails image attempt)
  | .syscall _ _ _ _ _ => inferInstanceAs (Decidable (_ = _))
  | .killByPid _ => inferInstanceAs (Decidable (_ ∨ _))
  | .setStatus _ _ => inferInstanceAs (Decidable (_ = _))
  | .create _ _ _ => inferInstanceAs (Decidable (_ = _))
  | .createTest _ _ _ => inferInstanceAs (Decidable (_ = _))
  | .createCopy _ => inferInstanceAs (Decidable (_ = _))

/-- The process is in the process table. -/
def Listed (s : Kernel) (process : Word) : Prop :=
  ∃ entry < maxProcesses, s.processTable entry = process

/--
A success cannot be mistaken for a failure: a reaped child has a pid other than
the error code, and a stack for `process_create` would not have address NULL.
-/
def Distinct (s : Kernel) : Attempt → Prop
  | .syscall _ number _ _ _ => number = sysWaitNumber →
      ∀ child, s.reaped? = some child → (s.process child).pid ≠ -1
  | .create _ _ _ => s.heapCurrent + 4 ≠ null
  | _ => True

/-! ## The results of the operations -/

section Results

variable (image : Image) (s : Kernel)

theorem sysExec_fst (program : Option CString) (execs : s.Execs program) :
    (s.sysExec image program).1 = 0 := by
  cases program with
  | none => exact absurd execs.2 (by simp)
  | some program =>
      cases found : execFindProgram program with
      | none => exact absurd execs.2 (by simp [found])
      | some entry => simp only [sysExec, if_neg execs.1, found]

theorem sysKill_fst (pid signal : Word) (killable : s.Killable pid) :
    (s.sysKill pid signal).1 = 0 := by
  rw [sysKill, if_neg killable.1]
  dsimp only
  rw [if_neg killable.2.1, if_neg killable.2.2]
  split <;> rfl

theorem processKillByPid_fst (pid : Word) (killable : s.Killable pid) :
    (s.processKillByPid image pid).1 = processSuccess := by
  have notCurrent : ¬ (s.processFindByPid pid = s.currentProcess ∧
      s.currentProcess = s.kernelProcess) :=
    fun both => killable.2.2 (both.1.trans both.2)
  rw [processKillByPid, if_neg killable.1]
  dsimp only
  rw [if_neg killable.2.1, if_neg killable.2.2, if_neg notCurrent]

/-- Short of the end of the address space, a NULL result of `kmalloc` is a refusal. -/
theorem kmalloc_null (size : Word) (distinct : s.heapCurrent + 4 ≠ null)
    (isNull : (s.kmalloc image size).1 = null) : (s.kmalloc image size).2 = s := by
  rw [kmalloc, SimpleOS.kmalloc_eq] at isNull ⊢
  split
  · rfl
  · next granted =>
    split at granted
    · cases granted
    · next fits =>
      rw [if_neg fits] at isNull
      exact absurd isNull distinct

theorem processSetStatus_fst (pid : Word) (status : ProcessState)
    (settable : s.Settable pid status) : (s.processSetStatus pid status).1 = 1 := by
  obtain ⟨found, rfl | rfl | rfl⟩ := settable <;> simp [processSetStatus, found]

end Results

/-! ## Failures -/

section Failures

variable {image : Image} {s : Kernel}

theorem sysFork_failed (failed : (s.sysFork image).1 = -1) : (s.sysFork image).2 = s := by
  refine sysFork_refused image s ?_
  by_contra granted
  obtain ⟨nonnull, room⟩ := not_or.mp granted
  rw [sysFork_fst image s nonnull (Nat.lt_of_not_le room)] at failed
  have value := congrArg BitVec.toNat failed
  rw [BitVec.toNat_ofNat, show (-1 : Word).toNat = 0xFFFFFFFF by decide] at value
  omega

theorem sysExec_failed {program : Option CString}
    (failed : BitVec.ofInt 32 (s.sysExec image program).1 = -1) :
    (s.sysExec image program).2 = s := by
  refine sysExec_refused image s program fun execs => ?_
  rw [sysExec_fst image s program execs] at failed
  exact absurd failed (by decide)

theorem sysKill_failed {pid signal : Word}
    (failed : BitVec.ofInt 32 (s.sysKill pid signal).1 = -1) : (s.sysKill pid signal).2 = s := by
  rw [sysKill_snd, if_neg]
  intro kills
  rw [sysKill_fst s pid signal kills.1] at failed
  exact absurd failed (by decide)

/-- A wait that reaps a child returns the child's pid. -/
theorem sysWait_failed {status : Word}
    (distinct : ∀ child, s.reaped? = some child → (s.process child).pid ≠ -1)
    (failed : (s.sysWait image status).1 = -1) : (s.sysWait image status).2 = s := by
  cases reaps : s.reaped? with
  | none => exact s.sysWait_none image reaps status
  | some child =>
      refine absurd ?_ (distinct child reaps)
      by_cases noCurrent : s.currentProcess = null
      · simp [reaped?, noCurrent] at reaps
      · rw [reaped?, if_neg noCurrent] at reaps
        obtain ⟨index, found, here⟩ := Option.map_eq_some_iff.mp reaps
        rw [sysWait, if_neg noCurrent, found] at failed
        rw [← here]
        exact failed

theorem syscallHandler_failed {saved : CpuState} {number arg1 arg2 arg3 : Word}
    (distinct : number = sysWaitNumber →
      ∀ child, s.reaped? = some child → (s.process child).pid ≠ -1)
    (failed : (s.syscallHandler image saved number arg1 arg2 arg3).1 = -1) :
    (s.syscallHandler image saved number arg1 arg2 arg3).2 = s := by
  unfold syscallHandler at failed ⊢
  by_cases exits : number = sysExitNumber
  · rw [if_pos exits] at failed
    exact absurd (show (0 : Word) = -1 from failed) (by decide)
  · rw [if_neg exits] at failed ⊢
    by_cases forks : number = sysForkNumber
    · rw [if_pos forks] at failed ⊢
      exact sysFork_failed failed
    · rw [if_neg forks] at failed ⊢
      by_cases execs : number = sysExecNumber
      · rw [if_pos execs] at failed ⊢
        exact sysExec_failed failed
      · rw [if_neg execs] at failed ⊢
        by_cases waits : number = sysWaitNumber
        · rw [if_pos waits] at failed ⊢
          exact sysWait_failed (distinct waits) failed
        · rw [if_neg waits] at failed ⊢
          by_cases asks : number = sysGetpidNumber
          · rw [if_pos asks]
          · rw [if_neg asks] at failed ⊢
            by_cases kills : number = sysKillNumber
            · rw [if_pos kills] at failed ⊢
              exact sysKill_failed failed
            · rw [if_neg kills]

theorem processKillByPid_failed {pid : Word}
    (failed : (s.processKillByPid image pid).1 = processNotFound ∨
      (s.processKillByPid image pid).1 = processProtected) :
    (s.processKillByPid image pid).2 = s := by
  refine processKillByPid_refused s image pid fun killable => ?_
  rw [processKillByPid_fst image s pid killable] at failed
  exact absurd failed (by decide)

theorem processSetStatus_failed {pid : Word} {status : ProcessState}
    (failed : (s.processSetStatus pid status).1 = 0) :
    (s.processSetStatus pid status).2 = s := by
  rw [processSetStatus_snd, if_neg]
  intro settable
  rw [processSetStatus_fst s pid status settable] at failed
  exact absurd failed (by decide)

theorem processCreate_failed {name : Option CString} {entryPoint : Word}
    {priority : ProcessPriority} (distinct : s.heapCurrent + 4 ≠ null)
    (failed : (s.processCreate image name entryPoint priority).1 = null) :
    (s.processCreate image name entryPoint priority).2 = s := by
  cases name with
  | none => rfl
  | some name =>
      rw [processCreate] at failed ⊢
      by_cases full : 10 ≤ s.createCount
      · simp only [if_pos full]
      · simp only [if_neg full] at failed ⊢
        by_cases refused : (s.kmalloc image 4096).1 = null
        · simp only [if_pos refused]
          exact kmalloc_null image s 4096 distinct refused
        · simp only [if_neg refused] at failed
          exact absurd failed (Image.createSlot_ne_null (Nat.lt_of_not_le full))

theorem processCreateTest_failed {name : Option CString} {entryPoint : Word}
    {priority : ProcessPriority}
    (failed : (s.processCreateTest image name entryPoint priority).1 = null) :
    (s.processCreateTest image name entryPoint priority).2 = s := by
  by_cases room : s.testCount < 10
  · rw [processCreateTest_room image s room] at failed
    exact absurd failed (Image.testSlot_ne_null room)
  · rw [processCreateTest_full image s (Nat.le_of_not_lt room)]

theorem processCreateCopy_failed {parent : Word}
    (failed : (s.processCreateCopy image parent).1 = null) :
    (s.processCreateCopy image parent).2 = s := by
  by_cases noParent : parent = null
  · rw [processCreateCopy, if_pos noParent]
  · by_cases room : s.testCount < 10
    · rw [processCreateCopy_fst image s room parent noParent] at failed
      exact absurd failed (Image.testSlot_ne_null room)
    · rw [processCreateCopy, if_neg noParent]
      simp [processCreateTest_full image s (Nat.le_of_not_lt room)]

end Failures

/-- A failure whose result is no other operation's success leaves the whole state alone. -/
theorem failed_unchanged (image : Image) (s : Kernel) (attempt : Attempt)
    (distinct : s.Distinct attempt) (failed : s.Fails image attempt) :
    s.after image attempt = s := by
  cases attempt with
  | syscall saved number arg1 arg2 arg3 => exact syscallHandler_failed distinct failed
  | killByPid pid => exact processKillByPid_failed failed
  | setStatus pid status => exact processSetStatus_failed failed
  | create name entryPoint priority => exact processCreate_failed distinct failed
  | createTest name entryPoint priority => exact processCreateTest_failed failed
  | createCopy parent => exact processCreateCopy_failed failed

/-- A kill of the kernel process fails on the booted kernel. -/
theorem failed_unchanged_kill_kernel :
    (boot Image.sample).after Image.sample (.syscall {} sysKillNumber 1 9 0) = boot Image.sample :=
  failed_unchanged Image.sample (boot Image.sample) (.syscall {} sysKillNumber 1 9 0)
    (fun waits => absurd waits (by decide)) (by decide +kernel)

/-- The booted kernel with a terminated child whose pid is that of an error. -/
def misnumbered : Kernel :=
  ((boot Image.sample).modify (Image.sample.testSlot 1) fun record =>
    { record with pid := -1, parentPid := 1, state := .terminated }).setTable 2
      (Image.sample.testSlot 1)

/-- Reaping that child returns the error code and clears its record. -/
theorem reaped_child_reads_as_failure :
    ¬ ∀ (image : Image) (s : Kernel) (attempt : Attempt),
      (s.currentProcess = null ∨ s.Listed s.currentProcess) →
        s.Fails image attempt → s.after image attempt = s := by
  intro unchanged
  have listed : misnumbered.Listed misnumbered.currentProcess :=
    ⟨1, by decide, by decide +kernel⟩
  have same := unchanged Image.sample misnumbered (.syscall {} sysWaitNumber null 0 0)
    (Or.inr listed) (by decide +kernel)
  have pids := congrArg (fun s : Kernel => (s.process (Image.sample.testSlot 1)).pid) same
  revert pids
  decide +kernel

/-- A stack granted at the end of the address space has address NULL, and the heap has moved. -/
theorem null_stack_reads_as_failure :
    ¬ ∀ (image : Image) (s : Kernel) (name : Option CString) (entryPoint : Word)
        (priority : ProcessPriority),
      s.Fails image (.create name entryPoint priority) →
        s.after image (.create name entryPoint priority) = s := by
  intro unchanged
  have same := unchanged Image.sample { boot Image.sample with heapCurrent := 0xFFFFFFFC }
    (some []) 0 .normal (by decide +kernel)
  have heaps := congrArg Kernel.heapCurrent same
  revert heaps
  decide +kernel

end Kernel

end SimpleOS
