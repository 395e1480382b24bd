import SimpleOS.Invariant.Named

/-!
# The characters of names

Every character of a name comes from a name given to a creation, from the name
of a program, or from the name of the kernel process: what holds of the
characters that are given holds of the characters in all records.
-/

namespace SimpleOS

open Library.ByteMemory Library.LinkedChain Library.ArrayText

/-- The characters an operation brings into a name. -/
def ProcessOp.Gives (letter : Byte → Prop) : ProcessOp → Prop
  | .createTest name _ _ => ∀ char ∈ name.getD [], letter char
  | .exec program => ∀ char ∈ program.getD [], letter char
  | _ => True

/-- The name of a copy has no other characters than the name that is copied. -/
theorem mem_storedName_nameString {record : Process} {char : Byte}
    (member : char ∈ storedName record.nameString) : char ∈ record.nameText := by
  have first : char ∈ textIn 0 record.name 63 := List.mem_of_mem_take member
  exact mem_textIn_of_le (by decide) first

/-- A program name that is short enough is read back as it was copied. -/
theorem stringCopy_text {program : CString} (short : (upTo 0 program).length < nameSize)
    (target : Nat → Byte) : textIn 0 (stringCopy program 0 target) nameSize = upTo 0 program := by
  have written {offset : Nat} {char : Byte} (here : (upTo 0 program ++ [0])[offset]? = some char) :
      stringCopy program 0 target offset = char := by
    have inside : place target 0 (upTo 0 program ++ [0]) (0 + offset) = char := place_inside here
    rwa [Nat.zero_add, ← stringCopy_eq] at inside
  refine textIn_eq (not_mem_upTo program) short (fun spot inside => ?_) (written (by simp))
  have char := List.getElem?_eq_getElem inside
  rw [char, written ((List.getElem?_append_left inside).trans char)]

namespace Kernel

/-- All characters of all names are letters. -/
def Lettered (letter : Byte → Prop) (s : Kernel) : Prop :=
  ∀ target, ∀ char ∈ (s.process target).nameText, letter char

variable {letter : Byte → Prop} {image : Image} {s : Kernel}

namespace Lettered

theorem rename (lettered : s.Lettered letter) {target : Word} {change : Process → Process}
    (letters : ∀ char ∈ (change (s.process target)).nameText, letter char) :
    (s.modify target change).Lettered letter := by
  intro other
  rcases Classical.em (other = target) with rfl | different
  · rw [modify_self]
    exact letters
  · rw [modify_other s change different]
    exact lettered other

/-- An assignment to other fields than the name. -/
theorem assign (lettered : s.Lettered letter) (target : Word) {change : Process → Process}
    (name : (change (s.process target)).name = (s.process target).name) :
    (s.modify target change).Lettered letter := by
  refine lettered.rename ?_
  rw [Process.nameText, name]
  exact lettered target

theorem setState (lettered : s.Lettered letter) (target : Word) (state : ProcessState) :
    (s.setState target state).Lettered letter := lettered.assign target rfl

theorem withLinks (lettered : s.Lettered letter) (links : Links Word) :
    (s.withLinks links).Lettered letter := lettered

theorem removeFromReadyQueue (lettered : s.Lettered letter) (process : Word) :
    (s.removeFromReadyQueue process).Lettered letter := by
  rcases Classical.em (process = null) with isNull | nonnull
  · rw [Kernel.removeFromReadyQueue, if_pos isNull]
    exact lettered
  · rw [s.removeFromReadyQueue_eq nonnull]
    exact lettered.withLinks _

theorem addToReadyQueue (lettered : s.Lettered letter) (process : Word) :
    (s.addToReadyQueue process).Lettered letter := by
  obtain ⟨links, queued⟩ := s.addToReadyQueue_exists process
  rw [queued]
  exact lettered.withLinks links

theorem overwrite (lettered : s.Lettered letter) {patch : Patch}
    (untouched : ∀ slot ∈ image.slots, touches patch slot = false) :
    (s.overwrite image patch).Lettered letter := by
  rw [s.overwrite_of_untouched image untouched]
  exact lettered

theorem contextSwitch (lettered : s.Lettered letter) (saved : CpuState)
    (oldProcess newProcess : Word) :
    (s.contextSwitch saved oldProcess newProcess).Lettered letter := by
  unfold Kernel.contextSwitch
  split
  · exact lettered
  · exact lettered.assign oldProcess rfl

/-! ## Scheduling and marking -/

theorem requeueCurrent (lettered : s.Lettered letter) : s.requeueCurrent.Lettered letter := by
  have marked := lettered.setState s.currentProcess .ready
  unfold Kernel.requeueCurrent
  split
  · dsimp only
    split
    · exact (marked.removeFromReadyQueue _).addToReadyQueue _
    · exact marked
  · exact lettered

theorem dispatch (lettered : s.Lettered letter) (saved : CpuState) (nextProcess : Word) :
    (s.dispatch saved nextProcess).Lettered letter := by
  have running := (lettered.removeFromReadyQueue nextProcess).setState nextProcess .running
  unfold Kernel.dispatch
  dsimp only
  split
  · exact contextSwitch (s := Kernel.setCurrent _ nextProcess) running saved _ nextProcess
  · exact contextSwitch (s := Kernel.setCurrent _ nextProcess) running saved _ nextProcess

theorem schedule (lettered : s.Lettered letter) (saved : CpuState) :
    (s.schedule saved).Lettered letter := by
  unfold Kernel.schedule
  split
  · split
    · exact lettered.contextSwitch saved s.currentProcess s.kernelProcess
    · exact lettered
  · dsimp only
    split
    · exact lettered.requeueCurrent
    · exact lettered.requeueCurrent.dispatch saved _

theorem processExit (lettered : s.Lettered letter) (exitCode : Word) :
    (s.processExit exitCode).Lettered letter := by
  unfold Kernel.processExit
  split
  · exact lettered.setState s.currentProcess .terminated
  · exact lettered

theorem sysExit (lettered : s.Lettered letter) (saved : CpuState) (exitCode : Word) :
    (s.sysExit saved exitCode).Lettered letter := by
  rcases Classical.em (s.currentProcess = null) with current | current
  · rw [sysExit_null s saved exitCode current]
    exact lettered
  · rw [sysExit_eq s saved exitCode current]
    have marked := lettered.setState s.currentProcess .terminated
    have coded : ((s.setState s.currentProcess .terminated).setExitCode s.currentProcess
        exitCode).Lettered letter := marked.assign s.currentProcess rfl
    exact schedule (s := Kernel.setCurrent _ null) coded saved

theorem sysKill (lettered : s.Lettered letter) (pid signal : Word) :
    (s.sysKill pid signal).2.Lettered letter := by
  rw [sysKill_snd]
  split
  · exact (lettered.setState _ .terminated).assign _ rfl
  · exact lettered

theorem processSetStatus (lettered : s.Lettered letter) (pid : Word) (status : ProcessState) :
    (s.processSetStatus pid status).2.Lettered letter := by
  rw [processSetStatus_snd]
  split
  · exact lettered.setState _ status
  · exact lettered

theorem changeCurrentProcess (lettered : s.Lettered letter) (pid : Word) :
    (s.changeCurrentProcess pid).Lettered letter := by
  rw [changeCurrentProcess_eq]
  split
  · exact setState (s := s.setCurrent _) lettered _ .running
  · exact lettered

/-! ## Tear-down -/

theorem processCleanup (lettered : s.Lettered letter) (process : Word) :
    (s.processCleanup process).Lettered letter := by
  unfold Kernel.processCleanup
  split
  · exact lettered
  · dsimp only
    refine rename ?_ fun char member => ?_
    · refine removeFromReadyQueue ?_ process
      split <;> exact lettered
    · exact absurd member List.not_mem_nil

theorem sysWait (lettered : s.Lettered letter) {status : Word}
    (offRecords : status = null ∨ image.OffRecords status) :
    (s.sysWait image status).2.Lettered letter := by
  unfold Kernel.sysWait
  split
  · exact lettered
  · split
    · exact lettered
    · refine processCleanup ?_ _
      rw [s.storeStatus_offRecords image offRecords]
      exact lettered

theorem processKillByPid (lettered : s.Lettered letter) {pid : Word}
    (apart : s.Killable pid → s.FreesApart image (s.processFindByPid pid)) :
    (s.processKillByPid image pid).2.Lettered letter := by
  rcases Classical.em (s.Killable pid) with killable | refused
  · have missed := apart killable
    have stack : (s.releaseStack image (s.processFindByPid pid)).Lettered letter := by
      unfold releaseStack
      split
      · refine assign ?_ _ rfl
        exact lettered.overwrite fun slot member => (touches_andThen (missed slot member)).1
      · exact lettered
    have heap : ((s.releaseStack image (s.processFindByPid pid)).releaseHeap image
        (s.processFindByPid pid)).Lettered letter := by
      unfold releaseHeap
      split
      · refine assign ?_ _ rfl
        exact stack.overwrite fun slot member => (touches_andThen (missed slot member)).2
      · exact stack
    rw [processKillByPid_of_killable s image pid killable]
    exact heap.setState _ .terminated
  · rw [s.processKillByPid_refused image pid refused]
    exact lettered

/-! ## Creation -/

theorem processCreateTest (lettered : s.Lettered letter) (name : Option CString)
    (letters : ∀ char ∈ storedName (name.getD []), letter char) (entryPoint : Word)
    (priority : ProcessPriority) :
    (s.processCreateTest image name entryPoint priority).2.Lettered letter := by
  rcases Nat.lt_or_ge s.testCount 10 with room | full
  · rw [processCreateTest_room image s room]
    have named : ∀ char ∈ (Kernel.created image s name entryPoint priority
        (s.process (image.testSlot s.testCount))).nameText, letter char := by
      rw [Kernel.created, fillTest_nameText]
      exact letters
    exact lettered.rename named
  · rw [processCreateTest_full image s full]
    exact lettered

theorem sysFork (lettered : s.Lettered letter) : (s.sysFork image).2.Lettered letter := by
  have created : (s.processCreateTest image (some (s.process s.currentProcess).nameString)
      (s.process s.currentProcess).cpuState.eip
      (s.process s.currentProcess).priority).2.Lettered letter := by
    refine lettered.processCreateTest _ (fun char member => ?_) _ _
    exact lettered s.currentProcess char (mem_storedName_nameString member)
  have copied : (s.processCreateCopy image s.currentProcess).2.Lettered letter := by
    unfold processCreateCopy
    split
    · exact lettered
    · dsimp only
      split
      · exact created
      · dsimp only
        refine assign ?_ _ rfl
        refine assign ?_ _ rfl
        exact created.assign _ rfl
  unfold Kernel.sysFork
  split
  · exact lettered
  · dsimp only
    split
    · exact copied
    · exact (copied.assign _ rfl).addToReadyQueue _

theorem sysExec (lettered : s.Lettered letter) {program : Option CString}
    (letters : ∀ char ∈ program.getD [], letter char) :
    (s.sysExec image program).2.Lettered letter := by
  cases program with
  | none => exact lettered
  | some program =>
      rw [Kernel.sysExec]
      split
      · exact lettered
      · split
        · exact lettered
        · next found finds =>
            dsimp only
            rw [runProgram_eq]
            have short := upTo_of_execFindProgram finds
            have kept (entered : Kernel) (loaded : entered.Lettered letter) :
                (entered.modify entered.currentProcess fun record =>
                  { record with name := stringCopy program 0 record.name }).Lettered letter := by
              refine loaded.rename fun char member => ?_
              rw [Process.nameText, stringCopy_text (by rw [nameSize]; omega)] at member
              exact letters char ((List.takeWhile_prefix _).mem member)
            refine processExit (kept (s.modify s.currentProcess _) ?_) 0
            exact lettered.assign s.currentProcess rfl

/-! ## Runs -/

theorem step (lettered : s.Lettered letter) {op : ProcessOp} (spares : s.SparesRecords image op)
    (gives : op.Gives letter) : (s.step image op).Lettered letter := by
  cases op with
  | createTest name entryPoint priority =>
      refine lettered.processCreateTest name (fun char member => ?_) entryPoint priority
      exact gives char ((List.takeWhile_prefix _).mem (List.mem_of_mem_take member))
  | fork => exact lettered.sysFork
  | exec program => exact lettered.sysExec gives
  | exit saved exitCode => exact lettered.sysExit saved exitCode
  | processExit exitCode => exact lettered.processExit exitCode
  | kill pid signal => exact lettered.sysKill pid signal
  | wait status => exact lettered.sysWait spares
  | killByPid pid => exact lettered.processKillByPid spares
  | setStatus pid status => exact lettered.processSetStatus pid status
  | changeCurrent pid => exact lettered.changeCurrentProcess pid
  | schedule saved => exact lettered.schedule saved

end Lettered

/-- The kernel process brings in the first letters. -/
theorem boot_lettered (image : Image)
    (letters : ∀ char ∈ storedName (.ofString "kernel_idle"), letter char) :
    (boot image).Lettered letter := by
  have empty : (initialised image).Lettered letter :=
    fun _ _ member => absurd member List.not_mem_nil
  have created : (kernelCreated image).Lettered letter :=
    empty.processCreateTest (some (.ofString "kernel_idle")) letters image.processIdleTask .low
  rw [boot_eq]
  exact Lettered.setState (s := { kernelCreated image with kernelProcess := image.testSlot 0 })
    created (image.testSlot 0) .running

end Kernel

end SimpleOS
