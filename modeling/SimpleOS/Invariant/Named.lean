import SimpleOS.Library.ChainFrame
import SimpleOS.Invariant.ExitCodes
import SimpleOS.Kernel.Names

/-!
# The invariant of the name arrays

Every name array contains a NUL.  `process_create` writes none and counts on a
cleared record, so the invariant also says that no pointer leads to a record it
has not handed out yet, and that the names there are still all zero.
-/

namespace SimpleOS

open Library.ByteMemory Library.LinkedChain Library.ArrayText

namespace Kernel

/-- A record that `process_create` has not handed out after so many creations. -/
def Fresh (image : Image) (count : Nat) (target : Word) : Prop :=
  ∃ index, count ≤ index ∧ index < 10 ∧ target = image.createSlot index

/-- The invariant, after so many creations by `process_create`. -/
structure Named (image : Image) (count : Nat) (s : Kernel) : Prop where
  created : s.createCount = count
  ends : ∀ target, (s.process target).NameEnds
  fresh : ∀ target, Fresh image count target → ∀ spot, (s.process target).name spot = 0
  current : ¬ Fresh image count s.currentProcess
  kernel : ¬ Fresh image count s.kernelProcess
  table : ∀ entry, ¬ Fresh image count (s.processTable entry)
  links : s.links.Within fun pointer => ¬ Fresh image count pointer

variable {image : Image} {count : Nat} {s t : Kernel}

theorem not_fresh_null : ¬ Fresh image count null := by
  rintro ⟨index, _, bound, same⟩
  exact Image.createSlot_ne_null bound same.symm

theorem not_fresh_testSlot {index : Nat} (bound : index < 10) :
    ¬ Fresh image count (image.testSlot index) := by
  rintro ⟨other, _, otherBound, same⟩
  exact Image.createSlot_ne_testSlot otherBound bound same.symm

/-- An array of zeros is the empty name. -/
theorem cleared_nameEnds : Process.cleared.NameEnds := ⟨0, by decide, rfl⟩

namespace Named

/-! ## Single assignments -/

/-- An assignment to a record that leaves a name with a NUL, all zero in a fresh record. -/
theorem rename (named : Named image count s) {target : Word} {change : Process → Process}
    (zero : Fresh image count target → ∀ spot, (change (s.process target)).name spot = 0)
    (ends : (change (s.process target)).NameEnds)
    (next : ¬ Fresh image count (change (s.process target)).next)
    (prev : ¬ Fresh image count (change (s.process target)).prev) :
    Named image count (s.modify target change) := by
  refine ⟨named.created, fun other => ?_, fun other isFresh spot => ?_, named.current, named.kernel,
    named.table, ?_⟩
  · by_cases same : other = target
    · rw [same, modify_self]
      exact ends
    · rw [modify_other s change same]
      exact named.ends other
  · by_cases same : other = target
    · rw [same, modify_self]
      exact zero (same ▸ isFresh) spot
    · rw [modify_other s change same]
      exact named.fresh other isFresh spot
  · rw [modify_links_update]
    refine ⟨named.links.head, named.links.tail, fun other => ?_, fun other => ?_⟩
    · by_cases same : other = target
      · rw [same]
        simpa using next
      · simpa [same] using named.links.next other
    · by_cases same : other = target
      · rw [same]
        simpa using prev
      · simpa [same] using named.links.prev other

/-- An assignment to other fields than the name and the links. -/
theorem assign (named : Named image count s) (target : Word) {change : Process → Process}
    (name : (change (s.process target)).name = (s.process target).name)
    (next : (change (s.process target)).next = (s.process target).next)
    (prev : (change (s.process target)).prev = (s.process target).prev) :
    Named image count (s.modify target change) := by
  apply named.rename
  · rw [name]
    exact named.fresh target
  · rw [Process.NameEnds, name]
    exact named.ends target
  · rw [next]
    exact named.links.next target
  · rw [prev]
    exact named.links.prev target

theorem setState (named : Named image count s) (target : Word) (state : ProcessState) :
    Named image count (s.setState target state) := named.assign target rfl rfl rfl

theorem setCurrent (named : Named image count s) {value : Word} (used : ¬ Fresh image count value) :
    Named image count (s.setCurrent value) :=
  ⟨named.created, named.ends, named.fresh, used, named.kernel, named.table, named.links⟩

theorem setTable (named : Named image count s) (index : Nat) {value : Word}
    (used : ¬ Fresh image count value) : Named image count (s.setTable index value) := by
  refine ⟨named.created, named.ends, named.fresh, named.current, named.kernel, fun entry => ?_,
    named.links⟩
  by_cases same : entry = index
  · simpa [Kernel.setTable, same] using used
  · simpa [Kernel.setTable, same] using named.table entry

theorem withLinks (named : Named image count s) {links : Links Word}
    (within : links.Within fun pointer => ¬ Fresh image count pointer) :
    Named image count (s.withLinks links) :=
  ⟨named.created, named.ends, named.fresh, named.current, named.kernel, named.table, within⟩

theorem removeFromReadyQueue (named : Named image count s) (process : Word) :
    Named image count (s.removeFromReadyQueue process) := by
  by_cases isNull : process = null
  · rw [Kernel.removeFromReadyQueue, if_pos isNull]
    exact named
  · rw [s.removeFromReadyQueue_eq isNull]
    exact named.withLinks (named.links.unlink not_fresh_null)

theorem addToReadyQueue (named : Named image count s) {process : Word}
    (used : ¬ Fresh image count process) : Named image count (s.addToReadyQueue process) := by
  by_cases refused : process = null ∨ (s.process process).state ≠ .ready
  · rw [Kernel.addToReadyQueue, if_pos refused]
    exact named
  · obtain ⟨nonnull, ready⟩ := not_or.mp refused
    rw [s.addToReadyQueue_eq nonnull (not_not.mp ready)]
    exact named.withLinks (named.links.append not_fresh_null used)

theorem overwrite (named : Named image count s) {patch : Patch}
    (untouched : ∀ slot ∈ image.slots, touches patch slot = false) :
    Named image count (s.overwrite image patch) := by
  rw [s.overwrite_of_untouched image untouched]
  exact ⟨named.created, named.ends, named.fresh, named.current, named.kernel, named.table,
    named.links⟩

theorem contextSwitch (named : Named image count s) (saved : CpuState)
    (oldProcess newProcess : Word) :
    Named image count (s.contextSwitch saved oldProcess newProcess) := by
  unfold Kernel.contextSwitch
  split
  · exact named
  · exact named.assign oldProcess rfl rfl rfl

/-! ## Scheduling and marking -/

theorem requeueCurrent (named : Named image count s) : Named image count s.requeueCurrent := by
  have marked := named.setState s.currentProcess .ready
  have queued := marked.removeFromReadyQueue s.currentProcess
  unfold Kernel.requeueCurrent
  split
  · dsimp only
    split
    · exact queued.addToReadyQueue queued.current
    · exact marked
  · exact named

theorem dispatch (named : Named image count s) (saved : CpuState) {nextProcess : Word}
    (used : ¬ Fresh image count nextProcess) :
    Named image count (s.dispatch saved nextProcess) := by
  have removed := named.removeFromReadyQueue nextProcess
  have running := (removed.setState nextProcess .running).setCurrent used
  unfold Kernel.dispatch
  dsimp only
  split
  · exact running.contextSwitch saved _ nextProcess
  · exact (running.setCurrent used).contextSwitch saved _ nextProcess

theorem schedule (named : Named image count s) (saved : CpuState) :
    Named image count (s.schedule saved) := by
  unfold Kernel.schedule
  split
  · split
    · have switched := named.contextSwitch saved s.currentProcess s.kernelProcess
      exact switched.setCurrent switched.kernel
    · exact named
  · dsimp only
    split
    · exact named.requeueCurrent
    · exact named.requeueCurrent.dispatch saved named.links.head

theorem processExit (named : Named image count s) (exitCode : Word) :
    Named image count (s.processExit exitCode) := by
  unfold Kernel.processExit
  split
  · exact named.setState s.currentProcess .terminated
  · exact named

theorem sysExit (named : Named image count s) (saved : CpuState) (exitCode : Word) :
    Named image count (s.sysExit saved exitCode) := by
  by_cases current : s.currentProcess = null
  · rw [sysExit_null s saved exitCode current]
    exact named
  · rw [sysExit_eq s saved exitCode current]
    have marked := named.setState s.currentProcess .terminated
    have coded : Named image count ((s.setState s.currentProcess .terminated).setExitCode
        s.currentProcess exitCode) := marked.assign s.currentProcess rfl rfl rfl
    exact (coded.setCurrent not_fresh_null).schedule saved

theorem found (named : Named image count s) (pid : Word) :
    ¬ Fresh image count (s.processFindByPid pid) := by
  unfold processFindByPid
  split
  · exact not_fresh_null
  · exact named.table pid.toNat

theorem sysKill (named : Named image count s) (pid signal : Word) :
    Named image count (s.sysKill pid signal).2 := by
  rw [sysKill_snd]
  split
  · exact (named.setState _ .terminated).assign _ rfl rfl rfl
  · exact named

theorem processSetStatus (named : Named image count s) (pid : Word) (status : ProcessState) :
    Named image count (s.processSetStatus pid status).2 := by
  rw [processSetStatus_snd]
  split
  · exact named.setState _ status
  · exact named

theorem changeCurrentProcess (named : Named image count s) (pid : Word) :
    Named image count (s.changeCurrentProcess pid) := by
  rw [changeCurrentProcess_eq]
  split
  · exact (named.setCurrent (named.found pid)).setState _ .running
  · exact named

/-! ## Tear-down -/

theorem processCleanup (named : Named image count s) (process : Word) :
    Named image count (s.processCleanup process) := by
  unfold Kernel.processCleanup
  split
  · exact named
  · dsimp only
    have taken : Named image count
        (if (s.process process).pid.toNat < maxProcesses then
          s.setTable (s.process process).pid.toNat null
        else s) := by
      split
      · exact named.setTable _ not_fresh_null
      · exact named
    have removed := taken.removeFromReadyQueue process
    exact removed.rename (fun _ _ => rfl) cleared_nameEnds not_fresh_null not_fresh_null

theorem storeStatus (named : Named image count s) {status : Word}
    (offRecords : status = null ∨ image.OffRecords status) (value : Word) :
    Named image count (s.storeStatus image status value) := by
  rw [s.storeStatus_offRecords image offRecords]
  exact ⟨named.created, named.ends, named.fresh, named.current, named.kernel, named.table,
    named.links⟩

theorem sysWait (named : Named image count s) {status : Word}
    (offRecords : status = null ∨ image.OffRecords status) :
    Named image count (s.sysWait image status).2 := by
  unfold Kernel.sysWait
  split
  · exact named
  · split
    · exact named
    · exact (named.storeStatus offRecords _).processCleanup _

theorem processKillByPid (named : Named image count s) {pid : Word}
    (apart : s.Killable pid → s.FreesApart image (s.processFindByPid pid)) :
    Named image count (s.processKillByPid image pid).2 := by
  by_cases killable : s.Killable pid
  · have missed := apart killable
    have stack : Named image count (s.releaseStack image (s.processFindByPid pid)) := by
      unfold releaseStack
      split
      · refine Named.assign ?_ _ rfl rfl rfl
        exact named.overwrite fun slot member => (touches_andThen (missed slot member)).1
      · exact named
    have heap : Named image count ((s.releaseStack image (s.processFindByPid pid)).releaseHeap image
        (s.processFindByPid pid)) := by
      unfold releaseHeap
      split
      · refine Named.assign ?_ _ rfl rfl rfl
        exact stack.overwrite fun slot member => (touches_andThen (missed slot member)).2
      · exact stack
    rw [processKillByPid_of_killable s image pid killable]
    exact (heap.setState _ .terminated).setTable _ not_fresh_null
  · rw [s.processKillByPid_refused image pid killable]
    exact named

/-! ## Creation -/

/-- The next record of `process_create` is handed out. -/
theorem later (named : Named image count s) :
    Named image (s.createCount + 1) { s with createCount := s.createCount + 1 } := by
  rw [named.created]
  have still {target : Word} : Fresh image (count + 1) target → Fresh image count target := by
    rintro ⟨index, low, bound, same⟩
    exact ⟨index, by omega, bound, same⟩
  refine ⟨rfl, named.ends, fun target isFresh => named.fresh target (still isFresh),
    fun isFresh => named.current (still isFresh), fun isFresh => named.kernel (still isFresh),
    fun entry isFresh => named.table entry (still isFresh), ?_⟩
  exact ⟨fun isFresh => named.links.head (still isFresh),
    fun isFresh => named.links.tail (still isFresh),
    fun node isFresh => named.links.next node (still isFresh),
    fun node isFresh => named.links.prev node (still isFresh)⟩

theorem kmalloc (named : Named image count s) (apart : s.GrantApart image) :
    Named image count (s.kmalloc image 4096).2 := by
  unfold Kernel.kmalloc
  split
  · exact named
  · next allocation grants =>
    have written := named.overwrite (apart allocation grants)
    exact ⟨written.created, written.ends, written.fresh, written.current, written.kernel,
      written.table, written.links⟩

theorem processCreate (named : Named image count s) (apart : s.GrantApart image)
    (name : Option CString) (entryPoint : Word) (priority : ProcessPriority) :
    ∃ later, Named image later (s.processCreate image name entryPoint priority).2 := by
  have granted := named.kmalloc apart
  unfold Kernel.processCreate
  generalize s.kmalloc image 4096 = grant at granted ⊢
  obtain ⟨stack, after⟩ := grant
  split
  · exact ⟨count, named⟩
  · next name =>
    split
    · exact ⟨count, named⟩
    · next notFull =>
      dsimp only
      split
      · exact ⟨count, granted⟩
      · have room : s.createCount < 10 := Nat.lt_of_not_le notFull
        have isFresh : Fresh image count (image.createSlot s.createCount) :=
          ⟨s.createCount, Nat.le_of_eq named.created.symm, room, rfl⟩
        have zero := granted.fresh _ isFresh
        -- under the next count the record is no longer fresh
        have used : ¬ Fresh image (after.createCount + 1) (image.createSlot s.createCount) := by
          rintro ⟨index, low, bound, same⟩
          have before := named.created
          have behind : after.createCount = count := granted.created
          have equal := Image.createSlot_inj room bound same
          omega
        have filled (pid : Word) : Named image (after.createCount + 1)
            ({ after with createCount := after.createCount + 1 }.modify
              (image.createSlot s.createCount)
              fun record => record.fillCreate name pid entryPoint stack priority) :=
          granted.later.rename (fun isFresh => absurd isFresh used)
            (fillCreate_nameEnds _ _ _ _ _ zero name) not_fresh_null not_fresh_null
        refine ⟨after.createCount + 1, ?_⟩
        split
        · exact (filled _).setTable _ used
        · exact filled _

theorem processCreateTest (named : Named image count s) (name : Option CString) (entryPoint : Word)
    (priority : ProcessPriority) :
    Named image count (s.processCreateTest image name entryPoint priority).2 := by
  by_cases room : s.testCount < 10
  · rw [processCreateTest_room image s room]
    have used : ¬ Fresh image count (image.testSlot s.testCount) := not_fresh_testSlot room
    have filled : Named image count (s.modify (image.testSlot s.testCount)
        (Kernel.created image s name entryPoint priority)) :=
      named.rename (fun isFresh => absurd isFresh used) (fillTest_nameEnds _ _ _ _ _ name)
        not_fresh_null not_fresh_null
    have entered := filled.setTable (s.testCount + 1) used
    exact ⟨entered.created, entered.ends, entered.fresh, entered.current, entered.kernel,
      entered.table, entered.links⟩
  · rw [processCreateTest_full image s (Nat.le_of_not_lt room)]
    exact named

/-- What `process_create_test` returns is none of the records of `process_create`. -/
theorem not_fresh_created (image : Image) (count : Nat) (s : Kernel) (name : Option CString)
    (entryPoint : Word) (priority : ProcessPriority) :
    ¬ Fresh image count (s.processCreateTest image name entryPoint priority).1 := by
  by_cases room : s.testCount < 10
  · rw [processCreateTest_room image s room]
    exact not_fresh_testSlot room
  · rw [processCreateTest_full image s (Nat.le_of_not_lt room)]
    exact not_fresh_null

theorem processCreateCopy (named : Named image count s) (parent : Word) :
    Named image count (s.processCreateCopy image parent).2 := by
  have created := named.processCreateTest (some (s.process parent).nameString)
    (s.process parent).cpuState.eip (s.process parent).priority
  unfold Kernel.processCreateCopy
  split
  · exact named
  · dsimp only
    split
    · exact created
    · dsimp only
      refine Named.assign ?_ _ rfl rfl rfl
      refine Named.assign ?_ _ rfl rfl rfl
      refine Named.assign ?_ _ rfl rfl rfl
      exact created

/-- A copy is one of the records of `process_create_test`. -/
theorem not_fresh_copy (image : Image) (count : Nat) (s : Kernel) (parent : Word) :
    ¬ Fresh image count (s.processCreateCopy image parent).1 := by
  by_cases noParent : parent = null
  · rw [Kernel.processCreateCopy, if_pos noParent]
    exact not_fresh_null
  · by_cases room : s.testCount < 10
    · rw [processCreateCopy_fst image s room parent noParent]
      exact not_fresh_testSlot room
    · rw [processCreateCopy_full image s (Nat.le_of_not_lt room) parent]
      exact not_fresh_null

theorem sysFork (named : Named image count s) : Named image count (s.sysFork image).2 := by
  have copied := named.processCreateCopy s.currentProcess
  have used := not_fresh_copy image count s s.currentProcess
  unfold Kernel.sysFork
  split
  · exact named
  · dsimp only
    split
    · exact copied
    · exact (copied.assign _ rfl rfl rfl).addToReadyQueue used

theorem sysExec (named : Named image count s) (program : Option CString) :
    Named image count (s.sysExec image program).2 := by
  cases program with
  | none => exact named
  | some program =>
      rw [Kernel.sysExec]
      split
      · exact named
      · split
        · exact named
        · next found finds =>
          dsimp only
          rw [runProgram_eq]
          refine Named.processExit ?_ 0
          have kept (entered : Kernel) (loaded : Named image count entered) :
              Named image count (entered.modify entered.currentProcess fun record =>
                { record with name := stringCopy program 0 record.name }) :=
            loaded.rename (fun isFresh => absurd isFresh loaded.current) (stringCopy_ends finds _)
              (loaded.links.next _) (loaded.links.prev _)
          refine kept (s.modify s.currentProcess _) ?_
          exact named.assign s.currentProcess rfl rfl rfl

/-! ## Runs -/

/-- As the image is loaded, every record is zero and no pointer is set. -/
theorem loaded (image : Image) : Named image 0 (loaded image) := by
  refine ⟨rfl, fun _ => cleared_nameEnds, fun _ _ _ => rfl, not_fresh_null, not_fresh_null,
    fun _ => not_fresh_null, ?_⟩
  exact ⟨not_fresh_null, not_fresh_null, fun _ => not_fresh_null, fun _ => not_fresh_null⟩

theorem enableProcessExecution (named : Named image count s) :
    Named image count (s.enableProcessExecution image) := by
  have created := named.processCreateTest (some (.ofString "kernel_idle"))
    image.processIdleTask .low
  have used := not_fresh_created image count s (some (.ofString "kernel_idle"))
    image.processIdleTask .low
  have kept : Named image count { (s.processCreateTest image (some (.ofString "kernel_idle"))
      image.processIdleTask .low).2 with
        kernelProcess := (s.processCreateTest image (some (.ofString "kernel_idle"))
          image.processIdleTask .low).1 } :=
    ⟨created.created, created.ends, created.fresh, created.current, used, created.table,
      created.links⟩
  unfold Kernel.enableProcessExecution
  split
  · dsimp only
    split
    · exact (kept.setState _ .running).setCurrent used
    · exact kept
  · exact named

theorem initialised (named : Named image count s) :
    Named image count s.memoryInit.processInit.schedulerInit := by
  refine ⟨named.created, named.ends, named.fresh, not_fresh_null, not_fresh_null, fun entry => ?_,
    ⟨not_fresh_null, not_fresh_null, named.links.next, named.links.prev⟩⟩
  change ¬ Fresh image count (if entry < maxProcesses then null else s.processTable entry)
  split
  · exact not_fresh_null
  · exact named.table entry

theorem step (named : Named image count s) {op : ProcessOp} (spares : s.SparesRecords image op) :
    Named image count (s.step image op) := by
  cases op with
  | createTest name entryPoint priority => exact named.processCreateTest name entryPoint priority
  | fork => exact named.sysFork
  | exec program => exact named.sysExec program
  | exit saved exitCode => exact named.sysExit saved exitCode
  | processExit exitCode => exact named.processExit exitCode
  | kill pid signal => exact named.sysKill pid signal
  | wait status => exact named.sysWait spares
  | killByPid pid => exact named.processKillByPid spares
  | setStatus pid status => exact named.processSetStatus pid status
  | changeCurrent pid => exact named.changeCurrentProcess pid
  | schedule saved => exact named.schedule saved

end Named

/-- The bytes an operation overwrites for a stack, a heap or a status lie outside the records. -/
def SparesNames (image : Image) (s : Kernel) : NameOp → Prop
  | .create _ _ _ => s.GrantApart image
  | .operation op => s.SparesRecords image op
  | .boot => True
  | .cleanup _ => True

theorem Named.nameStep (named : Named image count s) {op : NameOp}
    (spares : s.SparesNames image op) : ∃ later, Named image later (s.nameStep image op) := by
  cases op with
  | boot => exact ⟨count, named.initialised.enableProcessExecution⟩
  | create name entryPoint priority => exact named.processCreate spares name entryPoint priority
  | operation op => exact ⟨count, named.step spares⟩
  | cleanup process => exact ⟨count, named.processCleanup process⟩

end Kernel

end SimpleOS
