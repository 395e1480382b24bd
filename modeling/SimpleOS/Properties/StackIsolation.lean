import SimpleOS.Library.GuardedRun
import SimpleOS.Invariant.Effects
import SimpleOS.Invariant.Population

/-!
# Every process starts on its own stack

The creation routines give a process a stack and point `esp` at its top.  A
fork then copies the saved registers of the parent over those of the child, so
the child would start on the stack of its parent.
-/

namespace SimpleOS

open Library.ByteMemory Library.LinkedChain Library.GuardedRun

/-- An operation that starts no process. -/
inductive LaunchOp where
  | createTest (name : Option CString) (entryPoint : Word) (priority : ProcessPriority)
  | create (name : Option CString) (entryPoint : Word) (priority : ProcessPriority)
  | fork
  | exec (program : Option CString)
  | killByPid (pid : Word)
  | kill (pid signal : Word)
  | wait (status : Word)

/-- The creation or tear-down an operation is, if any. -/
def LaunchOp.life? : LaunchOp → Option LifeOp
  | createTest name entryPoint priority => some (.createTest name entryPoint priority)
  | create name entryPoint priority => some (.create name entryPoint priority)
  | fork => some .fork
  | exec _ => none
  | killByPid pid => some (.killByPid pid)
  | kill _ _ => none
  | wait status => some (.wait status)

namespace Kernel

/-- The state after an operation. -/
def launchStep (image : Image) (s : Kernel) : LaunchOp → Kernel
  | .createTest name entryPoint priority => (s.processCreateTest image name entryPoint priority).2
  | .create name entryPoint priority => (s.processCreate image name entryPoint priority).2
  | .fork => (s.sysFork image).2
  | .exec program => (s.sysExec image program).2
  | .killByPid pid => (s.processKillByPid image pid).2
  | .kill pid signal => (s.sysKill pid signal).2
  | .wait status => (s.sysWait image status).2

/-- The saved `esp` of all records. -/
def stackPointer (s : Kernel) (target : Word) : Word := (s.process target).cpuState.esp

/-- The saved `esp` of the process lies in its stack. -/
def OnOwnStack (s : Kernel) (process : Word) : Prop :=
  (s.process process).stackBase.toNat ≤ (s.stackPointer process).toNat ∧
    (s.stackPointer process).toNat <
      (s.process process).stackBase.toNat + (s.process process).stackSize.toNat

instance (s : Kernel) (process : Word) : Decidable (s.OnOwnStack process) :=
  inferInstanceAs (Decidable (_ ∧ _))

end Kernel

/-- The kernel with the processes that live. -/
structure Launch where
  kernel : Kernel
  live : List Word

namespace Launch

def boot (image : Image) : Launch where
  kernel := .boot image
  live := [(Kernel.boot image).kernelProcess]

def step (image : Image) (l : Launch) (op : LaunchOp) : Launch where
  kernel := l.kernel.launchStep image op
  live :=
    match op.life? with
    | none => l.live
    | some life =>
        Ledger.livingAfter l.live (l.kernel.createdBy image life) (l.kernel.tornDownBy image life)

/-- Registered processes and the current one are on their stacks, and no stack is shared. -/
structure StacksIsolated (l : Launch) : Prop where
  table : ∀ entry, l.kernel.processTable entry ≠ null →
    l.kernel.OnOwnStack (l.kernel.processTable entry)
  current : l.kernel.currentProcess ≠ null → l.kernel.OnOwnStack l.kernel.currentProcess
  disjoint : ∀ first ∈ l.live, ∀ second ∈ l.live, first ≠ second →
    Apart (l.kernel.process first).stackBase (l.kernel.process first).stackSize.toNat
      (l.kernel.process second).stackBase (l.kernel.process second).stackSize.toNat
  starts : ∀ first ∈ l.live, ∀ second ∈ l.live, first ≠ second →
    ¬ InRange (l.kernel.process second).stackBase (l.kernel.process second).stackSize.toNat
      (l.kernel.stackPointer first)

/-- A fork finds no free record. -/
def ForksFail (l : Launch) : LaunchOp → Prop
  | .fork => 10 ≤ l.kernel.testCount
  | _ => True

instance (l : Launch) : (op : LaunchOp) → Decidable (l.ForksFail op)
  | .fork => inferInstanceAs (Decidable (_ ≤ _))
  | .createTest _ _ _ => inferInstanceAs (Decidable True)
  | .create _ _ _ => inferInstanceAs (Decidable True)
  | .exec _ => inferInstanceAs (Decidable True)
  | .killByPid _ => inferInstanceAs (Decidable True)
  | .kill _ _ => inferInstanceAs (Decidable True)
  | .wait _ => inferInstanceAs (Decidable True)

end Launch

/-! ## What the operations do to the saved stack pointers -/

namespace Kernel

variable {image : Image} {s t : Kernel} {live : List Word}

theorem modify_stackPointer (s : Kernel) (target : Word) (change : Process → Process) :
    (s.modify target change).stackPointer =
      Function.update s.stackPointer target (change (s.process target)).cpuState.esp := by
  funext other
  by_cases same : other = target
  · subst same
    simp [stackPointer]
  · simp [stackPointer, same]

theorem modify_stackPointer_same (s : Kernel) (target : Word) {change : Process → Process}
    (same : (change (s.process target)).cpuState.esp = (s.process target).cpuState.esp) :
    (s.modify target change).stackPointer = s.stackPointer := by
  rw [modify_stackPointer, same]
  exact Function.update_eq_self target s.stackPointer

theorem setState_stackPointer (target : Word) (state : ProcessState) :
    (s.setState target state).stackPointer = s.stackPointer :=
  s.modify_stackPointer_same target rfl

theorem addToReadyQueue_stackPointer (s : Kernel) (process : Word) :
    (s.addToReadyQueue process).stackPointer = s.stackPointer := by
  obtain ⟨links, same⟩ := s.addToReadyQueue_exists process
  rw [same]
  rfl

theorem stackTop (stack : Word) : stack + 4096 - 4 = stack + 4092 := by
  bv_omega

theorem processCreateTest_stackPointer (image : Image) (s : Kernel) (room : s.testCount < 10)
    (name : Option CString) (entryPoint : Word) (priority : ProcessPriority) :
    (s.processCreateTest image name entryPoint priority).2.stackPointer =
      Function.update s.stackPointer (image.testSlot s.testCount)
        (image.testStack s.testCount + 4092) := by
  rw [processCreateTest_room image s room]
  change (s.modify _ _).stackPointer = _
  rw [modify_stackPointer]
  exact congrArg (Function.update s.stackPointer (image.testSlot s.testCount))
    (stackTop (image.testStack s.testCount))

theorem processKillByPid_stackPointer {pid : Word} (killable : s.Killable pid) {slot : Slot}
    (found : s.processFindByPid pid = image.address slot) (whole : s.Whole image slot)
    {memory : Memory} (frees : s.kfree image (image.stackOf slot) = { s with memory := memory }) :
    (s.processKillByPid image pid).2.stackPointer = s.stackPointer := by
  rw [Lodged.processKillByPid_whole killable found whole frees]
  change (Kernel.setState _ _ _).stackPointer = _
  rw [setState_stackPointer, dropStack, modify_stackPointer_same]
  · rfl
  · rfl

theorem sysKill_stackPointer (s : Kernel) (pid signal : Word) :
    (s.sysKill pid signal).2.stackPointer = s.stackPointer := by
  rw [sysKill_snd]
  split
  · rw [setExitCode, modify_stackPointer_same, setState_stackPointer]
    rfl
  · rfl

theorem processExit_stackPointer (s : Kernel) (exitCode : Word) :
    (s.processExit exitCode).stackPointer = s.stackPointer := by
  by_cases exits : s.Exits
  · rw [processExit_of_exits s exits, setState_stackPointer]
  · rw [processExit_of_not s exits]

/-- A program starts at the top of the stack its record names. -/
theorem sysExec_stackPointer (image : Image) (s : Kernel) {program : Option CString}
    (execs : s.Execs program) :
    (s.sysExec image program).2.stackPointer =
      Function.update s.stackPointer s.currentProcess
        ((s.process s.currentProcess).stackBase + (s.process s.currentProcess).stackSize - 4) := by
  cases program with
  | none => exact absurd execs.2 (by simp)
  | some program =>
      cases found : execFindProgram program with
      | none => exact absurd execs.2 (by simp [found])
      | some entry =>
          simp only [sysExec, if_neg execs.1, found, runProgram_eq, modify_currentProcess]
          rw [processExit_stackPointer, modify_stackPointer_same, modify_stackPointer]
          rfl

/-- The saved registers of a copy are those of its parent, so is its `esp`. -/
theorem processCreateCopy_stackPointer (image : Image) (s : Kernel) (room : s.testCount < 10)
    {parent : Word} (nonnull : parent ≠ null) (apart : parent ≠ image.testSlot s.testCount) :
    (s.processCreateCopy image parent).2.stackPointer =
      Function.update s.stackPointer (image.testSlot s.testCount) (s.stackPointer parent) := by
  have creation := processCreateTest_stackPointer image s room
    (some (s.process parent).nameString) (s.process parent).cpuState.eip (s.process parent).priority
  have kept : (copied image s parent).stackPointer parent = s.stackPointer parent := by
    rw [copied, creation, Function.update_of_ne apart]
  have child : (s.processCreateTest image (some (s.process parent).nameString)
      (s.process parent).cpuState.eip (s.process parent).priority).1 =
        image.testSlot s.testCount := by
    rw [processCreateTest_room image s room]
  have childNonnull : image.testSlot s.testCount ≠ null := Image.testSlot_ne_null room
  rw [processCreateCopy, if_neg nonnull]
  simp only [child, if_neg childNonnull]
  rw [modify_stackPointer_same, modify_stackPointer_same, modify_stackPointer, creation,
    Function.update_idem]
  · exact congrArg (Function.update s.stackPointer (image.testSlot s.testCount)) kept
  · rfl
  · rfl

theorem sysFork_stackPointer (image : Image) (s : Kernel) (room : s.testCount < 10)
    (nonnull : s.currentProcess ≠ null) (apart : s.currentProcess ≠ image.testSlot s.testCount) :
    (s.sysFork image).2.stackPointer =
      Function.update s.stackPointer (image.testSlot s.testCount)
        (s.stackPointer s.currentProcess) := by
  rw [sysFork_room image s nonnull room, addToReadyQueue_stackPointer, adopted,
    modify_stackPointer_same]
  · exact processCreateCopy_stackPointer image s room nonnull apart
  · rfl

/-! ## The invariant -/

/-- No living process has a parent, and each starts at the top of its own stack. -/
structure Housed (image : Image) (s : Kernel) (live : List Word) : Prop where
  lodged : s.Lodged image live
  rooted : image.testSlot 0 ∈ live
  orphans : ∀ process ∈ live, (s.identity process).parentPid = 0
  tops : ∀ process ∈ live, s.stackPointer process = (s.identity process).stackBase + 4092

namespace Housed

variable (housed : s.Housed image live)

include housed

/-- The stack of a living process and where it starts. -/
theorem stack {process : Word} (member : process ∈ live) :
    ∃ slot, process = image.address slot ∧ (s.process process).stackBase = image.stackOf slot ∧
      (s.process process).stackSize = 4096 ∧
      s.stackPointer process = image.stackOf slot + 4092 := by
  obtain ⟨slot, same, _, parentPid, whole⟩ := housed.lodged.members process member
  rw [← same] at whole
  have base : (s.identity process).stackBase = image.stackOf slot := by rw [whole]; rfl
  have size : (s.identity process).stackSize = 4096 := by rw [whole]; rfl
  exact ⟨slot, same, base, size, base ▸ housed.tops process member⟩

/-- A living process is on its own stack. -/
theorem onOwnStack {process : Word} (member : process ∈ live) : s.OnOwnStack process := by
  obtain ⟨slot, _, base, size, top⟩ := housed.stack member
  have room := image.stackOf_end slot
  rw [OnOwnStack, base, size, top, BitVec.toNat_add, show (4092 : Word).toNat = 4092 by decide,
    show (4096 : Word).toNat = 4096 by decide, Nat.mod_eq_of_lt (by omega)]
  omega

theorem inRange {process : Word} (member : process ∈ live) :
    InRange (s.process process).stackBase (s.process process).stackSize.toNat
      (s.stackPointer process) := by
  obtain ⟨slot, _, base, size, top⟩ := housed.stack member
  rw [base, size, top, InRange, BitVec.add_comm, BitVec.add_sub_cancel]
  decide

theorem disjoint (apart : image.HeapApart) {first second : Word} (firstIn : first ∈ live)
    (secondIn : second ∈ live) (different : first ≠ second) :
    Apart (s.process first).stackBase (s.process first).stackSize.toNat
      (s.process second).stackBase (s.process second).stackSize.toNat := by
  obtain ⟨slot, rfl, base, size, _⟩ := housed.stack firstIn
  obtain ⟨other, rfl, otherBase, otherSize, _⟩ := housed.stack secondIn
  rw [base, size, otherBase, otherSize]
  exact Image.stackOf_apart apart fun same => different (congrArg image.address same)

theorem isolated (apart : image.HeapApart) : (Launch.mk s live).StacksIsolated where
  table entry filled := housed.onOwnStack (housed.lodged.entries entry filled).1
  current _ := by
    change s.OnOwnStack s.currentProcess
    rw [housed.lodged.current]
    exact housed.onOwnStack housed.rooted
  disjoint _ firstIn _ secondIn different := housed.disjoint apart firstIn secondIn different
  starts _ firstIn _ secondIn different :=
    housed.disjoint apart firstIn secondIn different _ (housed.inRange firstIn)

/-- A process begins on its own stack, without a parent. -/
theorem enrol (slot : Slot) (fresh : ¬ s.Created slot)
    (lodged : t.Lodged image (image.address slot :: live))
    (identity : t.identity =
      Function.update s.identity (image.address slot) (image.wholeIdentity slot 0))
    (tops : t.stackPointer =
      Function.update s.stackPointer (image.address slot) (image.stackOf slot + 4092)) :
    t.Housed image (image.address slot :: live) := by
  have apart : ∀ process ∈ live, process ≠ image.address slot := housed.lodged.ne_fresh fresh
  refine ⟨lodged, List.mem_cons_of_mem _ housed.rooted, fun process member => ?_,
    fun process member => ?_⟩
  · rw [identity]
    rcases List.mem_cons.mp member with rfl | older
    · rw [Function.update_self]
      rfl
    · rw [Function.update_of_ne (apart process older)]
      exact housed.orphans process older
  · rw [identity, tops]
    rcases List.mem_cons.mp member with rfl | older
    · rw [Function.update_self, Function.update_self]
      rfl
    · rw [Function.update_of_ne (apart process older), Function.update_of_ne (apart process older)]
      exact housed.tops process older

/-- A process other than the kernel process ends. -/
theorem retire (slot : Slot) (other : image.address slot ≠ image.testSlot 0)
    {left : Process.Identity} (lodged : t.Lodged image (live.filter (· ≠ image.address slot)))
    (identity : t.identity = Function.update s.identity (image.address slot) left)
    (tops : t.stackPointer = s.stackPointer) :
    t.Housed image (live.filter (· ≠ image.address slot)) := by
  refine ⟨lodged, Ledger.mem_filter_ne.mpr ⟨housed.rooted, other.symm⟩,
    fun process member => ?_, fun process member => ?_⟩
  · obtain ⟨older, different⟩ := Ledger.mem_filter_ne.mp member
    rw [identity, Function.update_of_ne different]
    exact housed.orphans process older
  · obtain ⟨older, different⟩ := Ledger.mem_filter_ne.mp member
    rw [identity, tops, Function.update_of_ne different]
    exact housed.tops process older

/-- Nobody begins or ends, and every process would start where it would have started. -/
theorem keep (registry : t.registry = s.registry) (identity : t.identity = s.identity)
    (current : t.currentProcess = s.currentProcess)
    (tops : ∀ process ∈ live, t.stackPointer process = s.stackPointer process) :
    t.Housed image live where
  lodged := housed.lodged.congr registry identity current
  rooted := housed.rooted
  orphans process member := identity ▸ housed.orphans process member
  tops process member := by
    rw [identity, tops process member]
    exact housed.tops process member

/-! ## The operations -/

theorem processCreate (apart : image.HeapApart) (free : s.createCount < 10) (name : CString)
    (entryPoint : Word) (priority : ProcessPriority) :
    (s.processCreate image (some name) entryPoint priority).2.Housed image
      (image.createSlot s.createCount :: live) := by
  have lodged := housed.lodged
  have made := lodged.processCreate_eq apart free name entryPoint priority
  refine housed.enrol (.create ⟨s.createCount, free⟩) (Nat.lt_irrefl s.createCount)
    (lodged.processCreate apart free name entryPoint priority)
    (lodged.processCreate_identity apart free name entryPoint priority) ?_
  have top : (s.createdHere name entryPoint priority
      (s.process (image.createSlot s.createCount))).cpuState.esp =
        heapStack s.createCount + 4092 := by
    rw [heapStack, ← lodged.heap]
    exact stackTop (s.heapCurrent + 4)
  rw [made]
  change (s.modify _ _).stackPointer = _
  rw [modify_stackPointer, top]
  rfl

theorem processCreateTest (room : s.testCount < 10) (name : Option CString) (entryPoint : Word)
    (priority : ProcessPriority) :
    (s.processCreateTest image name entryPoint priority).2.Housed image
      (image.testSlot s.testCount :: live) :=
  housed.enrol (.test ⟨s.testCount, room⟩) (Nat.lt_irrefl s.testCount)
    (housed.lodged.processCreateTest room name entryPoint priority)
    (processCreateTest_identity image s room name entryPoint priority)
    (processCreateTest_stackPointer image s room name entryPoint priority)

theorem processKillByPid (apart : image.HeapApart) {pid : Word} (killable : s.Killable pid) :
    (s.processKillByPid image pid).2.Housed image
      (live.filter (· ≠ s.processFindByPid pid)) := by
  have lodged := housed.lodged
  obtain ⟨slot, found, _, whole, positive, _⟩ := lodged.killable killable
  obtain ⟨memory, frees, _⟩ := lodged.kfree_stack apart whole positive
  have other : image.address slot ≠ image.testSlot 0 := by
    rw [← found, ← lodged.root]
    exact killable.2.2
  have killed := lodged.processKillByPid apart killable
  rw [found] at killed ⊢
  exact housed.retire slot other killed (lodged.processKillByPid_unhooks apart killable found).2
    (processKillByPid_stackPointer killable found whole frees)

theorem sysKill (pid signal : Word) : (s.sysKill pid signal).2.Housed image live :=
  housed.keep (sysKill_registry s pid signal) (sysKill_identity s pid signal)
    (sysKill_currentProcess s pid signal)
    fun process _ => congrFun (sysKill_stackPointer s pid signal) process

/-- A program starts where its process started. -/
theorem sysExec (program : Option CString) : (s.sysExec image program).2.Housed image live := by
  refine housed.keep (sysExec_registry image s program) (sysExec_identity image s program)
    (sysExec_currentProcess image s program) fun process member => ?_
  by_cases execs : s.Execs program
  · rw [sysExec_stackPointer image s execs]
    by_cases here : process = s.currentProcess
    · obtain ⟨slot, _, base, size, top⟩ := housed.stack member
      rw [← here, Function.update_self, base, size, top]
      exact stackTop (image.stackOf slot)
    · rw [Function.update_of_ne here]
  · rw [sysExec_refused image s program execs]

/-- Without forks there are no children to reap. -/
theorem reaped?_eq_none : s.reaped? = none := by
  cases reaps : s.reaped? with
  | none => rfl
  | some proc =>
      obtain ⟨_, entry, _, here, nonnull, parent, _⟩ := s.reaped?_spec reaps
      subst here
      obtain ⟨slot, same, _, parentPid, whole⟩ := housed.lodged.members _ housed.rooted
      obtain rfl : Slot.test 0 = slot := Image.address_inj same
      rw [housed.orphans _ (housed.lodged.entries entry nonnull).1, housed.lodged.current] at parent
      have pid : (s.identity (image.testSlot 0)).pid = 1 := congrArg Process.Identity.pid whole
      rw [pid] at parent
      exact absurd parent (by decide)

/-- The child of a fork would start on the stack of its parent. -/
theorem sysFork_shares (room : s.testCount < 10) :
    (s.sysFork image).2.processTable (s.testCount + 1) = image.testSlot s.testCount ∧
      ¬ (s.sysFork image).2.OnOwnStack (image.testSlot s.testCount) := by
  have lodged := housed.lodged
  have nonnull := lodged.current_ne_null
  have next := lodged.current_ne_next room
  have table := congrArg Registry.processTable (sysFork_registry image s nonnull room)
  have identity := congrFun (sysFork_identity image s nonnull room next)
    (image.testSlot s.testCount)
  have top := congrFun (sysFork_stackPointer image s room nonnull next)
    (image.testSlot s.testCount)
  rw [Function.update_self] at identity top
  refine ⟨(congrFun table (s.testCount + 1)).trans (Function.update_self _ _ _), ?_⟩
  rintro ⟨base, _⟩
  have start : s.stackPointer s.currentProcess = image.testStack 0 + 4092 := by
    obtain ⟨slot, same, _, _, top⟩ := housed.stack housed.rooted
    obtain rfl : Slot.test 0 = slot := Image.address_inj same
    rw [lodged.current]
    exact top
  have first : (image.testStack 0).toNat = image.staticStacks := Image.testStack_toNat (by decide)
  have own : (image.testStack s.testCount).toNat =
      image.staticStacks + stackSizeDefault * s.testCount := Image.testStack_toNat room
  have positive := lodged.testCount.1
  have room := image.stacks_end
  rw [show ((s.sysFork image).2.process (image.testSlot s.testCount)).stackBase =
      image.testStack s.testCount from congrArg Process.Identity.stackBase identity, own, top,
    start, BitVec.toNat_add, show (4092 : Word).toNat = 4092 by decide, first] at base
  simp only [stackSizeDefault] at base room
  rw [Nat.mod_eq_of_lt (by omega)] at base
  omega

/-- An operation other than a successful fork keeps every process on its own stack. -/
theorem launchStep (apart : image.HeapApart) (op : LaunchOp)
    (fails : (Launch.mk s live).ForksFail op) :
    ((Launch.mk s live).step image op).kernel.Housed image
      ((Launch.mk s live).step image op).live := by
  have lodged := housed.lodged
  have clean := lodged.not_mem_null
  have nobody := housed.reaped?_eq_none
  -- a refused creation or tear-down leaves the state and the living as they are
  have idle {life : LifeOp} (idle : s.Idle image life) : (s.lifeStep image life).Housed image
      (Ledger.livingAfter live (s.createdBy image life) (s.tornDownBy image life)) := by
    rw [idle.living clean, idle.same]
    exact housed
  have begun {life : LifeOp} {slot : Slot} (begins : s.Begins image live life slot)
      (here : (s.lifeStep image life).Housed image (image.address slot :: live)) :
      (s.lifeStep image life).Housed image
        (Ledger.livingAfter live (s.createdBy image life) (s.tornDownBy image life)) := by
    rw [begins.living clean]
    exact here
  cases op with
  | createTest name entryPoint priority =>
      by_cases room : s.testCount < 10
      · exact begun (lodged.createTest_begins room name entryPoint priority)
          (housed.processCreateTest room name entryPoint priority)
      · exact idle (createTest_idle image s (Nat.le_of_not_lt room) name entryPoint priority)
  | create name entryPoint priority =>
      cases name with
      | none =>
          exact idle (show s.Idle image (.create none entryPoint priority) from
            ⟨rfl, rfl, rfl, rfl⟩)
      | some name =>
          by_cases free : s.createCount < 10
          · exact begun (lodged.create_begins apart free name entryPoint priority)
              (housed.processCreate apart free name entryPoint priority)
          · exact idle (create_idle image s (Nat.le_of_not_lt free) name entryPoint priority)
  | fork => exact idle (lodged.fork_idle fails)
  | exec program => exact housed.sysExec program
  | killByPid pid =>
      by_cases killable : s.Killable pid
      · obtain ⟨slot, found, _⟩ := lodged.killable killable
        have ends := lodged.killByPid_ends apart killable found
        have here := housed.processKillByPid apart killable
        rw [found, ← ends.living] at here
        exact here
      · exact idle (killByPid_idle image s killable)
  | kill pid signal => exact housed.sysKill pid signal
  | wait status => exact idle (wait_idle image s nobody status)

/-- One operation keeps the stacks isolated exactly if it is no successful fork. -/
theorem isolated_step_iff (apart : image.HeapApart) (op : LaunchOp) :
    ((Launch.mk s live).step image op).StacksIsolated ↔ (Launch.mk s live).ForksFail op := by
  constructor
  · intro isolated
    cases op with
    | fork =>
        by_contra room
        obtain ⟨registered, shares⟩ := housed.sysFork_shares (Nat.lt_of_not_le room)
        have filled : (s.sysFork image).2.processTable (s.testCount + 1) ≠ null := by
          rw [registered]
          exact Image.testSlot_ne_null (Nat.lt_of_not_le room)
        have own := isolated.table (s.testCount + 1) filled
        exact shares (registered ▸ own)
    | _ => exact trivial
  · exact fun fails => (housed.launchStep apart op fails).isolated apart

end Housed

theorem boot_housed (image : Image) : (boot image).Housed image (Launch.boot image).live := by
  have root : (boot image).kernelProcess = image.testSlot 0 :=
    congrArg Registry.kernelProcess (boot_registry image)
  have identity := congrFun (boot_identity image) (image.testSlot 0)
  rw [Function.update_self] at identity
  have only : ∀ process ∈ (Launch.boot image).live, process = image.testSlot 0 :=
    fun process member => (List.mem_singleton.mp member).trans root
  refine ⟨(boot_population image).lodged, List.mem_singleton.mpr root.symm,
    fun process member => ?_, fun process member => ?_⟩
  · rw [only process member, identity]
    rfl
  · have created := processCreateTest_stackPointer image (initialised image) (by decide : 0 < 10)
      (some (.ofString "kernel_idle")) image.processIdleTask .low
    have top : (boot image).stackPointer = (kernelCreated image).stackPointer := by
      rw [boot_eq]
      exact setState_stackPointer (s := { kernelCreated image with
        kernelProcess := image.testSlot 0 }) (image.testSlot 0) .running
    rw [only process member, top, kernelCreated, created, identity]
    exact Function.update_self _ _ _

end Kernel

namespace Launch

/--
Every process keeps a stack of its own to start on exactly in the runs in which
no fork creates a child.
-/
theorem stacks_isolated_iff (image : Image) (apart : image.HeapApart) (ops : List LaunchOp) :
    Always (step image) StacksIsolated (boot image) ops ↔
      Along (step image) ForksFail (boot image) ops := by
  have anyOp : ∀ op ∈ ops, (fun _ : LaunchOp => True) op := fun _ _ => trivial
  have housed := Kernel.boot_housed image
  exact always_iff_along
    (fun _ op _ (housed : Kernel.Housed image _ _) _ fails => housed.launchStep apart op fails)
    (fun _ op _ (housed : Kernel.Housed image _ _) _ => housed.isolated_step_iff apart op)
    housed (housed.isolated apart) anyOp

/-- Both creation routines, an exec and a kill leave every process on its own stack. -/
theorem stacks_isolated_create_exec_kill :
    Always (step Image.sample) StacksIsolated (boot Image.sample)
      [.createTest (some (.ofString "demo")) 0x101100 .normal,
        .create (some (.ofString "shell")) 0x101200 .normal, .exec (some (.ofString "hello")),
        .killByPid 2] :=
  (stacks_isolated_iff Image.sample (by decide) _).mpr (by decide +kernel)

/-- The first fork gives its child the stack pointer of the kernel process. -/
theorem forked_child_shares_stack :
    ¬ ∀ (image : Image) (ops : List LaunchOp),
      Always (step image) StacksIsolated (boot image) ops := by
  intro isolated
  have forked := (isolated Image.sample [.fork]).2
  have filled : ((boot Image.sample).step Image.sample .fork).kernel.processTable 2 ≠ null := by
    decide +kernel
  have own := forked.table 2 filled
  revert own
  decide +kernel

end Launch

end SimpleOS
