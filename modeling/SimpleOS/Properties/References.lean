import SimpleOS.Library.GuardedRun
import SimpleOS.Invariant.Effects

/-!
# References to processes

Every queued process should be READY, and every queued or current one should
be registered and own its stack.  The operations that end a process by its pid
do not take it off the queue, so they keep this only for processes outside it.
-/

namespace SimpleOS

open Library.ByteMemory Library.LinkedChain Library.GuardedRun

namespace Kernel

/-- The process is in the table under its pid and has a stack. -/
def Owns (s : Kernel) (process : Word) : Prop :=
  s.processTable (s.process process).pid.toNat = process ∧ (s.process process).stackBase ≠ 0

/-- No queued or current process is dangling. -/
def NoDangling (s : Kernel) : Prop :=
  (∀ process, s.Queued process → s.states process = .ready ∧ s.Owns process) ∧
    (s.currentProcess ≠ null → s.Owns s.currentProcess)

/-- The tear-down in the operation, if any, leaves no reference to its process behind. -/
def TearsDownClean (s : Kernel) : ProcessOp → Prop
  | .exit _ _ => s.currentProcess ≠ null → s.Queued s.currentProcess →
      s.currentProcess = s.readyQueueHead
  | .wait _ => ∀ proc, s.reaped? = some proc → (s.process proc).prev = null →
      ∀ process, s.links.Reaches null (s.process proc).next process →
        s.states process = .ready ∧ s.Owns process
  | .killByPid pid => s.Killable pid →
      ¬ s.Queued (s.processFindByPid pid) ∧ s.processFindByPid pid ≠ s.currentProcess
  | _ => True

/-- The operation stores no state other than READY in a queued process. -/
def MarksUnqueued (s : Kernel) : ProcessOp → Prop
  | .exec program => s.Execs program → s.Exits → ¬ s.Queued s.currentProcess
  | .processExit _ => s.Exits → ¬ s.Queued s.currentProcess
  | .kill pid signal => s.Killable pid → signal = 9 → ¬ s.Queued (s.processFindByPid pid)
  | .setStatus pid status => s.Settable pid status → status ≠ .ready →
      ¬ s.Queued (s.processFindByPid pid)
  | .changeCurrent pid => s.Switchable pid → ¬ s.Queued (s.processFindByPid pid)
  | _ => True

/-- A process that was torn down by its pid is still queued. -/
theorem killed_process_queued :
    ¬ Always (step Image.sample) NoDangling (boot Image.sample) [.fork, .killByPid 2] := by
  intro always
  have dangling := always.last
  have fields : ∀ s, s = run (step Image.sample) (boot Image.sample) [.fork, .killByPid 2] →
      s.links.head = Image.sample.testSlot 1 ∧ Image.sample.testSlot 1 ≠ null ∧
        s.links.next (Image.sample.testSlot 1) = null ∧
        (s.process (Image.sample.testSlot 1)).stackBase = 0 := by
    intro s reached
    rw [reached]
    decide +kernel
  generalize run (step Image.sample) (boot Image.sample) [.fork, .killByPid 2] = s
    at dangling fields
  obtain ⟨head, nonnull, next, freed⟩ := fields s rfl
  have queued : s.Queued (Image.sample.testSlot 1) :=
    ⟨[_], ⟨head, nonnull, next⟩, List.mem_singleton.mpr rfl⟩
  obtain ⟨_, _, owned⟩ := dangling.1 _ queued
  exact owned freed

variable {image : Image} {s t : Kernel}

/-! ## Owners -/

theorem owns_congr (table : t.processTable = s.processTable) (identity : t.identity = s.identity)
    (process : Word) : t.Owns process ↔ s.Owns process := by
  have same := congrFun identity process
  have pid : (t.process process).pid = (s.process process).pid :=
    congrArg Process.Identity.pid same
  have stack : (t.process process).stackBase = (s.process process).stackBase :=
    congrArg Process.Identity.stackBase same
  rw [Owns, Owns, table, pid, stack]

namespace Coherent

theorem owns_of_registered {index : Nat} (small : index < 10)
    (registered : s.Registered image index) : s.Owns (image.testSlot index) := by
  have pid := registered_pid small registered
  obtain ⟨entry, parentPid, _, identity⟩ := registered
  have stack : (s.process (image.testSlot index)).stackBase = image.testStack index :=
    congrArg Process.Identity.stackBase identity
  refine ⟨?_, ?_⟩
  · rw [show (s.process (image.testSlot index)).pid.toNat = index + 1 from pid]
    exact entry
  · rw [stack]
    exact Image.testStack_ne_null small

theorem kernel_owns (coherent : s.Coherent image) : s.Owns s.kernelProcess := by
  rw [coherent.kernel]
  exact owns_of_registered (by decide) coherent.root.2

theorem found_owns (coherent : s.Coherent image) {pid : Word}
    (nonnull : s.processFindByPid pid ≠ null) : s.Owns (s.processFindByPid pid) := by
  obtain ⟨index, bound, _, place, registered⟩ := coherent.found nonnull
  rw [place]
  exact owns_of_registered (Nat.lt_of_lt_of_le bound coherent.count) registered

/-- A change at one table entry and its record leaves the ownership of the others alone. -/
theorem owns_update (coherent : s.Coherent image) {index : Nat} {entry : Word}
    {identity : Process.Identity}
    (table : t.processTable = Function.update s.processTable (index + 1) entry)
    (identities : t.identity = Function.update s.identity (image.testSlot index) identity)
    {process : Word} (active : s.Active image process)
    (different : process ≠ image.testSlot index) : t.Owns process ↔ s.Owns process := by
  obtain ⟨other, _, place, pid⟩ := coherent.active_pid active
  have same : t.identity process = s.identity process := by
    rw [identities, Function.update_of_ne different]
  have samePid : (t.process process).pid = (s.process process).pid :=
    congrArg Process.Identity.pid same
  have sameStack : (t.process process).stackBase = (s.process process).stackBase :=
    congrArg Process.Identity.stackBase same
  have notEntry : (s.process process).pid.toNat ≠ index + 1 := by
    intro collide
    have equal : other = index := by
      change (s.identity process).pid.toNat = index + 1 at collide
      omega
    exact different (equal ▸ place)
  rw [Owns, Owns, samePid, sameStack, table, Function.update_of_ne notEntry]

end Coherent

/-! ## Operations that mark a process -/

/-- A conditional mark other than READY is safe unless its target is queued. -/
theorem noDangling_mark_iff (holds : s.NoDangling) {condition : Prop} [Decidable condition]
    {target : Word} {state : ProcessState} (links : t.links = s.links)
    (registry : t.registry = s.registry) (identity : t.identity = s.identity)
    (current : t.currentProcess ≠ null → s.Owns t.currentProcess)
    (states : t.states = if condition then Function.update s.states target state else s.states)
    (notReady : state ≠ .ready) : t.NoDangling ↔ (condition → ¬ s.Queued target) := by
  have owns := owns_congr (congrArg Registry.processTable registry) identity
  constructor
  · rintro dangling marked queued
    have ready := (dangling.1 target (show t.links.Queued null target from links ▸ queued)).1
    rw [states, if_pos marked, Function.update_self] at ready
    exact notReady ready
  · intro safe
    refine ⟨fun process queued => ?_, fun nonnull => (owns _).mpr (current nonnull)⟩
    have was : s.Queued process := by
      change t.links.Queued null process at queued
      rwa [links] at queued
    refine ⟨?_, (owns process).mpr (holds.1 process was).2⟩
    rw [states]
    split
    · next marked =>
        have different : process ≠ target := fun same => safe marked (same ▸ was)
        rw [Function.update_of_ne different]
        exact (holds.1 process was).1
    · exact (holds.1 process was).1

theorem setStatus_noDangling_iff (holds : s.NoDangling) (pid : Word) (status : ProcessState) :
    (s.processSetStatus pid status).2.NoDangling ↔ s.MarksUnqueued (.setStatus pid status) := by
  have current : (s.processSetStatus pid status).2.currentProcess ≠ null →
      s.Owns (s.processSetStatus pid status).2.currentProcess := by
    rw [processSetStatus_currentProcess]
    exact holds.2
  by_cases ready : status = .ready
  · subst ready
    refine iff_of_true ⟨fun process queued => ?_, fun nonnull => ?_⟩
      fun _ impossible => absurd rfl impossible
    · have was : s.Queued process := by
        change (s.processSetStatus pid .ready).2.links.Queued null process at queued
        rwa [processSetStatus_links] at queued
      refine ⟨?_, (owns_congr (congrArg Registry.processTable (processSetStatus_registry s pid _))
        (processSetStatus_identity s pid _) process).mpr (holds.1 process was).2⟩
      rw [processSetStatus_states]
      split
      · by_cases same : process = s.processFindByPid pid
        · rw [same, Function.update_self]
        · rw [Function.update_of_ne same]
          exact (holds.1 process was).1
      · exact (holds.1 process was).1
    · exact (owns_congr (congrArg Registry.processTable (processSetStatus_registry s pid _))
        (processSetStatus_identity s pid _) _).mpr (current nonnull)
  · rw [noDangling_mark_iff holds (processSetStatus_links s pid status)
      (processSetStatus_registry s pid status) (processSetStatus_identity s pid status) current
      (processSetStatus_states s pid status) ready]
    exact ⟨fun safe settable _ => safe settable, fun safe settable => safe settable ready⟩

/-! ## Scheduling -/

/-- After a dispatch the queue holds what it held, without the head, and the requeued process. -/
theorem schedule_queued (coherent : s.Coherent image) (saved : CpuState)
    (nonempty : s.readyQueueHead ≠ null) (notCurrent : s.readyQueueHead ≠ s.currentProcess)
    {process : Word} (queued : (s.schedule saved).Queued process) :
    (s.Queued process ∧ process ≠ s.readyQueueHead) ∨ process = s.currentProcess ∧ s.Preempts := by
  change (s.schedule saved).links.Queued null process at queued
  rw [schedule_links s saved nonempty, if_neg notCurrent, requeueCurrent_links] at queued
  by_cases moves : s.Preempts ∧ s.currentProcess ≠ s.readyQueueTail
  · rw [if_pos moves] at queued
    rcases coherent.linked.rotate_queued nonempty moves.1.1 (Ne.symm notCurrent) queued with
      kept | requeued
    · exact Or.inl kept
    · exact Or.inr ⟨requeued, moves.1⟩
  · rw [if_neg moves] at queued
    exact Or.inl ((coherent.linked.unlink_head_queued_iff nonempty process).mp queued)

namespace Coherent

theorem chosen_owns (coherent : s.Coherent image)
    (holds : ∀ process, s.Queued process → s.Owns process) : s.Owns s.chosen := by
  refine (s.chosen_iff _).mpr ⟨fun nonempty => ?_, fun _ => coherent.kernel_owns⟩
  obtain ⟨nodes, chain⟩ := coherent.linked.finite s.readyQueueHead
  obtain ⟨rest, split, _⟩ := chain.exists_cons nonempty
  exact holds _ ⟨nodes, chain, split ▸ List.mem_cons_self⟩

theorem schedule_noDangling (coherent : s.Coherent image) (holds : s.NoDangling)
    (saved : CpuState) : (s.schedule saved).NoDangling := by
  have owns := owns_congr (congrArg Registry.processTable (s.schedule_registry saved))
    (s.schedule_identity saved)
  have current : (s.schedule saved).Owns (s.schedule saved).currentProcess := by
    rw [schedule_currentProcess, owns]
    exact coherent.chosen_owns fun process queued => (holds.1 process queued).2
  refine ⟨fun process queued => ?_, fun _ => current⟩
  by_cases empty : s.readyQueueHead = null
  · have was : s.Queued process := by
      change (s.schedule saved).links.Queued null process at queued
      rwa [schedule_links_idle s saved empty] at queued
    rw [schedule_states_idle s saved empty, owns]
    exact holds.1 process was
  · by_cases same : s.readyQueueHead = s.currentProcess
    · -- the head is READY, so a current process at the head is not requeued
      obtain ⟨nodes, chain⟩ := coherent.linked.finite s.readyQueueHead
      obtain ⟨rest, split, _⟩ := chain.exists_cons empty
      have headReady := (holds.1 s.readyQueueHead ⟨nodes, chain, split ▸ List.mem_cons_self⟩).1
      have stays : ¬ s.Preempts := fun preempts => by
        rw [same, preempts.2] at headReady
        cases headReady
      have was : s.Queued process := by
        change (s.schedule saved).links.Queued null process at queued
        rwa [schedule_links s saved empty, if_pos same, requeueCurrent_of_not s stays] at queued
      rw [schedule_states s saved empty, if_pos same, requeueCurrent_of_not s stays, owns]
      exact holds.1 process was
    · rw [schedule_states s saved empty, if_neg same, requeueCurrent_states, owns]
      rcases schedule_queued coherent saved empty same queued with
        ⟨was, notHead⟩ | ⟨requeued, preempts⟩
      · obtain ⟨ready, owned⟩ := holds.1 process was
        refine ⟨?_, owned⟩
        rw [Function.update_of_ne notHead]
        split
        · next preempts =>
            have different : process ≠ s.currentProcess := fun equal => by
              rw [equal, preempts.2] at ready
              cases ready
            rw [Function.update_of_ne different]
            exact ready
        · exact ready
      · refine ⟨?_, requeued ▸ holds.2 preempts.1⟩
        rw [if_pos preempts, Function.update_of_ne (requeued ▸ Ne.symm same), requeued,
          Function.update_self]

/-- An exit is safe unless its process stays queued behind the one dispatched. -/
theorem sysExit_noDangling_iff (coherent : s.Coherent image) (holds : s.NoDangling)
    (saved : CpuState) (exitCode : Word) :
    (s.sysExit saved exitCode).NoDangling ↔ s.TearsDownClean (.exit saved exitCode) := by
  by_cases current : s.currentProcess = null
  · rw [sysExit_null s saved exitCode current]
    exact iff_of_true holds fun running => absurd current running
  · have owns (process : Word) : (s.sysExit saved exitCode).Owns process ↔ s.Owns process := by
      rw [sysExit_eq s saved exitCode current]
      exact owns_congr (s := s)
        (congrArg Registry.processTable ((s.exited exitCode).schedule_registry saved))
        (((s.exited exitCode).schedule_identity saved).trans (s.exited_identity exitCode)) process
    have runs : (s.sysExit saved exitCode).Owns (s.sysExit saved exitCode).currentProcess := by
      rw [s.sysExit_currentProcess saved exitCode current, owns]
      exact coherent.chosen_owns fun process queued => (holds.1 process queued).2
    by_cases empty : s.readyQueueHead = null
    · have none (process : Word) : ¬ s.Queued process := Links.not_reaches_null empty process
      refine iff_of_true ⟨fun process queued => ?_, fun _ => runs⟩
        fun _ queued => absurd queued (none _)
      rw [Queued, s.sysExit_links_idle saved exitCode current empty] at queued
      exact absurd queued (none process)
    · have queuedIff (process : Word) : (s.sysExit saved exitCode).Queued process ↔
          s.Queued process ∧ process ≠ s.readyQueueHead := by
        rw [Queued, s.sysExit_links saved exitCode current empty]
        exact coherent.linked.unlink_head_queued_iff empty process
      have states := s.sysExit_states saved exitCode current empty
      constructor
      · rintro dangling _ queued
        by_contra notHead
        have ready := (dangling.1 _ ((queuedIff _).mpr ⟨queued, notHead⟩)).1
        rw [states, Function.update_of_ne notHead, Function.update_self] at ready
        cases ready
      · intro safe
        refine ⟨fun process queued => ?_, fun _ => runs⟩
        obtain ⟨was, notHead⟩ := (queuedIff process).mp queued
        have different : process ≠ s.currentProcess := fun same =>
          notHead (same ▸ safe current (same ▸ was))
        rw [states, Function.update_of_ne notHead, Function.update_of_ne different, owns]
        exact holds.1 process was

/-! ## Creation -/

theorem processCreateTest_noDangling (coherent : s.Coherent image) (holds : s.NoDangling)
    (name : Option CString) (entryPoint : Word) (priority : ProcessPriority) :
    (s.processCreateTest image name entryPoint priority).2.NoDangling := by
  by_cases room : s.testCount < 10
  · have inactive : ¬ s.Active image (image.testSlot s.testCount) := next_not_active room
    have owns {process : Word} (active : s.Active image process) :=
      coherent.owns_update
        (congrArg Registry.processTable
          (processCreateTest_registry image s room name entryPoint priority))
        (processCreateTest_identity image s room name entryPoint priority) active
        fun same => inactive (same ▸ active)
    refine ⟨fun process queued => ?_, fun nonnull => ?_⟩
    · have was : s.Queued process := by
        rw [Queued, coherent.processCreateTest_links] at queued
        exact queued
      rw [coherent.processCreateTest_states, owns (coherent.queued_active was)]
      exact holds.1 process was
    · rw [processCreateTest_currentProcess] at nonnull ⊢
      rw [owns (coherent.current nonnull)]
      exact holds.2 nonnull
  · rw [processCreateTest_full image s (Nat.le_of_not_lt room)]
    exact holds

theorem sysFork_noDangling (coherent : s.Coherent image) (holds : s.NoDangling) :
    (s.sysFork image).2.NoDangling := by
  by_cases refused : s.currentProcess = null ∨ 10 ≤ s.testCount
  · rw [sysFork_refused image s refused]
    exact holds
  · obtain ⟨nonnull, notFull⟩ := not_or.mp refused
    have room := Nat.lt_of_not_le notFull
    have inactive : ¬ s.Active image (image.testSlot s.testCount) := next_not_active room
    have currentActive := coherent.current nonnull
    have other : s.currentProcess ≠ image.testSlot s.testCount :=
      fun same => inactive (same ▸ currentActive)
    have registry := sysFork_registry image s nonnull room
    have identity := sysFork_identity image s nonnull room other
    have owns {process : Word} (active : s.Active image process) :=
      coherent.owns_update (congrArg Registry.processTable registry) identity active
        fun same => inactive (same ▸ active)
    obtain ⟨owner, bound, _, pid⟩ := coherent.active_pid currentActive
    have child : (s.sysFork image).2.Owns (image.testSlot s.testCount) :=
      owns_of_registered room (create_registered registry identity (by omega))
    refine ⟨fun process queued => ?_, fun running => ?_⟩
    · have prev : s.links.prev (image.testSlot s.testCount) = null :=
        not_not.mp fun linked => inactive (coherent.confined.prev linked)
      have notHead : image.testSlot s.testCount ≠ s.links.head := fun same =>
        inactive (same ▸ coherent.confined.head (same ▸ Image.testSlot_ne_null room))
      have notTail : image.testSlot s.testCount ≠ s.links.tail := fun same =>
        inactive (same ▸ coherent.confined.tail (same ▸ Image.testSlot_ne_null room))
      rw [Queued, coherent.sysFork_links_append nonnull room] at queued
      rw [coherent.sysFork_states]
      rcases coherent.linked.append_queued (Image.testSlot_ne_null room) prev notHead notTail
        queued with was | fresh
      · rw [owns (coherent.queued_active was)]
        exact holds.1 process was
      · exact ⟨fresh ▸ coherent.idle _ inactive, fresh ▸ child⟩
    · rw [sysFork_currentProcess] at running ⊢
      rw [owns currentActive]
      exact holds.2 running

/-! ## Tear-down -/

/-- A kill by pid is safe unless its target is queued or current. -/
theorem killByPid_noDangling_iff (coherent : s.Coherent image) (holds : s.NoDangling) (pid : Word) :
    (s.processKillByPid image pid).2.NoDangling ↔ s.TearsDownClean (.killByPid pid) := by
  by_cases killable : s.Killable pid
  · obtain ⟨index, bound, _, place, found, registered⟩ := coherent.killable killable
    have effect := coherent.processKillByPid_eq killable
    have table : (s.processKillByPid image pid).2.processTable =
        Function.update s.processTable (index + 1) null := by
      rw [effect, place]
      rfl
    have identity : (s.processKillByPid image pid).2.identity =
        Function.update s.identity (image.testSlot index)
          { s.identity (image.testSlot index) with stackBase := 0, stackSize := 0 } := by
      rw [effect, setTable_identity, setState_identity, dropStack_identity, found]
    have stripped : ¬ (s.processKillByPid image pid).2.Owns (image.testSlot index) := by
      intro owns
      have gone := congrFun identity (image.testSlot index)
      rw [Function.update_self] at gone
      exact owns.2 (congrArg Process.Identity.stackBase gone)
    have links := coherent.processKillByPid_links pid
    have current := coherent.processKillByPid_currentProcess pid
    have nonnull : image.testSlot index ≠ null :=
      Image.testSlot_ne_null (Nat.lt_of_lt_of_le bound coherent.count)
    constructor
    · rintro ⟨queue, running⟩ _
      rw [found]
      constructor
      · intro queued
        refine stripped (queue _ ?_).2
        rw [Queued, links]
        exact queued
      · intro same
        rw [current, ← same] at running
        exact stripped (running nonnull)
    · intro safe
      obtain ⟨notQueued, notCurrent⟩ := safe killable
      rw [found] at notQueued notCurrent
      refine ⟨fun process queued => ?_, fun running => ?_⟩
      · rw [Queued, links] at queued
        have different : process ≠ image.testSlot index := fun same => notQueued (same ▸ queued)
        rw [coherent.processKillByPid_states, if_pos killable, found,
          Function.update_of_ne different,
          coherent.owns_update table identity (coherent.queued_active queued) different]
        exact holds.1 process queued
      · rw [current] at running ⊢
        rw [coherent.owns_update table identity (coherent.current running) notCurrent.symm]
        exact holds.2 running
  · rw [processKillByPid_refused s image pid killable]
    exact iff_of_true holds fun impossible => absurd impossible killable

/-- A wait is safe unless it splices a chain of unfit processes in at the head. -/
theorem sysWait_noDangling_iff (coherent : s.Coherent image) (holds : s.NoDangling)
    {status : Word} (outside : status = null ∨ image.Outside status) :
    (s.sysWait image status).2.NoDangling ↔ s.TearsDownClean (.wait status) := by
  cases reaps : s.reaped? with
  | none =>
      rw [s.sysWait_none image reaps]
      refine iff_of_true holds fun proc impossible => ?_
      rw [reaps] at impossible
      cases impossible
  | some proc =>
      obtain ⟨index, bound, _, rfl, registered, notCurrent, dead⟩ := coherent.reaped reaps
      have nonnull : image.testSlot index ≠ null :=
        Image.testSlot_ne_null (Nat.lt_of_lt_of_le bound coherent.count)
      have notQueued : ¬ s.Queued (image.testSlot index) := fun queued => by
        rw [(holds.1 _ queued).1] at dead
        cases dead
      obtain ⟨links, states, current⟩ := coherent.sysWait_reaps outside reaps
      obtain ⟨table, identity⟩ := coherent.sysWait_unhooks outside bound registered reaps
      have queuedIff (process : Word) : (s.sysWait image status).2.Queued process ↔
          if (s.process (image.testSlot index)).prev = null then
            s.links.Reaches null (s.process (image.testSlot index)).next process
          else s.Queued process := by
        rw [Queued, links]
        exact coherent.linked.unlink_queued_iff nonnull notQueued process
      have fit {process : Word} (active : s.Active image process)
          (different : process ≠ image.testSlot index) :
          ((s.sysWait image status).2.states process = .ready ∧
            (s.sysWait image status).2.Owns process) ↔
              s.states process = .ready ∧ s.Owns process := by
        rw [states, Function.update_of_ne different,
          coherent.owns_update table identity active different]
      have running : (s.sysWait image status).2.currentProcess ≠ null →
          (s.sysWait image status).2.Owns (s.sysWait image status).2.currentProcess := by
        rw [current]
        intro nonnull
        rw [coherent.owns_update table identity (coherent.current nonnull) notCurrent.symm]
        exact holds.2 nonnull
      have behind {process : Word}
          (reached : s.links.Reaches null (s.process (image.testSlot index)).next process) :
          s.Active image process ∧ process ≠ image.testSlot index := by
        obtain ⟨nodes, chain, member⟩ := reached
        have whole : Chain null s.links.next (image.testSlot index)
            (image.testSlot index :: nodes) := ⟨rfl, nonnull, chain⟩
        refine ⟨coherent.confined.chain coherent.linked chain
          (coherent.confined.next_allowed coherent.linked nonnull) process member, ?_⟩
        exact fun same => (List.nodup_cons.mp whole.nodup).1 (same ▸ member)
      constructor
      · rintro ⟨queue, _⟩ other sameReap first process reached
        have equal : other = image.testSlot index := Option.some.inj (sameReap.symm.trans reaps)
        subst equal
        obtain ⟨active, different⟩ := behind reached
        refine (fit active different).mp (queue process ((queuedIff process).mpr ?_))
        rw [if_pos first]
        exact reached
      · intro safe
        refine ⟨fun process queued => ?_, running⟩
        have placed := (queuedIff process).mp queued
        split at placed
        · next first =>
            obtain ⟨active, different⟩ := behind placed
            exact (fit active different).mpr (safe _ reaps first process placed)
        · have different : process ≠ image.testSlot index := fun same => notQueued (same ▸ placed)
          exact (fit (coherent.queued_active placed) different).mpr (holds.1 process placed)

/-- One operation leaves no process dangling exactly when it tears down and marks none in use. -/
theorem step_noDangling_iff (coherent : s.Coherent image) (holds : s.NoDangling) (op : ProcessOp)
    (outside : op.StatusOutside image) :
    (s.step image op).NoDangling ↔ s.TearsDownClean op ∧ s.MarksUnqueued op := by
  cases op with
  | createTest name entryPoint priority =>
      exact iff_of_true (coherent.processCreateTest_noDangling holds name entryPoint priority)
        ⟨trivial, trivial⟩
  | fork => exact iff_of_true (coherent.sysFork_noDangling holds) ⟨trivial, trivial⟩
  | exec program =>
      refine ((noDangling_mark_iff holds (sysExec_links image s program)
        (sysExec_registry image s program) (sysExec_identity image s program) ?_
        (sysExec_states image s program) (by decide)).trans and_imp).trans
          (and_iff_right trivial).symm
      exact (sysExec_currentProcess image s program).symm ▸ holds.2
  | exit saved exitCode =>
      exact (coherent.sysExit_noDangling_iff holds saved exitCode).trans
        (and_iff_left trivial).symm
  | processExit exitCode =>
      refine (noDangling_mark_iff holds (processExit_links s exitCode)
        (processExit_registry s exitCode) (processExit_identity s exitCode) ?_
        (processExit_states s exitCode) (by decide)).trans (and_iff_right trivial).symm
      exact (processExit_currentProcess s exitCode).symm ▸ holds.2
  | kill pid signal =>
      refine ((noDangling_mark_iff holds (sysKill_links s pid signal)
        (sysKill_registry s pid signal) (sysKill_identity s pid signal) ?_
        (sysKill_states s pid signal) (by decide)).trans and_imp).trans
          (and_iff_right trivial).symm
      exact (sysKill_currentProcess s pid signal).symm ▸ holds.2
  | wait status =>
      exact (coherent.sysWait_noDangling_iff holds outside).trans (and_iff_left trivial).symm
  | killByPid pid =>
      exact (coherent.killByPid_noDangling_iff holds pid).trans (and_iff_left trivial).symm
  | setStatus pid status =>
      exact (setStatus_noDangling_iff holds pid status).trans (and_iff_right trivial).symm
  | changeCurrent pid =>
      refine (noDangling_mark_iff holds (changeCurrentProcess_links s pid)
        (changeCurrentProcess_registry s pid) (changeCurrentProcess_identity s pid) ?_
        (changeCurrentProcess_states s pid) (by decide)).trans (and_iff_right trivial).symm
      rw [changeCurrentProcess_currentProcess]
      split
      · next switchable => exact fun _ => coherent.found_owns switchable.2
      · exact holds.2
  | schedule saved =>
      exact iff_of_true (coherent.schedule_noDangling holds saved) ⟨trivial, trivial⟩

end Coherent

theorem boot_noDangling (image : Image) : (boot image).NoDangling := by
  refine ⟨fun process queued => ?_, fun _ => ?_⟩
  · rw [Queued, boot_links] at queued
    exact absurd queued (Links.not_reaches_null rfl process)
  · have kernel : (boot image).currentProcess = (boot image).kernelProcess := by
      rw [boot_currentProcess, (boot_coherent image).kernel]
    rw [kernel]
    exact (boot_coherent image).kernel_owns

/-- No process dangles in any state of a run exactly when both conditions hold at every step. -/
theorem noDangling_iff (image : Image) (ops : List ProcessOp)
    (outside : ∀ op ∈ ops, op.StatusOutside image) :
    Always (step image) NoDangling (boot image) ops ↔
      Along (step image) TearsDownClean (boot image) ops ∧
        Along (step image) MarksUnqueued (boot image) ops := by
  rw [← along_and]
  exact always_iff_along
    (fun s op allowed (coherent : s.Coherent image) _ _ => coherent.step op allowed)
    (fun s op allowed (coherent : s.Coherent image) holds =>
      coherent.step_noDangling_iff holds op allowed)
    (boot_coherent image) (boot_noDangling image) outside

/-- Fork, run the child to its exit, and reap it. -/
theorem noDangling_fork_schedule_exit_wait :
    Always (step Image.sample) NoDangling (boot Image.sample)
      [.fork, .schedule {}, .exit {} 0, .wait null] := by
  refine (noDangling_iff Image.sample [.fork, .schedule {}, .exit {} 0, .wait null] ?_).mpr
    ⟨⟨trivial, trivial, ?_, ?_, trivial⟩, ⟨trivial, trivial, trivial, trivial, trivial⟩⟩
  · intro op member
    simp only [List.mem_cons, List.not_mem_nil, or_false] at member
    rcases member with rfl | rfl | rfl | rfl
    · trivial
    · trivial
    · trivial
    · exact Or.inl rfl
  · intro _ queued
    have empty : (step Image.sample (step Image.sample (boot Image.sample) .fork)
        (.schedule {})).links.head = null := by decide +kernel
    exact absurd queued (Links.not_reaches_null empty _)
  · have child : ∀ s, s = step Image.sample (step Image.sample (step Image.sample
          (boot Image.sample) .fork) (.schedule {})) (.exit {} 0) →
        s.reaped? = some (Image.sample.testSlot 1) ∧
          (s.process (Image.sample.testSlot 1)).next = null := by
      intro s reached
      rw [reached]
      decide +kernel
    intro proc reaps _ process reached
    have here : proc = Image.sample.testSlot 1 :=
      Option.some.inj (reaps.symm.trans (child _ rfl).1)
    rw [here] at reached
    exact absurd reached (Links.not_reaches_null (child _ rfl).2 process)

end Kernel

end SimpleOS
