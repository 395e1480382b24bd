import SimpleOS.Kernel.Operations

/-!
# The invariant of every run

The part of the process manager that no operation can break: the first
`testCount` static records are registered, killed or cleaned up; the table
holds the registered ones at their pids; only records that are not cleaned up
carry links, end the queue or run; and the links form finite chains.  What the
code does break is left to the properties proved over this invariant.
-/

namespace SimpleOS

open Library.ByteMemory Library.LinkedChain

namespace Kernel

section Phases

variable (image : Image) (s : Kernel)

/-- Record `index` is in the table under its pid, with its stack and an older parent. -/
def Registered (index : Nat) : Prop :=
  s.processTable (index + 1) = image.testSlot index ∧
    ∃ parentPid : Word, parentPid.toNat ≤ index ∧
      s.identity (image.testSlot index) = image.newIdentity index parentPid

/-- Record `index` has been taken out of the table by a kill, without its stack. -/
def Killed (index : Nat) : Prop :=
  s.processTable (index + 1) = null ∧
    ∃ parentPid : Word, s.identity (image.testSlot index) =
      { image.newIdentity index parentPid with stackBase := 0, stackSize := 0 }

/-- A created record that has not been cleaned up. -/
def Active (target : Word) : Prop :=
  ∃ index < s.testCount, target = image.testSlot index ∧
    (s.Registered image index ∨ s.Killed image index)

end Phases

/-- The invariant. -/
structure Coherent (image : Image) (s : Kernel) : Prop where
  count : s.testCount ≤ 10
  kernel : s.kernelProcess = image.testSlot 0
  root : 0 < s.testCount ∧ s.Registered image 0
  table : ∀ entry, s.processTable entry ≠ null →
    ∃ index < s.testCount, entry = index + 1 ∧ s.Registered image index
  loaded : s.StacksLoaded image
  linked : Linked null s.links
  confined : Confined null (s.Active image) s.links
  current : s.currentProcess ≠ null → s.Active image s.currentProcess
  idle : ∀ target, ¬ s.Active image target → s.states target = .ready

variable {image : Image} {s t : Kernel}

/-! ## The phases -/

theorem Registered.congr {index : Nat} (registered : s.Registered image index)
    (table : t.processTable (index + 1) = s.processTable (index + 1))
    (identity : t.identity (image.testSlot index) = s.identity (image.testSlot index)) :
    t.Registered image index := by
  obtain ⟨entry, parentPid, older, same⟩ := registered
  exact ⟨table.trans entry, parentPid, older, identity.trans same⟩

theorem Killed.congr {index : Nat} (killed : s.Killed image index)
    (table : t.processTable (index + 1) = s.processTable (index + 1))
    (identity : t.identity (image.testSlot index) = s.identity (image.testSlot index)) :
    t.Killed image index := by
  obtain ⟨entry, parentPid, same⟩ := killed
  exact ⟨table.trans entry, parentPid, identity.trans same⟩

/-- Being active depends on the table, the identities and the count. -/
theorem active_congr (table : t.processTable = s.processTable) (identity : t.identity = s.identity)
    (count : t.testCount = s.testCount) : t.Active image = s.Active image := by
  funext target
  simp only [Active, Registered, Killed, table, identity, count]

/-- The record of the next creation is not active yet. -/
theorem next_not_active (room : s.testCount < 10) :
    ¬ s.Active image (image.testSlot s.testCount) := by
  rintro ⟨index, bound, same, _⟩
  have := Image.testSlot_inj room (Nat.lt_trans bound room) same
  omega

namespace Coherent

/-- Records of different indices are different. -/
theorem slot_inj (coherent : s.Coherent image) {first second : Nat}
    (firstBound : first < s.testCount)
    (secondBound : second < s.testCount)
    (same : image.testSlot first = image.testSlot second) : first = second :=
  Image.testSlot_inj (Nat.lt_of_lt_of_le firstBound coherent.count)
    (Nat.lt_of_lt_of_le secondBound coherent.count) same

theorem active_ne_null (coherent : s.Coherent image) {target : Word}
    (active : s.Active image target) : target ≠ null := by
  obtain ⟨index, bound, rfl, _⟩ := active
  exact Image.testSlot_ne_null (Nat.lt_of_lt_of_le bound coherent.count)

/-- The pid of an active record is its index plus one. -/
theorem active_pid (coherent : s.Coherent image) {target : Word} (active : s.Active image target) :
    ∃ index < s.testCount, target = image.testSlot index ∧
      (s.identity target).pid.toNat = index + 1 := by
  obtain ⟨index, bound, rfl, phase⟩ := active
  have small := coherent.count
  have pid : (s.identity (image.testSlot index)).pid = BitVec.ofNat 32 (index + 1) := by
    rcases phase with ⟨_, _, _, same⟩ | ⟨_, _, same⟩ <;> rw [same] <;> rfl
  refine ⟨index, bound, rfl, ?_⟩
  rw [pid, BitVec.toNat_ofNat]
  exact Nat.mod_eq_of_lt (by omega)

/-- A process found by pid is the registered record of that pid. -/
theorem found (coherent : s.Coherent image) {pid : Word}
    (nonnull : s.processFindByPid pid ≠ null) :
    ∃ index < s.testCount, pid.toNat = index + 1 ∧
      s.processFindByPid pid = image.testSlot index ∧ s.Registered image index := by
  have small := s.lt_of_processFindByPid nonnull
  rw [s.processFindByPid_of_lt small] at nonnull ⊢
  obtain ⟨index, bound, place, registered⟩ := coherent.table _ nonnull
  exact ⟨index, bound, place, place ▸ registered.1, registered⟩

theorem found_active (coherent : s.Coherent image) {pid : Word}
    (nonnull : s.processFindByPid pid ≠ null) : s.Active image (s.processFindByPid pid) := by
  obtain ⟨index, bound, _, place, registered⟩ := coherent.found nonnull
  exact ⟨index, bound, place, Or.inl registered⟩

theorem kernel_active (coherent : s.Coherent image) : s.Active image s.kernelProcess :=
  ⟨0, coherent.root.1, coherent.kernel, Or.inl coherent.root.2⟩

theorem kernel_ne_null (coherent : s.Coherent image) : s.kernelProcess ≠ null :=
  coherent.active_ne_null coherent.kernel_active

theorem head_active (coherent : s.Coherent image) (nonnull : s.readyQueueHead ≠ null) :
    s.Active image s.readyQueueHead :=
  coherent.confined.head nonnull

theorem chosen_active (coherent : s.Coherent image) : s.Active image s.chosen :=
  (s.chosen_iff _).mpr ⟨coherent.head_active, fun _ => coherent.kernel_active⟩

/-- A queued record is active. -/
theorem queued_active (coherent : s.Coherent image) {target : Word} (queued : s.Queued target) :
    s.Active image target :=
  coherent.confined.queued coherent.linked queued

/-! ## Moves that keep the invariant -/

/-- A change of links, states and current process only. -/
theorem move (coherent : s.Coherent image) (registry : t.registry = s.registry)
    (identity : t.identity = s.identity) (linked : Linked null t.links)
    (confined : Confined null (s.Active image) t.links)
    (current : t.currentProcess ≠ null → s.Active image t.currentProcess)
    (idle : ∀ target, ¬ s.Active image target → t.states target = .ready) : t.Coherent image := by
  have table : t.processTable = s.processTable := congrArg Registry.processTable registry
  have count : t.testCount = s.testCount := congrArg Registry.testCount registry
  have kernel : t.kernelProcess = s.kernelProcess := congrArg Registry.kernelProcess registry
  have memory : t.memory = s.memory := congrArg Registry.memory registry
  have active : t.Active image = s.Active image := active_congr table identity count
  have registered (index : Nat) (holds : s.Registered image index) : t.Registered image index :=
    holds.congr (congrFun table _) (congrFun identity _)
  exact
    { count := count ▸ coherent.count
      kernel := kernel.trans coherent.kernel
      root := ⟨count ▸ coherent.root.1, registered 0 coherent.root.2⟩
      table := by
        intro entry nonnull
        rw [table] at nonnull
        obtain ⟨index, bound, place, holds⟩ := coherent.table entry nonnull
        exact ⟨index, count ▸ bound, place, registered index holds⟩
      loaded := by
        intro offset bound
        rw [memory]
        exact coherent.loaded offset bound
      linked := linked
      confined := active ▸ confined
      current := active ▸ current
      idle := active ▸ idle }

/-- A change of the state of an active record. -/
theorem restate (coherent : s.Coherent image) (registry : t.registry = s.registry)
    (identity : t.identity = s.identity) (links : t.links = s.links)
    (current : t.currentProcess ≠ null → s.Active image t.currentProcess) {target : Word}
    {state : ProcessState} (active : s.Active image target)
    (states : t.states = Function.update s.states target state) : t.Coherent image := by
  refine coherent.move registry identity (links ▸ coherent.linked) (links ▸ coherent.confined)
    current fun other inactive => ?_
  have different : other ≠ target := fun same => inactive (same ▸ active)
  rw [states, Function.update_of_ne different]
  exact coherent.idle other inactive

/-! ## Operations that move processes -/

theorem requeueCurrent_linked (coherent : s.Coherent image) :
    Linked null s.requeueCurrent.links := by
  rw [requeueCurrent_links]
  split
  · next moves => exact coherent.linked.requeue moves.1.1
  · exact coherent.linked

theorem requeueCurrent_confined (coherent : s.Coherent image) :
    Confined null (s.Active image) s.requeueCurrent.links := by
  rw [requeueCurrent_links]
  split
  · next moves =>
      have unlinked :=
        (coherent.confined.unlink coherent.linked moves.1.1).mono fun _ both => both.1
      exact unlinked.append (coherent.current moves.1.1)
  · exact coherent.confined

theorem requeueCurrent_idle (coherent : s.Coherent image) {target : Word}
    (inactive : ¬ s.Active image target) : s.requeueCurrent.states target = .ready := by
  rw [requeueCurrent_states]
  split
  · next preempts =>
      have different : target ≠ s.currentProcess := fun same =>
        inactive (same ▸ coherent.current preempts.1)
      rw [Function.update_of_ne different]
      exact coherent.idle target inactive
  · exact coherent.idle target inactive

theorem schedule (coherent : s.Coherent image) (saved : CpuState) :
    (s.schedule saved).Coherent image := by
  have current : (s.schedule saved).currentProcess ≠ null →
      s.Active image (s.schedule saved).currentProcess := by
    rw [schedule_currentProcess]
    exact fun _ => coherent.chosen_active
  refine coherent.move (s.schedule_registry saved) (s.schedule_identity saved) ?_ ?_ current ?_
  · by_cases empty : s.readyQueueHead = null
    · rw [schedule_links_idle s saved empty]
      exact coherent.linked
    · rw [schedule_links s saved empty]
      split
      · exact coherent.requeueCurrent_linked
      · exact coherent.requeueCurrent_linked.unlink empty
  · by_cases empty : s.readyQueueHead = null
    · rw [schedule_links_idle s saved empty]
      exact coherent.confined
    · rw [schedule_links s saved empty]
      split
      · exact coherent.requeueCurrent_confined
      · exact (coherent.requeueCurrent_confined.unlink coherent.requeueCurrent_linked empty).mono
          fun _ both => both.1
  · intro target inactive
    by_cases empty : s.readyQueueHead = null
    · rw [schedule_states_idle s saved empty]
      exact coherent.idle target inactive
    · rw [schedule_states s saved empty]
      split
      · exact coherent.requeueCurrent_idle inactive
      · have different : target ≠ s.readyQueueHead := fun same =>
          inactive (same ▸ coherent.head_active empty)
        rw [Function.update_of_ne different]
        exact coherent.requeueCurrent_idle inactive

theorem exited (coherent : s.Coherent image) (current : s.currentProcess ≠ null)
    (exitCode : Word) : (s.exited exitCode).Coherent image :=
  coherent.restate (s.exited_registry exitCode) (s.exited_identity exitCode)
    (s.exited_links exitCode) (fun impossible => absurd rfl impossible) (coherent.current current)
    (s.exited_states exitCode)

theorem sysExit (coherent : s.Coherent image) (saved : CpuState) (exitCode : Word) :
    (s.sysExit saved exitCode).Coherent image := by
  by_cases current : s.currentProcess = null
  · rw [sysExit_null s saved exitCode current]
    exact coherent
  · rw [sysExit_eq s saved exitCode current]
    exact (coherent.exited current exitCode).schedule saved

theorem setState (coherent : s.Coherent image) {target : Word} (active : s.Active image target)
    (state : ProcessState) : (s.setState target state).Coherent image :=
  coherent.restate (setState_registry _ _ _) (setState_identity _ _ _) (setState_links _ _ _)
    coherent.current active (setState_states _ _ _)

theorem processExit (coherent : s.Coherent image) (exitCode : Word) :
    (s.processExit exitCode).Coherent image := by
  by_cases exits : s.Exits
  · rw [processExit_of_exits s exits]
    exact coherent.setState (coherent.current exits.1) .terminated
  · rw [processExit_of_not s exits]
    exact coherent

/-- An assignment to silent fields. -/
theorem silent (coherent : s.Coherent image) (target : Word) {change : Process → Process}
    (silent : Silent change) : (s.modify target change).Coherent image := by
  have links := s.modify_links_silent target silent
  have states := s.modify_states_silent target silent
  exact coherent.move rfl (s.modify_identity_silent target silent) (links ▸ coherent.linked)
    (links ▸ coherent.confined) coherent.current (states ▸ coherent.idle)

theorem sysExec (coherent : s.Coherent image) (program : Option CString) :
    (s.sysExec image program).2.Coherent image := by
  by_cases execs : s.Execs program
  · obtain ⟨change, quiet, runs⟩ := s.sysExec_runs image program execs
    rw [runs]
    exact (coherent.silent s.currentProcess quiet).processExit 0
  · rw [s.sysExec_refused image program execs]
    exact coherent

theorem sysKill (coherent : s.Coherent image) (pid signal : Word) :
    (s.sysKill pid signal).2.Coherent image := by
  rw [sysKill_snd]
  split
  · next kills =>
      have active := coherent.found_active kills.1.2.1
      exact (coherent.setState active .terminated).silent _ fun _ => ⟨rfl, rfl, rfl, rfl⟩
  · exact coherent

theorem processSetStatus (coherent : s.Coherent image) (pid : Word) (status : ProcessState) :
    (s.processSetStatus pid status).2.Coherent image := by
  rw [processSetStatus_snd]
  split
  · next settable => exact coherent.setState (coherent.found_active settable.1) status
  · exact coherent

theorem changeCurrentProcess (coherent : s.Coherent image) (pid : Word) :
    (s.changeCurrentProcess pid).Coherent image := by
  rw [changeCurrentProcess_eq]
  split
  · next switchable =>
      have active := coherent.found_active switchable.2
      exact coherent.restate rfl (setState_identity _ _ _) (setState_links _ _ _) (fun _ => active)
        active (setState_states _ _ _)
  · exact coherent

/-! ## Creation -/

section Creation

variable (room : s.testCount < 10) {parentPid : Word} (older : parentPid.toNat ≤ s.testCount)
  (registry : t.registry =
    { s.registry with
      testCount := s.testCount + 1
      processTable :=
        Function.update s.processTable (s.testCount + 1) (image.testSlot s.testCount) })
  (identity : t.identity = Function.update s.identity (image.testSlot s.testCount)
    (image.newIdentity s.testCount parentPid))

include registry identity

theorem create_registered (older : parentPid.toNat ≤ s.testCount) :
    t.Registered image s.testCount := by
  refine ⟨?_, parentPid, older, ?_⟩
  · rw [show t.processTable = _ from congrArg Registry.processTable registry]
    exact Function.update_self _ _ _
  · rw [identity, Function.update_self]

include room

/-- Creation leaves the phases of the older records alone. -/
theorem create_phase {index : Nat} (bound : index < s.testCount) :
    (s.Registered image index → t.Registered image index) ∧
      (s.Killed image index → t.Killed image index) := by
  have tableAt : t.processTable (index + 1) = s.processTable (index + 1) := by
    rw [show t.processTable = _ from congrArg Registry.processTable registry]
    exact Function.update_of_ne (by omega) _ _
  have different : image.testSlot index ≠ image.testSlot s.testCount := fun same => by
    have := Image.testSlot_inj (Nat.lt_trans bound room) room same
    omega
  have identityAt : t.identity (image.testSlot index) = s.identity (image.testSlot index) := by
    rw [identity, Function.update_of_ne different]
  exact ⟨fun holds => holds.congr tableAt identityAt, fun holds => holds.congr tableAt identityAt⟩

include older

/-- The created record becomes active, and the others stay so. -/
theorem create_active (target : Word) :
    s.Active image target ∨ target = image.testSlot s.testCount → t.Active image target := by
  have count : t.testCount = s.testCount + 1 := congrArg Registry.testCount registry
  rintro (⟨index, bound, place, phase⟩ | fresh)
  · have keep := create_phase room registry identity bound
    exact ⟨index, by omega, place, phase.imp keep.1 keep.2⟩
  · exact ⟨s.testCount, by omega, fresh,
      Or.inl (create_registered registry identity older)⟩

theorem create (coherent : s.Coherent image)
    (states : t.states = Function.update s.states (image.testSlot s.testCount) .ready)
    (current : t.currentProcess = s.currentProcess) (linked : Linked null t.links)
    (confined : Confined null
      (fun target => s.Active image target ∨ target = image.testSlot s.testCount) t.links) :
    t.Coherent image := by
  have count : t.testCount = s.testCount + 1 := congrArg Registry.testCount registry
  have table : t.processTable = Function.update s.processTable (s.testCount + 1)
      (image.testSlot s.testCount) := congrArg Registry.processTable registry
  have active := create_active room older registry identity
  have rootPositive := coherent.root.1
  exact
    { count := by omega
      kernel := (congrArg Registry.kernelProcess registry).trans coherent.kernel
      root := ⟨by omega, (create_phase room registry identity rootPositive).1 coherent.root.2⟩
      table := by
        intro entry nonnull
        by_cases new : entry = s.testCount + 1
        · exact ⟨s.testCount, by omega, new, create_registered registry identity older⟩
        · rw [table, Function.update_of_ne new] at nonnull
          obtain ⟨index, bound, place, holds⟩ := coherent.table entry nonnull
          exact ⟨index, by omega, place, (create_phase room registry identity bound).1 holds⟩
      loaded := by
        intro offset bound
        rw [show t.memory = s.memory from congrArg Registry.memory registry]
        exact coherent.loaded offset bound
      linked := linked
      confined := confined.mono active
      current := by
        rw [current]
        exact fun nonnull => active _ (Or.inl (coherent.current nonnull))
      idle := by
        intro target inactive
        rw [states]
        by_cases fresh : target = image.testSlot s.testCount
        · rw [fresh, Function.update_self]
        · rw [Function.update_of_ne fresh]
          exact coherent.idle target fun old => inactive (active target (Or.inl old)) }

end Creation

/-- The record of the next creation carries no links, so clearing them changes nothing. -/
theorem next_links (coherent : s.Coherent image) (room : s.testCount < 10) :
    { s.links with
      next := Function.update s.links.next (image.testSlot s.testCount) null
      prev := Function.update s.links.prev (image.testSlot s.testCount) null } = s.links := by
  have inactive : ¬ s.Active image (image.testSlot s.testCount) := next_not_active room
  have next : s.links.next (image.testSlot s.testCount) = null :=
    not_not.mp fun linked => inactive (coherent.confined.next linked)
  have prev : s.links.prev (image.testSlot s.testCount) = null :=
    not_not.mp fun linked => inactive (coherent.confined.prev linked)
  rw [Function.update_eq_self_iff.mpr next.symm, Function.update_eq_self_iff.mpr prev.symm]

theorem processCreateTest (coherent : s.Coherent image) (name : Option CString)
    (entryPoint : Word) (priority : ProcessPriority) :
    (s.processCreateTest image name entryPoint priority).2.Coherent image := by
  by_cases room : s.testCount < 10
  · have links := (processCreateTest_links image s room name entryPoint priority).trans
      (coherent.next_links room)
    refine create room (show (0 : Word).toNat ≤ s.testCount from Nat.zero_le _)
      (processCreateTest_registry image s room name entryPoint priority)
      (processCreateTest_identity image s room name entryPoint priority) coherent
      (processCreateTest_states image s room name entryPoint priority)
      (processCreateTest_currentProcess image s room name entryPoint priority) ?_ ?_
    · rw [links]
      exact coherent.linked
    · rw [links]
      exact coherent.confined.mono fun _ active => Or.inl active
  · rw [processCreateTest_full image s (Nat.le_of_not_lt room)]
    exact coherent

/-- The links a fork leaves behind. -/
theorem sysFork_links_append (coherent : s.Coherent image) (nonnull : s.currentProcess ≠ null)
    (room : s.testCount < 10) :
    (s.sysFork image).2.links = s.links.append null (image.testSlot s.testCount) := by
  rw [sysFork_links image s nonnull room, coherent.next_links room]

theorem sysFork (coherent : s.Coherent image) : (s.sysFork image).2.Coherent image := by
  by_cases refused : s.currentProcess = null ∨ 10 ≤ s.testCount
  · rw [sysFork_refused image s refused]
    exact coherent
  · obtain ⟨nonnull, notFull⟩ := not_or.mp refused
    have room := Nat.lt_of_not_le notFull
    have inactive : ¬ s.Active image (image.testSlot s.testCount) := next_not_active room
    have currentActive := coherent.current nonnull
    have other : s.currentProcess ≠ image.testSlot s.testCount :=
      fun same => inactive (same ▸ currentActive)
    obtain ⟨index, bound, _, pid⟩ := coherent.active_pid currentActive
    have links := coherent.sysFork_links_append nonnull room
    have next : s.links.next (image.testSlot s.testCount) = null :=
      not_not.mp fun linked => inactive (coherent.confined.next linked)
    have prev : s.links.prev (image.testSlot s.testCount) = null :=
      not_not.mp fun linked => inactive (coherent.confined.prev linked)
    have notHead : image.testSlot s.testCount ≠ s.links.head := fun same =>
      inactive (same ▸ coherent.confined.head (same ▸ Image.testSlot_ne_null room))
    have notTail : image.testSlot s.testCount ≠ s.links.tail := fun same =>
      inactive (same ▸ coherent.confined.tail (same ▸ Image.testSlot_ne_null room))
    refine create room (by omega) (sysFork_registry image s nonnull room)
      (sysFork_identity image s nonnull room other) coherent (sysFork_states image s nonnull room)
      (sysFork_currentProcess image s nonnull room) ?_ ?_
    · rw [links]
      exact coherent.linked.append (Image.testSlot_ne_null room) next prev notHead notTail
    · rw [links]
      exact (coherent.confined.mono fun _ active => Or.inl active).append (Or.inr rfl)

/-! ## Removal from the table -/

section Unhook

variable {index : Nat} (bound : index < s.testCount) {gone : Process.Identity}
  (registry : t.registry =
    { s.registry with processTable := Function.update s.processTable (index + 1) null })
  (identity : t.identity = Function.update s.identity (image.testSlot index) gone)

include bound registry identity

/-- Taking one record out of the table leaves the phases of the others alone. -/
theorem unhook_phase (coherent : s.Coherent image) {other : Nat} (otherBound : other < s.testCount)
    (different : other ≠ index) :
    (s.Registered image other → t.Registered image other) ∧
      (s.Killed image other → t.Killed image other) := by
  have tableAt : t.processTable (other + 1) = s.processTable (other + 1) := by
    rw [show t.processTable = _ from congrArg Registry.processTable registry]
    exact Function.update_of_ne (by omega) _ _
  have apart : image.testSlot other ≠ image.testSlot index := fun same =>
    different (coherent.slot_inj otherBound bound same)
  have identityAt : t.identity (image.testSlot other) = s.identity (image.testSlot other) := by
    rw [identity, Function.update_of_ne apart]
  exact ⟨fun holds => holds.congr tableAt identityAt, fun holds => holds.congr tableAt identityAt⟩

/-- The other active records stay active. -/
theorem unhook_active (coherent : s.Coherent image) {target : Word}
    (active : s.Active image target) (different : target ≠ image.testSlot index) :
    t.Active image target := by
  obtain ⟨other, otherBound, place, phase⟩ := active
  have notIndex : other ≠ index := fun same => different (same ▸ place)
  have keep := unhook_phase bound registry identity coherent otherBound notIndex
  have count : t.testCount = s.testCount := congrArg Registry.testCount registry
  exact ⟨other, count ▸ otherBound, place, phase.imp keep.1 keep.2⟩

theorem unhook (coherent : s.Coherent image) (positive : 0 < index) (linked : Linked null t.links)
    (confined : Confined null (t.Active image) t.links)
    (current : t.currentProcess ≠ null → t.Active image t.currentProcess)
    (idle : ∀ target, ¬ t.Active image target → t.states target = .ready) : t.Coherent image := by
  have count : t.testCount = s.testCount := congrArg Registry.testCount registry
  have table : t.processTable = Function.update s.processTable (index + 1) null :=
    congrArg Registry.processTable registry
  exact
    { count := count ▸ coherent.count
      kernel := (congrArg Registry.kernelProcess registry).trans coherent.kernel
      root := ⟨count ▸ coherent.root.1,
        (unhook_phase bound registry identity coherent coherent.root.1 (by omega)).1
          coherent.root.2⟩
      table := by
        intro entry nonnull
        have notIndex : entry ≠ index + 1 := by
          intro same
          rw [table, same, Function.update_self] at nonnull
          exact nonnull rfl
        rw [table, Function.update_of_ne notIndex] at nonnull
        obtain ⟨other, otherBound, place, holds⟩ := coherent.table entry nonnull
        exact ⟨other, count ▸ otherBound, place,
          (unhook_phase bound registry identity coherent otherBound (by omega)).1 holds⟩
      loaded := by
        intro offset inside
        rw [show t.memory = s.memory from congrArg Registry.memory registry]
        exact coherent.loaded offset inside
      linked := linked
      confined := confined
      current := current
      idle := idle }

end Unhook

/-- A killable pid belongs to a registered record other than the kernel's. -/
theorem killable (coherent : s.Coherent image) {pid : Word} (killable : s.Killable pid) :
    ∃ index < s.testCount, 0 < index ∧ pid.toNat = index + 1 ∧
      s.processFindByPid pid = image.testSlot index ∧ s.Registered image index := by
  obtain ⟨index, bound, place, found, registered⟩ := coherent.found killable.2.1
  refine ⟨index, bound, Nat.pos_of_ne_zero fun zero => killable.2.2 ?_, place, found, registered⟩
  rw [found, zero, coherent.kernel]

/-- What a kill does: `kfree` of a static stack overwrites nothing. -/
theorem processKillByPid_eq (coherent : s.Coherent image) {pid : Word}
    (killable : s.Killable pid) :
    (s.processKillByPid image pid).2 =
      ((s.dropStack (s.processFindByPid pid)).setState
        (s.processFindByPid pid) .terminated).setTable pid.toNat null := by
  obtain ⟨index, bound, positive, place, found, _, parentPid, _, identity⟩ :=
    coherent.killable killable
  have small : index < 10 := Nat.lt_of_lt_of_le bound coherent.count
  have stack : (s.process (s.processFindByPid pid)).stackBase = image.testStack index := by
    rw [found]
    exact congrArg Process.Identity.stackBase identity
  have heap : (s.process (s.processFindByPid pid)).heapBase = 0 := by
    rw [found]
    exact congrArg Process.Identity.heapBase identity
  refine s.processKillByPid_killed image pid killable ?_ ?_ rfl heap
  · rw [stack]
    exact Image.testStack_ne_null small
  · rw [stack]
    exact s.kfree_testStack image coherent.loaded positive small

theorem processKillByPid (coherent : s.Coherent image) (pid : Word) :
    (s.processKillByPid image pid).2.Coherent image := by
  by_cases killable : s.Killable pid
  · obtain ⟨index, bound, positive, place, found, registered⟩ := coherent.killable killable
    have small : index < 10 := Nat.lt_of_lt_of_le bound coherent.count
    obtain ⟨_, parentPid, _, identity⟩ := registered
    rw [coherent.processKillByPid_eq killable, found, place]
    have registry : (((s.dropStack (image.testSlot index)).setState (image.testSlot index)
        .terminated).setTable (index + 1) null).registry =
          { s.registry with processTable := Function.update s.processTable (index + 1) null } := rfl
    have changed : (((s.dropStack (image.testSlot index)).setState (image.testSlot index)
        .terminated).setTable (index + 1) null).identity =
          Function.update s.identity (image.testSlot index)
            { image.newIdentity index parentPid with stackBase := 0, stackSize := 0 } := by
      rw [setTable_identity, setState_identity, dropStack_identity, identity]
    have killed : (((s.dropStack (image.testSlot index)).setState (image.testSlot index)
        .terminated).setTable (index + 1) null).Active image (image.testSlot index) := by
      refine ⟨index, bound, rfl, Or.inr ⟨?_, parentPid, ?_⟩⟩
      · exact Function.update_self _ _ _
      · rw [changed, Function.update_self]
    have active (target : Word) (was : s.Active image target) :
        (((s.dropStack (image.testSlot index)).setState (image.testSlot index)
          .terminated).setTable (index + 1) null).Active image target := by
      by_cases same : target = image.testSlot index
      · rw [same]
        exact killed
      · exact unhook_active bound registry changed coherent was same
    refine unhook bound registry changed coherent positive ?_ ?_ ?_ ?_
    · rw [setTable_links, setState_links, dropStack_links]
      exact coherent.linked
    · rw [setTable_links, setState_links, dropStack_links]
      exact coherent.confined.mono active
    · exact fun nonnull => active _ (coherent.current nonnull)
    · intro target inactive
      have different : target ≠ image.testSlot index := fun same => inactive (same ▸ killed)
      rw [setTable_states, setState_states, dropStack_states, Function.update_of_ne different]
      exact coherent.idle target fun was => inactive (active target was)
  · rw [s.processKillByPid_refused image pid killable]
    exact coherent

/-- A store outside records and stacks. -/
theorem storeStatus (coherent : s.Coherent image) (frame : StatusFrame image s t) :
    t.Coherent image := by
  have active : t.Active image = s.Active image :=
    active_congr frame.table frame.identity frame.count
  have registered (index : Nat) (holds : s.Registered image index) : t.Registered image index :=
    holds.congr (congrFun frame.table _) (congrFun frame.identity _)
  exact
    { count := frame.count ▸ coherent.count
      kernel := frame.kernel.trans coherent.kernel
      root := ⟨frame.count ▸ coherent.root.1, registered 0 coherent.root.2⟩
      table := by
        intro entry nonnull
        rw [frame.table] at nonnull
        obtain ⟨index, bound, place, holds⟩ := coherent.table entry nonnull
        exact ⟨index, frame.count ▸ bound, place, registered index holds⟩
      loaded := frame.loaded coherent.loaded
      linked := frame.links ▸ coherent.linked
      confined := active ▸ frame.links ▸ coherent.confined
      current := active ▸ frame.current ▸ coherent.current
      idle := active ▸ frame.states ▸ coherent.idle }

/-- A reaped process is a registered child, so neither the kernel nor the current process. -/
theorem reaped (coherent : s.Coherent image) {proc : Word} (reaps : s.reaped? = some proc) :
    ∃ index < s.testCount, 0 < index ∧ proc = image.testSlot index ∧ s.Registered image index ∧
      proc ≠ s.currentProcess ∧ s.states proc = .terminated := by
  obtain ⟨current, entry, _, here, nonnull, child, terminated⟩ := s.reaped?_spec reaps
  obtain ⟨index, bound, place, registered⟩ := coherent.table entry (here ▸ nonnull)
  have slot : proc = image.testSlot index := by
    rw [← here, place]
    exact registered.1
  obtain ⟨owner, _, ownerPlace, ownerPid⟩ := coherent.active_pid (coherent.current current)
  obtain ⟨parentPid, older, identity⟩ := registered.2
  have parent : (s.identity proc).parentPid = parentPid := by
    rw [slot, identity]
    rfl
  have ownerOlder : owner < index := by
    rw [← child, parent] at ownerPid
    omega
  refine ⟨index, bound, by omega, slot, registered, ?_, terminated⟩
  intro same
  rw [slot, ownerPlace] at same
  have := coherent.slot_inj bound (Nat.lt_trans ownerOlder bound) same
  omega

/-- The pid of a registered record is a table index. -/
theorem registered_pid {index : Nat} (small : index < 10) (registered : s.Registered image index) :
    (s.identity (image.testSlot index)).pid.toNat = index + 1 := by
  obtain ⟨_, parentPid, _, identity⟩ := registered
  rw [identity]
  change (BitVec.ofNat 32 (index + 1)).toNat = index + 1
  rw [BitVec.toNat_ofNat]
  exact Nat.mod_eq_of_lt (by omega)

/-- Cleaning up a registered record that is neither the kernel nor the current process. -/
theorem processCleanup (coherent : s.Coherent image) {index : Nat} (bound : index < s.testCount)
    (positive : 0 < index) (registered : s.Registered image index)
    (notCurrent : image.testSlot index ≠ s.currentProcess) :
    (s.processCleanup (image.testSlot index)).Coherent image := by
  have small : index < 10 := Nat.lt_of_lt_of_le bound coherent.count
  have nonnull : image.testSlot index ≠ null := Image.testSlot_ne_null small
  have pid := registered_pid small registered
  have inTable : (s.identity (image.testSlot index)).pid.toNat < maxProcesses := by
    rw [pid, maxProcesses]
    omega
  have registry := processCleanup_registry s nonnull inTable
  rw [pid] at registry
  have identity := processCleanup_identity s nonnull inTable
  have active {target : Word} (was : s.Active image target)
      (different : target ≠ image.testSlot index) :=
    unhook_active bound registry identity coherent was different
  refine unhook bound registry identity coherent positive ?_ ?_ ?_ ?_
  · rw [processCleanup_links s nonnull]
    exact coherent.linked.unlink nonnull
  · rw [processCleanup_links s nonnull]
    exact (coherent.confined.unlink coherent.linked nonnull).mono fun _ both =>
      active both.1 both.2
  · rw [processCleanup_currentProcess s nonnull inTable]
    exact fun running => active (coherent.current running) notCurrent.symm
  · intro target inactive
    rw [processCleanup_states s nonnull inTable]
    by_cases same : target = image.testSlot index
    · rw [same, Function.update_self]
    · rw [Function.update_of_ne same]
      exact coherent.idle target fun was => inactive (active was same)

theorem sysWait (coherent : s.Coherent image) {status : Word}
    (outside : status = null ∨ image.Outside status) :
    (s.sysWait image status).2.Coherent image := by
  cases reaps : s.reaped? with
  | none =>
      rw [s.sysWait_none image reaps]
      exact coherent
  | some proc =>
      obtain ⟨index, bound, positive, rfl, registered, notCurrent, _⟩ := coherent.reaped reaps
      rw [s.sysWait_some image reaps]
      have frame := s.storeStatus_frame image outside
        (s.process (image.testSlot index)).exitCode
      refine (coherent.storeStatus frame).processCleanup (frame.count ▸ bound) positive
        (registered.congr (congrFun frame.table _) (congrFun frame.identity _)) ?_
      rw [frame.current]
      exact notCurrent

/-! ## Runs -/

/-- Every operation keeps the invariant. -/
theorem step (coherent : s.Coherent image) (op : ProcessOp) (outside : op.StatusOutside image) :
    (s.step image op).Coherent image := by
  cases op with
  | createTest name entryPoint priority => exact coherent.processCreateTest name entryPoint priority
  | fork => exact coherent.sysFork
  | exec program => exact coherent.sysExec program
  | exit saved exitCode => exact coherent.sysExit saved exitCode
  | processExit exitCode => exact coherent.processExit exitCode
  | kill pid signal => exact coherent.sysKill pid signal
  | wait status => exact coherent.sysWait outside
  | killByPid pid => exact coherent.processKillByPid pid
  | setStatus pid status => exact coherent.processSetStatus pid status
  | changeCurrent pid => exact coherent.changeCurrentProcess pid
  | schedule saved => exact coherent.schedule saved

end Coherent

/-! ## The booted state -/

section Boot

variable (image : Image)

/-- The state before `enable_process_execution`. -/
def initialised : Kernel := (loaded image).memoryInit.processInit.schedulerInit

/-- The state after the creation of the kernel process. -/
def kernelCreated : Kernel :=
  ((initialised image).processCreateTest image (some (.ofString "kernel_idle"))
    image.processIdleTask .low).2

theorem boot_eq :
    boot image =
      (({ kernelCreated image with kernelProcess := image.testSlot 0 }).setState
        (image.testSlot 0) .running).setCurrent (image.testSlot 0) := by
  have created : ((initialised image).processCreateTest image (some (.ofString "kernel_idle"))
      image.processIdleTask .low).1 = image.testSlot 0 := by
    rw [processCreateTest_room image (initialised image) (by decide : 0 < 10)]
    rfl
  have nonnull : image.testSlot 0 ≠ null := Image.testSlot_ne_null (by decide)
  have absent : (initialised image).kernelProcess = null := rfl
  rw [boot, ← initialised, enableProcessExecution, if_pos absent]
  dsimp only
  rw [created, if_pos nonnull]
  rfl

theorem boot_states :
    (boot image).states = Function.update (fun _ => .ready) (image.testSlot 0) .running := by
  have created := processCreateTest_states image (initialised image) (by decide : 0 < 10)
    (some (.ofString "kernel_idle")) image.processIdleTask .low
  rw [boot_eq, setCurrent_states, setState_states]
  change Function.update (kernelCreated image).states _ _ = _
  rw [kernelCreated, created]
  exact Function.update_idem _ _ _

theorem boot_identity :
    (boot image).identity = Function.update (fun _ => Process.cleared.identity)
      (image.testSlot 0) (image.newIdentity 0 0) := by
  have created := processCreateTest_identity image (initialised image) (by decide : 0 < 10)
    (some (.ofString "kernel_idle")) image.processIdleTask .low
  rw [boot_eq, setCurrent_identity, setState_identity]
  exact created

theorem boot_links :
    (boot image).links = ⟨fun _ => null, fun _ => null, null, null⟩ := by
  have created := processCreateTest_links image (initialised image) (by decide : 0 < 10)
    (some (.ofString "kernel_idle")) image.processIdleTask .low
  rw [boot_eq, setCurrent_links, setState_links]
  refine created.trans ?_
  simp only [Links.mk.injEq]
  exact ⟨Function.update_eq_self_iff.mpr rfl, Function.update_eq_self_iff.mpr rfl, rfl, rfl⟩

theorem boot_registry :
    (boot image).registry =
      { processTable := Function.update (fun _ => null) 1 (image.testSlot 0)
        nextPid := 1
        kernelProcess := image.testSlot 0
        createCount := 0
        testCount := 1
        heapCurrent := heapStart
        memory := image.memory } := by
  have created := processCreateTest_registry image (initialised image) (by decide : 0 < 10)
    (some (.ofString "kernel_idle")) image.processIdleTask .low
  have table : (initialised image).processTable = fun _ => null := by
    funext index
    exact ite_self null
  rw [boot_eq, setCurrent_registry, setState_registry]
  change { (kernelCreated image).registry with kernelProcess := image.testSlot 0 } = _
  rw [kernelCreated, created, table]
  rfl

theorem boot_currentProcess : (boot image).currentProcess = image.testSlot 0 := by
  rw [boot_eq, setCurrent_currentProcess]

/-- The booted state satisfies the invariant. -/
theorem boot_coherent : (boot image).Coherent image := by
  have registry := boot_registry image
  have count : (boot image).testCount = 1 := congrArg Registry.testCount registry
  have table : (boot image).processTable = Function.update (fun _ => null) 1 (image.testSlot 0) :=
    congrArg Registry.processTable registry
  have registered : (boot image).Registered image 0 := by
    refine ⟨?_, 0, Nat.le_refl 0, ?_⟩
    · rw [table]
      exact Function.update_self _ _ _
    · rw [boot_identity, Function.update_self]
  have active : (boot image).Active image (image.testSlot 0) :=
    ⟨0, by omega, rfl, Or.inl registered⟩
  exact
    { count := by omega
      kernel := congrArg Registry.kernelProcess registry
      root := ⟨by omega, registered⟩
      table := by
        intro entry nonnull
        by_cases one : entry = 1
        · exact ⟨0, by omega, one, registered⟩
        · rw [table, Function.update_of_ne one] at nonnull
          exact absurd rfl nonnull
      loaded := by
        intro offset _
        rw [show (boot image).memory = image.memory from congrArg Registry.memory registry]
      linked := by
        rw [boot_links]
        exact
          { prev_of_next := fun _ secondNonnull same => absurd same.symm secondNonnull
            next_of_prev := fun firstNonnull _ same => absurd same.symm firstNonnull
            head_first := fun _ => rfl
            tail_last := fun _ => rfl
            finite := by
              intro start
              by_cases isNull : start = null
              · exact ⟨[], isNull⟩
              · exact ⟨[start], rfl, isNull, rfl⟩ }
      confined := by
        rw [boot_links]
        exact
          { head := fun nonnull => absurd rfl nonnull
            tail := fun nonnull => absurd rfl nonnull
            next := fun nonnull => absurd rfl nonnull
            prev := fun nonnull => absurd rfl nonnull }
      current := by
        rw [boot_currentProcess]
        exact fun _ => active
      idle := by
        intro target inactive
        have different : target ≠ image.testSlot 0 := fun same => inactive (same ▸ active)
        rw [boot_states, Function.update_of_ne different] }

end Boot

end Kernel

end SimpleOS
