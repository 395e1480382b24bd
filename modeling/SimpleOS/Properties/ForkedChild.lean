import SimpleOS.Library.GuardedRun
import SimpleOS.Invariant.Effects
import SimpleOS.Invariant.Named

/-!
# A fork adds one faithful child

In every run from boot a fork either fails without a trace or creates exactly
one process: its pid is new in the whole run, because the counter of creations
bounds every pid ever given, and its record is filled from the current one.
-/

namespace SimpleOS

open Library.ByteMemory Library.LinkedChain Library.GuardedRun

namespace Kernel

/-- What a forked record takes over from its parent and what it does not. -/
structure ChildOf (parent child : Process) (pid : Word) : Prop where
  pid : child.pid = pid
  name : child.nameText = parent.nameText
  priority : child.priority = parent.priority
  memoryUsed : child.memoryUsed = parent.memoryUsed
  cpuState : child.cpuState = { parent.cpuState with eax := 0 }
  parentPid : child.parentPid = parent.pid
  state : child.state = .ready

/-- One state arises from another by a fork of the current process, with this queue. -/
structure AddsChild (s t : Kernel) (nodes : List Word) (pid child : Word) : Prop where
  nonnull : child ≠ null
  unlisted : ∀ entry, s.processTable entry ≠ child
  vacant : s.processTable pid.toNat = null
  registry : t.registry =
    { s.registry with
      testCount := s.testCount + 1
      processTable := Function.update s.processTable pid.toNat child }
  record : ChildOf (s.process s.currentProcess) (t.process child) pid
  queue : IsQueue null t.links (nodes ++ [child])
  others : ∀ target, target ≠ child → target ≠ s.readyQueueTail →
    t.process target = s.process target
  tail : s.readyQueueTail ≠ null →
    t.process s.readyQueueTail = { s.process s.readyQueueTail with next := child }
  parent : s.currentProcess ≠ child
  current : t.currentProcess = s.currentProcess

variable {image : Image} {s : Kernel}

/-! ## Every pid has been counted -/

/-- No record has a pid above the number of creations. -/
def PidsCounted (s : Kernel) : Prop :=
  ∀ target, (s.identity target).pid.toNat ≤ s.testCount

/-- Changing the identity of one record, to a pid that is counted. -/
theorem PidsCounted.update {t : Kernel} (counted : s.PidsCounted) (more : s.testCount ≤ t.testCount)
    {changed : Word} {left : Process.Identity}
    (identity : t.identity = Function.update s.identity changed left)
    (bound : left.pid.toNat ≤ t.testCount) : t.PidsCounted := by
  intro target
  rw [identity]
  by_cases same : target = changed
  · rw [same, Function.update_self]
    exact bound
  · rw [Function.update_of_ne same]
    exact Nat.le_trans (counted target) more

theorem PidsCounted.congr {t : Kernel} (counted : s.PidsCounted)
    (identity : t.identity = s.identity) (count : t.testCount = s.testCount) : t.PidsCounted := by
  intro target
  rw [identity, count]
  exact counted target

theorem newIdentity_pid (image : Image) {index : Nat} (small : index < 10) (parentPid : Word) :
    (image.newIdentity index parentPid).pid.toNat = index + 1 := by
  change (BitVec.ofNat 32 (index + 1)).toNat = index + 1
  rw [BitVec.toNat_ofNat]
  exact Nat.mod_eq_of_lt (by omega)

/-- A creation counts the pid it gives. -/
theorem PidsCounted.add {t : Kernel} (counted : s.PidsCounted) (room : s.testCount < 10)
    (count : t.testCount = s.testCount + 1) {parentPid : Word}
    (identity : t.identity = Function.update s.identity (image.testSlot s.testCount)
      (image.newIdentity s.testCount parentPid)) :
    t.PidsCounted ∧ s.testCount ≤ t.testCount := by
  have pid := newIdentity_pid image room parentPid
  exact ⟨counted.update (by omega) identity (by omega), by omega⟩

theorem PidsCounted.processCreateTest (counted : s.PidsCounted) (name : Option CString)
    (entryPoint : Word) (priority : ProcessPriority) :
    (s.processCreateTest image name entryPoint priority).2.PidsCounted ∧
      s.testCount ≤ (s.processCreateTest image name entryPoint priority).2.testCount := by
  by_cases room : s.testCount < 10
  · have registry := processCreateTest_registry image s room name entryPoint priority
    exact counted.add room (congrArg Registry.testCount registry)
      (processCreateTest_identity image s room name entryPoint priority)
  · rw [processCreateTest_full image s (Nat.le_of_not_lt room)]
    exact ⟨counted, Nat.le_refl _⟩

theorem PidsCounted.sysFork (counted : s.PidsCounted) (coherent : s.Coherent image) :
    (s.sysFork image).2.PidsCounted ∧ s.testCount ≤ (s.sysFork image).2.testCount := by
  by_cases refused : s.currentProcess = null ∨ 10 ≤ s.testCount
  · rw [sysFork_refused image s refused]
    exact ⟨counted, Nat.le_refl _⟩
  · obtain ⟨nonnull, notFull⟩ := not_or.mp refused
    have room := Nat.lt_of_not_le notFull
    have other : s.currentProcess ≠ image.testSlot s.testCount := fun same =>
      next_not_active room (same ▸ coherent.current nonnull)
    exact counted.add room (congrArg Registry.testCount (sysFork_registry image s nonnull room))
      (sysFork_identity image s nonnull room other)

/-- A reaped record loses its pid. -/
theorem PidsCounted.sysWait (counted : s.PidsCounted) (coherent : s.Coherent image) {status : Word}
    (outside : status = null ∨ image.Outside status) : (s.sysWait image status).2.PidsCounted := by
  have count := testCount_of_counters (sysWait_counters image s status)
  cases reaps : s.reaped? with
  | none =>
      rw [s.sysWait_none image reaps]
      exact counted
  | some proc =>
      rw [s.sysWait_some image reaps] at count ⊢
      obtain ⟨index, bound, _, slot, registered, _⟩ := coherent.reaped reaps
      have small : index < 10 := Nat.lt_of_lt_of_le bound coherent.count
      have frame := s.storeStatus_frame image outside (s.process proc).exitCode
      have pid := Coherent.registered_pid small registered
      rw [← slot] at pid
      have inTable : ((s.storeStatus image status (s.process proc).exitCode).identity
          proc).pid.toNat < maxProcesses := by
        rw [frame.identity, pid, maxProcesses]
        omega
      have identity := processCleanup_identity _ (slot ▸ Image.testSlot_ne_null small) inTable
      rw [frame.identity] at identity
      exact counted.update (Nat.le_of_eq count.symm) identity (Nat.zero_le _)

/-- A killed record keeps its pid. -/
theorem PidsCounted.processKillByPid (counted : s.PidsCounted) (coherent : s.Coherent image)
    (pid : Word) : (s.processKillByPid image pid).2.PidsCounted := by
  by_cases killable : s.Killable pid
  · have identity := s.dropStack_identity (s.processFindByPid pid)
    rw [← setState_identity _ (s.processFindByPid pid) .terminated,
      ← setTable_identity _ pid.toNat null] at identity
    rw [coherent.processKillByPid_eq killable]
    exact counted.update (Nat.le_refl _) identity (counted (s.processFindByPid pid))
  · rw [s.processKillByPid_refused image pid killable]
    exact counted

/-- An operation counts the pid it gives, if any. -/
theorem PidsCounted.step (counted : s.PidsCounted) (coherent : s.Coherent image) {op : ProcessOp}
    (outside : op.StatusOutside image) :
    (s.step image op).PidsCounted ∧ s.testCount ≤ (s.step image op).testCount := by
  have kept (creates : ¬ op.Creates) : (s.step image op).testCount = s.testCount :=
    testCount_of_counters (step_counters image s op creates)
  cases op with
  | createTest name entryPoint priority => exact counted.processCreateTest name entryPoint priority
  | fork => exact counted.sysFork coherent
  | exec program =>
      have count := kept id
      exact ⟨counted.congr (sysExec_identity image s program) count, Nat.le_of_eq count.symm⟩
  | exit saved exitCode =>
      have count := kept id
      have identity : (s.sysExit saved exitCode).identity = s.identity := by
        by_cases current : s.currentProcess = null
        · rw [sysExit_null s saved exitCode current]
        · rw [sysExit_eq s saved exitCode current, schedule_identity, exited_identity]
      exact ⟨counted.congr identity count, Nat.le_of_eq count.symm⟩
  | processExit exitCode =>
      have count := kept id
      exact ⟨counted.congr (processExit_identity s exitCode) count, Nat.le_of_eq count.symm⟩
  | kill pid signal =>
      have count := kept id
      exact ⟨counted.congr (sysKill_identity s pid signal) count, Nat.le_of_eq count.symm⟩
  | wait status => exact ⟨counted.sysWait coherent outside, Nat.le_of_eq (kept id).symm⟩
  | killByPid pid =>
      exact ⟨counted.processKillByPid coherent pid, Nat.le_of_eq (kept id).symm⟩
  | setStatus pid status =>
      have count := kept id
      exact ⟨counted.congr (processSetStatus_identity s pid status) count, Nat.le_of_eq count.symm⟩
  | changeCurrent pid =>
      have count := kept id
      exact ⟨counted.congr (changeCurrentProcess_identity s pid) count, Nat.le_of_eq count.symm⟩
  | schedule saved =>
      have count := kept id
      exact ⟨counted.congr (s.schedule_identity saved) count, Nat.le_of_eq count.symm⟩

/-! ## Runs -/

/-- What holds after a run from boot, with at least so many creations so far. -/
structure Traced (image : Image) (least : Nat) (s : Kernel) : Prop where
  coherent : s.Coherent image
  named : Named image 0 s
  counted : s.PidsCounted
  least : least ≤ s.testCount

theorem boot_traced (image : Image) : Traced image 0 (boot image) := by
  have named := (Named.loaded image).initialised.enableProcessExecution
  refine ⟨boot_coherent image, named, fun target => ?_, Nat.zero_le _⟩
  have count : (boot image).testCount = 1 := congrArg Registry.testCount (boot_registry image)
  rw [boot_identity, count]
  by_cases same : target = image.testSlot 0
  · rw [same, Function.update_self, newIdentity_pid image (by decide) 0]
  · rw [Function.update_of_ne same]
    exact Nat.zero_le _

theorem Traced.step {least : Nat} (traced : Traced image least s) {op : ProcessOp}
    (outside : op.StatusOutside image) : Traced image least (s.step image op) := by
  have counted := traced.counted.step traced.coherent outside
  have spares := traced.coherent.sparesRecords outside
  exact ⟨traced.coherent.step op outside, traced.named.step spares, counted.1,
    Nat.le_trans traced.least counted.2⟩

theorem Traced.run {least : Nat} (traced : Traced image least s) {ops : List ProcessOp}
    (outside : ∀ op ∈ ops, op.StatusOutside image) :
    Traced image least (Library.GuardedRun.run (Kernel.step image) s ops) := by
  have holds : Always (Kernel.step image) (Traced image least) s ops :=
    always_of_along (fun (s : Kernel) _ (traced : Traced image least s) outside =>
      traced.step outside) (fun _ traced => traced) traced (along_of_forall s outside)
  exact holds.last

/-! ## The fork -/

section Fork

variable (image : Image) (s : Kernel)

/-- The record of a copy of the current process. -/
def copiedRecord : Process :=
  { created image s (some (s.process s.currentProcess).nameString)
      (s.process s.currentProcess).cpuState.eip (s.process s.currentProcess).priority
      (s.process (image.testSlot s.testCount)) with
    cpuState := { (s.process s.currentProcess).cpuState with eax := 0 }
    memoryUsed := (s.process s.currentProcess).memoryUsed }

/-- The record of its child, before it is queued. -/
def forkedRecord : Process :=
  { copiedRecord image s with parentPid := (s.process s.currentProcess).pid }

variable {image s} (nonnull : s.currentProcess ≠ null) (room : s.testCount < 10)
  (other : s.currentProcess ≠ image.testSlot s.testCount)

include nonnull room other

theorem processCreateCopy_process :
    (s.processCreateCopy image s.currentProcess).2.process =
      Function.update s.process (image.testSlot s.testCount) (copiedRecord image s) := by
  rw [processCreateCopy, if_neg nonnull]
  dsimp only
  rw [processCreateTest_room image s room]
  dsimp only
  rw [if_neg (Image.testSlot_ne_null room)]
  simp [modify, setTable, Function.update_of_ne other, copiedRecord]

/-- The records after a fork, up to the links. -/
theorem sysFork_process (target : Word) :
    (s.sysFork image).2.process target =
      { Function.update s.process (image.testSlot s.testCount) (forkedRecord image s) target with
        next := (s.sysFork image).2.links.next target
        prev := (s.sysFork image).2.links.prev target } := by
  have copied := processCreateCopy_process nonnull room other
  rw [sysFork_room image s nonnull room]
  obtain ⟨links, queued⟩ := (adopted image s).addToReadyQueue_exists (image.testSlot s.testCount)
  have records : (adopted image s).process =
      Function.update s.process (image.testSlot s.testCount) (forkedRecord image s) := by
    simp [adopted, modify, identity, copied, Function.update_of_ne other, forkedRecord,
      Process.identity]
  rw [queued, withLinks_process, withLinks_links, records]

end Fork

/-- The child has the name of its parent, which ends. -/
theorem forkedRecord_nameText (image : Image) (ends : (s.process s.currentProcess).NameEnds) :
    (forkedRecord image s).nameText = (s.process s.currentProcess).nameText := by
  have stored := fillTest_nameText (s.process (image.testSlot s.testCount))
    (BitVec.ofNat 32 (s.testCount + 1)) (s.process s.currentProcess).cpuState.eip
    (image.testStack s.testCount) (s.process s.currentProcess).priority
    (some (s.process s.currentProcess).nameString)
  exact stored.trans (storedName_nameString ends)

/-- A fork of any process after a run from boot, with room for another record. -/
theorem Traced.addsChild {least : Nat} (traced : Traced image least s) {nodes : List Word}
    (queue : IsQueue null s.links nodes) (nonnull : s.currentProcess ≠ null)
    (room : s.testCount < 10) :
    s.AddsChild (s.sysFork image).2 nodes (s.sysFork image).1 (image.testSlot s.testCount) := by
  have coherent := traced.coherent
  have inactive : ¬ s.Active image (image.testSlot s.testCount) := next_not_active room
  have other : s.currentProcess ≠ image.testSlot s.testCount := fun same =>
    inactive (same ▸ coherent.current nonnull)
  have links := coherent.sysFork_links_append nonnull room
  have records (target : Word) := sysFork_process nonnull room other target
  have absent : image.testSlot s.testCount ∉ nodes := fun member =>
    inactive (coherent.queued_active ((queue.forward.reaches_iff _).mpr member))
  have pid : (BitVec.ofNat 32 (s.testCount + 1)).toNat = s.testCount + 1 := by
    rw [BitVec.toNat_ofNat]
    exact Nat.mod_eq_of_lt (by omega)
  rw [sysFork_fst image s nonnull room]
  constructor
  · exact Image.testSlot_ne_null room
  · intro entry same
    have entered : s.processTable entry ≠ null := same ▸ Image.testSlot_ne_null room
    obtain ⟨index, bound, place, registered⟩ := coherent.table entry entered
    rw [place, registered.1] at same
    exact absurd (Image.testSlot_inj (by omega) room same) (by omega)
  · rw [pid]
    by_contra entered
    obtain ⟨index, bound, place, _⟩ := coherent.table _ entered
    omega
  · rw [pid]
    exact sysFork_registry image s nonnull room
  · have child := records (image.testSlot s.testCount)
    rw [Function.update_self] at child
    have name := forkedRecord_nameText image (traced.named.ends s.currentProcess)
    rw [child]
    exact ⟨rfl, name, rfl, rfl, rfl, rfl, rfl⟩
  · rw [links]
    exact queue.append (Image.testSlot_ne_null room) absent
  · intro target apart notTail
    rw [records, Function.update_of_ne apart, links]
    have before : ¬ (target ≠ null ∧ target = s.links.tail) := fun both => notTail both.2
    simp only [Links.append, if_neg before, if_neg apart]
    rfl
  · intro nonempty
    have apart : s.readyQueueTail ≠ image.testSlot s.testCount := fun same =>
      absent (same ▸ queue.tail_mem nonempty)
    rw [records, Function.update_of_ne apart, links]
    have last : s.readyQueueTail ≠ null ∧ s.readyQueueTail = s.links.tail := ⟨nonempty, rfl⟩
    simp only [Links.append, if_pos last, if_neg apart]
    rfl
  · exact other
  · exact sysFork_currentProcess image s nonnull room

/--
After every run from boot a fork fails and changes nothing, or adds one faithful
child whose pid no record had in any state of the run.
-/
theorem sysFork_adds_child (image : Image) (ops : List ProcessOp)
    (outside : ∀ op ∈ ops, op.StatusOutside image) (s : Kernel)
    (reached : s = run (step image) (boot image) ops) (nodes : List Word)
    (queue : IsQueue null s.links nodes) :
    ((s.currentProcess = null ∨ 10 ≤ s.testCount) ∧ s.sysFork image = (-1, s)) ∨
      ∃ child, s.AddsChild (s.sysFork image).2 nodes (s.sysFork image).1 child ∧
        ∀ taken rest, taken ++ rest = ops → ∀ target,
          ((run (step image) (boot image) taken).process target).pid ≠ (s.sysFork image).1 := by
  by_cases refused : s.currentProcess = null ∨ 10 ≤ s.testCount
  · exact Or.inl ⟨refused, sysFork_fails image s refused⟩
  · obtain ⟨nonnull, notFull⟩ := not_or.mp refused
    have room := Nat.lt_of_not_le notFull
    have traced := reached ▸ (boot_traced image).run outside
    refine Or.inr ⟨image.testSlot s.testCount, traced.addsChild queue nonnull room, ?_⟩
    intro taken rest split target same
    have before := (boot_traced image).run fun op member =>
      outside op (split ▸ List.mem_append_left rest member)
    have counted := before.counted target
    have later : Traced image (run (step image) (boot image) taken).testCount
        (run (step image) (run (step image) (boot image) taken) rest) :=
      Traced.run { before with least := Nat.le_refl _ } fun op member =>
        outside op (split ▸ List.mem_append_right taken member)
    rw [← run_append, split, ← reached] at later
    rw [sysFork_fst image s nonnull room] at same
    have value := congrArg BitVec.toNat same
    rw [BitVec.toNat_ofNat, Nat.mod_eq_of_lt (by omega)] at value
    change ((run (step image) (boot image) taken).process target).pid.toNat ≤ _ at counted
    have least := later.least
    omega

/-- The second fork of the kernel process queues its child behind the first one. -/
theorem sysFork_adds_child_after_fork :
    ∃ s, s = run (step Image.sample) (boot Image.sample) [.fork] ∧
      ∃ child, s.AddsChild (s.sysFork Image.sample).2 [Image.sample.testSlot 1]
        (s.sysFork Image.sample).1 child := by
  have facts : ∀ s, s = run (step Image.sample) (boot Image.sample) [.fork] →
      (s.links.head = Image.sample.testSlot 1 ∧ s.links.tail = Image.sample.testSlot 1 ∧
        s.links.next (Image.sample.testSlot 1) = null ∧
        s.links.prev (Image.sample.testSlot 1) = null) ∧
        s.currentProcess ≠ null ∧ s.testCount = 2 := by
    intro s reached
    rw [reached]
    decide +kernel
  refine ⟨_, rfl, ?_⟩
  obtain ⟨⟨head, tail, next, prev⟩, running, count⟩ := facts _ rfl
  have nonnull : Image.sample.testSlot 1 ≠ null := Image.testSlot_ne_null (by decide)
  have queue : IsQueue null (run (step Image.sample) (boot Image.sample) [.fork]).links
      [Image.sample.testSlot 1] := ⟨⟨head, nonnull, next⟩, ⟨tail, nonnull, prev⟩⟩
  have outside : ∀ op ∈ [ProcessOp.fork], op.StatusOutside Image.sample := by
    intro op member
    rw [List.mem_singleton.mp member]
    trivial
  cases sysFork_adds_child Image.sample [.fork] outside _ rfl _ queue with
  | inl fails =>
      cases fails.1 with
      | inl noCurrent => exact absurd noCurrent running
      | inr full => omega
  | inr adds =>
      obtain ⟨child, forked, _⟩ := adds
      exact ⟨child, forked⟩

end Kernel

end SimpleOS
