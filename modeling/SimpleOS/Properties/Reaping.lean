import SimpleOS.Library.GuardedRun
import SimpleOS.Kernel.Operations

/-!
# Reaping every terminated child

One `sys_wait` reaps the terminated child with the lowest table index and
leaves the rest of the table, and the fields of all other records but their
links, as they were.  Waiting on therefore reaps the children in the order of
their pids, each once, and then finds none.
-/

namespace SimpleOS

open Library.ByteMemory Library.LinkedChain Library.GuardedRun

namespace Kernel

/-- The table indices of the terminated children of the current process, in ascending order. -/
def terminatedChildren (s : Kernel) : List Nat := (List.range maxProcesses).filter s.reapable

/--
Somebody with a pid is current and not its own child, and every process is
registered under its own pid, which is not 0.  So no process is registered
twice.
-/
structure Waitable (s : Kernel) : Prop where
  current : s.currentProcess ≠ null
  pid : (s.process s.currentProcess).pid ≠ 0
  entries : ∀ index < maxProcesses, s.processTable index ≠ null →
    1 ≤ index ∧ (s.process (s.processTable index)).pid = BitVec.ofNat 32 index
  notOwnChild : ∀ index < maxProcesses, s.processTable index = s.currentProcess →
    (s.process s.currentProcess).parentPid ≠ (s.process s.currentProcess).pid

/-- One `sys_wait(status)` in `s` reaps the process registered under `index`, and no other. -/
structure ReapsChild (image : Image) (s : Kernel) (status : Word) (index : Nat) : Prop where
  returned : (s.sysWait image status).1 = (s.process (s.processTable index)).pid
  pid : (s.process (s.processTable index)).pid = BitVec.ofNat 32 index
  stored : status ≠ null →
    load ((s.sysWait image status).2.read image) status =
      (s.process (s.processTable index)).exitCode
  table : (s.sysWait image status).2.processTable = Function.update s.processTable index null
  cleared : (s.sysWait image status).2.process (s.processTable index) = .cleared
  others : ∀ other, other ≠ s.processTable index →
    (s.sysWait image status).2.process other =
      { s.process other with
        next := (s.sysWait image status).2.links.next other
        prev := (s.sysWait image status).2.links.prev other }
  current : (s.sysWait image status).2.currentProcess = s.currentProcess

/-- Consecutive waits with the given pointers reap the listed indices; the next finds nothing. -/
inductive ReapsAll (image : Image) : Kernel → List Word → List Nat → Prop where
  | done {s : Kernel} (nothing : ∀ status, s.sysWait image status = (0, s)) :
      ReapsAll image s [] []
  | reap {s : Kernel} {status : Word} {statuses : List Word} {index : Nat} {later : List Nat}
      (first : ReapsChild image s status index)
      (rest : ReapsAll image (s.sysWait image status).2 statuses later) :
      ReapsAll image s (status :: statuses) (index :: later)

section Step

variable {image : Image} {s : Kernel} {index : Nat} {status : Word}

theorem reapable_iff :
    s.reapable index = true ↔ s.processTable index ≠ null ∧
      (s.process (s.processTable index)).parentPid = (s.process s.currentProcess).pid ∧
      (s.process (s.processTable index)).state = .terminated := by
  simp only [reapable, Bool.and_eq_true, decide_eq_true_eq, and_assoc]

/-- Two indices with the same process are one. -/
theorem Waitable.table_inj (waitable : s.Waitable) {first second : Nat}
    (firstBound : first < maxProcesses) (secondBound : second < maxProcesses)
    (nonnull : s.processTable first ≠ null)
    (same : s.processTable first = s.processTable second) : first = second := by
  have firstPid := (waitable.entries first firstBound nonnull).2
  have secondPid := (waitable.entries second secondBound (same ▸ nonnull)).2
  rw [same, secondPid] at firstPid
  have values := congrArg BitVec.toNat firstPid
  simp only [BitVec.toNat_ofNat, maxProcesses] at values firstBound secondBound
  omega

/-- The state after a wait that finds the child with that index first. -/
theorem sysWait_found (waitable : s.Waitable)
    (found : (List.range maxProcesses).find? s.reapable = some index) :
    s.sysWait image status =
      ((s.process (s.processTable index)).pid,
        (s.storeStatus image status (s.process (s.processTable index)).exitCode).processCleanup
          (s.processTable index)) := by
  rw [sysWait, if_neg waitable.current, found]

theorem reaps_of_found (waitable : s.Waitable) (bound : index < maxProcesses)
    (child : s.reapable index = true) (offRecords : status = null ∨ image.OffRecords status)
    (found : (List.range maxProcesses).find? s.reapable = some index) :
    ReapsChild image s status index := by
  obtain ⟨nonnull, _, _⟩ := reapable_iff.mp child
  obtain ⟨_, pid⟩ := waitable.entries index bound nonnull
  have number : (s.process (s.processTable index)).pid.toNat = index := by
    rw [pid, BitVec.toNat_ofNat]
    exact Nat.mod_eq_of_lt (Nat.lt_trans bound (by decide))
  have call : s.sysWait image status = _ := sysWait_found waitable found
  have stores := s.storeStatus_offRecords image offRecords
    (s.process (s.processTable index)).exitCode
  generalize s.storeStatus image status (s.process (s.processTable index)).exitCode = t
    at call stores
  -- the cleanup sees the records and the table as they were
  have records : t.process = s.process := by rw [stores]
  have table : t.processTable = s.processTable := by rw [stores]
  have small : (t.identity (s.processTable index)).pid.toNat < maxProcesses := by
    change (t.process (s.processTable index)).pid.toNat < maxProcesses
    rw [records, number]
    exact bound
  have after : (s.sysWait image status).2 = t.processCleanup (s.processTable index) :=
    congrArg Prod.snd call
  refine ⟨congrArg Prod.fst call, pid, fun written => ?_, ?_, ?_, fun other different => ?_, ?_⟩
  · have reaps : s.reaped? = some (s.processTable index) := by
      rw [reaped?, if_neg waitable.current, found]
      rfl
    exact s.sysWait_stored image (offRecords.resolve_left written) written reaps
  · rw [after]
    refine (congrArg Registry.processTable (processCleanup_registry t nonnull small)).trans ?_
    change Function.update t.processTable (t.process (s.processTable index)).pid.toNat null = _
    rw [records, table, number]
  · rw [after, processCleanup_eq t nonnull small, modify_self]
  · rw [after, processCleanup_other t nonnull small different, records]
  · rw [after, processCleanup_currentProcess t nonnull small, stores]

/-- The fields a wait looks at are the same in every record but the reaped one. -/
theorem ReapsChild.fields (reaps : ReapsChild image s status index) {other : Word}
    (different : other ≠ s.processTable index) :
    ((s.sysWait image status).2.process other).pid = (s.process other).pid ∧
      ((s.sysWait image status).2.process other).parentPid = (s.process other).parentPid ∧
      ((s.sysWait image status).2.process other).state = (s.process other).state := by
  rw [reaps.others other different]
  exact ⟨rfl, rfl, rfl⟩

/-- The current process is not reaped. -/
theorem Waitable.not_current (waitable : s.Waitable) (bound : index < maxProcesses)
    (child : s.reapable index = true) : s.currentProcess ≠ s.processTable index := by
  intro same
  obtain ⟨_, parent, _⟩ := reapable_iff.mp child
  rw [← same] at parent
  exact waitable.notOwnChild index bound same.symm parent

theorem ReapsChild.waitable (reaps : ReapsChild image s status index) (waitable : s.Waitable)
    (bound : index < maxProcesses) (child : s.reapable index = true) :
    (s.sysWait image status).2.Waitable := by
  obtain ⟨pid, parentPid, _⟩ := reaps.fields (waitable.not_current bound child)
  have entry {other : Nat} (registered : (s.sysWait image status).2.processTable other ≠ null) :
      other ≠ index ∧
        (s.sysWait image status).2.processTable other = s.processTable other := by
    rw [reaps.table] at registered ⊢
    have different : other ≠ index := by
      intro same
      rw [same, Function.update_self] at registered
      exact registered rfl
    exact ⟨different, Function.update_of_ne different _ _⟩
  constructor
  · rw [reaps.current]
    exact waitable.current
  · rw [reaps.current, pid]
    exact waitable.pid
  · intro other otherBound registered
    obtain ⟨different, same⟩ := entry registered
    rw [same] at registered ⊢
    have apart : s.processTable other ≠ s.processTable index := fun shared =>
      different (waitable.table_inj otherBound bound registered shared)
    rw [(reaps.fields apart).1]
    exact waitable.entries other otherBound registered
  · intro other otherBound here
    rw [reaps.current] at here ⊢
    obtain ⟨_, same⟩ := entry (here.symm ▸ waitable.current)
    rw [pid, parentPid]
    exact waitable.notOwnChild other otherBound (same.symm.trans here)

/-- After the wait, the other children are as reapable as before, and the reaped one is gone. -/
theorem ReapsChild.reapable (reaps : ReapsChild image s status index) (waitable : s.Waitable)
    (bound : index < maxProcesses) (child : s.reapable index = true) {other : Nat}
    (otherBound : other < maxProcesses) :
    (s.sysWait image status).2.reapable other = (decide (other ≠ index) && s.reapable other) := by
  rw [Bool.eq_iff_iff, reapable_iff, Bool.and_eq_true, decide_eq_true_eq, reapable_iff,
    reaps.current, (reaps.fields (waitable.not_current bound child)).1, reaps.table]
  by_cases same : other = index
  · rw [same, Function.update_self]
    exact ⟨fun gone => absurd rfl gone.1, fun kept => absurd rfl kept.1⟩
  · rw [Function.update_of_ne same]
    constructor
    · rintro ⟨registered, parent, state⟩
      have apart : s.processTable other ≠ s.processTable index := fun shared =>
        same (waitable.table_inj otherBound bound registered shared)
      obtain ⟨_, parentSame, stateSame⟩ := reaps.fields apart
      exact ⟨same, registered, parentSame ▸ parent, stateSame ▸ state⟩
    · rintro ⟨_, registered, parent, state⟩
      have apart : s.processTable other ≠ s.processTable index := fun shared =>
        same (waitable.table_inj otherBound bound registered shared)
      obtain ⟨_, parentSame, stateSame⟩ := reaps.fields apart
      exact ⟨registered, parentSame ▸ parent, stateSame ▸ state⟩

/-- The children left after a wait are those behind the first. -/
theorem ReapsChild.children (reaps : ReapsChild image s status index) (waitable : s.Waitable)
    {later : List Nat} (children : s.terminatedChildren = index :: later) :
    (s.sysWait image status).2.terminatedChildren = later := by
  have member : index ∈ s.terminatedChildren := children ▸ List.mem_cons_self
  obtain ⟨inRange, child⟩ := List.mem_filter.mp member
  have bound := List.mem_range.mp inRange
  have nodup : (index :: later).Nodup := children ▸ List.nodup_range.filter _
  have removed : (s.sysWait image status).2.terminatedChildren =
      s.terminatedChildren.filter fun other => decide (other ≠ index) := by
    rw [terminatedChildren, terminatedChildren, List.filter_filter]
    refine List.filter_congr fun other inside => ?_
    exact reaps.reapable waitable bound child (List.mem_range.mp inside)
  rw [removed, children, List.filter_cons_of_neg (by simp)]
  refine List.filter_eq_self.mpr fun other inside => decide_eq_true ?_
  intro same
  exact (List.nodup_cons.mp nodup).1 (same ▸ inside)

end Step

/-- The children are listed by ascending index. -/
theorem terminatedChildren_ascending (s : Kernel) :
    s.terminatedChildren.Pairwise (· < ·) :=
  List.pairwise_lt_range.filter s.reapable

/--
As many waits as there are terminated children reap them all, the lowest pid
first, and a further wait returns 0 and changes nothing.
-/
theorem waits_reap_all (image : Image) (s : Kernel) (waitable : s.Waitable)
    (statuses : List Word) (offRecords : ∀ status ∈ statuses, status = null ∨
      image.OffRecords status) (count : statuses.length = s.terminatedChildren.length) :
    ReapsAll image s statuses s.terminatedChildren ∧
      s.terminatedChildren.Pairwise (· < ·) := by
  refine ⟨?_, s.terminatedChildren_ascending⟩
  generalize children : s.terminatedChildren = indices at count
  induction indices generalizing s statuses with
  | nil =>
      obtain rfl := List.length_eq_zero_iff.mp count
      refine .done fun status => ?_
      have nothing : (List.range maxProcesses).find? s.reapable = none := by
        rw [← List.head?_filter, ← terminatedChildren, children]
        rfl
      rw [sysWait, if_neg waitable.current, nothing]
  | cons index later ih =>
      cases statuses with
      | nil => cases count
      | cons status statuses =>
          have member : index ∈ s.terminatedChildren := children ▸ List.mem_cons_self
          obtain ⟨inRange, child⟩ := List.mem_filter.mp member
          have bound := List.mem_range.mp inRange
          have found : (List.range maxProcesses).find? s.reapable = some index := by
            rw [← List.head?_filter, ← terminatedChildren, children]
            rfl
          have reaps := reaps_of_found waitable bound child
            (offRecords status List.mem_cons_self) found
          refine .reap reaps ?_
          exact ih _ (reaps.waitable waitable bound child) statuses
            (fun pointer inside => offRecords pointer (List.mem_cons_of_mem status inside))
            (reaps.children waitable children) (Nat.succ.inj count)

/-- Two forked children that were killed are reaped by two waits, one of them with a pointer. -/
theorem waits_reap_two_killed :
    ReapsAll Image.sample (run (step Image.sample) (boot Image.sample)
      [.fork, .fork, .kill 2 9, .kill 3 9]) [0x300000, null] [2, 3] ∧ [2, 3].Pairwise (· < ·) := by
  have facts : ∀ s, s = run (step Image.sample) (boot Image.sample)
      [.fork, .fork, .kill 2 9, .kill 3 9] →
      s.currentProcess ≠ null ∧ (s.process s.currentProcess).pid ≠ 0 ∧
        (∀ index < maxProcesses, s.processTable index ≠ null →
          1 ≤ index ∧ (s.process (s.processTable index)).pid = BitVec.ofNat 32 index) ∧
        (s.process s.currentProcess).parentPid ≠ (s.process s.currentProcess).pid ∧
        s.terminatedChildren = [2, 3] := by
    intro s reached
    rw [reached]
    decide +kernel
  obtain ⟨current, pid, entries, notOwnChild, children⟩ := facts _ rfl
  rw [← children]
  refine waits_reap_all Image.sample _ ⟨current, pid, entries, fun _ _ _ => notOwnChild⟩ _ ?_ ?_
  · intro status member
    simp only [List.mem_cons, List.not_mem_nil, or_false] at member
    rcases member with rfl | rfl
    · exact Or.inr Image.sample_outside.offRecords
    · exact Or.inl rfl
  · rw [children]
    rfl

end Kernel

end SimpleOS
