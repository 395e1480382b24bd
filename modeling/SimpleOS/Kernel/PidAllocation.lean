import SimpleOS.Kernel.Lifecycle

/-!
# Allocating a PID

`process_allocate_pid` tries the slot `next_pid` points at and then scans the
table from 1.  Reads of the table are checked: an index outside the array is a
fault, not a value.
-/

namespace SimpleOS

open Library.ByteMemory

namespace Kernel

/-- `process_table[index]`; none is an access outside the array. -/
def tableEntry? (s : Kernel) (index : Nat) : Option Word :=
  if index < maxProcesses then some (s.processTable index) else none

/-- The loop over the listed PIDs: the first one with a free slot. -/
def scanPids (s : Kernel) : List Nat → Option (Option Nat)
  | [] => some none
  | pid :: rest =>
      match s.tableEntry? pid with
      | none => none
      | some entry => if entry = null then some (some pid) else s.scanPids rest

/-- `next_pid < MAX_PROCESSES && process_table[next_pid] == NULL`. -/
def nextPidFree? (s : Kernel) : Option Bool :=
  if s.nextPid.toNat < maxProcesses then
    match s.tableEntry? s.nextPid.toNat with
    | none => none
    | some entry => some (entry == null)
  else some false

/-- `process_allocate_pid`: the PID, or 0 when there is none; none is a fault. -/
def processAllocatePid (s : Kernel) : Option (Word × Kernel) :=
  match s.nextPidFree? with
  | none => none
  | some true => some (s.nextPid, { s with nextPid := s.nextPid + 1 })
  | some false =>
      match s.scanPids (List.range' 1 (maxProcesses - 1)) with
      | none => none
      | some (some pid) =>
          some (BitVec.ofNat 32 pid, { s with nextPid := BitVec.ofNat 32 pid + 1 })
      | some none => some (0, s)

/-! ## What the allocation finds -/

theorem tableEntry?_eq (s : Kernel) {index : Nat} (bound : index < maxProcesses) :
    s.tableEntry? index = some (s.processTable index) := if_pos bound

/-- A scan inside the table does not fault, and finds the first free slot if there is one. -/
theorem scanPids_eq (s : Kernel) {pids : List Nat} (inside : ∀ pid ∈ pids, pid < maxProcesses) :
    s.scanPids pids = some (pids.find? fun pid => s.processTable pid == null) := by
  induction pids with
  | nil => rfl
  | cons pid rest ih =>
      have later := ih fun other member => inside other (List.mem_cons_of_mem pid member)
      rw [scanPids, s.tableEntry?_eq (inside pid List.mem_cons_self)]
      by_cases free : s.processTable pid = null
      · simp [free]
      · simp [free, later]

theorem nextPidFree?_eq (s : Kernel) :
    s.nextPidFree? = some (decide (s.nextPid.toNat < maxProcesses ∧
      s.processTable s.nextPid.toNat = null)) := by
  rw [nextPidFree?]
  by_cases small : s.nextPid.toNat < maxProcesses
  · rw [if_pos small, s.tableEntry?_eq small]
    by_cases free : s.processTable s.nextPid.toNat = null
    · simp [small, free]
    · simp [small, free]
  · rw [if_neg small]
    simp [small]

/-- The slots that PIDs other than 0 have. -/
def UserSlot (pid : Nat) : Prop := 1 ≤ pid ∧ pid < maxProcesses

theorem mem_scanned_iff (pid : Nat) : pid ∈ List.range' 1 (maxProcesses - 1) ↔ UserSlot pid := by
  rw [List.mem_range'_1, UserSlot, maxProcesses]

/-- All slots a PID can have are taken. -/
def TableFull (s : Kernel) : Prop := ∀ pid, UserSlot pid → s.processTable pid ≠ null

/--
What an allocation comes to: a free slot with `next_pid` right behind it, or
nothing and 0 because the table is full.
-/
inductive Allocates (s : Kernel) : Word → Kernel → Prop
  | found {pid : Nat} (slot : UserSlot pid) (free : s.processTable pid = null) :
      Allocates s (BitVec.ofNat 32 pid) { s with nextPid := BitVec.ofNat 32 (pid + 1) }
  | full (full : s.TableFull) : Allocates s 0 s

/-- From a `next_pid` that is not 0, the allocation does not fault and does one of the two. -/
theorem processAllocatePid_allocates (s : Kernel) (positive : 1 ≤ s.nextPid.toNat) :
    ∃ pid t, s.processAllocatePid = some (pid, t) ∧ s.Allocates pid t := by
  rw [processAllocatePid, s.nextPidFree?_eq]
  by_cases fast : s.nextPid.toNat < maxProcesses ∧ s.processTable s.nextPid.toNat = null
  · rw [decide_eq_true fast]
    refine ⟨_, _, rfl, ?_⟩
    have found := Allocates.found (s := s) ⟨positive, fast.1⟩ fast.2
    rw [BitVec.ofNat_add, BitVec.ofNat_toNat, BitVec.setWidth_eq] at found
    exact found
  · rw [decide_eq_false fast]
    have inside : ∀ pid ∈ List.range' 1 (maxProcesses - 1), pid < maxProcesses :=
      fun pid member => ((mem_scanned_iff pid).mp member).2
    rw [s.scanPids_eq inside]
    cases search : (List.range' 1 (maxProcesses - 1)).find?
        fun pid => s.processTable pid == null with
    | none =>
        refine ⟨_, _, rfl, .full fun pid slot => ?_⟩
        have taken := List.find?_eq_none.mp search pid ((mem_scanned_iff pid).mpr slot)
        simpa using taken
    | some pid =>
        have free := List.find?_some search
        have member := List.mem_of_find?_eq_some search
        refine ⟨_, _, rfl, ?_⟩
        have slot := (mem_scanned_iff pid).mp member
        have found := Allocates.found (s := s) slot (by simpa using free)
        rw [BitVec.ofNat_add] at found
        exact found

end Kernel

end SimpleOS
