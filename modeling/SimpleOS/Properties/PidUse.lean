import SimpleOS.Library.GuardedRun
import SimpleOS.Kernel.PidAllocation

/-!
# PIDs over runs of allocations and table changes

Calls of `process_allocate_pid` in any order with insertions into the process
table and removals from it.  Beside the kernel stand the PIDs in use: the ones
returned so far whose slot has not been cleared since.
-/

namespace SimpleOS

open Library.ByteMemory Library.GuardedRun

/-- A call, or a change of one slot of the table. -/
inductive PidEvent where
  | allocate
  | insert (pid : Nat) (process : Word) (slot : Kernel.UserSlot pid) (nonnull : process ≠ null)
  | remove (pid : Nat) (slot : Kernel.UserSlot pid)

/-- The kernel with the PIDs in use, and the last one as long as its slot is not filled. -/
structure PidUse where
  kernel : Kernel
  inUse : List Word
  unfilled : Option Word

namespace PidUse

/-- A slot that is written is no longer waiting to be filled. -/
def settle (u : PidUse) (pid : Nat) : Option Word :=
  if u.unfilled = some (BitVec.ofNat 32 pid) then none else u.unfilled

def step (u : PidUse) : PidEvent → PidUse
  | .allocate =>
      match u.kernel.processAllocatePid with
      | none => u
      | some (pid, kernel) =>
          if pid = 0 then { u with kernel := kernel }
          else { kernel := kernel, inUse := pid :: u.inUse, unfilled := some pid }
  | .insert pid process _ _ =>
      { u with kernel := u.kernel.setTable pid process, unfilled := u.settle pid }
  | .remove pid _ =>
      { kernel := u.kernel.setTable pid null
        inUse := u.inUse.erase (BitVec.ofNat 32 pid)
        unfilled := u.settle pid }

/-- After `process_init`. -/
def start (s : Kernel) : PidUse where
  kernel := s.processInit
  inUse := []
  unfilled := none

/-- `next_pid` points into the table or one past its end, and never at slot 0. -/
def NextInRange (u : PidUse) : Prop :=
  1 ≤ u.kernel.nextPid.toNat ∧ u.kernel.nextPid.toNat ≤ maxProcesses

/--
A call accesses the table in bounds; it returns 0 exactly when no slot is free,
and otherwise a PID whose slot is free.
-/
def AllocatesSoundly (u : PidUse) : PidEvent → Prop
  | .allocate => ∃ pid kernel, u.kernel.processAllocatePid = some (pid, kernel) ∧
      (pid = 0 ↔ u.kernel.TableFull) ∧
      (pid ≠ 0 → Kernel.UserSlot pid.toNat ∧ u.kernel.processTable pid.toNat = null)
  | _ => True

/-- A call comes after the slot of the last PID has been filled. -/
def FilledFirst (u : PidUse) : PidEvent → Prop
  | .allocate => u.unfilled = none
  | _ => True

/-- The PIDs in use are distinct and have a slot; only the last one may lack its process. -/
structure Distinct (u : PidUse) : Prop where
  nodup : u.inUse.Nodup
  slots : ∀ pid ∈ u.inUse, Kernel.UserSlot pid.toNat
  filled : ∀ pid ∈ u.inUse, u.unfilled ≠ some pid → u.kernel.processTable pid.toNat ≠ null

section Words

variable {pid : Nat} (slot : Kernel.UserSlot pid)

include slot

theorem toNat_slot : (BitVec.ofNat 32 pid).toNat = pid := by
  have bound := slot.2
  rw [maxProcesses] at bound
  rw [BitVec.toNat_ofNat]
  omega

theorem toNat_next : (BitVec.ofNat 32 (pid + 1)).toNat = pid + 1 := by
  have bound := slot.2
  rw [maxProcesses] at bound
  rw [BitVec.toNat_ofNat]
  omega

theorem slot_ne_zero : BitVec.ofNat 32 pid ≠ 0 := by
  intro isZero
  have value := congrArg BitVec.toNat isZero
  rw [toNat_slot slot] at value
  have positive := slot.1
  simp only [BitVec.ofNat_eq_ofNat, BitVec.toNat_ofNat, Nat.zero_mod] at value
  omega

end Words

variable {u : PidUse}

/-- A call from a `next_pid` in range. -/
theorem allocatesSoundly (inRange : u.NextInRange) (event : PidEvent) :
    u.AllocatesSoundly event := by
  cases event with
  | allocate =>
      obtain ⟨pid, kernel, called, allocates⟩ :=
        u.kernel.processAllocatePid_allocates inRange.1
      refine ⟨pid, kernel, called, ?_⟩
      cases allocates with
      | found slot free =>
          rw [toNat_slot slot]
          refine ⟨⟨fun isZero => absurd isZero (slot_ne_zero slot), fun full => ?_⟩, ?_⟩
          · exact absurd free (full _ slot)
          · exact fun _ => ⟨slot, free⟩
      | full full => exact ⟨⟨fun _ => full, fun _ => rfl⟩, fun nonzero => absurd rfl nonzero⟩
  | insert => trivial
  | remove => trivial

theorem nextInRange_step (u : PidUse) (event : PidEvent) (inRange : u.NextInRange) :
    (u.step event).NextInRange := by
  cases event with
  | allocate =>
      obtain ⟨pid, kernel, called, allocates⟩ :=
        u.kernel.processAllocatePid_allocates inRange.1
      rw [step, called]
      cases allocates with
      | found slot free =>
          have bound := slot.2
          simp only [if_neg (slot_ne_zero slot), NextInRange, toNat_next slot]
          omega
      | full full => exact inRange
  | insert pid process slot nonnull => exact inRange
  | remove pid slot => exact inRange

/-- A settled slot was not the last PID's, or is no longer waiting. -/
theorem settle_ne {pid : Nat} {other : Word} (apart : other ≠ BitVec.ofNat 32 pid)
    (settled : u.settle pid ≠ some other) : u.unfilled ≠ some other := by
  intro waiting
  rw [settle, waiting, if_neg] at settled
  · exact settled rfl
  · exact fun same => apart (Option.some.inj same)

theorem toNat_ne {pid : Nat} {other : Word} (apart : other ≠ BitVec.ofNat 32 pid) :
    other.toNat ≠ pid := by
  intro same
  exact apart (by rw [← same, BitVec.ofNat_toNat, BitVec.setWidth_eq])

theorem Distinct.insert (distinct : u.Distinct) {pid : Nat} {process : Word}
    (slot : Kernel.UserSlot pid) (nonnull : process ≠ null) :
    (u.step (.insert pid process slot nonnull)).Distinct := by
  refine ⟨distinct.nodup, distinct.slots, fun other member waiting => ?_⟩
  change Function.update u.kernel.processTable pid process other.toNat ≠ null
  by_cases same : other = BitVec.ofNat 32 pid
  · rw [same, toNat_slot slot, Function.update_self]
    exact nonnull
  · rw [Function.update_of_ne (toNat_ne same)]
    exact distinct.filled other member (settle_ne same waiting)

theorem Distinct.remove (distinct : u.Distinct) {pid : Nat} (slot : Kernel.UserSlot pid) :
    (u.step (.remove pid slot)).Distinct := by
  refine ⟨distinct.nodup.erase _, fun other member => ?_, fun other member waiting => ?_⟩
  · exact distinct.slots other (List.mem_of_mem_erase member)
  · obtain ⟨apart, listed⟩ := (distinct.nodup.mem_erase_iff).mp member
    change Function.update u.kernel.processTable pid null other.toNat ≠ null
    rw [Function.update_of_ne (toNat_ne apart)]
    exact distinct.filled other listed (settle_ne apart waiting)

/-- A call with all slots of PIDs in use filled returns a new one. -/
theorem Distinct.allocate (distinct : u.Distinct) (inRange : u.NextInRange)
    (none : u.unfilled = none) : (u.step .allocate).Distinct := by
  obtain ⟨pid, kernel, called, allocates⟩ := u.kernel.processAllocatePid_allocates inRange.1
  rw [step, called]
  cases allocates with
  | @found pid slot free =>
      simp only [if_neg (slot_ne_zero slot)]
      have fresh : BitVec.ofNat 32 pid ∉ u.inUse := by
        intro member
        have taken := distinct.filled _ member (by simp [none])
        rw [toNat_slot slot] at taken
        exact taken free
      refine ⟨List.nodup_cons.mpr ⟨fresh, distinct.nodup⟩, ?_, ?_⟩
      · intro other member
        cases member with
        | head => exact (toNat_slot slot).symm ▸ slot
        | tail _ old => exact distinct.slots other old
      · intro other member waiting
        cases member with
        | head => exact absurd rfl waiting
        | tail _ old => exact distinct.filled other old (by simp [none])
  | full full => exact distinct

theorem distinct_step (u : PidUse) (event : PidEvent) (sound : u.NextInRange ∧ u.Distinct)
    (filled : u.FilledFirst event) :
    (u.step event).NextInRange ∧ (u.step event).Distinct := by
  refine ⟨nextInRange_step u event sound.1, ?_⟩
  cases event with
  | allocate => exact sound.2.allocate sound.1 filled
  | insert pid process slot nonnull => exact sound.2.insert slot nonnull
  | remove pid slot => exact sound.2.remove slot

/--
Over every sequence of calls, insertions and removals after `process_init`, a
call stays inside the table, returns 0 exactly when the table is full and a
free PID otherwise, and `next_pid` stays in 1..256.  If every returned PID gets
its process before the next call, the PIDs in use are distinct at all times.
-/
theorem processAllocatePid_run (s : Kernel) (events : List PidEvent) :
    Along step AllocatesSoundly (start s) events ∧
      Always step NextInRange (start s) events ∧
      (Along step FilledFirst (start s) events →
        Always step (fun u => u.inUse.Nodup) (start s) events) := by
  have initial : (start s).NextInRange := by
    change 1 ≤ (1 : Word).toNat ∧ (1 : Word).toNat ≤ maxProcesses
    decide
  refine ⟨?_, always_of_invariant nextInRange_step initial events, fun filled => ?_⟩
  · have guarded : Along step (fun _ _ => True) (start s) events :=
      along_of_forall (start s) fun _ _ => trivial
    exact along_of_along (fun u event inRange _ => nextInRange_step u event inRange)
      (fun u event inRange _ => allocatesSoundly inRange event) initial guarded
  · have distinct : (start s).Distinct := by
      refine ⟨List.nodup_nil, fun pid impossible => ?_, fun pid impossible => ?_⟩
      · cases impossible
      · cases impossible
    exact always_of_along distinct_step (fun u sound => sound.2.nodup) ⟨initial, distinct⟩ filled

end PidUse

end SimpleOS
