import Mathlib.Data.List.Nodup
import SimpleOS.Library.GuardedRun
import SimpleOS.Invariant.Effects
import SimpleOS.Kernel.Ledger

/-!
# The ten records are used once

`process_create_test` counts the processes it has created and never counts
down: a record is not reused, though `process_cleanup` clears it to mark it as
free.
-/

namespace SimpleOS

open Library.ByteMemory Library.GuardedRun

namespace Kernel

/-- The operation calls `process_create_test`, directly or for a fork. -/
def CallsCreateTest (s : Kernel) : ProcessOp → Prop
  | .createTest _ _ _ => True
  | .fork => s.currentProcess ≠ null
  | _ => False

instance (s : Kernel) : (op : ProcessOp) → Decidable (s.CallsCreateTest op)
  | .createTest _ _ _ => inferInstanceAs (Decidable True)
  | .fork => inferInstanceAs (Decidable (_ ≠ _))
  | .exec _ => inferInstanceAs (Decidable False)
  | .exit _ _ => inferInstanceAs (Decidable False)
  | .processExit _ => inferInstanceAs (Decidable False)
  | .kill _ _ => inferInstanceAs (Decidable False)
  | .wait _ => inferInstanceAs (Decidable False)
  | .killByPid _ => inferInstanceAs (Decidable False)
  | .setStatus _ _ => inferInstanceAs (Decidable False)
  | .changeCurrent _ => inferInstanceAs (Decidable False)
  | .schedule _ => inferInstanceAs (Decidable False)

/-- What that call of `process_create_test` returns; NULL without a call. -/
def spawned (image : Image) (s : Kernel) : ProcessOp → Word
  | .createTest name entryPoint priority => (s.processCreateTest image name entryPoint priority).1
  | .fork =>
      if s.currentProcess = null then null else (s.processCreateCopy image s.currentProcess).1
  | _ => null

/-- The process the operation kills by pid or reaps, or NULL. -/
def finished (image : Image) (s : Kernel) : ProcessOp → Word
  | .killByPid pid =>
      if (s.processKillByPid image pid).1 = processSuccess then s.processFindByPid pid else null
  | .wait _ => s.reaped?.getD null
  | _ => null

/-- A creation takes the next record and counts it, or it takes none. -/
theorem step_creates (image : Image) (s : Kernel) {op : ProcessOp} (creates : op.Creates) :
    (s.spawned image op = null ∧ (s.step image op).testCount = s.testCount) ∨
      (s.testCount < 10 ∧ s.spawned image op = image.testSlot s.testCount ∧
        (s.step image op).testCount = s.testCount + 1) := by
  cases op with
  | createTest name entryPoint priority =>
      by_cases room : s.testCount < 10
      · have created := processCreateTest_room image s room name entryPoint priority
        exact Or.inr ⟨room, congrArg Prod.fst created,
          congrArg (fun result => result.2.testCount) created⟩
      · have full := processCreateTest_full image s (Nat.le_of_not_lt room) name entryPoint priority
        exact Or.inl ⟨congrArg Prod.fst full, congrArg (fun result => result.2.testCount) full⟩
  | fork =>
      by_cases noCurrent : s.currentProcess = null
      · have refused := sysFork_refused image s (Or.inl noCurrent)
        exact Or.inl ⟨if_pos noCurrent, congrArg Kernel.testCount refused⟩
      · by_cases room : s.testCount < 10
        · have copy := processCreateCopy_fst image s room s.currentProcess noCurrent
          have registry := sysFork_registry image s noCurrent room
          exact Or.inr ⟨room, (if_neg noCurrent).trans copy, congrArg Registry.testCount registry⟩
        · have full := Nat.le_of_not_lt room
          have refused := sysFork_refused image s (Or.inr full)
          exact Or.inl ⟨(if_neg noCurrent).trans (processCreateCopy_full image s full _),
            congrArg Kernel.testCount refused⟩
  | _ => exact absurd creates id

end Kernel

/-- The kernel with the processes of `process_create_test` that live and those that have ended. -/
structure Roster where
  kernel : Kernel
  live : List Word
  ended : List Word

namespace Roster

def boot (image : Image) : Roster where
  kernel := .boot image
  live := [(Kernel.boot image).kernelProcess]
  ended := []

def step (image : Image) (r : Roster) (op : ProcessOp) : Roster where
  kernel := r.kernel.step image op
  live := Ledger.livingAfter r.live (r.kernel.spawned image op) (r.kernel.finished image op)
  ended :=
    if r.live.contains (r.kernel.finished image op) then r.kernel.finished image op :: r.ended
    else r.ended

/-- `process_create_test` fails only while ten of its processes live. -/
def Recovers (image : Image) (r : Roster) (op : ProcessOp) : Prop :=
  r.kernel.CallsCreateTest op → r.kernel.spawned image op = null → r.live.length = 10

/-- It is called before ten processes have been created, or before the first of them ends. -/
def Unspent (r : Roster) (op : ProcessOp) : Prop :=
  r.kernel.CallsCreateTest op → r.kernel.testCount < 10 ∨ r.ended = []

instance (image : Image) (r : Roster) (op : ProcessOp) : Decidable (r.Recovers image op) :=
  inferInstanceAs (Decidable (_ → _ → _))

instance (r : Roster) (op : ProcessOp) : Decidable (r.Unspent op) :=
  inferInstanceAs (Decidable (_ → _ ∨ _))

/-- Every process counted either lives or has ended. -/
structure Counted (image : Image) (r : Roster) : Prop where
  bound : r.kernel.testCount ≤ 10
  members : ∀ process ∈ r.live, ∃ index < r.kernel.testCount, process = image.testSlot index
  nodup : r.live.Nodup
  total : r.live.length + r.ended.length = r.kernel.testCount

variable {image : Image} {r : Roster}

theorem boot_counted (image : Image) : (boot image).Counted image := by
  have registry := Kernel.boot_registry image
  have testCount : (Kernel.boot image).testCount = 1 := congrArg Registry.testCount registry
  have root : (Kernel.boot image).kernelProcess = image.testSlot 0 :=
    congrArg Registry.kernelProcess registry
  refine
    { bound := by change (Kernel.boot image).testCount ≤ 10; omega
      members := fun process member => ⟨0, ?_, ?_⟩
      nodup := List.nodup_singleton _
      total := testCount.symm }
  · change 0 < (Kernel.boot image).testCount
    omega
  · exact (List.mem_singleton.mp member).trans root

/-- Removing a member shortens a list without repetitions by one. -/
theorem length_filter_ne {processes : List Word} (nodup : processes.Nodup) {process : Word}
    (member : process ∈ processes) :
    (processes.filter (· ≠ process)).length + 1 = processes.length := by
  have erased : processes.filter (· ≠ process) = processes.erase process := by
    rw [nodup.erase_eq_filter]
    exact List.filter_congr fun other _ => Bool.eq_iff_iff.mpr (by simp)
  have positive := List.length_pos_of_mem member
  rw [erased, List.length_erase_of_mem member]
  omega

namespace Counted

variable (counted : r.Counted image)

include counted

theorem null_not_mem : null ∉ r.live := by
  intro member
  obtain ⟨index, inside, isNull⟩ := counted.members null member
  have bound := counted.bound
  exact Image.testSlot_ne_null (by omega) isNull.symm

/-- The call of `process_create_test` fails exactly when the counter is at ten. -/
theorem spawned_null_iff {op : ProcessOp} (calls : r.kernel.CallsCreateTest op) :
    r.kernel.spawned image op = null ↔ r.kernel.testCount = 10 := by
  have bound := counted.bound
  cases op with
  | createTest name entryPoint priority =>
      by_cases room : r.kernel.testCount < 10
      · rw [Kernel.spawned, Kernel.processCreateTest_room image r.kernel room]
        exact iff_of_false (Image.testSlot_ne_null room) (by omega)
      · rw [Kernel.spawned, Kernel.processCreateTest_full image r.kernel (by omega)]
        exact iff_of_true rfl (by omega)
  | fork =>
      rw [Kernel.spawned, if_neg calls]
      by_cases room : r.kernel.testCount < 10
      · rw [Kernel.processCreateCopy_fst image r.kernel room _ calls]
        exact iff_of_false (Image.testSlot_ne_null room) (by omega)
      · rw [Kernel.processCreateCopy_full image r.kernel (by omega)]
        exact iff_of_true rfl (by omega)
  | _ => exact absurd calls id

/-- With the counter at ten, ten live as long as none has ended. -/
theorem recovers_iff (op : ProcessOp) : r.Recovers image op ↔ r.Unspent op := by
  have bound := counted.bound
  have total := counted.total
  refine forall_congr' fun calls => ?_
  rw [counted.spawned_null_iff calls, ← List.length_eq_zero_iff]
  omega

/-- A process that is not counted yet joins the living. -/
theorem enrol {kernel : Kernel} (room : r.kernel.testCount < 10)
    (counts : kernel.testCount = r.kernel.testCount + 1) :
    Counted image
      { kernel := kernel
        live := image.testSlot r.kernel.testCount :: r.live
        ended := r.ended } := by
  refine
    { bound := counts ▸ Nat.succ_le_of_lt room
      members := fun process member => ?_
      nodup := List.nodup_cons.mpr ⟨fun member => ?_, counted.nodup⟩
      total := ?_ }
  · change ∃ index < kernel.testCount, _
    rw [counts]
    rcases List.mem_cons.mp member with rfl | older
    · exact ⟨r.kernel.testCount, Nat.lt_succ_self _, rfl⟩
    · obtain ⟨index, inside, same⟩ := counted.members process older
      exact ⟨index, Nat.lt_succ_of_lt inside, same⟩
  · obtain ⟨index, inside, same⟩ := counted.members _ member
    have same := Image.testSlot_inj room (by omega) same
    omega
  · have total := counted.total
    change (r.live.length + 1) + r.ended.length = kernel.testCount
    omega

/-- A process that ends leaves the living. -/
theorem retire {kernel : Kernel} (counts : kernel.testCount = r.kernel.testCount)
    (process : Word) :
    Counted image
      { kernel := kernel
        live := r.live.filter (· ≠ process)
        ended := if r.live.contains process then process :: r.ended else r.ended } := by
  refine
    { bound := counts ▸ counted.bound
      members := fun other member => counts ▸ counted.members other (List.mem_filter.mp member).1
      nodup := counted.nodup.filter _
      total := ?_ }
  have total := counted.total
  by_cases member : process ∈ r.live
  · have shorter := length_filter_ne counted.nodup member
    rw [if_pos (List.contains_iff_mem.mpr member)]
    change (r.live.filter (· ≠ process)).length + (r.ended.length + 1) = kernel.testCount
    omega
  · have same : r.live.filter (· ≠ process) = r.live :=
      List.filter_eq_self.mpr fun other inside =>
        decide_eq_true fun here : other = process => member (here ▸ inside)
    rw [if_neg fun listed => member (List.contains_iff_mem.mp listed), same]
    exact total.trans counts.symm

/-- Every operation keeps the count. -/
theorem step (op : ProcessOp) : (r.step image op).Counted image := by
  have absent := counted.null_not_mem
  by_cases creates : op.Creates
  · have nobody : r.kernel.finished image op = null := by
      cases op with
      | createTest name entryPoint priority => rfl
      | fork => rfl
      | _ => exact absurd creates id
    rcases Kernel.step_creates image r.kernel creates with ⟨none, same⟩ | ⟨room, here, counts⟩
    · rw [Roster.step, none, Ledger.livingAfter_tornDown]
      exact counted.retire same (r.kernel.finished image op)
    · rw [Roster.step, nobody, here,
        Ledger.livingAfter_created absent (Image.testSlot_ne_null room),
        if_neg fun listed => absent (List.contains_iff_mem.mp listed)]
      exact counted.enrol room counts
  · have kept := Kernel.testCount_of_counters (Kernel.step_counters image r.kernel op creates)
    have nothing : r.kernel.spawned image op = null := by
      cases op with
      | createTest name entryPoint priority => exact absurd trivial creates
      | fork => exact absurd trivial creates
      | _ => rfl
    rw [Roster.step, nothing, Ledger.livingAfter_tornDown]
    exact counted.retire kept (r.kernel.finished image op)

end Counted

/--
Creation fails only with ten live processes exactly in the runs that create no
process after the tenth creation once one of the ten has ended.
-/
theorem slots_recover_iff (image : Image) (ops : List ProcessOp) :
    Along (step image) (Recovers image) (boot image) ops ↔
      Along (step image) Unspent (boot image) ops := by
  have anyOp : ∀ op ∈ ops, (fun _ : ProcessOp => True) op := fun _ _ => trivial
  exact along_iff_along (fun _ op _ counted _ => counted.step op)
    (fun _ op _ counted => counted.recovers_iff op) (boot_counted image) anyOp

/-- Nine creations use up the records; killing one of them makes no room for another. -/
theorem killed_slot_stays_spent :
    ¬ Along (step Image.sample) (Recovers Image.sample) (boot Image.sample)
      (List.replicate 9 (.createTest (some (.ofString "demo")) 0x101100 .normal) ++
        [.killByPid 2, .createTest (some (.ofString "demo")) 0x101100 .normal]) := by
  decide +kernel

end Roster

end SimpleOS
