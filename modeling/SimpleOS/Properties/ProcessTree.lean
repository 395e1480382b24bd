import Mathlib.Logic.Function.Iterate
import SimpleOS.Properties.SlotRecovery
import SimpleOS.Properties.ForkedChild

/-!
# PIDs and parents

Over a whole run the PIDs are given out in ascending order, so that none of
them ever means two processes, and the parents of a process are older than it.
-/

namespace SimpleOS

open Library.ByteMemory Library.GuardedRun

namespace Kernel

/-- The PID of the process that an operation creates, if it creates one. -/
def givenPid? (image : Image) (s : Kernel) (op : ProcessOp) : Option Word :=
  if s.spawned image op = null then none
  else some ((s.step image op).identity (s.spawned image op)).pid

/-- The PIDs given in a run. -/
def givenPids (image : Image) : Kernel → List ProcessOp → List Word
  | _, [] => []
  | s, op :: rest => (s.givenPid? image op).toList ++ givenPids image (s.step image op) rest

/-- The PID of the parent, or 0 for a PID that finds no process. -/
def parentOf (s : Kernel) (pid : Word) : Word :=
  if s.processFindByPid pid = null then 0
  else (s.process (s.processFindByPid pid)).parentPid

section Step

variable {image : Image} {s : Kernel}

/-- A creation that succeeds gives the number of processes created so far. -/
theorem created_pid (coherent : s.Coherent image) {op : ProcessOp} (creates : op.Creates)
    (room : s.testCount < 10) (called : s.CallsCreateTest op) :
    ((s.step image op).identity (image.testSlot s.testCount)).pid =
      BitVec.ofNat 32 (s.testCount + 1) := by
  cases op with
  | createTest name entryPoint priority =>
      have identity := processCreateTest_identity image s room name entryPoint priority
      change ((s.processCreateTest image name entryPoint priority).2.identity _).pid = _
      rw [identity, Function.update_self]
      rfl
  | fork =>
      have nonnull : s.currentProcess ≠ null := called
      have other : s.currentProcess ≠ image.testSlot s.testCount := fun same =>
        next_not_active room (same ▸ coherent.current nonnull)
      have identity := sysFork_identity image s nonnull room other
      change ((s.sysFork image).2.identity _).pid = _
      rw [identity, Function.update_self]
      rfl
  | _ => exact absurd creates id

/-- An operation gives the next PID and counts it, or it gives none. -/
theorem step_gives (coherent : s.Coherent image) (op : ProcessOp) :
    (s.givenPid? image op = none ∧ (s.step image op).testCount = s.testCount) ∨
      (s.givenPid? image op = some (BitVec.ofNat 32 (s.testCount + 1)) ∧
        (s.step image op).testCount = s.testCount + 1) := by
  rcases Classical.em op.Creates with creates | other
  · rcases step_creates image s creates with ⟨nothing, same⟩ | ⟨room, spawned, counted⟩
    · exact Or.inl ⟨if_pos nothing, same⟩
    · have nonnull : s.spawned image op ≠ null := spawned ▸ Image.testSlot_ne_null room
      have called : s.CallsCreateTest op := by
        cases op with
        | createTest name entryPoint priority => trivial
        | fork => exact fun none => nonnull (if_pos none)
        | _ => exact absurd creates id
      refine Or.inr ⟨?_, counted⟩
      rw [givenPid?, if_neg nonnull, spawned, created_pid coherent creates room called]
  · have count : (s.step image op).testCount = s.testCount :=
      testCount_of_counters (step_counters image s op other)
    refine Or.inl ⟨if_pos ?_, count⟩
    cases op with
    | createTest name entryPoint priority => exact absurd trivial other
    | fork => exact absurd trivial other
    | _ => rfl

end Step

section Run

variable {image : Image} {s : Kernel}

/-- A run gives the PIDs from its first free one to its last count. -/
theorem givenPids_eq (coherent : s.Coherent image) {ops : List ProcessOp}
    (outside : ∀ op ∈ ops, op.StatusOutside image) :
    s.testCount ≤ (run (step image) s ops).testCount ∧
      givenPids image s ops =
        (List.range' (s.testCount + 1)
          ((run (step image) s ops).testCount - s.testCount)).map (BitVec.ofNat 32) := by
  induction ops generalizing s with
  | nil => exact ⟨Nat.le_refl _, by rw [run, Nat.sub_self]; rfl⟩
  | cons op rest ih =>
      have here := outside op List.mem_cons_self
      obtain ⟨more, given⟩ := ih (coherent.step op here)
        fun other member => outside other (List.mem_cons_of_mem op member)
      rw [givenPids, given]
      change _ ≤ (run (step image) (s.step image op) rest).testCount ∧ _ = List.map _
        (List.range' _ ((run (step image) (s.step image op) rest).testCount - _))
      rcases step_gives coherent op with ⟨nothing, same⟩ | ⟨some, counted⟩
      · rw [same] at more ⊢
        rw [nothing]
        exact ⟨more, rfl⟩
      · rw [counted] at more ⊢
        have split : (run (step image) (s.step image op) rest).testCount - s.testCount =
            (run (step image) (s.step image op) rest).testCount - (s.testCount + 1) + 1 := by
          omega
        rw [some, split, List.range'_succ, List.map_cons]
        exact ⟨by omega, rfl⟩

theorem run_coherent (coherent : s.Coherent image) {ops : List ProcessOp}
    (outside : ∀ op ∈ ops, op.StatusOutside image) : (run (step image) s ops).Coherent image := by
  induction ops generalizing s with
  | nil => exact coherent
  | cons op rest ih =>
      exact ih (coherent.step op (outside op List.mem_cons_self))
        fun other member => outside other (List.mem_cons_of_mem op member)

/-- In every run from the booted state the PIDs given are 2, 3, and so on, up to 10 at most: no PID
is given twice, also when its first process has been killed or reaped. -/
theorem pids_in_order (image : Image) {ops : List ProcessOp}
    (outside : ∀ op ∈ ops, op.StatusOutside image) :
    ∃ count ≤ 9, givenPids image (boot image) ops =
      (List.range' 2 count).map (BitVec.ofNat 32) := by
  have coherent := boot_coherent image
  have one : (boot image).testCount = 1 := congrArg Registry.testCount (boot_registry image)
  obtain ⟨more, given⟩ := givenPids_eq coherent outside
  have limit := (run_coherent coherent outside).count
  rw [one] at given more
  exact ⟨_, by omega, given⟩

/-- A fork, a kill and two more creations. -/
theorem pids_in_order_sample :
    ∃ count ≤ 9,
      givenPids .sample (boot .sample)
          [.fork, .killByPid 2, .createTest none 0x101000 .low, .wait null, .fork] =
        (List.range' 2 count).map (BitVec.ofNat 32) := by
  refine pids_in_order .sample fun op member => ?_
  simp only [List.mem_cons, List.not_mem_nil, or_false] at member
  rcases member with rfl | rfl | rfl | rfl | rfl
  · trivial
  · trivial
  · trivial
  · exact Or.inl rfl
  · trivial

end Run

section Parents

variable {image : Image} {s : Kernel}

/-- The parent of a process has a smaller PID, and nobody has a PID above 10. -/
theorem parentOf_lt (coherent : s.Coherent image) (pid : Word) :
    s.parentOf pid = 0 ∨ (s.parentOf pid).toNat < pid.toNat ∧ pid.toNat ≤ 10 := by
  unfold parentOf
  split
  · exact Or.inl rfl
  · next nonnull =>
      obtain ⟨index, bound, place, found, _, parentPid, older, identity⟩ := coherent.found nonnull
      have limit := coherent.count
      have parent : (s.process (s.processFindByPid pid)).parentPid = parentPid := by
        rw [found]
        exact congrArg Process.Identity.parentPid identity
      rw [parent]
      exact Or.inr ⟨by omega, by omega⟩

/-- Going from parent to parent, the PIDs come down to 0. -/
theorem parents_bounded (coherent : s.Coherent image) (pid : Word) (steps : Nat) :
    (s.parentOf^[steps + 1] pid).toNat ≤ 10 - (steps + 1) := by
  induction steps with
  | zero =>
      rcases parentOf_lt coherent pid with none | ⟨less, small⟩
      · change (s.parentOf pid).toNat ≤ _
        rw [none]
        exact Nat.zero_le _
      · change (s.parentOf pid).toNat ≤ _
        omega
  | succ steps ih =>
      rw [Function.iterate_succ_apply']
      rcases parentOf_lt coherent (s.parentOf^[steps + 1] pid) with none | ⟨less, _⟩
      · rw [none]
        exact Nat.zero_le _
      · omega

/-- In every state of every run from the booted state, ten steps from parent to parent lead from any
PID to 0: no process is its own ancestor. -/
theorem parents_form_tree (image : Image) {ops : List ProcessOp}
    (outside : ∀ op ∈ ops, op.StatusOutside image) (pid : Word) :
    ((run (step image) (boot image) ops).parentOf^[10] pid) = 0 ∧
      ∀ steps, pid ≠ 0 →
        ((run (step image) (boot image) ops).parentOf^[steps + 1] pid) ≠ pid := by
  have coherent := run_coherent (boot_coherent image) outside
  generalize run (step image) (boot image) ops = s at coherent
  constructor
  · have zero := parents_bounded coherent pid 9
    exact BitVec.eq_of_toNat_eq (Nat.le_zero.mp zero)
  · intro steps nonzero
    have descends : ∀ steps, s.parentOf^[steps + 1] pid = 0 ∨
        (s.parentOf^[steps + 1] pid).toNat < pid.toNat := by
      intro steps
      induction steps with
      | zero => exact (parentOf_lt coherent pid).imp_right And.left
      | succ steps ih =>
          rw [Function.iterate_succ_apply']
          rcases parentOf_lt coherent (s.parentOf^[steps + 1] pid) with none | ⟨less, _⟩
          · exact Or.inl none
          · rcases ih with none | before
            · rw [none] at less
              exact absurd less (Nat.not_lt_zero _)
            · exact Or.inr (Nat.lt_trans less before)
    intro same
    rcases descends steps with none | less
    · exact nonzero (same.symm.trans none)
    · rw [same] at less
      exact Nat.lt_irrefl _ less

/-- Three generations, the one in the middle terminated. -/
theorem parents_form_tree_sample :
    ((run (step .sample) (boot .sample)
        [.fork, .changeCurrent 2, .fork, .processExit 0, .wait null]).parentOf^[10] 3) = 0 ∧
      ∀ steps, (3 : Word) ≠ 0 →
        ((run (step .sample) (boot .sample)
          [.fork, .changeCurrent 2, .fork, .processExit 0, .wait null]).parentOf^[steps + 1] 3) ≠
            3 := by
  refine parents_form_tree .sample (fun op member => ?_) 3
  simp only [List.mem_cons, List.not_mem_nil, or_false] at member
  rcases member with rfl | rfl | rfl | rfl | rfl
  · trivial
  · trivial
  · trivial
  · trivial
  · exact Or.inl rfl

end Parents

end Kernel

end SimpleOS
