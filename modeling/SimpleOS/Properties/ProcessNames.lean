import SimpleOS.Invariant.Named
import SimpleOS.Library.GuardedRun

/-!
# Process names are terminated and never overrun

In every run from zero-initialised storage each name array contains a NUL, no
loop assigns behind the array, and a creation stores the name it was given, cut
off after 63 characters.
-/

namespace SimpleOS

open Library.ByteMemory Library.LinkedChain Library.ArrayText Library.GuardedRun

namespace Kernel

/-- The record that the creation routine of an operation returns, and the name it was given. -/
def naming (image : Image) (s : Kernel) : NameOp → Word × CString
  | .boot => ((s.nameStep image .boot).kernelProcess, .ofString "kernel_idle")
  | .create name entryPoint priority =>
      ((s.processCreate image name entryPoint priority).1, name.getD [])
  | .operation (.createTest name entryPoint priority) =>
      ((s.processCreateTest image name entryPoint priority).1, name.getD [])
  | .operation .fork =>
      ((s.processCreateCopy image s.currentProcess).1, (s.process s.currentProcess).nameText)
  | .operation _ => (null, [])
  | .cleanup _ => (null, [])

/-- A successful creation leaves the first 63 characters of the name in its record. -/
def StoresName (image : Image) (s : Kernel) (op : NameOp) : Prop :=
  (s.naming image op).1 ≠ null →
    ((s.nameStep image op).process (s.naming image op).1).nameText =
      storedName (s.naming image op).2

variable {image : Image} {count : Nat} {s : Kernel}

/-- A name that ends has no characters behind the 63 that a creation stores. -/
theorem storedName_nameText {record : Process} (ends : record.NameEnds) :
    storedName record.nameText = record.nameText := by
  have text : upTo 0 record.nameText = record.nameText := upTo_eq_self (not_mem_upTo _)
  have short : record.nameText.length ≤ 63 := by
    rw [← storedName_nameString ends]
    exact storedName_length _
  rw [storedName, text, List.take_of_length_le short]

theorem processCreate_nameText (named : Named image count s) (apart : s.GrantApart image)
    {name : Option CString} {entryPoint : Word} {priority : ProcessPriority}
    (succeeds : (s.processCreate image name entryPoint priority).1 ≠ null) :
    ((s.processCreate image name entryPoint priority).2.process
      (s.processCreate image name entryPoint priority).1).nameText = storedName (name.getD []) := by
  have granted := named.kmalloc apart
  revert succeeds
  unfold processCreate
  generalize s.kmalloc image 4096 = grant at granted ⊢
  obtain ⟨stack, after⟩ := grant
  split
  · exact fun fails => absurd rfl fails
  · next name =>
    split
    · exact fun fails => absurd rfl fails
    · next notFull =>
      dsimp only
      split
      · exact fun fails => absurd rfl fails
      · intro _
        have isFresh : Fresh image count (image.createSlot s.createCount) :=
          ⟨s.createCount, Nat.le_of_eq named.created.symm, Nat.lt_of_not_le notFull, rfl⟩
        have zero := granted.fresh _ isFresh
        have filled (pid : Word) :
            ((after.modify (image.createSlot s.createCount) fun record =>
              record.fillCreate name pid entryPoint stack priority).process
                (image.createSlot s.createCount)).nameText = storedName name := by
          rw [modify_self]
          exact fillCreate_nameText _ _ _ _ _ zero name
        split
        · exact filled _
        · exact filled _

theorem processCreateTest_nameText (image : Image) (room : s.testCount < 10) (name : Option CString)
    (entryPoint : Word) (priority : ProcessPriority) :
    ((s.processCreateTest image name entryPoint priority).2.process
      (image.testSlot s.testCount)).nameText = storedName (name.getD []) := by
  rw [processCreateTest_room image s room]
  change ((s.modify (image.testSlot s.testCount) _).process
    (image.testSlot s.testCount)).nameText = _
  rw [modify_self]
  exact fillTest_nameText _ _ _ _ _ name

/-- Where the creation has no room, there is no record to be named. -/
theorem room_of_processCreateTest {name : Option CString} {entryPoint : Word}
    {priority : ProcessPriority}
    (succeeds : (s.processCreateTest image name entryPoint priority).1 ≠ null) :
    s.testCount < 10 := by
  refine Nat.lt_of_not_le fun full => succeeds ?_
  rw [processCreateTest_full image s full]

theorem processCreateCopy_nameText (image : Image) (room : s.testCount < 10) {parent : Word}
    (nonnull : parent ≠ null) :
    ((s.processCreateCopy image parent).2.process (image.testSlot s.testCount)).nameText =
      storedName (s.process parent).nameString := by
  have child : (s.processCreateTest image (some (s.process parent).nameString)
      (s.process parent).cpuState.eip (s.process parent).priority).1 =
        image.testSlot s.testCount := by
    rw [processCreateTest_room image s room]
  have created := processCreateTest_nameText image room
    (some (s.process parent).nameString) (s.process parent).cpuState.eip (s.process parent).priority
  rw [processCreateCopy, if_neg nonnull]
  simp only [child, if_neg (Image.testSlot_ne_null room), modify_modify]
  rw [modify_self]
  exact created

theorem sysFork_nameText (room : s.testCount < 10) (nonnull : s.currentProcess ≠ null) :
    ((s.sysFork image).2.process (image.testSlot s.testCount)).nameText =
      storedName (s.process s.currentProcess).nameString := by
  have copied := processCreateCopy_nameText image room nonnull
  rw [sysFork_room image s nonnull room]
  obtain ⟨links, queued⟩ := (adopted image s).addToReadyQueue_exists (image.testSlot s.testCount)
  rw [queued]
  change ((adopted image s).process (image.testSlot s.testCount)).nameText = _
  rw [adopted, modify_self]
  exact copied

/-- Marking the kernel process as the running one keeps its name. -/
theorem enableProcessExecution_nameText (fresh : s.kernelProcess = null)
    (succeeds : (s.enableProcessExecution image).kernelProcess ≠ null) :
    ((s.enableProcessExecution image).process
      (s.enableProcessExecution image).kernelProcess).nameText =
        storedName (.ofString "kernel_idle") := by
  revert succeeds
  unfold enableProcessExecution
  rw [if_pos fresh]
  dsimp only
  split
  · next created =>
    intro _
    have room := room_of_processCreateTest created
    have name := processCreateTest_nameText image room (some (.ofString "kernel_idle"))
      image.processIdleTask .low
    have slot : (s.processCreateTest image (some (.ofString "kernel_idle"))
        image.processIdleTask .low).1 = image.testSlot s.testCount := by
      rw [processCreateTest_room image s room]
    have kept (entered : Kernel) (target : Word) :
        (((entered.setState target .running).setCurrent target).process target).nameText =
          (entered.process target).nameText := by
      change ((entered.setState target .running).process target).nameText = _
      rw [setState, modify_self]
      rfl
    refine (kept _ _).trans ?_
    dsimp only
    rw [slot]
    exact name
  · next failed =>
    intro succeeds
    exact absurd succeeds failed

theorem Named.storesName (named : Named image count s) {op : NameOp}
    (spares : s.SparesNames image op) : s.StoresName image op := by
  intro succeeds
  cases op with
  | boot => exact enableProcessExecution_nameText rfl succeeds
  | create name entryPoint priority => exact processCreate_nameText named spares succeeds
  | operation op =>
      cases op with
      | createTest name entryPoint priority =>
          have room := room_of_processCreateTest succeeds
          have slot : (s.processCreateTest image name entryPoint priority).1 =
              image.testSlot s.testCount := by
            rw [processCreateTest_room image s room]
          have stored := processCreateTest_nameText image room name entryPoint priority
          change ((s.processCreateTest image name entryPoint priority).2.process
            (s.processCreateTest image name entryPoint priority).1).nameText = _
          rw [slot]
          exact stored
      | fork =>
          change (s.processCreateCopy image s.currentProcess).1 ≠ null at succeeds
          have nonnull : s.currentProcess ≠ null := by
            intro noCurrent
            rw [Kernel.processCreateCopy, if_pos noCurrent] at succeeds
            exact succeeds rfl
          have room : s.testCount < 10 := by
            refine Nat.lt_of_not_le fun full => succeeds ?_
            exact processCreateCopy_full image s full s.currentProcess
          have slot := processCreateCopy_fst image s room s.currentProcess nonnull
          have ends := named.ends s.currentProcess
          change ((s.sysFork image).2.process
            (s.processCreateCopy image s.currentProcess).1).nameText =
              storedName (s.process s.currentProcess).nameText
          rw [slot, sysFork_nameText room nonnull, storedName_nameString ends,
            storedName_nameText ends]
      | _ => exact absurd rfl succeeds
  | cleanup process => exact absurd rfl succeeds

/-- Names are terminated after every operation of every run, and stored as they are given. -/
theorem names_terminated (image : Image) (ops : List NameOp)
    (spares : Along (nameStep image) (SparesNames image) (loaded image) ops) :
    Always (nameStep image) (fun s => ∀ target, (s.process target).NameEnds) (loaded image) ops ∧
      Along (nameStep image)
        (fun s op => (∀ index ∈ s.nameWrites image op, index ≤ 63) ∧ s.StoresName image op)
        (loaded image) ops := by
  have step (s : Kernel) (op : NameOp) (named : ∃ count, Named image count s)
      (spares : s.SparesNames image op) : ∃ count, Named image count (s.nameStep image op) := by
    obtain ⟨_, named⟩ := named
    exact named.nameStep spares
  have initial : ∃ count, Named image count (loaded image) := ⟨0, Named.loaded image⟩
  constructor
  · refine always_of_along step (fun s named => ?_) initial spares
    obtain ⟨_, named⟩ := named
    exact named.ends
  · refine along_of_along step (fun s op named spares => ?_) initial spares
    obtain ⟨_, named⟩ := named
    exact ⟨s.nameWrites_lt image op, named.storesName spares⟩

/-- The first stack of `process_create` lies before the records of the sample layout. -/
theorem sample_grantApart {s : Kernel} (first : s.heapCurrent = heapStart) :
    s.GrantApart Image.sample := by
  intro allocation grants slot member
  rw [first] at grants
  have apart : (SimpleOS.kmalloc heapStart 4096).all (fun allocation =>
      Image.sample.slots.all fun slot => !touches allocation.patch slot) = true := by
    decide +kernel
  rw [grants, Option.all_some, List.all_eq_true] at apart
  simpa using apart slot member

/-- A creation of either kind, a fork of the kernel process, and a program it runs. -/
theorem names_terminated_after_exec :
    Always (nameStep Image.sample) (fun s => ∀ target, (s.process target).NameEnds)
        (loaded Image.sample)
        [.boot, .create (some (.ofString "shell")) 0x101000 .normal, .operation .fork,
          .operation (.exec (some (.ofString "hello")))] ∧
      Along (nameStep Image.sample)
        (fun s op => (∀ index ∈ s.nameWrites Image.sample op, index ≤ 63) ∧
          s.StoresName Image.sample op)
        (loaded Image.sample)
        [.boot, .create (some (.ofString "shell")) 0x101000 .normal, .operation .fork,
          .operation (.exec (some (.ofString "hello")))] := by
  refine names_terminated Image.sample _ ⟨trivial, sample_grantApart ?_, trivial, trivial, trivial⟩
  rfl

end Kernel

end SimpleOS
