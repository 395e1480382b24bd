import SimpleOS.Library.ArrayText
import SimpleOS.Kernel.Operations

/-!
# The names of processes

The two loops that write a name, with the indices they assign to, and the
operations that create, rename and clear records.
-/

namespace SimpleOS

open Library.ByteMemory Library.ArrayText

/-- `char name[64]`. -/
def nameSize : Nat := 64

/-- The name a record holds, up to its NUL. -/
def Process.nameText (record : Process) : CString := textIn 0 record.name nameSize

/-- The name array contains a NUL. -/
def Process.NameEnds (record : Process) : Prop := Marked 0 record.name nameSize

/-- The name that the creation routines store for a C string: at most 63 characters. -/
def storedName (name : CString) : CString := (upTo 0 name).take 63

/-! ## Where the loops write -/

/-- The indices `copyName` assigns to. -/
def copyNameWrites : CString → Nat → List Nat
  | [], _ => []
  | char :: rest, index =>
      if index < 63 ∧ char ≠ 0 then index :: copyNameWrites rest (index + 1) else []

/-- The indices `stringCopy` assigns to. -/
def stringCopyWrites : CString → Nat → List Nat
  | [], index => [index]
  | char :: rest, index =>
      if char ≠ 0 then index :: stringCopyWrites rest (index + 1) else [index]

theorem copyNameWrites_lt (name : CString) (index : Nat) :
    ∀ place ∈ copyNameWrites name index, place < 63 := by
  induction name generalizing index with
  | nil =>
      intro place member
      cases member
  | cons char rest ih =>
      intro place member
      rw [copyNameWrites] at member
      split at member
      · next goesOn =>
        cases member with
        | head => exact goesOn.1
        | tail _ later => exact ih (index + 1) place later
      · cases member

theorem stringCopyWrites_le (program : CString) (index : Nat) :
    ∀ place ∈ stringCopyWrites program index, place ≤ index + (upTo 0 program).length := by
  induction program generalizing index with
  | nil =>
      intro place member
      rw [stringCopyWrites, List.mem_singleton] at member
      omega
  | cons char rest ih =>
      intro place member
      rw [stringCopyWrites] at member
      split at member
      · next goesOn =>
        have longer : (upTo 0 (char :: rest)).length = (upTo 0 rest).length + 1 := by
          rw [upTo_cons goesOn, List.length_cons]
        cases member with
        | head => exact Nat.le_add_right _ _
        | tail _ later =>
            have bound := ih (index + 1) place later
            omega
      · rw [List.mem_singleton] at member
        omega

/-! ## What the loops write -/

/-- The bounded copy writes the characters before the NUL and before index 63. -/
theorem copyName_eq (name : CString) (index : Nat) (target : Nat → Byte) :
    copyName name index target =
      (place target index ((upTo 0 name).take (63 - index)),
        index + ((upTo 0 name).take (63 - index)).length) := by
  induction name generalizing index target with
  | nil => simp [copyName, upTo]
  | cons char rest ih =>
      rw [copyName]
      split
      · next goesOn =>
        have text : (upTo 0 (char :: rest)).take (63 - index) =
            char :: (upTo 0 rest).take (63 - (index + 1)) := by
          rw [upTo_cons goesOn.2, show 63 - index = 63 - (index + 1) + 1 by omega,
            List.take_succ_cons]
        rw [ih, text, place_cons, List.length_cons]
        congr 1
        omega
      · next stops =>
        have text : (upTo 0 (char :: rest)).take (63 - index) = [] := by
          by_cases more : index < 63
          · have isZero : char = 0 := by
              by_contra nonzero
              exact stops ⟨more, nonzero⟩
            rw [isZero, upTo_mark, List.take_nil]
          · rw [show 63 - index = 0 by omega, List.take_zero]
        rw [text, place_nil, List.length_nil]
        rfl

/-- The unbounded copy writes the characters and the NUL. -/
theorem stringCopy_eq (program : CString) (index : Nat) (target : Nat → Byte) :
    stringCopy program index target = place target index (upTo 0 program ++ [0]) := by
  induction program generalizing index target with
  | nil => rw [stringCopy, upTo_nil, List.nil_append, ← place_cons, place_nil]
  | cons char rest ih =>
      rw [stringCopy]
      split
      · next goesOn =>
        rw [ih, place_cons, upTo_cons goesOn, List.cons_append]
      · next stops =>
        have isZero : char = 0 := not_not.mp stops
        rw [isZero, upTo_mark, List.nil_append, ← place_cons, place_nil]

theorem storedName_length (name : CString) : (storedName name).length ≤ 63 := by
  rw [storedName, List.length_take]
  exact Nat.min_le_left _ _

theorem zero_not_mem_storedName (name : CString) : 0 ∉ storedName name := fun member =>
  not_mem_upTo name (List.mem_of_mem_take member)

/-- A string that compares equal to one without NUL is that one up to its own NUL. -/
theorem upTo_of_strcmp {program known : CString} (line : 0 ∉ known)
    (same : strcmp program known = 0) : upTo 0 program = known := by
  induction program generalizing known with
  | nil =>
      cases known with
      | nil => rfl
      | cons char rest =>
          have nonzero : char.toNat ≠ 0 := fun isZero =>
            line (BitVec.eq_of_toNat_eq (y := (0 : Byte)) isZero ▸ List.mem_cons_self)
          simp only [strcmp, List.headD_cons] at same
          omega
  | cons char rest ih =>
      rw [strcmp] at same
      split at same
      · next goesOn =>
        cases known with
        | nil => exact absurd goesOn.2 goesOn.1
        | cons other later =>
            have tail := ih (fun inside => line (List.mem_cons_of_mem other inside)) same
            rw [upTo_cons goesOn.1, tail, goesOn.2]
            rfl
      · next differs =>
        have equal : char = known.headD 0 := BitVec.eq_of_toNat_eq (by omega)
        have isZero : char = 0 := by
          by_contra nonzero
          exact differs ⟨nonzero, equal⟩
        cases known with
        | nil => rw [isZero, upTo_mark]
        | cons other later =>
            have otherZero : other = 0 := equal.symm.trans isZero
            exact absurd (otherZero ▸ List.mem_cons_self) line

/-- The program names the loader knows have at most seven characters. -/
theorem upTo_of_execFindProgram {program : CString} {found : Program}
    (finds : execFindProgram program = some found) : (upTo 0 program).length ≤ 7 := by
  have known {name : String} (line : 0 ∉ CString.ofString name)
      (short : (CString.ofString name).length ≤ 7)
      (same : strcmp program (.ofString name) = 0) : (upTo 0 program).length ≤ 7 := by
    rw [upTo_of_strcmp line same]
    exact short
  unfold execFindProgram at finds
  split at finds
  · next same => exact known (by decide) (by decide) same
  · split at finds
    · next same => exact known (by decide) (by decide) same
    · split at finds
      · next same => exact known (by decide) (by decide) same
      · split at finds
        · next same => exact known (by decide) (by decide) same
        · cases finds

/-! ## The names the routines store -/

section Filled

variable (record : Process) (pid entryPoint stack : Word) (priority : ProcessPriority)

theorem fillCreate_name (name : CString) :
    (record.fillCreate name pid entryPoint stack priority).name =
      place record.name 0 (storedName name) := by
  rw [Process.fillCreate, copyName_eq]
  rfl

/-- Without a terminator the name is right in a record whose name is all zero. -/
theorem fillCreate_nameText (zero : ∀ spot, record.name spot = 0) (name : CString) :
    (record.fillCreate name pid entryPoint stack priority).nameText = storedName name := by
  rw [Process.nameText, fillCreate_name]
  have short := storedName_length name
  exact textIn_place (zero_not_mem_storedName name) (by rw [nameSize]; omega) (zero _)

theorem fillCreate_nameEnds (zero : ∀ spot, record.name spot = 0) (name : CString) :
    (record.fillCreate name pid entryPoint stack priority).NameEnds := by
  have short := storedName_length name
  refine ⟨(storedName name).length, by rw [nameSize]; omega, ?_⟩
  rw [fillCreate_name, place_behind (by omega)]
  exact zero _

theorem fillTest_name (name : Option CString) :
    (record.fillTest name pid entryPoint stack priority).name =
      Function.update (place record.name 0 (storedName (name.getD [])))
        (storedName (name.getD [])).length 0 := by
  rw [Process.fillTest, copyName_eq, Nat.zero_add]
  rfl

theorem fillTest_nameText (name : Option CString) :
    (record.fillTest name pid entryPoint stack priority).nameText = storedName (name.getD []) := by
  have short := storedName_length (name.getD [])
  rw [Process.nameText, fillTest_name]
  refine textIn_eq (zero_not_mem_storedName _) (by rw [nameSize]; omega) (fun spot inside => ?_) ?_
  · rw [Function.update_of_ne (by omega)]
    have char := List.getElem?_eq_getElem inside
    have written : place record.name 0 (storedName (name.getD [])) (0 + spot) = _ :=
      place_inside char
    rw [Nat.zero_add] at written
    rw [written, char]
  · exact Function.update_self _ _ _

theorem fillTest_nameEnds (name : Option CString) :
    (record.fillTest name pid entryPoint stack priority).NameEnds := by
  have short := storedName_length (name.getD [])
  refine ⟨(storedName (name.getD [])).length, by rw [nameSize]; omega, ?_⟩
  rw [fillTest_name, Function.update_self]

end Filled

/-- `sys_exec` copies a program name that is short enough. -/
theorem stringCopy_ends {program : CString} {found : Program}
    (finds : execFindProgram program = some found) (target : Nat → Byte) :
    Marked 0 (stringCopy program 0 target) nameSize := by
  have short := upTo_of_execFindProgram finds
  refine ⟨(upTo 0 program).length, by rw [nameSize]; omega, ?_⟩
  have written : place target 0 (upTo 0 program ++ [0]) (0 + (upTo 0 program).length) = 0 :=
    place_inside (by simp)
  rw [Nat.zero_add] at written
  rw [stringCopy_eq, written]

/-- A name that ends fits into the string that a fork reads. -/
theorem storedName_nameString {record : Process} (ends : record.NameEnds) :
    storedName record.nameString = record.nameText := by
  have text : upTo 0 record.nameString = record.nameText := (textIn_succ ends).symm
  rw [storedName, text, List.take_of_length_le]
  rw [← text]
  exact Nat.le_trans (upTo_length_le _) (by simp [Process.nameString])

/-! ## The operations on names -/

/--
The process part of `kernel_main`, the two creation routines, the cleanup of a
record, and every other operation on processes.
-/
inductive NameOp where
  | boot
  | create (name : Option CString) (entryPoint : Word) (priority : ProcessPriority)
  | operation (op : ProcessOp)
  | cleanup (process : Word)

namespace Kernel

/-- The state after one operation. -/
def nameStep (image : Image) (s : Kernel) : NameOp → Kernel
  | .boot => (s.memoryInit.processInit.schedulerInit).enableProcessExecution image
  | .create name entryPoint priority => (s.processCreate image name entryPoint priority).2
  | .operation op => s.step image op
  | .cleanup process => s.processCleanup process

/-- The indices of the name that `process_create_test` assigns to. -/
def createTestWrites (image : Image) (s : Kernel) (name : Option CString) : List Nat :=
  if 10 ≤ s.testCount then []
  else
    copyNameWrites (name.getD []) 0 ++
      [(copyName (name.getD []) 0 (s.process (image.testSlot s.testCount)).name).2]

/-- The indices an operation assigns to through the name of a record. -/
def nameWrites (image : Image) (s : Kernel) : NameOp → List Nat
  | .boot => s.createTestWrites image (some (.ofString "kernel_idle"))
  | .create none _ _ => []
  | .create (some name) _ _ =>
      if 10 ≤ s.createCount ∨ (s.kmalloc image 4096).1 = null then []
      else copyNameWrites name 0
  | .operation (.createTest name _ _) => s.createTestWrites image name
  | .operation .fork =>
      if s.currentProcess = null then []
      else s.createTestWrites image (some (s.process s.currentProcess).nameString)
  | .operation (.exec (some program)) =>
      if s.currentProcess = null ∨ execFindProgram program = none then []
      else stringCopyWrites program 0
  | .operation _ => []
  | .cleanup _ => []

/-- Every index written is inside the array. -/
theorem nameWrites_lt (image : Image) (s : Kernel) (op : NameOp) :
    ∀ index ∈ s.nameWrites image op, index ≤ 63 := by
  have created (name : Option CString) : ∀ index ∈ s.createTestWrites image name, index ≤ 63 := by
    intro index member
    rw [createTestWrites] at member
    split at member
    · cases member
    · cases List.mem_append.mp member with
      | inl copied => exact Nat.le_of_lt (copyNameWrites_lt _ _ index copied)
      | inr stop =>
          rw [List.mem_singleton.mp stop, copyName_eq, Nat.zero_add]
          exact List.length_take_le _ _
  cases op with
  | boot => exact created _
  | create name entryPoint priority =>
      cases name with
      | none =>
          intro index member
          cases member
      | some name =>
          intro index member
          rw [nameWrites] at member
          split at member
          · cases member
          · exact Nat.le_of_lt (copyNameWrites_lt _ _ index member)
  | cleanup process =>
      intro index member
      cases member
  | operation op =>
      cases op with
      | createTest name entryPoint priority => exact created name
      | fork =>
          intro index member
          rw [nameWrites] at member
          split at member
          · cases member
          · exact created _ index member
      | exec program =>
          cases program with
          | none =>
              intro index member
              cases member
          | some program =>
              intro index member
              rw [nameWrites] at member
              split at member
              · cases member
              · next runs =>
                obtain ⟨_, known⟩ := not_or.mp runs
                obtain ⟨found, finds⟩ := Option.ne_none_iff_exists'.mp known
                have bound := stringCopyWrites_le program 0 index member
                have short := upTo_of_execFindProgram finds
                omega
      | _ =>
          intro index member
          cases member

end Kernel

end SimpleOS
