import Mathlib.Logic.Function.Basic
import SimpleOS.Library.ChainMoves
import SimpleOS.Kernel.Record

/-!
# The kernel state

`Image` is what linking and loading fix: the addresses of the static arrays of
the two creation routines, the addresses of the functions the process code
takes, and what memory holds before the kernel writes to it.  `Kernel` holds
the variables of `process.c` and `memory.c`.  The process records are kept by
address; all other memory is a byte map, and a write that runs over a record
changes the record through its bytes.
-/

namespace SimpleOS

open Library.ByteMemory Library.LinkedChain

/-- The programs `exec_find_program` knows. -/
inductive Program where
  | hello
  | counter
  | calc
  | monitor
  deriving DecidableEq

/-- One of the statically allocated records, by its routine and its index. -/
inductive Slot where
  | create (index : Fin 10)
  | test (index : Fin 10)
  deriving DecidableEq

/-- The variables of `process.c` and `memory.c`, other than the records and the stacks. -/
inductive Variable where
  | processTable
  | nextPid
  | readyQueueHead
  | readyQueueTail
  | currentProcess
  | kernelProcess
  | createCount
  | testCount
  | heapStart
  | heapCurrent
  | heapEnd
  deriving DecidableEq

/-- `sizeof` of a variable. -/
def Variable.size : Variable → Nat
  | processTable => 4 * maxProcesses
  | _ => 4

/-- The linked and loaded kernel image; the static arrays do not overlap. -/
structure Image where
  createProcesses : Nat
  testProcesses : Nat
  staticStacks : Nat
  variableAt : Variable → Word
  processIdleTask : Word
  entryPoint : Program → Word
  memory : Memory
  create_pos : 0 < createProcesses
  test_pos : 0 < testProcesses
  stacks_pos : 0 < staticStacks
  create_end : createProcesses + 10 * processSize ≤ 2 ^ 32
  test_end : testProcesses + 10 * processSize ≤ 2 ^ 32
  stacks_end : staticStacks + 10 * stackSizeDefault ≤ 2 ^ 32
  create_test : createProcesses + 10 * processSize ≤ testProcesses ∨
    testProcesses + 10 * processSize ≤ createProcesses
  create_stacks : createProcesses + 10 * processSize ≤ staticStacks ∨
    staticStacks + 10 * stackSizeDefault ≤ createProcesses
  test_stacks : testProcesses + 10 * processSize ≤ staticStacks ∨
    staticStacks + 10 * stackSizeDefault ≤ testProcesses
  entry_nonnull : ∀ program, entryPoint program ≠ null
  stacks_cleared : ∀ offset, offset < 10 * stackSizeDefault →
    memory (BitVec.ofNat 32 (staticStacks + offset)) = 0

namespace Image

/-- `&static_processes[index]` of `process_create`. -/
def createSlot (image : Image) (index : Nat) : Word :=
  BitVec.ofNat 32 (image.createProcesses + processSize * index)

/-- `&static_processes[index]` of `process_create_test`. -/
def testSlot (image : Image) (index : Nat) : Word :=
  BitVec.ofNat 32 (image.testProcesses + processSize * index)

/-- `static_stacks[index]` of `process_create_test`. -/
def testStack (image : Image) (index : Nat) : Word :=
  BitVec.ofNat 32 (image.staticStacks + stackSizeDefault * index)

def address (image : Image) : Slot → Word
  | .create index => image.createSlot index
  | .test index => image.testSlot index

/-- The addresses of all statically allocated records. -/
def slots (image : Image) : List Word :=
  (List.range 10).map image.createSlot ++ (List.range 10).map image.testSlot

variable {image : Image}

theorem testSlot_toNat {index : Nat} (bound : index < 10) :
    (image.testSlot index).toNat = image.testProcesses + processSize * index := by
  have room := image.test_end
  simp only [processSize] at room ⊢
  rw [testSlot, BitVec.toNat_ofNat, processSize]
  exact Nat.mod_eq_of_lt (by omega)

theorem createSlot_toNat {index : Nat} (bound : index < 10) :
    (image.createSlot index).toNat = image.createProcesses + processSize * index := by
  have room := image.create_end
  simp only [processSize] at room ⊢
  rw [createSlot, BitVec.toNat_ofNat, processSize]
  exact Nat.mod_eq_of_lt (by omega)

theorem testStack_toNat {index : Nat} (bound : index < 10) :
    (image.testStack index).toNat = image.staticStacks + stackSizeDefault * index := by
  have room := image.stacks_end
  simp only [stackSizeDefault] at room ⊢
  rw [testStack, BitVec.toNat_ofNat, stackSizeDefault]
  exact Nat.mod_eq_of_lt (by omega)

theorem testSlot_inj {first second : Nat} (firstBound : first < 10) (secondBound : second < 10)
    (same : image.testSlot first = image.testSlot second) : first = second := by
  have values := congrArg BitVec.toNat same
  rw [testSlot_toNat firstBound, testSlot_toNat secondBound] at values
  simp only [processSize] at values
  omega

theorem createSlot_inj {first second : Nat} (firstBound : first < 10) (secondBound : second < 10)
    (same : image.createSlot first = image.createSlot second) : first = second := by
  have values := congrArg BitVec.toNat same
  rw [createSlot_toNat firstBound, createSlot_toNat secondBound] at values
  simp only [processSize] at values
  omega

theorem testSlot_ne_null {index : Nat} (bound : index < 10) : image.testSlot index ≠ null := by
  intro isNull
  have value := congrArg BitVec.toNat isNull
  rw [testSlot_toNat bound] at value
  have positive := image.test_pos
  simp only [null, BitVec.ofNat_eq_ofNat, BitVec.toNat_ofNat, Nat.zero_mod] at value
  omega

theorem createSlot_ne_null {index : Nat} (bound : index < 10) :
    image.createSlot index ≠ null := by
  intro isNull
  have value := congrArg BitVec.toNat isNull
  rw [createSlot_toNat bound] at value
  have positive := image.create_pos
  simp only [null, BitVec.ofNat_eq_ofNat, BitVec.toNat_ofNat, Nat.zero_mod] at value
  omega

theorem testStack_ne_null {index : Nat} (bound : index < 10) : image.testStack index ≠ 0 := by
  intro isNull
  have value := congrArg BitVec.toNat isNull
  rw [testStack_toNat bound] at value
  have positive := image.stacks_pos
  simp only [BitVec.ofNat_eq_ofNat, BitVec.toNat_ofNat, Nat.zero_mod] at value
  omega

/-- The two arrays share no record. -/
theorem createSlot_ne_testSlot {first second : Nat} (firstBound : first < 10)
    (secondBound : second < 10) : image.createSlot first ≠ image.testSlot second := by
  intro same
  have values := congrArg BitVec.toNat same
  rw [createSlot_toNat firstBound, testSlot_toNat secondBound] at values
  have apart := image.create_test
  simp only [processSize] at values apart
  omega

theorem mem_slots_iff (address : Word) :
    address ∈ image.slots ↔
      ∃ index < 10, address = image.createSlot index ∨ address = image.testSlot index := by
  simp only [slots, List.mem_append, List.mem_map, List.mem_range]
  constructor
  · rintro (⟨index, bound, same⟩ | ⟨index, bound, same⟩)
    · exact ⟨index, bound, Or.inl same.symm⟩
    · exact ⟨index, bound, Or.inr same.symm⟩
  · rintro ⟨index, bound, same | same⟩
    · exact Or.inl ⟨index, bound, same.symm⟩
    · exact Or.inr ⟨index, bound, same.symm⟩

/-- Static stack memory is apart from every record. -/
theorem not_inRange_slot_of_stack {slot : Word} (member : slot ∈ image.slots) {offset : Nat}
    (bound : offset < 10 * stackSizeDefault) :
    ¬ InRange slot processSize (BitVec.ofNat 32 (image.staticStacks + offset)) := by
  obtain ⟨index, indexBound, here⟩ := (mem_slots_iff slot).mp member
  have createApart := image.create_stacks
  have testApart := image.test_stacks
  have createEnd := image.create_end
  have testEnd := image.test_end
  have stacksEnd := image.stacks_end
  have place : (BitVec.ofNat 32 (image.staticStacks + offset)).toNat =
      image.staticStacks + offset := by
    rw [BitVec.toNat_ofNat]
    exact Nat.mod_eq_of_lt (by omega)
  rcases here with rfl | rfl
  · have slotPlace : (image.createSlot index).toNat = image.createProcesses + processSize * index :=
      createSlot_toNat indexBound
    simp only [processSize, stackSizeDefault] at *
    rw [inRange_iff (by omega), place, slotPlace]
    omega
  · have slotPlace : (image.testSlot index).toNat = image.testProcesses + processSize * index :=
      testSlot_toNat indexBound
    simp only [processSize, stackSizeDefault] at *
    rw [inRange_iff (by omega), place, slotPlace]
    omega

/-- A layout `linker.ld` allows: code at 1 MiB, the data behind ten heap blocks. -/
def sample : Image where
  createProcesses := 0x10B000
  testProcesses := 0x10C000
  staticStacks := 0x10D000
  variableAt
    | .processTable => 0x10A800
    | .nextPid => 0x10AC00
    | .readyQueueHead => 0x10AC04
    | .readyQueueTail => 0x10AC08
    | .currentProcess => 0x10AC0C
    | .kernelProcess => 0x10AC10
    | .createCount => 0x10AC14
    | .testCount => 0x10AC18
    | .heapStart => 0x10AC1C
    | .heapCurrent => 0x10AC20
    | .heapEnd => 0x10AC24
  processIdleTask := 0x101000
  entryPoint
    | .hello => 0x101100
    | .counter => 0x101200
    | .calc => 0x101300
    | .monitor => 0x101400
  memory _ := 0
  create_pos := by decide
  test_pos := by decide
  stacks_pos := by decide
  create_end := by decide
  test_end := by decide
  stacks_end := by decide
  create_test := by decide
  create_stacks := by decide
  test_stacks := by decide
  entry_nonnull := by
    intro program
    cases program <;> decide
  stacks_cleared _ _ := rfl

/--
An offset into the static stacks that lies in the last word of its stack.  The
stack pointer starts there, so no local does; to `kfree` the word is the size of
the stack above.
-/
def EndsStack (offset : Nat) : Prop :=
  offset < 10 * stackSizeDefault ∧ stackSizeDefault - 4 ≤ offset % stackSizeDefault

/-- The word at an address belongs to no record, to no variable, and to no last word of a static
stack. -/
def Outside (image : Image) (address : Word) : Prop :=
  ∀ target, InRange address 4 target →
    (∀ slot ∈ image.slots, ¬ InRange slot processSize target) ∧
      (∀ name, ¬ InRange (image.variableAt name) name.size target) ∧
        ∀ offset, EndsStack offset → target ≠ BitVec.ofNat 32 (image.staticStacks + offset)

/-- The word at an address belongs to no record. -/
def OffRecords (image : Image) (address : Word) : Prop :=
  ∀ target, InRange address 4 target → ∀ slot ∈ image.slots, ¬ InRange slot processSize target

theorem Outside.offRecords {address : Word} (outside : image.Outside address) :
    image.OffRecords address :=
  fun target inside => (outside target inside).1

/-- The word at 3 MiB lies behind all data of the sample layout. -/
theorem sample_outside : sample.Outside 0x300000 := by
  intro target inside
  rw [inRange_iff (by decide)] at inside
  have low : 0x300000 ≤ target.toNat := inside.1
  refine ⟨fun slot member hit => ?_, fun name hit => ?_, fun offset ends same => ?_⟩
  · obtain ⟨index, bound, here⟩ := (mem_slots_iff slot).mp member
    rcases here with rfl | rfl
    · have place : (sample.createSlot index).toNat = 0x10B000 + processSize * index :=
        createSlot_toNat bound
      simp only [processSize] at place hit
      rw [inRange_iff (by omega)] at hit
      omega
    · have place : (sample.testSlot index).toNat = 0x10C000 + processSize * index :=
        testSlot_toNat bound
      simp only [processSize] at place hit
      rw [inRange_iff (by omega)] at hit
      omega
  · have below : (sample.variableAt name).toNat + name.size ≤ 0x10B000 := by
      cases name <;> decide
    rw [inRange_iff (by omega)] at hit
    omega
  · have bound := ends.1
    have place := congrArg BitVec.toNat same
    rw [BitVec.toNat_ofNat] at place
    have start : sample.staticStacks = 0x10D000 := rfl
    simp only [stackSizeDefault] at bound
    omega

end Image

/-- The variables that no scheduling step assigns to. -/
structure Registry where
  processTable : Nat → Word
  nextPid : Word
  kernelProcess : Word
  createCount : Nat
  testCount : Nat
  heapCurrent : Word
  memory : Memory

/-- The variables of the process manager, the allocator, and memory. -/
structure Kernel where
  processTable : Nat → Word
  nextPid : Word
  readyQueueHead : Word
  readyQueueTail : Word
  currentProcess : Word
  kernelProcess : Word
  /-- `process_count` of `process_create`. -/
  createCount : Nat
  /-- `process_count` of `process_create_test`. -/
  testCount : Nat
  process : Word → Process
  heapCurrent : Word
  memory : Memory

namespace Kernel

/-- Assign to fields of the record at an address. -/
def modify (s : Kernel) (target : Word) (change : Process → Process) : Kernel :=
  { s with process := Function.update s.process target (change (s.process target)) }

@[simp] theorem modify_self (s : Kernel) (target : Word) (change : Process → Process) :
    (s.modify target change).process target = change (s.process target) := by
  simp [modify]

@[simp] theorem modify_other (s : Kernel) {target other : Word} (change : Process → Process)
    (different : other ≠ target) : (s.modify target change).process other = s.process other := by
  simp [modify, different]

theorem modify_modify (s : Kernel) (target : Word) (first second : Process → Process) :
    (s.modify target first).modify target second = s.modify target (second ∘ first) := by
  simp [modify]

/-- The link fields of all records with the two ends of the ready queue. -/
def links (s : Kernel) : Links Word where
  next target := (s.process target).next
  prev target := (s.process target).prev
  head := s.readyQueueHead
  tail := s.readyQueueTail

theorem modify_links_update (s : Kernel) (target : Word) (change : Process → Process) :
    (s.modify target change).links =
      { s.links with
        next := Function.update s.links.next target (change (s.process target)).next
        prev := Function.update s.links.prev target (change (s.process target)).prev } := by
  simp only [links, Links.mk.injEq]
  refine ⟨funext fun other => ?_, funext fun other => ?_, rfl, rfl⟩ <;>
    by_cases same : other = target <;> simp [same]

/-- An assignment that keeps the link fields of its record keeps all links. -/
theorem modify_links (s : Kernel) (target : Word) {change : Process → Process}
    (next : (change (s.process target)).next = (s.process target).next)
    (prev : (change (s.process target)).prev = (s.process target).prev) :
    (s.modify target change).links = s.links := by
  rw [modify_links_update, next, prev]
  simp [links]

/-- The state fields of all records. -/
def states (s : Kernel) (target : Word) : ProcessState := (s.process target).state

/-- What a record says about its owner, in all records. -/
def identity (s : Kernel) (target : Word) : Process.Identity := (s.process target).identity

/-- The variables other than the records, the queue ends and the current process. -/
def registry (s : Kernel) : Registry where
  processTable := s.processTable
  nextPid := s.nextPid
  kernelProcess := s.kernelProcess
  createCount := s.createCount
  testCount := s.testCount
  heapCurrent := s.heapCurrent
  memory := s.memory

@[simp] theorem modify_registry (s : Kernel) (target : Word) (change : Process → Process) :
    (s.modify target change).registry = s.registry := rfl

@[simp] theorem modify_currentProcess (s : Kernel) (target : Word) (change : Process → Process) :
    (s.modify target change).currentProcess = s.currentProcess := rfl

theorem modify_states (s : Kernel) (target : Word) (change : Process → Process) :
    (s.modify target change).states =
      Function.update s.states target (change (s.process target)).state := by
  funext other
  by_cases same : other = target
  · subst same
    simp [states]
  · simp [states, same]

theorem modify_identity (s : Kernel) (target : Word) (change : Process → Process) :
    (s.modify target change).identity =
      Function.update s.identity target (change (s.process target)).identity := by
  funext other
  by_cases same : other = target
  · subst same
    simp [identity]
  · simp [identity, same]

/-- `target->state = state`. -/
def setState (s : Kernel) (target : Word) (state : ProcessState) : Kernel :=
  s.modify target fun record => { record with state := state }

/-- `target->exit_code = value`. -/
def setExitCode (s : Kernel) (target value : Word) : Kernel :=
  s.modify target fun record => { record with exitCode := value }

/-- `current_process = value`. -/
def setCurrent (s : Kernel) (value : Word) : Kernel :=
  { s with currentProcess := value }

/-- `process_table[index] = value`. -/
def setTable (s : Kernel) (index : Nat) (value : Word) : Kernel :=
  { s with processTable := Function.update s.processTable index value }

/-- An assignment to fields outside the links, the state and the identity. -/
def Silent (change : Process → Process) : Prop :=
  ∀ record, (change record).state = record.state ∧
    (change record).identity = record.identity ∧
    (change record).next = record.next ∧ (change record).prev = record.prev

section SilentChange

variable (s : Kernel) (target : Word) {change : Process → Process} (silent : Silent change)

include silent

theorem modify_states_silent : (s.modify target change).states = s.states := by
  rw [modify_states, (silent _).1]
  exact Function.update_eq_self target s.states

theorem modify_identity_silent : (s.modify target change).identity = s.identity := by
  rw [modify_identity, (silent _).2.1]
  exact Function.update_eq_self target s.identity

theorem modify_links_silent : (s.modify target change).links = s.links :=
  s.modify_links target (silent _).2.2.1 (silent _).2.2.2

end SilentChange

section ComponentFields

variable (s : Kernel)

@[simp] theorem setState_states (target : Word) (state : ProcessState) :
    (s.setState target state).states = Function.update s.states target state :=
  s.modify_states target _

@[simp] theorem setState_identity (target : Word) (state : ProcessState) :
    (s.setState target state).identity = s.identity := by
  rw [setState, modify_identity]
  exact Function.update_eq_self target s.identity

@[simp] theorem setState_links (target : Word) (state : ProcessState) :
    (s.setState target state).links = s.links :=
  s.modify_links target rfl rfl

@[simp] theorem setState_registry (target : Word) (state : ProcessState) :
    (s.setState target state).registry = s.registry := rfl
@[simp] theorem setState_currentProcess (target : Word) (state : ProcessState) :
    (s.setState target state).currentProcess = s.currentProcess := rfl

@[simp] theorem setExitCode_states (target value : Word) :
    (s.setExitCode target value).states = s.states :=
  s.modify_states_silent target fun _ => ⟨rfl, rfl, rfl, rfl⟩

@[simp] theorem setExitCode_identity (target value : Word) :
    (s.setExitCode target value).identity = s.identity :=
  s.modify_identity_silent target fun _ => ⟨rfl, rfl, rfl, rfl⟩

@[simp] theorem setExitCode_links (target value : Word) :
    (s.setExitCode target value).links = s.links :=
  s.modify_links_silent target fun _ => ⟨rfl, rfl, rfl, rfl⟩

@[simp] theorem setExitCode_registry (target value : Word) :
    (s.setExitCode target value).registry = s.registry := rfl
@[simp] theorem setExitCode_currentProcess (target value : Word) :
    (s.setExitCode target value).currentProcess = s.currentProcess := rfl

@[simp] theorem setCurrent_states (value : Word) : (s.setCurrent value).states = s.states := rfl
@[simp] theorem setCurrent_identity (value : Word) :
    (s.setCurrent value).identity = s.identity := rfl
@[simp] theorem setCurrent_links (value : Word) : (s.setCurrent value).links = s.links := rfl
@[simp] theorem setCurrent_registry (value : Word) :
    (s.setCurrent value).registry = s.registry := rfl
@[simp] theorem setCurrent_currentProcess (value : Word) :
    (s.setCurrent value).currentProcess = value := rfl

@[simp] theorem setTable_states (index : Nat) (value : Word) :
    (s.setTable index value).states = s.states := rfl
@[simp] theorem setTable_identity (index : Nat) (value : Word) :
    (s.setTable index value).identity = s.identity := rfl
@[simp] theorem setTable_links (index : Nat) (value : Word) :
    (s.setTable index value).links = s.links := rfl
@[simp] theorem setTable_registry (index : Nat) (value : Word) :
    (s.setTable index value).registry =
      { s.registry with processTable := Function.update s.processTable index value } := rfl
@[simp] theorem setTable_currentProcess (index : Nat) (value : Word) :
    (s.setTable index value).currentProcess = s.currentProcess := rfl

end ComponentFields

/-- A process pointer sits in the ready queue. -/
def Queued (s : Kernel) (target : Word) : Prop := s.links.Queued null target

/-! ## Memory with the records in it -/

/-- The record an address belongs to, if any. -/
def slotAt? (image : Image) (address : Word) : Option Word :=
  image.slots.find? fun slot => decide (InRange slot processSize address)

/-- The byte at an address. -/
def read (image : Image) (s : Kernel) : Memory := fun address =>
  match slotAt? image address with
  | some slot => (s.process slot).byte (address - slot).toNat
  | none => s.memory address

/-- Whether a patch overwrites a byte of the record at `slot`. -/
def touches (patch : Patch) (slot : Word) : Bool :=
  (List.range processSize).any fun offset => (patch (slot + BitVec.ofNat 32 offset)).isSome

/-- Overwrite bytes of memory; records the patch runs over are read back from their bytes. -/
def overwrite (image : Image) (s : Kernel) (patch : Patch) : Kernel :=
  { s with
    memory := patched s.memory patch
    process := fun target =>
      if target ∈ image.slots ∧ touches patch target then
        Process.ofMemory fun offset =>
          (patch (target + BitVec.ofNat 32 offset)).getD ((s.process target).byte offset)
      else s.process target }

@[simp] theorem touches_noPatch (slot : Word) : touches noPatch slot = false := by
  simp [touches, noPatch]

@[simp] theorem overwrite_noPatch (image : Image) (s : Kernel) :
    s.overwrite image noPatch = s := by
  simp [overwrite]

theorem overwrite_of_untouched (image : Image) (s : Kernel) {patch : Patch}
    (untouched : ∀ slot ∈ image.slots, touches patch slot = false) :
    s.overwrite image patch = { s with memory := patched s.memory patch } := by
  have records : (fun target =>
      if target ∈ image.slots ∧ touches patch target then
        Process.ofMemory fun offset =>
          (patch (target + BitVec.ofNat 32 offset)).getD ((s.process target).byte offset)
      else s.process target) = s.process := by
    funext target
    refine if_neg ?_
    rintro ⟨member, touched⟩
    rw [untouched target member] at touched
    cases touched
  rw [overwrite, records]

/-- A word outside the records is written to memory alone. -/
theorem overwrite_offRecords (image : Image) (s : Kernel) {address : Word}
    (outside : image.OffRecords address) (value : Word) :
    s.overwrite image (wordPatch address value) =
      { s with memory := store s.memory address value } := by
  rw [← patched_wordPatch]
  refine s.overwrite_of_untouched image fun slot member => ?_
  rw [touches, List.any_eq_false]
  intro offset bound
  have inside : InRange slot processSize (slot + BitVec.ofNat 32 offset) :=
    inRange_offset (List.mem_range.mp bound) (by decide)
  have missed : ¬ InRange address 4 (slot + BitVec.ofNat 32 offset) := fun hit =>
    outside _ hit slot member inside
  simp [wordPatch, missed]

/-- A word off the records is read from memory. -/
theorem read_offRecords {image : Image} {s : Kernel} {address : Word}
    (offRecords : image.OffRecords address) :
    load (s.read image) address = load s.memory address := by
  refine load_congr fun target inside => ?_
  have none : slotAt? image target = none := by
    refine List.find?_eq_none.mpr fun slot member => ?_
    simpa using offRecords target inside slot member
  rw [read, none]

/-- A word of a record after a patch is the patched word. -/
private theorem patched_recordWord (patch : Patch) (slot : Word) (record : Process) (index : Nat) :
    (ofBytes fun byte => (patch (slot + BitVec.ofNat 32 (4 * index + byte))).getD
      (record.byte (4 * index + byte))) =
      patchedWord patch (slot + BitVec.ofNat 32 (4 * index)) (record.words.getD index 0) := by
  refine ofBytes_congr fun byte bound => ?_
  rw [Process.byte, show (4 * index + byte) / 4 = index by omega,
    show (4 * index + byte) % 4 = byte by omega, BitVec.ofNat_add, BitVec.add_assoc]

private theorem untouched_recordWord {patch : Patch} {slot : Word}
    (untouched : ¬ touches patch slot = true) {index : Nat} (bound : index < 67) (word : Word) :
    patchedWord patch (slot + BitVec.ofNat 32 (4 * index)) word = word := by
  refine patchedWord_of_untouched word fun byte byteBound => ?_
  by_contra written
  refine untouched (List.any_eq_true.mpr ⟨4 * index + byte, ?_, ?_⟩)
  · rw [List.mem_range, processSize]
    omega
  · rw [BitVec.ofNat_add, ← BitVec.add_assoc]
    exact Option.isSome_iff_ne_none.mpr written

section OverwrittenLinks

variable (image : Image) (s : Kernel) (patch : Patch) {slot : Word} (member : slot ∈ image.slots)

include member

/-- A word of a record is overwritten like any other word. -/
theorem overwrite_field (field : Process → Word) (index : Nat) (bound : index < 67)
    (reads : ∀ bytes, field (Process.ofMemory bytes) =
      ofBytes fun byte => bytes (4 * index + byte))
    (word : ∀ record, record.words.getD index 0 = field record) :
    field ((s.overwrite image patch).process slot) =
      patchedWord patch (slot + BitVec.ofNat 32 (4 * index)) (field (s.process slot)) := by
  by_cases touched : touches patch slot = true
  · have read : (s.overwrite image patch).process slot = _ := if_pos ⟨member, touched⟩
    rw [read, reads, ← word (s.process slot)]
    exact patched_recordWord patch slot (s.process slot) index
  · have read : (s.overwrite image patch).process slot = s.process slot :=
      if_neg fun both => touched both.2
    rw [read]
    exact (untouched_recordWord touched bound _).symm

theorem overwrite_next :
    (s.overwrite image patch).links.next slot =
      patchedWord patch (slot + BitVec.ofNat 32 260) (s.links.next slot) := by
  have reads : ∀ bytes, Process.next (Process.ofMemory bytes) =
      ofBytes fun byte => bytes (4 * 65 + byte) := fun _ => rfl
  have word : ∀ record : Process, record.words.getD 65 0 = record.next := fun _ => rfl
  exact overwrite_field image s patch member Process.next 65 (by decide) reads word

theorem overwrite_prev :
    (s.overwrite image patch).links.prev slot =
      patchedWord patch (slot + BitVec.ofNat 32 264) (s.links.prev slot) := by
  have reads : ∀ bytes, Process.prev (Process.ofMemory bytes) =
      ofBytes fun byte => bytes (4 * 66 + byte) := fun _ => rfl
  have word : ∀ record : Process, record.words.getD 66 0 = record.prev := fun _ => rfl
  exact overwrite_field image s patch member Process.prev 66 (by decide) reads word

end OverwrittenLinks

/-- Such a word is written without changing a record or the end of a stack. -/
theorem overwrite_outside (image : Image) (s : Kernel) {address : Word}
    (outside : image.Outside address) (value : Word) :
    ∃ memory, s.overwrite image (wordPatch address value) = { s with memory := memory } ∧
      ∀ offset, Image.EndsStack offset →
        memory (BitVec.ofNat 32 (image.staticStacks + offset)) =
          s.memory (BitVec.ofNat 32 (image.staticStacks + offset)) := by
  refine ⟨_, s.overwrite_offRecords image outside.offRecords value, fun offset ends => ?_⟩
  have missed : ¬ InRange address 4 (BitVec.ofNat 32 (image.staticStacks + offset)) := fun hit =>
    (outside _ hit).2.2 offset ends rfl
  rw [← patched_wordPatch]
  simp [patched, wordPatch, missed]

/-- Static stack memory is read as plain memory. -/
theorem read_stack (image : Image) (s : Kernel) {offset : Nat}
    (bound : offset < 10 * stackSizeDefault) :
    s.read image (BitVec.ofNat 32 (image.staticStacks + offset)) =
      s.memory (BitVec.ofNat 32 (image.staticStacks + offset)) := by
  have none : slotAt? image (BitVec.ofNat 32 (image.staticStacks + offset)) = none := by
    refine List.find?_eq_none.mpr fun slot member => ?_
    simpa using Image.not_inRange_slot_of_stack member bound
  rw [read, none]

end Kernel

end SimpleOS
