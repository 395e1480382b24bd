import SimpleOS.Invariant.Effects
import SimpleOS.Kernel.Ledger

/-!
# The invariant of creation and tear-down

What no creation or tear-down can break, as long as no record is destroyed and
the heap blocks hold no record and no static stack: a living process is a
created record with its pid and its own stack, the table leads to living
processes only, each at its pid, and the block headers and the static stacks
are as they were written.
-/

namespace SimpleOS

open Library.ByteMemory Library.LinkedChain

/-- The number of a record in its array. -/
def Slot.index : Slot → Nat
  | create index => index
  | test index => index

theorem Slot.index_lt (slot : Slot) : slot.index < 10 := by
  cases slot with
  | create index => exact index.isLt
  | test index => exact index.isLt

namespace Image

variable {image : Image}

/-- The stack a creation gives to a record. -/
def stackOf (image : Image) : Slot → Word
  | .create index => heapStack index
  | .test index => image.testStack index

/-- The identity a creation gives to a record. -/
def wholeIdentity (image : Image) (slot : Slot) (parentPid : Word) : Process.Identity where
  pid := BitVec.ofNat 32 (slot.index + 1)
  parentPid := parentPid
  stackBase := image.stackOf slot
  stackSize := 4096
  heapBase := 0

/-- Where the array of a record starts. -/
def arrayBase (image : Image) : Slot → Nat
  | .create _ => image.createProcesses
  | .test _ => image.testProcesses

theorem address_toNat (slot : Slot) :
    (image.address slot).toNat = image.arrayBase slot + processSize * slot.index := by
  cases slot with
  | create index => exact createSlot_toNat index.isLt
  | test index => exact testSlot_toNat index.isLt

theorem address_range (slot : Slot) {address : Word} :
    InRange (image.address slot) processSize address ↔
      image.arrayBase slot + processSize * slot.index ≤ address.toNat ∧
        address.toNat < image.arrayBase slot + processSize * (slot.index + 1) := by
  have bound := slot.index_lt
  have place := image.address_toNat slot
  have room : image.arrayBase slot + 10 * processSize ≤ 2 ^ 32 := by
    cases slot with
    | create index => exact image.create_end
    | test index => exact image.test_end
  simp only [processSize] at *
  rw [inRange_iff (by omega), place]
  omega

/-- Two records share no byte. -/
theorem address_unique {first second : Slot} {address : Word}
    (inFirst : InRange (image.address first) processSize address)
    (inSecond : InRange (image.address second) processSize address) : first = second := by
  have disjoint := image.create_test
  obtain ⟨firstLow, firstHigh⟩ := (address_range first).mp inFirst
  obtain ⟨secondLow, secondHigh⟩ := (address_range second).mp inSecond
  have firstBound := first.index_lt
  have secondBound := second.index_lt
  cases first with
  | create index =>
      cases second with
      | create other =>
          simp only [arrayBase, Slot.index, processSize] at *
          exact congrArg Slot.create (Fin.ext (by omega))
      | test other =>
          simp only [arrayBase, Slot.index, processSize] at *
          omega
  | test index =>
      cases second with
      | create other =>
          simp only [arrayBase, Slot.index, processSize] at *
          omega
      | test other =>
          simp only [arrayBase, Slot.index, processSize] at *
          exact congrArg Slot.test (Fin.ext (by omega))

theorem address_inj {first second : Slot} (same : image.address first = image.address second) :
    first = second := by
  have inside : InRange (image.address first) processSize (image.address first) := by
    rw [InRange, BitVec.sub_self]
    decide
  exact address_unique inside (same ▸ inside)

theorem address_ne_null (slot : Slot) : image.address slot ≠ null := by
  intro isNull
  have value := image.address_toNat slot
  rw [isNull] at value
  have positive : 0 < image.arrayBase slot := by
    cases slot with
    | create index => exact image.create_pos
    | test index => exact image.test_pos
  simp only [null, BitVec.ofNat_eq_ofNat, BitVec.toNat_ofNat, Nat.zero_mod] at value
  omega

theorem address_mem_slots (slot : Slot) : image.address slot ∈ image.slots := by
  cases slot with
  | create index => exact (mem_slots_iff _).mpr ⟨index, index.isLt, Or.inl rfl⟩
  | test index => exact (mem_slots_iff _).mpr ⟨index, index.isLt, Or.inr rfl⟩

theorem wholeIdentity_pid (slot : Slot) (parentPid : Word) :
    (image.wholeIdentity slot parentPid).pid.toNat = slot.index + 1 := by
  have bound := slot.index_lt
  rw [wholeIdentity, BitVec.toNat_ofNat]
  exact Nat.mod_eq_of_lt (by omega)

/-- A static stack as a range of the stack array. -/
theorem testStack_range (index : Fin 10) {address : Word} :
    InRange (image.testStack index) 4096 address ↔
      image.staticStacks + stackSizeDefault * index ≤ address.toNat ∧
        address.toNat < image.staticStacks + stackSizeDefault * (index + 1) := by
  have room := image.stacks_end
  have bound := index.isLt
  have place : (image.testStack index).toNat = image.staticStacks + stackSizeDefault * index :=
    testStack_toNat index.isLt
  simp only [stackSizeDefault] at *
  rw [inRange_iff (by omega), place]
  omega

/-- No other stack shares a byte with a heap stack. -/
theorem not_inRange_heapStack (apart : image.HeapApart) {index : Fin 10} {other : Slot}
    (different : other ≠ .create index) {address : Word}
    (inside : InRange (image.stackOf other) 4096 address) :
    ¬ InRange (heapStack index) 4096 address := by
  intro hit
  have start := heapStart_toNat
  have bound := index.isLt
  have place := (heapStack_range bound).mp hit
  cases other with
  | create second =>
      have otherPlace := (heapStack_range second.isLt).mp inside
      exact different (congrArg Slot.create (Fin.ext (by omega)))
  | test second =>
      have secondBound := second.isLt
      have otherPlace := (testStack_range second).mp inside
      obtain ⟨_, _, stacksApart⟩ := apart
      simp only [stackSizeDefault] at otherPlace stacksApart
      omega

/-- No two stacks share a byte. -/
theorem stackOf_apart (apart : image.HeapApart) {first second : Slot} (different : first ≠ second) :
    Apart (image.stackOf first) 4096 (image.stackOf second) 4096 := by
  intro address inFirst inSecond
  cases second with
  | create index => exact not_inRange_heapStack apart different inFirst inSecond
  | test index =>
      cases first with
      | create other => exact not_inRange_heapStack apart (Ne.symm different) inSecond inFirst
      | test other =>
          have firstPlace := (testStack_range other).mp inFirst
          have secondPlace := (testStack_range index).mp inSecond
          simp only [stackSizeDefault] at firstPlace secondPlace
          exact different (congrArg Slot.test (Fin.ext (by omega)))

/-- A stack does not wrap around the end of memory. -/
theorem stackOf_end (slot : Slot) : (image.stackOf slot).toNat + 4096 ≤ 2 ^ 32 := by
  have bound := slot.index_lt
  cases slot with
  | create index =>
      have start := heapStart_toNat
      have place := heapStack_toNat index.isLt
      simp only [stackOf, Slot.index] at bound ⊢
      omega
  | test index =>
      have place : (image.testStack index).toNat = _ := testStack_toNat index.isLt
      have room := image.stacks_end
      simp only [stackOf, Slot.index, stackSizeDefault] at *
      omega

end Image

namespace Kernel

/-- The record has been handed out by its creation routine. -/
def Created (s : Kernel) : Slot → Prop
  | .create index => index < s.createCount
  | .test index => index < s.testCount

/-- The record was created and still has its pid, its stack and no heap. -/
def Whole (image : Image) (s : Kernel) (slot : Slot) : Prop :=
  s.Created slot ∧
    ∃ parentPid, s.identity (image.address slot) = image.wholeIdentity slot parentPid

/-- The invariant, over a kernel state and the processes that live in it. -/
structure Population (image : Image) (s : Kernel) (live : List Word) : Prop where
  createCount : s.createCount ≤ 10
  testCount : 0 < s.testCount ∧ s.testCount ≤ 10
  current : s.currentProcess = image.testSlot 0
  root : s.kernelProcess = image.testSlot 0
  heap : s.heapCurrent = heapMark s.createCount
  members : ∀ process ∈ live, ∃ slot, process = image.address slot ∧ s.Whole image slot
  entries : ∀ entry, s.processTable entry ≠ null → s.processTable entry ∈ live ∧
    (s.identity (s.processTable entry)).pid.toNat = entry
  alive : ∀ process ∈ live, s.states process ≠ .terminated
  small : ∀ slot, (s.identity (image.address slot)).pid.toNat < maxProcesses
  loaded : s.StacksLoaded image
  headers : HeadersIntact s.memory s.createCount

/-- The part of it that does not look at the states of the processes. -/
structure Lodged (image : Image) (s : Kernel) (live : List Word) : Prop where
  createCount : s.createCount ≤ 10
  testCount : 0 < s.testCount ∧ s.testCount ≤ 10
  current : s.currentProcess = image.testSlot 0
  root : s.kernelProcess = image.testSlot 0
  heap : s.heapCurrent = heapMark s.createCount
  members : ∀ process ∈ live, ∃ slot, process = image.address slot ∧ s.Whole image slot
  entries : ∀ entry, s.processTable entry ≠ null → s.processTable entry ∈ live ∧
    (s.identity (s.processTable entry)).pid.toNat = entry
  small : ∀ slot, (s.identity (image.address slot)).pid.toNat < maxProcesses
  loaded : s.StacksLoaded image
  headers : HeadersIntact s.memory s.createCount

variable {image : Image} {s t : Kernel} {live : List Word}

theorem Lodged.population (lodged : s.Lodged image live)
    (alive : ∀ process ∈ live, s.states process ≠ .terminated) : s.Population image live where
  createCount := lodged.createCount
  testCount := lodged.testCount
  current := lodged.current
  root := lodged.root
  heap := lodged.heap
  members := lodged.members
  entries := lodged.entries
  alive := alive
  small := lodged.small
  loaded := lodged.loaded
  headers := lodged.headers

namespace Lodged

/-! ## A process begins or ends -/

theorem not_mem_null (lodged : s.Lodged image live) : null ∉ live := by
  intro member
  obtain ⟨slot, same, _⟩ := lodged.members null member
  exact Image.address_ne_null slot same.symm

/-- A record that has not been handed out belongs to nobody. -/
theorem ne_fresh (lodged : s.Lodged image live) {slot : Slot} (fresh : ¬ s.Created slot) :
    ∀ process ∈ live, process ≠ image.address slot := by
  rintro process member rfl
  obtain ⟨other, same, created, _⟩ := lodged.members _ member
  exact fresh (Image.address_inj same ▸ created)

/-- A fresh record with its pid and its stack joins the living. -/
theorem enrol (lodged : s.Lodged image live) {slot : Slot} (fresh : ¬ s.Created slot)
    (joins : ∀ other, t.Created other ↔ s.Created other ∨ other = slot) {parentPid : Word}
    (identity : t.identity =
      Function.update s.identity (image.address slot) (image.wholeIdentity slot parentPid))
    (table : t.processTable =
      Function.update s.processTable (slot.index + 1) (image.address slot))
    (createCount : t.createCount ≤ 10) (testCount : 0 < t.testCount ∧ t.testCount ≤ 10)
    (current : t.currentProcess = s.currentProcess) (root : t.kernelProcess = s.kernelProcess)
    (heap : t.heapCurrent = heapMark t.createCount) (loaded : t.StacksLoaded image)
    (headers : HeadersIntact t.memory t.createCount) :
    t.Lodged image (image.address slot :: live) := by
  have apart : ∀ process ∈ live, process ≠ image.address slot := lodged.ne_fresh fresh
  have pid := image.wholeIdentity_pid slot parentPid
  refine
    { createCount := createCount
      testCount := testCount
      current := current.trans lodged.current
      root := root.trans lodged.root
      heap := heap
      members := fun process member => ?_
      entries := fun entry filled => ?_
      small := fun other => ?_
      loaded := loaded
      headers := headers }
  · rcases List.mem_cons.mp member with rfl | older
    · refine ⟨slot, rfl, (joins slot).mpr (Or.inr rfl), parentPid, ?_⟩
      rw [identity, Function.update_self]
    · obtain ⟨other, same, created, itsParent, whole⟩ := lodged.members process older
      have different := same ▸ apart process older
      refine ⟨other, same, (joins other).mpr (Or.inl created), itsParent, ?_⟩
      rw [identity, Function.update_of_ne different]
      exact whole
  · rw [table] at filled ⊢
    by_cases here : entry = slot.index + 1
    · rw [here, Function.update_self, identity, Function.update_self]
      exact ⟨List.mem_cons_self, pid⟩
    · rw [Function.update_of_ne here] at filled ⊢
      obtain ⟨member, itsPid⟩ := lodged.entries entry filled
      rw [identity, Function.update_of_ne (apart _ member)]
      exact ⟨List.mem_cons_of_mem _ member, itsPid⟩
  · rw [identity]
    by_cases same : image.address other = image.address slot
    · rw [same, Function.update_self, pid, maxProcesses]
      have bound := slot.index_lt
      omega
    · rw [Function.update_of_ne same]
      exact lodged.small other

/-- A record leaves the living and the table entry of its pid. -/
theorem retire (lodged : s.Lodged image live) {slot : Slot} {left : Process.Identity}
    (leftSmall : left.pid.toNat < maxProcesses)
    (identity : t.identity = Function.update s.identity (image.address slot) left)
    (table : t.processTable =
      Function.update s.processTable (s.identity (image.address slot)).pid.toNat null)
    (createCount : t.createCount = s.createCount) (testCount : t.testCount = s.testCount)
    (current : t.currentProcess = s.currentProcess) (root : t.kernelProcess = s.kernelProcess)
    (heap : t.heapCurrent = s.heapCurrent) (loaded : t.StacksLoaded image)
    (headers : HeadersIntact t.memory t.createCount) :
    t.Lodged image (live.filter (· ≠ image.address slot)) := by
  have created (other : Slot) (was : s.Created other) : t.Created other := by
    cases other with
    | create index => exact Nat.lt_of_lt_of_eq was createCount.symm
    | test index => exact Nat.lt_of_lt_of_eq was testCount.symm
  refine
    { createCount := createCount.symm ▸ lodged.createCount
      testCount := testCount.symm ▸ lodged.testCount
      current := current.trans lodged.current
      root := root.trans lodged.root
      heap := by rw [heap, createCount, lodged.heap]
      members := fun process member => ?_
      entries := fun entry filled => ?_
      small := fun other => ?_
      loaded := loaded
      headers := headers }
  · obtain ⟨older, different⟩ := Ledger.mem_filter_ne.mp member
    obtain ⟨other, same, was, itsParent, whole⟩ := lodged.members process older
    refine ⟨other, same, created other was, itsParent, ?_⟩
    rw [identity, Function.update_of_ne (same ▸ different)]
    exact whole
  · rw [table] at filled ⊢
    by_cases here : entry = (s.identity (image.address slot)).pid.toNat
    · rw [here, Function.update_self] at filled
      exact absurd rfl filled
    · rw [Function.update_of_ne here] at filled ⊢
      obtain ⟨member, itsPid⟩ := lodged.entries entry filled
      have different : s.processTable entry ≠ image.address slot := fun same =>
        here (same ▸ itsPid).symm
      rw [identity, Function.update_of_ne different]
      exact ⟨Ledger.mem_filter_ne.mpr ⟨member, different⟩, itsPid⟩
  · rw [identity]
    by_cases same : image.address other = image.address slot
    · rw [same, Function.update_self]
      exact leftSmall
    · rw [Function.update_of_ne same]
      exact lodged.small other

/-! ## The operations -/

theorem current_ne_null (lodged : s.Lodged image live) : s.currentProcess ≠ null := by
  rw [lodged.current]
  exact Image.testSlot_ne_null (by decide)

/-- `process_create` has a record and a block as long as ten are not used up. -/
theorem processCreate_eq (lodged : s.Lodged image live) (apart : image.HeapApart)
    (free : s.createCount < 10) (name : CString) (entryPoint : Word) (priority : ProcessPriority) :
    s.processCreate image (some name) entryPoint priority =
      (image.createSlot s.createCount,
        { (s.modify (image.createSlot s.createCount)
              (s.createdHere name entryPoint priority)).setTable (s.createCount + 1)
                (image.createSlot s.createCount) with
          createCount := s.createCount + 1
          heapCurrent := heapMark (s.createCount + 1)
          memory := patched s.memory (stackPatch (heapMark s.createCount)) }) := by
  have start := heapStart_toNat
  have mark := heapMark_toNat (Nat.le_of_lt free)
  have bound := heapEnd_toNat
  have nonnull : s.heapCurrent + 4 ≠ null := lodged.heap ▸ heapStack_ne_null free
  rw [processCreate_room image s free (by rw [lodged.heap]; omega) nonnull,
    apart.stackAllocated_eq s free lodged.heap]
  simp only [modify, setTable]

theorem processCreate_identity (lodged : s.Lodged image live) (apart : image.HeapApart)
    (free : s.createCount < 10) (name : CString) (entryPoint : Word) (priority : ProcessPriority) :
    (s.processCreate image (some name) entryPoint priority).2.identity =
      Function.update s.identity (image.createSlot s.createCount)
        (image.wholeIdentity (.create ⟨s.createCount, free⟩) 0) := by
  have given : (s.createdHere name entryPoint priority
      (s.process (image.createSlot s.createCount))).identity =
        image.wholeIdentity (.create ⟨s.createCount, free⟩) 0 := by
    simp only [createdHere, Process.fillCreate, Process.initialise, Process.identity,
      lodged.heap]
    rfl
  rw [lodged.processCreate_eq apart free, ← given]
  exact s.modify_identity (image.createSlot s.createCount) (s.createdHere name entryPoint priority)

theorem processCreate_processTable (lodged : s.Lodged image live)
    (apart : image.HeapApart) (free : s.createCount < 10) (name : CString) (entryPoint : Word)
    (priority : ProcessPriority) :
    (s.processCreate image (some name) entryPoint priority).2.processTable =
      Function.update s.processTable (s.createCount + 1) (image.createSlot s.createCount) := by
  rw [lodged.processCreate_eq apart free]
  rfl

theorem processCreate_states (lodged : s.Lodged image live) (apart : image.HeapApart)
    (free : s.createCount < 10) (name : CString) (entryPoint : Word) (priority : ProcessPriority) :
    (s.processCreate image (some name) entryPoint priority).2.states =
      Function.update s.states (image.createSlot s.createCount) .ready := by
  rw [lodged.processCreate_eq apart free]
  exact s.modify_states (image.createSlot s.createCount) (s.createdHere name entryPoint priority)

theorem processCreate (lodged : s.Lodged image live) (apart : image.HeapApart)
    (free : s.createCount < 10) (name : CString) (entryPoint : Word) (priority : ProcessPriority) :
    (s.processCreate image (some name) entryPoint priority).2.Lodged image
      (image.createSlot s.createCount :: live) := by
  have start := heapStart_toNat
  have confined : ∀ target, stackPatch (heapMark s.createCount) target ≠ none → InHeap target := by
    intro target written
    have place := stackPatch_inHeap free written
    exact ⟨by omega, by omega⟩
  have identity := lodged.processCreate_identity apart free name entryPoint priority
  have table := lodged.processCreate_processTable apart free name entryPoint priority
  rw [lodged.processCreate_eq apart free] at identity table ⊢
  have loaded := apart.stacksLoaded lodged.loaded confined
  refine lodged.enrol
    (show ¬ s.Created (.create ⟨s.createCount, free⟩) from Nat.lt_irrefl _) ?_
    identity table (Nat.succ_le_of_lt free) lodged.testCount rfl rfl rfl loaded
    (lodged.headers.allocate free)
  intro other
  cases other with
  | create index =>
      change (index : Nat) < s.createCount + 1 ↔ (index : Nat) < s.createCount ∨ _
      rw [Slot.create.injEq, Fin.ext_iff]
      exact Nat.lt_succ_iff_lt_or_eq
  | test index => exact (or_iff_left (by simp)).symm

/-- Both creations from the other array, in terms of what they change. -/
theorem enrolTest (lodged : s.Lodged image live) (room : s.testCount < 10)
    {parentPid : Word}
    (registry : t.registry =
      { s.registry with
        testCount := s.testCount + 1
        processTable := Function.update s.processTable (s.testCount + 1)
          (image.testSlot s.testCount) })
    (identity : t.identity = Function.update s.identity (image.testSlot s.testCount)
      (image.newIdentity s.testCount parentPid))
    (current : t.currentProcess = s.currentProcess) :
    t.Lodged image (image.testSlot s.testCount :: live) := by
  have testCount : t.testCount = s.testCount + 1 := congrArg Registry.testCount registry
  have createCount : t.createCount = s.createCount := congrArg Registry.createCount registry
  have memory : t.memory = s.memory := congrArg Registry.memory registry
  have heap : t.heapCurrent = s.heapCurrent := congrArg Registry.heapCurrent registry
  refine lodged.enrol (show ¬ s.Created (.test ⟨s.testCount, room⟩) from Nat.lt_irrefl _) ?_
    identity (congrArg Registry.processTable registry)
    (createCount.symm ▸ lodged.createCount) (by omega) current
    (congrArg Registry.kernelProcess registry) (by rw [heap, createCount, lodged.heap]) ?_ ?_
  · intro other
    cases other with
    | create index =>
        change (index : Nat) < t.createCount ↔ (index : Nat) < s.createCount ∨ _
        rw [createCount]
        exact (or_iff_left (by simp)).symm
    | test index =>
        change (index : Nat) < t.testCount ↔ (index : Nat) < s.testCount ∨ _
        rw [testCount, Slot.test.injEq, Fin.ext_iff]
        exact Nat.lt_succ_iff_lt_or_eq
  · intro offset bound
    rw [memory]
    exact lodged.loaded offset bound
  · rw [memory, createCount]
    exact lodged.headers

theorem processCreateTest (lodged : s.Lodged image live) (room : s.testCount < 10)
    (name : Option CString) (entryPoint : Word) (priority : ProcessPriority) :
    (s.processCreateTest image name entryPoint priority).2.Lodged image
      (image.testSlot s.testCount :: live) :=
  lodged.enrolTest room (processCreateTest_registry image s room name entryPoint priority)
    (processCreateTest_identity image s room name entryPoint priority)
    (processCreateTest_currentProcess image s room name entryPoint priority)

theorem current_ne_next (lodged : s.Lodged image live) (room : s.testCount < 10) :
    s.currentProcess ≠ image.testSlot s.testCount := by
  rw [lodged.current]
  intro same
  have positive := lodged.testCount.1
  have := Image.testSlot_inj (by decide) room same
  omega

theorem sysFork (lodged : s.Lodged image live) (room : s.testCount < 10) :
    (s.sysFork image).2.Lodged image (image.testSlot s.testCount :: live) := by
  have nonnull := lodged.current_ne_null
  exact lodged.enrolTest room (sysFork_registry image s nonnull room)
    (sysFork_identity image s nonnull room (lodged.current_ne_next room))
    (sysFork_currentProcess image s nonnull room)

/-- The target of a kill lives, under its own pid, in a record other than the first of its array. -/
theorem killable (lodged : s.Lodged image live) {pid : Word} (killable : s.Killable pid) :
    ∃ slot, s.processFindByPid pid = image.address slot ∧ image.address slot ∈ live ∧
      s.Whole image slot ∧ 0 < slot.index ∧
      (s.identity (image.address slot)).pid.toNat = pid.toNat := by
  have small := s.lt_of_processFindByPid killable.2.1
  have place := s.processFindByPid_of_lt small
  obtain ⟨member, itsPid⟩ := lodged.entries pid.toNat (place ▸ killable.2.1)
  rw [← place] at member itsPid
  obtain ⟨slot, same, whole⟩ := lodged.members _ member
  rw [same] at member itsPid
  refine ⟨slot, same, member, whole, Nat.pos_of_ne_zero fun first => killable.1 ?_, itsPid⟩
  obtain ⟨_, parentPid, identity⟩ := whole
  rw [identity, Image.wholeIdentity_pid, first] at itsPid
  exact BitVec.eq_of_toNat_eq itsPid.symm

/-- Freeing the stack of a record writes at most that stack, and only if it is a heap one. -/
theorem kfree_stack (lodged : s.Lodged image live) (apart : image.HeapApart) {slot : Slot}
    (whole : s.Whole image slot) (positive : 0 < slot.index) :
    ∃ memory, s.kfree image (image.stackOf slot) = { s with memory := memory } ∧
      (∀ target, (∀ index : Fin 10, slot = .create index →
        ¬ InRange (heapStack index) 4096 target) → memory target = s.memory target) ∧
      Kernel.StacksLoaded image { s with memory := memory } ∧
      HeadersIntact memory s.createCount := by
  cases slot with
  | create index =>
      have start := heapStart_toNat
      have header := lodged.headers index whole.1
      have confined : ∀ target, fillPatch (heapStack index) 4096 0xDE target ≠ none →
          InHeap target := by
        intro target written
        have inside : InRange (heapStack index) 4096 target := by
          by_contra outside
          exact written (fillPatch_of_not outside _)
        have place := (heapStack_range index.isLt).mp inside
        have bound := index.isLt
        exact ⟨by omega, by omega⟩
      refine ⟨_, apart.kfree_eq s index.isLt header, fun target outside => ?_,
        apart.stacksLoaded lodged.loaded confined,
        lodged.headers.free lodged.createCount index.isLt⟩
      rw [patched, fillPatch_of_not (outside index rfl)]
      rfl
  | test index =>
      exact ⟨s.memory, s.kfree_testStack image lodged.loaded positive index.isLt,
        fun _ _ => rfl, lodged.loaded, lodged.headers⟩

/-- What a kill does. -/
theorem processKillByPid_whole {pid : Word}
    (killable : s.Killable pid) {slot : Slot} (found : s.processFindByPid pid = image.address slot)
    (whole : s.Whole image slot) {memory : Memory}
    (frees : s.kfree image (image.stackOf slot) = { s with memory := memory }) :
    (s.processKillByPid image pid).2 =
      ((Kernel.dropStack { s with memory := memory } (image.address slot)).setState
        (image.address slot) .terminated).setTable pid.toNat null := by
  obtain ⟨created, parentPid, identity⟩ := whole
  have stack : (s.process (image.address slot)).stackBase = image.stackOf slot :=
    congrArg Process.Identity.stackBase identity
  have heap : (s.process (image.address slot)).heapBase = 0 :=
    congrArg Process.Identity.heapBase identity
  have nonnull : image.stackOf slot ≠ 0 := by
    cases slot with
    | create index => exact heapStack_ne_null index.isLt
    | test index => exact Image.testStack_ne_null index.isLt
  rw [← found] at stack heap
  rw [← found]
  exact s.processKillByPid_killed image pid killable (stack ▸ nonnull) (stack ▸ frees) rfl heap

/-- A kill takes its target out of the table and forgets its stack. -/
theorem processKillByPid_unhooks (lodged : s.Lodged image live) (apart : image.HeapApart)
    {pid : Word} (killable : s.Killable pid) {slot : Slot}
    (found : s.processFindByPid pid = image.address slot) :
    (s.processKillByPid image pid).2.processTable =
        Function.update s.processTable (s.identity (image.address slot)).pid.toNat null ∧
      (s.processKillByPid image pid).2.identity =
        Function.update s.identity (image.address slot)
          { s.identity (image.address slot) with stackBase := 0, stackSize := 0 } := by
  obtain ⟨same, here, _, whole, positive, itsPid⟩ := lodged.killable killable
  obtain rfl : same = slot := Image.address_inj (here.symm.trans found)
  obtain ⟨memory, frees, _⟩ := lodged.kfree_stack apart whole positive
  rw [processKillByPid_whole killable found whole frees, itsPid]
  refine ⟨rfl, ?_⟩
  rw [setTable_identity, setState_identity]
  exact Kernel.dropStack_identity { s with memory := memory } (image.address same)

theorem processKillByPid (lodged : s.Lodged image live) (apart : image.HeapApart)
    {pid : Word} (killable : s.Killable pid) :
    (s.processKillByPid image pid).2.Lodged image
      (live.filter (· ≠ s.processFindByPid pid)) := by
  obtain ⟨slot, found, _, whole, positive, _⟩ := lodged.killable killable
  obtain ⟨memory, frees, _, loaded, headers⟩ := lodged.kfree_stack apart whole positive
  obtain ⟨table, identity⟩ := lodged.processKillByPid_unhooks apart killable found
  rw [processKillByPid_whole killable found whole frees] at table identity ⊢
  rw [found]
  refine lodged.retire ?_ identity table rfl rfl rfl rfl rfl loaded headers
  exact lodged.small slot

theorem processCleanup (lodged : s.Lodged image live) (slot : Slot) :
    (s.processCleanup (image.address slot)).Lodged image
      (live.filter (· ≠ image.address slot)) := by
  have small := lodged.small slot
  have nonnull := image.address_ne_null slot
  have registry := processCleanup_registry s nonnull small
  have memory : (s.processCleanup (image.address slot)).memory = s.memory :=
    congrArg Registry.memory registry
  refine lodged.retire ?_ (processCleanup_identity s nonnull small)
    (congrArg Registry.processTable registry)
    (congrArg Registry.createCount registry) (congrArg Registry.testCount registry)
    (processCleanup_currentProcess s nonnull small) (congrArg Registry.kernelProcess registry)
    (congrArg Registry.heapCurrent registry) ?_ ?_
  · decide
  · intro offset bound
    rw [memory]
    exact lodged.loaded offset bound
  · rw [memory, show (s.processCleanup (image.address slot)).createCount = _ from
      congrArg Registry.createCount registry]
    exact lodged.headers

/-- Operations on other fields keep it. -/
theorem congr (lodged : s.Lodged image live) (registry : t.registry = s.registry)
    (identity : t.identity = s.identity) (current : t.currentProcess = s.currentProcess) :
    t.Lodged image live := by
  have createCount : t.createCount = s.createCount := congrArg Registry.createCount registry
  have testCount : t.testCount = s.testCount := congrArg Registry.testCount registry
  have table : t.processTable = s.processTable := congrArg Registry.processTable registry
  have memory : t.memory = s.memory := congrArg Registry.memory registry
  have created (slot : Slot) (was : s.Created slot) : t.Created slot := by
    cases slot with
    | create index => exact Nat.lt_of_lt_of_eq was createCount.symm
    | test index => exact Nat.lt_of_lt_of_eq was testCount.symm
  refine
    { createCount := createCount ▸ lodged.createCount
      testCount := testCount ▸ lodged.testCount
      current := current.trans lodged.current
      root := (congrArg Registry.kernelProcess registry).trans lodged.root
      heap := ?_
      members := fun process member => ?_
      entries := fun entry filled => ?_
      small := fun slot => identity ▸ lodged.small slot
      loaded := fun offset bound => ?_
      headers := memory ▸ createCount ▸ lodged.headers }
  · rw [createCount]
    exact (congrArg Registry.heapCurrent registry).trans lodged.heap
  · obtain ⟨slot, same, was, whole⟩ := lodged.members process member
    exact ⟨slot, same, created slot was, identity ▸ whole⟩
  · rw [table] at filled ⊢
    rw [identity]
    exact lodged.entries entry filled
  · rw [memory]
    exact lodged.loaded offset bound

end Lodged

/-! ## What an operation does to the living -/

/-- The record a creation takes, if its array has one left. -/
def nextSlot (s : Kernel) : LifeOp → Option Slot
  | .create (some _) _ _ =>
      if free : s.createCount < 10 then some (.create ⟨s.createCount, free⟩) else none
  | .createTest _ _ _ | .fork =>
      if room : s.testCount < 10 then some (.test ⟨s.testCount, room⟩) else none
  | _ => none

/-- The operation is refused, or there is nothing for it to do. -/
structure Idle (image : Image) (s : Kernel) (op : LifeOp) : Prop where
  next : s.nextSlot op = none
  same : s.lifeStep image op = s
  created : s.createdBy image op = null
  tornDown : s.tornDownBy image op = null

/-- A process begins, ready, in the next record, and takes the entry of its pid. -/
structure Begins (image : Image) (s : Kernel) (live : List Word) (op : LifeOp) (slot : Slot) :
    Prop where
  next : s.nextSlot op = some slot
  created : s.createdBy image op = image.address slot
  tornDown : s.tornDownBy image op = null
  fresh : ¬ s.Created slot
  lodged : (s.lifeStep image op).Lodged image (image.address slot :: live)
  states : (s.lifeStep image op).states = Function.update s.states (image.address slot) .ready
  identity : ∃ parentPid, (s.lifeStep image op).identity =
    Function.update s.identity (image.address slot) (image.wholeIdentity slot parentPid)
  table : (s.lifeStep image op).processTable =
    Function.update s.processTable (slot.index + 1) (image.address slot)

/-- A process ends, and the entry of its pid is cleared. -/
structure Ends (image : Image) (s : Kernel) (live : List Word) (op : LifeOp) (slot : Slot) :
    Prop where
  next : s.nextSlot op = none
  created : s.createdBy image op = null
  tornDown : s.tornDownBy image op = image.address slot
  lodged : (s.lifeStep image op).Lodged image (live.filter (· ≠ image.address slot))
  states : ∃ state, (s.lifeStep image op).states =
    Function.update s.states (image.address slot) state
  identity : ∃ left, (s.lifeStep image op).identity =
    Function.update s.identity (image.address slot) left
  table : (s.lifeStep image op).processTable =
    Function.update s.processTable (s.identity (image.address slot)).pid.toNat null

theorem create_idle (image : Image) (s : Kernel) (full : 10 ≤ s.createCount) (name : CString)
    (entryPoint : Word) (priority : ProcessPriority) :
    s.Idle image (.create (some name) entryPoint priority) := by
  have refused : s.processCreate image (some name) entryPoint priority = (null, s) := if_pos full
  exact ⟨dif_neg (Nat.not_lt.mpr full), congrArg Prod.snd refused, congrArg Prod.fst refused, rfl⟩

theorem createTest_idle (image : Image) (s : Kernel) (full : 10 ≤ s.testCount)
    (name : Option CString) (entryPoint : Word) (priority : ProcessPriority) :
    s.Idle image (.createTest name entryPoint priority) := by
  have refused := processCreateTest_full image s full name entryPoint priority
  exact ⟨dif_neg (Nat.not_lt.mpr full), congrArg Prod.snd refused, congrArg Prod.fst refused, rfl⟩

theorem killByPid_idle (image : Image) (s : Kernel) {pid : Word} (refused : ¬ s.Killable pid) :
    s.Idle image (.killByPid pid) :=
  ⟨rfl, processKillByPid_refused s image pid refused, rfl, if_neg refused⟩

theorem wait_idle (image : Image) (s : Kernel) (nobody : s.reaped? = none) (status : Word) :
    s.Idle image (.wait status) := by
  refine ⟨rfl, s.sysWait_none image nobody status, rfl, ?_⟩
  rw [tornDownBy, nobody]
  rfl

section Living

variable {op : LifeOp} {slot : Slot}

theorem Idle.living (idle : s.Idle image op) (clean : null ∉ live) :
    Ledger.livingAfter live (s.createdBy image op) (s.tornDownBy image op) = live := by
  rw [idle.created, idle.tornDown, Ledger.livingAfter_idle clean]

theorem Begins.living (begins : s.Begins image live op slot) (clean : null ∉ live) :
    Ledger.livingAfter live (s.createdBy image op) (s.tornDownBy image op) =
      image.address slot :: live := by
  rw [begins.created, begins.tornDown,
    Ledger.livingAfter_created clean (image.address_ne_null slot)]

theorem Ends.living (ends : s.Ends image live op slot) :
    Ledger.livingAfter live (s.createdBy image op) (s.tornDownBy image op) =
      live.filter (· ≠ image.address slot) := by
  rw [ends.created, ends.tornDown, Ledger.livingAfter_tornDown]

end Living

namespace Lodged

theorem create_begins (lodged : s.Lodged image live) (apart : image.HeapApart)
    (free : s.createCount < 10) (name : CString) (entryPoint : Word) (priority : ProcessPriority) :
    s.Begins image live (.create (some name) entryPoint priority)
      (.create ⟨s.createCount, free⟩) where
  next := dif_pos free
  created := congrArg Prod.fst (lodged.processCreate_eq apart free name entryPoint priority)
  tornDown := rfl
  fresh := Nat.lt_irrefl s.createCount
  lodged := lodged.processCreate apart free name entryPoint priority
  states := lodged.processCreate_states apart free name entryPoint priority
  identity := ⟨0, lodged.processCreate_identity apart free name entryPoint priority⟩
  table := lodged.processCreate_processTable apart free name entryPoint priority

theorem createTest_begins (lodged : s.Lodged image live) (room : s.testCount < 10)
    (name : Option CString) (entryPoint : Word) (priority : ProcessPriority) :
    s.Begins image live (.createTest name entryPoint priority) (.test ⟨s.testCount, room⟩) where
  next := dif_pos room
  created := congrArg Prod.fst (processCreateTest_room image s room name entryPoint priority)
  tornDown := rfl
  fresh := Nat.lt_irrefl s.testCount
  lodged := lodged.processCreateTest room name entryPoint priority
  states := processCreateTest_states image s room name entryPoint priority
  identity := ⟨0, processCreateTest_identity image s room name entryPoint priority⟩
  table := congrArg Registry.processTable
    (processCreateTest_registry image s room name entryPoint priority)

theorem fork_begins (lodged : s.Lodged image live) (room : s.testCount < 10) :
    s.Begins image live .fork (.test ⟨s.testCount, room⟩) where
  next := dif_pos room
  created := (if_neg lodged.current_ne_null).trans
    (processCreateCopy_fst image s room _ lodged.current_ne_null)
  tornDown := rfl
  fresh := Nat.lt_irrefl s.testCount
  lodged := lodged.sysFork room
  states := sysFork_states image s lodged.current_ne_null room
  identity :=
    ⟨_, sysFork_identity image s lodged.current_ne_null room (lodged.current_ne_next room)⟩
  table := congrArg Registry.processTable (sysFork_registry image s lodged.current_ne_null room)

theorem processKillByPid_states (lodged : s.Lodged image live) (apart : image.HeapApart)
    {pid : Word} (killable : s.Killable pid) {slot : Slot}
    (found : s.processFindByPid pid = image.address slot) :
    (s.processKillByPid image pid).2.states =
      Function.update s.states (image.address slot) .terminated := by
  obtain ⟨same, here, _, whole, positive, _⟩ := lodged.killable killable
  obtain rfl : same = slot := Image.address_inj (here.symm.trans found)
  obtain ⟨memory, frees, _⟩ := lodged.kfree_stack apart whole positive
  rw [processKillByPid_whole killable found whole frees]
  have states := Kernel.setState_states (Kernel.dropStack { s with memory := memory }
    (image.address same)) (image.address same) .terminated
  rw [dropStack_states] at states
  exact states

theorem killByPid_ends (lodged : s.Lodged image live) (apart : image.HeapApart) {pid : Word}
    (killable : s.Killable pid) {slot : Slot}
    (found : s.processFindByPid pid = image.address slot) :
    s.Ends image live (.killByPid pid) slot where
  next := rfl
  created := rfl
  tornDown := (if_pos killable).trans found
  lodged := found ▸ lodged.processKillByPid apart killable
  states := ⟨_, lodged.processKillByPid_states apart killable found⟩
  identity := ⟨_, (lodged.processKillByPid_unhooks apart killable found).2⟩
  table := (lodged.processKillByPid_unhooks apart killable found).1

theorem cleanup_ends (lodged : s.Lodged image live) (slot : Slot) :
    s.Ends image live (.cleanup (some slot)) slot where
  next := rfl
  created := rfl
  tornDown := rfl
  lodged := lodged.processCleanup slot
  states := ⟨_, processCleanup_states s (image.address_ne_null slot) (lodged.small slot)⟩
  identity := ⟨_, processCleanup_identity s (image.address_ne_null slot) (lodged.small slot)⟩
  table := congrArg Registry.processTable
    (processCleanup_registry s (image.address_ne_null slot) (lodged.small slot))

theorem fork_idle (lodged : s.Lodged image live) (full : 10 ≤ s.testCount) :
    s.Idle image .fork where
  next := dif_neg (Nat.not_lt.mpr full)
  same := sysFork_refused image s (Or.inr full)
  created := (if_neg lodged.current_ne_null).trans (processCreateCopy_full image s full _)
  tornDown := rfl

/-- With no child to reap, an operation but a destruction does one of three things. -/
theorem lifeStep_cases (lodged : s.Lodged image live) (apart : image.HeapApart)
    (nobody : s.reaped? = none) (op : LifeOp) (spares : ¬ op.Destroys) :
    s.Idle image op ∨ (∃ slot, s.Begins image live op slot) ∨
      ∃ slot, s.Ends image live op slot := by
  cases op with
  | create name entryPoint priority =>
      cases name with
      | none => exact Or.inl ⟨rfl, rfl, rfl, rfl⟩
      | some name =>
          by_cases free : s.createCount < 10
          · exact Or.inr (Or.inl ⟨_, lodged.create_begins apart free name entryPoint priority⟩)
          · exact Or.inl (create_idle image s (Nat.le_of_not_lt free) name entryPoint priority)
  | createTest name entryPoint priority =>
      by_cases room : s.testCount < 10
      · exact Or.inr (Or.inl ⟨_, lodged.createTest_begins room name entryPoint priority⟩)
      · exact Or.inl (createTest_idle image s (Nat.le_of_not_lt room) name entryPoint priority)
  | fork =>
      by_cases room : s.testCount < 10
      · exact Or.inr (Or.inl ⟨_, lodged.fork_begins room⟩)
      · exact Or.inl (lodged.fork_idle (Nat.le_of_not_lt room))
  | killByPid pid =>
      by_cases killable : s.Killable pid
      · obtain ⟨slot, found, _⟩ := lodged.killable killable
        exact Or.inr (Or.inr ⟨slot, lodged.killByPid_ends apart killable found⟩)
      · exact Or.inl (killByPid_idle image s killable)
  | destroy process =>
      cases process with
      | none => exact Or.inl ⟨rfl, rfl, rfl, rfl⟩
      | some slot => exact absurd (Option.some_ne_none slot) spares
  | cleanup process =>
      cases process with
      | none => exact Or.inl ⟨rfl, rfl, rfl, rfl⟩
      | some slot => exact Or.inr (Or.inr ⟨slot, lodged.cleanup_ends slot⟩)
  | wait status => exact Or.inl (wait_idle image s nobody status)

end Lodged

namespace Population

theorem lodged (population : s.Population image live) : s.Lodged image live where
  createCount := population.createCount
  testCount := population.testCount
  current := population.current
  root := population.root
  heap := population.heap
  members := population.members
  entries := population.entries
  small := population.small
  loaded := population.loaded
  headers := population.headers

/-- A ready process has joined the living. -/
theorem enrol (population : s.Population image live) (slot : Slot)
    (states : t.states = Function.update s.states (image.address slot) .ready)
    (lodged : t.Lodged image (image.address slot :: live)) :
    t.Population image (image.address slot :: live) := by
  refine lodged.population fun process member => ?_
  rw [states]
  by_cases same : process = image.address slot
  · rw [same, Function.update_self]
    exact fun impossible => by cases impossible
  · rw [Function.update_of_ne same]
    exact population.alive process ((List.mem_cons.mp member).resolve_left same)

/-- A process has left the living. -/
theorem retire (population : s.Population image live) (slot : Slot) {state : ProcessState}
    (states : t.states = Function.update s.states (image.address slot) state)
    (lodged : t.Lodged image (live.filter (· ≠ image.address slot))) :
    t.Population image (live.filter (· ≠ image.address slot)) := by
  refine lodged.population fun process member => ?_
  have remains := Ledger.mem_filter_ne.mp member
  rw [states, Function.update_of_ne remains.2]
  exact population.alive process remains.1

/-- Only a kill terminates a process, and it unregisters it, so there is nothing to reap. -/
theorem reaped?_eq_none (population : s.Population image live) : s.reaped? = none := by
  cases reaps : s.reaped? with
  | none => rfl
  | some proc =>
      obtain ⟨_, entry, _, here, nonnull, _, dead⟩ := s.reaped?_spec reaps
      subst here
      exact absurd dead (population.alive _ (population.entries entry nonnull).1)

/-- Every operation but a destruction keeps the invariant. -/
theorem lifeStep (population : s.Population image live) (apart : image.HeapApart) (op : LifeOp)
    (spares : ¬ op.Destroys) :
    (s.lifeStep image op).Population image
      (Ledger.livingAfter live (s.createdBy image op) (s.tornDownBy image op)) := by
  have clean := population.lodged.not_mem_null
  rcases population.lodged.lifeStep_cases apart population.reaped?_eq_none op spares with
    idle | ⟨slot, begins⟩ | ⟨slot, ends⟩
  · rw [idle.living clean, idle.same]
    exact population
  · rw [begins.living clean]
    exact population.enrol slot begins.states begins.lodged
  · obtain ⟨state, states⟩ := ends.states
    rw [ends.living]
    exact population.retire slot states ends.lodged

end Population

/-- The booted kernel satisfies the invariant, with the kernel process alone. -/
theorem boot_population (image : Image) :
    (boot image).Population image (Ledger.boot image).live := by
  have coherent := boot_coherent image
  have registry := boot_registry image
  have testCount : (boot image).testCount = 1 := congrArg Registry.testCount registry
  have createCount : (boot image).createCount = 0 := congrArg Registry.createCount registry
  have table : (boot image).processTable = Function.update (fun _ => null) 1 (image.testSlot 0) :=
    congrArg Registry.processTable registry
  have only : (Ledger.boot image).live = [image.testSlot 0] := by
    rw [Ledger.boot, coherent.kernel]
  have whole : (boot image).identity (image.testSlot 0) = image.wholeIdentity (.test 0) 0 := by
    rw [boot_identity, Function.update_self]
    rfl
  rw [only]
  refine
    { createCount := by omega
      testCount := by omega
      current := boot_currentProcess image
      root := coherent.kernel
      heap := ?_
      members := fun process member => ?_
      entries := fun entry filled => ?_
      alive := fun process member => ?_
      small := fun slot => ?_
      loaded := coherent.loaded
      headers := ?_ }
  · rw [createCount]
    exact congrArg Registry.heapCurrent registry
  · rw [List.mem_singleton.mp member]
    exact ⟨.test 0, rfl, by change 0 < (boot image).testCount; omega, 0, whole⟩
  · rw [table] at filled ⊢
    by_cases here : entry = 1
    · rw [here, Function.update_self, whole]
      exact ⟨List.mem_singleton.mpr rfl, Image.wholeIdentity_pid _ _⟩
    · rw [Function.update_of_ne here] at filled
      exact absurd rfl filled
  · rw [List.mem_singleton.mp member, boot_states, Function.update_self]
    exact fun impossible => by cases impossible
  · by_cases same : image.address slot = image.testSlot 0
    · rw [same, whole, Image.wholeIdentity_pid]
      decide
    · rw [boot_identity, Function.update_of_ne same]
      decide
  · rw [createCount]
    exact fun index impossible => absurd impossible (Nat.not_lt_zero index)

end Kernel

end SimpleOS
