import SimpleOS.Library.GuardedRun
import SimpleOS.Invariant.Population

/-!
# What reaches `kfree`

`kfree` gets allocated stacks only, and a tear-down touches no other process,
as long as the processes that are killed come from `process_create`, no record
is destroyed, and no living neighbour in the queue is unlinked from the process
that is cleaned up.  The stacks of `process_create_test` and all records are
static, yet `process_kill_by_pid` and `process_destroy` free them.
-/

namespace SimpleOS

open Library.ByteMemory Library.LinkedChain Library.GuardedRun

/-- The pointers are freed in order, each allocated when it is its turn. -/
def Disciplined : List Word → List Word → Prop
  | _, [] => True
  | allocated, pointer :: rest =>
      pointer ∈ allocated ∧ Disciplined (allocated.erase pointer) rest

namespace Kernel

/-- The address belongs to the record or to the stack of the process. -/
def Owned (s : Kernel) (process address : Word) : Prop :=
  InRange process processSize address ∨
    InRange (s.process process).stackBase (s.process process).stackSize.toNat address

end Kernel

namespace Ledger

/-- Tearing a process down changes no byte of the record or the stack of another living one. -/
def SparesOthers (image : Image) (l : Ledger) (op : LifeOp) : Prop :=
  l.kernel.tornDownBy image op ≠ null →
    ∀ other ∈ l.live, other ≠ l.kernel.tornDownBy image op →
      ∀ address, l.kernel.Owned other address →
        (l.step image op).kernel.read image address = l.kernel.read image address

/-- The operation frees what is allocated and spares the other processes. -/
def FreesKept (image : Image) (l : Ledger) (op : LifeOp) : Prop :=
  Disciplined l.allocated (l.kernel.frees image op) ∧ l.SparesOthers image op

/--
A killed process comes from `process_create`, no record is destroyed, and a
process that is cleaned up has no living neighbour in the queue.
-/
def FreeSafe (image : Image) (l : Ledger) : LifeOp → Prop
  | .killByPid pid => l.kernel.Killable pid →
      ∃ index < 10, l.kernel.processFindByPid pid = image.createSlot index
  | .destroy process => process = none
  | .cleanup (some slot) => ∀ other ∈ l.live, other ≠ image.address slot →
      other ≠ (l.kernel.process (image.address slot)).next ∧
        other ≠ (l.kernel.process (image.address slot)).prev
  | _ => True

/-- Killing a spawned process frees its static stack. -/
theorem kill_frees_static_stack :
    ¬ Along (step Image.sample) (FreesKept Image.sample) (boot Image.sample)
      [.createTest (some (.ofString "demo")) 0x101100 .normal, .killByPid 2] := by
  rintro ⟨_, ⟨disciplined, _⟩, _⟩
  have static : ∀ l, l = (boot Image.sample).step Image.sample
        (.createTest (some (.ofString "demo")) 0x101100 .normal) →
      l.allocated = [] ∧
        l.kernel.frees Image.sample (.killByPid 2) = [Image.sample.testStack 1] := by
    intro l reached
    rw [reached]
    decide +kernel
  obtain ⟨nothing, frees⟩ := static _ rfl
  rw [nothing, frees] at disciplined
  exact List.not_mem_nil disciplined.1

end Ledger

/-! ## Where the bytes of a process are -/

namespace Image

variable {image : Image}

theorem slotAt?_address {slot : Slot} {address : Word}
    (inside : InRange (image.address slot) processSize address) :
    Kernel.slotAt? image address = some (image.address slot) := by
  cases found : Kernel.slotAt? image address with
  | none =>
      exact absurd (decide_eq_true inside)
        (List.find?_eq_none.mp found _ (address_mem_slots slot))
  | some other =>
      have hit : InRange other processSize address := of_decide_eq_true
        (List.find?_some (p := fun slot => decide (InRange slot processSize address)) found)
      obtain ⟨index, bound, here⟩ := (mem_slots_iff other).mp (List.mem_of_find?_eq_some found)
      rcases here with rfl | rfl
      · have same : Slot.create ⟨index, bound⟩ = slot := address_unique hit inside
        rw [← same]
        rfl
      · have same : Slot.test ⟨index, bound⟩ = slot := address_unique hit inside
        rw [← same]
        rfl

/-- No record lies in a stack. -/
theorem slotAt?_stack (apart : image.HeapApart) {slot : Slot} {address : Word}
    (inside : InRange (image.stackOf slot) 4096 address) :
    Kernel.slotAt? image address = none := by
  cases slot with
  | create index =>
      have start := heapStart_toNat
      have bound := index.isLt
      have place := (heapStack_range bound).mp inside
      exact apart.slotAt?_none ⟨by omega, by omega⟩
  | test index =>
      have bound := index.isLt
      have place := (testStack_range index).mp inside
      simp only [stackSizeDefault] at place
      have offset : BitVec.ofNat 32 (image.staticStacks + (address.toNat - image.staticStacks)) =
          address := by
        rw [show image.staticStacks + (address.toNat - image.staticStacks) = address.toNat by omega,
          BitVec.ofNat_toNat, BitVec.setWidth_eq]
      refine List.find?_eq_none.mpr fun record member => ?_
      rw [← offset]
      have apart := not_inRange_slot_of_stack member
        (show address.toNat - image.staticStacks < 10 * stackSizeDefault by
          simp only [stackSizeDefault]
          omega)
      simpa using apart

end Image

namespace Kernel

variable {image : Image} {s t : Kernel} {live : List Word}

/-- With the record and the stack as they were, a process reads the same in all its bytes. -/
theorem read_owned (apart : image.HeapApart) {slot : Slot} (whole : s.Whole image slot)
    (record : t.process (image.address slot) = s.process (image.address slot))
    (stack : ∀ target, InRange (image.stackOf slot) 4096 target → t.memory target = s.memory target)
    {address : Word} (owned : s.Owned (image.address slot) address) :
    t.read image address = s.read image address := by
  obtain ⟨_, parentPid, identity⟩ := whole
  rcases owned with inRecord | inStack
  · have here := Image.slotAt?_address inRecord
    rw [read, read, here]
    exact congrArg (fun process : Process => process.byte (address - image.address slot).toNat)
      record
  · rw [show (s.process (image.address slot)).stackBase = image.stackOf slot from
        congrArg Process.Identity.stackBase identity,
      show (s.process (image.address slot)).stackSize = 4096 from
        congrArg Process.Identity.stackSize identity] at inStack
    have none := Image.slotAt?_stack apart inStack
    rw [read, read, none]
    exact stack address inStack

namespace Population

/-- Taking a record of `process_create` allocates the block of that record. -/
theorem allocated_of_next (population : s.Population image live) {op : LifeOp} {index : Fin 10}
    (next : s.nextSlot op = some (.create index)) : heapStack index ∈ s.allocations image op := by
  cases op with
  | create name entryPoint priority =>
      cases name with
      | none => cases next
      | some name =>
          obtain ⟨free, same⟩ := Option.dite_none_right_eq_some.mp next
          cases same
          have start := heapStart_toNat
          have mark := heapMark_toNat (Nat.le_of_lt free)
          have room : s.heapCurrent.toNat + 4100 ≤ heapEnd.toNat := by
            rw [population.heap, heapEnd_toNat]
            omega
          rw [allocations, if_neg (Nat.not_le.mpr free), kmalloc_stack image s room,
            population.heap]
          exact List.mem_filter.mpr
            ⟨List.mem_singleton.mpr rfl, decide_eq_true (heapStack_ne_null free)⟩
  | createTest name entryPoint priority =>
      obtain ⟨_, same⟩ := Option.dite_none_right_eq_some.mp next
      cases same
  | fork =>
      obtain ⟨_, same⟩ := Option.dite_none_right_eq_some.mp next
      cases same
  | _ => cases next

/-! ## What a tear-down does to the others -/

/-- A kill of a process from `process_create` frees its stack, once, and nothing else. -/
theorem killFrees_eq (population : s.Population image live) (apart : image.HeapApart)
    {index : Fin 10} (whole : s.Whole image (.create index)) (positive : 0 < (index : Nat)) :
    s.killFrees image (image.createSlot index) = [heapStack index] := by
  obtain ⟨memory, frees, _⟩ := population.lodged.kfree_stack apart whole positive
  obtain ⟨_, parentPid, identity⟩ := whole
  have stack : (s.process (image.createSlot index)).stackBase = heapStack index :=
    congrArg Process.Identity.stackBase identity
  have heap : (s.process (image.createSlot index)).heapBase = 0 :=
    congrArg Process.Identity.heapBase identity
  have nonnull : heapStack index ≠ 0 := heapStack_ne_null index.isLt
  have released : s.releaseStack image (image.createSlot index) =
      Kernel.dropStack { s with memory := memory } (image.createSlot index) := by
    rw [releaseStack, stack, if_pos nonnull]
    exact congrArg (fun u : Kernel => u.dropStack (image.createSlot index)) frees
  have noHeap : ((s.releaseStack image (image.createSlot index)).process
      (image.createSlot index)).heapBase = 0 := by
    rw [released, dropStack, modify_self]
    exact heap
  unfold killFrees
  dsimp only
  rw [stack, noHeap, List.filter_cons, if_pos (decide_eq_true nonnull)]
  rfl

theorem kill_spares (population : s.Population image live) (apart : image.HeapApart) {pid : Word}
    (killable : s.Killable pid) {other : Word} (member : other ∈ live)
    (different : other ≠ s.processFindByPid pid) {address : Word}
    (owned : s.Owned other address) :
    (s.processKillByPid image pid).2.read image address = s.read image address := by
  obtain ⟨slot, found, _, whole, positive, _⟩ := population.lodged.killable killable
  obtain ⟨memory, frees, outside, _⟩ := population.lodged.kfree_stack apart whole positive
  obtain ⟨second, rfl, secondWhole⟩ := population.members other member
  rw [found] at different
  rw [Lodged.processKillByPid_whole killable found whole frees]
  refine read_owned apart secondWhole ?_ (fun target inStack => ?_) owned
  · change ((Kernel.dropStack { s with memory := memory } (image.address slot)).setState
      (image.address slot) .terminated).process _ = _
    rw [setState, modify_other _ _ different, dropStack, modify_other _ _ different]
  · refine outside target fun index isCreate => ?_
    refine Image.not_inRange_heapStack apart (fun same => different ?_) inStack
    rw [same, isCreate]

theorem cleanup_spares (population : s.Population image live) (apart : image.HeapApart)
    {slot : Slot} {other : Word} (member : other ∈ live)
    (different : other ≠ image.address slot)
    (notNext : other ≠ (s.process (image.address slot)).next)
    (notPrev : other ≠ (s.process (image.address slot)).prev) {address : Word}
    (owned : s.Owned other address) :
    (s.processCleanup (image.address slot)).read image address = s.read image address := by
  have small := population.small slot
  have nonnull := image.address_ne_null slot
  obtain ⟨second, rfl, secondWhole⟩ := population.members other member
  refine read_owned apart secondWhole ?_ (fun target _ => ?_) owned
  · have splitNext : ¬ (image.address second ≠ null ∧
        image.address second = s.links.prev (image.address slot)) := fun both => notPrev both.2
    have splitPrev : ¬ (image.address second ≠ null ∧
        image.address second = s.links.next (image.address slot)) := fun both => notNext both.2
    rw [processCleanup_eq s nonnull small, modify_other _ _ different,
      removeFromReadyQueue_eq _ nonnull]
    change { s.process (image.address second) with
      next := (s.links.unlink null (image.address slot)).next (image.address second)
      prev := (s.links.unlink null (image.address slot)).prev (image.address second) } = _
    simp only [Links.unlink, if_neg different, if_neg splitNext, if_neg splitPrev]
    rfl
  · exact congrFun (congrArg Registry.memory (processCleanup_registry s nonnull small)) target

end Population

end Kernel

namespace Ledger

variable {image : Image} {l : Ledger}

/-- The stacks of the living processes from `process_create` are allocated. -/
structure Accounted (image : Image) (l : Ledger) : Prop where
  population : l.kernel.Population image l.live
  stack : ∀ index : Fin 10, image.createSlot index ∈ l.live → heapStack index ∈ l.allocated

namespace Accounted

/-- A created process has its stack among the allocations of its creation. -/
theorem created_allocated (accounted : l.Accounted image) (apart : image.HeapApart) (op : LifeOp)
    (spares : ¬ op.Destroys) {index : Fin 10}
    (created : image.createSlot index = l.kernel.createdBy image op) :
    heapStack index ∈ l.kernel.allocations image op := by
  have population := accounted.population
  have nonnull := image.createSlot_ne_null index.isLt
  rcases population.lodged.lifeStep_cases apart population.reaped?_eq_none op spares with
    idle | ⟨slot, begins⟩ | ⟨slot, ends⟩
  · exact absurd (created.trans idle.created) nonnull
  · obtain rfl : slot = .create index :=
      Image.address_inj (begins.created.symm.trans created.symm)
    exact population.allocated_of_next begins.next
  · exact absurd (created.trans ends.created) nonnull

/-- A safe kill passes the stack of its target to `kfree`, and nothing else. -/
theorem frees_kill (accounted : l.Accounted image) (apart : image.HeapApart) {pid : Word}
    (safe : l.FreeSafe image (.killByPid pid)) (killable : l.kernel.Killable pid) :
    ∃ index : Fin 10, l.kernel.processFindByPid pid = image.createSlot index ∧
      image.createSlot index ∈ l.live ∧
      l.kernel.frees image (.killByPid pid) = [heapStack index] := by
  have population := accounted.population
  obtain ⟨place, bound, isCreate⟩ := safe killable
  obtain ⟨slot, found, member, whole, positive, _⟩ := population.lodged.killable killable
  obtain rfl : slot = .create ⟨place, bound⟩ := Image.address_inj (found.symm.trans isCreate)
  refine ⟨⟨place, bound⟩, isCreate, member, ?_⟩
  rw [Kernel.frees, if_pos killable, isCreate]
  exact population.killFrees_eq apart whole positive

theorem freesKept (accounted : l.Accounted image) (apart : image.HeapApart) (op : LifeOp)
    (safe : l.FreeSafe image op) : l.FreesKept image op := by
  have population := accounted.population
  cases op with
  | create name entryPoint priority => exact ⟨trivial, fun impossible => absurd rfl impossible⟩
  | createTest name entryPoint priority =>
      exact ⟨trivial, fun impossible => absurd rfl impossible⟩
  | fork => exact ⟨trivial, fun impossible => absurd rfl impossible⟩
  | killByPid pid =>
      by_cases killable : l.kernel.Killable pid
      · obtain ⟨index, _, member, frees⟩ := accounted.frees_kill apart safe killable
        refine ⟨?_, fun _ other living different address owned => ?_⟩
        · rw [frees]
          exact ⟨accounted.stack index member, trivial⟩
        · rw [Kernel.tornDownBy, if_pos killable] at different
          exact population.kill_spares apart killable living different owned
      · refine ⟨?_, fun tornDown => absurd (if_neg killable) tornDown⟩
        rw [Kernel.frees, if_neg killable]
        trivial
  | destroy process =>
      subst safe
      exact ⟨trivial, fun impossible => absurd rfl impossible⟩
  | cleanup process =>
      cases process with
      | none => exact ⟨trivial, fun impossible => absurd rfl impossible⟩
      | some slot =>
          refine ⟨trivial, fun _ other living different address owned => ?_⟩
          obtain ⟨notNext, notPrev⟩ := safe other living different
          exact population.cleanup_spares apart living different notNext notPrev owned
  | wait status =>
      refine ⟨trivial, fun tornDown => absurd ?_ tornDown⟩
      rw [Kernel.tornDownBy, population.reaped?_eq_none]
      rfl

/-- The allocated blocks after an operation: allocations enter, freed ones leave. -/
theorem step (accounted : l.Accounted image) (apart : image.HeapApart) (op : LifeOp)
    (safe : l.FreeSafe image op) : (l.step image op).Accounted image := by
  have population := accounted.population
  have spares : ¬ op.Destroys := by
    cases op with
    | destroy process => exact fun destroys => destroys safe
    | _ => exact fun impossible => impossible
  refine ⟨population.lifeStep apart op spares, fun index member => ?_⟩
  obtain ⟨origin, remains⟩ := mem_livingAfter.mp member
  have allocated : heapStack index ∈ l.kernel.allocations image op ++ l.allocated := by
    rcases origin with created | older
    · exact List.mem_append_left _ (accounted.created_allocated apart op spares created.1)
    · exact List.mem_append_right _ (accounted.stack index older)
  have kept (none : l.kernel.frees image op = []) :
      heapStack index ∈ (l.step image op).allocated := by
    change heapStack index ∈ (_ ++ _ : List Word).diff _
    rw [none, List.diff_nil]
    exact allocated
  cases op with
  | killByPid pid =>
      by_cases killable : l.kernel.Killable pid
      · obtain ⟨freed, target, _, frees⟩ := accounted.frees_kill apart safe killable
        change heapStack index ∈ (_ ++ _ : List Word).diff _
        rw [frees, List.diff_cons, List.diff_nil]
        refine (List.mem_erase_of_ne fun same => remains ?_).mpr allocated
        rw [Kernel.tornDownBy, if_pos killable, target]
        exact congrArg image.createSlot (heapStack_inj index.isLt freed.isLt same)
      · exact kept (if_neg killable)
  | destroy process =>
      subst safe
      exact kept rfl
  | _ => exact kept rfl

end Accounted

theorem boot_accounted (image : Image) : (boot image).Accounted image := by
  refine ⟨Kernel.boot_population image, fun index member => ?_⟩
  have coherent := Kernel.boot_coherent image
  have same := List.mem_singleton.mp member
  rw [coherent.kernel] at same
  exact absurd same (Image.createSlot_ne_testSlot index.isLt (by decide))

/-- While every step is safe, only allocated blocks are freed and no other process is touched. -/
theorem frees_kept_of_safe (image : Image) (apart : image.HeapApart) (ops : List LifeOp)
    (safe : Along (step image) (FreeSafe image) (boot image) ops) :
    Along (step image) (FreesKept image) (boot image) ops :=
  along_of_along
    (fun l op (accounted : l.Accounted image) guard => accounted.step apart op guard)
    (fun l op (accounted : l.Accounted image) guard => accounted.freesKept apart op guard)
    (boot_accounted image) safe

/-- A fork that is cleaned up, and two processes from `process_create`, one of them killed. -/
theorem frees_kept_fork_cleanup_create_kill :
    Along (step Image.sample) (FreesKept Image.sample) (boot Image.sample)
      [.fork, .cleanup (some (.test 1)), .create (some (.ofString "a")) 0x101100 .normal,
        .create (some (.ofString "b")) 0x101200 .low, .killByPid 2, .wait null] := by
  refine frees_kept_of_safe Image.sample (by decide) _
    ⟨trivial, ?_, trivial, trivial, ?_, trivial, trivial⟩
  · have alone : ∀ l, l = (boot Image.sample).step Image.sample .fork →
        (l.kernel.process (Image.sample.testSlot 1)).next = null ∧
          (l.kernel.process (Image.sample.testSlot 1)).prev = null ∧
          null ∉ l.live := by
      intro l reached
      rw [reached]
      decide +kernel
    obtain ⟨next, prev, clean⟩ := alone _ rfl
    exact fun other member _ => ⟨fun same => clean (same.trans next ▸ member),
      fun same => clean (same.trans prev ▸ member)⟩
  · intro _
    exact ⟨1, by decide, by decide +kernel⟩

end Ledger

end SimpleOS
