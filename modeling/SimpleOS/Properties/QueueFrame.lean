import SimpleOS.Library.ChainFrame
import SimpleOS.Library.GuardedRun
import SimpleOS.Kernel.Operations

/-!
# What tearing down a process leaves of the ready queue

`process_cleanup`, `process_destroy` and `sys_wait` all call
`remove_from_ready_queue` without asking whether the process is queued.  For a
process outside the queue the call writes through links that belong to no queue
position, and with both links NULL it empties the queue.
-/

namespace SimpleOS

open Library.ByteMemory Library.LinkedChain Library.GuardedRun

namespace Kernel

/-! ## The links after the three routines -/

section Destroy

variable (image : Image) (s : Kernel) (process : Word)

/-- The bytes `process_destroy` fills: the stack, the heap, and the record itself. -/
def destroyPatch : Patch :=
  let s := s.removeFromReadyQueue process
  let stack := SimpleOS.kfree (s.read image) (s.process process).stackBase
  let s := s.overwrite image stack
  let heap := SimpleOS.kfree (s.read image) (s.process process).heapBase
  let s := s.overwrite image heap
  (stack.andThen heap).andThen (SimpleOS.kfree (s.read image) process)

/-- Without a heap, and with zeros where the sizes are read, a destruction fills nothing. -/
theorem destroyPatch_of_zero
    (stack : load ((s.removeFromReadyQueue process).read image)
      (((s.removeFromReadyQueue process).process process).stackBase - 4) = 0)
    (heap : ((s.removeFromReadyQueue process).process process).heapBase = null)
    (record : load ((s.removeFromReadyQueue process).read image) (process - 4) = 0) :
    s.destroyPatch image process = noPatch := by
  rw [destroyPatch]
  simp only [kfree_of_zero stack, overwrite_noPatch, heap, SimpleOS.kfree_null,
    kfree_of_zero record]
  rfl

/-- The NULL tests before the two frees change nothing. -/
private theorem guarded_kfree (t : Kernel) (pointer : Word) :
    (if pointer ≠ 0 then t.kfree image pointer else t) = t.kfree image pointer := by
  split
  · rfl
  · next isNull =>
      rw [not_not.mp isNull]
      exact (t.kfree_null image).symm

variable {process} (nonnull : process ≠ null)

include nonnull

/-- A destruction is a removal and three fills, apart from the table. -/
theorem processDestroy_fills :
    ∃ stack heap record table,
      s.destroyPatch image process = (Patch.andThen stack heap).andThen record ∧
        s.processDestroy image process =
          { (((s.removeFromReadyQueue process).overwrite image stack).overwrite image
              heap).overwrite image record with
            processTable := table } := by
  rw [processDestroy, if_neg nonnull]
  simp only [guarded_kfree]
  split
  · exact ⟨_, _, _, _, rfl, rfl⟩
  · exact ⟨_, _, _, _, rfl, rfl⟩

/-- The ends of the queue are as the removal leaves them. -/
theorem processDestroy_ends :
    (s.processDestroy image process).links.head = (s.links.unlink null process).head ∧
      (s.processDestroy image process).links.tail = (s.links.unlink null process).tail := by
  obtain ⟨stack, heap, record, table, _, same⟩ := s.processDestroy_fills image nonnull
  rw [same, ← s.removeFromReadyQueue_links nonnull]
  exact ⟨rfl, rfl⟩

/-- The links of a record are as the removal leaves them, under the fills. -/
theorem processDestroy_next {slot : Word} (member : slot ∈ image.slots) :
    (s.processDestroy image process).links.next slot =
      patchedWord (s.destroyPatch image process) (slot + BitVec.ofNat 32 260)
        ((s.links.unlink null process).next slot) := by
  obtain ⟨stack, heap, record, table, patch, same⟩ := s.processDestroy_fills image nonnull
  rw [same, patch, patchedWord_andThen, patchedWord_andThen,
    ← s.removeFromReadyQueue_links nonnull]
  change (overwrite image _ record).links.next slot = _
  rw [overwrite_next image _ record member, overwrite_next image _ heap member,
    overwrite_next image _ stack member]

theorem processDestroy_prev {slot : Word} (member : slot ∈ image.slots) :
    (s.processDestroy image process).links.prev slot =
      patchedWord (s.destroyPatch image process) (slot + BitVec.ofNat 32 264)
        ((s.links.unlink null process).prev slot) := by
  obtain ⟨stack, heap, record, table, patch, same⟩ := s.processDestroy_fills image nonnull
  rw [same, patch, patchedWord_andThen, patchedWord_andThen,
    ← s.removeFromReadyQueue_links nonnull]
  change (overwrite image _ record).links.prev slot = _
  rw [overwrite_prev image _ record member, overwrite_prev image _ heap member,
    overwrite_prev image _ stack member]

end Destroy

/-! ## When the other processes stay queued -/

/--
The removal leaves the ends of the queue without the process in place, and the
filled bytes leave, or complete, every link word of the processes that stay.
-/
structure DestroyKeeps (image : Image) (s : Kernel) (process : Word) (nodes : List Word) :
    Prop where
  head : (s.links.unlink null process).head = (s.links.without null nodes process).head
  tail : (s.links.unlink null process).tail = (s.links.without null nodes process).tail
  next : ∀ node ∈ nodes.erase process,
    patchedWord (s.destroyPatch image process) (node + BitVec.ofNat 32 260)
      ((s.links.unlink null process).next node) = (s.links.without null nodes process).next node
  prev : ∀ node ∈ nodes.erase process,
    patchedWord (s.destroyPatch image process) (node + BitVec.ofNat 32 264)
      ((s.links.unlink null process).prev node) = (s.links.without null nodes process).prev node

/-- The fills of a destruction miss the link words of the processes that stay. -/
def FillsMiss (image : Image) (s : Kernel) (process : Word) (nodes : List Word) : Prop :=
  ∀ node ∈ nodes.erase process, ∀ offset, 260 ≤ offset → offset < processSize →
    s.destroyPatch image process (node + BitVec.ofNat 32 offset) = none

variable {image : Image} {s : Kernel} {nodes : List Word}

theorem processDestroy_isQueue_iff (queue : IsQueue null s.links nodes) {process : Word}
    (nonnull : process ≠ null) (records : ∀ node ∈ nodes, node ∈ image.slots) :
    IsQueue null (s.processDestroy image process).links (nodes.erase process) ↔
      s.DestroyKeeps image process nodes := by
  obtain ⟨head, tail⟩ := s.processDestroy_ends image nonnull
  have slot : ∀ node ∈ nodes.erase process, node ∈ image.slots := fun node member =>
    records node (List.mem_of_mem_erase member)
  rw [(queue.without process).congr_iff, head, tail]
  constructor
  · rintro ⟨sameHead, sameTail, agree⟩
    refine ⟨sameHead, sameTail, fun node member => ?_, fun node member => ?_⟩
    · rw [← s.processDestroy_next image nonnull (slot node member)]
      exact (agree node member).1
    · rw [← s.processDestroy_prev image nonnull (slot node member)]
      exact (agree node member).2
  · intro keeps
    refine ⟨keeps.head, keeps.tail, fun node member => ⟨?_, ?_⟩⟩
    · rw [s.processDestroy_next image nonnull (slot node member)]
      exact keeps.next node member
    · rw [s.processDestroy_prev image nonnull (slot node member)]
      exact keeps.prev node member

/-- Fills that miss the queue leave the condition of a plain removal. -/
theorem destroyKeeps_of_fillsMiss (queue : IsQueue null s.links nodes) {process : Word}
    (miss : s.FillsMiss image process nodes) :
    s.DestroyKeeps image process nodes ↔
      process ∈ nodes ∨ s.links.Beside null nodes process := by
  have word {node : Word} (member : node ∈ nodes.erase process) {offset : Nat}
      (low : 260 ≤ offset) (high : offset + 4 ≤ processSize) (value : Word) :
      patchedWord (s.destroyPatch image process) (node + BitVec.ofNat 32 offset) value =
        value := by
    refine patchedWord_of_untouched value fun index bound => ?_
    rw [BitVec.add_assoc, ← BitVec.ofNat_add]
    exact miss node member (offset + index) (by omega) (by omega)
  rw [← queue.unlink_erase_iff, (queue.without process).congr_iff]
  constructor
  · intro keeps
    refine ⟨keeps.head, keeps.tail, fun node member => ⟨?_, ?_⟩⟩
    · exact (word member (by decide) (by decide) _).symm.trans (keeps.next node member)
    · exact (word member (by decide) (by decide) _).symm.trans (keeps.prev node member)
  · rintro ⟨head, tail, agree⟩
    refine ⟨head, tail, fun node member => ?_, fun node member => ?_⟩
    · exact (word member (by decide) (by decide) _).trans (agree node member).1
    · exact (word member (by decide) (by decide) _).trans (agree node member).2

/--
Cleaning up or destroying a process, and reaping a child that is not queued,
leave the other processes of a queue in place exactly when the process is
queued or its links agree with the queue beside it.  A destruction fills what
it frees; where the fills hit a link word of the others, the filled words have
to come out right as well.
-/
theorem queue_kept_iff (image : Image) (s : Kernel) (nodes : List Word)
    (queue : IsQueue null s.links nodes) :
    (∀ process, process ≠ null →
      (IsQueue null (s.processCleanup process).links (nodes.erase process) ↔
        process ∈ nodes ∨ s.links.Beside null nodes process)) ∧
    (∀ process, process ≠ null → (∀ node ∈ nodes, node ∈ image.slots) →
      s.FillsMiss image process nodes →
      (IsQueue null (s.processDestroy image process).links (nodes.erase process) ↔
        process ∈ nodes ∨ s.links.Beside null nodes process)) ∧
    (∀ process, process ≠ null → (∀ node ∈ nodes, node ∈ image.slots) →
      (IsQueue null (s.processDestroy image process).links (nodes.erase process) ↔
        s.DestroyKeeps image process nodes)) ∧
    (∀ status child, (status = null ∨ image.OffRecords status) →
      (∀ node ∈ nodes, s.states node = .ready) → s.reaped? = some child →
      (IsQueue null (s.sysWait image status).2.links nodes ↔
        s.links.Beside null nodes child)) := by
  refine ⟨fun process nonnull => ?_, fun process nonnull records miss => ?_,
    fun process nonnull records => ?_, ?_⟩
  · rw [processCleanup_links s nonnull]
    exact queue.unlink_erase_iff
  · exact (processDestroy_isQueue_iff queue nonnull records).trans
      (destroyKeeps_of_fillsMiss queue miss)
  · exact processDestroy_isQueue_iff queue nonnull records
  · intro status child offRecords ready reaps
    -- a terminated child is not among the ready processes
    have absent : child ∉ nodes := by
      intro member
      obtain ⟨_, _, _, _, _, _, terminated⟩ := s.reaped?_spec reaps
      have isReady := ready child member
      rw [terminated] at isReady
      cases isReady
    rw [s.sysWait_links image offRecords reaps]
    exact queue.unlink_absent_iff absent

/--
The reaping of an unlinked child leaves three children linked to each other
outside the queue; two more are queued, and the middle one of the three is killed.
-/
def lostChildren : List ProcessOp :=
  [.fork, .schedule {}, .exit {} 7, .fork, .fork, .fork, .wait null, .fork, .fork, .kill 4 9]

/-- The killed child can be cleaned up, destroyed and reaped, and a queued one cleaned up. -/
theorem queue_kept_beside_lost_children :
    ∃ s, s = run (step Image.sample) (boot Image.sample) lostChildren ∧
      IsQueue null (s.processCleanup (Image.sample.testSlot 3)).links
        [Image.sample.testSlot 5, Image.sample.testSlot 6] ∧
      IsQueue null (s.processCleanup (Image.sample.testSlot 5)).links
        [Image.sample.testSlot 6] ∧
      IsQueue null (s.processDestroy Image.sample (Image.sample.testSlot 3)).links
        [Image.sample.testSlot 5, Image.sample.testSlot 6] ∧
      IsQueue null (s.sysWait Image.sample null).2.links
        [Image.sample.testSlot 5, Image.sample.testSlot 6] := by
  have facts : ∀ s, s = run (step Image.sample) (boot Image.sample) lostChildren →
      IsQueue null s.links [Image.sample.testSlot 5, Image.sample.testSlot 6] ∧
        s.links.prev (Image.sample.testSlot 3) = Image.sample.testSlot 2 ∧
        s.links.next (Image.sample.testSlot 3) = Image.sample.testSlot 4 ∧
        s.reaped? = some (Image.sample.testSlot 3) ∧
        s.states (Image.sample.testSlot 5) = .ready ∧
        s.states (Image.sample.testSlot 6) = .ready := by
    intro s reached
    rw [reached]
    decide +kernel
  have zeros : ∀ s, s = run (step Image.sample) (boot Image.sample) lostChildren →
      let freed := s.removeFromReadyQueue (Image.sample.testSlot 3)
      load (freed.read Image.sample) ((freed.process (Image.sample.testSlot 3)).stackBase - 4) = 0 ∧
        (freed.process (Image.sample.testSlot 3)).heapBase = null ∧
        load (freed.read Image.sample) (Image.sample.testSlot 3 - 4) = 0 := by
    intro s reached
    rw [reached]
    decide +kernel
  refine ⟨_, rfl, ?_⟩
  obtain ⟨queue, prev, next, reaps, first, second⟩ := facts _ rfl
  obtain ⟨stack, heap, record⟩ := zeros _ rfl
  generalize run (step Image.sample) (boot Image.sample) lostChildren = s
    at queue prev next reaps first second stack heap record ⊢
  have beside : s.links.Beside null [Image.sample.testSlot 5, Image.sample.testSlot 6]
      (Image.sample.testSlot 3) := by
    constructor
    · exact fun isNull => absurd (prev.symm.trans isNull) (by decide)
    · exact fun isNull => absurd (next.symm.trans isNull) (by decide)
    · exact fun member => absurd (prev ▸ member) (by decide)
    · exact fun member => absurd (next ▸ member) (by decide)
  have nonnull (index : Nat) (bound : index < 10) : Image.sample.testSlot index ≠ null :=
    Image.testSlot_ne_null bound
  obtain ⟨cleanup, destroy, _, wait⟩ := queue_kept_iff Image.sample s _ queue
  refine ⟨(cleanup _ (nonnull 3 (by decide))).mpr (Or.inr beside),
    (cleanup _ (nonnull 5 (by decide))).mpr (Or.inl List.mem_cons_self), ?_, ?_⟩
  · have records : ∀ node ∈ [Image.sample.testSlot 5, Image.sample.testSlot 6],
        node ∈ Image.sample.slots := by
      intro node member
      simp only [List.mem_cons, List.not_mem_nil, or_false] at member
      rcases member with rfl | rfl <;> decide
    refine (destroy _ (nonnull 3 (by decide)) records fun node _ offset _ _ => ?_).mpr
      (Or.inr beside)
    rw [destroyPatch_of_zero Image.sample s _ stack heap record]
    rfl
  · refine (wait null _ (Or.inl rfl) ?_ reaps).mpr beside
    intro node member
    simp only [List.mem_cons, List.not_mem_nil, or_false] at member
    rcases member with rfl | rfl
    · exact first
    · exact second

/-- Reaping a child that exited while running empties a queue that holds another one. -/
theorem reaped_child_empties_queue :
    ¬ ∀ (image : Image) (s : Kernel) (nodes : List Word) (child : Word),
      IsQueue null s.links nodes → (∀ node ∈ nodes, s.states node = .ready) →
      s.reaped? = some child → child ∉ nodes →
      IsQueue null (s.sysWait image null).2.links nodes := by
  intro kept
  have facts : ∀ s,
      s = run (step Image.sample) (boot Image.sample) [.fork, .schedule {}, .exit {} 7, .fork] →
      (s.links.head = Image.sample.testSlot 2 ∧ s.links.tail = Image.sample.testSlot 2 ∧
        s.links.next (Image.sample.testSlot 2) = null ∧
        s.links.prev (Image.sample.testSlot 2) = null ∧
        s.states (Image.sample.testSlot 2) = .ready) ∧
        s.reaped? = some (Image.sample.testSlot 1) ∧
        (s.sysWait Image.sample null).2.links.head = null := by
    intro s reached
    rw [reached]
    decide +kernel
  obtain ⟨⟨head, tail, next, prev, ready⟩, reaps, emptied⟩ := facts _ rfl
  have nonnull : Image.sample.testSlot 2 ≠ null := Image.testSlot_ne_null (by decide)
  have after := kept Image.sample _ [Image.sample.testSlot 2] _ ⟨⟨head, nonnull, next⟩,
    ⟨tail, nonnull, prev⟩⟩ (by simpa using ready) reaps (by decide)
  cases after.head_null_iff.mp emptied

end Kernel

end SimpleOS
