import SimpleOS.Library.ChainFrame
import SimpleOS.Library.GuardedRun
import SimpleOS.Kernel.Operations

/-!
# The ready queue as a list of processes

`add_to_ready_queue` and `remove_from_ready_queue` on a queue that represents a
list: the first appends to the list, the second takes a process off it at any
position, and both write only the two ends of the queue and the links of the
listed processes.
-/

namespace SimpleOS

open Library.ByteMemory Library.LinkedChain Library.GuardedRun

namespace Kernel

/-- Every field of a record except its two links. -/
def unlinked (s : Kernel) (target : Word) : Process :=
  { s.process target with next := null, prev := null }

/-- One state arises from another by assigning queue ends and links of the listed processes. -/
structure RelinksOnly (s t : Kernel) (nodes : List Word) : Prop where
  fields : ∀ target, t.unlinked target = s.unlinked target
  others : ∀ target, target ∉ nodes → t.process target = s.process target
  registry : t.registry = s.registry
  current : t.currentProcess = s.currentProcess

variable {s : Kernel} {nodes : List Word} {process : Word}

/-- An assignment of links that agrees with the old links off the list. -/
theorem relinksOnly_withLinks {links : Links Word}
    (agree : ∀ target, target ∉ nodes →
      links.next target = s.links.next target ∧ links.prev target = s.links.prev target) :
    s.RelinksOnly (s.withLinks links) nodes := by
  constructor
  · intro target
    rfl
  · intro target absent
    obtain ⟨next, prev⟩ := agree target absent
    rw [withLinks_process, next, prev]
    rfl
  · exact withLinks_registry s links
  · exact withLinks_currentProcess s links

/-- What `add_to_ready_queue` does to a queue without the process. -/
theorem addToReadyQueue_list (queue : IsQueue null s.links nodes) (nonnull : process ≠ null)
    (ready : (s.process process).state = .ready) (absent : process ∉ nodes) :
    IsQueue null (s.addToReadyQueue process).links (nodes ++ [process]) ∧
      s.RelinksOnly (s.addToReadyQueue process) (process :: nodes) := by
  rw [s.addToReadyQueue_eq nonnull ready]
  constructor
  · exact queue.append nonnull absent
  · apply relinksOnly_withLinks
    intro target outside
    rw [List.mem_cons, not_or] at outside
    obtain ⟨apart, unlisted⟩ := outside
    exact queue.append_other apart unlisted

/-- What `remove_from_ready_queue` does to a queue with the process at any position. -/
theorem removeFromReadyQueue_list {front back : List Word}
    (queue : IsQueue null s.links (front ++ process :: back)) :
    IsQueue null (s.removeFromReadyQueue process).links (front ++ back) ∧
      s.RelinksOnly (s.removeFromReadyQueue process) (front ++ process :: back) := by
  have member : process ∈ front ++ process :: back := by simp
  rw [s.removeFromReadyQueue_eq (queue.ne_null process member)]
  constructor
  · exact queue.unlink
  · apply relinksOnly_withLinks
    intro target outside
    exact queue.unlink_other member outside

/-- The removal of a process that was just added gives back the old queue. -/
theorem addToReadyQueue_removed (queue : IsQueue null s.links nodes) (nonnull : process ≠ null)
    (ready : (s.process process).state = .ready) (absent : process ∉ nodes) :
    IsQueue null ((s.addToReadyQueue process).removeFromReadyQueue process).links nodes := by
  rw [removeFromReadyQueue_links _ nonnull, s.addToReadyQueue_eq nonnull ready, withLinks_links]
  exact queue.append_unlink nonnull absent

/--
The two queue routines are the list operations: adding a READY process appends
it, removing a listed process deletes it where it stands and clears its links,
nothing but links of listed processes changes, and the removal of a process that
was just added restores both ends and every link of the list.
-/
theorem readyQueue_implements_list (s : Kernel) (nodes : List Word)
    (queue : IsQueue null s.links nodes) :
    (∀ process, process ≠ null → (s.process process).state = .ready → process ∉ nodes →
      IsQueue null (s.addToReadyQueue process).links (nodes ++ [process]) ∧
        s.RelinksOnly (s.addToReadyQueue process) (process :: nodes)) ∧
    (∀ front process back, nodes = front ++ process :: back →
      IsQueue null (s.removeFromReadyQueue process).links (front ++ back) ∧
        ((s.removeFromReadyQueue process).process process).next = null ∧
        ((s.removeFromReadyQueue process).process process).prev = null ∧
        s.RelinksOnly (s.removeFromReadyQueue process) nodes) ∧
    (∀ process, process ≠ null → (s.process process).state = .ready → process ∉ nodes →
      let restored := (s.addToReadyQueue process).removeFromReadyQueue process
      restored.readyQueueHead = s.readyQueueHead ∧ restored.readyQueueTail = s.readyQueueTail ∧
        ∀ node ∈ nodes, (restored.process node).next = (s.process node).next ∧
          (restored.process node).prev = (s.process node).prev) := by
  refine ⟨?_, ?_, ?_⟩
  · intro process nonnull ready absent
    exact addToReadyQueue_list queue nonnull ready absent
  · intro front process back split
    subst split
    obtain ⟨shape, frame⟩ := removeFromReadyQueue_list queue
    have links := s.removeFromReadyQueue_links (queue.ne_null process (by simp))
    have cleared := Links.unlink_self null s.links process
    rw [← links] at cleared
    exact ⟨shape, cleared.1, cleared.2, frame⟩
  · intro process nonnull ready absent
    exact queue.congr_iff.mp (addToReadyQueue_removed queue nonnull ready absent)

/-- With three children queued, the middle one leaves, and a cleared record joins and leaves. -/
theorem readyQueue_implements_list_three_forks :
    ∃ s, s = run (step Image.sample) (boot Image.sample) [.fork, .fork, .fork] ∧
      IsQueue null (s.addToReadyQueue (Image.sample.createSlot 0)).links
        [Image.sample.testSlot 1, Image.sample.testSlot 2, Image.sample.testSlot 3,
          Image.sample.createSlot 0] ∧
      IsQueue null (s.removeFromReadyQueue (Image.sample.testSlot 2)).links
        [Image.sample.testSlot 1, Image.sample.testSlot 3] ∧
      ((s.addToReadyQueue (Image.sample.createSlot 0)).removeFromReadyQueue
        (Image.sample.createSlot 0)).readyQueueTail = s.readyQueueTail := by
  have facts : ∀ s, s = run (step Image.sample) (boot Image.sample) [.fork, .fork, .fork] →
      IsQueue null s.links [Image.sample.testSlot 1, Image.sample.testSlot 2,
        Image.sample.testSlot 3] ∧ (s.process (Image.sample.createSlot 0)).state = .ready := by
    intro s reached
    rw [reached]
    decide +kernel
  refine ⟨_, rfl, ?_⟩
  obtain ⟨queue, ready⟩ := facts _ rfl
  generalize run (step Image.sample) (boot Image.sample) [.fork, .fork, .fork] = s
    at queue ready ⊢
  have nonnull : Image.sample.createSlot 0 ≠ null := Image.createSlot_ne_null (by decide)
  have absent : Image.sample.createSlot 0 ∉
      [Image.sample.testSlot 1, Image.sample.testSlot 2, Image.sample.testSlot 3] := by decide
  obtain ⟨adds, removes, restores⟩ := readyQueue_implements_list s _ queue
  refine ⟨(adds _ nonnull ready absent).1, ?_, ?_⟩
  · exact (removes [_] _ [_] rfl).1
  · exact (restores _ nonnull ready absent).2.1

end Kernel

end SimpleOS
