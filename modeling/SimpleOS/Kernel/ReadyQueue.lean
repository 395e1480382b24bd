import SimpleOS.Kernel.State

/-!
# The ready queue

`add_to_ready_queue` and `remove_from_ready_queue`, assignment by assignment,
and the equations that reduce them to the two pointer updates of the chain
library.  Neither routine changes a field other than the links.
-/

namespace SimpleOS

open Library.ByteMemory Library.LinkedChain

namespace Kernel

/-- `target->next = value`. -/
def setNext (s : Kernel) (target value : Word) : Kernel :=
  s.modify target fun record => { record with next := value }

/-- `target->prev = value`. -/
def setPrev (s : Kernel) (target value : Word) : Kernel :=
  s.modify target fun record => { record with prev := value }

/-- `ready_queue_head = value`. -/
def setHead (s : Kernel) (value : Word) : Kernel :=
  { s with readyQueueHead := value }

/-- `ready_queue_tail = value`. -/
def setTail (s : Kernel) (value : Word) : Kernel :=
  { s with readyQueueTail := value }

def addToReadyQueue (s : Kernel) (process : Word) : Kernel :=
  if process = null ∨ (s.process process).state ≠ .ready then s
  else
    let s := s.setNext process null
    let s := s.setPrev process s.readyQueueTail
    let s :=
      if s.readyQueueTail ≠ null then s.setNext s.readyQueueTail process
      else s.setHead process
    s.setTail process

def removeFromReadyQueue (s : Kernel) (process : Word) : Kernel :=
  if process = null then s
  else
    let s :=
      if (s.process process).prev ≠ null then
        s.setNext (s.process process).prev (s.process process).next
      else s.setHead (s.process process).next
    let s :=
      if (s.process process).next ≠ null then
        s.setPrev (s.process process).next (s.process process).prev
      else s.setTail (s.process process).prev
    let s := s.setNext process null
    s.setPrev process null

/-! ## The links as one component of the state -/

/-- The state with other links. -/
def withLinks (s : Kernel) (links : Links Word) : Kernel :=
  { s with
    process := fun target =>
      { s.process target with next := links.next target, prev := links.prev target }
    readyQueueHead := links.head
    readyQueueTail := links.tail }

section LinkFields

variable (s : Kernel) (links : Links Word)

@[simp] theorem withLinks_links : (s.withLinks links).links = links := rfl
@[simp] theorem withLinks_self : s.withLinks s.links = s := rfl
@[simp] theorem withLinks_withLinks (other : Links Word) :
    (s.withLinks links).withLinks other = s.withLinks other := rfl
@[simp] theorem withLinks_process (target : Word) :
    (s.withLinks links).process target =
      { s.process target with next := links.next target, prev := links.prev target } := rfl
@[simp] theorem withLinks_states : (s.withLinks links).states = s.states := rfl
@[simp] theorem withLinks_identity : (s.withLinks links).identity = s.identity := rfl
@[simp] theorem withLinks_registry : (s.withLinks links).registry = s.registry := rfl
@[simp] theorem withLinks_readyQueueHead : (s.withLinks links).readyQueueHead = links.head := rfl
@[simp] theorem withLinks_readyQueueTail : (s.withLinks links).readyQueueTail = links.tail := rfl
@[simp] theorem withLinks_currentProcess :
    (s.withLinks links).currentProcess = s.currentProcess := rfl

theorem setHead_eq (value : Word) : s.setHead value = s.withLinks { s.links with head := value } :=
  rfl

theorem setTail_eq (value : Word) : s.setTail value = s.withLinks { s.links with tail := value } :=
  rfl

theorem setNext_eq (target value : Word) :
    s.setNext target value =
      s.withLinks { s.links with next := Function.update s.links.next target value } := by
  have records : (s.setNext target value).process = fun other =>
      { s.process other with next := Function.update s.links.next target value other } := by
    funext other
    by_cases same : other = target
    · subst same
      simp [setNext]
    · simp [setNext, same, links]
  rw [setNext, modify, withLinks, Kernel.mk.injEq]
  exact ⟨rfl, rfl, rfl, rfl, rfl, rfl, rfl, rfl, records, rfl, rfl⟩

theorem setPrev_eq (target value : Word) :
    s.setPrev target value =
      s.withLinks { s.links with prev := Function.update s.links.prev target value } := by
  have records : (s.setPrev target value).process = fun other =>
      { s.process other with prev := Function.update s.links.prev target value other } := by
    funext other
    by_cases same : other = target
    · subst same
      simp [setPrev]
    · simp [setPrev, same, links]
  rw [setPrev, modify, withLinks, Kernel.mk.injEq]
  exact ⟨rfl, rfl, rfl, rfl, rfl, rfl, rfl, rfl, records, rfl, rfl⟩

end LinkFields

/-! ## What the two routines do to the links -/

theorem addToReadyQueue_eq (s : Kernel) {process : Word} (nonnull : process ≠ null)
    (ready : (s.process process).state = .ready) :
    s.addToReadyQueue process = s.withLinks (s.links.append null process) := by
  have passed : ¬ (process = null ∨ (s.process process).state ≠ .ready) :=
    fun failed => failed.elim nonnull fun notReady => notReady ready
  rw [addToReadyQueue, if_neg passed]
  by_cases empty : s.readyQueueTail = null
  · simp only [setNext_eq, setPrev_eq, setHead_eq, setTail_eq, withLinks_readyQueueTail,
      withLinks_withLinks, ne_eq, empty, links, not_true_eq_false, if_false]
    congr 1
    simp only [Links.append, Links.mk.injEq]
    refine ⟨funext fun other => ?_, funext fun other => ?_, ?_, trivial⟩ <;>
      simp [Function.update_apply]
  · simp only [setNext_eq, setPrev_eq, setTail_eq, withLinks_readyQueueTail,
      withLinks_withLinks, ne_eq, empty, links, not_false_eq_true, if_true]
    congr 1
    simp only [Links.append, Links.mk.injEq]
    refine ⟨funext fun other => ?_, funext fun other => ?_, ?_, trivial⟩
    · by_cases atTail : other = s.readyQueueTail
      · simp [Function.update_apply, atTail, empty]
      · simp [Function.update_apply, atTail]
    · simp [Function.update_apply]
    · simp [empty]

/-- The first assignment of the removal: the predecessor, or the head. -/
private theorem remove_first (s : Kernel) (process : Word) :
    (if (s.process process).prev ≠ null then
      s.setNext (s.process process).prev (s.process process).next
    else s.setHead (s.process process).next) =
      s.withLinks (if s.links.prev process ≠ null then
        { s.links with
          next := Function.update s.links.next (s.links.prev process) (s.links.next process) }
      else { s.links with head := s.links.next process }) := by
  change (if s.links.prev process ≠ null then
      s.setNext (s.links.prev process) (s.links.next process)
    else s.setHead (s.links.next process)) = _
  split
  · exact setNext_eq s _ _
  · rfl

/-- The second one: the successor, or the tail. -/
private theorem remove_second (s : Kernel) (process : Word) :
    (if (s.process process).next ≠ null then
      s.setPrev (s.process process).next (s.process process).prev
    else s.setTail (s.process process).prev) =
      s.withLinks (if s.links.next process ≠ null then
        { s.links with
          prev := Function.update s.links.prev (s.links.next process) (s.links.prev process) }
      else { s.links with tail := s.links.prev process }) := by
  change (if s.links.next process ≠ null then
      s.setPrev (s.links.next process) (s.links.prev process)
    else s.setTail (s.links.prev process)) = _
  split
  · exact setPrev_eq s _ _
  · rfl

theorem removeFromReadyQueue_eq (s : Kernel) {process : Word} (nonnull : process ≠ null) :
    s.removeFromReadyQueue process = s.withLinks (s.links.unlink null process) := by
  rw [removeFromReadyQueue, if_neg nonnull, remove_first]
  dsimp only
  rw [remove_second]
  simp only [setNext_eq, setPrev_eq, withLinks_withLinks, withLinks_links]
  congr 1
  generalize s.links = links
  -- the first assignment leaves `process->next` as it was, also on a self-loop
  have kept : Function.update links.next (links.prev process) (links.next process) process =
      links.next process := by
    by_cases loop : process = links.prev process
    · rw [← loop, Function.update_self]
    · rw [Function.update_of_ne loop]
  by_cases first : links.prev process = null
  · by_cases last : links.next process = null <;>
      simp only [first, last, Links.unlink, ne_eq, not_true_eq_false, not_false_eq_true, if_true,
        if_false, Links.mk.injEq, and_true] <;>
      refine ⟨funext fun other => ?_, funext fun other => ?_⟩ <;>
      simp only [Function.update_apply] <;>
      grind
  · by_cases last : links.next process = null <;>
      simp only [kept, first, Links.unlink, ne_eq, not_false_eq_true, if_true, if_false] <;>
      simp only [last, not_true_eq_false, not_false_eq_true, if_true, if_false, Links.mk.injEq,
        and_true] <;>
      refine ⟨funext fun other => ?_, funext fun other => ?_⟩ <;>
      simp only [Function.update_apply] <;>
      grind

theorem removeFromReadyQueue_links (s : Kernel) {process : Word} (nonnull : process ≠ null) :
    (s.removeFromReadyQueue process).links = s.links.unlink null process := by
  rw [removeFromReadyQueue_eq s nonnull, withLinks_links]

/-! ## What they leave alone -/

section Frame

variable (s : Kernel) (process : Word)

/-- Removal is always a change of links. -/
theorem removeFromReadyQueue_exists :
    ∃ links, s.removeFromReadyQueue process = s.withLinks links := by
  by_cases isNull : process = null
  · exact ⟨s.links, by rw [removeFromReadyQueue, if_pos isNull, withLinks_self]⟩
  · exact ⟨_, s.removeFromReadyQueue_eq isNull⟩

/-- So is insertion. -/
theorem addToReadyQueue_exists :
    ∃ links, s.addToReadyQueue process = s.withLinks links := by
  by_cases refused : process = null ∨ (s.process process).state ≠ .ready
  · exact ⟨s.links, by rw [addToReadyQueue, if_pos refused, withLinks_self]⟩
  · obtain ⟨nonnull, ready⟩ := not_or.mp refused
    exact ⟨_, s.addToReadyQueue_eq nonnull (not_not.mp ready)⟩

@[simp] theorem removeFromReadyQueue_states :
    (s.removeFromReadyQueue process).states = s.states := by
  obtain ⟨links, same⟩ := s.removeFromReadyQueue_exists process
  rw [same, withLinks_states]

@[simp] theorem removeFromReadyQueue_identity :
    (s.removeFromReadyQueue process).identity = s.identity := by
  obtain ⟨links, same⟩ := s.removeFromReadyQueue_exists process
  rw [same, withLinks_identity]

@[simp] theorem removeFromReadyQueue_registry :
    (s.removeFromReadyQueue process).registry = s.registry := by
  obtain ⟨links, same⟩ := s.removeFromReadyQueue_exists process
  rw [same, withLinks_registry]

@[simp] theorem removeFromReadyQueue_currentProcess :
    (s.removeFromReadyQueue process).currentProcess = s.currentProcess := by
  obtain ⟨links, same⟩ := s.removeFromReadyQueue_exists process
  rw [same, withLinks_currentProcess]

@[simp] theorem addToReadyQueue_states :
    (s.addToReadyQueue process).states = s.states := by
  obtain ⟨links, same⟩ := s.addToReadyQueue_exists process
  rw [same, withLinks_states]

@[simp] theorem addToReadyQueue_identity :
    (s.addToReadyQueue process).identity = s.identity := by
  obtain ⟨links, same⟩ := s.addToReadyQueue_exists process
  rw [same, withLinks_identity]

@[simp] theorem addToReadyQueue_registry :
    (s.addToReadyQueue process).registry = s.registry := by
  obtain ⟨links, same⟩ := s.addToReadyQueue_exists process
  rw [same, withLinks_registry]

@[simp] theorem addToReadyQueue_currentProcess :
    (s.addToReadyQueue process).currentProcess = s.currentProcess := by
  obtain ⟨links, same⟩ := s.addToReadyQueue_exists process
  rw [same, withLinks_currentProcess]

end Frame

end Kernel

end SimpleOS
