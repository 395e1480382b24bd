import SimpleOS.Properties.RoundRobin
import SimpleOS.Properties.ProcessTree

/-!
# How far timer ticks carry the scheduler

A tick requeues the running process by removing it first, and the removal of a
process without links empties the queue.  So ticks alone use the queue up: each
queued process is dispatched once, and within a few ticks the scheduler is in a
state that no further tick changes.
-/

namespace SimpleOS

open Library.ByteMemory Library.LinkedChain Library.GuardedRun

namespace Kernel

/-- No tick changes the state any more. -/
def AtRest (s : Kernel) : Prop := ∀ saved, s.schedule saved = s

/-- A process has just been dispatched: it runs, without links and off the chain of the head. -/
structure Dispatched (s : Kernel) (nodes : List Word) : Prop where
  linked : Linked null s.links
  preempts : s.Preempts
  next_null : s.links.next s.currentProcess = null
  prev_null : s.links.prev s.currentProcess = null
  chain : Chain null s.links.next s.readyQueueHead nodes
  absent : s.currentProcess ∉ nodes

section Links

variable {links : Links Word} {node start : Word} {nodes : List Word}

/-- A node on a chain is its start or follows another node. -/
theorem exists_before {follow : Word → Word} (chain : Chain null follow start nodes)
    (member : node ∈ nodes) (later : start ≠ node) :
    ∃ earlier, earlier ≠ null ∧ follow earlier = node := by
  induction nodes generalizing start with
  | nil => cases member
  | cons first rest ih =>
      obtain ⟨rfl, nonnull, chained⟩ := chain
      rcases Classical.em (follow start = node) with here | further
      · exact ⟨start, nonnull, here⟩
      · exact ih chained ((List.mem_cons.mp member).resolve_left later.symm) further

/-- A node without a predecessor is on no chain that does not start with it. -/
theorem absent_of_prev_null (linked : Linked null links) (nonnull : node ≠ null)
    (prevNull : links.prev node = null) (notStart : start ≠ node)
    (chain : Chain null links.next start nodes) : node ∉ nodes := by
  intro member
  obtain ⟨earlier, earlierNonnull, before⟩ := exists_before chain member notStart
  exact earlierNonnull
    ((linked.prev_of_next earlierNonnull nonnull before).symm.trans prevNull)

end Links

section Tick

variable {s : Kernel} {head : Word} {rest nodes : List Word}

theorem requeueCurrent_keeps (linked : Linked null s.links) :
    Linked null s.requeueCurrent.links := by
  rw [requeueCurrent_links]
  split
  · next moves => exact linked.requeue moves.1.1
  · exact linked

/-- A tick that takes another process off the head dispatches it. -/
theorem schedule_dispatches (linked : Linked null s.links) (nonempty : s.readyQueueHead ≠ null)
    (other : s.readyQueueHead ≠ s.currentProcess) (saved : CpuState)
    (chain : Chain null (s.schedule saved).links.next (s.schedule saved).readyQueueHead nodes) :
    (s.schedule saved).Dispatched nodes := by
  have requeued := requeueCurrent_keeps linked
  have current : (s.schedule saved).currentProcess = s.readyQueueHead := by
    rw [schedule_currentProcess, chosen_of_queued nonempty]
  have links : (s.schedule saved).links = s.requeueCurrent.links.unlink null s.readyQueueHead := by
    rw [schedule_links s saved nonempty, if_neg other]
  have states : (s.schedule saved).states s.readyQueueHead = .running := by
    rw [schedule_states s saved nonempty, if_neg other, Function.update_self]
  have cleared := Links.unlink_self null s.requeueCurrent.links s.readyQueueHead
  have away := requeued.unlink_head_ne nonempty
  rw [← links] at cleared away
  have whole : Linked null (s.schedule saved).links := links ▸ requeued.unlink nonempty
  refine ⟨whole, ⟨current ▸ nonempty, current ▸ states⟩, current ▸ cleared.1,
    current ▸ cleared.2, chain, ?_⟩
  rw [current]
  exact absent_of_prev_null whole nonempty cleared.2 away chain

/-- From a queue, the old runner joins at most at its end. -/
theorem schedule_chain (linked : Linked null s.links)
    (chain : Chain null s.links.next s.readyQueueHead (head :: rest))
    (other : head ≠ s.currentProcess) (saved : CpuState) :
    ∃ nodes, (s.schedule saved).Dispatched nodes ∧ nodes.length ≤ rest.length + 1 ∧
      (¬ s.Preempts → nodes.length ≤ rest.length) := by
  obtain ⟨first, nonnull, _⟩ := id chain
  have nonempty : s.readyQueueHead ≠ null := first ▸ nonnull
  have notCurrent : s.readyQueueHead ≠ s.currentProcess := first ▸ other
  have links := schedule_links s saved nonempty
  rw [if_neg notCurrent, requeueCurrent_links] at links
  split at links
  · next moves =>
      have rotated := linked.rotate_chain chain moves.1.1 other.symm
      have short := List.length_erase_le (a := s.currentProcess) (l := rest)
      change Chain null (s.links.rotate null _).next (s.links.rotate null _).head _ at rotated
      have same : (s.schedule saved).links = s.links.rotate null s.currentProcess := links
      rw [← same] at rotated
      refine ⟨_, schedule_dispatches linked nonempty notCurrent saved rotated, ?_,
        fun stays => absurd moves.1 stays⟩
      split
      · rw [List.length_append, List.length_singleton]
        omega
      · omega
  · have left : Chain null (s.links.unlink null head).next (s.links.unlink null head).head rest :=
      linked.chain_unlink_head chain
    rw [← first, ← links] at left
    refine ⟨rest, schedule_dispatches linked nonempty notCurrent saved left, ?_, fun _ => ?_⟩
    · exact Nat.le_succ _
    · exact Nat.le_refl _

/-- With the running process at the head and not RUNNING any more, nothing moves. -/
theorem atRest_of_head (nonempty : s.readyQueueHead ≠ null)
    (same : s.readyQueueHead = s.currentProcess) (stays : ¬ s.Preempts) : s.AtRest := by
  intro saved
  rw [schedule, if_neg nonempty, requeueCurrent_of_not s stays]
  exact if_pos same

theorem atRest_of_idle (empty : s.readyQueueHead = null)
    (kernel : s.currentProcess = s.kernelProcess) : s.AtRest :=
  fun saved => schedule_idle saved empty kernel

/-- An empty queue hands the processor to the kernel process for good. -/
theorem schedule_empty_rests (empty : s.readyQueueHead = null) (saved : CpuState) :
    (s.schedule saved).AtRest := by
  have head : (s.schedule saved).readyQueueHead = null :=
    (congrArg Links.head (schedule_links_idle s saved empty)).trans empty
  refine atRest_of_idle head ?_
  rw [schedule_currentProcess, chosen_of_idle empty]
  exact (congrArg Registry.kernelProcess (schedule_registry s saved)).symm

/-- A running process at the head of the queue goes behind the others and stays current. -/
theorem schedule_head (linked : Linked null s.links)
    (chain : Chain null s.links.next s.readyQueueHead (head :: rest))
    (same : head = s.currentProcess) (preempts : s.Preempts) (saved : CpuState) :
    (s.schedule saved).AtRest ∨ Linked null (s.schedule saved).links ∧
      ¬ (s.schedule saved).Preempts ∧ (s.schedule saved).currentProcess = head ∧
      ∃ first others, Chain null (s.schedule saved).links.next (s.schedule saved).readyQueueHead
        (first :: others) ∧ first ≠ head ∧ others.length ≤ rest.length := by
  obtain ⟨first, nonnull, later⟩ := id chain
  have nonempty : s.readyQueueHead ≠ null := first ▸ nonnull
  have atHead : s.readyQueueHead = s.currentProcess := first.trans same
  have current : (s.schedule saved).currentProcess = head := by
    rw [schedule_currentProcess, chosen_of_queued nonempty, first]
  have stays : ¬ (s.schedule saved).Preempts := by
    rintro ⟨_, running⟩
    rw [current, schedule_states s saved nonempty, if_pos atHead, requeueCurrent_states,
      if_pos preempts, same, Function.update_self] at running
    cases running
  have rests (unmoved : (s.schedule saved).links.head = head) : (s.schedule saved).AtRest :=
    atRest_of_head (unmoved.trans_ne nonnull) (unmoved.trans current.symm) stays
  have links := schedule_links s saved nonempty
  rw [if_pos atHead, requeueCurrent_links] at links
  split at links
  · next moves =>
      rw [← same] at links
      have unlinked := linked.unlink nonnull
      have cleared := Links.unlink_self null s.links head
      have notHead := linked.unlink_head_ne nonnull
      have notTail := linked.unlink_tail_ne nonnull
      rcases Classical.em ((s.links.unlink null head).tail = null) with none | some
      · -- nothing is queued any more when the process is appended again
        refine Or.inl (rests ?_)
        rw [links]
        exact if_pos none
      · have appended : (s.schedule saved).links.head = (s.links.unlink null head).head := by
          rw [links]
          exact if_neg some
        cases rest with
        | nil =>
            have last : s.links.next head = null := later
            have prevNull : s.links.prev head = null := first ▸ linked.head_first nonempty
            exact absurd ((if_pos last).trans prevNull) some
        | cons next others =>
            have left := linked.chain_unlink_head chain
            have joined := unlinked.chain_append nonnull cleared.2 notTail.symm left notHead
            rw [← links, ← appended] at joined
            have whole : Linked null (s.schedule saved).links :=
              links ▸ linked.requeue nonnull
            have different : next ≠ head := fun equal =>
              notHead (left.1.trans equal)
            refine Or.inr ⟨whole, stays, current, next, ?_⟩
            split at joined
            · refine ⟨others ++ [head], joined, different, ?_⟩
              rw [List.length_append, List.length_singleton, List.length_cons]
            · refine ⟨others, joined, different, ?_⟩
              rw [List.length_cons]
              exact Nat.le_succ _
  · refine Or.inl (rests ?_)
    rw [links]
    exact first

end Tick

section Ticks

variable {s : Kernel} {nodes : List Word}

/-- Ticks after ticks. -/
theorem ticks_add (s : Kernel) (saved : Nat → CpuState) (first second : Nat) :
    s.ticks saved (first + second) =
      (s.ticks saved first).ticks (fun count => saved (first + count)) second := by
  induction second with
  | zero => rfl
  | succ second ih => exact congrArg (fun t => schedule t (saved (first + second))) ih

theorem AtRest.ticks (rests : s.AtRest) (saved : Nat → CpuState) (count : Nat) :
    s.ticks saved count = s := by
  induction count with
  | zero => rfl
  | succ count ih => rw [Kernel.ticks, ih, rests]

/-- The next process of the chain is dispatched, and the old one does not come back. -/
theorem Dispatched.tick {head : Word} {rest : List Word} (d : s.Dispatched (head :: rest))
    (saved : CpuState) :
    (s.schedule saved).Dispatched rest ∧ (s.schedule saved).currentProcess = head ∧
      (s.schedule saved).states =
        Function.update (Function.update s.states s.currentProcess .ready) head .running := by
  obtain ⟨first, nonnull, _⟩ := id d.chain
  have nonempty : s.readyQueueHead ≠ null := first ▸ nonnull
  have notHead : s.currentProcess ≠ head := fun same => d.absent (same ▸ List.mem_cons_self)
  have notCurrent : s.readyQueueHead ≠ s.currentProcess := first ▸ notHead.symm
  have headPrev : s.links.prev head = null := first ▸ d.linked.head_first nonempty
  have links := schedule_links s saved nonempty
  rw [if_neg notCurrent, requeueCurrent_links] at links
  have left : Chain null (s.schedule saved).links.next (s.schedule saved).links.head rest := by
    split at links
    · rw [links]
      exact Links.rotate_isolated d.chain headPrev d.next_null d.prev_null notHead
    · rw [links, first]
      exact d.linked.chain_unlink_head d.chain
  refine ⟨schedule_dispatches d.linked nonempty notCurrent saved left, ?_, ?_⟩
  · rw [schedule_currentProcess, chosen_of_queued nonempty, first]
  · rw [schedule_states s saved nonempty, if_neg notCurrent, requeueCurrent_states,
      if_pos d.preempts, first]

/-- The first tick and the later ones. -/
theorem ticks_succ (s : Kernel) (saved : Nat → CpuState) (count : Nat) :
    s.ticks saved (count + 1) =
      (s.schedule (saved 0)).ticks (fun later => saved (later + 1)) count := by
  induction count with
  | zero => rfl
  | succ count ih => exact congrArg (fun t => schedule t (saved (count + 1))) ih

/-- A chain is used up one process a tick. -/
theorem Dispatched.ends (d : s.Dispatched nodes) (saved : Nat → CpuState) :
    (s.ticks saved (nodes.length + 1)).AtRest := by
  induction nodes generalizing s saved with
  | nil => exact schedule_empty_rests d.chain (saved 0)
  | cons head rest ih =>
      rw [List.length_cons, ticks_succ]
      exact ih (d.tick (saved 0)).1 _

/-- Ticks alone use up the queue, whatever state they begin in. -/
theorem rests_within (linked : Linked null s.links)
    (chain : Chain null s.links.next s.readyQueueHead nodes) (saved : Nat → CpuState) :
    ∃ count ≤ nodes.length + 2, (s.ticks saved count).AtRest := by
  cases nodes with
  | nil => exact ⟨1, Nat.le_add_left 1 1, schedule_empty_rests chain (saved 0)⟩
  | cons head rest =>
      have nonempty : s.readyQueueHead ≠ null := chain.1 ▸ chain.2.1
      rw [List.length_cons]
      rcases Classical.em (head = s.currentProcess) with same | other
      · rcases Classical.em s.Preempts with preempts | stays
        · rcases schedule_head linked chain same preempts (saved 0) with
            rests | ⟨linked, stays, current, first, others, chain, different, short⟩
          · exact ⟨1, by omega, rests⟩
          · obtain ⟨nodes, dispatched, _, fewer⟩ :=
              schedule_chain linked chain (current ▸ different) (saved 1)
            have bound := fewer stays
            refine ⟨nodes.length + 1 + 1 + 1, by omega, ?_⟩
            rw [ticks_succ, ticks_succ]
            exact dispatched.ends _
        · exact ⟨0, Nat.zero_le _, atRest_of_head nonempty (chain.1.trans same) stays⟩
      · obtain ⟨nodes, dispatched, bound, _⟩ := schedule_chain linked chain other (saved 0)
        refine ⟨nodes.length + 1 + 1, by omega, ?_⟩
        rw [ticks_succ]
        exact dispatched.ends _

/-- A state at rest runs the kernel process over an empty queue, or a process that is not RUNNING
and heads the queue. -/
theorem AtRest.runs (rests : s.AtRest) :
    (s.readyQueueHead = null ∧ s.currentProcess = s.kernelProcess) ∨
      (s.readyQueueHead = s.currentProcess ∧ s.states s.currentProcess ≠ .running) := by
  have current : s.currentProcess = s.chosen := by
    rw [← schedule_currentProcess s {}, rests]
  by_cases empty : s.readyQueueHead = null
  · exact Or.inl ⟨empty, current.trans (chosen_of_idle empty)⟩
  · rw [chosen_of_queued empty] at current
    refine Or.inr ⟨current.symm, fun running => ?_⟩
    have states := schedule_states s {} empty
    have preempts : s.Preempts := ⟨current ▸ empty, running⟩
    rw [rests, if_pos current.symm, requeueCurrent_states, if_pos preempts] at states
    rw [states, Function.update_self] at running
    cases running

end Ticks

section Reachable

variable {image : Image} {s : Kernel}

/-- The queue of a reachable state has ten processes at most. -/
theorem chain_length_le (coherent : s.Coherent image) {nodes : List Word}
    (chain : Chain null s.links.next s.readyQueueHead nodes) : nodes.length ≤ 10 := by
  have slots : ∀ node ∈ nodes, node ∈ (List.range 10).map image.testSlot := by
    intro node member
    obtain ⟨index, bound, rfl, _⟩ := coherent.queued_active ⟨nodes, chain, member⟩
    exact List.mem_map_of_mem
      (List.mem_range.mpr (Nat.lt_of_lt_of_le bound coherent.count))
  have length := (chain.nodup.subperm slots).length_le
  rwa [List.length_map, List.length_range] at length

/-- From every state of every run from the booted state, twelve timer ticks with nothing else in
between bring the scheduler to rest: no later tick changes anything, and the processor stays with
the kernel process over an empty queue or with a process that heads the queue without being
RUNNING. -/
theorem ticks_come_to_rest (image : Image) {ops : List ProcessOp}
    (outside : ∀ op ∈ ops, op.StatusOutside image) (saved : Nat → CpuState) (count : Nat) :
    let rested := (run (Kernel.step image) (boot image) ops).ticks saved 12
    (run (Kernel.step image) (boot image) ops).ticks saved (12 + count) = rested ∧
      ((rested.readyQueueHead = null ∧ rested.currentProcess = rested.kernelProcess) ∨
        (rested.readyQueueHead = rested.currentProcess ∧
          rested.states rested.currentProcess ≠ .running)) := by
  have coherent := run_coherent (boot_coherent image) outside
  generalize run (Kernel.step image) (boot image) ops = s at coherent
  obtain ⟨nodes, chain⟩ := coherent.linked.finite s.readyQueueHead
  obtain ⟨early, bound, rests⟩ := rests_within coherent.linked chain saved
  have short := chain_length_le coherent chain
  have settled (later : Nat) (after : early ≤ later) :
      s.ticks saved later = s.ticks saved early := by
    obtain ⟨more, rfl⟩ := Nat.exists_eq_add_of_le after
    rw [ticks_add, rests.ticks]
  rw [settled (12 + count) (by omega), settled 12 (by omega)]
  exact ⟨rfl, rests.runs⟩

/-- Two children of the kernel process, which is running. -/
theorem ticks_come_to_rest_fork_fork :
    let rested := (run (Kernel.step .sample) (boot .sample) [.fork, .fork]).ticks (fun _ => {}) 12
    (run (Kernel.step .sample) (boot .sample) [.fork, .fork]).ticks (fun _ => {}) (12 + 88) =
        rested ∧
      ((rested.readyQueueHead = null ∧ rested.currentProcess = rested.kernelProcess) ∨
        (rested.readyQueueHead = rested.currentProcess ∧
          rested.states rested.currentProcess ≠ .running)) := by
  refine ticks_come_to_rest .sample (fun op member => ?_) _ 88
  simp only [List.mem_cons, List.not_mem_nil, or_false] at member
  rcases member with rfl | rfl <;> trivial

end Reachable

end Kernel

end SimpleOS
