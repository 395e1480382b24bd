import SimpleOS.Library.GuardedRun
import SimpleOS.Invariant.Effects

/-!
# The shape of the ready queue over runs

The ready queue starts well formed and stays so until a scheduling step
requeues a current process that has no successor, or a wait unlinks a child
that is chained up elsewhere.  Both lose the queue because
`remove_from_ready_queue` never asks whether its argument is linked.
-/

namespace SimpleOS

open Library.ByteMemory Library.LinkedChain Library.GuardedRun

namespace Kernel

/--
The ready queue is a well-formed doubly linked list: a finite chain of distinct
records from head to tail, nothing after the tail or before the head, inverse
links, and both ends NULL together.
-/
def WellFormedQueue (s : Kernel) : Prop :=
  ∃ nodes : List Word,
    Chain null s.links.next s.readyQueueHead nodes ∧
    nodes.Nodup ∧
    nodes.getLast?.getD null = s.readyQueueTail ∧
    (s.readyQueueTail ≠ null → s.links.next s.readyQueueTail = null) ∧
    (∀ first ∈ nodes, ∀ second ∈ nodes,
      s.links.next first = second ↔ s.links.prev second = first) ∧
    (s.readyQueueHead ≠ null → s.links.prev s.readyQueueHead = null) ∧
    (s.readyQueueHead = null ↔ s.readyQueueTail = null)

/-- A scheduling step moves a current process that is last in a chain of its own. -/
def Derails (s : Kernel) : Prop :=
  s.readyQueueHead ≠ null ∧ s.readyQueueHead ≠ s.readyQueueTail ∧ s.Preempts ∧
    s.currentProcess ≠ s.readyQueueTail ∧ (s.process s.currentProcess).next = null

instance (s : Kernel) : Decidable s.Derails :=
  inferInstanceAs (Decidable (_ ∧ _ ∧ _ ∧ _ ∧ _))

/-- The condition under which an operation keeps the queue well formed. -/
def QueueSafe (s : Kernel) : ProcessOp → Prop
  | .schedule _ => ¬ s.Derails
  | .wait _ => ∀ proc, s.reaped? = some proc → ¬ s.links.Strays null proc
  | _ => True

/-- Two forks and a tick from boot: the head no longer leads to the tail. -/
theorem fork_fork_schedule_loses_tail :
    ¬ Always (step Image.sample) WellFormedQueue (boot Image.sample)
      [.fork, .fork, .schedule {}] := by
  intro always
  have wellFormed := always.last
  have ends : ∀ s, s = run (step Image.sample) (boot Image.sample) [.fork, .fork, .schedule {}] →
      s.readyQueueHead ≠ null ∧ s.links.next s.readyQueueHead = null ∧
        s.readyQueueTail ≠ s.readyQueueHead := by
    intro s reached
    rw [reached]
    decide +kernel
  generalize run (step Image.sample) (boot Image.sample) [.fork, .fork, .schedule {}] = s
    at wellFormed ends
  obtain ⟨nonempty, last, apart⟩ := ends s rfl
  obtain ⟨nodes, chain, _, tail, _⟩ := wellFormed
  obtain ⟨rest, split, later⟩ := Chain.exists_cons chain nonempty
  rw [last] at later
  have empty : rest = [] := later.unique (chain_nil_iff.mpr rfl)
  subst empty
  exact apart (by rw [← tail, split]; rfl)

variable {image : Image} {s t : Kernel}

/-- Over linked chains, a well-formed queue is a represented list. -/
theorem wellFormedQueue_iff (linked : Linked null s.links) :
    s.WellFormedQueue ↔ ∃ nodes, IsQueue null s.links nodes := by
  constructor
  · rintro ⟨nodes, chain, _, last, _⟩
    exact ⟨nodes, (linked.isQueue_iff chain).mpr last.symm⟩
  · rintro ⟨nodes, queue⟩
    refine ⟨nodes, queue.forward, queue.nodup, queue.tail_eq.symm, linked.tail_last, ?_,
      linked.head_first, ?_⟩
    · exact fun first firstMem second secondMem => queue.next_eq_iff firstMem secondMem
    · exact queue.head_null_iff.trans queue.tail_null_iff.symm

theorem wellFormedQueue_congr (linked : Linked null s.links) (links : t.links = s.links) :
    t.WellFormedQueue ↔ s.WellFormedQueue := by
  rw [wellFormedQueue_iff linked, wellFormedQueue_iff (links.symm ▸ linked), links]

namespace Coherent

/-- One scheduling step, from a well-formed queue. -/
theorem schedule_wellFormed_iff (coherent : s.Coherent image) (wellFormed : s.WellFormedQueue)
    (saved : CpuState) : (s.schedule saved).WellFormedQueue ↔ ¬ s.Derails := by
  rw [wellFormedQueue_iff (coherent.schedule saved).linked]
  obtain ⟨nodes, queue⟩ := (wellFormedQueue_iff coherent.linked).mp wellFormed
  by_cases empty : s.readyQueueHead = null
  · rw [schedule_links_idle s saved empty]
    exact ⟨fun _ derails => derails.1 empty, fun _ => ⟨nodes, queue⟩⟩
  · obtain ⟨rest, split, _⟩ := Chain.exists_cons queue.forward empty
    subst split
    rw [schedule_links s saved empty, requeueCurrent_links]
    by_cases moves : s.Preempts ∧ s.currentProcess ≠ s.readyQueueTail
    · rw [if_pos moves]
      by_cases same : s.readyQueueHead = s.currentProcess
      · -- the head itself moves to the back
        rw [if_pos same]
        have more : (s.process s.currentProcess).next ≠ null := by
          intro last
          have ending := Chain.getLast?_of_null queue.forward
            (same ▸ List.mem_cons_self : s.currentProcess ∈ s.links.head :: rest) last
          exact moves.2 (queue.tail_eq.trans (by rw [ending]; rfl)).symm
        refine ⟨fun _ derails => more derails.2.2.2.2, fun _ => ⟨rest ++ [s.currentProcess], ?_⟩⟩
        rw [← same]
        exact (IsQueue.unlink_head queue).append empty (List.nodup_cons.mp queue.nodup).1
      · rw [if_neg same]
        have rotated := coherent.linked.exists_isQueue_rotate_iff queue moves.1.1
          (Ne.symm same) moves.2
        refine rotated.trans (not_congr ?_)
        exact ⟨fun both => ⟨empty, both.2, moves.1, moves.2, both.1⟩,
          fun derails => ⟨derails.2.2.2.2, derails.2.1⟩⟩
    · rw [if_neg moves]
      refine ⟨fun _ derails => moves ⟨derails.2.2.1, derails.2.2.2.1⟩, fun _ => ?_⟩
      split
      · exact ⟨_, queue⟩
      · exact ⟨rest, IsQueue.unlink_head queue⟩

theorem sysExit_wellFormed (coherent : s.Coherent image) (wellFormed : s.WellFormedQueue)
    (saved : CpuState) (exitCode : Word) : (s.sysExit saved exitCode).WellFormedQueue := by
  by_cases current : s.currentProcess = null
  · rw [sysExit_null s saved exitCode current]
    exact wellFormed
  · rw [sysExit_eq s saved exitCode current]
    have exited := coherent.exited current exitCode
    have shape := (wellFormedQueue_congr coherent.linked (s.exited_links exitCode)).mpr wellFormed
    -- no process is current when `sys_exit` schedules, so none is requeued
    exact (exited.schedule_wellFormed_iff shape saved).mpr fun derails => derails.2.2.1.1 rfl

theorem sysFork_wellFormed (coherent : s.Coherent image) (wellFormed : s.WellFormedQueue) :
    (s.sysFork image).2.WellFormedQueue := by
  rcases coherent.sysFork_links_cases with same | ⟨room, appended⟩
  · exact (wellFormedQueue_congr coherent.linked same).mpr wellFormed
  · obtain ⟨nodes, queue⟩ := (wellFormedQueue_iff coherent.linked).mp wellFormed
    have fresh : image.testSlot s.testCount ∉ nodes := fun member =>
      next_not_active room (coherent.queued_active ⟨nodes, queue.forward, member⟩)
    refine (wellFormedQueue_iff coherent.sysFork.linked).mpr
      ⟨nodes ++ [image.testSlot s.testCount], ?_⟩
    rw [appended]
    exact queue.append (Image.testSlot_ne_null room) fresh

theorem sysWait_wellFormed_iff (coherent : s.Coherent image) (wellFormed : s.WellFormedQueue)
    {status : Word} (outside : status = null ∨ image.Outside status) :
    (s.sysWait image status).2.WellFormedQueue ↔
      ∀ proc, s.reaped? = some proc → ¬ s.links.Strays null proc := by
  cases reaps : s.reaped? with
  | none =>
      rw [s.sysWait_none image reaps]
      exact ⟨fun _ _ impossible => (nomatch impossible), fun _ => wellFormed⟩
  | some proc =>
      obtain ⟨nodes, queue⟩ := (wellFormedQueue_iff coherent.linked).mp wellFormed
      obtain ⟨_, _, _, _, nonnull, _⟩ := s.reaped?_spec reaps
      rw [wellFormedQueue_iff (coherent.sysWait outside).linked,
        (coherent.sysWait_reaps outside reaps).1,
        coherent.linked.exists_isQueue_unlink_iff queue nonnull]
      exact ⟨fun safe other same => Option.some.inj same ▸ safe, fun safe => safe proc rfl⟩

/-- One operation keeps the queue well formed exactly when it is safe. -/
theorem step_wellFormed_iff (coherent : s.Coherent image) (wellFormed : s.WellFormedQueue)
    (op : ProcessOp) (outside : op.StatusOutside image) :
    (s.step image op).WellFormedQueue ↔ s.QueueSafe op := by
  have kept {t : Kernel} (links : t.links = s.links) : t.WellFormedQueue ↔ True :=
    iff_true_intro ((wellFormedQueue_congr coherent.linked links).mpr wellFormed)
  cases op with
  | createTest name entryPoint priority =>
      exact kept (coherent.processCreateTest_links name entryPoint priority)
  | fork => exact iff_true_intro (coherent.sysFork_wellFormed wellFormed)
  | exec program => exact kept (sysExec_links image s program)
  | exit saved exitCode =>
      exact iff_true_intro (coherent.sysExit_wellFormed wellFormed saved exitCode)
  | processExit exitCode => exact kept (processExit_links s exitCode)
  | kill pid signal => exact kept (sysKill_links s pid signal)
  | wait status => exact coherent.sysWait_wellFormed_iff wellFormed outside
  | killByPid pid => exact kept (coherent.processKillByPid_links pid)
  | setStatus pid status => exact kept (processSetStatus_links s pid status)
  | changeCurrent pid => exact kept (changeCurrentProcess_links s pid)
  | schedule saved => exact coherent.schedule_wellFormed_iff wellFormed saved

end Coherent

theorem boot_wellFormed (image : Image) : (boot image).WellFormedQueue := by
  rw [wellFormedQueue_iff (boot_coherent image).linked, boot_links]
  exact ⟨[], rfl, rfl⟩

/--
The queue is well formed in every state of a run exactly when no scheduling
step derails and no wait reaps a stray.
-/
theorem queue_wellFormed_iff (image : Image) (ops : List ProcessOp)
    (outside : ∀ op ∈ ops, op.StatusOutside image) :
    Always (step image) WellFormedQueue (boot image) ops ↔
      Along (step image) QueueSafe (boot image) ops :=
  always_iff_along
    (fun s op allowed (coherent : s.Coherent image) _ _ => coherent.step op allowed)
    (fun s op allowed (coherent : s.Coherent image) wellFormed =>
      coherent.step_wellFormed_iff wellFormed op allowed)
    (boot_coherent image) (boot_wellFormed image) outside

/-- A run that forks, ticks once and waits keeps its queue. -/
theorem queue_wellFormed_fork_schedule_wait :
    Always (step Image.sample) WellFormedQueue (boot Image.sample)
      [.fork, .schedule {}, .wait null] := by
  refine (queue_wellFormed_iff Image.sample _ ?_).mpr ⟨trivial, ?_, ?_, trivial⟩
  · intro op member
    simp only [List.mem_cons, List.not_mem_nil, or_false] at member
    rcases member with rfl | rfl | rfl
    · trivial
    · trivial
    · exact Or.inl rfl
  · change ¬ Derails _
    decide +kernel
  · intro proc reaps
    have nothing : reaped? (((boot Image.sample).step Image.sample .fork).step Image.sample
      (.schedule {})) = none := by decide +kernel
    exact absurd (reaps.symm.trans nothing) (by simp)

end Kernel

end SimpleOS
