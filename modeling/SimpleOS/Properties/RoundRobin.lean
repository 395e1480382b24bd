import Mathlib.Data.List.Rotate
import SimpleOS.Invariant.Coherent

/-!
# Round robin

What repeated scheduling should do with a running process and a queue of ready
ones, and what it does: the requeueing of the running process starts by
removing it from a queue it is not in, so the ring survives only when it
consists of the idle kernel process alone.
-/

namespace SimpleOS

open Library.ByteMemory Library.LinkedChain

namespace Kernel

/-- The state after `count` calls of `schedule`; `saved` lists what the context switches store. -/
def ticks (s : Kernel) (saved : Nat → CpuState) : Nat → Kernel
  | 0 => s
  | count + 1 => (s.ticks saved count).schedule (saved count)

/-- A well-formed queue of READY processes and a RUNNING current process outside it. -/
structure RingStart (s : Kernel) (current : Word) (queue : List Word) : Prop where
  represents : IsQueue null s.links queue
  ready : ∀ process ∈ queue, s.states process = .ready
  is_current : s.currentProcess = current
  nonnull : current ≠ null
  running : s.states current = .running
  outside : current ∉ queue

/-- The first member of the ring runs, and the others are queued in ring order, all READY. -/
def Serves (s : Kernel) (ring : List Word) : Prop :=
  ∃ queue, ring = s.currentProcess :: queue ∧
    s.states s.currentProcess = .running ∧ (∀ process ∈ queue, s.states process = .ready) ∧
    Chain null s.links.next s.readyQueueHead queue

/--
Round robin over a ring: after `count` ticks the ring has turned by `count`,
and each member is dispatched once in any window of ring length.
-/
def RoundRobin (s : Kernel) (saved : Nat → CpuState) (ring : List Word) : Prop :=
  (∀ count, (s.ticks saved count).Serves (ring.rotate count)) ∧
    ∀ count, ∀ process ∈ ring, ∃! later, later < ring.length ∧
      (s.ticks saved (count + later + 1)).currentProcess = process

variable {s : Kernel}

/-- A tick that requeues the current process behind a queue it does not end or start. -/
theorem schedule_links_rotate (saved : CpuState) (nonempty : s.readyQueueHead ≠ null)
    (preempts : s.Preempts) (notTail : s.currentProcess ≠ s.readyQueueTail)
    (notHead : s.currentProcess ≠ s.readyQueueHead) :
    (s.schedule saved).links = s.links.rotate null s.currentProcess := by
  rw [schedule_links s saved nonempty, if_neg notHead.symm, requeueCurrent_links,
    if_pos ⟨preempts, notTail⟩]
  rfl

/-- The kernel process running and one forked process queued. -/
def forked : Kernel := ((boot Image.sample).sysFork Image.sample).2

/-- One tick with one process queued leaves the queue empty instead of holding the old runner. -/
theorem forked_not_roundRobin :
    forked.RingStart (Image.sample.testSlot 0) [Image.sample.testSlot 1] ∧
      ¬ forked.RoundRobin (fun _ => {}) [Image.sample.testSlot 0, Image.sample.testSlot 1] := by
  have links : forked.links.head = Image.sample.testSlot 1 ∧
      forked.links.tail = Image.sample.testSlot 1 ∧ Image.sample.testSlot 1 ≠ null ∧
      forked.links.next (Image.sample.testSlot 1) = null ∧
      forked.links.prev (Image.sample.testSlot 1) = null := by
    decide +kernel
  have fields : forked.states (Image.sample.testSlot 1) = .ready ∧
      forked.currentProcess = Image.sample.testSlot 0 ∧ Image.sample.testSlot 0 ≠ null ∧
      forked.states (Image.sample.testSlot 0) = .running ∧
      Image.sample.testSlot 0 ≠ Image.sample.testSlot 1 := by
    decide +kernel
  refine ⟨⟨⟨?_, ?_⟩, ?_, fields.2.1, fields.2.2.1, fields.2.2.2.1, ?_⟩, ?_⟩
  · exact ⟨links.1, links.2.2.1, links.2.2.2.1⟩
  · exact ⟨links.2.1, links.2.2.1, links.2.2.2.2⟩
  · intro process member
    rw [List.mem_singleton.mp member]
    exact fields.1
  · exact fun member => fields.2.2.2.2 (List.mem_singleton.mp member)
  · rintro ⟨serves, _⟩
    obtain ⟨queue, split, _, _, chain⟩ := serves 1
    have empty : (forked.ticks (fun _ => {}) 1).readyQueueHead = null := by decide +kernel
    rw [empty] at chain
    rw [← chain.unique (chain_nil_iff.mpr rfl)] at split
    simp at split

namespace RingStart

variable {current : Word} {queue : List Word}

theorem preempts (start : s.RingStart current queue) : s.Preempts := by
  refine ⟨?_, ?_⟩ <;> rw [start.is_current]
  · exact start.nonnull
  · exact start.running

/-- With a queue, the first tick rotates the current process behind it. -/
theorem first_links {head : Word} {rest : List Word} (start : s.RingStart current (head :: rest))
    (saved : CpuState) : (s.schedule saved).links = s.links.rotate null current := by
  have first : s.readyQueueHead = head := start.represents.forward.1
  have nonempty : s.readyQueueHead ≠ null := first ▸ start.represents.forward.2.1
  have notHead : current ≠ s.readyQueueHead := fun same =>
    start.outside (by rw [same, first]; exact List.mem_cons_self)
  have notTail : current ≠ s.links.tail := by
    intro same
    obtain ⟨_, split, _⟩ := Chain.exists_cons start.represents.backward (same ▸ start.nonnull)
    exact start.outside (List.mem_reverse.mp (by rw [split, same]; exact List.mem_cons_self))
  rw [← start.is_current] at notHead notTail ⊢
  exact schedule_links_rotate saved nonempty start.preempts notTail notHead

/-- With a queue, a ring that is right after one tick is wrong after two. -/
theorem not_serves_two {head : Word} {rest : List Word} (saved : Nat → CpuState)
    (start : s.RingStart current (head :: rest))
    (first : (s.ticks saved 1).Serves (head :: (rest ++ [current]))) :
    ¬ (s.ticks saved 2).Serves (rest ++ [current] ++ [head]) := by
  have headNonnull : head ≠ null := start.represents.forward.2.1
  have links : (s.ticks saved 1).links = s.links.rotate null current :=
    start.first_links (saved 0)
  obtain ⟨_, split, running, _, chain⟩ := first
  obtain ⟨now, rfl⟩ := List.cons.inj split
  rw [← now] at running
  change Chain null (s.ticks saved 1).links.next (s.ticks saved 1).links.head _ at chain
  have ends := start.represents.rotate_ends start.outside (links ▸ chain)
  rw [← links] at ends
  obtain ⟨nextNull, prevNull, tail, headPrev⟩ := ends
  -- the queue of the second tick starts with another process
  obtain ⟨second, others, order⟩ : ∃ second others, rest ++ [current] = second :: others :=
    List.exists_cons_of_ne_nil (by simp)
  rw [order] at chain
  have secondFirst : (s.ticks saved 1).links.head = second := chain.1
  have away : head ∉ rest ++ [current] := by
    have notInRest := (List.nodup_cons.mp start.represents.nodup).1
    have notCurrent : head ≠ current := fun same => start.outside (by simp [same])
    simp [notInRest, notCurrent]
  have notHead : head ≠ second := fun same => away (by rw [order, same]; exact List.mem_cons_self)
  have notTail : head ≠ (s.ticks saved 1).readyQueueTail := fun same =>
    away (by rw [same.trans tail]; simp)
  have preempts : (s.ticks saved 1).Preempts := by
    refine ⟨?_, ?_⟩ <;> rw [← now]
    · exact headNonnull
    · exact running
  have rotated : (s.ticks saved 2).links = (s.ticks saved 1).links.rotate null head := by
    rw [now]
    refine schedule_links_rotate (saved 1) ?_ preempts (now ▸ notTail) ?_
    · change (s.ticks saved 1).links.head ≠ null
      rw [secondFirst]
      exact chain.2.1
    · change _ ≠ (s.ticks saved 1).links.head
      rw [secondFirst, ← now]
      exact notHead
  have left := Links.rotate_isolated chain (secondFirst ▸ headPrev) nextNull prevNull notHead
  rw [← rotated] at left
  rintro ⟨queue, split, _, _, served⟩
  rw [order] at split
  have same := served.unique left
  have expected := (List.cons.inj split).2
  have lengths := congrArg List.length (expected.trans same)
  simp at lengths

end RingStart

/-- With an empty queue and the kernel process current, a tick changes nothing. -/
theorem schedule_idle (saved : CpuState) (empty : s.readyQueueHead = null)
    (kernel : s.currentProcess = s.kernelProcess) : s.schedule saved = s := by
  rw [schedule, if_pos empty, if_neg (not_not.mpr kernel)]

theorem ticks_idle (saved : Nat → CpuState) (empty : s.readyQueueHead = null)
    (kernel : s.currentProcess = s.kernelProcess) (count : Nat) : s.ticks saved count = s := by
  induction count with
  | zero => rfl
  | succ count ih => rw [ticks, ih, schedule_idle _ empty kernel]

/-- Round robin holds exactly for the ring of the idle kernel process. -/
theorem roundRobin_iff {current : Word} {queue : List Word} (start : s.RingStart current queue)
    (saved : Nat → CpuState) :
    s.RoundRobin saved (current :: queue) ↔ queue = [] ∧ current = s.kernelProcess := by
  constructor
  · rintro ⟨serves, _⟩
    cases queue with
    | nil =>
        refine ⟨rfl, ?_⟩
        have empty : s.readyQueueHead = null := start.represents.forward
        obtain ⟨_, split, _⟩ := serves 1
        rw [List.rotate_singleton] at split
        have now := (List.cons.inj split).1
        rw [now]
        change (s.schedule (saved 0)).currentProcess = _
        rw [schedule_currentProcess, chosen_of_idle empty]
    | cons head rest =>
        exact absurd (by simpa using serves 2)
          (start.not_serves_two saved (by simpa using serves 1))
  · rintro ⟨rfl, kernel⟩
    have empty : s.readyQueueHead = null := start.represents.forward
    have idle := ticks_idle saved empty (start.is_current.trans kernel)
    refine ⟨fun count => ?_, fun count process member => ⟨0, ?_, fun later bound => ?_⟩⟩
    · rw [idle]
      refine ⟨[], ?_, ?_, ?_, start.represents.forward⟩
      · rw [start.is_current, List.rotate_singleton]
      · rw [start.is_current]
        exact start.running
      · intro process impossible
        cases impossible
    · dsimp only
      rw [idle, start.is_current]
      exact ⟨by simp, (List.mem_singleton.mp member).symm⟩
    · exact Nat.lt_one_iff.mp bound.1

/-- The booted kernel, alone, is served forever. -/
theorem boot_roundRobin :
    (boot Image.sample).RoundRobin (fun _ => {}) [Image.sample.testSlot 0] := by
  refine (roundRobin_iff ⟨?_, ?_, ?_, ?_, ?_, ?_⟩ fun _ => {}).mpr ⟨rfl, ?_⟩
  · rw [boot_links]
    exact ⟨rfl, rfl⟩
  · exact fun process impossible => (nomatch impossible)
  · exact boot_currentProcess Image.sample
  · decide
  · rw [boot_states, Function.update_self]
  · exact List.not_mem_nil
  · exact (congrArg Registry.kernelProcess (boot_registry Image.sample)).symm

end Kernel

end SimpleOS
