import SimpleOS.Library.GuardedRun
import SimpleOS.Invariant.Effects

/-!
# Termination is not final

A terminated process stays terminated until it is reaped, except where an
operation picks a process without looking at its state: the scheduler takes the
head of the queue although a kill leaves its process there, and
`process_set_status` and `change_current_process` store the state they are
asked for.
-/

namespace SimpleOS

open Library.ByteMemory Library.LinkedChain Library.GuardedRun

/-- READY, RUNNING and BLOCKED. -/
def ProcessState.Alive (state : ProcessState) : Prop :=
  state = .ready ∨ state = .running ∨ state = .blocked

namespace Kernel

/-- The operation reaps the process. -/
def Reaps (s : Kernel) (process : Word) : ProcessOp → Prop
  | .wait _ => s.reaped? = some process
  | _ => False

/--
The call of `schedule` in the operation makes no terminated process current.
`sys_exit` calls it after marking its own process and clearing `current_process`.
-/
def SchedulesLive (image : Image) (s : Kernel) (op : ProcessOp) : Prop :=
  match op with
  | .schedule _ => ∀ process, s.states process = .terminated → s.currentProcess ≠ process →
      (s.step image op).currentProcess ≠ process
  | .exit _ exitCode => s.currentProcess ≠ null →
      ∀ process, (s.exited exitCode).states process = .terminated →
        (s.step image op).currentProcess ≠ process
  | _ => True

/-- The operation revives no terminated process, except by reaping it, and schedules none. -/
def TerminationFinal (image : Image) (s : Kernel) (op : ProcessOp) : Prop :=
  (∀ process, s.states process = .terminated → ¬ s.Reaps process op →
    ¬ ((s.step image op).states process).Alive) ∧
  s.SchedulesLive image op

/-- No terminated process waits where the scheduling step of the operation, if any, picks one. -/
def PicksLive (s : Kernel) : ProcessOp → Prop
  | .schedule _ =>
      (s.readyQueueHead ≠ null → s.readyQueueHead ≠ s.currentProcess →
        s.states s.readyQueueHead ≠ .terminated) ∧
      (s.readyQueueHead = null → s.kernelProcess ≠ s.currentProcess →
        s.states s.kernelProcess ≠ .terminated)
  | .exit _ _ => s.currentProcess ≠ null →
      (s.readyQueueHead ≠ null → s.readyQueueHead ≠ s.currentProcess ∧
        s.states s.readyQueueHead ≠ .terminated) ∧
      (s.readyQueueHead = null → s.kernelProcess ≠ s.currentProcess ∧
        s.states s.kernelProcess ≠ .terminated)
  | _ => True

/-- The operation stores no live state in a terminated process at the caller's request. -/
def KeepsDead (s : Kernel) : ProcessOp → Prop
  | .setStatus pid status => s.Settable pid status → status ≠ .terminated →
      s.states (s.processFindByPid pid) ≠ .terminated
  | .changeCurrent pid => s.Switchable pid → s.states (s.processFindByPid pid) ≠ .terminated
  | _ => True

/-- A killed process is still queued, and the next tick runs it. -/
theorem killed_process_scheduled :
    ¬ Along (step Image.sample) (TerminationFinal Image.sample) (boot Image.sample)
      [.fork, .kill 2 9, .schedule {}] := by
  rintro ⟨_, _, final, _⟩
  have revived : ∀ s, s = ((boot Image.sample).step Image.sample .fork).step Image.sample
        (.kill 2 9) →
      s.states (Image.sample.testSlot 1) = .terminated ∧
        (s.step Image.sample (.schedule {})).states (Image.sample.testSlot 1) = .running := by
    intro s reached
    rw [reached]
    decide +kernel
  obtain ⟨dead, running⟩ := revived _ rfl
  exact final.1 _ dead (fun reaps => reaps) (by rw [running]; exact Or.inr (Or.inl rfl))

theorem not_alive_terminated : ¬ ProcessState.terminated.Alive := by
  rintro (impossible | impossible | impossible) <;> cases impossible

theorem alive_running : ProcessState.running.Alive := Or.inr (Or.inl rfl)

variable {image : Image} {s : Kernel}

/-! ## One operation -/

/-- Marking a process as terminated revives none. -/
theorem not_alive_update {process target : Word} (dead : s.states process = .terminated) :
    ¬ (Function.update s.states target .terminated process).Alive := by
  by_cases same : process = target
  · rw [same, Function.update_self]
    exact not_alive_terminated
  · rw [Function.update_of_ne same, dead]
    exact not_alive_terminated

/-- Assigning a live state revives a process exactly when its target was terminated. -/
theorem revives_none_iff (s : Kernel) (target : Word) {state : ProcessState}
    (alive : state.Alive) :
    (∀ process, s.states process = .terminated →
      ¬ (Function.update s.states target state process).Alive) ↔
        s.states target ≠ .terminated := by
  constructor
  · intro final dead
    refine final target dead ?_
    rw [Function.update_self]
    exact alive
  · intro notDead process dead
    have different : process ≠ target := fun same => notDead (same ▸ dead)
    rw [Function.update_of_ne different, dead]
    exact not_alive_terminated

/-- Requeueing only touches a RUNNING process. -/
theorem requeueCurrent_terminated (process : Word) :
    s.requeueCurrent.states process = .terminated ↔ s.states process = .terminated := by
  rw [requeueCurrent_states]
  split
  · next preempts =>
      by_cases same : process = s.currentProcess
      · rw [same, Function.update_self, preempts.2]
        simp
      · rw [Function.update_of_ne same]
  · rfl

/-- A scheduling step revives no process other than the head it dispatches. -/
theorem schedule_revives_none_iff (saved : CpuState) :
    (∀ process, s.states process = .terminated → ¬ ((s.schedule saved).states process).Alive) ↔
      (s.readyQueueHead ≠ null → s.readyQueueHead ≠ s.currentProcess →
        s.states s.readyQueueHead ≠ .terminated) := by
  by_cases empty : s.readyQueueHead = null
  · rw [schedule_states_idle s saved empty]
    refine ⟨fun _ nonempty => absurd empty nonempty, fun _ process dead => ?_⟩
    rw [dead]
    exact not_alive_terminated
  · rw [schedule_states s saved empty]
    by_cases same : s.readyQueueHead = s.currentProcess
    · rw [if_pos same]
      refine ⟨fun _ _ different => absurd same different, fun _ process dead => ?_⟩
      rw [(requeueCurrent_terminated process).mpr dead]
      exact not_alive_terminated
    · rw [if_neg same]
      have inner := revives_none_iff s.requeueCurrent s.readyQueueHead alive_running
      simp only [requeueCurrent_terminated, ne_eq] at inner
      rw [inner]
      exact ⟨fun final _ _ => final, fun final => final empty same⟩

/-- When a tick is final. -/
theorem schedule_final_iff (saved : CpuState) :
    s.TerminationFinal image (.schedule saved) ↔ s.PicksLive (.schedule saved) := by
  have first := schedule_revives_none_iff (s := s) saved
  simp only [TerminationFinal, SchedulesLive, Reaps, PicksLive, step, not_false_eq_true,
    forall_const]
  rw [first, schedule_currentProcess,
    ← s.chosen_iff fun process => process ≠ s.currentProcess → s.states process ≠ .terminated]
  constructor
  · rintro ⟨_, live⟩ notCurrent dead
    exact live _ dead notCurrent.symm rfl
  · intro safe
    refine ⟨fun nonempty different => ?_, ?_⟩
    · rw [chosen_of_queued nonempty] at safe
      exact safe different
    · rintro process dead notCurrent rfl
      exact safe notCurrent.symm dead

/-- `sys_exit` adds its own process to the terminated ones. -/
theorem exited_terminated_iff (exitCode : Word) (process : Word) :
    (s.exited exitCode).states process = .terminated ↔
      process = s.currentProcess ∨ s.states process = .terminated := by
  rw [exited_states]
  by_cases same : process = s.currentProcess
  · simp [same]
  · simp [same]

theorem not_exited_terminated_iff (exitCode : Word) (process : Word) :
    (s.exited exitCode).states process ≠ .terminated ↔
      process ≠ s.currentProcess ∧ s.states process ≠ .terminated := by
  rw [ne_eq, exited_terminated_iff, not_or]

/-- When an exit is final. -/
theorem sysExit_final_iff (saved : CpuState) (exitCode : Word) :
    s.TerminationFinal image (.exit saved exitCode) ↔ s.PicksLive (.exit saved exitCode) := by
  simp only [TerminationFinal, SchedulesLive, Reaps, PicksLive, step, not_false_eq_true,
    forall_const]
  by_cases current : s.currentProcess = null
  · rw [sysExit_null s saved exitCode current]
    refine ⟨fun _ running => absurd current running, fun _ => ⟨fun process dead => ?_,
      fun running => absurd current running⟩⟩
    rw [dead]
    exact not_alive_terminated
  · rw [sysExit_eq s saved exitCode current, schedule_currentProcess,
      s.exited_chosen exitCode,
      ← s.chosen_iff fun process => process ≠ s.currentProcess ∧ s.states process ≠ .terminated]
    have first := schedule_revives_none_iff (s := s.exited exitCode) saved
    constructor
    · rintro ⟨_, live⟩ running
      exact (not_exited_terminated_iff exitCode s.chosen).mp fun dead => live running _ dead rfl
    · intro safe
      have notDead := (not_exited_terminated_iff exitCode s.chosen).mpr (safe current)
      refine ⟨fun process dead => ?_, ?_⟩
      · refine first.mpr (fun nonempty _ => ?_) process
          ((exited_terminated_iff exitCode process).mpr (Or.inr dead))
        rw [← s.exited_chosen exitCode, chosen_of_queued nonempty] at notDead
        exact notDead
      · rintro _ process dead rfl
        exact notDead dead

/-- An operation that schedules nothing is final when it revives nothing. -/
theorem final_of_quiet {op : ProcessOp} (live : s.SchedulesLive image op)
    (revives : ∀ process, s.states process = .terminated →
      ¬ ((s.step image op).states process).Alive) : s.TerminationFinal image op :=
  ⟨fun process dead _ => revives process dead, live⟩

/-- An operation whose state changes all lead to TERMINATED. -/
theorem revives_none_of_marks {t : Kernel} {condition : Prop} [Decidable condition] {target : Word}
    (states : t.states =
      if condition then Function.update s.states target .terminated else s.states) :
    ∀ process, s.states process = .terminated → ¬ (t.states process).Alive := by
  intro process dead
  rw [states]
  split
  · exact not_alive_update dead
  · rw [dead]
    exact not_alive_terminated

theorem setStatus_final_iff (pid : Word) (status : ProcessState) :
    s.TerminationFinal image (.setStatus pid status) ↔ s.KeepsDead (.setStatus pid status) := by
  simp only [TerminationFinal, SchedulesLive, Reaps, KeepsDead, step, not_false_eq_true,
    forall_const, and_true]
  rw [processSetStatus_states]
  by_cases settable : s.Settable pid status
  · rw [if_pos settable]
    by_cases final : status = .terminated
    · subst final
      exact ⟨fun _ _ impossible => absurd rfl impossible,
        fun _ process dead => not_alive_update dead⟩
    · have alive : status.Alive := by
        rcases settable.2 with ready | blocked | terminated
        · exact Or.inl ready
        · exact Or.inr (Or.inr blocked)
        · exact absurd terminated final
      rw [revives_none_iff s _ alive]
      exact ⟨fun safe _ _ => safe, fun safe => safe settable final⟩
  · rw [if_neg settable]
    refine ⟨fun _ impossible => absurd impossible settable, fun _ process dead => ?_⟩
    rw [dead]
    exact not_alive_terminated

theorem changeCurrent_final_iff (pid : Word) :
    s.TerminationFinal image (.changeCurrent pid) ↔ s.KeepsDead (.changeCurrent pid) := by
  simp only [TerminationFinal, SchedulesLive, Reaps, KeepsDead, step, not_false_eq_true,
    forall_const, and_true]
  rw [changeCurrentProcess_states]
  by_cases switchable : s.Switchable pid
  · rw [if_pos switchable, revives_none_iff s _ alive_running]
    exact ⟨fun safe _ => safe, fun safe => safe switchable⟩
  · rw [if_neg switchable]
    refine ⟨fun _ impossible => absurd impossible switchable, fun _ process dead => ?_⟩
    rw [dead]
    exact not_alive_terminated

namespace Coherent

/-- A wait changes the state of the child it reaps, and of no other process. -/
theorem sysWait_final (coherent : s.Coherent image) {status : Word}
    (outside : status = null ∨ image.Outside status) :
    s.TerminationFinal image (.wait status) := by
  refine ⟨fun process dead notReaped => ?_, trivial⟩
  change ¬ ((s.sysWait image status).2.states process).Alive
  cases reaps : s.reaped? with
  | none =>
      rw [s.sysWait_none image reaps, dead]
      exact not_alive_terminated
  | some proc =>
      have different : process ≠ proc := fun same => notReaped (same ▸ reaps)
      rw [(coherent.sysWait_reaps outside reaps).2.1, Function.update_of_ne different, dead]
      exact not_alive_terminated

/-- One operation is final exactly when it picks and stores nothing that revives a process. -/
theorem final_iff (coherent : s.Coherent image) (op : ProcessOp)
    (outside : op.StatusOutside image) :
    s.TerminationFinal image op ↔ s.PicksLive op ∧ s.KeepsDead op := by
  have kept {t : Kernel} (states : t.states = s.states) :
      ∀ process, s.states process = .terminated → ¬ (t.states process).Alive := by
    intro process dead
    rw [states, dead]
    exact not_alive_terminated
  cases op with
  | createTest name entryPoint priority =>
      exact iff_of_true (final_of_quiet trivial
        (kept (coherent.processCreateTest_states name entryPoint priority))) ⟨trivial, trivial⟩
  | fork =>
      exact iff_of_true (final_of_quiet trivial (kept coherent.sysFork_states)) ⟨trivial, trivial⟩
  | exec program =>
      exact iff_of_true (final_of_quiet trivial
        (revives_none_of_marks (sysExec_states image s program))) ⟨trivial, trivial⟩
  | exit saved exitCode =>
      exact (sysExit_final_iff saved exitCode).trans (and_iff_left trivial).symm
  | processExit exitCode =>
      exact iff_of_true (final_of_quiet trivial
        (revives_none_of_marks (processExit_states s exitCode))) ⟨trivial, trivial⟩
  | kill pid signal =>
      exact iff_of_true (final_of_quiet trivial
        (revives_none_of_marks (sysKill_states s pid signal))) ⟨trivial, trivial⟩
  | wait status => exact iff_of_true (coherent.sysWait_final outside) ⟨trivial, trivial⟩
  | killByPid pid =>
      exact iff_of_true (final_of_quiet trivial
        (revives_none_of_marks (coherent.processKillByPid_states pid))) ⟨trivial, trivial⟩
  | setStatus pid status =>
      exact (setStatus_final_iff pid status).trans (and_iff_right trivial).symm
  | changeCurrent pid =>
      exact (changeCurrent_final_iff pid).trans (and_iff_right trivial).symm
  | schedule saved =>
      exact (schedule_final_iff saved).trans (and_iff_left trivial).symm

end Coherent

/-- Termination is final over a run exactly when both conditions hold at every step. -/
theorem termination_final_iff (image : Image) (ops : List ProcessOp)
    (outside : ∀ op ∈ ops, op.StatusOutside image) :
    Along (step image) (TerminationFinal image) (boot image) ops ↔
      Along (step image) PicksLive (boot image) ops ∧
        Along (step image) KeepsDead (boot image) ops := by
  rw [← along_and]
  exact along_iff_along
    (fun s op allowed (coherent : s.Coherent image) _ => coherent.step op allowed)
    (fun s op allowed (coherent : s.Coherent image) => coherent.final_iff op allowed)
    (boot_coherent image) outside

/-- A child that exits after it was scheduled is never scheduled again. -/
theorem termination_final_fork_schedule_exit :
    Along (step Image.sample) (TerminationFinal Image.sample) (boot Image.sample)
      [.fork, .schedule {}, .exit {} 0, .wait null] := by
  refine (termination_final_iff Image.sample [.fork, .schedule {}, .exit {} 0, .wait null]
    ?_).mpr ⟨⟨trivial, ?_, ?_, trivial, trivial⟩, ⟨trivial, trivial, trivial, trivial, trivial⟩⟩
  · intro op member
    simp only [List.mem_cons, List.not_mem_nil, or_false] at member
    rcases member with rfl | rfl | rfl | rfl
    · trivial
    · trivial
    · trivial
    · exact Or.inl rfl
  · change (_ ≠ null → _ ≠ _ → _) ∧ (_ = null → _ ≠ _ → _)
    decide +kernel
  · change _ → (_ ≠ null → _ ≠ _ ∧ _) ∧ (_ = null → _ ≠ _ ∧ _)
    decide +kernel

end Kernel

end SimpleOS
