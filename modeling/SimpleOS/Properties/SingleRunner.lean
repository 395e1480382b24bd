import SimpleOS.Library.GuardedRun
import SimpleOS.Invariant.Effects

/-!
# The single runner

The current process should be the only RUNNING one.  The scheduler's idle path
and its early return, and every operation that marks or picks a process by its
pid, update only one of the state and `current_process`.
-/

namespace SimpleOS

open Library.ByteMemory Library.LinkedChain Library.GuardedRun

namespace Kernel

/-- The current process, if any, is RUNNING, and no other record is. -/
def SingleRunner (s : Kernel) : Prop :=
  s.currentProcess ≠ null →
    s.states s.currentProcess = .running ∧
      ∀ process, s.states process = .running → process = s.currentProcess

/-- The scheduling step of the operation, if any, is neither the idle path nor the early return. -/
def Dispatches (s : Kernel) : ProcessOp → Prop
  | .schedule _ =>
      (s.readyQueueHead = null → s.currentProcess = s.kernelProcess) ∧
        (s.readyQueueHead ≠ null → s.readyQueueHead ≠ s.currentProcess)
  | .exit _ _ => s.readyQueueHead ≠ null
  | _ => True

/-- The operation marks no current process and makes no other one current. -/
def SparesCurrent (s : Kernel) : ProcessOp → Prop
  | .processExit _ => ¬ s.Exits
  | .exec program => ¬ (s.Execs program ∧ s.Exits)
  | .kill pid signal => s.Killable pid ∧ signal = 9 → s.processFindByPid pid ≠ s.currentProcess
  | .killByPid pid => s.Killable pid → s.processFindByPid pid ≠ s.currentProcess
  | .setStatus pid status => s.Settable pid status → s.processFindByPid pid ≠ s.currentProcess
  | .changeCurrent pid => s.Switchable pid → s.processFindByPid pid = s.currentProcess
  | _ => True

/-- The idle path makes the kernel process current without marking it RUNNING. -/
theorem idle_path_runs_ready_process :
    ¬ Always (step Image.sample) SingleRunner (boot Image.sample)
      [.fork, .schedule {}, .schedule {}] := by
  intro always
  have single := always.last
  have fields : ∀ s, s = run (step Image.sample) (boot Image.sample)
        [.fork, .schedule {}, .schedule {}] →
      s.currentProcess ≠ null ∧ s.states s.currentProcess = .ready := by
    intro s reached
    rw [reached]
    decide +kernel
  generalize run (step Image.sample) (boot Image.sample) [.fork, .schedule {}, .schedule {}] = s
    at single fields
  obtain ⟨nonnull, ready⟩ := fields s rfl
  have running := (single nonnull).1
  rw [ready] at running
  cases running

variable {image : Image} {s t : Kernel}

/-! ## There is always a current process -/

/-- The invariant over which the single runner is exact. -/
structure Occupied (image : Image) (s : Kernel) : Prop where
  coherent : s.Coherent image
  current : s.currentProcess ≠ null

theorem boot_occupied (image : Image) : (boot image).Occupied image where
  coherent := boot_coherent image
  current := by
    rw [boot_currentProcess]
    exact Image.testSlot_ne_null (by decide)

namespace Occupied

theorem step (occupied : s.Occupied image) (op : ProcessOp) (outside : op.StatusOutside image) :
    (s.step image op).Occupied image := by
  refine ⟨occupied.coherent.step op outside, ?_⟩
  have chosen (u : Kernel) (coherent : u.Coherent image) (saved : CpuState) :
      (u.schedule saved).currentProcess ≠ null := by
    rw [schedule_currentProcess]
    exact coherent.active_ne_null coherent.chosen_active
  have kept {u : Kernel} (same : u.currentProcess = s.currentProcess) : u.currentProcess ≠ null :=
    same ▸ occupied.current
  cases op with
  | createTest name entryPoint priority =>
      exact kept (Coherent.processCreateTest_currentProcess name entryPoint priority)
  | fork => exact kept Coherent.sysFork_currentProcess
  | exec program => exact kept (sysExec_currentProcess image s program)
  | exit saved exitCode =>
      change (s.sysExit saved exitCode).currentProcess ≠ null
      rw [sysExit_eq s saved exitCode occupied.current]
      exact chosen _ (occupied.coherent.exited occupied.current exitCode) saved
  | processExit exitCode => exact kept (processExit_currentProcess s exitCode)
  | kill pid signal => exact kept (sysKill_currentProcess s pid signal)
  | wait status =>
      change (s.sysWait image status).2.currentProcess ≠ null
      cases reaps : s.reaped? with
      | none =>
          rw [s.sysWait_none image reaps]
          exact occupied.current
      | some proc => exact kept (occupied.coherent.sysWait_reaps outside reaps).2.2
  | killByPid pid => exact kept (occupied.coherent.processKillByPid_currentProcess pid)
  | setStatus pid status => exact kept (processSetStatus_currentProcess s pid status)
  | changeCurrent pid =>
      change (s.changeCurrentProcess pid).currentProcess ≠ null
      rw [changeCurrentProcess_currentProcess]
      split
      · next switchable => exact switchable.2
      · exact occupied.current
  | schedule saved => exact chosen s occupied.coherent saved

end Occupied

/-! ## One operation -/

/-- A conditional mark other than RUNNING is safe unless its target is current. -/
theorem singleRunner_mark_iff (current : s.currentProcess ≠ null) (single : s.SingleRunner)
    {condition : Prop} [Decidable condition] {target : Word} {state : ProcessState}
    (same : t.currentProcess = s.currentProcess)
    (states : t.states = if condition then Function.update s.states target state else s.states)
    (notRunning : state ≠ .running) :
    t.SingleRunner ↔ (condition → target ≠ s.currentProcess) := by
  obtain ⟨running, unique⟩ := single current
  constructor
  · rintro holds marked rfl
    have still := (holds (same ▸ current)).1
    rw [same, states, if_pos marked, Function.update_self] at still
    exact notRunning still
  · intro safe _
    rw [same, states]
    split
    · next marked =>
        have apart := safe marked
        refine ⟨by rw [Function.update_of_ne apart.symm]; exact running, fun process runs => ?_⟩
        by_cases equal : process = target
        · rw [equal, Function.update_self] at runs
          exact absurd runs notRunning
        · rw [Function.update_of_ne equal] at runs
          exact unique process runs
    · exact ⟨running, unique⟩

theorem singleRunner_congr (states : t.states = s.states)
    (current : t.currentProcess = s.currentProcess) : t.SingleRunner ↔ s.SingleRunner := by
  rw [SingleRunner, SingleRunner, states, current]

theorem schedule_singleRunner_iff (coherent : s.Coherent image) (current : s.currentProcess ≠ null)
    (single : s.SingleRunner) (saved : CpuState) :
    (s.schedule saved).SingleRunner ↔ s.Dispatches (.schedule saved) := by
  obtain ⟨running, unique⟩ := single current
  have preempts : s.Preempts := ⟨current, running⟩
  have runs := coherent.active_ne_null coherent.chosen_active
  rw [SingleRunner, schedule_currentProcess]
  by_cases empty : s.readyQueueHead = null
  · rw [schedule_states_idle s saved empty]
    rw [chosen_of_idle empty] at runs ⊢
    constructor
    · intro holds
      exact ⟨fun _ => (unique _ (holds runs).1).symm, fun nonempty => absurd empty nonempty⟩
    · intro safe _
      rw [← safe.1 empty]
      exact ⟨running, unique⟩
  · rw [schedule_states s saved empty, requeueCurrent_states, if_pos preempts]
    rw [chosen_of_queued empty] at runs ⊢
    constructor
    · intro holds
      refine ⟨fun isNull => absurd isNull empty, fun _ same => ?_⟩
      have still := (holds runs).1
      rw [if_pos same, same, Function.update_self] at still
      cases still
    · intro safe _
      have apart := safe.2 empty
      rw [if_neg apart]
      refine ⟨Function.update_self _ _ _, fun process runs => ?_⟩
      by_contra other
      rw [Function.update_of_ne other] at runs
      by_cases old : process = s.currentProcess
      · rw [old, Function.update_self] at runs
        cases runs
      · rw [Function.update_of_ne old] at runs
        exact old (unique process runs)

theorem sysExit_singleRunner_iff (coherent : s.Coherent image) (current : s.currentProcess ≠ null)
    (single : s.SingleRunner) (saved : CpuState) (exitCode : Word) :
    (s.sysExit saved exitCode).SingleRunner ↔ s.Dispatches (.exit saved exitCode) := by
  obtain ⟨_, unique⟩ := single current
  have runs := coherent.active_ne_null coherent.chosen_active
  have none (process : Word) :
      Function.update s.states s.currentProcess .terminated process ≠ .running := by
    by_cases same : process = s.currentProcess
    · rw [same, Function.update_self]
      exact fun impossible => by cases impossible
    · rw [Function.update_of_ne same]
      exact fun running => same (unique process running)
  rw [SingleRunner, s.sysExit_currentProcess saved exitCode current]
  by_cases empty : s.readyQueueHead = null
  · rw [s.sysExit_states_idle saved exitCode current empty]
    exact iff_of_false (fun holds => none _ (holds runs).1) fun nonempty => nonempty empty
  · rw [s.sysExit_states saved exitCode current empty, chosen_of_queued empty]
    refine iff_of_true (fun _ => ⟨Function.update_self _ _ _, fun process running => ?_⟩) empty
    by_contra other
    rw [Function.update_of_ne other] at running
    exact none process running

theorem changeCurrent_singleRunner_iff (current : s.currentProcess ≠ null)
    (single : s.SingleRunner) (pid : Word) :
    (s.changeCurrentProcess pid).SingleRunner ↔ s.SparesCurrent (.changeCurrent pid) := by
  obtain ⟨running, unique⟩ := single current
  by_cases switchable : s.Switchable pid
  · rw [SingleRunner, changeCurrentProcess_currentProcess, changeCurrentProcess_states,
      if_pos switchable, if_pos switchable]
    constructor
    · intro holds _
      by_contra other
      refine other ((holds switchable.2).2 s.currentProcess ?_).symm
      rw [Function.update_of_ne (Ne.symm other)]
      exact running
    · intro safe _
      refine ⟨Function.update_self _ _ _, fun process runs => ?_⟩
      by_contra other
      rw [Function.update_of_ne other] at runs
      exact other ((unique process runs).trans (safe switchable).symm)
  · have same : s.changeCurrentProcess pid = s := by
      rw [changeCurrentProcess_eq, if_neg switchable]
    rw [same]
    exact iff_of_true single fun impossible => absurd impossible switchable

/-- One operation keeps a single runner exactly when it dispatches and marks properly. -/
theorem Occupied.step_singleRunner_iff (occupied : s.Occupied image) (single : s.SingleRunner)
    (op : ProcessOp) (outside : op.StatusOutside image) :
    (s.step image op).SingleRunner ↔ s.Dispatches op ∧ s.SparesCurrent op := by
  have coherent := occupied.coherent
  have current := occupied.current
  have running := (single current).1
  cases op with
  | createTest name entryPoint priority =>
      exact iff_of_true ((singleRunner_congr
        (coherent.processCreateTest_states name entryPoint priority)
        (Coherent.processCreateTest_currentProcess name entryPoint priority)).mpr single)
          ⟨trivial, trivial⟩
  | fork =>
      exact iff_of_true ((singleRunner_congr coherent.sysFork_states
        Coherent.sysFork_currentProcess).mpr single) ⟨trivial, trivial⟩
  | exec program =>
      refine (singleRunner_mark_iff current single (sysExec_currentProcess image s program)
        (sysExec_states image s program) (by decide)).trans (Iff.trans ?_
          (and_iff_right trivial).symm)
      exact ⟨fun safe both => safe both rfl, fun safe both => absurd both safe⟩
  | exit saved exitCode =>
      exact (sysExit_singleRunner_iff coherent current single saved exitCode).trans
        (and_iff_left trivial).symm
  | processExit exitCode =>
      refine (singleRunner_mark_iff current single (processExit_currentProcess s exitCode)
        (processExit_states s exitCode) (by decide)).trans (Iff.trans ?_
          (and_iff_right trivial).symm)
      exact ⟨fun safe exits => safe exits rfl, fun safe exits => absurd exits safe⟩
  | kill pid signal =>
      exact (singleRunner_mark_iff current single (sysKill_currentProcess s pid signal)
        (sysKill_states s pid signal) (by decide)).trans (and_iff_right trivial).symm
  | wait status =>
      refine iff_of_true ?_ ⟨trivial, trivial⟩
      change (s.sysWait image status).2.SingleRunner
      cases reaps : s.reaped? with
      | none =>
          rw [s.sysWait_none image reaps]
          exact single
      | some proc =>
          obtain ⟨_, states, same⟩ := coherent.sysWait_reaps outside reaps
          obtain ⟨_, _, _, _, _, notCurrent, _⟩ := coherent.reaped reaps
          have marks : (s.sysWait image status).2.states =
              if True then Function.update s.states proc .ready else s.states :=
            states.trans (if_pos trivial).symm
          exact (singleRunner_mark_iff current single same marks (by decide)).mpr
            fun _ => notCurrent
  | killByPid pid =>
      exact (singleRunner_mark_iff current single (coherent.processKillByPid_currentProcess pid)
        (coherent.processKillByPid_states pid) (by decide)).trans (and_iff_right trivial).symm
  | setStatus pid status =>
      refine Iff.trans ?_ (and_iff_right trivial).symm
      by_cases runs : status = .running
      · subst runs
        have refused : ¬ s.Settable pid .running := fun settable => by
          rcases settable.2 with impossible | impossible | impossible <;> cases impossible
        have same : (s.processSetStatus pid .running).2 = s := by
          rw [processSetStatus_snd, if_neg refused]
        change (s.processSetStatus pid .running).2.SingleRunner ↔ _
        rw [same]
        exact iff_of_true single fun settable => absurd settable refused
      · exact singleRunner_mark_iff current single (processSetStatus_currentProcess s pid status)
          (processSetStatus_states s pid status) runs
  | changeCurrent pid =>
      exact (changeCurrent_singleRunner_iff current single pid).trans (and_iff_right trivial).symm
  | schedule saved =>
      exact (schedule_singleRunner_iff coherent current single saved).trans
        (and_iff_left trivial).symm

theorem boot_singleRunner (image : Image) : (boot image).SingleRunner := by
  intro _
  rw [boot_currentProcess, boot_states]
  refine ⟨Function.update_self _ _ _, fun process running => ?_⟩
  by_contra other
  rw [Function.update_of_ne other] at running
  cases running

/-- Every state of a run has a single runner exactly when both conditions hold at every step. -/
theorem singleRunner_iff (image : Image) (ops : List ProcessOp)
    (outside : ∀ op ∈ ops, op.StatusOutside image) :
    Always (step image) SingleRunner (boot image) ops ↔
      Along (step image) Dispatches (boot image) ops ∧
        Along (step image) SparesCurrent (boot image) ops := by
  rw [← along_and]
  exact always_iff_along
    (fun s op allowed (occupied : s.Occupied image) _ _ => occupied.step op allowed)
    (fun s op allowed (occupied : s.Occupied image) single =>
      occupied.step_singleRunner_iff single op allowed)
    (boot_occupied image) (boot_singleRunner image) outside

/-- One tick onto a forked process keeps a single runner. -/
theorem singleRunner_fork_schedule_wait :
    Always (step Image.sample) SingleRunner (boot Image.sample)
      [.fork, .schedule {}, .wait null] := by
  refine (singleRunner_iff Image.sample [.fork, .schedule {}, .wait null] ?_).mpr
    ⟨⟨trivial, ?_, trivial, trivial⟩, ⟨trivial, trivial, trivial, trivial⟩⟩
  · intro op member
    simp only [List.mem_cons, List.not_mem_nil, or_false] at member
    rcases member with rfl | rfl | rfl
    · trivial
    · trivial
    · exact Or.inl rfl
  · change (_ = null → _) ∧ (_ ≠ null → _ ≠ _)
    decide +kernel

end Kernel

end SimpleOS
