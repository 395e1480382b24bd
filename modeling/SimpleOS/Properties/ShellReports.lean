import SimpleOS.Properties.FailedOperations
import SimpleOS.Kernel.Shell

/-!
# What the shell reports

Five commands print a message of success after one call of the process
manager.  Each tests the result of its call in its own way; the test of `fork`
takes the error code -1 for a PID.
-/

namespace SimpleOS

open Library.ByteMemory Library.GuardedRun

/-- The messages of success. -/
def Message.Success (message : Message) : Prop :=
  message = .created ∨ (∃ pid, message = .childCreated pid) ∨ message = .executed ∨
    message = .killed ∨ message = .updated

namespace Kernel

/-- The next static record has been taken and put into the table. -/
def Registers (image : Image) (before after : Kernel) : Prop :=
  after.testCount = before.testCount + 1 ∧
    ∃ entry < maxProcesses, after.processTable entry = image.testSlot before.testCount

/-- The operation of a command took effect between two states. -/
def TookEffect (image : Image) (before after : Kernel) : ProcessOp → Prop
  | .createTest _ _ _ => Registers image before after
  | .fork => Registers image before after
  | .exec program =>
      ∃ found, program.bind execFindProgram = some found ∧ before.currentProcess ≠ null ∧
        (after.process before.currentProcess).cpuState.eip = image.entryPoint found
  | .killByPid pid =>
      before.processFindByPid pid ≠ null ∧ after.processFindByPid pid = null ∧
        after.states (before.processFindByPid pid) = .terminated
  | .setStatus pid status =>
      before.processFindByPid pid ≠ null ∧ after.states (before.processFindByPid pid) = status
  | _ => False

/-- The outcome of a command tells of a success exactly when its operation took effect. -/
def Truthful (image : Image) (s : Kernel) (outcome : Outcome) : Prop :=
  (∃ message ∈ outcome.messages, message.Success) ↔
    ∃ op ∈ outcome.performed, TookEffect image s outcome.kernel op

/-! ## Which operations take effect -/

section Effects

variable (image : Image) (s : Kernel)

theorem not_registers : ¬ Registers image s s := by
  rintro ⟨count, _⟩
  omega

theorem createTest_tookEffect_iff (name : Option CString) (entryPoint : Word)
    (priority : ProcessPriority) :
    TookEffect image s (s.processCreateTest image name entryPoint priority).2
        (.createTest name entryPoint priority) ↔
      (s.processCreateTest image name entryPoint priority).1 ≠ null := by
  change Registers image s _ ↔ _
  by_cases room : s.testCount < 10
  · have small : s.testCount + 1 < maxProcesses := by
      simp only [maxProcesses]
      omega
    rw [processCreateTest_room image s room]
    constructor
    · exact fun _ => Image.testSlot_ne_null room
    · exact fun _ => ⟨rfl, s.testCount + 1, small, Function.update_self _ _ _⟩
  · rw [processCreateTest_full image s (Nat.le_of_not_lt room)]
    constructor
    · exact fun registers => absurd registers (s.not_registers image)
    · exact fun created => absurd rfl created

theorem fork_tookEffect_iff :
    TookEffect image s (s.sysFork image).2 .fork ↔
      s.currentProcess ≠ null ∧ s.testCount < 10 := by
  change Registers image s _ ↔ _
  by_cases forks : s.currentProcess ≠ null ∧ s.testCount < 10
  · obtain ⟨nonnull, room⟩ := forks
    have registry := sysFork_registry image s nonnull room
    have small : s.testCount + 1 < maxProcesses := by
      simp only [maxProcesses]
      omega
    have table : (s.sysFork image).2.processTable (s.testCount + 1) =
        image.testSlot s.testCount := by
      rw [show (s.sysFork image).2.processTable = _ from congrArg Registry.processTable registry]
      exact Function.update_self _ _ _
    refine iff_of_true ⟨?_, s.testCount + 1, small, table⟩ ⟨nonnull, room⟩
    exact congrArg Registry.testCount registry
  · have refused : s.currentProcess = null ∨ 10 ≤ s.testCount := by
      by_contra granted
      obtain ⟨nonnull, room⟩ := not_or.mp granted
      exact forks ⟨nonnull, Nat.lt_of_not_le room⟩
    rw [sysFork_refused image s refused]
    exact iff_of_false (s.not_registers image) forks

/-- A fork never returns 0. -/
theorem sysFork_fst_pos : (s.sysFork image).1 > 0 := by
  have error : (-1 : Word) > 0 := by decide
  by_cases nonnull : s.currentProcess = null
  · rw [sysFork, if_pos nonnull]
    exact error
  · by_cases room : s.testCount < 10
    · rw [sysFork_fst image s nonnull room]
      refine BitVec.lt_def.mpr ?_
      rw [BitVec.toNat_ofNat]
      change 0 < (s.testCount + 1) % 2 ^ 32
      omega
    · have full : (s.processCreateCopy image s.currentProcess).1 = null :=
        processCreateCopy_full image s (Nat.le_of_not_lt room) s.currentProcess
      rw [sysFork, if_neg nonnull]
      dsimp only
      rw [if_pos full]
      exact error

theorem exec_tookEffect_iff (program : CString) :
    TookEffect image s (s.sysExec image (some program)).2 (.exec (some program)) ↔
      (s.sysExec image (some program)).1 = 0 := by
  have entered (t : Kernel) (target : Word) :
      ((t.processExit 0).process target).cpuState = (t.process target).cpuState := by
    by_cases exits : t.Exits
    · rw [t.processExit_of_exits exits]
      by_cases same : target = t.currentProcess
      · rw [same]
        simp [setState]
      · simp [setState, same]
    · rw [t.processExit_of_not exits]
  by_cases noCurrent : s.currentProcess = null
  · refine iff_of_false (fun effect => ?_) ?_
    · obtain ⟨_, _, nonnull, _⟩ := effect
      exact nonnull noCurrent
    · simp [sysExec, noCurrent]
  · cases found : execFindProgram program with
    | none =>
        refine iff_of_false (fun effect => ?_) ?_
        · obtain ⟨entry, known, _⟩ := effect
          exact absurd (found.symm.trans known) (by simp)
        · simp [sysExec, noCurrent, found]
    | some entry =>
        refine iff_of_true ⟨entry, found, noCurrent, ?_⟩ ?_
        · simp only [sysExec, if_neg noCurrent, found, runProgram_eq, entered,
            modify_currentProcess, modify_self]
        · simp only [sysExec, if_neg noCurrent, found]

theorem killByPid_tookEffect_iff (pid : Word) :
    TookEffect image s (s.processKillByPid image pid).2 (.killByPid pid) ↔
      (s.processKillByPid image pid).1 = processSuccess := by
  by_cases killable : s.Killable pid
  · refine iff_of_true ⟨killable.2.1, ?_, ?_⟩ (processKillByPid_fst image s pid killable)
    · have small := s.lt_of_processFindByPid killable.2.1
      rw [processFindByPid_of_lt _ small, s.processKillByPid_of_killable image pid killable]
      exact Function.update_self _ _ _
    · rw [s.processKillByPid_of_killable image pid killable, setTable_states, setState_states,
        Function.update_self]
  · rw [s.processKillByPid_refused image pid killable]
    refine iff_of_false (fun effect => effect.1 effect.2.1) fun success => ?_
    unfold processKillByPid at success
    dsimp only at success
    split_ifs at success with one missing isKernel isCurrent
    · cases success
    · cases success
    · cases success
    · cases success
    all_goals exact killable ⟨one, missing, isKernel⟩

theorem setStatus_tookEffect_iff (pid : Word) {status : ProcessState}
    (legal : status = .ready ∨ status = .blocked ∨ status = .terminated) :
    TookEffect image s (s.processSetStatus pid status).2 (.setStatus pid status) ↔
      (s.processSetStatus pid status).1 ≠ 0 := by
  by_cases missing : s.processFindByPid pid = null
  · refine iff_of_false (fun effect => effect.1 missing) ?_
    simp [processSetStatus, missing]
  · have settable : s.Settable pid status := ⟨missing, legal⟩
    refine iff_of_true ⟨missing, ?_⟩ ?_
    · rw [processSetStatus_snd, if_pos settable, setState_states, Function.update_self]
    · rw [processSetStatus_fst s pid status settable]
      decide

end Effects

/-! ## The commands -/

section Commands

variable (image : Image) (before : ArgumentBuffer → Nat → Byte) (s : Kernel) (command : CString)

/-- A message of success or of failure, by the result of the call, between two others. -/
theorem tells_iff {first success failure last : Message} {told : Prop} [Decidable told]
    (good : success.Success) (bad : ¬ failure.Success) (before : ¬ first.Success)
    (after : ¬ last.Success) :
    (∃ message ∈ [first, if told then success else failure, last], message.Success) ↔ told := by
  by_cases holds : told
  · rw [if_pos holds]
    exact iff_of_true ⟨success, by simp, good⟩ holds
  · rw [if_neg holds]
    refine iff_of_false ?_ holds
    rintro ⟨message, member, told⟩
    simp only [List.mem_cons, List.not_mem_nil, or_false] at member
    rcases member with rfl | rfl | rfl
    · exact before told
    · exact bad told
    · exact after told

/-- A command that performs one operation is truthful if its test is exact. -/
theorem truthful_iff {after : Kernel} {op : ProcessOp} {messages : List Message} {told : Prop}
    (tells : (∃ message ∈ messages, message.Success) ↔ told) :
    Truthful image s ⟨after, [op], messages⟩ ↔ (TookEffect image s after op ↔ told) := by
  rw [Truthful, tells]
  simp only [List.mem_singleton, exists_eq_left]
  exact Iff.comm

/-- A command without an operation is truthful if it tells of no success. -/
theorem truthful_refused {after : Kernel} {messages : List Message}
    (refuses : ∀ message ∈ messages, ¬ message.Success) :
    Truthful image s ⟨after, [], messages⟩ := by
  refine iff_of_false ?_ ?_
  · rintro ⟨message, member, success⟩
    exact refuses message member success
  · rintro ⟨op, member, _⟩
    cases member

theorem spawnCommand_truthful : Truthful image s (s.spawnCommand image before command) := by
  unfold spawnCommand
  dsimp only
  split
  · exact truthful_refused image s (by simp [Message.Success])
  · refine (truthful_iff image s (tells_iff ?_ ?_ ?_ ?_)).mpr
      (createTest_tookEffect_iff image s _ _ _)
    all_goals simp [Message.Success]

theorem pkillCommand_truthful : Truthful image s (s.pkillCommand image before command) := by
  unfold pkillCommand
  dsimp only
  split
  · exact truthful_refused image s (by simp [Message.Success])
  · split
    · exact truthful_refused image s (by simp [Message.Success])
    · refine (truthful_iff image s (tells_iff ?_ ?_ ?_ ?_)).mpr
        (killByPid_tookEffect_iff image s _)
      · simp [Message.Success]
      · split
        · simp [Message.Success]
        · split <;> simp [Message.Success]
      · simp [Message.Success]
      · simp [Message.Success]

theorem readStatus_legal {name : CString} {status : ProcessState}
    (reads : readStatus name = some status) :
    status = .ready ∨ status = .blocked ∨ status = .terminated := by
  unfold readStatus at reads
  split_ifs at reads
  · cases reads
    exact Or.inl rfl
  · cases reads
    exact Or.inr (Or.inl rfl)
  · cases reads
    exact Or.inr (Or.inl rfl)

theorem pstatusCommand_truthful : Truthful image s (s.pstatusCommand before command) := by
  unfold pstatusCommand
  dsimp only
  split
  · exact truthful_refused image s (by simp [Message.Success])
  · split
    · exact truthful_refused image s (by simp [Message.Success])
    · split
      · exact truthful_refused image s (by simp [Message.Success])
      · next status reads =>
        refine (truthful_iff image s (tells_iff ?_ ?_ ?_ ?_)).mpr
          (setStatus_tookEffect_iff image s _ (readStatus_legal reads))
        all_goals simp [Message.Success]

theorem execCommand_truthful : Truthful image s (s.execCommand image command) := by
  unfold execCommand
  dsimp only
  refine (truthful_iff image s (tells_iff ?_ ?_ ?_ ?_)).mpr
    (exec_tookEffect_iff image s (command.drop 5))
  all_goals simp [Message.Success]

/-- A change of the current process is no operation of the five. -/
theorem pchCommand_truthful : Truthful image s (s.pchCommand command) := by
  unfold pchCommand
  split
  · exact truthful_refused image s (by simp [Message.Success])
  · split
    · exact iff_of_false (by simp [Message.Success]) (by simp [TookEffect])
    · exact truthful_refused image s (by simp [Message.Success])

/-- Since a fork never returns 0, the message of success is always printed. -/
theorem forkCommand_truthful_iff :
    Truthful image s (s.forkCommand image) ↔ s.currentProcess ≠ null ∧ s.testCount < 10 := by
  unfold forkCommand
  dsimp only
  refine (truthful_iff image s (tells_iff ?_ ?_ ?_ ?_)).trans ?_
  · simp [Message.Success]
  · simp [Message.Success]
  · simp [Message.Success]
  · simp [Message.Success]
  · rw [iff_true_right (s.sysFork_fst_pos image)]
    exact fork_tookEffect_iff image s

end Commands

/-- With all static records taken, `fork` prints the error code as the PID of a child. -/
theorem fork_reports_no_child :
    ¬ ∀ (image : Image) (before : ArgumentBuffer → Nat → Byte) (s : Kernel) (saved : CpuState)
      (command : CString), Truthful image s (s.processCommand image before saved command) := by
  intro allTruthful
  have full : (run (step Image.sample) (boot Image.sample) (List.replicate 9 .fork)).testCount =
      10 := by
    decide +kernel
  have branch : shellCommand (.ofString "fork") = .fork := by decide
  have truthful := allTruthful Image.sample (fun _ _ => 0)
    (run (step Image.sample) (boot Image.sample) (List.replicate 9 .fork)) {} (.ofString "fork")
  rw [processCommand, branch] at truthful
  have room := ((forkCommand_truthful_iff Image.sample _).mp truthful).2
  omega

/--
Every command reports the truth, except a `fork` without a current process or
without a record left.
-/
theorem reports_truthful_iff (image : Image) (before : ArgumentBuffer → Nat → Byte) (s : Kernel)
    (saved : CpuState) (command : CString) :
    Truthful image s (s.processCommand image before saved command) ↔
      (shellCommand command = .fork → s.currentProcess ≠ null ∧ s.testCount < 10) := by
  have other {outcome : Outcome} {branch : ShellCommand} (truthful : Truthful image s outcome)
      (different : branch ≠ .fork) : Truthful image s outcome ↔
        (branch = .fork → s.currentProcess ≠ null ∧ s.testCount < 10) :=
    iff_of_true truthful fun same => absurd same different
  unfold processCommand
  cases shellCommand command with
  | spawn => exact other (s.spawnCommand_truthful image before command) (by decide)
  | pkill => exact other (s.pkillCommand_truthful image before command) (by decide)
  | pstatus => exact other (s.pstatusCommand_truthful image before command) (by decide)
  | exec => exact other (s.execCommand_truthful image command) (by decide)
  | fork =>
      rw [s.forkCommand_truthful_iff image]
      exact ⟨fun forks _ => forks, fun forks => forks rfl⟩
  | schedule =>
      refine other (iff_of_false ?_ ?_) (by decide)
      · simp [Message.Success]
      · simp [TookEffect]
  | pch => exact other (s.pchCommand_truthful image command) (by decide)
  | getpid | unknown | help | about | status | memory | clear | version | keytest | ps | proc
  | sysinfo => exact other (truthful_refused image s (by simp [Message.Success])) (by decide)

end Kernel

end SimpleOS
