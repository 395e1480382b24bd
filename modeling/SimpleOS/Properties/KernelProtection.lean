import SimpleOS.Library.GuardedRun
import SimpleOS.Invariant.Effects

/-!
# Protection of the kernel process

The guards on PID 1 are repeated in each routine that ends a process by its
pid.  Three paths have none: `sys_exit` while the kernel process is current,
`process_set_status`, and `process_create`, whose own counter starts at PID 1.
-/

namespace SimpleOS

open Library.ByteMemory Library.LinkedChain Library.GuardedRun

namespace Kernel

/-- The kernel process is registered as PID 1, not terminated, and what it was booted as. -/
structure KernelIntact (image : Image) (s : Kernel) : Prop where
  booted : s.kernelProcess = (boot image).kernelProcess
  registered : s.processTable 1 = s.kernelProcess
  alive : s.states s.kernelProcess ≠ .terminated
  record : s.identity s.kernelProcess = (boot image).identity (boot image).kernelProcess

/-- The state in which an operation calls the scheduler: `sys_exit` marks its process first. -/
def beforeScheduling (s : Kernel) : KernelOp → Kernel
  | .syscall _ number exitCode _ _ => if number = sysExitNumber then s.exited exitCode else s
  | _ => s

/-- The operation keeps the kernel process intact, does not reap it, and never marks it. -/
def KernelKept (image : Image) (s : Kernel) (op : KernelOp) : Prop :=
  s.KernelIntact image ∧ s.reaped? ≠ some s.kernelProcess ∧
    (s.beforeScheduling op).states s.kernelProcess ≠ .terminated ∧
    (s.kernelStep image op).KernelIntact image

/-- The operation does not take one of the three unguarded paths. -/
def KernelSafe (s : Kernel) : KernelOp → Prop
  | .syscall _ number _ _ _ => number = sysExitNumber → s.currentProcess ≠ s.kernelProcess
  | .setStatus pid status => status = .terminated → pid ≠ 1
  | .create name _ _ => name = none
  | _ => True

/-- The first `process_create` takes the table entry of the kernel process. -/
theorem process_create_takes_pid_one :
    ¬ Along (kernelStep Image.sample) (KernelKept Image.sample) (boot Image.sample)
      [.create (some (.ofString "shell")) 0x101000 .normal] := by
  rintro ⟨⟨_, _, _, intact⟩, _⟩
  have taken : ∀ s, s = (boot Image.sample).kernelStep Image.sample
        (.create (some (.ofString "shell")) 0x101000 .normal) →
      s.processTable 1 ≠ s.kernelProcess := by
    intro s reached
    rw [reached]
    decide +kernel
  exact taken _ rfl intact.registered

variable {image : Image} {s : Kernel}

/-! ## The kernel process under the invariant -/

/-- What the runs keep that take no unguarded path. -/
structure Guarded (image : Image) (s : Kernel) : Prop where
  coherent : s.Coherent image
  fresh : s.creation = (0, heapStart)
  alive : s.states s.kernelProcess ≠ .terminated

theorem Coherent.kernelIntact (coherent : s.Coherent image)
    (alive : s.states s.kernelProcess ≠ .terminated) : s.KernelIntact image where
  booted := by rw [coherent.kernel, (boot_coherent image).kernel]
  registered := by
    rw [coherent.kernel]
    exact coherent.root.2.1
  alive := alive
  record := by rw [coherent.kernel_identity, (boot_coherent image).kernel_identity]

theorem boot_guarded (image : Image) : (boot image).Guarded image where
  coherent := boot_coherent image
  fresh := by
    have registry := boot_registry image
    exact congrArg (fun r : Registry => (r.createCount, r.heapCurrent)) registry
  alive := by
    rw [(boot_coherent image).kernel, boot_states, Function.update_self]
    exact fun impossible => by cases impossible

namespace Guarded

/-! ## What the process operations do to it -/

/-- A mark on another process leaves the kernel process alive. -/
theorem alive_of_mark (guarded : s.Guarded image) {t : Kernel} {condition : Prop}
    [Decidable condition] {target : Word} {state : ProcessState}
    (states : t.states = if condition then Function.update s.states target state else s.states)
    (safe : condition → target = s.kernelProcess → state ≠ .terminated) :
    t.states s.kernelProcess ≠ .terminated := by
  rw [states]
  split
  · next marked =>
      by_cases same : s.kernelProcess = target
      · rw [← same, Function.update_self]
        exact safe marked same.symm
      · rw [Function.update_of_ne same]
        exact guarded.alive
  · exact guarded.alive

end Guarded

/-- The scheduler terminates nothing. -/
theorem schedule_alive {process : Word} (alive : s.states process ≠ .terminated)
    (saved : CpuState) : (s.schedule saved).states process ≠ .terminated := by
  have requeued : s.requeueCurrent.states process ≠ .terminated := by
    rw [requeueCurrent_states]
    split
    · rw [Function.update_apply]
      split
      · exact fun impossible => by cases impossible
      · exact alive
    · exact alive
  by_cases empty : s.readyQueueHead = null
  · rw [schedule_states_idle s saved empty]
    exact alive
  · rw [schedule_states s saved empty]
    split
    · exact requeued
    · rw [Function.update_apply]
      split
      · exact fun impossible => by cases impossible
      · exact requeued

namespace Guarded

/-- The process operations leave it alive, but for an exit of its own and a stored status. -/
theorem step_alive (guarded : s.Guarded image) (op : ProcessOp) (outside : op.StatusOutside image)
    (exits : ∀ saved exitCode, op = .exit saved exitCode → s.currentProcess ≠ s.kernelProcess)
    (stores : ∀ pid, op = .setStatus pid .terminated → pid ≠ 1) :
    (s.step image op).states s.kernelProcess ≠ .terminated := by
  have coherent := guarded.coherent
  cases op with
  | createTest name entryPoint priority =>
      exact (coherent.processCreateTest_states name entryPoint priority).symm ▸ guarded.alive
  | fork => exact coherent.sysFork_states.symm ▸ guarded.alive
  | exec program =>
      exact guarded.alive_of_mark (sysExec_states image s program)
        fun runs same => absurd same runs.2.2
  | exit saved exitCode =>
      change (s.sysExit saved exitCode).states s.kernelProcess ≠ .terminated
      have other := exits saved exitCode rfl
      by_cases current : s.currentProcess = null
      · rw [sysExit_null s saved exitCode current]
        exact guarded.alive
      · rw [sysExit_eq s saved exitCode current]
        refine schedule_alive ?_ saved
        rw [exited_states, Function.update_of_ne other.symm]
        exact guarded.alive
  | processExit exitCode =>
      exact guarded.alive_of_mark (processExit_states s exitCode)
        fun exits same => absurd same exits.2
  | kill pid signal =>
      exact guarded.alive_of_mark (sysKill_states s pid signal)
        fun kills same => absurd same kills.1.2.2
  | wait status =>
      change (s.sysWait image status).2.states s.kernelProcess ≠ .terminated
      cases reaps : s.reaped? with
      | none =>
          rw [s.sysWait_none image reaps]
          exact guarded.alive
      | some proc =>
          rw [(coherent.sysWait_reaps outside reaps).2.1, Function.update_apply]
          split
          · exact fun impossible => by cases impossible
          · exact guarded.alive
  | killByPid pid =>
      exact guarded.alive_of_mark (coherent.processKillByPid_states pid)
        fun kills same => absurd same kills.2.2
  | setStatus pid status =>
      exact guarded.alive_of_mark (processSetStatus_states s pid status)
        fun _ same final => stores pid (final ▸ rfl) ((coherent.found_kernel_iff pid).mp same)
  | changeCurrent pid =>
      exact guarded.alive_of_mark (changeCurrentProcess_states s pid)
        fun _ _ impossible => by cases impossible
  | schedule saved => exact schedule_alive guarded.alive saved

/-- A safe call or operation keeps what the guarded runs keep. -/
theorem kernelStep (guarded : s.Guarded image) (op : KernelOp) (outside : op.StatusOutside image)
    (safe : s.KernelSafe op) : (s.kernelStep image op).Guarded image := by
  have unnamed : ∀ name entryPoint priority, op = .create name entryPoint priority →
      name = none := by
    rintro name entryPoint priority rfl
    exact safe
  rw [kernelStep_eq image s unnamed]
  cases performs : s.operation image op with
  | none => exact guarded
  | some performed =>
      have inside := operation_outside outside performs
      have coherent := guarded.coherent.step performed inside
      refine ⟨coherent, (step_creation image s performed).trans guarded.fresh, ?_⟩
      rw [coherent.kernel, ← guarded.coherent.kernel]
      refine guarded.step_alive performed inside ?_ ?_
      · rintro saved exitCode rfl
        cases op with
        | syscall _ number _ _ _ => exact safe (dispatched_exit performs)
        | _ => cases performs
      · rintro pid rfl
        cases op with
        | setStatus target status =>
            cases performs
            exact safe rfl
        | syscall _ number arg1 arg2 _ =>
            exact absurd performs (s.dispatched_ne_setStatus image _ number arg1 arg2 pid _)
        | _ => cases performs

/-- An operation keeps the kernel process exactly when it is safe. -/
theorem kept_iff (guarded : s.Guarded image) (op : KernelOp) (outside : op.StatusOutside image) :
    s.KernelKept image op ↔ s.KernelSafe op := by
  have coherent := guarded.coherent
  constructor
  · rintro ⟨_, _, unmarked, intact⟩
    cases op with
    | syscall saved number arg1 arg2 arg3 =>
        intro exits same
        rw [beforeScheduling, if_pos exits, exited_states, same, Function.update_self] at unmarked
        exact unmarked rfl
    | setStatus pid status =>
        rintro rfl rfl
        have found := (coherent.found_kernel_iff 1).mpr rfl
        have settable : s.Settable 1 .terminated :=
          ⟨found ▸ coherent.kernel_ne_null, Or.inr (Or.inr rfl)⟩
        have same : (s.kernelStep image (.setStatus 1 .terminated)).kernelProcess =
            s.kernelProcess :=
          congrArg Registry.kernelProcess (processSetStatus_registry s 1 .terminated)
        have alive := intact.alive
        rw [same] at alive
        change (s.processSetStatus 1 .terminated).2.states s.kernelProcess ≠ _ at alive
        rw [processSetStatus_states, if_pos settable, found, Function.update_self] at alive
        exact alive rfl
    | create name entryPoint priority =>
        cases name with
        | none => rfl
        | some name =>
            obtain ⟨taken, same⟩ := processCreate_first image s (congrArg Prod.fst guarded.fresh)
              (congrArg Prod.snd guarded.fresh) name entryPoint priority
            have collide : image.createSlot 0 = image.testSlot 0 := by
              rw [← coherent.kernel, ← same, ← taken]
              exact intact.registered
            exact absurd collide (Image.createSlot_ne_testSlot (by decide) (by decide))
    | _ => trivial
  · intro safe
    have after := guarded.kernelStep op outside safe
    refine ⟨coherent.kernelIntact guarded.alive, ?_, ?_, after.coherent.kernelIntact after.alive⟩
    · intro reaps
      obtain ⟨_, _, _, _, _, _, dead⟩ := coherent.reaped reaps
      exact guarded.alive dead
    · cases op with
      | syscall saved number arg1 arg2 arg3 =>
          rw [beforeScheduling]
          split
          · next exits =>
              rw [exited_states, Function.update_of_ne (safe exits).symm]
              exact guarded.alive
          · exact guarded.alive
      | _ => exact guarded.alive

end Guarded

/-- The kernel process is protected along a run exactly while no unguarded path is taken. -/
theorem kernel_kept_iff (image : Image) (ops : List KernelOp)
    (outside : ∀ op ∈ ops, op.StatusOutside image) :
    Along (kernelStep image) (KernelKept image) (boot image) ops ↔
      Along (kernelStep image) KernelSafe (boot image) ops :=
  along_iff_along
    (fun s op allowed (guarded : s.Guarded image) safe => guarded.kernelStep op allowed safe)
    (fun s op allowed (guarded : s.Guarded image) => guarded.kept_iff op allowed)
    (boot_guarded image) outside

/-- A forked child may exit, be reaped, and be killed by a pid that is not its own. -/
theorem kernel_kept_fork_schedule_exit_wait :
    Along (kernelStep Image.sample) (KernelKept Image.sample) (boot Image.sample)
      [.syscall {} sysForkNumber 0 0 0, .schedule {}, .syscall {} sysExitNumber 7 0 0,
        .syscall {} sysWaitNumber 0 0 0, .killByPid 1] := by
  refine (kernel_kept_iff Image.sample
    [.syscall {} sysForkNumber 0 0 0, .schedule {}, .syscall {} sysExitNumber 7 0 0,
      .syscall {} sysWaitNumber 0 0 0, .killByPid 1] ?_).mpr ⟨?_, trivial, ?_, ?_, trivial, trivial⟩
  · intro op member
    simp only [List.mem_cons, List.not_mem_nil, or_false] at member
    rcases member with rfl | rfl | rfl | rfl | rfl
    · exact fun _ => Or.inl rfl
    · trivial
    · exact fun waits => absurd waits (by decide)
    · exact fun _ => Or.inl rfl
    · trivial
  · exact fun impossible => by cases impossible
  · intro _
    decide +kernel
  · exact fun impossible => by cases impossible

end Kernel

end SimpleOS
